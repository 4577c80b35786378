import Vmem.Jemalloc.ZeroedExtents

/-!
# The outcome of `chunk_recycle`

A successful call takes exactly the range it returns out of the free set.  A
failing call leaves the pool as it was, except when the lock was dropped to get
a node for the trailing part and there was none: then the trailing part, and the
range unless an extent follows it, are dropped.
-/

namespace Vmem
namespace Jemalloc

variable {c : Config} {p : Pool} {newAddr size alignment : Nat}

/-- What a successful `chunk_recycle` has done. -/
structure Recycled (c : Config) (p p' : Pool) (newAddr size alignment : Nat)
    (zero : Bool) (ret : Nat) : Prop where
  change : PoolSection c p p' [] [⟨ret, size⟩]
  kept : p'.leaked = p.leaked
  aligned : alignment ∣ ret
  within : ∃ n ∈ p.chunksAd, (Span.mk ret size).Within (p.node n).span
  wanted : newAddr ≠ 0 → alignment = c.chunksize → ret = newAddr
  coalesced : Coalesced p → Coalesced p'
  zeroed : ZeroedSound p → ZeroedSound p'
  cleared : ZeroedSound p → zero = true → ∀ x, (Span.mk ret size).Has x → p'.mem x = 0

/-- What a failing `chunk_recycle` has done: nothing, unless an extent had to be
cut in three and there was no node for the third part. -/
structure NotRecycled (c : Config) (p p' : Pool) (alignment : Nat) : Prop where
  change : PoolSection c p p' [] []
  coalesced : Coalesced p → Coalesced p'
  zeroed : ZeroedSound p → ZeroedSound p'
  unchanged : p' = p ∨
    alignment ≠ c.chunksize ∧ p.baseNodes = [] ∧
      ∃ n ∈ p.chunksAd, 3 * c.chunksize ≤ (p.node n).size

theorem chunkRecycleZero_eq (p : Pool) (ret size : Nat) (zero zeroed : Bool) :
    chunkRecycleZero p ret size zero zeroed =
      { p with mem := (chunkRecycleZero p ret size zero zeroed).mem } := by
  unfold chunkRecycleZero
  split <;> rfl

/-- Zeroing stays inside the range. -/
theorem chunkRecycleZero_mem (p : Pool) (ret size : Nat) (zero zeroed : Bool) {x : Nat}
    (outside : ¬(Span.mk ret size).Has x) :
    (chunkRecycleZero p ret size zero zeroed).mem x = p.mem x := by
  unfold chunkRecycleZero
  split
  · exact if_neg outside
  · rfl

/-- Zeroing the range that was taken does not disturb the description. -/
theorem PoolSection.zero {p' : Pool} {ret : Nat}
    (change : PoolSection c p p' [] [⟨ret, size⟩]) (zero zeroed : Bool) :
    PoolSection c p (chunkRecycleZero p' ret size zero zeroed) [] [⟨ret, size⟩] := by
  have le := change.cover_free_le
  have memory : ∀ x, cover p.freeSpans x = 0 → cover [] x = 0 →
      (chunkRecycleZero p' ret size zero zeroed).mem x = p.mem x := by
    intro x free notGained
    rw [← change.mem x free notGained]
    apply chunkRecycleZero_mem
    intro inside
    have := le x
    rw [cover_cons, Span.ind_eq_one_iff.mpr inside, free] at this
    simp at this
  rw [chunkRecycleZero_eq]
  exact {
    trees := change.trees.of_edit rfl rfl fun _ _ => rfl
    nodes := change.nodes
    dropped := change.dropped
    heap := change.heap
    mem := memory
    huge := change.huge
    nodeCount := change.nodeCount
    baseNextAddr := change.baseNextAddr
    basePastAddr := change.basePastAddr
    memoryRanges := change.memoryRanges
    baseChunks := change.baseChunks }

/-- Zeroing a range that is not free does not disturb the flags. -/
theorem chunkRecycleZero_zeroed {p' : Pool} {ret : Nat}
    (change : PoolSection c p p' [] [⟨ret, size⟩]) (trees : FreeTrees c p)
    (zero marked : Bool) (sound : ZeroedSound p') :
    ZeroedSound (chunkRecycleZero p' ret size zero marked) := by
  have untouched : ∀ x, 0 < cover p'.freeSpans x →
      (chunkRecycleZero p' ret size zero marked).mem x = p'.mem x := by
    intro x free
    apply chunkRecycleZero_mem
    intro inside
    have le := change.cover_free_le x
    have once := trees.cover_le_one x
    rw [cover_cons, Span.ind_eq_one_iff.mpr inside, cover_nil] at le
    omega
  rw [chunkRecycleZero_eq]
  exact sound.of_mem rfl rfl fun x free => Or.inl (untouched x free)

namespace TakenFrom

variable {n lead : Nat} {taken : Taken}

/-- Once the extent is unlinked, the range and what follows it are not free. -/
theorem cover_eq_zero (source : TakenFrom c p newAddr size alignment taken n lead)
    (trees : FreeTrees c p) {x : Nat}
    (inside : (Span.mk taken.ret (size + taken.trailsize)).Has x) :
    cover taken.pool.freeSpans x = 0 := by
  have counted := (source.take_section trees).covers x
  have once := trees.cover_le_one x
  rw [cover_cons, cover_nil, Span.ind_eq_one_iff.mpr inside] at counted
  omega

theorem end_lt (source : TakenFrom c p newAddr size alignment taken n lead)
    (trees : FreeTrees c p) : taken.ret + size + taken.trailsize < Word.modulus := by
  rw [source.end_eq]
  exact (trees.extent n source.member).below

/-- The range itself could be recorded again at once. -/
theorem range_recordable (source : TakenFrom c p newAddr size alignment taken n lead)
    (trees : FreeTrees c p) (request : Request c size alignment) :
    Recordable c taken.pool taken.ret size := by
  have := source.end_lt trees
  apply Recordable.of_cover (source.take_section trees).trees request.nonempty
    request.size_dvd (source.ret_dvd request) (by omega)
  intro x inside
  apply source.cover_eq_zero trees
  rw [Span.has_mk] at inside ⊢
  omega

/-- The trailing part can be linked. -/
theorem trail_recordable (source : TakenFrom c p newAddr size alignment taken n lead)
    (trees : FreeTrees c p) (request : Request c size alignment)
    (trails : taken.trailsize ≠ 0) :
    Recordable c taken.pool (taken.ret + size) taken.trailsize := by
  apply Recordable.of_cover (source.take_section trees).trees
    (Nat.pos_of_ne_zero trails) source.trail_dvd
    (Nat.dvd_add (source.ret_dvd request) request.size_dvd) (source.end_lt trees)
  intro x inside
  apply source.cover_eq_zero trees
  rw [Span.has_mk] at inside ⊢
  omega

/-- Every extent left lies before the range or behind the trailing part. -/
theorem apart (source : TakenFrom c p newAddr size alignment taken n lead)
    (trees : FreeTrees c p) (request : Request c size alignment) :
    ∀ m ∈ taken.pool.chunksAd,
      (taken.pool.node m).addr + (taken.pool.node m).size ≤ taken.ret ∨
        taken.ret + size + taken.trailsize ≤ (taken.pool.node m).addr := by
  have nonempty : 0 < size + taken.trailsize := Nat.add_pos_left request.nonempty _
  have apart := apart_of_cover_eq_zero nonempty
    (fun m member => ((source.take_section trees).trees.extent m member).nonempty)
    fun x inside => source.cover_eq_zero trees inside
  intro m member
  have := apart m member
  omega

/-- Nothing starts where the extent ended. -/
theorem noneStarts (source : TakenFrom c p newAddr size alignment taken n lead)
    (trees : FreeTrees c p) (coalesced : Coalesced p) :
    ∀ m ∈ taken.pool.chunksAd,
      (taken.pool.node m).addr ≠ taken.ret + size + taken.trailsize := by
  intro m inRest
  rw [source.end_eq]
  rcases source.outcome with ⟨_, _, pool_eq⟩ | ⟨leads, _, pool_eq⟩
  · rw [pool_eq] at inRest ⊢
    exact (coalesced n source.member m (OrderedTree.mem_of_mem_remove inRest)).symm
  · rw [pool_eq] at inRest ⊢
    rcases OrderedTree.mem_insert.mp inRest with isNode | old
    · rw [isNode, link_node_self]
      have := (trees.extent n source.member).nonempty
      dsimp only
      omega
    · obtain ⟨different, inTree⟩ := (OrderedTree.mem_remove trees.nodupAd).mp old
      rw [link_node_of_ne (unlink p n) _ different]
      exact (coalesced n source.member m inTree).symm

/-- Linking the trailing part leaves only the range taken. -/
theorem trail_section (source : TakenFrom c p newAddr size alignment taken n lead)
    (trees : FreeTrees c p) (request : Request c size alignment)
    (trails : taken.trailsize ≠ 0) {m : Nat} (fresh : m ∉ taken.pool.chunksAd) :
    TreeSection c p
      (chunkRecycleTrail taken.pool m (taken.ret + size) taken.trailsize taken.zeroed)
      [m] taken.node.toList [] [⟨taken.ret, size⟩] := by
  have first := source.take_section trees
  have second := chunkRecycleTrail_section first.trees taken.zeroed fresh
    (source.trail_recordable trees request trails)
  have both := first.trans second
  rw [List.append_nil] at both
  apply both.change_spans
  intro x
  have cut := Span.ind_add taken.ret size taken.trailsize x
  simp only [List.nil_append, List.append_nil, cover_cons, cover_nil, cut]
  omega

theorem trail_coalesced (source : TakenFrom c p newAddr size alignment taken n lead)
    (trees : FreeTrees c p) (request : Request c size alignment)
    (trails : taken.trailsize ≠ 0) {m : Nat} (fresh : m ∉ taken.pool.chunksAd)
    (coalesced : Coalesced p) :
    Coalesced (chunkRecycleTrail taken.pool m (taken.ret + size) taken.trailsize
      taken.zeroed) := by
  apply chunkRecycleTrail_coalesced taken.zeroed fresh (Nat.pos_of_ne_zero trails)
    (source.take_coalesced trees request.nonempty coalesced)
  · intro k inRest ends
    have nonempty := ((source.take_section trees).trees.extent k inRest).nonempty
    have sizePos := request.nonempty
    have := source.apart trees request k inRest
    omega
  · exact source.noneStarts trees coalesced

/-- The range lies in the extent it was cut from. -/
theorem within (source : TakenFrom c p newAddr size alignment taken n lead) :
    (Span.mk taken.ret size).Within (p.node n).span := by
  have start := source.start
  have ends := source.end_eq
  unfold Span.Within ExtentNode.span
  dsimp only
  omega

/-- An extent that leaves something on both sides has three chunks. -/
theorem three_chunks (source : TakenFrom c p newAddr size alignment taken n lead)
    (request : Request c size alignment) (leads : lead ≠ 0) (trails : taken.trailsize ≠ 0) :
    3 * c.chunksize ≤ (p.node n).size := by
  have first := Nat.le_of_dvd (Nat.pos_of_ne_zero leads) source.lead_dvd
  have second := request.chunksize_le_size
  have third := Nat.le_of_dvd (Nat.pos_of_ne_zero trails) source.trail_dvd
  rw [source.parts]
  omega

theorem take_zeroed (source : TakenFrom c p newAddr size alignment taken n lead)
    (sound : ZeroedSound p) : ZeroedSound taken.pool := by
  rcases source.outcome with ⟨_, _, pool_eq⟩ | ⟨_, _, pool_eq⟩
  · rw [pool_eq]
    exact sound.unlink n
  · rw [pool_eq]
    apply (sound.unlink n).link
    intro marked x inside
    have parts := source.parts
    apply sound n source.member marked x
    rw [ExtentNode.has_span] at inside ⊢
    dsimp only at inside
    omega

/-- A range taken from an extent marked as zeroed is zero. -/
theorem range_zero (source : TakenFrom c p newAddr size alignment taken n lead)
    (sound : ZeroedSound p) (marked : taken.zeroed = true) {x : Nat}
    (inside : (Span.mk taken.ret (size + taken.trailsize)).Has x) : p.mem x = 0 := by
  rw [source.zeroed] at marked
  apply sound n source.member marked x
  have start := source.start
  have ends := source.end_eq
  rw [Span.has_mk] at inside
  rw [ExtentNode.has_span]
  omega

theorem trail_zeroed (source : TakenFrom c p newAddr size alignment taken n lead)
    (trees : FreeTrees c p) (sound : ZeroedSound p) (m : Nat) :
    ZeroedSound (chunkRecycleTrail taken.pool m (taken.ret + size) taken.trailsize
      taken.zeroed) := by
  rw [chunkRecycleTrail_eq_link]
  apply (source.take_zeroed sound).link
  intro marked x inside
  rw [(source.take_section trees).edit.mem]
  apply source.range_zero sound marked
  rw [ExtentNode.has_span] at inside
  rw [Span.has_mk]
  dsimp only at inside
  omega

/-- A successful outcome, from what it did to trees, dropped ranges, coalescing
and flags. -/
theorem recycled (source : TakenFrom c p newAddr size alignment taken n lead)
    (trees : FreeTrees c p) {p' : Pool} (zero : Bool)
    (change : PoolSection c p p' [] [⟨taken.ret, size⟩])
    (kept : p'.leaked = p.leaked)
    (mem : p'.mem = p.mem)
    (coalesced : Coalesced p → Coalesced p')
    (zeroed : ZeroedSound p → ZeroedSound p') :
    Recycled c p (chunkRecycleZero p' taken.ret size zero taken.zeroed)
      newAddr size alignment zero taken.ret where
  change := change.zero zero taken.zeroed
  kept := by
    rw [chunkRecycleZero_eq]
    exact kept
  aligned := source.aligned
  within := ⟨n, source.member, source.within⟩
  wanted := by
    intro given equal
    subst equal
    exact source.ret_eq given
  coalesced := by
    intro before
    rw [chunkRecycleZero_eq]
    exact coalesced before
  zeroed := fun before =>
    chunkRecycleZero_zeroed change trees zero taken.zeroed (zeroed before)
  cleared := by
    intro sound asked x inside
    unfold chunkRecycleZero
    cases marked : taken.zeroed with
    | false =>
        rw [asked]
        exact if_pos inside
    | true =>
        simp only [Bool.not_true, Bool.and_false, Bool.false_eq_true, ↓reduceIte]
        rw [mem]
        apply source.range_zero sound marked
        rw [Span.has_mk] at inside ⊢
        omega

/-- The error path: the trailing part is dropped and the range recorded again. -/
theorem notRecycled (source : TakenFrom c p newAddr size alignment taken n lead)
    (trees : FreeTrees c p) (apart : NodesApart p) (request : Request c size alignment)
    (leads : lead ≠ 0) (node : taken.node = none)
    (trails : taken.trailsize ≠ 0) (nodes : p.baseNodes = []) :
    NotRecycled c p (chunkDallocCore c { taken.pool with
      leaked := ⟨taken.ret + size, taken.trailsize⟩ :: taken.pool.leaked }
      taken.ret size) alignment := by
  have take := source.take_section trees
  rw [node] at take
  rw [chunkDallocCore_record]
  have first : PoolSection c p { taken.pool with
      leaked := ⟨taken.ret + size, taken.trailsize⟩ :: taken.pool.leaked,
      curchunks := Word.sub taken.pool.curchunks (size / c.chunksize) }
      [] [⟨taken.ret, size⟩] := {
    trees := take.trees.of_edit rfl rfl fun _ _ => rfl
    nodes := by
      have := take.nodes
      rw [Option.toList_none, List.append_nil, List.append_nil] at this
      change (taken.pool.chunksAd ++ taken.pool.baseNodes).Perm _
      rw [take.edit.baseNodes]
      exact this.append_right p.baseNodes
    dropped := by
      refine ⟨[⟨taken.ret + size, taken.trailsize⟩], ?_, ?_⟩
      · rw [← take.edit.leaked]
        rfl
      · intro x
        have counted := take.covers x
        have cut := Span.ind_add taken.ret size taken.trailsize x
        simp only [cover_cons, cover_nil, cut] at counted ⊢
        change cover taken.pool.freeSpans x + _ + _ = _
        omega
    heap := fun m absent _ => take.heap m absent (by simp)
    mem := fun x _ _ => congrFun take.edit.mem x
    huge := take.edit.huge
    nodeCount := take.edit.nodeCount
    baseNextAddr := take.edit.baseNextAddr
    basePastAddr := take.edit.basePastAddr
    memoryRanges := take.edit.memoryRanges
    baseChunks := take.edit.baseChunks }
  have range := source.range_recordable trees request
  have again : Recordable c { taken.pool with
      leaked := ⟨taken.ret + size, taken.trailsize⟩ :: taken.pool.leaked,
      curchunks := Word.sub taken.pool.curchunks (size / c.chunksize) }
      taken.ret size := {
    nonempty := range.nonempty
    size_dvd := range.size_dvd
    addr_dvd := range.addr_dvd
    below := range.below
    apart := range.apart }
  have second := chunkRecord_section false first.trees (first.nodesApart apart) again
  refine {
    change := (first.trans second).cancel fun x => ?_
    coalesced := fun before => chunkRecord_coalesced false first.trees
      (first.nodesApart apart) again
      (source.take_coalesced trees request.nonempty before)
    zeroed := fun before => chunkRecord_zeroed first.trees (first.nodesApart apart) again
      (by simp) (source.take_zeroed before)
    unchanged := Or.inr ⟨?_, nodes, n, source.member,
      source.three_chunks request leads trails⟩ }
  · exact (source.within.ind_le x).trans (Pool.ind_le_cover_free source.member x)
  · intro equal
    subst equal
    exact leads source.lead_eq_zero

end TakenFrom

/-- Once its extent is unlinked, `chunk_recycle` fails only for want of a node. -/
theorem chunkRecycleRest_cases {n lead : Nat} {taken : Taken}
    (source : TakenFrom c p newAddr size alignment taken n lead)
    (trees : FreeTrees c p) (apart : NodesApart p)
    (request : Request c size alignment) (zero : Bool) :
    (∃ p', chunkRecycleRest c taken size zero =
          (p', some (taken.ret, zero || taken.zeroed)) ∧
        Recycled c p p' newAddr size alignment zero taken.ret) ∨
      ∃ p', chunkRecycleRest c taken size zero = (p', none) ∧
        NotRecycled c p p' alignment := by
  have take := source.take_section trees
  have trailStart : Word.add taken.ret size = taken.ret + size :=
    Word.add_eq (by have := source.end_lt trees; omega)
  simp only [chunkRecycleRest, trailStart]
  by_cases trails : taken.trailsize ≠ 0
  · simp only [if_pos trails]
    rcases source.outcome with ⟨_, node, pool_eq⟩ | ⟨leads, node, pool_eq⟩
    · -- no leading part: the node of the extent takes the trailing part
      have fresh : n ∉ taken.pool.chunksAd := by
        rw [pool_eq]
        exact fun inRest => ((OrderedTree.mem_remove trees.nodupAd).mp inRest).1 rfl
      have change := source.trail_section trees request trails fresh
      rw [node] at change
      have inPool := PoolSection.of_tree_nil (change.return_node source.member)
      simp only [node]
      exact Or.inl ⟨_, rfl, source.recycled trees zero inPool change.edit.leaked
        change.edit.mem (source.trail_coalesced trees request trails fresh)
        fun before => source.trail_zeroed trees before n⟩
    · simp only [node, baseNodeAlloc_eq]
      cases nodes : p.baseNodes with
      | nil =>
          have noNodes : taken.pool.baseNodes = [] := by rw [take.edit.baseNodes, nodes]
          have noHead : taken.pool.baseNodes.head? = none := by rw [noNodes, List.head?_nil]
          have noTail : taken.pool.baseNodes.tail = taken.pool.baseNodes := by
            rw [noNodes, List.tail_nil]
          simp only [noHead, noTail]
          exact Or.inr ⟨_, rfl,
            source.notRecycled trees apart request leads node trails nodes⟩
      | cons m rest =>
          have someNode : taken.pool.baseNodes = m :: rest := by
            rw [take.edit.baseNodes, nodes]
          have fresh : m ∉ taken.pool.chunksAd := by
            intro linked
            have old := (take.mem_of_mem linked).resolve_right (by simp)
            exact apart.notMem (by rw [nodes]; exact List.mem_cons_self) old
          have change := source.trail_section trees request trails fresh
          have framed := change.frame taken.pool.mem rest
          have returned : rest.Perm (taken.node.toList ++ rest) := by
            rw [node, Option.toList_none, List.nil_append]
          have inPool := PoolSection.of_tree framed
            (by rw [nodes, List.singleton_append]) returned
            (fun x _ _ => congrFun take.edit.mem x)
          simp only [someNode, List.head?_cons, List.tail_cons]
          exact Or.inl ⟨_, rfl, source.recycled trees zero inPool change.edit.leaked
            change.edit.mem (source.trail_coalesced trees request trails fresh)
            fun before => source.trail_zeroed trees before m⟩
  · simp only [if_neg trails, baseNodeDallocIf_eq]
    have zeroTrail : taken.trailsize = 0 := not_not.mp trails
    have change : TreeSection c p taken.pool [] taken.node.toList []
        [⟨taken.ret, size⟩] := by
      rw [zeroTrail, Nat.add_zero] at take
      exact take
    have framed := change.frame taken.pool.mem p.baseNodes
    have returned : (taken.node.toList ++ taken.pool.baseNodes).Perm
        (taken.node.toList ++ p.baseNodes) := by rw [take.edit.baseNodes]
    have inPool := PoolSection.of_tree framed (by rw [List.nil_append]) returned
      (fun x _ _ => congrFun take.edit.mem x)
    exact Or.inl ⟨_, rfl, source.recycled trees zero inPool change.edit.leaked
      change.edit.mem (source.take_coalesced trees request.nonempty) source.take_zeroed⟩

/-- `chunk_recycle` takes exactly the range it returns, or fails. -/
theorem chunkRecycle_cases (trees : FreeTrees c p) (apart : NodesApart p)
    (request : Request c size alignment) (newAddr : Nat) (zero : Bool) :
    (∃ p' ret zeroOut,
        chunkRecycle c p newAddr size alignment zero = (p', some (ret, zeroOut)) ∧
          Recycled c p p' newAddr size alignment zero ret) ∨
      ∃ p', chunkRecycle c p newAddr size alignment zero = (p', none) ∧
        NotRecycled c p p' alignment := by
  have nothing : NotRecycled c p p alignment := {
    change := PoolSection.refl trees
    coalesced := id
    zeroed := id
    unchanged := Or.inl rfl }
  unfold chunkRecycle
  by_cases wraps : Word.sub (Word.add size alignment) c.chunksize < size
  · exact Or.inr ⟨p, by simp only [if_pos wraps], nothing⟩
  simp only [if_neg wraps]
  rw [allocSize_eq request wraps]
  cases found : chunkRecycleTake p newAddr size alignment
      (size + alignment - c.chunksize) with
  | none => exact Or.inr ⟨p, rfl, nothing⟩
  | some taken =>
      obtain ⟨n, lead, source⟩ := chunkRecycleTake_some trees request found
      rcases chunkRecycleRest_cases source trees apart request zero with
        ⟨p', result, recycled⟩ | ⟨p', result, failed⟩
      · exact Or.inl ⟨p', _, _, result, recycled⟩
      · exact Or.inr ⟨p', result, failed⟩

/-- The data segment makes no difference to a range that lies outside of it. -/
theorem chunkRecycleRest_eq {dss : Dss} {taken : Taken}
    (outside : (c.haveDss && chunkInDss dss taken.ret) = false) (size : Nat) (zero : Bool) :
    chunkRecycleRest c taken size zero dss = chunkRecycleRest c taken size zero := by
  unfold chunkRecycleRest
  simp only [chunkDallocCore_eq outside, chunkDallocCore_record]

/-- Nor does it when no free extent lies in it. -/
theorem chunkRecycle_eq {dss : Dss} (trees : FreeTrees c p) (request : Request c size alignment)
    (outside : ∀ n ∈ p.chunksAd, ∀ x, (p.node n).span.Has x →
      (c.haveDss && chunkInDss dss x) = false) (newAddr : Nat) (zero : Bool) :
    chunkRecycle c p newAddr size alignment zero dss =
      chunkRecycle c p newAddr size alignment zero := by
  unfold chunkRecycle
  by_cases wraps : Word.sub (Word.add size alignment) c.chunksize < size
  · simp only [if_pos wraps]
  simp only [if_neg wraps]
  rw [allocSize_eq request wraps]
  cases found : chunkRecycleTake p newAddr size alignment
      (size + alignment - c.chunksize) with
  | none => rfl
  | some taken =>
      obtain ⟨n, lead, source⟩ := chunkRecycleTake_some trees request found
      have starts : (p.node n).span.Has taken.ret := by
        have start := source.start
        have parts := source.parts
        have nonempty := request.nonempty
        rw [ExtentNode.has_span]
        omega
      exact chunkRecycleRest_eq (outside n source.member taken.ret starts) size zero

/-- A request with chunk alignment never wraps. -/
theorem Request.noWrap {size : Nat} (request : Request c size c.chunksize) :
    ¬Word.sub (Word.add size c.chunksize) c.chunksize < size := by
  have sizeLt := request.size_lt
  have chunkLt := request.alignment_lt
  rcases Nat.lt_or_ge (size + c.chunksize) Word.modulus with fits | wraps
  · rw [Word.add_eq fits, Word.sub_eq (by omega) fits]
    omega
  · rw [Word.add_eq_of_wraps sizeLt chunkLt wraps, Word.sub_eq_of_lt (by omega) chunkLt]
    omega

/-- With chunk alignment `chunk_recycle` succeeds if it finds an extent. -/
theorem chunkRecycle_of_take {size : Nat} {taken : Taken} (trees : FreeTrees c p)
    (request : Request c size c.chunksize)
    (found : chunkRecycleTake p newAddr size c.chunksize size = some taken) (zero : Bool) :
    ∃ p' ret zeroOut,
      chunkRecycle c p newAddr size c.chunksize zero = (p', some (ret, zeroOut)) := by
  unfold chunkRecycle
  dsimp only
  rw [if_neg request.noWrap, allocSize_eq request request.noWrap, Nat.add_sub_cancel, found]
  have asked : chunkRecycleTake p newAddr size c.chunksize (size + c.chunksize - c.chunksize) =
      some taken := by rw [Nat.add_sub_cancel, found]
  obtain ⟨m, lead, source⟩ := chunkRecycleTake_some trees request asked
  have noLead := source.lead_eq_zero
  rcases source.outcome with ⟨_, node, _⟩ | ⟨leads, _, _⟩
  · simp only [chunkRecycleRest, node]
    split
    · exact ⟨_, _, _, rfl⟩
    · exact ⟨_, _, _, rfl⟩
  · exact absurd noLead leads

/-- With chunk alignment `chunk_recycle` fails if it finds no extent. -/
theorem chunkRecycle_of_no_take {size : Nat} (request : Request c size c.chunksize)
    (missing : chunkRecycleTake p newAddr size c.chunksize size = none) (zero : Bool) :
    chunkRecycle c p newAddr size c.chunksize zero = (p, none) := by
  unfold chunkRecycle
  dsimp only
  rw [if_neg request.noWrap, allocSize_eq request request.noWrap, Nat.add_sub_cancel, missing]

/-- An extent that is long enough serves a request with chunk alignment. -/
theorem chunkRecycle_of_long {n size : Nat} (trees : FreeTrees c p)
    (request : Request c size c.chunksize) (member : n ∈ p.chunksAd)
    (long : size ≤ (p.node n).size) (zero : Bool) :
    ∃ p' ret zeroOut, chunkRecycle c p 0 size c.chunksize zero = (p', some (ret, zeroOut)) := by
  cases found : chunkRecycleTake p 0 size c.chunksize size with
  | none =>
      unfold chunkRecycleTake at found
      cases searched : OrderedTree.nsearch (fun m => (p.node m).szadKey)
          (toLex (size, 0)) p.chunksSzad with
      | none =>
          have shorter := OrderedTree.nsearch_none searched n (trees.mem_szad.mpr member)
          rcases Prod.Lex.lt_iff.mp shorter with less | ⟨_, less⟩
          · exact absurd long (not_le.mpr less)
          · exact absurd less (Nat.not_lt_zero _)
      | some m =>
          simp only [searched, ne_eq, not_true_eq_false, false_and, if_false] at found
          split at found
          · cases found
          · cases found
  | some taken => exact chunkRecycle_of_take trees request found zero

/-- If all extents are too short, `chunk_recycle` fails. -/
theorem chunkRecycle_of_short {size : Nat} (request : Request c size c.chunksize)
    (short : ∀ n ∈ p.chunksSzad, (p.node n).size < size) (zero : Bool) :
    chunkRecycle c p newAddr size c.chunksize zero = (p, none) := by
  refine chunkRecycle_of_no_take request ?_ zero
  unfold chunkRecycleTake
  cases searched : OrderedTree.nsearch (fun m => (p.node m).szadKey)
      (toLex (size, newAddr)) p.chunksSzad with
  | none => rfl
  | some m =>
      obtain ⟨member, large⟩ := OrderedTree.nsearch_some searched
      have less := short m member
      rcases Prod.Lex.le_iff.mp large with longer | ⟨equal, _⟩
      · exact absurd less (not_lt.mpr (le_of_lt longer))
      · exact absurd less (not_lt.mpr (le_of_eq equal))

end Jemalloc
end Vmem
