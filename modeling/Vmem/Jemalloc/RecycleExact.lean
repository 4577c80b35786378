import Vmem.Jemalloc.ChunkStats
import Vmem.Jemalloc.PoolRun
import Vmem.Jemalloc.RallocPaths

/-!
# Exactly when `chunk_recycle` finds chunks, and what it leaves

The search goes through the tree ordered by size and then address, so a request is served
from the smallest extent that is long enough for every alignment; a request for an address
fails unless the extent that is found begins there.  A call that finds its extent fails only
if the extent is cut on both sides and no node is spare.
-/

namespace Vmem
namespace Jemalloc

variable {c : Config} {p : Pool} {newAddr size alignment n : Nat}

/-! ## The search -/

/-- The extent with the smallest pair of size and address from the wanted pair on. -/
def BestFit (p : Pool) (length addr n : Nat) : Prop :=
  n ∈ p.chunksAd ∧ toLex (length, addr) ≤ (p.node n).szadKey ∧
    ∀ m ∈ p.chunksAd, toLex (length, addr) ≤ (p.node m).szadKey →
      (p.node n).szadKey ≤ (p.node m).szadKey

theorem FreeTrees.nsearch_iff (trees : FreeTrees c p) {length addr : Nat} :
    OrderedTree.nsearch (fun m => (p.node m).szadKey) (toLex (length, addr)) p.chunksSzad =
      some n ↔ BestFit p length addr n := by
  rw [OrderedTree.nsearch_eq_some_iff trees.sortedSzad]
  unfold BestFit
  simp only [trees.mem_szad]

theorem szadKey_le_iff {length addr : Nat} {node : ExtentNode} :
    toLex (length, addr) ≤ node.szadKey ↔
      length < node.size ∨ length = node.size ∧ addr ≤ node.addr := Prod.Lex.le_iff

/-- What is found is long enough. -/
theorem BestFit.long {length addr : Nat} (best : BestFit p length addr n) :
    length ≤ (p.node n).size := by
  rcases szadKey_le_iff.mp best.2.1 with longer | ⟨equal, _⟩
  · exact le_of_lt longer
  · exact le_of_eq equal

/-- If an extent is long enough, one is found. -/
theorem FreeTrees.exists_bestFit (trees : FreeTrees c p) {length : Nat} (member : n ∈ p.chunksAd)
    (long : length ≤ (p.node n).size) : ∃ m, BestFit p length 0 m := by
  cases searched : OrderedTree.nsearch (fun m => (p.node m).szadKey) (toLex (length, 0))
      p.chunksSzad with
  | some m => exact ⟨m, trees.nsearch_iff.mp searched⟩
  | none =>
      have shorter := OrderedTree.nsearch_none searched n (trees.mem_szad.mpr member)
      rcases Prod.Lex.lt_iff.mp shorter with less | ⟨_, less⟩
      · exact absurd long (not_le.mpr less)
      · exact absurd less (Nat.not_lt_zero _)

/-- The check for wrap-around lets through exactly the sums that are words. -/
theorem Request.passes_iff (request : Request c size alignment) :
    ¬Word.sub (Word.add size alignment) c.chunksize < size ↔
      size + alignment - c.chunksize < Word.modulus := by
  have sizeLt := request.size_lt
  have alignmentLt := request.alignment_lt
  have chunkLe := request.chunksize_le_alignment
  constructor
  · intro passes
    rw [← allocSize_eq request passes]
    exact Word.sub_lt ..
  · intro fits
    rcases Nat.lt_or_ge (size + alignment) Word.modulus with sum | wraps
    · rw [Word.add_eq sum, Word.sub_eq (by omega) sum]
      omega
    · rw [Word.add_eq_of_wraps sizeLt alignmentLt wraps, Word.sub_eq_of_lt (by omega) (by omega)]
      omega

/-- The extent a request is served from. -/
def ServedBy (c : Config) (p : Pool) (newAddr size alignment n : Nat) : Prop :=
  size + alignment - c.chunksize < Word.modulus ∧
    BestFit p (size + alignment - c.chunksize) newAddr n ∧
    (newAddr ≠ 0 → (p.node n).addr = newAddr)

/-- There is at most one. -/
theorem ServedBy.unique {m : Nat} (trees : FreeTrees c p)
    (first : ServedBy c p newAddr size alignment n)
    (second : ServedBy c p newAddr size alignment m) : m = n := by
  have left := trees.nsearch_iff.mpr first.2.1
  rw [trees.nsearch_iff.mpr second.2.1] at left
  exact Option.some.inj left

theorem chunkRecycleTake_of_served (trees : FreeTrees c p)
    (served : ServedBy c p newAddr size alignment n) :
    ∃ taken, chunkRecycleTake p newAddr size alignment (size + alignment - c.chunksize) =
      some taken := by
  obtain ⟨_, best, wanted⟩ := served
  unfold chunkRecycleTake
  rw [trees.nsearch_iff.mpr best]
  dsimp only
  rw [if_neg fun elsewhere : newAddr ≠ 0 ∧ (p.node n).addr ≠ newAddr =>
    elsewhere.2 (wanted elsewhere.1)]
  split
  · exact ⟨_, rfl⟩
  · exact ⟨_, rfl⟩

/-! ## The cut -/

/-- Multiples of the alignment that are less than one alignment apart are equal. -/
theorem eq_of_dvd_of_close {a b step : Nat} (first : step ∣ a) (second : step ∣ b)
    (lower : a < b + step) (upper : b < a + step) : a = b := by
  obtain ⟨i, rfl⟩ := first
  obtain ⟨j, rfl⟩ := second
  rw [← Nat.mul_succ] at lower upper
  have := Nat.lt_of_mul_lt_mul_left lower
  have := Nat.lt_of_mul_lt_mul_left upper
  have equal : i = j := by omega
  rw [equal]

namespace TakenFrom

variable {taken : Taken} {lead : Nat}

/-- The range begins at the first aligned address of its extent. -/
theorem ret_eq_ceil (source : TakenFrom c p newAddr size alignment taken n lead)
    (trees : FreeTrees c p) (request : Request c size alignment)
    (long : size + alignment - c.chunksize ≤ (p.node n).size) :
    taken.ret = Word.ceil (p.node n).addr alignment := by
  have below := (trees.extent n source.member).below
  have positive := request.alignment_pos
  have chunkLe := request.chunksize_le_size
  have chunkPos := c.chunksize_pos
  have fits : (p.node n).addr + (alignment - 1) < Word.modulus := by omega
  have lower := Word.le_ceil positive fits
  have upper := Word.ceil_lt_add positive fits
  have start := source.start
  have close := source.lead_le
  have alignmentLe := request.chunksize_le_alignment
  exact eq_of_dvd_of_close source.aligned (Word.dvd_ceil ..) (by omega) (by omega)

/-- There is a leading part unless the extent begins at an aligned address. -/
theorem lead_eq_zero_iff (source : TakenFrom c p newAddr size alignment taken n lead)
    (request : Request c size alignment) : lead = 0 ↔ alignment ∣ (p.node n).addr := by
  have aligned := source.aligned
  rw [source.start] at aligned
  constructor
  · rintro rfl
    exact aligned
  · intro divides
    have leadDvd := (Nat.dvd_add_right divides).mp aligned
    have close := source.lead_le
    have := request.alignment_pos
    have := c.chunksize_pos
    exact Nat.eq_zero_of_dvd_of_lt leadDvd (by omega)

end TakenFrom

/-- The extent that is found is cut on both sides and there is no node for the third part. -/
def CutWithoutNode (c : Config) (p : Pool) (newAddr size alignment : Nat) : Prop :=
  p.baseNodes = [] ∧ ∃ n, ServedBy c p newAddr size alignment n ∧
    ¬alignment ∣ (p.node n).addr ∧
    Word.ceil (p.node n).addr alignment + size ≠ (p.node n).addr + (p.node n).size

/-- The cut in terms of what `chunk_recycle` has in hand. -/
theorem cutWithoutNode_iff {taken : Taken} (trees : FreeTrees c p)
    (request : Request c size alignment)
    (fits : size + alignment - c.chunksize < Word.modulus)
    (took : chunkRecycleTake p newAddr size alignment (size + alignment - c.chunksize) =
      some taken) :
    CutWithoutNode c p newAddr size alignment ↔
      taken.trailsize ≠ 0 ∧ taken.node = none ∧ taken.pool.baseNodes = [] := by
  obtain ⟨n, lead, searched, source⟩ := chunkRecycleTake_found trees request took
  have best := trees.nsearch_iff.mp searched
  have served : ServedBy c p newAddr size alignment n := ⟨fits, best, source.wanted⟩
  have start := source.ret_eq_ceil trees request best.long
  have ends := source.end_eq
  have leads : taken.node = none ↔ ¬alignment ∣ (p.node n).addr := by
    rw [← source.lead_eq_zero_iff request]
    rcases source.outcome with ⟨zero, node, _⟩ | ⟨leads, node, _⟩
    · simp [zero, node]
    · simp [leads, node]
  have trails : taken.trailsize ≠ 0 ↔ Word.ceil (p.node n).addr alignment + size ≠
      (p.node n).addr + (p.node n).size := by
    rw [← start]
    omega
  rw [(chunkRecycleTake_same took).2, leads, trails]
  constructor
  · rintro ⟨empty, m, other, misaligned, longer⟩
    rw [served.unique trees other] at misaligned longer
    exact ⟨longer, misaligned, empty⟩
  · rintro ⟨longer, misaligned, empty⟩
    exact ⟨empty, n, served, misaligned, longer⟩

/-- How `chunk_recycle` ends, and exactly when. -/
inductive RecycleEnd (c : Config) (p : Pool) (newAddr size alignment : Nat) (zero : Bool) : Prop
  | missing (unserved : ∀ n, ¬ServedBy c p newAddr size alignment n)
      (same : chunkRecycle c p newAddr size alignment zero = (p, none))
  | starved (cut : CutWithoutNode c p newAddr size alignment)
      (failed : (chunkRecycle c p newAddr size alignment zero).2 = none)
      (counted : CountedOut c p size (chunkRecycle c p newAddr size alignment zero).1)
  | served (n : Nat) (served : ServedBy c p newAddr size alignment n)
      (whole : ¬CutWithoutNode c p newAddr size alignment)
      (succeeded : (chunkRecycle c p newAddr size alignment zero).2 ≠ none)
      (stats : StatsSame p (chunkRecycle c p newAddr size alignment zero).1)

theorem chunkRecycle_end (trees : FreeTrees c p) (request : Request c size alignment)
    (newAddr : Nat) (zero : Bool) : RecycleEnd c p newAddr size alignment zero := by
  by_cases fits : size + alignment - c.chunksize < Word.modulus
  · have passes := request.passes_iff.mpr fits
    cases took : chunkRecycleTake p newAddr size alignment (size + alignment - c.chunksize) with
    | none =>
        refine .missing (fun n served => ?_) ?_
        · obtain ⟨taken, result⟩ := chunkRecycleTake_of_served trees served
          rw [took] at result
          cases result
        · unfold chunkRecycle
          dsimp only
          rw [if_neg passes, allocSize_eq request passes, took]
    | some taken =>
        obtain ⟨n, lead, searched, source⟩ := chunkRecycleTake_found trees request took
        have best := trees.nsearch_iff.mp searched
        have served : ServedBy c p newAddr size alignment n := ⟨fits, best, source.wanted⟩
        obtain ⟨stats, _⟩ := chunkRecycleTake_same took
        have entered : chunkRecycle c p newAddr size alignment zero =
            chunkRecycleRest c taken size zero := by
          unfold chunkRecycle
          dsimp only
          rw [if_neg passes, allocSize_eq request passes, took]
        have cut_iff := cutWithoutNode_iff trees request fits took
        rcases chunkRecycleRest_stats c taken size zero with
          ⟨success, spare, same⟩ | ⟨failure, cut, counted⟩
        · refine .served n served (fun cut => ?_) (by rw [entered]; exact success) ?_
          · obtain ⟨trails, node, empty⟩ := cut_iff.mp cut
            rcases spare with zero | node' | nodes'
            · exact trails zero
            · exact node' node
            · exact nodes' empty
          · rw [entered]
            exact ⟨same.nchunks.trans stats.nchunks, same.curchunks.trans stats.curchunks,
              same.highchunks.trans stats.highchunks⟩
        · refine .starved (cut_iff.mpr cut) (by rw [entered]; exact failure) ?_
          rw [entered]
          exact ⟨counted.nchunks.trans stats.nchunks,
            counted.curchunks.trans (by rw [stats.curchunks]),
            counted.highchunks.trans stats.highchunks⟩
  · have wraps := request.passes_iff.not.mpr fits
    refine .missing (fun n served => fits served.1) ?_
    unfold chunkRecycle
    dsimp only
    rw [if_pos (not_not.mp wraps)]

/-! ## A failing call -/

theorem Request.chunks_pos (request : Request c size alignment) :
    0 < size / c.chunksize ∧ size / c.chunksize < Word.modulus :=
  ⟨Nat.div_pos request.chunksize_le_size c.chunksize_pos,
    lt_of_le_of_lt (Nat.div_le_self ..) request.size_lt⟩

/-- A call that fails leaves the free set and the count of chunks as they were exactly if it
did not have to cut an extent on both sides without a node. -/
theorem chunkRecycle_failure_iff (trees : FreeTrees c p) (request : Request c size alignment)
    (newAddr : Nat) (zero : Bool) :
    ((chunkRecycle c p newAddr size alignment zero).2 = none →
        (∀ x, cover (chunkRecycle c p newAddr size alignment zero).1.freeSpans x =
          cover p.freeSpans x) ∧
        (chunkRecycle c p newAddr size alignment zero).1.curchunks = p.curchunks) ↔
      ¬CutWithoutNode c p newAddr size alignment := by
  cases chunkRecycle_end trees request newAddr zero with
  | missing unserved same =>
      constructor
      · rintro _ ⟨_, n, served, _⟩
        exact unserved n served
      · intro _ _
        rw [same]
        exact ⟨fun _ => rfl, rfl⟩
  | starved cut failed counted =>
      constructor
      · intro clean
        have same := (clean failed).2
        rw [counted.curchunks] at same
        obtain ⟨positive, less⟩ := request.chunks_pos
        exact absurd same (Word.sub_ne_self positive less)
      · intro whole
        exact absurd cut whole
  | served n served whole succeeded stats =>
      exact ⟨fun _ => whole, fun _ failed => absurd failed succeeded⟩

/-- A new pool has no eight chunks, and a request for them changes nothing. -/
theorem chunkRecycle_failure_iff_missing :
    ∃ p, poolCreateEmpty defaultConfig (fun _ => 0) 8388608 20971520 true false = some p ∧
      (chunkRecycle defaultConfig p 0 33554432 4194304 false).2 = none ∧
      (∀ x, cover (chunkRecycle defaultConfig p 0 33554432 4194304 false).1.freeSpans x =
        cover p.freeSpans x) ∧
      (chunkRecycle defaultConfig p 0 33554432 4194304 false).1.curchunks = p.curchunks := by
  have outcome : ((poolCreateEmpty defaultConfig (fun _ => 0) 8388608 20971520 true
      false).map fun p => (decide (p.baseNodes = []),
        (chunkRecycle defaultConfig p 0 33554432 4194304 false).2)) = some (false, none) := by
    decide +kernel
  obtain ⟨p, created, values⟩ := Option.map_eq_some_iff.mp outcome
  injection values with nodes failed
  have region : Region defaultConfig 8388608 20971520 :=
    ⟨by decide +kernel, by decide +kernel, by decide +kernel⟩
  have settled := OwnerState.Settled.start defaultConfig_fits region created
  have request : Request defaultConfig 33554432 4194304 :=
    ⟨by decide, by decide +kernel, by decide +kernel, 22, by decide, by decide, by decide⟩
  exact ⟨p, created, failed, (chunkRecycle_failure_iff settled.accounted.ledger.trees request 0
    false).mpr (fun cut => of_decide_eq_false nodes cut.1) failed⟩

/-- The pool while other threads hold all the spare nodes. -/
def Pool.withoutNodes (p : Pool) : Pool := { p with baseNodes := [] }

/-- Other threads hold the spare nodes of a new pool, and a chunk aligned to two chunks has to
be cut out of its extent: the call fails, and a chunk that was never counted is counted out. -/
theorem chunkRecycle_counts_out :
    ∃ p, poolCreateEmpty defaultConfig (fun _ => 0) 8388608 20971520 true false = some p ∧
      FreeTrees defaultConfig p.withoutNodes ∧ NodesApart p.withoutNodes ∧
      ¬((chunkRecycle defaultConfig p.withoutNodes 0 4194304 8388608 false).2 = none →
        (∀ x, cover (chunkRecycle defaultConfig p.withoutNodes 0 4194304 8388608
          false).1.freeSpans x = cover p.withoutNodes.freeSpans x) ∧
        (chunkRecycle defaultConfig p.withoutNodes 0 4194304 8388608 false).1.curchunks =
          p.withoutNodes.curchunks) := by
  have outcome : ((poolCreateEmpty defaultConfig (fun _ => 0) 8388608 20971520 true
      false).map fun p =>
        ((chunkRecycle defaultConfig p.withoutNodes 0 4194304 8388608 false).2,
          p.withoutNodes.curchunks,
          (chunkRecycle defaultConfig p.withoutNodes 0 4194304 8388608 false).1.curchunks)) =
      some (none, 0, 18446744073709551615) := by
    decide +kernel
  obtain ⟨p, created, values⟩ := Option.map_eq_some_iff.mp outcome
  injection values with failed counts
  injection counts with before after
  have region : Region defaultConfig 8388608 20971520 :=
    ⟨by decide +kernel, by decide +kernel, by decide +kernel⟩
  have ledger := (OwnerState.Settled.start defaultConfig_fits region created).accounted.ledger
  refine ⟨p, created, ledger.trees.of_edit rfl rfl fun _ _ => rfl, ?_, fun clean => ?_⟩
  · have distinct := ledger.trees.nodupAd
    change (p.chunksAd ++ []).Nodup
    rw [List.append_nil]
    exact distinct
  · have same := (clean failed).2
    rw [before, after] at same
    exact absurd same (by decide)

/-! ## Taking and returning -/

/-- `leadsize`: how far the first aligned address lies behind the start of an extent. -/
def leadsize (node : ExtentNode) (alignment : Nat) : Nat :=
  Word.sub (Word.ceil node.addr alignment) node.addr

/-- The assertion `node->size >= leadsize + size`, in which nothing wraps. -/
theorem BestFit.leadsize_le {addr : Nat} (trees : FreeTrees c p)
    (request : Request c size alignment)
    (best : BestFit p (size + alignment - c.chunksize) addr n) :
    Word.add (leadsize (p.node n) alignment) size = leadsize (p.node n) alignment + size ∧
      leadsize (p.node n) alignment + size ≤ (p.node n).size := by
  have extent := trees.extent n best.1
  have below := extent.below
  have long := best.long
  have chunkLe := request.chunksize_le_size
  have alignmentLe := request.chunksize_le_alignment
  have alignmentPos := request.alignment_pos
  have fits : (p.node n).addr + (alignment - 1) < Word.modulus := by omega
  have lower := Word.le_ceil alignmentPos fits
  have upper := Word.ceil_le_add_sub request.alignment_dvd alignmentPos extent.addr_dvd fits
  have exactly : leadsize (p.node n) alignment =
      Word.ceil (p.node n).addr alignment - (p.node n).addr :=
    Word.sub_eq lower (Word.ceil_lt ..)
  have enough : leadsize (p.node n) alignment + size ≤ (p.node n).size := by omega
  exact ⟨Word.add_eq (by omega), enough⟩

/-- Without `new_addr` a call finds an extent exactly if one is long enough. -/
theorem served_iff (trees : FreeTrees c p) :
    (∃ n, ServedBy c p 0 size alignment n) ↔
      size + alignment - c.chunksize < Word.modulus ∧
        ∃ n ∈ p.chunksAd, size + alignment - c.chunksize ≤ (p.node n).size := by
  constructor
  · rintro ⟨n, fits, best, _⟩
    exact ⟨fits, n, best.1, best.long⟩
  · rintro ⟨fits, n, member, long⟩
    obtain ⟨m, best⟩ := trees.exists_bestFit member long
    exact ⟨m, fits, best, fun absurd_ => absurd rfl absurd_⟩

/-- Behind the range that is handed out there is its trailing part, or no node was needed. -/
theorem chunkRecycleRest_behind {taken : Taken} {zero : Bool} {p' : Pool} {r : Nat × Bool}
    (result : chunkRecycleRest c taken size zero = (p', some r)) :
    r.1 = taken.ret ∧ (p'.baseNodes = taken.node.toList ++ taken.pool.baseNodes ∨
      ∃ m ∈ p'.chunksAd, (p'.node m).addr = Word.add taken.ret size) := by
  have linked : ∀ (q : Pool) (m : Nat), m ∈ (chunkRecycleZero (chunkRecycleTrail q m
        (Word.add taken.ret size) taken.trailsize taken.zeroed) taken.ret size zero
        taken.zeroed).chunksAd ∧
      ((chunkRecycleZero (chunkRecycleTrail q m (Word.add taken.ret size) taken.trailsize
        taken.zeroed) taken.ret size zero taken.zeroed).node m).addr =
          Word.add taken.ret size := by
    intro q m
    rw [chunkRecycleZero_eq, chunkRecycleTrail_eq_link]
    refine ⟨OrderedTree.mem_insert.mpr (Or.inl rfl), ?_⟩
    dsimp only
    rw [link_node_self]
  unfold chunkRecycleRest at result
  dsimp only at result
  split at result
  · cases node : taken.node with
    | some n =>
        rw [node] at result
        cases result
        exact ⟨rfl, Or.inr ⟨n, linked ..⟩⟩
    | none =>
        rw [node] at result
        unfold baseNodeAlloc at result
        cases nodes : taken.pool.baseNodes with
        | nil =>
            rw [nodes] at result
            cases result
        | cons n rest =>
            rw [nodes] at result
            cases result
            exact ⟨rfl, Or.inr ⟨n, linked ..⟩⟩
  · cases result
    refine ⟨rfl, Or.inl ?_⟩
    rw [chunkRecycleZero_eq, baseNodeDallocIf_eq]

/-- What was just taken is not dropped when it is recorded. -/
theorem chunkRecycle_not_leaks {zero : Bool} {p' : Pool} {r : Nat × Bool} (trees : FreeTrees c p)
    (request : Request c size alignment) (nodes : p.baseNodes ≠ []) (after : FreeTrees c p')
    (result : chunkRecycle c p newAddr size alignment zero = (p', some r)) :
    ¬RecordLeaks p' r.1 size := by
  unfold chunkRecycle at result
  dsimp only at result
  split at result
  · cases result
  · rename_i passes
    rw [allocSize_eq request passes] at result
    cases took : chunkRecycleTake p newAddr size alignment (size + alignment - c.chunksize) with
    | none =>
        rw [took] at result
        cases result
    | some taken =>
        rw [took] at result
        obtain ⟨n, lead, source⟩ := chunkRecycleTake_some trees request took
        have below := source.end_lt trees
        obtain ⟨start, behind⟩ := chunkRecycleRest_behind result
        rintro ⟨empty, missing⟩
        rcases behind with returned | ⟨m, member, starts⟩
        · rw [(chunkRecycleTake_same took).2, empty] at returned
          exact nodes (List.append_eq_nil_iff.mp returned.symm).2
        · rw [Word.add_eq (by omega), ← start] at starts
          exact forwardNode_none after missing m member starts

/-- Taking and returning chunks.  A request without `new_addr` succeeds exactly if some extent
is long enough for its size and alignment; it takes an aligned range out of one extent, and
nothing else.  Recording adds exactly the range, so recording what was taken restores the
extents. -/
theorem recycle_record_exact (trees : FreeTrees c p) (coalesced : Coalesced p)
    (apart : NodesApart p) (nodes : p.baseNodes ≠ []) (request : Request c size alignment)
    (zero : Bool) :
    ((chunkRecycle c p 0 size alignment zero).2 ≠ none ↔
        size + alignment - c.chunksize < Word.modulus ∧
          ∃ n ∈ p.chunksAd, size + alignment - c.chunksize ≤ (p.node n).size) ∧
      (∀ p' ret zeroOut, chunkRecycle c p 0 size alignment zero = (p', some (ret, zeroOut)) →
        alignment ∣ ret ∧
        (∃ n ∈ p.chunksAd, (Span.mk ret size).Within (p.node n).span) ∧
        (∀ n, OrderedTree.nsearch (fun m => (p.node m).szadKey)
            (toLex (size + alignment - c.chunksize, 0)) p.chunksSzad = some n →
          Word.add (leadsize (p.node n) alignment) size = leadsize (p.node n) alignment + size ∧
            leadsize (p.node n) alignment + size ≤ (p.node n).size) ∧
        (∀ x, cover p'.freeSpans x + (Span.mk ret size).ind x = cover p.freeSpans x) ∧
        ∀ zeroed, (chunkRecord c p' ret size zeroed).freeSpans = p.freeSpans) ∧
      ∀ chunk length zeroed, Recordable c p chunk length →
        ∀ x, cover (chunkRecord c p chunk length zeroed).freeSpans x =
          cover p.freeSpans x + (Span.mk chunk length).ind x := by
  refine ⟨?_, ?_, ?_⟩
  · rw [← served_iff trees]
    cases chunkRecycle_end trees request 0 zero with
    | missing unserved same =>
        rw [same]
        exact ⟨fun some_ => absurd rfl some_, fun ⟨n, served⟩ => absurd served (unserved n)⟩
    | starved cut _ _ => exact absurd cut.1 nodes
    | served n served _ succeeded _ => exact ⟨fun _ => ⟨n, served⟩, fun _ => succeeded⟩
  · intro p' ret zeroOut result
    rcases chunkRecycle_cases trees apart request 0 zero with
      ⟨q, start, flag, same, recycled⟩ | ⟨q, same, _⟩
    · rw [result] at same
      cases same
      have taken : ∀ x, cover p'.freeSpans x + (Span.mk ret size).ind x =
          cover p.freeSpans x := by
        intro x
        have counted := recycled.change.cover_free_eq recycled.kept x
        rw [cover_cons, cover_nil] at counted
        omega
      refine ⟨recycled.aligned, recycled.within, fun n searched => ?_, taken, fun zeroed => ?_⟩
      · exact (trees.nsearch_iff.mp searched).leadsize_le trees request
      · have after := recycled.change.trees
        have apart' := recycled.change.nodesApart apart
        obtain ⟨n, member, within⟩ := recycled.within
        have below := (trees.extent n member).below
        have range : Recordable c p' ret size := by
          unfold Span.Within ExtentNode.span at within
          dsimp only at within
          refine Recordable.of_cover after request.nonempty request.size_dvd
            (request.alignment_dvd.trans recycled.aligned) (by omega) fun x inside => ?_
          have counted := taken x
          have once := trees.cover_le_one x
          rw [Span.ind_eq_one_iff.mpr inside] at counted
          omega
        have keeps := chunkRecycle_not_leaks trees request nodes after result
        have recorded := freeSpans_separated (chunkRecord_section zeroed after apart' range).trees
          (chunkRecord_coalesced zeroed after apart' range (recycled.coalesced coalesced))
        apply recorded.eq_of_cover (freeSpans_separated trees coalesced)
        intro x
        rw [chunkRecord_covers zeroed after apart' range keeps, taken x]
    · rw [result] at same
      cases same
  · intro chunk length zeroed range x
    exact chunkRecord_covers zeroed trees apart range (fun leaks => nodes leaks.1) x

/-- A chunk aligned to two chunks is taken from a new pool, and returned. -/
theorem recycle_record_exact_aligned :
    ∃ p p', poolCreateEmpty defaultConfig (fun _ => 0) 8388608 20971520 true false = some p ∧
      chunkRecycle defaultConfig p 0 4194304 8388608 false = (p', some (16777216, true)) ∧
      p'.freeSpans = [⟨12582912, 4194304⟩, ⟨20971520, 8388608⟩] ∧
      (chunkRecord defaultConfig p' 16777216 4194304 false).freeSpans = p.freeSpans := by
  have outcome : ((poolCreateEmpty defaultConfig (fun _ => 0) 8388608 20971520 true
      false).map fun p => (decide (p.baseNodes = []),
        (chunkRecycle defaultConfig p 0 4194304 8388608 false).2,
        (chunkRecycle defaultConfig p 0 4194304 8388608 false).1.freeSpans)) =
      some (false, some (16777216, true), [⟨12582912, 4194304⟩, ⟨20971520, 8388608⟩]) := by
    decide +kernel
  obtain ⟨p, created, values⟩ := Option.map_eq_some_iff.mp outcome
  injection values with nodes others
  injection others with success left
  have region : Region defaultConfig 8388608 20971520 :=
    ⟨by decide +kernel, by decide +kernel, by decide +kernel⟩
  have settled := OwnerState.Settled.start defaultConfig_fits region created
  have ledger := settled.accounted.ledger
  have request : Request defaultConfig 4194304 8388608 :=
    ⟨by decide, by decide +kernel, by decide +kernel, 23, by decide, by decide, by decide⟩
  have result : chunkRecycle defaultConfig p 0 4194304 8388608 false =
      ((chunkRecycle defaultConfig p 0 4194304 8388608 false).1, some (16777216, true)) := by
    rw [← success]
  exact ⟨p, _, created, result, left, ((recycle_record_exact ledger.trees settled.sound.coalesced
    ledger.apart (of_decide_eq_false nodes) request false).2.1 _ _ _ result).2.2.2.2 false⟩

/-! ## Growing in place -/

/-- A search for `length` bytes at the start of extent `m` meets extent `k` before `m`. -/
def FoundFirst (p : Pool) (length k m : Nat) : Prop :=
  (length < (p.node k).size ∨ length = (p.node k).size ∧ (p.node m).addr ≤ (p.node k).addr) ∧
    ((p.node k).size < (p.node m).size ∨
      (p.node k).size = (p.node m).size ∧ (p.node k).addr < (p.node m).addr)

/-- The extent behind a block is found exactly if no other one is found first. -/
theorem freeBehind_iff (trees : FreeTrees c p) {m length addr : Nat} (member : m ∈ p.chunksAd)
    (starts : (p.node m).addr = addr) (long : length ≤ (p.node m).size) :
    FreeBehind p addr length ↔ ∀ k ∈ p.chunksAd, ¬FoundFirst p length k m := by
  have reaches : toLex (length, addr) ≤ (p.node m).szadKey := by
    rw [szadKey_le_iff, starts]
    rcases Nat.lt_or_eq_of_le long with less | equal
    · exact Or.inl less
    · exact Or.inr ⟨equal, le_rfl⟩
  have least : BestFit p length addr m ↔ ∀ k ∈ p.chunksAd, ¬FoundFirst p length k m := by
    unfold BestFit FoundFirst
    constructor
    · rintro ⟨_, _, least⟩ k inTree ⟨behind, before⟩
      have order := least k inTree (szadKey_le_iff.mpr (by rw [← starts]; exact behind))
      rcases Prod.Lex.le_iff.mp order with less | ⟨equal, le⟩
      · change (p.node m).size < (p.node k).size at less
        omega
      · change (p.node m).size = (p.node k).size at equal
        change (p.node m).addr ≤ (p.node k).addr at le
        omega
    · intro nothing
      refine ⟨member, reaches, fun k inTree behind => ?_⟩
      by_contra before
      refine nothing k inTree ⟨?_, Prod.Lex.lt_iff.mp (not_le.mp before)⟩
      rw [starts]
      exact szadKey_le_iff.mp behind
  rw [← least]
  constructor
  · rintro ⟨k, searched, here⟩
    have best := trees.nsearch_iff.mp searched
    rw [trees.eq_of_addr member best.1 (starts.trans here.symm)]
    exact best
  · intro best
    exact ⟨m, trees.nsearch_iff.mpr best, starts⟩

/-- When the radix tree has no room for the chunks, a block does not grow. -/
theorem hugeRallocNoMoveExpand_refused (c : Config) (p : Pool) (ptr oldsize size : Nat)
    (zero : Bool) : (hugeRallocNoMoveExpand c p ptr oldsize size zero true).2 = true := by
  unfold hugeRallocNoMoveExpand
  dsimp only
  split
  · rfl
  · split
    · rfl
    · unfold arenaChunkAllocHuge chunkAllocArena
      cases chunkAllocDefault c p (Word.add ptr oldsize) (Word.sub (c.chunkCeiling size) oldsize)
          c.chunksize zero with
      | mk q result =>
          cases result with
          | none => rfl
          | some found => rfl

/-- In every state that a pool reaches, a huge block with enough free memory behind it grows in
place exactly if the radix tree has room for the chunks and the search by size and address does
not meet another extent before the one behind the block. -/
theorem huge_grows_in_place_iff {addr poolSize m : Nat} {mem : Nat → UInt8}
    {zeroed locksFail : Bool} {s : OwnerState} (fits : c.Fits) (region : Region c addr poolSize)
    (created : poolCreateEmpty c mem addr poolSize zeroed locksFail = some p)
    (reached : Reached PoolOp.Permitted (PoolOp.exec c) ⟨p, []⟩ s)
    (block : n ∈ s.pool.huge) (sizeLt : size < Word.modulus)
    (grows : (s.pool.node n).size < c.chunkCeiling size) (free : m ∈ s.pool.chunksAd)
    (behind : (s.pool.node m).addr = (s.pool.node n).addr + (s.pool.node n).size)
    (long : c.chunkCeiling size - (s.pool.node n).size ≤ (s.pool.node m).size)
    (zero rtreeFails rtreeFailsAgain : Bool) :
    (hugeRallocNoMove c s.pool (s.pool.node n).addr (s.pool.node n).size size 0 zero rtreeFails
        rtreeFailsAgain).2 = false ↔
      rtreeFails = false ∧ ∀ k ∈ s.pool.chunksAd,
        ¬FoundFirst s.pool (c.chunkCeiling size - (s.pool.node n).size) k m := by
  have settled := (OwnerState.Settled.start fits region created).of_reached fits reached
  have ledger : Ledger c s.lending.usable s.pool [] (cover s.arena) := settled.accounted.ledger
  have found := ledger.hugeSearch_eq block rfl
  have extent := ledger.hugeExtent n block
  have below := extent.below
  have oldCeiling : c.chunkCeiling (s.pool.node n).size = (s.pool.node n).size :=
    c.chunkCeiling_eq extent.size_dvd (by omega)
  have same : Word.add size 0 = size := Word.add_eq (by omega)
  have above := c.arenaMaxclass_lt
  have atLeast := Nat.le_of_dvd extent.nonempty extent.size_dvd
  have expands : (hugeRallocNoMove c s.pool (s.pool.node n).addr (s.pool.node n).size size 0 zero
      rtreeFails rtreeFailsAgain).2 =
        (hugeRallocNoMoveExpand c s.pool (s.pool.node n).addr (s.pool.node n).size size zero
          rtreeFails).2 := by
    unfold hugeRallocNoMove
    rw [same, oldCeiling, if_neg (by omega), if_neg (by omega), if_neg (by omega),
      if_neg (by omega)]
    cases hugeRallocNoMoveExpand c s.pool (s.pool.node n).addr (s.pool.node n).size size zero
        rtreeFails with
    | mk q failed =>
        cases failed with
        | false => rfl
        | true => rfl
  rw [expands]
  cases rtreeFails with
  | true =>
      rw [hugeRallocNoMoveExpand_refused]
      exact ⟨fun never => absurd never (by decide), fun never => absurd never.1 (by decide)⟩
  | false =>
      rw [← freeBehind_iff ledger.trees free behind long]
      rcases hugeRallocNoMoveExpand_iff ledger found (by omega) grows zero with
        ⟨finds, success⟩ | ⟨misses, failure⟩
      · exact ⟨fun _ => ⟨rfl, finds⟩, fun _ => success⟩
      · rw [failure]
        exact ⟨fun never => Bool.noConfusion never, fun ⟨_, finds⟩ => absurd finds misses⟩

/-- The only block of a pool grows into the memory behind it. -/
theorem huge_grows_in_place_iff_only :
    ∃ p s, poolCreateEmpty defaultConfig (fun _ => 0) 8388608 33554432 true false = some p ∧
      PoolOp.exec defaultConfig ⟨p, []⟩
        (.call (.hugePalloc (some 0) 4194304 22 false false)) = some s ∧
      s.pool.hugeSpans = [⟨12582912, 4194304⟩] ∧ s.pool.freeSpans = [⟨16777216, 25165824⟩] ∧
      (hugeRallocNoMove defaultConfig s.pool 12582912 4194304 8388608 0 true false false).2 =
        false := by
  have outcome : ((poolCreateEmpty defaultConfig (fun _ => 0) 8388608 33554432 true
      false).bind fun p => (PoolOp.exec defaultConfig ⟨p, []⟩
        (.call (.hugePalloc (some 0) 4194304 22 false false))).map fun s =>
          (s.pool.hugeSpans, s.pool.freeSpans)) =
      some ([⟨12582912, 4194304⟩], [⟨16777216, 25165824⟩]) := by
    decide +kernel
  obtain ⟨p, created, ran⟩ := Option.bind_eq_some_iff.mp outcome
  obtain ⟨s, result, values⟩ := Option.map_eq_some_iff.mp ran
  injection values with huge free
  have region : Region defaultConfig 8388608 33554432 :=
    ⟨by decide +kernel, by decide +kernel, by decide +kernel⟩
  have reached : Reached PoolOp.Permitted (PoolOp.exec defaultConfig) ⟨p, []⟩ s :=
    Reached.next Reached.start (show PoolOp.Permitted ⟨p, []⟩ (.call _) from trivial) result
  obtain ⟨n, blocks, block⟩ := List.map_eq_singleton_iff.mp huge
  obtain ⟨m, extents, extent⟩ := List.map_eq_singleton_iff.mp free
  have start : (s.pool.node n).addr = 12582912 := congrArg Span.lo block
  have length : (s.pool.node n).size = 4194304 := congrArg Span.len block
  have behind : (s.pool.node m).addr = 16777216 := congrArg Span.lo extent
  have room : (s.pool.node m).size = 25165824 := congrArg Span.len extent
  have ceiling : defaultConfig.chunkCeiling 8388608 = 8388608 := by decide +kernel
  have grows : (s.pool.node n).size < defaultConfig.chunkCeiling 8388608 := by
    rw [length, ceiling]
    decide
  have member : n ∈ s.pool.huge := by
    rw [blocks]
    exact List.mem_singleton_self n
  have inTree : m ∈ s.pool.chunksAd := by
    rw [extents]
    exact List.mem_singleton_self m
  have alone : ∀ k ∈ s.pool.chunksAd, ¬FoundFirst s.pool
      (defaultConfig.chunkCeiling 8388608 - (s.pool.node n).size) k m := by
    rintro k other ⟨_, before⟩
    rw [extents, List.mem_singleton] at other
    subst other
    omega
  have grown := (huge_grows_in_place_iff defaultConfig_fits region created reached member
    (by decide +kernel) grows inTree (by rw [behind, start, length])
    (by rw [length, room, ceiling]; decide) true false false).mpr ⟨rfl, alone⟩
  rw [start, length] at grown
  exact ⟨p, s, created, result, huge, free, grown⟩

/-- Behind a block of one chunk three chunks are free, and elsewhere one: a search for one
chunk finds the other extent, and the block does not grow. -/
theorem huge_does_not_grow :
    ∃ p s, poolCreateEmpty defaultConfig (fun _ => 0) 8388608 33554432 true false = some p ∧
      Reached PoolOp.Permitted (PoolOp.exec defaultConfig) ⟨p, []⟩ s ∧
      ⟨12582912, 4194304⟩ ∈ s.pool.hugeSpans ∧ ⟨16777216, 12582912⟩ ∈ s.pool.freeSpans ∧
      (hugeRallocNoMove defaultConfig s.pool 12582912 4194304 8388608 0 false false false).2 =
        true := by
  have outcome : ((poolCreateEmpty defaultConfig (fun _ => 0) 8388608 33554432 true
      false).bind fun p => (runs (PoolOp.exec defaultConfig) ⟨p, []⟩
        ([.hugePalloc (some 0) 4194304 22 false false, .hugePalloc (some 0) 12582912 22 false false,
          .hugePalloc (some 0) 4194304 22 false false, .hugePalloc (some 0) 4194304 22 false false,
          .hugePalloc (some 0) 4194304 22 false false, .hugeDalloc 16777216,
          .hugeDalloc 33554432].map PoolOp.call)).map fun s =>
          (s.pool.hugeSpans, s.pool.freeSpans,
            (hugeRallocNoMove defaultConfig s.pool 12582912 4194304 8388608 0 false false
              false).2)) =
      some ([⟨12582912, 4194304⟩, ⟨29360128, 4194304⟩, ⟨37748736, 4194304⟩],
        [⟨16777216, 12582912⟩, ⟨33554432, 4194304⟩], true) := by
    decide +kernel
  obtain ⟨p, created, ran⟩ := Option.bind_eq_some_iff.mp outcome
  obtain ⟨s, run, values⟩ := Option.map_eq_some_iff.mp ran
  injection values with huge others
  injection others with free failed
  refine ⟨p, s, created, Reached.of_runs ?_ run, ?_, ?_, failed⟩
  · intro state op member
    obtain ⟨call, _, rfl⟩ := List.mem_map.mp member
    exact show PoolOp.Permitted state (.call _) from trivial
  · rw [huge]
    exact List.mem_cons_self
  · rw [free]
    exact List.mem_cons_self

end Jemalloc
end Vmem
