import Vmem.Jemalloc.Ledger

/-!
# The node budget of a pool

A pool whose nodes outnumber the chunks of its usable range never runs out of
nodes between two calls: every free extent and every huge block contains a
chunk of its own.  The account of such a pool says that nothing is ever dropped.
-/

namespace Vmem
namespace Jemalloc

variable {c : Config}

/-- Disjoint spans that start on chunk boundaries of a usable range are at most
as many as its chunks. -/
theorem length_le_chunks {usable : Span} {spans : List Span} (whole : ChunkSpan c usable)
    (valid : ∀ span ∈ spans, ChunkSpan c span)
    (within : ∀ x, cover spans x ≤ usable.ind x) :
    spans.length ≤ usable.len / c.chunksize := by
  have positive := c.chunksize_pos
  have bound := length_le_sum_cover_grid spans (usable.len / c.chunksize)
    (fun k => usable.lo + k * c.chunksize) (by
      intro span member
      have nonempty := (valid span member).nonempty
      refine ⟨nonempty, ?_⟩
      have counted := ind_le_cover member span.lo
      rw [Span.ind_lo nonempty] at counted
      have inside : usable.Has span.lo :=
        Span.ind_pos_iff.mp (lt_of_lt_of_le counted (within span.lo))
      obtain ⟨k, offset⟩ := Nat.dvd_sub (valid span member).lo_dvd whole.lo_dvd
      have lower := inside.1
      have upper := inside.2
      refine ⟨k, ?_, by rw [Nat.mul_comm]; omega⟩
      rw [Nat.lt_div_iff_mul_lt' whole.len_dvd]
      omega)
  have atMostOne : ∑ k ∈ Finset.range (usable.len / c.chunksize),
      cover spans (usable.lo + k * c.chunksize) ≤
        ∑ _k ∈ Finset.range (usable.len / c.chunksize), 1 :=
    Finset.sum_le_sum fun k _ =>
      (within _).trans (Span.ind_le_one usable _)
  rw [← Finset.card_eq_sum_ones, Finset.card_range] at atMostOne
  exact bound.trans atMostOne

/-- The three parts of an extent of at least three chunks. -/
def threeParts (c : Config) (span : Span) : List Span :=
  [⟨span.lo, c.chunksize⟩, ⟨span.lo + c.chunksize, c.chunksize⟩,
    ⟨span.lo + c.chunksize + c.chunksize, span.len - 2 * c.chunksize⟩]

theorem cover_threeParts {span : Span} (long : 3 * c.chunksize ≤ span.len) (x : Nat) :
    cover (threeParts c span) x = span.ind x := by
  have positive := c.chunksize_pos
  have first := Span.ind_spec ⟨span.lo, c.chunksize⟩ x
  have second := Span.ind_spec ⟨span.lo + c.chunksize, c.chunksize⟩ x
  have third := Span.ind_spec
    ⟨span.lo + c.chunksize + c.chunksize, span.len - 2 * c.chunksize⟩ x
  have all := Span.ind_spec span x
  simp only [threeParts, cover_cons, cover_nil]
  dsimp only at first second third
  omega

theorem threeParts_valid {span : Span} (valid : ChunkSpan c span)
    (long : 3 * c.chunksize ≤ span.len) :
    ∀ part ∈ threeParts c span, ChunkSpan c part := by
  have positive := c.chunksize_pos
  have one : c.chunksize ∣ c.chunksize := dvd_rfl
  intro part member
  simp only [threeParts, List.mem_cons, List.not_mem_nil, or_false] at member
  rcases member with rfl | rfl | rfl
  · exact ⟨positive, one, valid.lo_dvd⟩
  · exact ⟨positive, one, Nat.dvd_add valid.lo_dvd one⟩
  · refine ⟨?_, Nat.dvd_sub valid.len_dvd (Dvd.dvd.mul_left one 2),
      Nat.dvd_add (Nat.dvd_add valid.lo_dvd one) one⟩
    dsimp only
    omega

/-- Every node is free, unused, huge or held. -/
theorem Ledger.count {bound : Nat → Nat} {p : Pool} {held : List Nat} {others : Nat → Nat}
    (ledger : Ledger c bound p held others) :
    p.chunksAd.length + p.baseNodes.length + p.huge.length + held.length = p.nodeCount := by
  have := ledger.numbered.length_eq
  simp only [List.length_append, List.length_range] at this
  omega

/-- As many nodes as usable chunks are enough: an extent of three chunks leaves two of
them, and one of these may be in hand. -/
theorem Ledger.available_of_long {usable : Span} {p : Pool} {held : List Nat}
    {others : Nat → Nat} {n : Nat} (ledger : Ledger c usable.ind p held others)
    (whole : ChunkSpan c usable) (budget : usable.len / c.chunksize ≤ p.nodeCount)
    (member : n ∈ p.chunksAd) (long : 3 * c.chunksize ≤ (p.node n).size)
    (few : held.length ≤ 1) : p.baseNodes ≠ [] := by
  have perm := List.perm_cons_erase member
  have bound := length_le_chunks whole
    (show ∀ span ∈ threeParts c (p.node n).span ++
        (p.chunksAd.erase n).map (fun m => (p.node m).span) ++ p.hugeSpans,
        ChunkSpan c span by
      intro span inList
      rcases List.mem_append.mp inList with inTrees | huge
      · rcases List.mem_append.mp inTrees with part | free
        · exact threeParts_valid
            (ledger.trees.extent n member).chunkSpan long span part
        · obtain ⟨m, inRest, rfl⟩ := List.mem_map.mp free
          exact (ledger.trees.extent m (List.mem_of_mem_erase inRest)).chunkSpan
      · obtain ⟨m, inTree, rfl⟩ := List.mem_map.mp huge
        exact (ledger.hugeExtent m inTree).chunkSpan)
    (by
      intro x
      have covers := ledger.covers x
      have split := cover_perm (perm.map fun m => (p.node m).span) x
      rw [List.map_cons, cover_cons] at split
      have parts := cover_threeParts (c := c)
        (show 3 * c.chunksize ≤ (p.node n).span.len from long) x
      simp only [cover_append, parts]
      change cover (p.chunksAd.map fun m => (p.node m).span) x + _ + _ + _ + _ = _ at covers
      omega)
  have total := ledger.count
  have rest := perm.length_eq
  simp only [List.length_append, List.length_map, threeParts, List.length_cons,
    List.length_nil, Pool.hugeSpans] at bound rest
  intro empty
  rw [empty, List.length_nil] at total
  omega

/-! ## Accounts without losses -/

/-- No address of a range lies in the data segment. -/
def Outside (c : Config) (dss : Dss) (usable : Span) : Prop :=
  c.haveDss = true → ∀ x, usable.Has x → chunkInDss dss x = false

theorem Outside.chunk {dss : Dss} {usable : Span} (outside : Outside c dss usable) {x : Nat}
    (has : usable.Has x) : (c.haveDss && chunkInDss dss x) = false := by
  cases uses : c.haveDss with
  | false => rfl
  | true => exact outside uses x has

/-- The account of a pool with a single usable range and enough nodes: nothing
was dropped, and coalescing is complete. -/
structure Account (c : Config) (usable : Span) (p : Pool) (held : List Nat)
    (others : Nat → Nat) : Prop where
  whole : ChunkSpan c usable
  below : usable.lo + usable.len < Word.modulus
  budget : usable.len / c.chunksize < p.nodeCount
  ledger : Ledger c usable.ind p held others
  coalesced : Coalesced p
  kept : p.leaked = []

namespace Account

variable {usable : Span} {p p' : Pool} {held : List Nat} {others others' : Nat → Nat}

/-- Free extents, huge blocks and further ranges of others fit into the usable
range. -/
theorem length_le (account : Account c usable p held others) {extra : List Span}
    (valid : ∀ span ∈ extra, ChunkSpan c span)
    (owned : ∀ x, cover extra x ≤ others x) :
    p.chunksAd.length + p.huge.length + extra.length ≤ usable.len / c.chunksize := by
  have bound := length_le_chunks account.whole
    (show ∀ span ∈ p.freeSpans ++ p.hugeSpans ++ extra, ChunkSpan c span by
      intro span member
      rcases List.mem_append.mp member with inTrees | further
      · rcases List.mem_append.mp inTrees with free | huge
        · obtain ⟨n, inTree, rfl⟩ := List.mem_map.mp free
          exact (account.ledger.trees.extent n inTree).chunkSpan
        · obtain ⟨n, inTree, rfl⟩ := List.mem_map.mp huge
          exact (account.ledger.hugeExtent n inTree).chunkSpan
      · exact valid span further)
    (by
      intro x
      have := account.ledger.covers x
      have := owned x
      simp only [cover_append]
      omega)
  simp only [List.length_append, Pool.freeSpans, Pool.hugeSpans, List.length_map] at bound
  exact bound

/-- While a range is in flight, one node in hand leaves another one unused. -/
theorem available_of_flight (account : Account c usable p held others) {span : Span}
    (valid : ChunkSpan c span) (owned : ∀ x, span.ind x ≤ others x)
    (few : held.length ≤ 1) : p.baseNodes ≠ [] := by
  have bound := account.length_le
    (show ∀ other ∈ [span], ChunkSpan c other by
      intro other member
      rw [List.mem_singleton.mp member]
      exact valid)
    (by
      intro x
      rw [cover_cons, cover_nil]
      exact owned x)
  have total := account.ledger.count
  have budget := account.budget
  intro empty
  rw [empty, List.length_nil] at total
  rw [List.length_singleton] at bound
  omega

/-- An extent of three chunks leaves a node unused. -/
theorem available_of_long (account : Account c usable p held others) {n : Nat}
    (member : n ∈ p.chunksAd) (long : 3 * c.chunksize ≤ (p.node n).size)
    (few : held.length ≤ 1) : p.baseNodes ≠ [] :=
  account.ledger.available_of_long account.whole (le_of_lt account.budget) member long few

/-- Replace the parts of an account that an action changes. -/
theorem update (account : Account c usable p held others) {held' : List Nat}
    (ledger : Ledger c usable.ind p' held' others') (coalesced : Coalesced p')
    (kept : p'.leaked = p.leaked) (count : p.nodeCount ≤ p'.nodeCount) :
    Account c usable p' held' others' where
  whole := account.whole
  below := account.below
  budget := lt_of_lt_of_le account.budget count
  ledger := ledger
  coalesced := coalesced
  kept := kept.trans account.kept

/-- Only contents of memory and counters differ. -/
theorem of_contents {mem : Nat → UInt8} {nchunks curchunks highchunks : Nat}
    (account : Account c usable p held others) :
    Account c usable { p with
      mem := mem
      nchunks := nchunks
      curchunks := curchunks
      highchunks := highchunks } held others :=
  account.update account.ledger.of_contents account.coalesced rfl le_rfl

/-- A whole chunk operation. -/
theorem change {gain loss : List Span} (account : Account c usable p held others)
    (changed : PoolSection c p p' gain loss) (kept : p'.leaked = p.leaked)
    (coalesced : Coalesced p → Coalesced p')
    (balance : ∀ x, others' x + cover gain x = others x + cover loss x) :
    Account c usable p' held others' :=
  account.update (account.ledger.change (PoolChange.of_section changed) balance)
    (coalesced account.coalesced) kept (le_of_eq changed.nodeCount.symm)

/-! ## Chunk operations -/

/-- Every address of the usable range has one owner, and is followed by a word. -/
theorem bounded (account : Account c usable p held others) : Bounded usable.ind where
  once := Span.ind_le_one usable
  below := by
    intro x positive
    have inside := Span.ind_pos_iff.mp positive
    have := account.below
    have := inside.2
    omega

/-- A range of others can be recorded. -/
theorem recordable {span : Span} (account : Account c usable p held others)
    (valid : ChunkSpan c span) (owned : ∀ x, span.ind x ≤ others x) :
    Recordable c p span.lo span.len :=
  account.ledger.recordable account.bounded valid owned

theorem hugeSame {gain loss : List Span} (account : Account c usable p held others)
    (changed : PoolSection c p p' gain loss) : HugeSame p p' where
  huge := changed.huge
  node := fun _ member => account.ledger.numbered.heap_eq (PoolChange.of_section changed)
    (List.mem_append_left held member)

/-- What others own is usable. -/
theorem inside {span : Span} (account : Account c usable p held others)
    (owned : ∀ x, span.ind x ≤ others x) {x : Nat} (has : span.Has x) : usable.Has x := by
  have covers := account.ledger.covers x
  have counted := owned x
  rw [Span.ind_eq_one_iff.mpr has] at counted
  exact Span.ind_pos_iff.mp (by omega)

/-- So is what is free. -/
theorem inside_free (account : Account c usable p held others) {n x : Nat}
    (member : n ∈ p.chunksAd) (has : (p.node n).span.Has x) : usable.Has x := by
  have covers := account.ledger.covers x
  have counted := Pool.ind_le_cover_free member x
  rw [Span.ind_eq_one_iff.mpr has] at counted
  exact Span.ind_pos_iff.mp (by omega)

/-- Giving a range back puts it into the free set and drops nothing. -/
theorem dalloc {dss : Dss} {span : Span} (outside : Outside c dss usable)
    (account : Account c usable p held fun x => others x + span.ind x)
    (valid : ChunkSpan c span) (few : held.length ≤ 1) :
    Account c usable (chunkDallocDefault c p span.lo span.len dss) held others ∧
      HugeSame p (chunkDallocDefault c p span.lo span.len dss) := by
  have counted : Account c usable
      { p with curchunks := Word.sub p.curchunks (span.len / c.chunksize) } held
      fun x => others x + span.ind x := account.of_contents
  have owned : ∀ x, span.ind x ≤ others x + span.ind x := fun _ => Nat.le_add_left ..
  have range := counted.recordable valid owned
  have available := counted.available_of_flight valid owned few
  have changed := chunkRecord_section false counted.ledger.trees counted.ledger.apart range
  have starts : usable.Has span.lo := account.inside owned
    (Span.has_mk.mpr ⟨le_rfl, by have := valid.nonempty; omega⟩)
  rw [show chunkDallocDefault c p span.lo span.len dss = _ from
    chunkDallocCore_eq (outside.chunk starts) p span.len]
  constructor
  · apply counted.change changed
      (chunkRecord_leaked false counted.ledger.trees counted.ledger.apart range available)
      (chunkRecord_coalesced false counted.ledger.trees counted.ledger.apart range)
    intro x
    simp only [cover_cons, cover_nil]
    rfl
  · have same := counted.hugeSame changed
    exact ⟨same.huge, same.node⟩

/-- A successful allocation of chunks. -/
structure Allocated (c : Config) (usable : Span) (p p' : Pool) (held : List Nat)
    (others : Nat → Nat) (newAddr size alignment ret : Nat) : Prop where
  account : Account c usable p' held fun x => others x + (Span.mk ret size).ind x
  valid : ChunkSpan c ⟨ret, size⟩
  same : HugeSame p p'
  wanted : newAddr ≠ 0 → alignment = c.chunksize → ret = newAddr

/-- `chunk_recycle` moves a range to the others, or does nothing. -/
theorem recycle {dss : Dss} {size alignment : Nat} (outside : Outside c dss usable)
    (account : Account c usable p held others) (request : Request c size alignment)
    (few : held.length ≤ 1) (newAddr : Nat)
    (zero : Bool) :
    (∃ p' ret zeroOut,
        chunkRecycle c p newAddr size alignment zero dss = (p', some (ret, zeroOut)) ∧
          Allocated c usable p p' held others newAddr size alignment ret) ∨
      chunkRecycle c p newAddr size alignment zero dss = (p, none) := by
  rw [chunkRecycle_eq account.ledger.trees request fun n member x has =>
    outside.chunk (account.inside_free member has)]
  rcases chunkRecycle_cases account.ledger.trees account.ledger.apart request newAddr zero with
    ⟨p', ret, zeroOut, result, recycled⟩ | ⟨p', result, failed⟩
  · refine Or.inl ⟨p', ret, zeroOut, result, {
      account := ?_
      valid := ⟨request.nonempty, request.size_dvd,
        request.alignment_dvd.trans recycled.aligned⟩
      same := account.hugeSame recycled.change
      wanted := recycled.wanted }⟩
    apply account.change recycled.change recycled.kept recycled.coalesced
    intro x
    simp only [cover_cons, cover_nil]
    rfl
  · rcases failed.unchanged with same | ⟨_, empty, n, member, long⟩
    · exact Or.inr (by rw [result, same])
    · exact absurd empty (account.available_of_long member long few)

/-- `chunk_alloc_arena`: registration may still fail, and then the range goes
back. -/
theorem allocArena {dss : Dss} {size alignment : Nat} (outside : Outside c dss usable)
    (account : Account c usable p held others) (request : Request c size alignment)
    (few : held.length ≤ 1) (newAddr : Nat)
    (zero rtreeFails : Bool) :
    (∃ p' ret zeroOut,
        chunkAllocArena c p newAddr size alignment zero rtreeFails dss =
            (p', some (ret, zeroOut)) ∧
          Allocated c usable p p' held others newAddr size alignment ret) ∨
      ∃ p', chunkAllocArena c p newAddr size alignment zero rtreeFails dss = (p', none) ∧
        Account c usable p' held others ∧ HugeSame p p' := by
  unfold chunkAllocArena chunkAllocDefault
  rcases account.recycle outside request few newAddr zero with
    ⟨p', ret, zeroOut, result, allocated⟩ | result
  · simp only [result]
    cases rtreeFails with
    | false =>
        refine Or.inl ⟨_, ret, zeroOut, rfl, {
          account := allocated.account.of_contents
          valid := allocated.valid
          same := ⟨allocated.same.huge, allocated.same.node⟩
          wanted := allocated.wanted }⟩
    | true =>
        obtain ⟨returned, same⟩ := allocated.account.dalloc outside allocated.valid few
        refine Or.inr ⟨_, rfl, returned, same.huge.trans allocated.same.huge, ?_⟩
        intro n member
        exact (same.node n (allocated.same.huge ▸ member)).trans
          (allocated.same.node n member)
  · simp only [result]
    exact Or.inr ⟨p, rfl, account, rfl, fun _ _ => rfl⟩

end Account

end Jemalloc
end Vmem
