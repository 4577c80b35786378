import Vmem.Jemalloc.Ledger

/-!
# Huge blocks and the ledger of a pool

Each of the functions on huge blocks keeps the ledger of a pool with any number of ranges,
also when chunks are dropped for want of a node.  They write only memory that is not free,
so the zeroed flags of the free extents stay sound, and memory that was asked for with
zeroes is zero.
-/

namespace Vmem
namespace Jemalloc

variable {c : Config} {bound : Nat → Nat} {p p' p'' : Pool} {held : List Nat}
  {others : Nat → Nat}

/-- What the functions on huge blocks keep besides the ledger. -/
structure PoolKept (p p' : Pool) : Prop where
  flags : ZeroedSound p → ZeroedSound p'
  coalesced : Coalesced p → Coalesced p'
  nodeCount : p'.nodeCount = p.nodeCount
  memoryRanges : p'.memoryRanges = p.memoryRanges

theorem PoolKept.refl (p : Pool) : PoolKept p p := ⟨id, id, rfl, rfl⟩

theorem PoolKept.trans (first : PoolKept p p') (second : PoolKept p' p'') : PoolKept p p'' :=
  ⟨second.flags ∘ first.flags, second.coalesced ∘ first.coalesced,
    second.nodeCount.trans first.nodeCount, second.memoryRanges.trans first.memoryRanges⟩

theorem HugeSame.trans (first : HugeSame p p') (second : HugeSame p' p'') : HugeSame p p'' where
  huge := second.huge.trans first.huge
  node := fun n member => (second.node n (first.huge ▸ member)).trans (first.node n member)

/-- The block at `ptr` with node `n` has only zeroes behind its first `oldsize` bytes. -/
def AddedZero (p : Pool) (n ptr oldsize : Nat) : Prop :=
  ∀ x, ptr + oldsize ≤ x → x < ptr + (p.node n).size → p.mem x = 0

/-! ## Writes to memory -/

theorem memset_outside (mem : Nat → UInt8) (start length : Nat) (byte : UInt8) {x : Nat}
    (outside : ¬(Span.mk start length).Has x) : memset mem start length byte x = mem x :=
  if_neg outside

theorem hugeFill_outside (c : Config) (p : Pool) (addr length : Nat) (zero isZeroed : Bool)
    {x : Nat}
    (outside : ¬(Span.mk addr length).Has x) :
    (hugeFill c p addr length zero isZeroed).mem x = p.mem x := by
  unfold hugeFill
  split
  · rfl
  · split
    · exact memset_outside _ _ _ _ outside
    · split
      · exact memset_outside _ _ _ _ outside
      · rfl

theorem hugeDallocJunk_outside (c : Config) (p : Pool) (addr length : Nat) {x : Nat}
    (outside : ¬(Span.mk addr length).Has x) :
    (hugeDallocJunk c p addr length).mem x = p.mem x := by
  unfold hugeDallocJunk
  split
  · exact memset_outside _ _ _ _ outside
  · rfl

/-- Memory that is not free may be written. -/
theorem PoolKept.of_mem {mem : Nat → UInt8} {span : Span}
    (taken : ∀ x, span.Has x → cover p.freeSpans x = 0)
    (outside : ∀ x, ¬span.Has x → mem x = p.mem x) : PoolKept p { p with mem := mem } where
  flags := by
    intro sound
    refine sound.of_mem rfl rfl fun x free => Or.inl (outside x fun inside => ?_)
    have := taken x inside
    omega
  coalesced := id
  nodeCount := rfl
  memoryRanges := rfl

namespace Ledger

/-- What others own is not free. -/
theorem taken_of_others (ledger : Ledger c bound p held others) (bounded : Bounded bound)
    {span : Span} (owned : ∀ x, span.ind x ≤ others x) :
    ∀ x, span.Has x → cover p.freeSpans x = 0 := by
  intro x inside
  have counted := owned x
  rw [Span.ind_eq_one_iff.mpr inside] at counted
  have := ledger.cover_free_le x
  have := bounded.once x
  omega

/-- A huge block is not free. -/
theorem taken_of_huge (ledger : Ledger c bound p held others) (bounded : Bounded bound)
    {n : Nat} (member : n ∈ p.huge) :
    ∀ x, (p.node n).span.Has x → cover p.freeSpans x = 0 := by
  intro x inside
  have counted := ind_le_cover_huge member x
  rw [Span.ind_eq_one_iff.mpr inside] at counted
  have := ledger.covers x
  have := bounded.once x
  omega

theorem fill (ledger : Ledger c bound p held others) (addr length : Nat) (zero isZeroed : Bool) :
    Ledger c bound (hugeFill c p addr length zero isZeroed) held others := by
  rw [hugeFill_eq]
  exact ledger.of_contents

theorem junk (ledger : Ledger c bound p held others) (addr length : Nat) :
    Ledger c bound (hugeDallocJunk c p addr length) held others := by
  rw [hugeDallocJunk_eq]
  exact ledger.of_contents

end Ledger

theorem moved_fill {addr length : Nat} (zero isZeroed : Bool)
    (taken : ∀ x, (Span.mk addr length).Has x → cover p.freeSpans x = 0) :
    PoolKept p (hugeFill c p addr length zero isZeroed) := by
  rw [hugeFill_eq]
  exact PoolKept.of_mem taken fun x outside =>
    hugeFill_outside c p addr length zero isZeroed outside

theorem moved_junk {addr length : Nat}
    (taken : ∀ x, (Span.mk addr length).Has x → cover p.freeSpans x = 0) :
    PoolKept p (hugeDallocJunk c p addr length) := by
  rw [hugeDallocJunk_eq]
  exact PoolKept.of_mem taken fun x outside => hugeDallocJunk_outside c p addr length outside

/-- A node that is not in the free trees may be written. -/
theorem moved_setNode {n : Nat} (value : ExtentNode) (absent : n ∉ p.chunksAd) :
    PoolKept p (p.setNode n value) := by
  refine ⟨fun sound m member => ?_, fun coalesced => coalesced.setNode absent value, rfl, rfl⟩
  rw [Pool.setNode_of_mem absent member]
  exact sound m member

/-- A node in no tree is no free span. -/
theorem freeSpans_setNode {n : Nat} (value : ExtentNode) (absent : n ∉ p.chunksAd) :
    (p.setNode n value).freeSpans = p.freeSpans := by
  apply List.map_congr_left
  intro m inTree
  exact congrArg ExtentNode.span (Pool.setNode_of_mem absent inTree value)

/-! ## Chunks -/

namespace Ledger

/-- Giving a range back; it goes to the free set or is dropped. -/
theorem dalloc {span : Span} (ledger : Ledger c bound p held fun x => others x + span.ind x)
    (bounded : Bounded bound) (valid : ChunkSpan c span) :
    Ledger c bound (chunkDallocDefault c p span.lo span.len) held others ∧
      PoolKept p (chunkDallocDefault c p span.lo span.len) ∧
      HugeSame p (chunkDallocDefault c p span.lo span.len) := by
  have counted : Ledger c bound
      { p with curchunks := Word.sub p.curchunks (span.len / c.chunksize) } held
      fun x => others x + span.ind x := ledger.of_contents
  have range := counted.recordable bounded valid fun _ => Nat.le_add_left ..
  have changed := chunkRecord_section false counted.trees counted.apart range
  rw [chunkDallocDefault_record]
  refine ⟨counted.change (PoolChange.of_section changed) fun x => ?_, ⟨?_, ?_, ?_, ?_⟩, ?_, ?_⟩
  · simp only [cover_cons, cover_nil]
    rfl
  · exact fun sound => chunkRecord_zeroed counted.trees counted.apart range (by simp) sound
  · exact fun coalesced =>
      chunkRecord_coalesced false counted.trees counted.apart range coalesced
  · exact changed.nodeCount
  · exact changed.memoryRanges
  · exact changed.huge
  · exact fun _ member => counted.numbered.heap_eq (PoolChange.of_section changed)
      (List.mem_append_left held member)

/-- A successful allocation of chunks. -/
structure Allotted (c : Config) (bound : Nat → Nat) (p p' : Pool) (held : List Nat)
    (others : Nat → Nat) (newAddr size alignment : Nat) (zero : Bool) (ret : Nat) : Prop where
  ledger : Ledger c bound p' held fun x => others x + (Span.mk ret size).ind x
  valid : ChunkSpan c ⟨ret, size⟩
  moved : PoolKept p p'
  same : HugeSame p p'
  wanted : newAddr ≠ 0 → alignment = c.chunksize → ret = newAddr
  cleared : ZeroedSound p → zero = true → ∀ x, (Span.mk ret size).Has x → p'.mem x = 0

/-- `chunk_recycle` moves a range to the others, or moves nothing to them. -/
theorem recycle {size alignment : Nat} (ledger : Ledger c bound p held others)
    (request : Request c size alignment) (newAddr : Nat) (zero : Bool) :
    (∃ p' ret zeroOut,
        chunkRecycle c p newAddr size alignment zero = (p', some (ret, zeroOut)) ∧
          Allotted c bound p p' held others newAddr size alignment zero ret) ∨
      ∃ p', chunkRecycle c p newAddr size alignment zero = (p', none) ∧
        Ledger c bound p' held others ∧ PoolKept p p' ∧ HugeSame p p' := by
  have same : ∀ {q : Pool} {gain loss : List Span}, PoolSection c p q gain loss → HugeSame p q :=
    fun changed => ⟨changed.huge, fun _ member => ledger.numbered.heap_eq
      (PoolChange.of_section changed) (List.mem_append_left held member)⟩
  rcases chunkRecycle_cases ledger.trees ledger.apart request newAddr zero with
    ⟨p', ret, zeroOut, result, recycled⟩ | ⟨p', result, failed⟩
  · refine Or.inl ⟨p', ret, zeroOut, result, {
      ledger := ledger.change (PoolChange.of_section recycled.change) fun x => ?_
      valid := ⟨request.nonempty, request.size_dvd,
        request.alignment_dvd.trans recycled.aligned⟩
      moved := ⟨recycled.zeroed, recycled.coalesced, recycled.change.nodeCount,
        recycled.change.memoryRanges⟩
      same := same recycled.change
      wanted := recycled.wanted
      cleared := recycled.cleared }⟩
    simp only [cover_cons, cover_nil]
    rfl
  · exact Or.inr ⟨p', result,
      ledger.change (PoolChange.of_section failed.change) fun _ => rfl,
      ⟨failed.zeroed, failed.coalesced, failed.change.nodeCount, failed.change.memoryRanges⟩,
      same failed.change⟩

/-- `chunk_alloc_arena`: registration may still fail, and then the range goes back. -/
theorem allocArena {size alignment : Nat} (ledger : Ledger c bound p held others)
    (bounded : Bounded bound) (request : Request c size alignment) (newAddr : Nat)
    (zero rtreeFails : Bool) :
    (∃ p' ret zeroOut,
        chunkAllocArena c p newAddr size alignment zero rtreeFails = (p', some (ret, zeroOut)) ∧
          Allotted c bound p p' held others newAddr size alignment zero ret) ∨
      ∃ p', chunkAllocArena c p newAddr size alignment zero rtreeFails = (p', none) ∧
        Ledger c bound p' held others ∧ PoolKept p p' ∧ HugeSame p p' := by
  unfold chunkAllocArena chunkAllocDefault
  rcases ledger.recycle request newAddr zero with
    ⟨p', ret, zeroOut, result, allotted⟩ | ⟨p', result, kept, moved, same⟩
  · simp only [result]
    cases rtreeFails with
    | false =>
        exact Or.inl ⟨_, ret, zeroOut, rfl, {
          ledger := allotted.ledger.of_contents
          valid := allotted.valid
          moved := ⟨allotted.moved.flags, allotted.moved.coalesced, allotted.moved.nodeCount,
            allotted.moved.memoryRanges⟩
          same := ⟨allotted.same.huge, allotted.same.node⟩
          wanted := allotted.wanted
          cleared := allotted.cleared }⟩
    | true =>
        obtain ⟨returned, moved, same⟩ := allotted.ledger.dalloc bounded allotted.valid
        exact Or.inr ⟨_, rfl, returned, allotted.moved.trans moved, allotted.same.trans same⟩
  · simp only [result]
    exact Or.inr ⟨p', rfl, kept, moved, same⟩

/-! ## The functions on huge blocks -/

/-- Enter a range that is in flight as a huge block. -/
theorem hugeEnter {n : Nat} (value : ExtentNode)
    (ledger : Ledger c bound p (n :: held) fun x => others x + value.span.ind x)
    (bounded : Bounded bound) (valid : ChunkSpan c value.span) :
    Ledger c bound ((p.setNode n value).hugeInsert n) held others ∧
      PoolKept p ((p.setNode n value).hugeInsert n) := by
  have extent : ExtentValid c value := {
    nonempty := valid.nonempty
    size_dvd := valid.len_dvd
    addr_dvd := valid.lo_dvd
    below := (ledger.recordable bounded valid fun _ => Nat.le_add_left ..).below }
  have moved := moved_setNode value ledger.fresh.1
  exact ⟨ledger.hugeLink extent (bounded.once _) fun _ => rfl,
    moved.flags, moved.coalesced, moved.nodeCount, moved.memoryRanges⟩

/-- `huge_palloc` keeps the ledger, and a block asked for with zeroes is zero. -/
theorem palloc {alignment : Nat} (ledger : Ledger c bound p [] others) (bounded : Bounded bound)
    (power : ∃ k, c.lgChunk ≤ k ∧ k < 64 ∧ alignment = 2 ^ k)
    (arena : Option Nat) (size : Nat) (zero rtreeFails : Bool) :
    Ledger c bound (hugePalloc c p arena size alignment zero rtreeFails).1 [] others ∧
      PoolKept p (hugePalloc c p arena size alignment zero rtreeFails).1 ∧
      ∀ ret, (hugePalloc c p arena size alignment zero rtreeFails).2 = some ret →
        zero = true → ZeroedSound p → ∀ x, (Span.mk ret (c.chunkCeiling size)).Has x →
          (hugePalloc c p arena size alignment zero rtreeFails).1.mem x = 0 := by
  have nothing : Ledger c bound p [] others ∧ PoolKept p p ∧
      ∀ ret, (none : Option Nat) = some ret → zero = true → ZeroedSound p →
        ∀ x, (Span.mk ret (c.chunkCeiling size)).Has x → p.mem x = 0 :=
    ⟨ledger, PoolKept.refl p, fun _ absurd_ => by cases absurd_⟩
  unfold hugePalloc
  by_cases wraps : c.chunkCeiling size = 0
  · simp only [if_pos wraps]
    rw [wraps] at nothing
    exact ⟨ledger, PoolKept.refl p, fun _ absurd_ => by cases absurd_⟩
  simp only [if_neg wraps]
  have request : Request c (c.chunkCeiling size) alignment := {
    nonempty := Nat.pos_of_ne_zero wraps
    size_dvd := c.dvd_chunkCeiling size
    size_lt := c.chunkCeiling_lt size
    power := power }
  cases arena with
  | none => exact nothing
  | some arena =>
      cases nodes : p.baseNodes with
      | nil =>
          simp only [baseNodeAlloc, nodes]
          exact nothing
      | cons n rest =>
          have taken := ledger.takeNode nodes
          have movedTaken : PoolKept p { p with baseNodes := rest } := ⟨id, id, rfl, rfl⟩
          simp only [baseNodeAlloc, nodes, arenaChunkAllocHuge]
          rcases taken.allocArena bounded request 0 zero rtreeFails with
            ⟨p', ret, isZeroed, result, allotted⟩ | ⟨p', result, returned, moved, _⟩
          · simp only [result]
            obtain ⟨entered, movedEntered⟩ := hugeEnter { p'.node n with
              addr := ret, size := c.chunkCeiling size, arena := arena } allotted.ledger bounded
                allotted.valid
            have member : n ∈ ((p'.setNode n { p'.node n with
                addr := ret, size := c.chunkCeiling size, arena := arena }).hugeInsert n).huge :=
              OrderedTree.mem_insert.mpr (Or.inl rfl)
            have block := entered.taken_of_huge bounded member
            have node : ((p'.setNode n { p'.node n with
                addr := ret, size := c.chunkCeiling size, arena := arena }).hugeInsert n).node n =
              { p'.node n with addr := ret, size := c.chunkCeiling size, arena := arena } :=
              Function.update_self ..
            rw [node] at block
            have filled := moved_fill (c := c) zero isZeroed block
            refine ⟨entered.fill .., movedTaken.trans
              (allotted.moved.trans (movedEntered.trans filled)), ?_⟩
            rintro found same rfl sound x inside
            injection same with same
            subst same
            unfold hugeFill
            rw [if_pos rfl]
            exact allotted.cleared sound rfl x inside
          · simp only [result]
            exact ⟨returned.giveNode, movedTaken.trans ⟨moved.flags, moved.coalesced,
              moved.nodeCount, moved.memoryRanges⟩, fun _ absurd_ => by cases absurd_⟩

/-- `huge_dalloc` of a live block keeps the ledger. -/
theorem hugeDalloc {ptr n : Nat} (ledger : Ledger c bound p [] others) (bounded : Bounded bound)
    (found : p.hugeSearch ptr = some n) :
    Ledger c bound (hugeDalloc c p ptr) [] others ∧ PoolKept p (hugeDalloc c p ptr) := by
  obtain ⟨member, _⟩ := hugeSearch_some found
  have extent := ledger.hugeExtent n member
  have block := ledger.taken_of_huge bounded member
  have unlinked : Ledger c bound (p.hugeRemove n) [n]
      fun x => others x + (p.node n).span.ind x := ledger.hugeUnlink member fun _ => rfl
  have junked := unlinked.junk (p.node n).addr (p.node n).size
  have movedJunk : PoolKept (p.hugeRemove n)
      (hugeDallocJunk c (p.hugeRemove n) (p.node n).addr (p.node n).size) := moved_junk block
  obtain ⟨returned, moved, _⟩ := junked.dalloc bounded extent.chunkSpan
  simp only [Jemalloc.hugeDalloc, found]
  have sameNode : (hugeDallocJunk c (p.hugeRemove n) (p.node n).addr
      (p.node n).size).node = p.node := by
    rw [hugeDallocJunk_eq]
    rfl
  change Ledger c bound (baseNodeDalloc (arenaChunkDallocHuge c
    (hugeDallocJunk c (p.hugeRemove n) (p.node n).addr (p.node n).size)
    ((hugeDallocJunk c (p.hugeRemove n) (p.node n).addr (p.node n).size).node n).addr
    ((hugeDallocJunk c (p.hugeRemove n) (p.node n).addr (p.node n).size).node n).size) n)
    [] others ∧ PoolKept p (baseNodeDalloc (arenaChunkDallocHuge c
    (hugeDallocJunk c (p.hugeRemove n) (p.node n).addr (p.node n).size)
    ((hugeDallocJunk c (p.hugeRemove n) (p.node n).addr (p.node n).size).node n).addr
    ((hugeDallocJunk c (p.hugeRemove n) (p.node n).addr (p.node n).size).node n).size) n)
  rw [sameNode]
  have all := movedJunk.trans moved
  exact ⟨returned.giveNode, all.flags, all.coalesced, all.nodeCount, all.memoryRanges⟩

/-- Shrinking in place makes the node smaller and gives the excess back. -/
theorem shrink_dalloc {ptr n size : Nat} (ledger : Ledger c bound p [] others)
    (bounded : Bounded bound)
    (found : p.hugeSearch ptr = some n) (positive : c.chunkCeiling size ≠ 0)
    (smaller : c.chunkCeiling size < (p.node n).size) :
    ∃ q, hugeRallocNoMoveShrink c p ptr (p.node n).size size =
        (chunkDallocDefault c q ((p.node n).addr + c.chunkCeiling size)
          ((p.node n).size - c.chunkCeiling size), false) ∧
      (∃ mem, q = { p.setNode n { p.node n with size := c.chunkCeiling size } with mem := mem }) ∧
      Ledger c bound q [] (fun x => others x + (Span.mk ((p.node n).addr + c.chunkCeiling size)
        ((p.node n).size - c.chunkCeiling size)).ind x) ∧
      PoolKept p q ∧
      ChunkSpan c ⟨(p.node n).addr + c.chunkCeiling size,
        (p.node n).size - c.chunkCeiling size⟩ := by
  obtain ⟨member, _⟩ := hugeSearch_some found
  have extent := ledger.hugeExtent n member
  have below := extent.below
  have absent := (ledger.numbered.of_held (List.mem_append_left [] member)).1
  have newDvd := c.dvd_chunkCeiling size
  generalize newSize_eq : c.chunkCeiling size = newSize at *
  obtain ⟨valid, excess, cut⟩ := extent.cut positive newDvd smaller
  have resized : Ledger c bound (p.setNode n { p.node n with size := newSize }) []
      fun x => others x +
        (Span.mk ((p.node n).addr + newSize) ((p.node n).size - newSize)).ind x := by
    apply ledger.hugeResize member valid
    intro x
    have := cut x
    omega
  have movedResize : PoolKept p (p.setNode n { p.node n with size := newSize }) :=
    moved_setNode _ absent
  have movedJunk : PoolKept (p.setNode n { p.node n with size := newSize })
      (hugeDallocJunk c (p.setNode n { p.node n with size := newSize })
        ((p.node n).addr + newSize) ((p.node n).size - newSize)) :=
    moved_junk (resized.taken_of_others bounded fun _ => Nat.le_add_left ..)
  have oldCeiling : c.chunkCeiling (p.node n).size = (p.node n).size :=
    c.chunkCeiling_eq extent.size_dvd (by omega)
  have addrEq : Word.add (p.node n).addr newSize = (p.node n).addr + newSize :=
    Word.add_eq (by omega)
  have sizeEq : Word.sub (p.node n).size newSize = (p.node n).size - newSize :=
    Word.sub_eq (by omega) (by omega)
  have node : (p.setNode n { p.node n with size := newSize }).node n =
      { p.node n with size := newSize } := Function.update_self ..
  simp only [hugeRallocNoMoveShrink, found, newSize_eq, oldCeiling, node, addrEq, sizeEq]
  exact ⟨_, rfl, ⟨_, hugeDallocJunk_eq ..⟩,
    resized.junk ((p.node n).addr + newSize) ((p.node n).size - newSize),
    movedResize.trans movedJunk, excess⟩

/-- Shrinking in place keeps the ledger. -/
theorem shrink {ptr n size : Nat} (ledger : Ledger c bound p [] others) (bounded : Bounded bound)
    (found : p.hugeSearch ptr = some n) (positive : c.chunkCeiling size ≠ 0)
    (smaller : c.chunkCeiling size < (p.node n).size) :
    Ledger c bound (hugeRallocNoMoveShrink c p ptr (p.node n).size size).1 [] others ∧
      PoolKept p (hugeRallocNoMoveShrink c p ptr (p.node n).size size).1 ∧
      ((hugeRallocNoMoveShrink c p ptr (p.node n).size size).1.node n).size =
        c.chunkCeiling size := by
  obtain ⟨member, _⟩ := hugeSearch_some found
  obtain ⟨q, result, ⟨mem, q_eq⟩, resized, kept, excess⟩ :=
    ledger.shrink_dalloc bounded found positive smaller
  obtain ⟨returned, moved, same⟩ := resized.dalloc bounded excess
  have inHuge : n ∈ q.huge := by
    rw [q_eq]
    exact member
  have node : q.node n = { p.node n with size := c.chunkCeiling size } := by
    rw [q_eq]
    exact Function.update_self ..
  rw [result]
  refine ⟨returned, kept.trans moved, ?_⟩
  rw [same.node n inHuge, node]

/-- Growing in place either leaves the huge blocks alone or moves exactly the new
part from the free set into the block; the new part is zero when it was asked
for with zeroes. -/
theorem expand {ptr n size : Nat} (ledger : Ledger c bound p [] others)
    (bounded : Bounded bound) (found : p.hugeSearch ptr = some n)
    (larger : c.chunkCeiling size ≠ 0 → (p.node n).size < c.chunkCeiling size)
    (zero rtreeFails : Bool) :
    (∃ p', hugeRallocNoMoveExpand c p ptr (p.node n).size size zero rtreeFails =
          (p', false) ∧ Ledger c bound p' [] others ∧ PoolKept p p' ∧
          (zero = true → ZeroedSound p → AddedZero p' n ptr (p.node n).size)) ∨
      ∃ p', hugeRallocNoMoveExpand c p ptr (p.node n).size size zero rtreeFails =
          (p', true) ∧ Ledger c bound p' [] others ∧ PoolKept p p' ∧ HugeSame p p' := by
  obtain ⟨member, starts⟩ := hugeSearch_some found
  have extent := ledger.hugeExtent n member
  have below := extent.below
  have nonempty := extent.nonempty
  unfold hugeRallocNoMoveExpand
  by_cases wraps : c.chunkCeiling size = 0
  · exact Or.inr ⟨p, by simp only [if_pos wraps], ledger, PoolKept.refl p, rfl, fun _ _ => rfl⟩
  have grows := larger wraps
  have newDvd := c.dvd_chunkCeiling size
  have newLt := c.chunkCeiling_lt size
  simp only [if_neg wraps, found, arenaChunkAllocHuge]
  generalize c.chunkCeiling size = newSize at *
  have addrEq : Word.add ptr (p.node n).size = ptr + (p.node n).size :=
    Word.add_eq (by omega)
  have sizeEq : Word.sub newSize (p.node n).size = newSize - (p.node n).size :=
    Word.sub_eq (by omega) newLt
  have request : Request c (newSize - (p.node n).size) c.chunksize :=
    Request.of_chunksize (by omega) (Nat.dvd_sub newDvd extent.size_dvd) (by omega)
  rw [addrEq, sizeEq]
  rcases ledger.allocArena bounded request (ptr + (p.node n).size) zero rtreeFails with
    ⟨p', ret, isZeroed, result, allotted⟩ | ⟨p', result, returned, moved, same⟩
  · simp only [result]
    refine Or.inl ⟨_, rfl, ?_⟩
    have ret_eq : ret = ptr + (p.node n).size := allotted.wanted (by omega) rfl
    have node := allotted.same.node n member
    have linked : n ∈ p'.huge := allotted.same.huge ▸ member
    have absent := (allotted.ledger.numbered.of_held (List.mem_append_left [] linked)).1
    have flight := (allotted.ledger.recordable bounded allotted.valid
      fun _ => Nat.le_add_left ..).below
    have taken : ∀ x, (Span.mk ret (newSize - (p.node n).size)).Has x →
        cover p'.freeSpans x = 0 :=
      allotted.ledger.taken_of_others bounded fun _ => Nat.le_add_left ..
    have resized : Ledger c bound (p'.setNode n { p'.node n with size := newSize }) []
        others := by
      apply allotted.ledger.hugeResize linked
      · rw [node]
        exact {
          nonempty := by
            dsimp only
            omega
          size_dvd := newDvd
          addr_dvd := extent.addr_dvd
          below := by
            dsimp only at flight ⊢
            omega }
      · intro x
        have joined := Span.ind_add (p.node n).addr (p.node n).size
          (newSize - (p.node n).size) x
        have total : (p.node n).size + (newSize - (p.node n).size) = newSize := by omega
        rw [total] at joined
        rw [node, ret_eq, joined, starts, ← starts]
        simp only [ExtentNode.span]
        omega
    have movedResize : PoolKept p' (p'.setNode n { p'.node n with size := newSize }) :=
      moved_setNode _ absent
    rw [← ret_eq]
    have movedFill : PoolKept (p'.setNode n { p'.node n with size := newSize })
        (hugeFill c (p'.setNode n { p'.node n with size := newSize }) ret
          (newSize - (p.node n).size) zero isZeroed) := by
      apply moved_fill
      intro x inside
      rw [freeSpans_setNode _ absent]
      exact taken x inside
    refine ⟨resized.fill .., allotted.moved.trans (movedResize.trans movedFill), ?_⟩
    rintro rfl sound x lower upper
    unfold hugeFill at upper ⊢
    rw [if_pos rfl] at upper ⊢
    apply allotted.cleared sound rfl x
    have after : (p'.setNode n { p'.node n with size := newSize }).node n =
        { p'.node n with size := newSize } := Function.update_self ..
    rw [after] at upper
    dsimp only at upper
    rw [Span.has_mk]
    omega
  · simp only [result]
    exact Or.inr ⟨p', rfl, returned, moved, same⟩

/-- `huge_ralloc_no_move` of a live block keeps the ledger, and what it adds to a
block with zeroes is zero. -/
theorem rallocNoMove {ptr n size extra : Nat} (ledger : Ledger c bound p [] others)
    (bounded : Bounded bound) (found : p.hugeSearch ptr = some n)
    (sizeLt : size < Word.modulus)
    (noWrap : extra ≠ 0 → size + extra + c.chunksize ≤ Word.modulus)
    (zero rtreeFails rtreeFailsAgain : Bool) :
    ∃ p' failed, hugeRallocNoMove c p ptr (p.node n).size size extra zero rtreeFails
        rtreeFailsAgain = (p', failed) ∧
      Ledger c bound p' [] others ∧ PoolKept p p' ∧
      (failed = false → zero = true → ZeroedSound p → AddedZero p' n ptr (p.node n).size) := by
  obtain ⟨member, starts⟩ := hugeSearch_some found
  have extent := ledger.hugeExtent n member
  have below := extent.below
  have positive := c.chunksize_pos
  have oldCeiling : c.chunkCeiling (p.node n).size = (p.node n).size :=
    c.chunkCeiling_eq extent.size_dvd (by omega)
  unfold hugeRallocNoMove
  rw [oldCeiling]
  have unchanged : ∀ failed, ∃ p' answer, (p, failed) = (p', answer) ∧
      Ledger c bound p' [] others ∧ PoolKept p p' ∧
      (answer = false → zero = true → ZeroedSound p →
        AddedZero p' n ptr (p.node n).size) := by
    refine fun failed => ⟨p, failed, rfl, ledger, PoolKept.refl p, ?_⟩
    intro _ _ _ x lower upper
    omega
  split
  · exact unchanged true
  split
  · exact unchanged false
  next different =>
  split
  · exact unchanged true
  next fits =>
  split
  · next smaller =>
      obtain ⟨kept, moved, size_eq⟩ := ledger.shrink bounded found fits smaller
      generalize hugeRallocNoMoveShrink c p ptr (p.node n).size size = after at *
      refine ⟨after.1, after.2, rfl, kept, moved, ?_⟩
      intro _ _ _ x lower upper
      rw [size_eq] at upper
      omega
  next notSmaller =>
  -- neither attempt asks for less than the block has
  have mono := c.chunkCeiling_extra sizeLt noWrap
  generalize Word.add size extra = most at *
  have grows : (p.node n).size < c.chunkCeiling size := by
    by_contra atMost
    exact different ⟨by omega, by omega⟩
  have growsMore : c.chunkCeiling most ≠ 0 →
      (p.node n).size < c.chunkCeiling most := fun _ => by omega
  rcases ledger.expand bounded found growsMore zero rtreeFails with
    ⟨p', result, done, moved, added⟩ | ⟨p', result, failed, moved, same⟩
  · rw [result]
    exact ⟨p', false, rfl, done, moved, fun _ => added⟩
  · rw [result]
    simp only
    split
    · exact ⟨p', true, rfl, failed, moved, fun absurd_ => by cases absurd_⟩
    · have node := same.node n member
      have linked : n ∈ p'.huge := same.huge ▸ member
      have startsAgain : (p'.node n).addr = ptr := by rw [node, starts]
      have foundAgain := failed.hugeSearch_eq linked startsAgain
      have growsAgain : c.chunkCeiling size ≠ 0 →
          (p'.node n).size < c.chunkCeiling size := fun _ => by rw [node]; exact grows
      rw [← node]
      rcases failed.expand bounded foundAgain growsAgain zero rtreeFailsAgain with
        ⟨p'', again, done, movedAgain, added⟩ | ⟨p'', again, done, movedAgain, _⟩
      · exact ⟨p'', false, again, done, moved.trans movedAgain,
          fun _ isZero sound => added isZero (moved.flags sound)⟩
      · exact ⟨p'', true, again, done, moved.trans movedAgain,
          fun absurd_ => by cases absurd_⟩

end Ledger

end Jemalloc
end Vmem
