import Vmem.Library.Run
import Vmem.Jemalloc.Ledger

/-!
# The free trees over whole runs

Chunks are recycled and recorded in any order, the pool is extended by further
regions, the base allocator takes chunks, and extent nodes are taken away and
given back by whoever else uses them.  In every state that is reached the two
trees hold the same disjoint extents, coalescing is complete, and every extent
lies in the pool's usable memory.
-/

namespace Vmem
namespace Jemalloc

/-- A pool with the addresses that were recycled and not recorded again, and the
nodes that others hold. -/
structure ChunkState where
  pool : Pool
  lent : Nat → Bool
  held : List Nat

/-- What can happen to the chunks of a pool. -/
inductive ChunkOp
  | recycle (newAddr size alignment : Nat) (zero : Bool)
  | record (chunk size : Nat) (zeroed : Bool)
  | extend (addr size : Nat) (zeroed : Bool)
  | baseAlloc (size : Nat)
  /-- Somebody else takes a node from `base_nodes`. -/
  | takeNode
  /-- Somebody else gives a node back. -/
  | giveNode (n : Nat)
  /-- Somebody else writes a node that it holds. -/
  | editNode (n : Nat) (value : ExtentNode)
  /-- A byte of memory that is not free is written. -/
  | write (x : Nat) (byte : UInt8)

namespace ChunkState

/-- Execute one operation; `none` when an assertion fails. -/
def exec (c : Config) (s : ChunkState) : ChunkOp → Option ChunkState
  | .recycle newAddr size alignment zero =>
      match chunkRecycle c s.pool newAddr size alignment zero with
      | (p, none) => some { s with pool := p }
      | (p, some (ret, _)) =>
          some { s with
            pool := p
            lent := fun x => s.lent x || decide ((Span.mk ret size).Has x) }
  | .record chunk size zeroed =>
      some { s with
        pool := chunkRecord c s.pool chunk size zeroed
        lent := fun x => s.lent x && !decide ((Span.mk chunk size).Has x) }
  | .extend addr size zeroed =>
      match poolExtend c s.pool addr size zeroed with
      | none => none
      | some (p, _) => some { s with pool := p }
  | .baseAlloc size => some { s with pool := (baseAlloc c s.pool size).1 }
  | .takeNode =>
      match baseNodeAlloc s.pool with
      | (p, none) => some { s with pool := p }
      | (p, some n) => some { s with pool := p, held := n :: s.held }
  | .giveNode n =>
      some { s with pool := baseNodeDalloc s.pool n, held := s.held.erase n }
  | .editNode n value => some { s with pool := s.pool.setNode n value }
  | .write x byte =>
      some { s with pool := { s.pool with mem := Function.update s.pool.mem x byte } }

/-- A region that has nothing in common with the regions of a pool. -/
def RegionApart (ranges : List MemoryRange) (addr size : Nat) : Prop :=
  ∀ range ∈ ranges, range.addrEnd ≤ addr ∨ addr + size ≤ range.addr

/-- What callers may ask for. -/
def Permitted (c : Config) (s : ChunkState) : ChunkOp → Prop
  | .recycle _ size alignment _ => Request c size alignment
  | .record chunk size _ =>
      0 < size ∧ c.chunksize ∣ size ∧ c.chunksize ∣ chunk ∧
        ∀ x, (Span.mk chunk size).Has x → s.lent x = true
  | .extend addr size _ =>
      0 < addr ∧ addr + size < Word.modulus ∧ RegionApart s.pool.memoryRanges addr size
  | .baseAlloc size => BaseRequest c size
  | .takeNode => True
  | .giveNode n => n ∈ s.held
  | .editNode n _ => n ∈ s.held
  | .write x _ => cover s.pool.freeSpans x = 0

/-- Flags that claim memory to be zero tell the truth. -/
def Truthful (s : ChunkState) : ChunkOp → Prop
  | .record chunk size zeroed =>
      zeroed = true → ∀ x, (Span.mk chunk size).Has x → s.pool.mem x = 0
  | .extend addr size zeroed =>
      zeroed = true → ∀ x, (Span.mk addr size).Has x → s.pool.mem x = 0
  | _ => True

/-- A new pool, from which nothing was taken. -/
def fresh (p : Pool) : ChunkState := ⟨p, fun _ => false, []⟩

/-- How often an address is lent. -/
def lentCount (s : ChunkState) (x : Nat) : Nat := (s.lent x).toNat

/-- The usable memory of a pool. -/
def usable (s : ChunkState) (x : Nat) : Nat :=
  cover (s.pool.memoryRanges.map MemoryRange.usable) x

end ChunkState

/-! ## Memory ranges -/

/-- A memory range node as creation and extension write it. -/
structure RangeValid (c : Config) (range : MemoryRange) : Prop where
  lower : range.addr ≤ range.usableAddr
  nonempty : range.usableAddr < range.usableAddrEnd
  upper : range.usableAddrEnd ≤ range.addrEnd
  below : range.addrEnd < Word.modulus
  usable_dvd : c.chunksize ∣ range.usableAddr
  end_dvd : c.chunksize ∣ range.usableAddrEnd

/-- The regions of a pool are well formed and have nothing in common. -/
structure RangesValid (c : Config) (ranges : List MemoryRange) : Prop where
  valid : ∀ range ∈ ranges, RangeValid c range
  apart : ranges.Pairwise fun left right =>
    left.addrEnd ≤ right.addr ∨ right.addrEnd ≤ left.addr

variable {c : Config}

theorem MemoryRange.has_usable {range : MemoryRange} {x : Nat}
    (nonempty : range.usableAddr < range.usableAddrEnd) :
    range.usable.Has x ↔ range.usableAddr ≤ x ∧ x < range.usableAddrEnd := by
  unfold MemoryRange.usable
  rw [Span.has_mk]
  omega

/-- Parts of the regions have nothing in common. -/
theorem RangesValid.cover_part_le_one {ranges : List MemoryRange} (valid : RangesValid c ranges)
    {part : MemoryRange → Span}
    (within : ∀ range, RangeValid c range → (part range).Within range.whole) (x : Nat) :
    cover (ranges.map part) x ≤ 1 := by
  apply cover_le_one_of_apart
  rw [List.pairwise_map]
  apply valid.apart.imp_of_mem
  intro left right leftMember rightMember apart
  have leftValid := valid.valid left leftMember
  have rightValid := valid.valid right rightMember
  obtain ⟨leftLower, leftUpper⟩ := within left leftValid
  obtain ⟨rightLower, rightUpper⟩ := within right rightValid
  have := leftValid.lower
  have := leftValid.nonempty
  have := leftValid.upper
  have := rightValid.lower
  have := rightValid.nonempty
  have := rightValid.upper
  unfold MemoryRange.whole at leftLower leftUpper rightLower rightUpper
  unfold Span.Apart
  dsimp only at leftLower leftUpper rightLower rightUpper
  omega

theorem RangesValid.cover_le_one {ranges : List MemoryRange} (valid : RangesValid c ranges)
    (x : Nat) : cover (ranges.map MemoryRange.usable) x ≤ 1 := by
  refine valid.cover_part_le_one (fun range rangeValid => ?_) x
  have := rangeValid.lower
  have := rangeValid.nonempty
  have := rangeValid.upper
  unfold Span.Within MemoryRange.usable MemoryRange.whole
  dsimp only
  omega

theorem RangesValid.exists_of_cover {ranges : List MemoryRange} {x : Nat}
    (covered : 0 < cover (ranges.map MemoryRange.usable) x) :
    ∃ range ∈ ranges, range.usable.Has x := by
  obtain ⟨span, member, has⟩ := exists_has_of_cover_pos covered
  obtain ⟨range, inList, rfl⟩ := List.mem_map.mp member
  exact ⟨range, inList, has⟩

theorem UsableIn.rangeValid {addr size usable length : Nat} (region : Region c addr size)
    (inside : UsableIn c addr size usable length) :
    RangeValid c (rangeOf addr size usable length) where
  lower := inside.lower
  nonempty := by
    have := inside.nonempty
    unfold rangeOf
    dsimp only
    omega
  upper := inside.upper
  below := region.below
  usable_dvd := inside.usable_dvd
  end_dvd := Nat.dvd_add inside.usable_dvd inside.length_dvd

theorem rangeOf_usable (addr size usable length : Nat) :
    (rangeOf addr size usable length).usable = ⟨usable, length⟩ := by
  unfold rangeOf MemoryRange.usable
  dsimp only
  rw [Nat.add_sub_cancel_left]

/-! ## One step -/

namespace ChunkState

/-- What holds in every state: the accounts are in order, the ranges are well
formed, and coalescing is complete. -/
structure Sound (c : Config) (s : ChunkState) : Prop where
  ledger : Ledger c s.usable s.pool s.held s.lentCount
  ranges : RangesValid c s.pool.memoryRanges
  coalesced : Coalesced s.pool

/-- The ranges after a step: the old ones, and the region of an extension. -/
def RangesFrom (s : ChunkState) (op : ChunkOp) (range : MemoryRange) : Prop :=
  range ∈ s.pool.memoryRanges ∨
    ∃ addr size zeroed, op = .extend addr size zeroed ∧
      range.addr = addr ∧ range.addrEnd = addr + size

/-- A step reaches a state that is sound, and whose flags are sound when the
step was truthful. -/
structure Steps (c : Config) (s : ChunkState) (op : ChunkOp) (after : ChunkState) : Prop where
  result : exec c s op = some after
  sound : after.Sound c
  zeroed : Truthful s op → ZeroedSound s.pool → ZeroedSound after.pool
  ranges : ∀ range ∈ after.pool.memoryRanges, RangesFrom s op range

variable {s : ChunkState}

theorem RangesFrom.of_eq {ranges : List MemoryRange} {op : ChunkOp}
    (same : ranges = s.pool.memoryRanges) : ∀ range ∈ ranges, RangesFrom s op range :=
  fun _ member => Or.inl (same ▸ member)

theorem Sound.usable_le_one (sound : s.Sound c) (x : Nat) : s.usable x ≤ 1 :=
  sound.ranges.cover_le_one x

/-- Lent addresses are not free. -/
theorem Sound.free_or_lent (sound : s.Sound c) (x : Nat) :
    cover s.pool.freeSpans x + s.lentCount x ≤ 1 :=
  (sound.ledger.cover_free_le x).trans (sound.usable_le_one x)

/-- Usable addresses lie in a range of the pool. -/
theorem exists_range {x : Nat} (positive : 0 < s.usable x) :
    ∃ range ∈ s.pool.memoryRanges, range.usable.Has x :=
  RangesValid.exists_of_cover positive

/-- An operation that leaves the ranges alone. -/
theorem Sound.change {p' : Pool} {lent : Nat → Bool} {gain loss : List Span}
    (sound : s.Sound c) (changed : PoolChange c s.pool p' gain loss)
    (ranges : p'.memoryRanges = s.pool.memoryRanges) (coalesced : Coalesced p')
    (balance : ∀ x, (lent x).toNat + cover gain x = s.lentCount x + cover loss x) :
    Sound c ⟨p', lent, s.held⟩ where
  ledger := by
    have same : usable ⟨p', lent, s.held⟩ = s.usable := by
      unfold usable
      dsimp only
      rw [ranges]
    rw [same]
    exact sound.ledger.change changed balance
  ranges := by
    dsimp only
    rw [ranges]
    exact sound.ranges
  coalesced := coalesced

/-- An operation on unused and held nodes, or on memory. -/
theorem Sound.of_ledger {p' : Pool} {held : List Nat} (sound : s.Sound c)
    (ledger : Ledger c s.usable p' held s.lentCount)
    (ranges : p'.memoryRanges = s.pool.memoryRanges) (coalesced : Coalesced p') :
    Sound c ⟨p', s.lent, held⟩ where
  ledger := by
    have same : usable ⟨p', s.lent, held⟩ = s.usable := by
      unfold usable
      dsimp only
      rw [ranges]
    rw [same]
    exact ledger
  ranges := by
    dsimp only
    rw [ranges]
    exact sound.ranges
  coalesced := coalesced

theorem Sound.recycle {size alignment : Nat} (sound : s.Sound c)
    (request : Request c size alignment) (newAddr : Nat) (zero : Bool) :
    ∃ after, Steps c s (.recycle newAddr size alignment zero) after := by
  rcases chunkRecycle_cases sound.ledger.trees sound.ledger.apart request newAddr zero with
    ⟨p', ret, zeroOut, result, recycled⟩ | ⟨p', result, failed⟩
  · refine ⟨⟨p', fun x => s.lent x || decide ((Span.mk ret size).Has x), s.held⟩,
      ⟨by simp only [exec, result], ?_, fun _ => recycled.zeroed,
        RangesFrom.of_eq recycled.change.memoryRanges⟩⟩
    apply sound.change (PoolChange.of_section recycled.change) recycled.change.memoryRanges
      (recycled.coalesced sound.coalesced)
    intro x
    have wasFree := recycled.change.cover_free_le x
    have once := sound.free_or_lent x
    simp only [cover_cons, cover_nil] at wasFree ⊢
    unfold lentCount at once ⊢
    by_cases inside : (Span.mk ret size).Has x
    · rw [Span.ind_eq_one_iff.mpr inside] at wasFree ⊢
      simp only [inside, decide_true, Bool.or_true, Bool.toNat_true]
      omega
    · rw [Span.ind_eq_zero_iff.mpr inside]
      simp only [inside, decide_false, Bool.or_false]
  · refine ⟨⟨p', s.lent, s.held⟩,
      ⟨by simp only [exec, result], ?_, fun _ => failed.zeroed,
        RangesFrom.of_eq failed.change.memoryRanges⟩⟩
    exact sound.change (PoolChange.of_section failed.change) failed.change.memoryRanges
      (failed.coalesced sound.coalesced) fun _ => rfl

theorem Sound.bounded (sound : s.Sound c) : Bounded s.usable where
  once := sound.usable_le_one
  below := by
    intro x positive
    obtain ⟨range, member, inside⟩ := exists_range positive
    have valid := sound.ranges.valid range member
    rw [MemoryRange.has_usable valid.nonempty] at inside
    have := valid.upper
    have := valid.below
    omega

/-- What was lent can be recorded. -/
theorem Sound.recordable {chunk size : Nat} (sound : s.Sound c)
    (valid : ChunkSpan c ⟨chunk, size⟩)
    (lent : ∀ x, (Span.mk chunk size).Has x → s.lent x = true) :
    Recordable c s.pool chunk size := by
  apply sound.ledger.recordable sound.bounded valid
  intro x
  by_cases inside : (Span.mk chunk size).Has x
  · unfold lentCount
    rw [lent x inside, Bool.toNat_true]
    exact Span.ind_le_one ..
  · rw [Span.ind_eq_zero_iff.mpr inside]
    exact Nat.zero_le _

theorem Sound.record {chunk size : Nat} (sound : s.Sound c) (zeroed : Bool)
    (allowed : Permitted c s (.record chunk size zeroed)) :
    ∃ after, Steps c s (.record chunk size zeroed) after := by
  obtain ⟨nonempty, size_dvd, addr_dvd, lent⟩ := allowed
  have range := sound.recordable ⟨nonempty, size_dvd, addr_dvd⟩ lent
  have trees := sound.ledger.trees
  have apart := sound.ledger.apart
  have changed := chunkRecord_section zeroed trees apart range
  refine ⟨_, ⟨rfl, ?_, fun truthful => chunkRecord_zeroed trees apart range truthful,
    RangesFrom.of_eq changed.memoryRanges⟩⟩
  apply sound.change (PoolChange.of_section changed) changed.memoryRanges
    (chunkRecord_coalesced zeroed trees apart range sound.coalesced)
  intro x
  rw [cover_cons, cover_nil]
  unfold lentCount
  by_cases inside : (Span.mk chunk size).Has x
  · rw [Span.ind_eq_one_iff.mpr inside, lent x inside]
    simp only [inside, decide_true, Bool.not_true, Bool.and_false, Bool.toNat_false,
      Bool.toNat_true]
  · rw [Span.ind_eq_zero_iff.mpr inside]
    simp only [inside, decide_false, Bool.not_false, Bool.and_true]

/-- A region apart from the pool's has no free address. -/
theorem Sound.cover_free_of_apart {addr size : Nat} (sound : s.Sound c)
    (apart : RegionApart s.pool.memoryRanges addr size) :
    ∀ x, (Span.mk addr size).Has x → cover s.pool.freeSpans x = 0 := by
  intro x inside
  by_contra free
  have positive : 0 < s.usable x := by
    have := sound.ledger.cover_free_le x
    omega
  obtain ⟨range, member, has⟩ := exists_range positive
  have valid := sound.ranges.valid range member
  rw [MemoryRange.has_usable valid.nonempty] at has
  rw [Span.has_mk] at inside
  have := valid.lower
  have := valid.upper
  have := apart range member
  omega

theorem Sound.extend {addr size : Nat} (fits : c.Fits) (sound : s.Sound c) (zeroed : Bool)
    (allowed : Permitted c s (.extend addr size zeroed)) :
    ∃ after, Steps c s (.extend addr size zeroed) after := by
  obtain ⟨nonnull, below, apart⟩ := allowed
  by_cases small : size < c.poolMinimalSize
  · refine ⟨s, ⟨?_, sound, fun _ => id, RangesFrom.of_eq rfl⟩⟩
    simp only [exec, poolExtend, if_pos small]
  · have region : Region c addr size := ⟨nonnull, by omega, below⟩
    obtain ⟨p', usable, length, result, extended⟩ := poolExtend_extended zeroed fits
      sound.ledger.trees sound.ledger.numbered region (sound.cover_free_of_apart apart)
    have inside := extended.inside
    refine ⟨⟨p', s.lent, s.held⟩, ⟨by simp only [exec, result], ?_, ?_, ?_⟩⟩
    · exact {
        ledger := by
          apply sound.ledger.extend extended.change
          intro x
          have more : ChunkState.usable ⟨p', s.lent, s.held⟩ x =
              (Span.mk usable length).ind x + s.usable x := by
            unfold ChunkState.usable
            dsimp only
            rw [extended.ranges, List.map_cons, cover_cons, rangeOf_usable]
          rw [more, cover_cons, cover_nil]
          unfold lentCount
          dsimp only
          omega
        ranges := by
          dsimp only
          rw [extended.ranges]
          refine ⟨?_, ?_⟩
          · intro range member
            rcases List.mem_cons.mp member with rfl | old
            · exact inside.rangeValid region
            · exact sound.ranges.valid range old
          · refine List.pairwise_cons.mpr ⟨?_, sound.ranges.apart⟩
            intro range member
            have := apart range member
            unfold rangeOf
            dsimp only
            omega
        coalesced := extended.coalesced sound.coalesced }
    · intro truthful before
      apply extended.flags before
      intro marked x has
      exact truthful marked x (inside.has has)
    · dsimp only
      rw [extended.ranges]
      intro range member
      rcases List.mem_cons.mp member with rfl | old
      · exact Or.inr ⟨addr, size, zeroed, rfl, rfl, rfl⟩
      · exact Or.inl old

theorem Sound.baseAlloc {size : Nat} (sound : s.Sound c) (request : BaseRequest c size) :
    ∃ after, Steps c s (.baseAlloc size) after := by
  have step := baseAlloc_step sound.ledger.trees sound.ledger.apart request
  refine ⟨_, ⟨rfl, ?_, fun _ => step.zeroed, RangesFrom.of_eq step.ranges⟩⟩
  exact sound.change step.change step.ranges (step.coalesced sound.coalesced) fun _ => rfl

theorem Sound.takeNode (sound : s.Sound c) : ∃ after, Steps c s .takeNode after := by
  cases nodes : s.pool.baseNodes with
  | nil =>
      exact ⟨s, ⟨by simp only [exec, baseNodeAlloc, nodes], sound, fun _ => id,
        RangesFrom.of_eq rfl⟩⟩
  | cons n rest =>
      refine ⟨⟨{ s.pool with baseNodes := rest }, s.lent, n :: s.held⟩,
        ⟨by simp only [exec, baseNodeAlloc, nodes], ?_, fun _ => id, RangesFrom.of_eq rfl⟩⟩
      exact sound.of_ledger (sound.ledger.takeNode nodes) rfl sound.coalesced

theorem Sound.giveNode {n : Nat} (sound : s.Sound c) (held : n ∈ s.held) :
    ∃ after, Steps c s (.giveNode n) after := by
  refine ⟨_, ⟨rfl, ?_, fun _ => id, RangesFrom.of_eq rfl⟩⟩
  have inFront := sound.ledger.of_held_perm (List.perm_cons_erase held).symm
  exact sound.of_ledger inFront.giveNode rfl sound.coalesced

theorem Sound.editNode {n : Nat} (sound : s.Sound c) (held : n ∈ s.held)
    (value : ExtentNode) : ∃ after, Steps c s (.editNode n value) after := by
  have perm := List.perm_cons_erase held
  have inFront := sound.ledger.of_held_perm perm.symm
  have absent := inFront.fresh.1
  refine ⟨_, ⟨rfl, ?_, ?_, RangesFrom.of_eq rfl⟩⟩
  · exact sound.of_ledger ((inFront.editNode value).of_held_perm perm) rfl
      (sound.coalesced.setNode absent value)
  · intro _ before m member
    dsimp only
    rw [Pool.setNode_of_mem absent member]
    exact before m member

theorem Sound.write {x : Nat} (sound : s.Sound c) (byte : UInt8)
    (notFree : cover s.pool.freeSpans x = 0) :
    ∃ after, Steps c s (.write x byte) after := by
  refine ⟨_, ⟨rfl, sound.of_ledger sound.ledger.of_contents rfl sound.coalesced, ?_,
    RangesFrom.of_eq rfl⟩⟩
  intro _ before
  refine before.of_mem rfl rfl ?_
  intro y free
  have different : y ≠ x := by
    rintro rfl
    omega
  exact Or.inl (Function.update_of_ne different ..)

/-- Every permitted operation can be executed, and keeps the state sound. -/
theorem Sound.exec (fits : c.Fits) (sound : s.Sound c) {op : ChunkOp}
    (allowed : Permitted c s op) : ∃ after, Steps c s op after := by
  cases op with
  | recycle newAddr size alignment zero => exact sound.recycle allowed newAddr zero
  | record chunk size zeroed => exact sound.record zeroed allowed
  | extend addr size zeroed => exact sound.extend fits zeroed allowed
  | baseAlloc size => exact sound.baseAlloc allowed
  | takeNode => exact sound.takeNode
  | giveNode n => exact sound.giveNode allowed
  | editNode n value => exact sound.editNode allowed value
  | write x byte => exact sound.write byte allowed

/-! ## Whole runs -/

/-- A new pool is sound. -/
theorem fresh_sound {addr size : Nat} {p : Pool} (fits : c.Fits) (region : Region c addr size)
    (isFresh : FreshPool c addr size p) : (fresh p).Sound c := by
  obtain ⟨_, inside⟩ := usable_spec fits region
  have usable_eq : (fresh p).usable =
      (Span.mk (usableAddr c addr size) (usableSize c addr size)).ind := by
    funext x
    unfold usable fresh
    dsimp only
    rw [isFresh.ranges, List.map_singleton, rangeOf_usable, cover_cons, cover_nil]
    rfl
  exact {
    ledger := by
      rw [usable_eq]
      exact isFresh.ledger
    ranges := by
      unfold fresh
      dsimp only
      rw [isFresh.ranges]
      refine ⟨?_, List.pairwise_singleton ..⟩
      intro range member
      rw [List.mem_singleton.mp member]
      exact inside.rangeValid region
    coalesced := isFresh.coalesced }

theorem Sound.of_reached {start : ChunkState} (fits : c.Fits) (starts : start.Sound c)
    (reached : Reached (Permitted c) (ChunkState.exec c) start s) : s.Sound c := by
  refine reached.invariant (Sound c) starts ?_
  intro before op after sound allowed result
  obtain ⟨expected, steps⟩ := sound.exec fits allowed
  have same : after = expected := Option.some.inj (result.symm.trans steps.result)
  rw [same]
  exact steps.sound

end ChunkState

end Jemalloc
end Vmem
