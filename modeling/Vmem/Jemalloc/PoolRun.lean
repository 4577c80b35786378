import Vmem.Jemalloc.MetadataSame

/-!
# Everything that happens to a pool

Huge blocks are allocated, resized in place and freed, arenas take and return chunks, the
base allocator takes memory, the pool is extended by further regions, and memory that is
not free is written.  In every state that is reached the ledger of the pool is right and
its base region is in order.
-/

namespace Vmem
namespace Jemalloc

variable {c : Config} {p p' : Pool}

/-- What happens to a pool and the ranges its arenas hold. -/
inductive PoolOp
  | call (op : OwnerOp)
  /-- `je_pool_extend`. -/
  | extend (addr size : Nat) (zeroed : Bool)
  /-- A byte of memory that is not free is written. -/
  | write (x : Nat) (byte : UInt8)

namespace PoolOp

/-- Execute one operation; `none` when its arguments are not ones it is made for. -/
def exec (c : Config) (s : OwnerState) : PoolOp → Option OwnerState
  | .call op => s.exec c op
  | .extend addr size zeroed =>
      match poolExtend c s.pool addr size zeroed with
      | none => none
      | some (p, _) => some { s with pool := p }
  | .write x byte =>
      some { s with pool := { s.pool with mem := Function.update s.pool.mem x byte } }

/-- What callers may ask for. -/
def Permitted (s : OwnerState) : PoolOp → Prop
  | .call _ => True
  | .extend addr size _ =>
      0 < addr ∧ addr + size < Word.modulus ∧
        ChunkState.RegionApart s.pool.memoryRanges addr size
  | .write x _ => cover s.pool.freeSpans x = 0

end PoolOp

/-! ## Whole runs -/

namespace OwnerState

variable {s s' : OwnerState}

/-- Only base allocations touch the metadata of the pool. -/
theorem exec_metadata {op : OwnerOp} (other : ∀ size, op ≠ .baseAlloc size)
    (result : s.exec c op = some s') : MetadataSame s.pool s'.pool := by
  cases op with
  | hugePalloc arena size lgAlign zero rtreeFails =>
      simp only [OwnerState.exec, OwnerState.execIn, Option.ite_none_right_eq_some,
        Option.some.injEq] at result
      obtain ⟨_, rfl⟩ := result
      exact MetadataSame.palloc ..
  | hugeRallocNoMove ptr size extra zero rtreeFails rtreeFailsAgain =>
      simp only [OwnerState.exec, OwnerState.execIn] at result
      cases found : s.pool.hugeSearch ptr with
      | none => simp [found] at result
      | some n =>
          simp only [found, Option.ite_none_right_eq_some, Option.some.injEq] at result
          obtain ⟨_, rfl⟩ := result
          exact MetadataSame.rallocNoMove ..
  | hugeDalloc ptr =>
      simp only [OwnerState.exec, OwnerState.execIn] at result
      cases found : s.pool.hugeSearch ptr with
      | none => simp [found] at result
      | some n =>
          simp only [found, Option.some.injEq] at result
          subst result
          exact MetadataSame.hugeDalloc ..
  | chunkAllocDefault newAddr size lgAlign zero =>
      simp only [OwnerState.exec, OwnerState.execIn, Option.ite_none_right_eq_some,
        Option.some.injEq] at result
      obtain ⟨_, rfl⟩ := result
      have same := (MetadataSame.refl s.pool).recycle c newAddr size (2 ^ lgAlign) zero
      unfold OwnerState.take Jemalloc.chunkAllocDefault
      split
      · rename_i q taken
        rw [taken] at same
        exact same
      · rename_i q ret _ taken
        rw [taken] at same
        exact ⟨⟨same.next, same.past⟩, same.chunks, same.ranges⟩
  | chunkAllocArena newAddr size lgAlign zero rtreeFails =>
      simp only [OwnerState.exec, OwnerState.execIn, Option.ite_none_right_eq_some,
        Option.some.injEq] at result
      obtain ⟨_, rfl⟩ := result
      have same :=
        (MetadataSame.refl s.pool).allocArena c newAddr size (2 ^ lgAlign) zero rtreeFails
      unfold OwnerState.take
      split
      · rename_i q taken
        rw [taken] at same
        exact same
      · rename_i q ret _ taken
        rw [taken] at same
        exact same
  | chunkDallocDefault chunk size =>
      simp only [OwnerState.exec, OwnerState.execIn, Option.ite_none_right_eq_some,
        Option.some.injEq] at result
      obtain ⟨_, rfl⟩ := result
      exact (MetadataSame.refl s.pool).dallocCore ..
  | baseAlloc size => exact absurd rfl (other size)

/-- A call keeps the base region in order. -/
theorem exec_base {bound : Nat → Nat} {op : OwnerOp} (accounted : s.Accounted c bound)
    (region : BaseRegion c s.pool) (result : s.exec c op = some s') : BaseRegion c s'.pool := by
  by_cases base : ∃ size, op = .baseAlloc size
  · obtain ⟨size, rfl⟩ := base
    simp only [OwnerState.exec, OwnerState.execIn, Option.ite_none_right_eq_some,
      Option.some.injEq] at result
    obtain ⟨⟨nonempty, fits⟩, rfl⟩ := result
    exact region.baseAlloc accounted.ledger.trees accounted.ledger.apart ⟨nonempty, fits⟩
  · exact (exec_metadata (fun size same => base ⟨size, same⟩) result).region region

/-- The pool with the ranges of the arenas as lent addresses. -/
def lending (s : OwnerState) : ChunkState where
  pool := s.pool
  lent := fun x => decide (0 < cover s.arena x)
  held := []

/-- What holds in every state. -/
structure Settled (c : Config) (s : OwnerState) : Prop where
  sound : s.lending.Sound c
  once : ∀ x, cover s.arena x ≤ 1
  arena : ∀ span ∈ s.arena, ChunkSpan c span
  region : BaseRegion c s.pool

theorem lentCount_lending (once : ∀ x, cover s.arena x ≤ 1) (x : Nat) :
    s.lending.lentCount x = cover s.arena x := by
  have atMost := once x
  unfold ChunkState.lentCount lending
  dsimp only
  by_cases owned : 0 < cover s.arena x
  · rw [decide_eq_true owned, Bool.toNat_true]
    omega
  · rw [decide_eq_false owned, Bool.toNat_false]
    omega

namespace Settled

theorem accounted (settled : s.Settled c) : s.Accounted c s.lending.usable where
  ledger := settled.sound.ledger.of_others fun x => (lentCount_lending settled.once x).symm
  arena := settled.arena

theorem bounded (settled : s.Settled c) : Bounded s.lending.usable := settled.sound.bounded

/-- A call of an arena or on a huge block. -/
theorem call {op : OwnerOp} (settled : s.Settled c) (result : s.exec c op = some s') :
    s'.Settled c := by
  have accounts := settled.accounted.exec settled.bounded result
  have ledger := accounts.accounted.ledger
  have usable : s'.lending.usable = s.lending.usable := by
    unfold ChunkState.usable
    exact congrArg (fun ranges => cover (ranges.map MemoryRange.usable)) accounts.memoryRanges
  have once : ∀ x, cover s'.arena x ≤ 1 := by
    intro x
    have := ledger.cover_free_le x
    have := settled.bounded.once x
    omega
  exact {
    sound := {
      ledger := by
        rw [usable]
        exact ledger.of_others fun x => lentCount_lending once x
      ranges := by
        have ranges := settled.sound.ranges
        rw [← show s'.lending.pool.memoryRanges = s.lending.pool.memoryRanges from
          accounts.memoryRanges] at ranges
        exact ranges
      coalesced := accounts.coalesced settled.sound.coalesced }
    once := once
    arena := accounts.accounted.arena
    region := exec_base settled.accounted settled.region result }

/-- An operation of the machine of the free trees that lends nothing. -/
theorem of_chunkOp (op : ChunkOp) (fits : c.Fits) (settled : s.Settled c)
    (allowed : ChunkState.Permitted c s.lending op)
    (result : ChunkState.exec c s.lending op = some { s.lending with pool := p' }) :
    Settled c ⟨p', s.arena⟩ := by
  obtain ⟨after, steps⟩ := settled.sound.exec fits allowed
  have same : after = { s.lending with pool := p' } :=
    Option.some.inj (steps.result.symm.trans result)
  subst same
  exact {
    sound := steps.sound
    once := settled.once
    arena := settled.arena
    region := ChunkState.baseRegion_exec fits settled.sound settled.region allowed result }

/-- Every operation keeps the pool settled. -/
theorem exec {op : PoolOp} (fits : c.Fits) (settled : s.Settled c)
    (allowed : op.Permitted s) (result : op.exec c s = some s') : s'.Settled c := by
  cases op with
  | call op => exact settled.call result
  | extend addr size zeroed =>
      unfold PoolOp.exec at result
      dsimp only at result
      cases extended : poolExtend c s.pool addr size zeroed with
      | none =>
          rw [extended] at result
          cases result
      | some after =>
          rw [extended] at result
          cases result
          refine of_chunkOp (.extend addr size zeroed) fits settled allowed ?_
          unfold ChunkState.exec
          dsimp only
          rw [show poolExtend c s.lending.pool addr size zeroed = some after from extended]
  | write x byte =>
      cases result
      exact of_chunkOp (.write x byte) fits settled allowed rfl

/-- A new pool is settled. -/
theorem start {addr size : Nat} {mem : Nat → UInt8} {zeroed locksFail : Bool} (fits : c.Fits)
    (region : Region c addr size)
    (created : poolCreateEmpty c mem addr size zeroed locksFail = some p) :
    Settled c ⟨p, []⟩ where
  sound := ChunkState.fresh_sound fits region (poolCreateEmpty_fresh fits region created).1
  once := fun _ => Nat.zero_le _
  arena := fun _ member => absurd member List.not_mem_nil
  region := fresh_base fits region created

theorem of_reached {start : OwnerState} (fits : c.Fits) (starts : start.Settled c)
    (reached : Reached PoolOp.Permitted (PoolOp.exec c) start s) : s.Settled c :=
  reached.invariant (Settled c) starts fun _ _ _ before allowed result =>
    before.exec fits allowed result

end Settled

end OwnerState

end Jemalloc
end Vmem
