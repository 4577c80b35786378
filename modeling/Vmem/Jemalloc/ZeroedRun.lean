import Vmem.Jemalloc.ChunkMachine
import Vmem.Jemalloc.HugeLedger

/-!
# Memory that is marked as zeroed

Huge blocks are allocated, resized in place and freed, their users write into
them, and the pool is extended by further regions.  When those who create and
extend the pool tell the truth about their memory, every free extent that is
marked as zeroed is zero in every state that is reached, and whoever asks for
zeroes gets them.
-/

namespace Vmem
namespace Jemalloc

/-- What happens to the huge blocks of a pool and to its memory. -/
inductive HugeOp
  /-- `huge_palloc`; `arena` is what `choose_arena` returns. -/
  | hugePalloc (arena : Option Nat) (size lgAlign : Nat) (zero rtreeFails : Bool)
  /-- `huge_ralloc_no_move` of the block at `ptr`. -/
  | hugeRallocNoMove (ptr size extra : Nat) (zero rtreeFails rtreeFailsAgain : Bool)
  /-- `huge_dalloc` of the block at `ptr`. -/
  | hugeDalloc (ptr : Nat)
  /-- `je_pool_extend`. -/
  | extend (addr size : Nat) (zeroed : Bool)
  /-- A byte of memory that is not free is written. -/
  | write (x : Nat) (byte : UInt8)

namespace HugeOp

/-- Execute one operation; `none` when there is no such block or an assertion fails. -/
def exec (c : Config) (p : Pool) : HugeOp → Option Pool
  | .hugePalloc arena size lgAlign zero rtreeFails =>
      some (Jemalloc.hugePalloc c p arena size (2 ^ lgAlign) zero rtreeFails).1
  | .hugeRallocNoMove ptr size extra zero rtreeFails rtreeFailsAgain =>
      match p.hugeSearch ptr with
      | none => none
      | some n =>
          some (Jemalloc.hugeRallocNoMove c p ptr (p.node n).size size extra zero
            rtreeFails rtreeFailsAgain).1
  | .hugeDalloc ptr =>
      match p.hugeSearch ptr with
      | none => none
      | some _ => some (Jemalloc.hugeDalloc c p ptr)
  | .extend addr size zeroed => (poolExtend c p addr size zeroed).map Prod.fst
  | .write x byte => some { p with mem := Function.update p.mem x byte }

/-- What callers may ask for.  A region that is said to be zeroed is zero. -/
def Permitted (c : Config) (p : Pool) : HugeOp → Prop
  | .hugePalloc _ _ lgAlign _ _ => c.lgChunk ≤ lgAlign ∧ lgAlign < 64
  | .hugeRallocNoMove _ size extra _ _ _ =>
      size < Word.modulus ∧ (extra ≠ 0 → size + extra + c.chunksize ≤ Word.modulus)
  | .hugeDalloc _ => True
  | .extend addr size zeroed =>
      0 < addr ∧ addr + size < Word.modulus ∧
        ChunkState.RegionApart p.memoryRanges addr size ∧
        (zeroed = true → ∀ x, (Span.mk addr size).Has x → p.mem x = 0)
  | .write x _ => cover p.freeSpans x = 0

end HugeOp

/-- A pool whose accounts are right and whose zeroed flags are sound. -/
structure Truthful (c : Config) (p : Pool) : Prop where
  sound : (ChunkState.fresh p).Sound c
  flags : ZeroedSound p

namespace Truthful

variable {c : Config} {p p' : Pool}

/-- A change that keeps the ledger, the flags and the ranges. -/
theorem of_moved (truthful : Truthful c p)
    (ledger : Ledger c (ChunkState.fresh p).usable p' [] (ChunkState.fresh p).lentCount)
    (moved : PoolKept p p') : Truthful c p' where
  sound := truthful.sound.of_ledger ledger moved.memoryRanges
    (moved.coalesced truthful.sound.coalesced)
  flags := moved.flags truthful.flags

/-- Every permitted operation keeps a pool truthful. -/
theorem exec {op : HugeOp} (fits : c.Fits) (truthful : Truthful c p)
    (allowed : op.Permitted c p) (result : op.exec c p = some p') : Truthful c p' := by
  have ledger := truthful.sound.ledger
  have bounded := truthful.sound.bounded
  cases op with
  | hugePalloc arena size lgAlign zero rtreeFails =>
      obtain ⟨lower, upper⟩ := allowed
      injection result with result
      subst result
      obtain ⟨kept, moved, _⟩ := ledger.palloc bounded ⟨lgAlign, lower, upper, rfl⟩ arena size
        zero rtreeFails
      exact truthful.of_moved kept moved
  | hugeRallocNoMove ptr size extra zero rtreeFails rtreeFailsAgain =>
      obtain ⟨sizeLt, noWrap⟩ := allowed
      dsimp only [HugeOp.exec] at result
      cases found : p.hugeSearch ptr with
      | none => simp [found] at result
      | some n =>
          obtain ⟨after, failed, resized, kept, moved, _⟩ := ledger.rallocNoMove bounded found
            sizeLt noWrap zero rtreeFails rtreeFailsAgain
          simp only [found, Option.some.injEq] at result
          subst result
          have same : (hugeRallocNoMove c p ptr (p.node n).size size extra zero rtreeFails
              rtreeFailsAgain).1 = after := congrArg Prod.fst resized
          rw [same]
          exact truthful.of_moved kept moved
  | hugeDalloc ptr =>
      dsimp only [HugeOp.exec] at result
      cases found : p.hugeSearch ptr with
      | none => simp [found] at result
      | some n =>
          simp only [found, Option.some.injEq] at result
          subst result
          obtain ⟨kept, moved⟩ := ledger.hugeDalloc bounded found
          exact truthful.of_moved kept moved
  | extend addr size zeroed =>
      obtain ⟨nonnull, below, apart, honest⟩ := allowed
      obtain ⟨after, steps⟩ := truthful.sound.extend fits zeroed ⟨nonnull, below, apart⟩
      obtain ⟨⟨_, length⟩, extended, rfl⟩ := Option.map_eq_some_iff.mp result
      have same := steps.result
      simp only [ChunkState.exec, ChunkState.fresh, extended, Option.some.injEq] at same
      subst same
      exact ⟨steps.sound, steps.zeroed honest truthful.flags⟩
  | write x byte =>
      injection result with result
      subst result
      obtain ⟨after, steps⟩ := truthful.sound.write byte allowed
      have same := steps.result
      injection same with same
      subst same
      exact ⟨steps.sound, steps.zeroed trivial truthful.flags⟩

theorem of_reached {start : Pool} (fits : c.Fits) (starts : Truthful c start)
    (reached : Reached (HugeOp.Permitted c) (HugeOp.exec c) start p) : Truthful c p :=
  reached.invariant (Truthful c) starts fun _ _ _ before allowed result =>
    before.exec fits allowed result

end Truthful

/-- In every state that is reached from a pool created with a truthful flag, the extents that
are marked as zeroed are zero, a block from `huge_palloc` with `zero` is zero, and so is what
`huge_ralloc_no_move` adds with `zero` to a block in place. -/
theorem zeroed_flags_sound {c : Config} {addr size : Nat} {mem : Nat → UInt8}
    {zeroed locksFail : Bool} {p s : Pool} (fits : c.Fits) (region : Region c addr size)
    (honest : zeroed = true → ∀ x, (Span.mk addr size).Has x → mem x = 0)
    (created : poolCreateEmpty c mem addr size zeroed locksFail = some p)
    (reached : Reached (HugeOp.Permitted c) (HugeOp.exec c) p s) :
    (∀ n ∈ s.chunksAd, (s.node n).zeroed = true →
        ∀ x, (s.node n).span.Has x → s.mem x = 0) ∧
      (∀ (arena : Option Nat) (size lgAlign : Nat) (rtreeFails : Bool) (after : Pool) (ret : Nat),
        c.lgChunk ≤ lgAlign → lgAlign < 64 →
        hugePalloc c s arena size (2 ^ lgAlign) true rtreeFails = (after, some ret) →
        ∀ x, (Span.mk ret (c.chunkCeiling size)).Has x → after.mem x = 0) ∧
      ∀ (ptr n size extra : Nat) (rtreeFails rtreeFailsAgain : Bool) (after : Pool),
        s.hugeSearch ptr = some n → size < Word.modulus →
        (extra ≠ 0 → size + extra + c.chunksize ≤ Word.modulus) →
        hugeRallocNoMove c s ptr (s.node n).size size extra true rtreeFails rtreeFailsAgain =
          (after, false) →
        AddedZero after n ptr (s.node n).size := by
  obtain ⟨isFresh, flags⟩ := poolCreateEmpty_fresh fits region created
  have starts : Truthful c p := ⟨ChunkState.fresh_sound fits region isFresh, flags honest⟩
  have truthful := starts.of_reached fits reached
  have ledger : Ledger c (ChunkState.fresh s).usable s [] (ChunkState.fresh s).lentCount :=
    truthful.sound.ledger
  have bounded := truthful.sound.bounded
  refine ⟨truthful.flags, ?_, ?_⟩
  · intro arena size lgAlign rtreeFails after ret lower upper result
    obtain ⟨_, _, cleared⟩ := ledger.palloc bounded ⟨lgAlign, lower, upper, rfl⟩ arena size
      true rtreeFails
    rw [result] at cleared
    exact cleared ret rfl rfl truthful.flags
  · intro ptr n size extra rtreeFails rtreeFailsAgain after found sizeLt noWrap result
    obtain ⟨_, failed, resized, _, _, added⟩ := ledger.rallocNoMove bounded found sizeLt noWrap
      true rtreeFails rtreeFailsAgain
    rw [result] at resized
    obtain ⟨rfl, rfl⟩ := Prod.mk.inj resized
    exact added rfl rfl truthful.flags

/-- A pool of five chunks: a block is taken, written to, freed and allocated again with
zeroes. -/
theorem zeroed_flags_sound_reused :
    ∃ p s after ret,
      poolCreateEmpty defaultConfig (fun _ => 0) 4194304 20971520 true false = some p ∧
      Reached (HugeOp.Permitted defaultConfig) (HugeOp.exec defaultConfig) p s ∧
      s.mem 8388608 = 7 ∧
      hugePalloc defaultConfig s (some 0) 4194304 (2 ^ 22) true false = (after, some ret) ∧
      (Span.mk ret (defaultConfig.chunkCeiling 4194304)).Has 8388608 ∧ after.mem 8388608 = 0 := by
  have outcome : ((poolCreateEmpty defaultConfig (fun _ => 0) 4194304 20971520 true
      false).bind fun p =>
        (HugeOp.exec defaultConfig p (.hugePalloc (some 0) 4194304 22 false false)).bind fun q =>
          (HugeOp.exec defaultConfig q (.write 8388608 7)).bind fun r =>
            (HugeOp.exec defaultConfig r (.hugeDalloc 8388608)).map fun s =>
              (cover q.freeSpans 8388608, s.mem 8388608,
                (hugePalloc defaultConfig s (some 0) 4194304 (2 ^ 22) true false).2)) =
      some (0, 7, some 8388608) := by
    decide +kernel
  obtain ⟨p, created, outcome⟩ := Option.bind_eq_some_iff.mp outcome
  obtain ⟨q, allocated, outcome⟩ := Option.bind_eq_some_iff.mp outcome
  obtain ⟨r, written, outcome⟩ := Option.bind_eq_some_iff.mp outcome
  obtain ⟨s, freed, values⟩ := Option.map_eq_some_iff.mp outcome
  obtain ⟨notFree, byte, found⟩ : cover q.freeSpans 8388608 = 0 ∧ s.mem 8388608 = 7 ∧
      (hugePalloc defaultConfig s (some 0) 4194304 (2 ^ 22) true false).2 = some 8388608 := by
    simpa only [Prod.mk.injEq] using values
  have region : Region defaultConfig 4194304 20971520 :=
    ⟨by decide +kernel, by decide +kernel, by decide +kernel⟩
  have aligned : HugeOp.Permitted defaultConfig p (.hugePalloc (some 0) 4194304 22 false false) :=
    ⟨by decide, by decide⟩
  have writable : HugeOp.Permitted defaultConfig q (.write 8388608 7) := notFree
  have freeable : HugeOp.Permitted defaultConfig r (.hugeDalloc 8388608) := trivial
  have reached : Reached (HugeOp.Permitted defaultConfig) (HugeOp.exec defaultConfig) p s :=
    ((Reached.start.next aligned allocated).next writable written).next freeable freed
  have result : hugePalloc defaultConfig s (some 0) 4194304 (2 ^ 22) true false =
      ((hugePalloc defaultConfig s (some 0) 4194304 (2 ^ 22) true false).1, some 8388608) :=
    Prod.ext rfl found
  have inside : (Span.mk 8388608 (defaultConfig.chunkCeiling 4194304)).Has 8388608 := by
    decide +kernel
  obtain ⟨_, cleared, _⟩ := zeroed_flags_sound defaultConfig_fits region (fun _ _ _ => rfl)
    created reached
  exact ⟨p, s, _, 8388608, created, reached, byte, result, inside,
    cleared (some 0) 4194304 22 false _ 8388608 (by decide) (by decide) result _ inside⟩

end Jemalloc
end Vmem
