import Vmem.Jemalloc.RecycleOutcome

/-!
# What the free trees do to the chunk statistics

Neither taking a range out of the free trees nor recording one touches `stats_chunks`;
only `chunk_register` counts chunks in and `chunk_dalloc_core` counts them out.
-/

namespace Vmem
namespace Jemalloc

variable {c : Config} {p p' : Pool} {newAddr size alignment : Nat}

/-- The statistics are the same. -/
structure StatsSame (p p' : Pool) : Prop where
  nchunks : p'.nchunks = p.nchunks
  curchunks : p'.curchunks = p.curchunks
  highchunks : p'.highchunks = p.highchunks

namespace StatsSame

theorem coalesce (same : StatsSame p p') (n chunk : Nat) :
    StatsSame p (coalesceBackward p' n chunk).1 := by
  unfold coalesceBackward
  split
  · exact same
  · split
    · exact ⟨same.nchunks, same.curchunks, same.highchunks⟩
    · exact same

theorem recycleZero (same : StatsSame p p') (ret size : Nat) (zero zeroed : Bool) :
    StatsSame p (chunkRecycleZero p' ret size zero zeroed) := by
  rw [chunkRecycleZero_eq]
  exact ⟨same.nchunks, same.curchunks, same.highchunks⟩

end StatsSame

theorem chunkRecordLocked_stats (p : Pool) (xnode : Option Nat) (chunk size : Nat)
    (zeroed : Bool) : StatsSame p (chunkRecordLocked p xnode chunk size zeroed).pool := by
  unfold chunkRecordLocked
  split
  · refine StatsSame.coalesce ?_ ..
    exact ⟨rfl, rfl, rfl⟩
  · split
    · exact ⟨rfl, rfl, rfl⟩
    · refine StatsSame.coalesce ?_ ..
      exact ⟨rfl, rfl, rfl⟩

theorem chunkRecord_stats (c : Config) (p : Pool) (chunk size : Nat) (zeroed : Bool) :
    StatsSame p (chunkRecord c p chunk size zeroed) := by
  rw [chunkRecord_eq]
  have recorded := chunkRecordLocked_stats (recordEntry c p chunk size) p.baseNodes.head? chunk
    size zeroed
  exact ⟨recorded.nchunks, recorded.curchunks, recorded.highchunks⟩

/-- `chunk_dalloc_core` counts the chunks out. -/
structure CountedOut (c : Config) (p : Pool) (size : Nat) (p' : Pool) : Prop where
  nchunks : p'.nchunks = p.nchunks
  curchunks : p'.curchunks = Word.sub p.curchunks (size / c.chunksize)
  highchunks : p'.highchunks = p.highchunks

theorem chunkDallocCore_stats (c : Config) (p : Pool) (chunk size : Nat) :
    CountedOut c p size (chunkDallocCore c p chunk size) := by
  have recorded := chunkRecord_stats c
    { p with curchunks := Word.sub p.curchunks (size / c.chunksize) } chunk size false
  rw [chunkDallocCore_record]
  exact ⟨recorded.nchunks, recorded.curchunks, recorded.highchunks⟩

/-- The first section keeps the statistics and the list of nodes. -/
theorem chunkRecycleTake_same {allocSize : Nat} {taken : Taken}
    (took : chunkRecycleTake p newAddr size alignment allocSize = some taken) :
    StatsSame p taken.pool ∧ taken.pool.baseNodes = p.baseNodes := by
  unfold chunkRecycleTake at took
  split at took
  · cases took
  · split at took
    · cases took
    · dsimp only at took
      split at took
      · cases took
        exact ⟨⟨rfl, rfl, rfl⟩, rfl⟩
      · cases took
        exact ⟨⟨rfl, rfl, rfl⟩, rfl⟩

/-- What the second part of `chunk_recycle` does to the statistics: nothing, unless there
is no node for the trailing part; then chunks are counted out. -/
theorem chunkRecycleRest_stats (c : Config) (taken : Taken) (size : Nat) (zero : Bool) :
    ((chunkRecycleRest c taken size zero).2 ≠ none ∧
        (taken.trailsize = 0 ∨ taken.node ≠ none ∨ taken.pool.baseNodes ≠ []) ∧
        StatsSame taken.pool (chunkRecycleRest c taken size zero).1) ∨
      ((chunkRecycleRest c taken size zero).2 = none ∧
        (taken.trailsize ≠ 0 ∧ taken.node = none ∧ taken.pool.baseNodes = []) ∧
        CountedOut c taken.pool size (chunkRecycleRest c taken size zero).1) := by
  unfold chunkRecycleRest
  dsimp only
  by_cases trails : taken.trailsize ≠ 0
  · rw [if_pos trails]
    cases node : taken.node with
    | some n =>
        refine Or.inl ⟨Option.some_ne_none _, Or.inr (Or.inl (Option.some_ne_none _)), ?_⟩
        dsimp only
        refine StatsSame.recycleZero ?_ ..
        exact ⟨rfl, rfl, rfl⟩
    | none =>
        unfold baseNodeAlloc
        cases nodes : taken.pool.baseNodes with
        | nil =>
            refine Or.inr ⟨rfl, ⟨trails, rfl, rfl⟩, ?_⟩
            have counted := chunkDallocCore_stats c { taken.pool with
              leaked := ⟨Word.add taken.ret size, taken.trailsize⟩ :: taken.pool.leaked }
              taken.ret size
            exact ⟨counted.nchunks, counted.curchunks, counted.highchunks⟩
        | cons n rest =>
            refine Or.inl ⟨Option.some_ne_none _, Or.inr (Or.inr (List.cons_ne_nil _ _)), ?_⟩
            dsimp only
            refine StatsSame.recycleZero ?_ ..
            exact ⟨rfl, rfl, rfl⟩
  · rw [if_neg trails]
    refine Or.inl ⟨Option.some_ne_none _, Or.inl (not_not.mp trails), ?_⟩
    refine StatsSame.recycleZero ?_ ..
    rw [baseNodeDallocIf_eq]
    exact ⟨rfl, rfl, rfl⟩

end Jemalloc
end Vmem
