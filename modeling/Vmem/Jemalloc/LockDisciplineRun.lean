import Vmem.Jemalloc.BaseRegion
import Vmem.Jemalloc.LockDiscipline

/-!
# Lock discipline over whole runs

In every state that a pool reaches and for every call it is known exactly whether the
calling thread keeps the lock discipline.
-/

namespace Vmem
namespace Jemalloc

variable {c : Config} {p : Pool}

/-- In every state that a pool reaches, for every registry and every call, the calling thread
keeps the lock discipline exactly if `pool_open` does not fail and `je_pool_extend` does not use
the smallest free extent up for its nodes. -/
theorem lock_discipline_iff {addr size : Nat} {mem : Nat → UInt8} {zeroed locksFail : Bool}
    {s : ChunkState} (fits : c.Fits) (region : Region c addr size)
    (created : poolCreateEmpty c mem addr size zeroed locksFail = some p)
    (reached : Reached (ChunkState.Permitted c) (ChunkState.exec c) (.fresh p) s)
    (base : Nat) (r : Registry) (call : PoolCall) :
    Disciplined (call.events c base r s.pool) ↔ call.Proper c base r s.pool := by
  have isFresh := (poolCreateEmpty_fresh fits region created).1
  have starts := ChunkState.fresh_sound fits region isFresh
  have sound := starts.of_reached fits reached
  have baseRegion := ChunkState.baseRegion_of_reached fits starts
    (fresh_base fits region created) reached
  exact call.disciplined_iff base r fits sound.ledger.trees sound.ledger.numbered baseRegion

/-- A pool with one free chunk left is extended by sixteen chunks. -/
theorem lock_discipline_iff_extended :
    ∃ p s, poolCreateEmpty defaultConfig (fun _ => 0) 8368128 12582912 true false = some p ∧
      (ChunkState.fresh p).exec defaultConfig (.recycle 0 4194304 4194304 false) = some s ∧
      Disciplined ((PoolCall.extend 33554432 67108864 true).events defaultConfig 4096
        ⟨[], 0, 0, false, fun _ => ⟨0, 0⟩⟩ s.pool) := by
  have outcome : ((poolCreateEmpty defaultConfig (fun _ => 0) 8368128 12582912 true
      false).bind fun p => ((ChunkState.fresh p).exec defaultConfig
        (.recycle 0 4194304 4194304 false)).map fun s =>
          (s.pool.chunksSzad, (s.pool.node 2).size, metadataChunks defaultConfig s.pool 16)) =
      some ([2], 4194304, 0) := by
    decide +kernel
  obtain ⟨p, created, ran⟩ := Option.bind_eq_some_iff.mp outcome
  obtain ⟨s, result, values⟩ := Option.map_eq_some_iff.mp ran
  injection values with first others
  injection others with length chunks
  have region : Region defaultConfig 8368128 12582912 :=
    ⟨by decide +kernel, by decide +kernel, by decide +kernel⟩
  have request : (ChunkState.fresh p).Permitted defaultConfig
      (.recycle 0 4194304 4194304 false) :=
    ⟨by decide, by decide +kernel, by decide +kernel, 22, by decide, by decide, by decide⟩
  have proper : (PoolCall.extend 33554432 67108864 true).Proper defaultConfig 4096
      ⟨[], 0, 0, false, fun _ => ⟨0, 0⟩⟩ s.pool := by
    rintro ⟨-, reentered⟩
    rw [reentered_cons first, length] at reentered
    exact absurd (reentered.trans (le_of_eq chunks)) (by decide +kernel)
  exact ⟨p, s, created, result, (lock_discipline_iff defaultConfig_fits region created
    (Reached.next Reached.start request result) 4096 ⟨[], 0, 0, false, fun _ => ⟨0, 0⟩⟩
    (.extend 33554432 67108864 true)).mpr proper⟩

/-- Extending that pool by 64 chunks acquires `base_node_mtx` twice, and a `pool_open` that
fails releases `pools_lock` twice. -/
theorem lock_taken_twice :
    (∃ p s, poolCreateEmpty defaultConfig (fun _ => 0) 8368128 12582912 true false = some p ∧
      (ChunkState.fresh p).exec defaultConfig (.recycle 0 4194304 4194304 false) = some s ∧
      ¬Disciplined ((PoolCall.extend 33554432 268435456 true).events defaultConfig 4096
        ⟨[], 0, 0, false, fun _ => ⟨0, 0⟩⟩ s.pool)) ∧
    ¬Disciplined ((PoolCall.create (fun _ => 0) 8388608 12582912 false false
      ⟨false, false, false, true⟩ ⟨[], true⟩).events defaultConfig 4096
        ⟨[], 0, 0, false, fun _ => ⟨0, 0⟩⟩
        (poolBlank defaultConfig (fun _ => 0) 8388608 12582912)) := by
  constructor
  · have outcome : ((poolCreateEmpty defaultConfig (fun _ => 0) 8368128 12582912 true
        false).bind fun p => ((ChunkState.fresh p).exec defaultConfig
          (.recycle 0 4194304 4194304 false)).map fun s =>
            decide (Disciplined ((PoolCall.extend 33554432 268435456 true).events
              defaultConfig 4096 ⟨[], 0, 0, false, fun _ => ⟨0, 0⟩⟩ s.pool))) =
        some false := by
      decide +kernel
    obtain ⟨p, created, ran⟩ := Option.bind_eq_some_iff.mp outcome
    obtain ⟨s, result, wrong⟩ := Option.map_eq_some_iff.mp ran
    exact ⟨p, s, created, result, of_decide_eq_false wrong⟩
  · decide +kernel

end Jemalloc
end Vmem
