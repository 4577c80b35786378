import Vmem.Jemalloc.BaseRegion
import Vmem.Jemalloc.NodeSupply

/-!
# Calls that touch no metadata

Chunks and huge blocks are allocated, resized and freed without the base allocator: its
region, its chunks and the list of the regions of the pool are the same afterwards.
-/

namespace Vmem
namespace Jemalloc

variable {c : Config} {p p' p'' : Pool}

/-- The base region is the same. -/
structure BaseSame (p p' : Pool) : Prop where
  next : p'.baseNextAddr = p.baseNextAddr
  past : p'.basePastAddr = p.basePastAddr

theorem BaseSame.region (same : BaseSame p p') (region : BaseRegion c p) : BaseRegion c p' :=
  region.of_eq same.next same.past

/-- The base region, the chunks of the base allocator and the regions of the pool are the
same. -/
structure MetadataSame (p p' : Pool) : Prop extends BaseSame p p' where
  chunks : p'.baseChunks = p.baseChunks
  ranges : p'.memoryRanges = p.memoryRanges

namespace MetadataSame

theorem refl (p : Pool) : MetadataSame p p := ⟨⟨rfl, rfl⟩, rfl, rfl⟩

theorem trans (first : MetadataSame p p') (second : MetadataSame p' p'') : MetadataSame p p'' :=
  ⟨⟨second.next.trans first.next, second.past.trans first.past⟩,
    second.chunks.trans first.chunks, second.ranges.trans first.ranges⟩

theorem coalesceBackward (p : Pool) (n chunk : Nat) :
    MetadataSame p (Jemalloc.coalesceBackward p n chunk).1 := by
  unfold Jemalloc.coalesceBackward
  split
  · exact refl p
  · split
    · exact ⟨⟨rfl, rfl⟩, rfl, rfl⟩
    · exact refl p

theorem record (c : Config) (p : Pool) (chunk size : Nat) (zeroed : Bool) :
    MetadataSame p (chunkRecord c p chunk size zeroed) := by
  rw [chunkRecord_eq]
  dsimp only
  unfold chunkRecordLocked
  split
  · exact ⟨⟨(coalesceBackward ..).next, (coalesceBackward ..).past⟩,
      (coalesceBackward ..).chunks, (coalesceBackward ..).ranges⟩
  · split
    · exact ⟨⟨rfl, rfl⟩, rfl, rfl⟩
    · exact ⟨⟨(coalesceBackward ..).next, (coalesceBackward ..).past⟩,
        (coalesceBackward ..).chunks, (coalesceBackward ..).ranges⟩

/-- Counting the chunks out and recording them touches no metadata. -/
theorem dallocCore (same : MetadataSame p p') (c : Config) (chunk size : Nat) :
    MetadataSame p (chunkDallocCore c p' chunk size) := by
  have counted : MetadataSame p
      { p' with curchunks := Word.sub p'.curchunks (size / c.chunksize) } :=
    ⟨⟨same.next, same.past⟩, same.chunks, same.ranges⟩
  rw [chunkDallocCore_record]
  exact counted.trans (record ..)

theorem recycleZero (same : MetadataSame p p') (ret size : Nat) (zero zeroed : Bool) :
    MetadataSame p (chunkRecycleZero p' ret size zero zeroed) := by
  rw [chunkRecycleZero_eq]
  exact ⟨⟨same.next, same.past⟩, same.chunks, same.ranges⟩

theorem fill (same : MetadataSame p p') (c : Config) (addr length : Nat) (zero isZeroed : Bool) :
    MetadataSame p (hugeFill c p' addr length zero isZeroed) := by
  rw [hugeFill_eq]
  exact ⟨⟨same.next, same.past⟩, same.chunks, same.ranges⟩

theorem junk (same : MetadataSame p p') (c : Config) (addr length : Nat) :
    MetadataSame p (hugeDallocJunk c p' addr length) := by
  rw [hugeDallocJunk_eq]
  exact ⟨⟨same.next, same.past⟩, same.chunks, same.ranges⟩

theorem recycleTake {newAddr size alignment allocSize : Nat} {taken : Taken}
    (took : chunkRecycleTake p newAddr size alignment allocSize = some taken) :
    MetadataSame p taken.pool := by
  unfold chunkRecycleTake at took
  split at took
  · cases took
  · split at took
    · cases took
    · dsimp only at took
      split at took
      · cases took
        exact ⟨⟨rfl, rfl⟩, rfl, rfl⟩
      · cases took
        exact ⟨⟨rfl, rfl⟩, rfl, rfl⟩

theorem recycleRest {taken : Taken} (same : MetadataSame p taken.pool) (c : Config) (size : Nat)
    (zero : Bool) : MetadataSame p (chunkRecycleRest c taken size zero).1 := by
  unfold chunkRecycleRest
  dsimp only
  split
  · cases taken.node with
    | some n =>
        dsimp only
        refine MetadataSame.recycleZero ?_ ..
        exact ⟨⟨same.next, same.past⟩, same.chunks, same.ranges⟩
    | none =>
        unfold baseNodeAlloc
        cases taken.pool.baseNodes with
        | nil =>
            dsimp only
            refine MetadataSame.dallocCore ?_ ..
            exact ⟨⟨same.next, same.past⟩, same.chunks, same.ranges⟩
        | cons n rest =>
            dsimp only
            refine MetadataSame.recycleZero ?_ ..
            exact ⟨⟨same.next, same.past⟩, same.chunks, same.ranges⟩
  · refine MetadataSame.recycleZero ?_ ..
    unfold baseNodeDallocIf
    cases taken.node with
    | some n => exact ⟨⟨same.next, same.past⟩, same.chunks, same.ranges⟩
    | none => exact same

theorem recycle (same : MetadataSame p p') (c : Config) (newAddr size alignment : Nat)
    (zero : Bool) : MetadataSame p (chunkRecycle c p' newAddr size alignment zero).1 := by
  unfold chunkRecycle
  dsimp only
  split
  · exact same
  · split
    · exact same
    · rename_i taken took
      have took := recycleTake took
      exact recycleRest (same.trans took) ..

theorem allocArena (same : MetadataSame p p') (c : Config) (newAddr size alignment : Nat)
    (zero rtreeFails : Bool) :
    MetadataSame p (chunkAllocArena c p' newAddr size alignment zero rtreeFails).1 := by
  have recycled := same.recycle c newAddr size alignment zero
  unfold chunkAllocArena chunkAllocDefault
  cases result : chunkRecycle c p' newAddr size alignment zero with
  | mk q found =>
      rw [result] at recycled
      cases found with
      | none => exact recycled
      | some found =>
          cases rtreeFails with
          | true => exact recycled.dallocCore ..
          | false => exact ⟨⟨recycled.next, recycled.past⟩, recycled.chunks, recycled.ranges⟩

theorem palloc (c : Config) (p : Pool) (arena : Option Nat) (size alignment : Nat)
    (zero rtreeFails : Bool) :
    MetadataSame p (hugePalloc c p arena size alignment zero rtreeFails).1 := by
  unfold hugePalloc
  dsimp only
  split
  · exact refl p
  · cases arena with
    | none => exact refl p
    | some arena =>
        unfold baseNodeAlloc
        cases p.baseNodes with
        | nil => exact refl p
        | cons n rest =>
            have given : MetadataSame p { p with baseNodes := rest } := ⟨⟨rfl, rfl⟩, rfl, rfl⟩
            have allocated := given.allocArena c 0 (c.chunkCeiling size) alignment zero rtreeFails
            dsimp only
            unfold arenaChunkAllocHuge
            cases result : chunkAllocArena c { p with baseNodes := rest } 0
                (c.chunkCeiling size) alignment zero rtreeFails with
            | mk q found =>
                rw [result] at allocated
                cases found with
                | none =>
                    exact ⟨⟨allocated.next, allocated.past⟩, allocated.chunks, allocated.ranges⟩
                | some found =>
                    dsimp only
                    refine MetadataSame.fill ?_ ..
                    exact ⟨⟨allocated.next, allocated.past⟩, allocated.chunks, allocated.ranges⟩

theorem expand (same : MetadataSame p p') (c : Config) (ptr oldsize size : Nat)
    (zero rtreeFails : Bool) :
    MetadataSame p (hugeRallocNoMoveExpand c p' ptr oldsize size zero rtreeFails).1 := by
  unfold hugeRallocNoMoveExpand
  dsimp only
  split
  · exact same
  · cases p'.hugeSearch ptr with
    | none => exact same
    | some n =>
        have allocated := same.allocArena c (Word.add ptr oldsize)
          (Word.sub (c.chunkCeiling size) oldsize) c.chunksize zero rtreeFails
        dsimp only
        unfold arenaChunkAllocHuge
        cases result : chunkAllocArena c p' (Word.add ptr oldsize)
            (Word.sub (c.chunkCeiling size) oldsize) c.chunksize zero rtreeFails with
        | mk q found =>
            rw [result] at allocated
            cases found with
            | none => exact allocated
            | some found =>
                dsimp only
                refine MetadataSame.fill ?_ ..
                exact ⟨⟨allocated.next, allocated.past⟩, allocated.chunks, allocated.ranges⟩

theorem rallocNoMove (c : Config) (p : Pool) (ptr oldsize size extra : Nat)
    (zero rtreeFails rtreeFailsAgain : Bool) :
    MetadataSame p
      (hugeRallocNoMove c p ptr oldsize size extra zero rtreeFails rtreeFailsAgain).1 := by
  unfold hugeRallocNoMove
  split
  · exact refl p
  split
  · exact refl p
  split
  · exact refl p
  split
  · unfold hugeRallocNoMoveShrink
    cases p.hugeSearch ptr with
    | none => exact refl p
    | some n =>
        dsimp only
        unfold arenaChunkDallocHuge chunkDallocDefault
        refine MetadataSame.dallocCore ?_ ..
        refine MetadataSame.junk ?_ ..
        exact ⟨⟨rfl, rfl⟩, rfl, rfl⟩
  · have first := (refl p).expand c ptr oldsize (Word.add size extra) zero rtreeFails
    cases result : hugeRallocNoMoveExpand c p ptr oldsize (Word.add size extra) zero
        rtreeFails with
    | mk q failed =>
        rw [result] at first
        cases failed with
        | false => exact first
        | true =>
            dsimp only
            split
            · exact first
            · exact first.expand c ptr oldsize size zero rtreeFailsAgain

theorem hugeDalloc (c : Config) (p : Pool) (ptr : Nat) :
    MetadataSame p (Jemalloc.hugeDalloc c p ptr) := by
  unfold Jemalloc.hugeDalloc
  cases p.hugeSearch ptr with
  | none => exact refl p
  | some n =>
      have removed : MetadataSame p (p.hugeRemove n) := ⟨⟨rfl, rfl⟩, rfl, rfl⟩
      have junked := removed.junk c ((p.hugeRemove n).node n).addr ((p.hugeRemove n).node n).size
      dsimp only
      unfold arenaChunkDallocHuge chunkDallocDefault baseNodeDalloc
      have returned := junked.dallocCore c
        ((hugeDallocJunk c (p.hugeRemove n) ((p.hugeRemove n).node n).addr
          ((p.hugeRemove n).node n).size).node n).addr
        ((hugeDallocJunk c (p.hugeRemove n) ((p.hugeRemove n).node n).addr
          ((p.hugeRemove n).node n).size).node n).size
      exact ⟨⟨returned.next, returned.past⟩, returned.chunks, returned.ranges⟩

end MetadataSame

end Jemalloc
end Vmem
