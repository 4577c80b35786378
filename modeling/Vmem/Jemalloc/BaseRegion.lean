import Vmem.Jemalloc.ChunkMachine
import Vmem.Jemalloc.SmallestExtent

/-!
# The base region of a pool

Base allocations come from the front of the base region, and a new region is taken when
it is used up.  In every state that a pool reaches its base region is in order and ends
below the last chunk of the address space.
-/

namespace Vmem
namespace Jemalloc

variable {c : Config} {p : Pool}

/-! ## The base region -/

namespace BaseRegion

variable {p' : Pool}

/-- Only the two pointers matter. -/
theorem of_eq (region : BaseRegion c p) (next : p'.baseNextAddr = p.baseNextAddr)
    (past : p'.basePastAddr = p.basePastAddr) : BaseRegion c p' where
  order := by
    rw [next, past]
    exact region.order
  below := by
    rw [past]
    exact region.below

theorem change {gain loss : List Span} (region : BaseRegion c p)
    (changed : PoolSection c p p' gain loss) : BaseRegion c p' :=
  region.of_eq changed.baseNextAddr changed.basePastAddr

/-- A range taken from the free extents ends below the last chunk. -/
theorem below_of_taken {ret size : Nat} (trees : FreeTrees c p) (nonempty : 0 < size)
    (changed : PoolSection c p p' [] [⟨ret, size⟩]) :
    ret + size + c.chunksize ≤ Word.modulus := by
  have inside : (Span.mk ret size).Has (ret + size - 1) := by
    rw [Span.has_mk]
    omega
  have free := changed.cover_free_le (ret + size - 1)
  rw [cover_cons, cover_nil, Span.ind_eq_one_iff.mpr inside] at free
  obtain ⟨span, member, has⟩ := exists_has_of_cover_pos
    (show 0 < cover p.freeSpans (ret + size - 1) by omega)
  obtain ⟨n, inTree, rfl⟩ := List.mem_map.mp member
  have last := (trees.extent n inTree).last
  rw [ExtentNode.has_span] at has
  omega

theorem baseAlloc {size : Nat} (region : BaseRegion c p) (trees : FreeTrees c p)
    (apart : NodesApart p) (request : BaseRequest c size) :
    BaseRegion c (baseAlloc c p size).1 := by
  unfold Jemalloc.baseAlloc
  dsimp only
  split
  · unfold basePagesAlloc
    dsimp only
    rcases chunkAllocBase_cases trees apart request.chunks with
      ⟨q, ret, result, changed, _⟩ | result
    · rw [result]
      have lower := request.le_ceiling
      have upper := request.ceiling_lt
      have room := request.fits
      have chunks : cachelineCeiling size ≤ c.chunkCeiling (cachelineCeiling size) :=
        Word.le_ceil c.chunksize_pos (by omega)
      have below := below_of_taken trees request.chunks.nonempty changed
      have positive := c.chunksize_pos
      have next : Word.add ret (cachelineCeiling size) = ret + cachelineCeiling size :=
        Word.add_eq (by omega)
      have past : Word.add ret (c.chunkCeiling (cachelineCeiling size)) =
          ret + c.chunkCeiling (cachelineCeiling size) := Word.add_eq (by omega)
      unfold baseBump
      dsimp only
      rw [next, past]
      exact ⟨Nat.add_le_add_left chunks ret, below⟩
    · rw [result]
      exact region
  · rename_i room
    exact ⟨not_lt.mp room, region.below⟩

/-- One allocation after another. -/
theorem baseAllocAll {sizes nodes : List Nat} (region : BaseRegion c p)
    (requests : ∀ size ∈ sizes, BaseRequest c size) (trees : FreeTrees c p)
    (numbered : NodesNumbered p nodes) : BaseRegion c (baseAllocAll c p sizes).1 := by
  induction sizes generalizing p with
  | nil => exact region
  | cons size sizes inductionHypothesis =>
      have request := requests size List.mem_cons_self
      have after := region.baseAlloc trees numbered.apart request
      unfold Jemalloc.baseAllocAll
      rcases baseAlloc_cases trees numbered.apart request with ⟨q, ret, result, step⟩ | result
      · rw [result] at after ⊢
        exact inductionHypothesis after
          (fun other member => requests other (List.mem_cons_of_mem _ member))
          step.change.trees (numbered.change step.change)
      · rw [result]
        exact region

theorem baseNodePrealloc {nodes : List Nat} (region : BaseRegion c p) (fits : c.Fits)
    (trees : FreeTrees c p) (numbered : NodesNumbered p nodes) (number : Nat) :
    BaseRegion c (baseNodePrealloc c p number).1 := by
  have request : BaseRequest c c.sizeofExtentNode := fits.baseRequest (by simp)
  induction number generalizing p with
  | zero => exact region
  | succ number inductionHypothesis =>
      have after := region.baseAlloc trees numbered.apart request
      unfold Jemalloc.baseNodePrealloc
      rcases baseAlloc_cases trees numbered.apart request with ⟨q, ret, result, step⟩ | result
      · rw [result] at after ⊢
        have made := step.trans (BaseStep.of_node step.change.trees)
        exact inductionHypothesis (after.of_eq rfl rfl) made.change.trees
          (numbered.change made.change)
      · rw [result]
        exact region

end BaseRegion

/-- Coalescing leaves the base region alone. -/
theorem coalesceBackward_base (p : Pool) (n chunk : Nat) :
    (coalesceBackward p n chunk).1.baseNextAddr = p.baseNextAddr ∧
      (coalesceBackward p n chunk).1.basePastAddr = p.basePastAddr := by
  unfold coalesceBackward
  split
  · exact ⟨rfl, rfl⟩
  · split
    · exact ⟨rfl, rfl⟩
    · exact ⟨rfl, rfl⟩

/-- `chunk_record` leaves the base region alone. -/
theorem chunkRecord_base (c : Config) (p : Pool) (chunk size : Nat) (zeroed : Bool) :
    (chunkRecord c p chunk size zeroed).baseNextAddr = p.baseNextAddr ∧
      (chunkRecord c p chunk size zeroed).basePastAddr = p.basePastAddr := by
  rw [chunkRecord_eq]
  dsimp only
  unfold chunkRecordLocked
  split
  · exact coalesceBackward_base ..
  · split
    · exact ⟨rfl, rfl⟩
    · exact coalesceBackward_base ..

/-- The base region that is cut off at the next chunk. -/
theorem BaseRegion.of_ceiling (past : p.basePastAddr = c.chunkCeiling p.baseNextAddr)
    (room : p.baseNextAddr + c.chunksize < Word.modulus) : BaseRegion c p where
  order := by
    rw [past]
    exact Word.le_ceil c.chunksize_pos (by omega)
  below := by
    have below := c.chunkCeiling_lt p.baseNextAddr
    have gap : c.chunksize ∣ Word.modulus - c.chunkCeiling p.baseNextAddr :=
      Nat.dvd_sub c.chunksize_dvd_modulus (c.dvd_chunkCeiling _)
    have := Nat.le_of_dvd (by omega) gap
    rw [past]
    omega

section Extend

variable {addr size length : Nat} {zeroed : Bool} {p' : Pool} {nodes : List Nat}

theorem poolExtendFinish_base {start : Nat}
    (result : poolExtendFinish c p addr size start zeroed = some (p', length)) :
    p'.baseNextAddr = p.baseNextAddr ∧ p'.basePastAddr = p.basePastAddr := by
  unfold poolExtendFinish at result
  dsimp only at result
  split at result
  · cases result
  · obtain ⟨rfl, -⟩ := Prod.mk.inj (Option.some.inj result)
    exact chunkRecord_base ..

/-- In the fallback the base region ends up in the new memory. -/
theorem poolExtendFallback_base {missing : Nat} {node : Option Nat} (fits : c.Fits)
    (region : Region c addr size) (atMost : missing ≤ size / c.chunksize)
    (result : poolExtendFallback c p missing node addr size zeroed = some (p', length)) :
    BaseRegion c p' := by
  obtain ⟨lower, room⟩ := fallback_room fits region atMost
  have below := region.below
  have ends : Word.add addr size = addr + size := Word.add_eq below
  unfold poolExtendFallback at result
  dsimp only at result
  rw [ends] at result
  generalize moved_eq : { p with
    baseNextAddr := cachelineCeiling addr
    basePastAddr := addr + size } = moved at result
  have next : moved.baseNextAddr = cachelineCeiling addr := by rw [← moved_eq]
  have past : moved.basePastAddr = addr + size := by rw [← moved_eq]
  have made := baseNodePrealloc_of_room (c := c) (p := moved) missing (by omega) (by omega)
  rw [made] at result
  generalize carved_eq : (moved.advance
    (missing * cachelineCeiling c.sizeofExtentNode)).addNodes missing = carved at result
  have carvedNext : carved.baseNextAddr =
      moved.baseNextAddr + missing * cachelineCeiling c.sizeofExtentNode := by
    rw [← carved_eq]
    rfl
  have carvedPast : carved.basePastAddr = moved.basePastAddr := by
    rw [← carved_eq]
    rfl
  cases node with
  | some node =>
      obtain ⟨sameNext, samePast⟩ := poolExtendFinish_base result
      refine BaseRegion.of_ceiling ?_ ?_
      · rw [samePast, sameNext]
      · rw [sameNext]
        dsimp only
        omega
  | none =>
      have allocated := baseAlloc_of_room (c := c) (p := carved)
        (show carved.basePastAddr < Word.modulus by omega)
        (show carved.baseNextAddr + cachelineCeiling c.sizeofRangeNode ≤
          carved.basePastAddr by omega)
      simp only [Option.isNone_none, ↓reduceIte, allocated] at result
      obtain ⟨sameNext, samePast⟩ := poolExtendFinish_base result
      refine BaseRegion.of_ceiling ?_ ?_
      · rw [samePast, sameNext]
      · rw [sameNext]
        unfold Pool.advance
        dsimp only
        omega

theorem poolExtend_base (fits : c.Fits) (trees : FreeTrees c p) (numbered : NodesNumbered p nodes)
    (region : BaseRegion c p) (nonnull : 0 < addr) (below : addr + size < Word.modulus)
    (result : poolExtend c p addr size zeroed = some (p', length)) : BaseRegion c p' := by
  have nodeRequest : BaseRequest c c.sizeofExtentNode := fits.baseRequest (by simp)
  have rangeRequest : BaseRequest c c.sizeofRangeNode := fits.baseRequest (by simp)
  have step := baseNodePrealloc_step nodeRequest (size / c.chunksize) trees numbered
  have first := region.baseNodePrealloc fits trees numbered (size / c.chunksize)
  have second := first.baseAlloc step.change.trees (numbered.change step.change).apart
    rangeRequest
  have atMost := baseNodePrealloc_missing_le c p (size / c.chunksize)
  unfold poolExtend at result
  split at result
  · obtain ⟨rfl, -⟩ := Prod.mk.inj (Option.some.inj result)
    exact region
  · rename_i long
    dsimp only at result
    split at result
    · exact poolExtendFallback_base fits ⟨nonnull, not_lt.mp long, below⟩ atMost result
    · obtain ⟨sameNext, samePast⟩ := poolExtendFinish_base result
      exact second.of_eq sameNext samePast

end Extend

/-! ## Whole runs -/

/-- A new pool has its base region in front of its first chunk. -/
theorem fresh_base {addr size : Nat} {mem : Nat → UInt8} {zeroed locksFail : Bool}
    (fits : c.Fits) (region : Region c addr size)
    (created : poolCreateEmpty c mem addr size zeroed locksFail = some p) : BaseRegion c p := by
  obtain ⟨_, upper⟩ := metadataEnd_bounds fits region
  have below := region.below
  have metadata := fits.metadata
  have minimal := region.minimal
  unfold Config.poolMinimalSize at minimal
  have header : Word.add addr c.sizeofPool = addr + c.sizeofPool := Word.add_eq (by omega)
  have next : (metadataPool c mem addr size).baseNextAddr = metadataEnd c addr size := by
    change cachelineCeiling (Word.add addr c.sizeofPool) + metadataBytes c size = _
    rw [header]
    rfl
  have registers := poolCreateEmpty_registers fits region created
  obtain ⟨sameNext, samePast⟩ : p.baseNextAddr = (metadataPool c mem addr size).baseNextAddr ∧
      p.basePastAddr = (metadataPool c mem addr size).basePastAddr := by
    rw [registers]
    exact chunkRecord_base ..
  refine BaseRegion.of_ceiling ?_ ?_
  · rw [samePast, sameNext, next]
    rfl
  · rw [sameNext, next]
    have positive := c.chunksize_pos
    omega

namespace ChunkState

variable {s : ChunkState}

theorem baseRegion_exec {op : ChunkOp} {after : ChunkState} (fits : c.Fits) (sound : s.Sound c)
    (region : BaseRegion c s.pool) (allowed : Permitted c s op)
    (result : exec c s op = some after) : BaseRegion c after.pool := by
  have trees := sound.ledger.trees
  have apart := sound.ledger.apart
  cases op with
  | recycle newAddr size alignment zero =>
      dsimp only [exec] at result
      rcases chunkRecycle_cases trees apart allowed newAddr zero with
        ⟨p', ret, zeroOut, taken, recycled⟩ | ⟨p', taken, failed⟩
      · rw [taken] at result
        cases result
        exact region.change recycled.change
      · rw [taken] at result
        cases result
        exact region.change failed.change
  | record chunk size zeroed =>
      cases result
      obtain ⟨next, past⟩ := chunkRecord_base c s.pool chunk size zeroed
      exact region.of_eq next past
  | extend addr size zeroed =>
      obtain ⟨nonnull, below, _⟩ := allowed
      dsimp only [exec] at result
      split at result
      · cases result
      · rename_i p' length extended
        cases result
        exact poolExtend_base fits trees sound.ledger.numbered region nonnull below extended
  | baseAlloc size =>
      cases result
      exact region.baseAlloc trees apart allowed
  | takeNode =>
      dsimp only [exec] at result
      unfold baseNodeAlloc at result
      cases nodes : s.pool.baseNodes with
      | nil =>
          rw [nodes] at result
          cases result
          exact region
      | cons n rest =>
          rw [nodes] at result
          cases result
          exact region.of_eq rfl rfl
  | giveNode n =>
      cases result
      exact region.of_eq rfl rfl
  | editNode n value =>
      cases result
      exact region.of_eq rfl rfl
  | write x byte =>
      cases result
      exact region.of_eq rfl rfl

/-- The base region in every state that is reached. -/
theorem baseRegion_of_reached {start : ChunkState} (fits : c.Fits) (starts : start.Sound c)
    (first : BaseRegion c start.pool)
    (reached : Reached (Permitted c) (ChunkState.exec c) start s) : BaseRegion c s.pool := by
  have both : s.Sound c ∧ BaseRegion c s.pool := by
    refine reached.invariant (fun s => s.Sound c ∧ BaseRegion c s.pool) ⟨starts, first⟩ ?_
    rintro before op after ⟨sound, region⟩ allowed result
    obtain ⟨expected, steps⟩ := sound.exec fits allowed
    have same : after = expected := Option.some.inj (result.symm.trans steps.result)
    exact ⟨same ▸ steps.sound, baseRegion_exec fits sound region allowed result⟩
  exact both.2

end ChunkState

end Jemalloc
end Vmem
