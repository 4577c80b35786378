import Vmem.Jemalloc.Base
import Vmem.Jemalloc.RecycleOutcome

/-!
# What the base allocator does to a pool

Base allocations may take chunks out of the free set and make new extent nodes.
With chunk alignment there is never a leading part, so a failing base allocation
leaves the pool as it was.
-/

namespace Vmem
namespace Jemalloc

/-- What an operation that may use the base allocator does to a pool: besides
its gain and loss, chunks may be handed to the base allocator, and nodes may be
created. -/
structure PoolChange (c : Config) (p p' : Pool) (gain loss : List Span) : Prop where
  trees : FreeTrees c p'
  created : ∃ count, p'.nodeCount = p.nodeCount + count ∧
    (p'.chunksAd ++ p'.baseNodes).Perm
      (p.chunksAd ++ p.baseNodes ++ List.range' p.nodeCount count)
  dropped : ∃ extra handed, p'.leaked = extra ++ p.leaked ∧
    p'.baseChunks = handed ++ p.baseChunks ∧ ∀ x,
      cover p'.freeSpans x + cover extra x + cover handed x + cover loss x =
        cover p.freeSpans x + cover gain x
  heap : ∀ n, n ∉ p.chunksAd → n ∉ p.baseNodes → n < p.nodeCount → p'.node n = p.node n
  mem : ∀ x, cover p.freeSpans x = 0 → cover gain x = 0 → p'.mem x = p.mem x
  huge : p'.huge = p.huge

namespace PoolChange

variable {c : Config} {p p' p'' : Pool} {gain loss gain' loss' : List Span}

theorem of_section (change : PoolSection c p p' gain loss) : PoolChange c p p' gain loss where
  trees := change.trees
  created := ⟨0, change.nodeCount, by simpa using change.nodes⟩
  dropped := by
    obtain ⟨extra, leaked, covers⟩ := change.dropped
    exact ⟨extra, [], leaked, change.baseChunks, fun x => by
      have := covers x
      rw [cover_nil]
      omega⟩
  heap := fun n absent unused _ => change.heap n absent unused
  mem := change.mem
  huge := change.huge

theorem refl (trees : FreeTrees c p) : PoolChange c p p [] [] :=
  of_section (PoolSection.refl trees)

theorem trans (first : PoolChange c p p' gain loss)
    (second : PoolChange c p' p'' gain' loss') :
    PoolChange c p p'' (gain ++ gain') (loss ++ loss') where
  trees := second.trees
  created := by
    obtain ⟨count, total, nodes⟩ := first.created
    obtain ⟨count', total', nodes'⟩ := second.created
    refine ⟨count + count', by omega, ?_⟩
    have joined := List.range'_append_1 (s := p.nodeCount) (m := count) (n := count')
    rw [← joined, ← List.append_assoc, ← total]
    exact nodes'.trans (nodes.append_right _)
  dropped := by
    obtain ⟨extra, handed, leaked, chunks, covers⟩ := first.dropped
    obtain ⟨extra', handed', leaked', chunks', covers'⟩ := second.dropped
    refine ⟨extra' ++ extra, handed' ++ handed, by rw [leaked', leaked, List.append_assoc],
      by rw [chunks', chunks, List.append_assoc], ?_⟩
    intro x
    have one := covers x
    have two := covers' x
    simp only [cover_append]
    omega
  heap := by
    intro n absent unused old
    obtain ⟨count, total, nodes⟩ := first.created
    have outside : n ∉ p'.chunksAd ++ p'.baseNodes := by
      intro member
      rcases List.mem_append.mp (nodes.mem_iff.mp member) with earlier | fresh
      · rcases List.mem_append.mp earlier with inTree | inList
        · exact absent inTree
        · exact unused inList
      · have := (List.mem_range'_1.mp fresh).1
        omega
    rw [second.heap n (fun member => outside (List.mem_append_left _ member))
      (fun member => outside (List.mem_append_right _ member)) (by omega),
      first.heap n absent unused old]
  mem := by
    intro x free notGained
    obtain ⟨extra, handed, _, _, covers⟩ := first.dropped
    have one := covers x
    rw [cover_append] at notGained
    rw [second.mem x (by omega) (by omega), first.mem x free (by omega)]
  huge := second.huge.trans first.huge

end PoolChange

/-- A request to the base allocator that rounds up without wrapping. -/
structure BaseRequest (c : Config) (size : Nat) : Prop where
  nonempty : 0 < size
  fits : size + cacheline + c.chunksize ≤ Word.modulus

variable {c : Config} {p : Pool}

namespace BaseRequest

variable {size : Nat}

theorem le_ceiling (request : BaseRequest c size) : size ≤ cachelineCeiling size := by
  have := request.fits
  have := c.chunksize_pos
  exact Word.le_ceil (by decide) (by unfold cacheline at *; omega)

theorem ceiling_lt (request : BaseRequest c size) :
    cachelineCeiling size < size + cacheline := by
  have := request.fits
  have := c.chunksize_pos
  exact Word.ceil_lt_add (by decide) (by unfold cacheline at *; omega)

/-- The number of chunks a base request takes is a valid chunk request. -/
theorem chunks (request : BaseRequest c size) :
    Request c (c.chunkCeiling (cachelineCeiling size)) c.chunksize := by
  have nonempty := request.nonempty
  have fits := request.fits
  have lower := request.le_ceiling
  have upper := request.ceiling_lt
  have positive := c.chunksize_pos
  have chunkLower := Word.le_ceil (a := cachelineCeiling size) positive (by omega)
  have chunkUpper := Word.ceil_lt_add (a := cachelineCeiling size) positive (by omega)
  apply Request.of_chunksize
  · unfold Config.chunkCeiling
    omega
  · exact c.dvd_chunkCeiling _
  · unfold Config.chunkCeiling
    omega

end BaseRequest

/-- With chunk alignment a failing `chunk_recycle` leaves the pool alone. -/
theorem NotRecycled.eq {p' : Pool} (failed : NotRecycled c p p' c.chunksize) : p' = p := by
  rcases failed.unchanged with same | ⟨different, _⟩
  · exact same
  · exact absurd rfl different

/-- Every node made so far is in the free trees, unused, or held elsewhere. -/
def NodesNumbered (p : Pool) (held : List Nat) : Prop :=
  (p.chunksAd ++ p.baseNodes ++ held).Perm (List.range p.nodeCount)

namespace NodesNumbered

variable {p' : Pool} {held : List Nat} {gain loss : List Span}

theorem apart (numbered : NodesNumbered p held) : NodesApart p := by
  have : (p.chunksAd ++ p.baseNodes ++ held).Nodup :=
    numbered.nodup_iff.mpr List.nodup_range
  exact (List.nodup_append.mp this).1

/-- A held node is in no free tree, is not unused, and has a number. -/
theorem of_held (numbered : NodesNumbered p held) {n : Nat} (member : n ∈ held) :
    n ∉ p.chunksAd ∧ n ∉ p.baseNodes ∧ n < p.nodeCount := by
  have nodup : (p.chunksAd ++ p.baseNodes ++ held).Nodup :=
    numbered.nodup_iff.mpr List.nodup_range
  have outside : n ∉ p.chunksAd ++ p.baseNodes := fun inside =>
    (List.nodup_append.mp nodup).2.2 n inside n member rfl
  refine ⟨fun inside => outside (List.mem_append_left _ inside),
    fun inside => outside (List.mem_append_right _ inside), ?_⟩
  exact List.mem_range.mp (numbered.mem_iff.mp (List.mem_append_right _ member))

theorem change (numbered : NodesNumbered p held)
    (changed : PoolChange c p p' gain loss) : NodesNumbered p' held := by
  obtain ⟨count, total, nodes⟩ := changed.created
  unfold NodesNumbered
  have moved : (p.chunksAd ++ p.baseNodes ++ List.range' p.nodeCount count ++ held).Perm
      (p.chunksAd ++ p.baseNodes ++ held ++ List.range' p.nodeCount count) := by
    rw [List.append_assoc, List.append_assoc _ held]
    exact List.perm_append_comm.append_left _
  have extended := numbered.append_right (List.range' p.nodeCount count)
  rw [total, List.range_add, ← List.range'_eq_map_range]
  exact (nodes.append_right held).trans (moved.trans extended)

/-- What is held keeps its contents. -/
theorem heap_eq (numbered : NodesNumbered p held)
    (changed : PoolChange c p p' gain loss) {n : Nat} (member : n ∈ held) :
    p'.node n = p.node n := by
  obtain ⟨absent, unused, old⟩ := numbered.of_held member
  exact changed.heap n absent unused old

end NodesNumbered

/-- What base allocations may do besides moving their pointers. -/
structure BaseStep (c : Config) (p p' : Pool) : Prop where
  change : PoolChange c p p' [] []
  kept : p'.leaked = p.leaked
  ranges : p'.memoryRanges = p.memoryRanges
  coalesced : Coalesced p → Coalesced p'
  zeroed : ZeroedSound p → ZeroedSound p'

namespace BaseStep

variable {p' p'' : Pool}

theorem refl (trees : FreeTrees c p) : BaseStep c p p where
  change := PoolChange.refl trees
  kept := rfl
  ranges := rfl
  coalesced := id
  zeroed := id

theorem trans (first : BaseStep c p p') (second : BaseStep c p' p'') :
    BaseStep c p p'' where
  change := first.change.trans second.change
  kept := second.kept.trans first.kept
  ranges := second.ranges.trans first.ranges
  coalesced := second.coalesced ∘ first.coalesced
  zeroed := second.zeroed ∘ first.zeroed

/-- Moving the pointers of the base allocator is not a change. -/
theorem of_pointers (trees : FreeTrees c p) (next past : Nat) :
    BaseStep c p { p with baseNextAddr := next, basePastAddr := past } where
  change := {
    trees := trees.of_edit rfl rfl fun _ _ => rfl
    created := ⟨0, rfl, by simp⟩
    dropped := ⟨[], [], rfl, rfl, fun _ => rfl⟩
    heap := fun _ _ _ _ => rfl
    mem := fun _ _ _ => rfl
    huge := rfl }
  kept := rfl
  ranges := rfl
  coalesced := id
  zeroed := id

/-- Carving out one node. -/
theorem of_node (trees : FreeTrees c p) :
    BaseStep c p { p with
      nodeCount := p.nodeCount + 1
      baseNodes := p.nodeCount :: p.baseNodes } where
  change := {
    trees := trees.of_edit rfl rfl fun _ _ => rfl
    created := by
      refine ⟨1, rfl, ?_⟩
      rw [List.append_assoc, List.range'_one]
      exact (List.perm_append_singleton _ _).symm.append_left _
    dropped := ⟨[], [], rfl, rfl, fun _ => rfl⟩
    heap := fun _ _ _ _ => rfl
    mem := fun _ _ _ => rfl
    huge := rfl }
  kept := rfl
  ranges := rfl
  coalesced := id
  zeroed := id

end BaseStep

/-- The data segment makes no difference when no free extent lies in it. -/
theorem baseAlloc_eq {dss : Dss} {size : Nat} (trees : FreeTrees c p)
    (request : BaseRequest c size)
    (outside : ∀ n ∈ p.chunksAd, ∀ x, (p.node n).span.Has x →
      (c.haveDss && chunkInDss dss x) = false) :
    baseAlloc c p size dss = baseAlloc c p size := by
  unfold baseAlloc basePagesAlloc chunkAllocBase
  simp only [chunkRecycle_eq trees request.chunks outside]

/-- `chunk_alloc_base` takes chunks or leaves the pool alone. -/
theorem chunkAllocBase_cases {size : Nat} (trees : FreeTrees c p) (apart : NodesApart p)
    (request : Request c size c.chunksize) :
    (∃ p' ret, chunkAllocBase c p size = (p', some ret) ∧
        PoolSection c p p' [] [⟨ret, size⟩] ∧ p'.leaked = p.leaked ∧
        (Coalesced p → Coalesced p') ∧ (ZeroedSound p → ZeroedSound p')) ∨
      chunkAllocBase c p size = (p, none) := by
  unfold chunkAllocBase
  rcases chunkRecycle_cases trees apart request 0 false with
    ⟨p', ret, zeroOut, result, recycled⟩ | ⟨p', result, failed⟩
  · rw [result]
    refine Or.inl ⟨_, ret, rfl, ?_, recycled.kept, recycled.coalesced, recycled.zeroed⟩
    exact (PoolSection.of_stats recycled.change :
      PoolSection c p (chunkRegister c p' size false).1 [] [⟨ret, size⟩])
  · rw [result, failed.eq]
    exact Or.inr rfl

theorem basePagesAlloc_cases {size : Nat} (trees : FreeTrees c p) (apart : NodesApart p)
    (request : BaseRequest c size) :
    (∃ p', basePagesAlloc c p (cachelineCeiling size) = (p', false) ∧ BaseStep c p p') ∨
      basePagesAlloc c p (cachelineCeiling size) = (p, true) := by
  unfold basePagesAlloc
  rcases chunkAllocBase_cases trees apart request.chunks with
    ⟨p', ret, result, change, kept, coalesced, zeroed⟩ | result
  · simp only [result]
    refine Or.inl ⟨_, rfl, ?_⟩
    exact {
      change := {
        trees := change.trees.of_edit rfl rfl fun _ _ => rfl
        created := ⟨0, change.nodeCount, by simpa using change.nodes⟩
        dropped := by
          refine ⟨[], [⟨ret, c.chunkCeiling (cachelineCeiling size)⟩], kept, ?_, ?_⟩
          · rw [change.baseChunks]
            rfl
          · exact change.cover_free_eq kept
        heap := fun n absent unused _ => change.heap n absent unused
        mem := change.mem
        huge := change.huge }
      kept := kept
      ranges := change.memoryRanges
      coalesced := coalesced
      zeroed := zeroed }
  · exact Or.inr (by simp only [result])

/-- `base_alloc` succeeds, or leaves the pool alone. -/
theorem baseAlloc_cases {size : Nat} (trees : FreeTrees c p) (apart : NodesApart p)
    (request : BaseRequest c size) :
    (∃ p' ret, baseAlloc c p size = (p', some ret) ∧ BaseStep c p p') ∨
      baseAlloc c p size = (p, none) := by
  unfold baseAlloc
  simp only
  split
  · rcases basePagesAlloc_cases trees apart request with ⟨p', result, first⟩ | result
    · rw [result]
      exact Or.inl ⟨_, _, rfl,
        first.trans (BaseStep.of_pointers first.change.trees _ p'.basePastAddr)⟩
    · rw [result]
      exact Or.inr rfl
  · exact Or.inl ⟨_, _, rfl, BaseStep.of_pointers trees _ p.basePastAddr⟩

theorem baseAlloc_step {size : Nat} (trees : FreeTrees c p) (apart : NodesApart p)
    (request : BaseRequest c size) : BaseStep c p (baseAlloc c p size).1 := by
  rcases baseAlloc_cases trees apart request with ⟨p', ret, result, step⟩ | result
  · rw [result]
    exact step
  · rw [result]
    exact BaseStep.refl trees

theorem baseNodePrealloc_step {held : List Nat}
    (request : BaseRequest c c.sizeofExtentNode)
    (number : Nat) (trees : FreeTrees c p) (numbered : NodesNumbered p held) :
    BaseStep c p (baseNodePrealloc c p number).1 := by
  induction number generalizing p with
  | zero => exact BaseStep.refl trees
  | succ number inductionHypothesis =>
      unfold baseNodePrealloc
      rcases baseAlloc_cases trees numbered.apart request with
        ⟨p', ret, result, step⟩ | result
      · rw [result]
        have first := step.trans (BaseStep.of_node step.change.trees)
        exact first.trans (inductionHypothesis first.change.trees
          (numbered.change first.change))
      · rw [result]
        exact BaseStep.refl trees

end Jemalloc
end Vmem
