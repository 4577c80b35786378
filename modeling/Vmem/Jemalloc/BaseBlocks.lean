import Vmem.Jemalloc.MetadataSame

/-!
# The blocks of the base allocator

`base_alloc` cuts its blocks off the front of the base region.  The region starts behind the
header of a new pool, ends at the first chunk once the pool is made, moves to chunks from the
free trees when it is used up, and to the front of a new region when the pool is extended.
All blocks and what is left of the base region lie in chunks of the base allocator or in the
parts of the pool's regions in front of their chunks, and cover each address there at most
once.
-/

namespace Vmem
namespace Jemalloc

variable {c : Config} {p : Pool}

/-! ## The blocks of a call -/

/-- The cache lines of the block that `base_alloc` returned for a request. -/
def baseBlock (size : Nat) : Option Nat → List Span
  | none => []
  | some ret => [⟨ret, Word.up size cacheline⟩]

/-- The blocks of a sequence of calls. -/
def baseAllocAllBlocks (c : Config) : Pool → List Nat → List Span
  | _, [] => []
  | p, size :: sizes =>
      match baseAlloc c p size with
      | (_, none) => []
      | (p, some ret) => baseAllocAllBlocks c p sizes ++ baseBlock size (some ret)

/-- The blocks of `base_node_prealloc`. -/
def baseNodePreallocBlocks (c : Config) : Pool → Nat → List Span
  | _, 0 => []
  | p, number + 1 =>
      match baseAlloc c p c.sizeofExtentNode with
      | (_, none) => []
      | (p, some ret) =>
          baseNodePreallocBlocks c
            { p with
              nodeCount := p.nodeCount + 1
              baseNodes := p.nodeCount :: p.baseNodes } number ++
            baseBlock c.sizeofExtentNode (some ret)

/-- The blocks of `pool_create_empty`, in three steps: `pool_new`, the nodes, and the memory
range node. -/
def poolCreateBlocks (c : Config) (mem : Nat → UInt8) (addr size : Nat) : List Span :=
  let blank := poolBlank c mem addr size
  let internal := (baseAllocAll c blank c.poolNewAllocs).1
  let prepared := (baseAllocAll c internal c.arenaAllocs).1
  let supplied := (baseNodePrealloc c prepared (size / c.chunksize)).1
  baseBlock c.sizeofRangeNode (baseAlloc c supplied c.sizeofRangeNode).2 ++
    (baseNodePreallocBlocks c prepared (size / c.chunksize) ++
      (baseAllocAllBlocks c internal c.arenaAllocs ++
        baseAllocAllBlocks c blank c.poolNewAllocs))

/-- The blocks of `je_pool_extend` in the new region. -/
def poolExtendFallbackBlocks (c : Config) (p : Pool) (missing : Nat) (node : Option Nat)
    (addr size : Nat) : List Span :=
  let p := { p with
    baseNextAddr := cachelineCeiling addr
    basePastAddr := Word.add addr size }
  let supplied := (baseNodePrealloc c p missing).1
  (if node.isNone then baseBlock c.sizeofRangeNode (baseAlloc c supplied c.sizeofRangeNode).2
    else []) ++ baseNodePreallocBlocks c p missing

/-- The blocks of `je_pool_extend`. -/
def poolExtendBlocks (c : Config) (p : Pool) (addr size : Nat) : List Span :=
  if size < c.poolMinimalSize then []
  else
    match baseNodePrealloc c p (size / c.chunksize) with
    | (q, missing) =>
        match baseAlloc c q c.sizeofRangeNode with
        | (r, node) =>
            (if 0 < missing ∨ node = none then
                poolExtendFallbackBlocks c r missing node addr size
              else []) ++
              (baseBlock c.sizeofRangeNode node ++
                baseNodePreallocBlocks c p (size / c.chunksize))

/-! ## One call -/

/-- The sums that `base_alloc` makes for a request do not wrap: the end of the block in the
base region, and the number of chunks where some are taken. -/
structure BaseRoom (c : Config) (p : Pool) (size : Nat) : Prop where
  sum : p.baseNextAddr + Word.up size cacheline < Word.modulus
  chunks : p.basePastAddr < p.baseNextAddr + Word.up size cacheline →
    Word.up size c.chunksize < Word.modulus ∨ p.chunksSzad = []

/-- How a call of `base_alloc` goes. -/
inductive BaseAllocOutcome (c : Config) (p : Pool) (size : Nat) (result : Pool × Option Nat) :
    Prop
  | bump (room : p.baseNextAddr + Word.up size cacheline ≤ p.basePastAddr)
      (same : result = (p.advance (Word.up size cacheline), some p.baseNextAddr))
  /-- The base region moves to chunks from the free trees. -/
  | refill (full : p.basePastAddr < p.baseNextAddr + Word.up size cacheline) (q : Pool)
      (ret : Nat) (same : result = (q, some ret)) (step : BaseStep c p q)
      (next : q.baseNextAddr = ret + Word.up size cacheline)
      (past : q.basePastAddr = ret + Word.up size c.chunksize)
      (chunks : q.baseChunks = ⟨ret, Word.up size c.chunksize⟩ :: p.baseChunks)
      (aligned : c.chunksize ∣ ret)
      (below : ret + Word.up size c.chunksize + c.chunksize ≤ Word.modulus)
  | fails (same : result = (p, none))

theorem cacheline_dvd_modulus : cacheline ∣ Word.modulus := by decide +kernel

theorem Config.cacheline_dvd_chunksize (c : Config) : cacheline ∣ c.chunksize := by
  have line : 2 ^ 6 ∣ c.page := Nat.pow_dvd_pow 2 c.cacheline_le_page
  exact line.trans c.page_dvd_chunksize

/-- Chunks are taken for the request rounded to cache lines, which is as well rounded to
chunks. -/
theorem chunkCeiling_cachelines {size : Nat} (fits : Word.up size cacheline < Word.modulus) :
    c.chunkCeiling (Word.up size cacheline) =
      if Word.up size c.chunksize < Word.modulus then Word.up size c.chunksize else 0 := by
  have absorbed := Word.up_up c.cacheline_dvd_chunksize c.chunksize_pos size
  unfold Config.chunkCeiling
  split
  · next below =>
    rw [Word.ceil_eq_up c.chunksize_dvd_modulus fits (absorbed ▸ below), absorbed]
  · next wraps =>
    exact Word.ceil_eq_zero c.chunksize_dvd_modulus fits (absorbed ▸ not_lt.mp wraps)

theorem baseAlloc_outcome {size : Nat} (trees : FreeTrees c p) (apart : NodesApart p)
    (past : p.basePastAddr < Word.modulus) (order : p.baseNextAddr ≤ p.basePastAddr)
    (room : BaseRoom c p size) : BaseAllocOutcome c p size (baseAlloc c p size) := by
  have sum := room.sum
  have lower := Word.le_up (show 0 < cacheline by decide) size
  have lines : cachelineCeiling size = Word.up size cacheline :=
    Word.ceil_eq_up cacheline_dvd_modulus (by omega) (by omega)
  by_cases enough : p.baseNextAddr + Word.up size cacheline ≤ p.basePastAddr
  · rw [← lines] at enough
    rw [baseAlloc_of_room past enough, lines]
    exact .bump (lines ▸ enough) rfl
  have full := not_le.mp enough
  have test : Word.add p.baseNextAddr (cachelineCeiling size) > p.basePastAddr := by
    rw [lines, Word.add_eq sum]
    exact full
  cases order_ : p.chunksSzad with
  | nil => exact .fails (baseAlloc_nil order_ test)
  | cons n rest =>
      have below : Word.up size c.chunksize < Word.modulus := by
        rcases room.chunks full with below | empty
        · exact below
        · exact absurd (order_.symm.trans empty) (List.cons_ne_nil _ _)
      have long := Word.le_up c.chunksize_pos size
      have wider : Word.up size cacheline ≤ Word.up size c.chunksize :=
        Word.up_le_of_dvd (by decide) (c.cacheline_dvd_chunksize.trans (Word.dvd_up _ _)) long
      have request : Request c (Word.up size c.chunksize) c.chunksize :=
        Request.of_chunksize (by omega) (Word.dvd_up _ _) below
      have csize : c.chunkCeiling (cachelineCeiling size) = Word.up size c.chunksize := by
        rw [lines, chunkCeiling_cachelines (by omega), if_pos below]
      unfold baseAlloc
      dsimp only
      rw [if_pos test]
      unfold basePagesAlloc chunkAllocBase
      dsimp only
      rw [csize]
      rcases chunkRecycle_cases trees apart request 0 false with
        ⟨q, ret, zeroOut, result, recycled⟩ | ⟨q, result, failed⟩
      · rw [result]
        have registered : PoolSection c p (chunkRegister c q (Word.up size c.chunksize) false).1 []
            [⟨ret, Word.up size c.chunksize⟩] := PoolSection.of_stats recycled.change
        have last := BaseRegion.below_of_taken trees request.nonempty registered
        have nextEq : Word.add ret (Word.up size cacheline) = ret + Word.up size cacheline :=
          Word.add_eq (by have := c.chunksize_pos; omega)
        have pastEq : Word.add ret (Word.up size c.chunksize) = ret + Word.up size c.chunksize :=
          Word.add_eq (by have := c.chunksize_pos; omega)
        refine .refill full _ ret rfl ?_ ?_ ?_ ?_ recycled.aligned last
        · exact {
            change := {
              trees := registered.trees.of_edit rfl rfl fun _ _ => rfl
              created := ⟨0, registered.nodeCount, by simpa using registered.nodes⟩
              dropped := by
                refine ⟨[], [⟨ret, Word.up size c.chunksize⟩], recycled.kept, ?_, ?_⟩
                · change _ :: q.baseChunks = _
                  rw [recycled.change.baseChunks]
                  rfl
                · exact registered.cover_free_eq recycled.kept
              heap := fun n absent unused _ => registered.heap n absent unused
              mem := registered.mem
              huge := registered.huge }
            kept := recycled.kept
            ranges := registered.memoryRanges
            coalesced := recycled.coalesced
            zeroed := recycled.zeroed }
        · rw [lines]
          exact nextEq
        · exact pastEq
        · change _ :: q.baseChunks = _
          rw [recycled.change.baseChunks]
      · rw [result, failed.eq]
        exact .fails rfl

namespace BaseAllocOutcome

variable {size : Nat} {result : Pool × Option Nat}

theorem step (outcome : BaseAllocOutcome c p size result) (trees : FreeTrees c p) :
    BaseStep c p result.1 := by
  cases outcome with
  | bump room same =>
      rw [same]
      exact BaseStep.of_pointers trees _ p.basePastAddr
  | refill full q ret same step =>
      rw [same]
      exact step
  | fails same =>
      rw [same]
      exact BaseStep.refl trees

theorem region (outcome : BaseAllocOutcome c p size result) (region : BaseRegion c p) :
    BaseRegion c result.1 := by
  cases outcome with
  | bump room same =>
      rw [same]
      exact ⟨room, region.below⟩
  | refill full q ret same step next past chunks aligned below =>
      have wider : Word.up size cacheline ≤ Word.up size c.chunksize :=
        Word.up_le_of_dvd (by decide) (c.cacheline_dvd_chunksize.trans (Word.dvd_up _ _))
          (Word.le_up c.chunksize_pos size)
      rw [same]
      exact ⟨by dsimp only; omega, by dsimp only; omega⟩
  | fails same =>
      rw [same]
      exact region

end BaseAllocOutcome

/-! ## The metadata area -/

/-- The blocks and what is left of the base region cover each address of the chunks of the
base allocator and of the heads of the regions at most once, and nothing else. -/
structure MetadataArea (heads : List Span) (p : Pool) (blocks : List Span) : Prop where
  next_dvd : cacheline ∣ p.baseNextAddr
  aligned : ∀ block ∈ blocks, cacheline ∣ block.lo
  order : p.baseNextAddr ≤ p.basePastAddr
  covers : ∀ x, cover blocks x +
    (Span.mk p.baseNextAddr (p.basePastAddr - p.baseNextAddr)).ind x ≤
      cover p.baseChunks x + cover heads x

/-- A request of less than a chunk does not reach the end of the address space. -/
theorem BaseRegion.room {size : Nat} (region : BaseRegion c p)
    (small : Word.up size cacheline < c.chunksize) : BaseRoom c p size := by
  have order := region.order
  have below := region.below
  have lower := Word.le_up (show 0 < cacheline by decide) size
  have one : Word.up size c.chunksize ≤ c.chunksize :=
    Word.up_le_of_dvd c.chunksize_pos dvd_rfl (by omega)
  have two := c.two_chunks_lt_modulus
  exact ⟨by omega, fun _ => Or.inl (by omega)⟩

namespace MetadataArea

variable {p' : Pool} {heads blocks : List Span}

/-- Only the base region and the chunks of the base allocator matter. -/
theorem of_eq (area : MetadataArea heads p blocks) (next : p'.baseNextAddr = p.baseNextAddr)
    (past : p'.basePastAddr = p.basePastAddr) (chunks : p'.baseChunks = p.baseChunks) :
    MetadataArea heads p' blocks where
  next_dvd := next ▸ area.next_dvd
  aligned := area.aligned
  order := by
    rw [next, past]
    exact area.order
  covers := by
    rw [next, past, chunks]
    exact area.covers

/-- A block from the front of the base region. -/
theorem bump {bytes : Nat} (area : MetadataArea heads p blocks) (lines : cacheline ∣ bytes)
    (room : p.baseNextAddr + bytes ≤ p.basePastAddr) :
    MetadataArea heads (p.advance bytes) (⟨p.baseNextAddr, bytes⟩ :: blocks) where
  next_dvd := Nat.dvd_add area.next_dvd lines
  aligned := by
    intro block member
    rcases List.mem_cons.mp member with rfl | old
    · exact area.next_dvd
    · exact area.aligned block old
  order := room
  covers := by
    intro x
    have before := area.covers x
    have joined := Span.ind_add p.baseNextAddr bytes
      (p.basePastAddr - (p.baseNextAddr + bytes)) x
    rw [show bytes + (p.basePastAddr - (p.baseNextAddr + bytes)) =
      p.basePastAddr - p.baseNextAddr by omega] at joined
    rw [cover_cons]
    change _ + _ + (Span.mk (p.baseNextAddr + bytes)
      (p.basePastAddr - (p.baseNextAddr + bytes))).ind x ≤ cover p.baseChunks x + _
    omega

/-- The base region moves to a new chunk of the base allocator. -/
theorem refill (area : MetadataArea heads p blocks) (chunk : Span)
    (next : p'.baseNextAddr = chunk.lo) (past : p'.basePastAddr = chunk.lo + chunk.len)
    (chunks : p'.baseChunks = chunk :: p.baseChunks) (aligned : cacheline ∣ chunk.lo) :
    MetadataArea heads p' blocks where
  next_dvd := next ▸ aligned
  aligned := area.aligned
  order := by omega
  covers := by
    intro x
    have before := area.covers x
    rw [next, past, chunks, cover_cons, Nat.add_sub_cancel_left]
    change _ + chunk.ind x ≤ _
    omega

theorem alloc {size : Nat} {result : Pool × Option Nat} (area : MetadataArea heads p blocks)
    (outcome : BaseAllocOutcome c p size result) :
    MetadataArea heads result.1 (baseBlock size result.2 ++ blocks) := by
  have lines := Word.dvd_up size cacheline
  cases outcome with
  | bump room same =>
      rw [same]
      exact area.bump lines room
  | refill full q ret same step next past chunks aligned below =>
      have wider : Word.up size cacheline ≤ Word.up size c.chunksize :=
        Word.up_le_of_dvd (by decide) (c.cacheline_dvd_chunksize.trans (Word.dvd_up _ _))
          (Word.le_up c.chunksize_pos size)
      have moved : MetadataArea heads { q with baseNextAddr := ret } blocks :=
        area.refill ⟨ret, Word.up size c.chunksize⟩ rfl past chunks
          (c.cacheline_dvd_chunksize.trans aligned)
      have cut := moved.bump lines (by dsimp only; omega)
      rw [same]
      exact cut.of_eq next rfl rfl
  | fails same =>
      rw [same]
      exact area

/-- A block that fits into what is left of the base region. -/
theorem bump_lines {size : Nat} (area : MetadataArea heads p blocks)
    (lines : cachelineCeiling size = Word.up size cacheline)
    (room : p.baseNextAddr + cachelineCeiling size ≤ p.basePastAddr) :
    MetadataArea heads (p.advance (cachelineCeiling size))
      (baseBlock size (some p.baseNextAddr) ++ blocks) := by
  rw [lines] at room ⊢
  exact area.bump (Word.dvd_up size cacheline) room

/-- One block after another, as long as they fit. -/
theorem allocAll {sizes : List Nat} (area : MetadataArea heads p blocks)
    (lines : ∀ size ∈ sizes, cachelineCeiling size = Word.up size cacheline)
    (past : p.basePastAddr < Word.modulus)
    (room : p.baseNextAddr + (sizes.map cachelineCeiling).sum ≤ p.basePastAddr) :
    MetadataArea heads (p.advance (sizes.map cachelineCeiling).sum)
      (baseAllocAllBlocks c p sizes ++ blocks) := by
  induction sizes generalizing p blocks with
  | nil => exact area
  | cons size sizes inductionHypothesis =>
      rw [List.map_cons, List.sum_cons] at room ⊢
      have enough : p.baseNextAddr + cachelineCeiling size ≤ p.basePastAddr := by omega
      have first := area.bump_lines (lines size List.mem_cons_self) enough
      have rest := inductionHypothesis first
        (fun other member => lines other (List.mem_cons_of_mem size member)) past
        (by rw [Pool.advance_next, Pool.advance_past]; omega)
      rw [Pool.advance_advance, ← List.append_assoc] at rest
      unfold baseAllocAllBlocks
      rw [baseAlloc_of_room past enough]
      exact rest

theorem prealloc_of_room (area : MetadataArea heads p blocks)
    (lines : cachelineCeiling c.sizeofExtentNode = Word.up c.sizeofExtentNode cacheline)
    (number : Nat) (past : p.basePastAddr < Word.modulus)
    (room : p.baseNextAddr + number * cachelineCeiling c.sizeofExtentNode ≤ p.basePastAddr) :
    MetadataArea heads
      ((p.advance (number * cachelineCeiling c.sizeofExtentNode)).addNodes number)
      (baseNodePreallocBlocks c p number ++ blocks) := by
  induction number generalizing p blocks with
  | zero =>
      rw [Nat.zero_mul]
      exact area
  | succ number inductionHypothesis =>
      rw [Nat.add_mul, Nat.one_mul, Nat.add_comm] at room
      have enough : p.baseNextAddr + cachelineCeiling c.sizeofExtentNode ≤ p.basePastAddr := by
        omega
      have first := area.bump_lines lines enough
      have made : MetadataArea heads
          ((p.advance (cachelineCeiling c.sizeofExtentNode)).addNodes 1) _ :=
        first.of_eq rfl rfl rfl
      have rest := inductionHypothesis made past
        (by simp only [Pool.addNodes_next, Pool.addNodes_past, Pool.advance_next,
          Pool.advance_past]; omega)
      rw [← List.append_assoc] at rest
      unfold baseNodePreallocBlocks
      rw [baseAlloc_of_room past enough]
      refine rest.of_eq ?_ rfl rfl
      rw [Nat.add_mul, Nat.one_mul]
      simp only [Pool.addNodes_next, Pool.advance_next]
      omega

/-- Nodes from a base region that is in order, which may be used up before there are enough. -/
theorem prealloc {nodes : List Nat} (area : MetadataArea heads p blocks)
    (small : Word.up c.sizeofExtentNode cacheline < c.chunksize) (trees : FreeTrees c p)
    (numbered : NodesNumbered p nodes) (number : Nat) (region : BaseRegion c p) :
    MetadataArea heads (baseNodePrealloc c p number).1
      (baseNodePreallocBlocks c p number ++ blocks) := by
  induction number generalizing p blocks with
  | zero => exact area
  | succ number inductionHypothesis =>
      have outcome := baseAlloc_outcome trees numbered.apart region.past_lt area.order
        (region.room small)
      have after := area.alloc outcome
      have step := outcome.step trees
      have regionAfter := outcome.region region
      unfold baseNodePrealloc baseNodePreallocBlocks
      cases result : baseAlloc c p c.sizeofExtentNode with
      | mk q ret =>
          rw [result] at after step regionAfter
          cases ret with
          | none => exact after
          | some ret =>
              have made := step.trans (BaseStep.of_node step.change.trees)
              dsimp only
              rw [List.append_assoc]
              exact inductionHypothesis (after.of_eq rfl rfl rfl) made.change.trees
                (numbered.change made.change) (regionAfter.of_eq rfl rfl)

/-- The heads may be longer. -/
theorem widen (area : MetadataArea heads p blocks) (head : Span) :
    MetadataArea (head :: heads) p blocks where
  next_dvd := area.next_dvd
  aligned := area.aligned
  order := area.order
  covers := by
    intro x
    have before := area.covers x
    rw [cover_cons]
    omega

/-- The base region moves into a new region. -/
theorem move {start length next : Nat} (area : MetadataArea heads p blocks)
    (aligned : cacheline ∣ next) (lower : start ≤ next) (upper : next ≤ start + length) :
    MetadataArea (⟨start, length⟩ :: heads)
      { p with baseNextAddr := next, basePastAddr := start + length } blocks where
  next_dvd := aligned
  aligned := area.aligned
  order := upper
  covers := by
    intro x
    have before := area.covers x
    have inside : (Span.mk next (start + length - next)).ind x ≤ (Span.mk start length).ind x :=
      Span.Within.ind_le ⟨lower, by dsimp only; omega⟩ x
    rw [cover_cons]
    change _ + (Span.mk next (start + length - next)).ind x ≤ cover p.baseChunks x + _
    omega

/-- The base region is cut off, and with it the head it is in: there is no block behind. -/
theorem truncate {start length usable : Nat}
    (area : MetadataArea (⟨start, length⟩ :: heads) p blocks)
    (past : p.basePastAddr = start + length) (lower : p.baseNextAddr ≤ usable)
    (upper : usable ≤ start + length) :
    MetadataArea (⟨start, usable - start⟩ :: heads) { p with basePastAddr := usable }
      blocks where
  next_dvd := area.next_dvd
  aligned := area.aligned
  order := lower
  covers := by
    intro x
    have before := area.covers x
    have left := Span.ind_spec ⟨p.baseNextAddr, p.basePastAddr - p.baseNextAddr⟩ x
    have cut := Span.ind_spec ⟨p.baseNextAddr, usable - p.baseNextAddr⟩ x
    have whole := Span.ind_spec ⟨start, length⟩ x
    have head := Span.ind_spec ⟨start, usable - start⟩ x
    rw [cover_cons] at before ⊢
    change _ + (Span.mk p.baseNextAddr (usable - p.baseNextAddr)).ind x ≤ cover p.baseChunks x + _
    dsimp only at left cut whole head
    omega

end MetadataArea

/-! ## Registering a region -/

/-- The part of a region in front of its chunks. -/
def MemoryRange.metadata (range : MemoryRange) : Span :=
  ⟨range.addr, range.usableAddr - range.addr⟩

/-- The parts of the regions of a pool in front of their chunks. -/
def Pool.heads (p : Pool) : List Span := p.memoryRanges.map MemoryRange.metadata

/-- A registered region has its head in front of its chunks. -/
theorem MetadataArea.register {blocks : List Span} {addr size usable length : Nat} {zeroed : Bool}
    (area : MetadataArea (⟨addr, usable - addr⟩ :: p.heads) p blocks) :
    MetadataArea (registerRange c p addr size usable length zeroed).heads
      (registerRange c p addr size usable length zeroed) blocks := by
  unfold registerRange
  dsimp only
  generalize listed_eq : { p with memoryRanges := _ } = listed
  have same := MetadataSame.record c listed usable length zeroed
  have heads : (chunkRecord c listed usable length zeroed).heads =
      ⟨addr, usable - addr⟩ :: p.heads := by
    unfold Pool.heads
    rw [same.ranges, ← listed_eq]
    rfl
  rw [heads]
  apply area.of_eq
  · rw [same.next, ← listed_eq]
  · rw [same.past, ← listed_eq]
  · rw [same.chunks, ← listed_eq]

/-! ## Requests of creation and extension -/

/-- A request of creation or extension is rounded without wrapping. -/
theorem Config.Fits.lines (fits : c.Fits) (request : Nat) (member : request ∈
      c.sizeofExtentNode :: c.sizeofRangeNode :: (c.poolNewAllocs ++ c.arenaAllocs)) :
    cachelineCeiling request = Word.up request cacheline := by
  have base := fits.baseRequest member
  have upper := Word.up_lt_add (show 0 < cacheline by decide) request
  have room := base.fits
  have positive := c.chunksize_pos
  exact Word.ceil_eq_up cacheline_dvd_modulus (by omega) (by omega)

/-- It is less than a chunk. -/
theorem Config.Fits.lines_lt {request : Nat} (fits : c.Fits) (member : request ∈
      c.sizeofExtentNode :: c.sizeofRangeNode :: (c.poolNewAllocs ++ c.arenaAllocs)) :
    Word.up request cacheline < c.chunksize := by
  have metadata := fits.metadata
  unfold cacheline at metadata
  rw [← fits.lines request member]
  simp only [List.mem_cons, List.mem_append] at member
  rcases member with rfl | rfl | new | arena
  · omega
  · omega
  · have within : cachelineCeiling request ≤ (c.poolNewAllocs.map cachelineCeiling).sum :=
      List.le_sum_of_mem (List.mem_map_of_mem new)
    omega
  · have within : cachelineCeiling request ≤ (c.arenaAllocs.map cachelineCeiling).sum :=
      List.le_sum_of_mem (List.mem_map_of_mem arena)
    omega

end Jemalloc
end Vmem
