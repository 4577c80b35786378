import Vmem.Jemalloc.BaseBlocks
import Vmem.Jemalloc.PoolRun

/-!
# Metadata and user memory

A pool is created, extended by further regions, and asked for chunks, huge blocks and
metadata in any order.  As long as the sums of the base allocator do not wrap, its blocks are
apart from one another and from everything that holds user memory.
-/

namespace Vmem
namespace Jemalloc

variable {c : Config} {p : Pool}

/-! ## Creation -/

/-- The header of a new pool is in front of its base region. -/
theorem Region.header {addr size : Nat} (region : Region c addr size) (fits : c.Fits) :
    addr + c.sizeofPool < Word.modulus ∧
      addr + c.sizeofPool ≤ cachelineCeiling (addr + c.sizeofPool) := by
  have metadata := fits.metadata
  have below := region.below
  have minimal := region.minimal
  unfold Config.poolMinimalSize at minimal
  exact ⟨by omega, Word.le_ceil (by decide) (by unfold cacheline at *; omega)⟩

/-- The base region of a new pool is in its region. -/
theorem MetadataArea.blank {addr size : Nat} (fits : c.Fits) (region : Region c addr size)
    (mem : Nat → UInt8) : MetadataArea [⟨addr, size⟩] (poolBlank c mem addr size) [] := by
  obtain ⟨header, behind⟩ := region.header fits
  obtain ⟨next, past⟩ := poolBlank_region region.below header mem
  obtain ⟨endLower, endUpper⟩ := metadataEnd_bounds fits region
  unfold metadataEnd at endUpper
  generalize poolBlank c mem addr size = blank at next past ⊢
  have empty : MetadataArea [] { blank with baseNextAddr := 0, basePastAddr := 0 } [] := {
    next_dvd := dvd_zero _
    aligned := fun _ member => absurd member List.not_mem_nil
    order := le_rfl
    covers := fun x => by
      rw [cover_nil]
      change 0 + (Span.mk 0 0).ind x ≤ _
      rw [Span.ind_empty]
      exact Nat.zero_le _ }
  have moved := empty.move (Word.dvd_ceil (addr + c.sizeofPool) cacheline)
    (show addr ≤ cachelineCeiling (addr + c.sizeofPool) by omega)
    (show cachelineCeiling (addr + c.sizeofPool) ≤ addr + size by omega)
  exact moved.of_eq next past rfl

/-- The metadata of creation before the base region is cut off. -/
theorem MetadataArea.carved {addr size : Nat} (fits : c.Fits) (region : Region c addr size)
    (mem : Nat → UInt8) :
    MetadataArea [⟨addr, size⟩] (((poolBlank c mem addr size).advance
      (metadataBytes c size)).addNodes (size / c.chunksize))
        (poolCreateBlocks c mem addr size) := by
  obtain ⟨next, past⟩ := poolBlank_region region.below (region.header fits).1 mem
  obtain ⟨_, endUpper⟩ := metadataEnd_bounds fits region
  have below := region.below
  have start := MetadataArea.blank fits region mem
  unfold poolCreateBlocks
  unfold metadataEnd at endUpper
  generalize poolBlank c mem addr size = blank at next past start ⊢
  have pastLt : blank.basePastAddr < Word.modulus := by omega
  obtain ⟨internal, prepared, supplied, calls⟩ := CreationCalls.of_room (c := c) (p := blank) pastLt
    (show blank.baseNextAddr + metadataBytes c size ≤ blank.basePastAddr by omega)
  have new := start.allocAll (c := c) (fun size member => fits.lines size (by simp [member]))
    pastLt calls.newRoom
  rw [← calls.internal_eq] at new
  have arena := new.allocAll (c := c) (fun size member => fits.lines size (by simp [member]))
    calls.internalPast calls.arenaRoom
  rw [← calls.prepared_eq] at arena
  have nodes := arena.prealloc_of_room (fits.lines c.sizeofExtentNode (by simp))
    (size / c.chunksize) calls.preparedPast calls.nodeRoom
  rw [← calls.supplied_eq] at nodes
  have range := nodes.bump_lines (fits.lines c.sizeofRangeNode (by simp)) calls.rangeRoom
  simp only [calls.new, calls.arena, calls.nodes, calls.range]
  rw [← calls.last_eq]
  rw [List.append_nil] at range
  exact range

/-- The metadata of a new pool is in the head of its region. -/
theorem MetadataArea.created {addr size : Nat} {mem : Nat → UInt8} {zeroed locksFail : Bool}
    (fits : c.Fits) (region : Region c addr size)
    (created : poolCreateEmpty c mem addr size zeroed locksFail = some p) :
    MetadataArea p.heads p (poolCreateBlocks c mem addr size) := by
  obtain ⟨next, past⟩ := poolBlank_region region.below (region.header fits).1 mem
  obtain ⟨_, endUpper⟩ := metadataEnd_bounds fits region
  obtain ⟨_, inside⟩ := usable_spec fits region
  have lower := inside.lower
  have upper := inside.upper
  have below := region.below
  have usableLower : metadataEnd c addr size ≤ usableAddr c addr size :=
    Word.le_ceil c.chunksize_pos (by omega)
  have carved := MetadataArea.carved fits region mem
  have ends : (poolBlank c mem addr size).baseNextAddr + metadataBytes c size ≤
      usableAddr c addr size := by
    rw [next]
    exact usableLower
  have cut := carved.truncate past ends
    (show usableAddr c addr size ≤ addr + size by omega)
  rw [poolCreateEmpty_registers fits region created]
  exact cut.register

/-! ## Extension -/

section Extend

variable {addr size length : Nat} {zeroed : Bool} {p' : Pool} {nodes : List Nat}
  {blocks : List Span}

/-- The end of `je_pool_extend` registers the region with its head. -/
theorem MetadataArea.finish {start : Nat}
    (area : MetadataArea (⟨addr, c.chunkCeiling start - addr⟩ :: p.heads) p blocks)
    (result : poolExtendFinish c p addr size start zeroed = some (p', length)) :
    MetadataArea p'.heads p' blocks := by
  unfold poolExtendFinish at result
  dsimp only at result
  split at result
  · cases result
  · obtain ⟨rfl, -⟩ := Prod.mk.inj (Option.some.inj result)
    exact area.register

/-- Before that the fallback cuts the base region off at the next chunk. -/
theorem MetadataArea.cutOff {q : Pool} (area : MetadataArea (⟨addr, size⟩ :: p.heads) q blocks)
    (heads : q.heads = p.heads) (past : q.basePastAddr = addr + size)
    (room : q.baseNextAddr + 2 * c.chunksize ≤ addr + size) (below : addr + size < Word.modulus)
    (result : poolExtendFinish c { q with basePastAddr := c.chunkCeiling q.baseNextAddr } addr size
      (c.chunkCeiling q.baseNextAddr) zeroed = some (p', length)) :
    MetadataArea p'.heads p' blocks := by
  have positive := c.chunksize_pos
  have lower : q.baseNextAddr ≤ c.chunkCeiling q.baseNextAddr := Word.le_ceil positive (by omega)
  have upper : c.chunkCeiling q.baseNextAddr < q.baseNextAddr + c.chunksize :=
    Word.ceil_lt_add positive (by omega)
  have cut := area.truncate past lower (by omega)
  refine MetadataArea.finish ?_ result
  rw [chunkCeiling_idem (show q.baseNextAddr + 2 * c.chunksize < Word.modulus by omega)]
  change MetadataArea (_ :: q.heads) _ _
  rw [heads]
  exact cut

/-- In the fallback the metadata is in the head of the new region. -/
theorem MetadataArea.fallback {missing : Nat} {node : Option Nat} (fits : c.Fits)
    (region : Region c addr size) (atMost : missing ≤ size / c.chunksize)
    (area : MetadataArea p.heads p blocks)
    (result : poolExtendFallback c p missing node addr size zeroed = some (p', length)) :
    MetadataArea p'.heads p' (poolExtendFallbackBlocks c p missing node addr size ++ blocks) := by
  obtain ⟨lower, room⟩ := fallback_room fits region atMost
  have below := region.below
  have ends : Word.add addr size = addr + size := Word.add_eq below
  have nodeLines := fits.lines c.sizeofExtentNode (by simp)
  have rangeLines := fits.lines c.sizeofRangeNode (by simp)
  unfold poolExtendFallback at result
  unfold poolExtendFallbackBlocks
  dsimp only at result ⊢
  rw [ends] at result ⊢
  have begins : MetadataArea (⟨addr, size⟩ :: p.heads)
      { p with baseNextAddr := cachelineCeiling addr, basePastAddr := addr + size } blocks :=
    area.move (Word.dvd_ceil addr cacheline) lower (by omega)
  generalize moved_eq : ({ p with
    baseNextAddr := cachelineCeiling addr
    basePastAddr := addr + size } : Pool) = moved at result begins ⊢
  have next : moved.baseNextAddr = cachelineCeiling addr := by rw [← moved_eq]
  have past : moved.basePastAddr = addr + size := by rw [← moved_eq]
  have pastLt : moved.basePastAddr < Word.modulus := by omega
  have nodeRoom : moved.baseNextAddr + missing * cachelineCeiling c.sizeofExtentNode ≤
      moved.basePastAddr := by omega
  have supplied := begins.prealloc_of_room nodeLines missing pastLt nodeRoom
  rw [baseNodePrealloc_of_room missing pastLt nodeRoom] at result ⊢
  dsimp only at result ⊢
  generalize carved_eq : (moved.advance
    (missing * cachelineCeiling c.sizeofExtentNode)).addNodes missing = carved
      at result supplied ⊢
  have carvedNext : carved.baseNextAddr =
      moved.baseNextAddr + missing * cachelineCeiling c.sizeofExtentNode := by
    rw [← carved_eq]
    rfl
  have carvedPast : carved.basePastAddr = addr + size := by
    rw [← carved_eq]
    exact past
  have carvedHeads : carved.heads = p.heads := by
    rw [← carved_eq, ← moved_eq]
    rfl
  cases node with
  | some node => exact supplied.cutOff carvedHeads carvedPast (by omega) below result
  | none =>
      have rangeRoom : carved.baseNextAddr + cachelineCeiling c.sizeofRangeNode ≤
          carved.basePastAddr := by omega
      have allocated := baseAlloc_of_room (c := c) (p := carved) (by omega) rangeRoom
      simp only [Option.isNone_none, ↓reduceIte, allocated] at result ⊢
      have last := supplied.bump_lines rangeLines rangeRoom
      refine last.cutOff carvedHeads carvedPast ?_ below result
      rw [Pool.advance_next]
      omega

/-- Extending a pool keeps the metadata in its place. -/
theorem MetadataArea.extend (fits : c.Fits) (area : MetadataArea p.heads p blocks)
    (trees : FreeTrees c p) (numbered : NodesNumbered p nodes) (base : BaseRegion c p)
    (nonnull : 0 < addr) (below : addr + size < Word.modulus)
    (result : poolExtend c p addr size zeroed = some (p', length)) :
    MetadataArea p'.heads p' (poolExtendBlocks c p addr size ++ blocks) := by
  unfold poolExtend at result
  unfold poolExtendBlocks
  by_cases small : size < c.poolMinimalSize
  · rw [if_pos small] at result ⊢
    obtain ⟨rfl, -⟩ := Prod.mk.inj (Option.some.inj result)
    exact area
  rw [if_neg small] at result ⊢
  have nodeLt : Word.up c.sizeofExtentNode cacheline < c.chunksize := fits.lines_lt (by simp)
  have rangeLt : Word.up c.sizeofRangeNode cacheline < c.chunksize := fits.lines_lt (by simp)
  have nodeRequest : BaseRequest c c.sizeofExtentNode := fits.baseRequest (by simp)
  have supplied := area.prealloc nodeLt trees numbered (size / c.chunksize) base
  have step := baseNodePrealloc_step nodeRequest (size / c.chunksize) trees numbered
  have region := base.baseNodePrealloc fits trees numbered (size / c.chunksize)
  have atMost := baseNodePrealloc_missing_le c p (size / c.chunksize)
  cases made : baseNodePrealloc c p (size / c.chunksize) with
  | mk q missing =>
      rw [made] at supplied step region atMost
      rw [made] at result
      have outcome := baseAlloc_outcome step.change.trees (numbered.change step.change).apart
        region.past_lt supplied.order (region.room rangeLt)
      have after := supplied.alloc outcome
      have both := step.trans (outcome.step step.change.trees)
      dsimp only at result ⊢
      cases allocated : baseAlloc c q c.sizeofRangeNode with
      | mk r node =>
          rw [allocated] at after both
          rw [allocated] at result
          have heads : p.heads = r.heads := by
            unfold Pool.heads
            rw [both.ranges]
          rw [heads] at after
          dsimp only at result after ⊢
          rw [List.append_assoc, List.append_assoc]
          by_cases moves : 0 < missing ∨ node = none
          · rw [if_pos moves] at result ⊢
            exact after.fallback fits ⟨nonnull, not_lt.mp small, below⟩ atMost result
          · rw [if_neg moves] at result ⊢
            exact (after.widen _).finish result

end Extend

/-! ## Whole runs -/

/-- A pool with its arenas, and the blocks that the base allocator has handed out. -/
structure BaseState where
  owner : OwnerState
  blocks : List Span

/-- What happens to a pool, its base allocator included. -/
inductive BaseOp
  | call (op : PoolOp)
  | baseAlloc (size : Nat)
  | baseNodePrealloc (number : Nat)

namespace BaseOp

/-- The blocks that an operation gets from the base allocator. -/
def blocks (c : Config) (p : Pool) : BaseOp → List Span
  | .call (.call (.baseAlloc size)) => baseBlock size (Jemalloc.baseAlloc c p size).2
  | .call (.extend addr size _) => poolExtendBlocks c p addr size
  | .call _ => []
  | .baseAlloc size => baseBlock size (Jemalloc.baseAlloc c p size).2
  | .baseNodePrealloc number => baseNodePreallocBlocks c p number

/-- The pool and its arenas after an operation. -/
def execOwner (c : Config) (s : OwnerState) : BaseOp → Option OwnerState
  | .call op => op.exec c s
  | .baseAlloc size => some { s with pool := (Jemalloc.baseAlloc c s.pool size).1 }
  | .baseNodePrealloc number =>
      some { s with pool := (Jemalloc.baseNodePrealloc c s.pool number).1 }

/-- Execute one operation. -/
def exec (c : Config) (s : BaseState) (op : BaseOp) : Option BaseState :=
  (op.execOwner c s.owner).map fun after => ⟨after, op.blocks c s.owner.pool ++ s.blocks⟩

/-- What callers may ask for. -/
def Permitted (s : BaseState) : BaseOp → Prop
  | .call op => op.Permitted s.owner
  | .baseAlloc size => size < Word.modulus
  | .baseNodePrealloc _ => True

/-- The sums of `base_alloc` for the size of a caller do not wrap. -/
def SumsFit (c : Config) (s : BaseState) : BaseOp → Prop
  | .call (.call (.baseAlloc size)) => BaseRoom c s.owner.pool size
  | .baseAlloc size => BaseRoom c s.owner.pool size
  | _ => True

theorem blocks_other {op : OwnerOp} (other : ∀ size, op ≠ .baseAlloc size) :
    blocks c p (.call (.call op)) = [] := by
  cases op with
  | baseAlloc size => exact absurd rfl (other size)
  | _ => rfl

end BaseOp

/-- Base allocations keep a pool settled. -/
theorem OwnerState.Settled.baseStep {s : OwnerState} {p' : Pool} (settled : s.Settled c)
    (step : BaseStep c s.pool p') (region : BaseRegion c p') :
    Settled c { s with pool := p' } where
  sound := settled.sound.change step.change step.ranges (step.coalesced settled.sound.coalesced)
    fun _ => rfl
  once := settled.once
  arena := settled.arena
  region := region

namespace BaseState

/-- What holds in every state: the accounts of the chunks are right, and the metadata is in
its area. -/
structure Sound (c : Config) (s : BaseState) : Prop where
  settled : s.owner.Settled c
  area : MetadataArea s.owner.pool.heads s.owner.pool s.blocks

namespace Sound

variable {s s' : BaseState}

/-- A call of `base_alloc` whose sums do not wrap. -/
theorem baseAlloc {size : Nat} (sound : s.Sound c) (room : BaseRoom c s.owner.pool size) :
    Sound c ⟨{ s.owner with pool := (Jemalloc.baseAlloc c s.owner.pool size).1 },
      baseBlock size (Jemalloc.baseAlloc c s.owner.pool size).2 ++ s.blocks⟩ := by
  have ledger := sound.settled.sound.ledger
  have region := sound.settled.region
  have outcome := baseAlloc_outcome ledger.trees ledger.apart region.past_lt sound.area.order room
  have step := outcome.step ledger.trees
  refine ⟨sound.settled.baseStep step (outcome.region region), ?_⟩
  have heads : Pool.heads (Jemalloc.baseAlloc c s.owner.pool size).1 = s.owner.pool.heads :=
    congrArg (List.map MemoryRange.metadata) step.ranges
  dsimp only
  rw [heads]
  exact sound.area.alloc outcome

theorem baseNodePrealloc (fits : c.Fits) (sound : s.Sound c) (number : Nat) :
    Sound c ⟨{ s.owner with pool := (Jemalloc.baseNodePrealloc c s.owner.pool number).1 },
      baseNodePreallocBlocks c s.owner.pool number ++ s.blocks⟩ := by
  have ledger := sound.settled.sound.ledger
  have region := sound.settled.region
  have request : BaseRequest c c.sizeofExtentNode := fits.baseRequest (by simp)
  have step := baseNodePrealloc_step request number ledger.trees ledger.numbered
  refine ⟨sound.settled.baseStep step
    (region.baseNodePrealloc fits ledger.trees ledger.numbered number), ?_⟩
  have heads : Pool.heads (Jemalloc.baseNodePrealloc c s.owner.pool number).1 =
      s.owner.pool.heads := congrArg (List.map MemoryRange.metadata) step.ranges
  dsimp only
  rw [heads]
  exact sound.area.prealloc (fits.lines_lt (by simp)) ledger.trees ledger.numbered number region

/-- A call of an arena or on a huge block. -/
theorem call {op : OwnerOp} {after : OwnerState} (sound : s.Sound c)
    (room : BaseOp.SumsFit c s (.call (.call op))) (result : s.owner.exec c op = some after) :
    Sound c ⟨after, BaseOp.blocks c s.owner.pool (.call (.call op)) ++ s.blocks⟩ := by
  by_cases base : ∃ size, op = .baseAlloc size
  · obtain ⟨size, rfl⟩ := base
    simp only [OwnerState.exec, OwnerState.execIn, Option.ite_none_right_eq_some,
      Option.some.injEq] at result
    obtain ⟨_, rfl⟩ := result
    exact sound.baseAlloc room
  · have other : ∀ size, op ≠ .baseAlloc size := fun size same => base ⟨size, same⟩
    have same := OwnerState.exec_metadata other result
    refine ⟨sound.settled.call result, ?_⟩
    have heads : after.pool.heads = s.owner.pool.heads :=
      congrArg (List.map MemoryRange.metadata) same.ranges
    dsimp only
    rw [BaseOp.blocks_other other, List.nil_append, heads]
    exact sound.area.of_eq same.next same.past same.chunks

/-- Every operation keeps a state sound. -/
theorem exec {op : BaseOp} (fits : c.Fits) (sound : s.Sound c) (allowed : op.Permitted s)
    (room : op.SumsFit c s) (result : op.exec c s = some s') : s'.Sound c := by
  obtain ⟨after, owner, rfl⟩ := Option.map_eq_some_iff.mp result
  cases op with
  | baseAlloc size =>
      cases owner
      exact sound.baseAlloc room
  | baseNodePrealloc number =>
      cases owner
      exact sound.baseNodePrealloc fits number
  | call op =>
      cases op with
      | call op => exact sound.call room owner
      | extend addr size zeroed =>
          have permitted : PoolOp.Permitted s.owner (.extend addr size zeroed) := allowed
          refine ⟨sound.settled.exec fits permitted owner, ?_⟩
          unfold BaseOp.execOwner PoolOp.exec at owner
          dsimp only at owner
          cases extended : poolExtend c s.owner.pool addr size zeroed with
          | none =>
              rw [extended] at owner
              cases owner
          | some result =>
              rw [extended] at owner
              cases owner
              obtain ⟨nonnull, below, _⟩ := allowed
              exact sound.area.extend fits sound.settled.sound.ledger.trees
                sound.settled.sound.ledger.numbered sound.settled.region nonnull below extended
      | write x byte =>
          have permitted : PoolOp.Permitted s.owner (.write x byte) := allowed
          refine ⟨sound.settled.exec fits permitted owner, ?_⟩
          cases owner
          exact sound.area.of_eq rfl rfl rfl

end Sound

end BaseState

/-! ## Metadata and chunks -/

/-- The head of a region and its chunks are different parts of it. -/
theorem RangeValid.ind_add_le {range : MemoryRange} (valid : RangeValid c range) (x : Nat) :
    range.metadata.ind x + range.usable.ind x ≤ range.whole.ind x := by
  have lower := valid.lower
  have nonempty := valid.nonempty
  have upper := valid.upper
  have head := Span.ind_spec range.metadata x
  have chunks := Span.ind_spec range.usable x
  have whole := Span.ind_spec range.whole x
  unfold MemoryRange.metadata at head ⊢
  unfold MemoryRange.usable at chunks ⊢
  unfold MemoryRange.whole at whole ⊢
  dsimp only at head chunks whole
  omega

namespace RangesValid

variable {ranges : List MemoryRange}

theorem cover_add_le (valid : RangesValid c ranges) (x : Nat) :
    cover (ranges.map MemoryRange.metadata) x + cover (ranges.map MemoryRange.usable) x ≤
      cover (ranges.map MemoryRange.whole) x := by
  have each := valid.valid
  clear valid
  induction ranges with
  | nil => exact le_rfl
  | cons range ranges inductionHypothesis =>
      have first := (each range List.mem_cons_self).ind_add_le x
      have rest := inductionHypothesis fun other member =>
        each other (List.mem_cons_of_mem range member)
      simp only [List.map_cons, cover_cons]
      omega

theorem cover_whole_le_one (valid : RangesValid c ranges) (x : Nat) :
    cover (ranges.map MemoryRange.whole) x ≤ 1 :=
  valid.cover_part_le_one (fun _ _ => ⟨le_rfl, le_rfl⟩) x

end RangesValid

/-- The blocks of the base allocator are apart from one another and from all that holds user
memory. -/
structure BaseApart (s : BaseState) : Prop where
  aligned : ∀ block ∈ s.blocks, cacheline ∣ block.lo
  disjoint : s.blocks.Pairwise Span.Disjoint
  /-- A block may reach from a region into the one behind it. -/
  registered : ∀ block ∈ s.blocks, ∀ x, block.Has x →
    ∃ range ∈ s.owner.pool.memoryRanges, range.whole.Has x
  free : ∀ block ∈ s.blocks, ∀ extent ∈ s.owner.pool.freeSpans, block.Disjoint extent
  huge : ∀ block ∈ s.blocks, ∀ extent ∈ s.owner.pool.hugeSpans, block.Disjoint extent
  arena : ∀ block ∈ s.blocks, ∀ chunk ∈ s.owner.arena, block.Disjoint chunk
  order : s.owner.pool.baseNextAddr ≤ s.owner.pool.basePastAddr

namespace BaseState.Sound

variable {s : BaseState}

/-- What the blocks and the users of chunks cover is in a region, once. -/
theorem cover_le (sound : s.Sound c) (x : Nat) :
    cover s.blocks x + cover s.owner.pool.freeSpans x + cover s.owner.pool.hugeSpans x +
      cover s.owner.arena x ≤ cover (s.owner.pool.memoryRanges.map MemoryRange.whole) x := by
  have area := sound.area.covers x
  have ledger := sound.settled.accounted.ledger.covers x
  have parts := sound.settled.sound.ranges.cover_add_le x
  unfold OwnerState.lending ChunkState.usable at *
  unfold Pool.heads at area
  dsimp only at ledger parts
  omega

theorem apart (sound : s.Sound c) : BaseApart s := by
  have once : ∀ x, cover s.blocks x + cover s.owner.pool.freeSpans x +
      cover s.owner.pool.hugeSpans x + cover s.owner.arena x ≤ 1 :=
    fun x => (sound.cover_le x).trans (sound.settled.sound.ranges.cover_whole_le_one x)
  exact {
    aligned := sound.area.aligned
    disjoint := pairwise_disjoint_of_cover fun x => by have := once x; omega
    registered := by
      intro block member x inside
      have counted := ind_le_cover member x
      have within := sound.cover_le x
      rw [Span.ind_eq_one_iff.mpr inside] at counted
      have covered : 0 < cover (s.owner.pool.memoryRanges.map MemoryRange.whole) x := by omega
      obtain ⟨span, inRanges, has⟩ := exists_has_of_cover_pos covered
      obtain ⟨range, inList, rfl⟩ := List.mem_map.mp inRanges
      exact ⟨range, inList, has⟩
    free := fun block member extent other => disjoint_of_cover member other fun x covered => by
      have := once x
      omega
    huge := fun block member extent other => disjoint_of_cover member other fun x covered => by
      have := once x
      omega
    arena := fun block member chunk other => disjoint_of_cover member other fun x covered => by
      have := once x
      omega
    order := sound.area.order }

/-- A new pool is sound, with the blocks of its creation. -/
theorem start {addr size : Nat} {mem : Nat → UInt8} {zeroed locksFail : Bool} (fits : c.Fits)
    (region : Region c addr size)
    (created : poolCreateEmpty c mem addr size zeroed locksFail = some p) :
    Sound c ⟨⟨p, []⟩, poolCreateBlocks c mem addr size⟩ where
  settled := OwnerState.Settled.start fits region created
  area := MetadataArea.created fits region created

end BaseState.Sound

/-- As long as the sums of `base_alloc` for the sizes of its callers do not wrap, metadata
never overlaps user memory. -/
theorem base_blocks_apart {addr size : Nat} {mem : Nat → UInt8} {zeroed locksFail : Bool}
    {s : BaseState} (fits : c.Fits) (region : Region c addr size)
    (created : poolCreateEmpty c mem addr size zeroed locksFail = some p)
    (reached : Reached (fun s op => BaseOp.Permitted s op ∧ BaseOp.SumsFit c s op)
      (BaseOp.exec c) ⟨⟨p, []⟩, poolCreateBlocks c mem addr size⟩ s) : BaseApart s := by
  have starts := BaseState.Sound.start fits region created
  have sound : s.Sound c := reached.invariant (BaseState.Sound c) starts
    fun _ _ _ before allowed result => before.exec fits allowed.1 allowed.2 result
  exact sound.apart

/-- A block in a pool of two chunks. -/
theorem base_blocks_apart_hundred :
    ∃ p s, poolCreateEmpty defaultConfig (fun _ => 0) 4194304 16777216 true false = some p ∧
      BaseOp.exec defaultConfig
        ⟨⟨p, []⟩, poolCreateBlocks defaultConfig (fun _ => 0) 4194304 16777216⟩
        (.baseAlloc 100) = some s ∧
      s.blocks.head? = some ⟨4209472, 128⟩ ∧ BaseApart s := by
  have outcome : ((poolCreateEmpty defaultConfig (fun _ => 0) 4194304 16777216 true
      false).bind fun p => (BaseOp.exec defaultConfig
        ⟨⟨p, []⟩, poolCreateBlocks defaultConfig (fun _ => 0) 4194304 16777216⟩
        (.baseAlloc 100)).map fun s => (p.baseNextAddr, p.basePastAddr, s.blocks.head?)) =
      some (4209472, 8388608, some ⟨4209472, 128⟩) := by
    decide +kernel
  obtain ⟨p, created, ran⟩ := Option.bind_eq_some_iff.mp outcome
  obtain ⟨s, result, values⟩ := Option.map_eq_some_iff.mp ran
  have next : p.baseNextAddr = 4209472 := congrArg Prod.fst values
  have past : p.basePastAddr = 8388608 := congrArg (fun value => value.2.1) values
  have region : Region defaultConfig 4194304 16777216 :=
    ⟨by decide +kernel, by decide +kernel, by decide +kernel⟩
  have lines : Word.up 100 cacheline = 128 := by decide +kernel
  have room : BaseRoom defaultConfig p 100 := by
    refine ⟨?_, fun full => ?_⟩
    · rw [next, lines]
      decide
    · rw [next, past, lines] at full
      omega
  refine ⟨p, s, created, result, congrArg (fun value => value.2.2) values, ?_⟩
  have size : 100 < Word.modulus := by decide
  refine base_blocks_apart defaultConfig_fits region created (Reached.start.next ?_ result)
  exact ⟨size, room⟩

/-- A pool at the end of the address space: the end of a block as large as the pool wraps, and
the block is returned although it reaches over the free memory and out of the pool. -/
theorem base_blocks_apart_fails :
    ∃ p s, poolCreateEmpty defaultConfig (fun _ => 0) 18446744073692770304 16777216 true false =
        some p ∧
      Region defaultConfig 18446744073692770304 16777216 ∧
      BaseOp.exec defaultConfig
        ⟨⟨p, []⟩, poolCreateBlocks defaultConfig (fun _ => 0) 18446744073692770304 16777216⟩
        (.baseAlloc 16777216) = some s ∧
      s.blocks.head? = some ⟨18446744073692785472, 16777216⟩ ∧
      s.owner.pool.freeSpans = [⟨18446744073696968704, 8388608⟩] ∧ ¬BaseApart s := by
  have outcome : ((poolCreateEmpty defaultConfig (fun _ => 0) 18446744073692770304 16777216 true
      false).bind fun p => (BaseOp.exec defaultConfig
        ⟨⟨p, []⟩, poolCreateBlocks defaultConfig (fun _ => 0) 18446744073692770304 16777216⟩
        (.baseAlloc 16777216)).map fun s => (s.blocks.head?, s.owner.pool.freeSpans)) =
      some (some ⟨18446744073692785472, 16777216⟩, [⟨18446744073696968704, 8388608⟩]) := by
    decide +kernel
  obtain ⟨p, created, ran⟩ := Option.bind_eq_some_iff.mp outcome
  obtain ⟨s, result, values⟩ := Option.map_eq_some_iff.mp ran
  have first : s.blocks.head? = some ⟨18446744073692785472, 16777216⟩ := congrArg Prod.fst values
  have free : s.owner.pool.freeSpans = [⟨18446744073696968704, 8388608⟩] :=
    congrArg Prod.snd values
  have region : Region defaultConfig 18446744073692770304 16777216 :=
    ⟨by decide +kernel, by decide +kernel, by decide +kernel⟩
  refine ⟨p, s, created, region, result, first, free, fun apart => ?_⟩
  have disjoint := apart.free _ (List.mem_of_head? first) ⟨18446744073696968704, 8388608⟩
    (by rw [free]; exact List.mem_singleton_self _)
  exact disjoint 18446744073696968704 (by decide) (by decide)

end Jemalloc
end Vmem
