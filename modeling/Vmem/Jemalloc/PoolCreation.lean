import Vmem.Jemalloc.BaseSections

/-!
# Creating and extending a pool

While the base allocator has room, its calls only move a pointer; this gives the
usable range of a new pool in closed form.  Both creation and extension end by
recording a nonempty, chunk aligned range inside the region they were given.
-/

namespace Vmem
namespace Jemalloc

variable {c : Config} {p : Pool}

/-! ## The base allocator while it has room -/

/-- The pool after `bytes` more bytes of its base region are used. -/
def Pool.advance (p : Pool) (bytes : Nat) : Pool :=
  { p with baseNextAddr := p.baseNextAddr + bytes }

/-- The pool after `number` more extent nodes are made. -/
def Pool.addNodes (p : Pool) (number : Nat) : Pool :=
  { p with
    nodeCount := p.nodeCount + number
    baseNodes := (List.range' p.nodeCount number).reverse ++ p.baseNodes }

@[simp] theorem Pool.advance_next (p : Pool) (bytes : Nat) :
    (p.advance bytes).baseNextAddr = p.baseNextAddr + bytes := rfl

@[simp] theorem Pool.advance_past (p : Pool) (bytes : Nat) :
    (p.advance bytes).basePastAddr = p.basePastAddr := rfl

@[simp] theorem Pool.addNodes_next (p : Pool) (number : Nat) :
    (p.addNodes number).baseNextAddr = p.baseNextAddr := rfl

@[simp] theorem Pool.addNodes_past (p : Pool) (number : Nat) :
    (p.addNodes number).basePastAddr = p.basePastAddr := rfl

theorem Pool.advance_advance (p : Pool) (first second : Nat) :
    (p.advance first).advance second = p.advance (first + second) := by
  unfold advance
  dsimp only
  rw [Nat.add_assoc]

theorem Pool.addNodes_advance (p : Pool) (number bytes : Nat) :
    (p.addNodes number).advance bytes = (p.advance bytes).addNodes number := rfl

theorem Pool.addNodes_one (p : Pool) :
    p.addNodes 1 = { p with
      nodeCount := p.nodeCount + 1
      baseNodes := p.nodeCount :: p.baseNodes } := rfl

theorem Pool.addNodes_addNodes (p : Pool) (first second : Nat) :
    (p.addNodes first).addNodes second = p.addNodes (first + second) := by
  unfold addNodes
  dsimp only
  rw [← List.range'_append_1, List.reverse_append, List.append_assoc, Nat.add_assoc]

theorem baseAlloc_of_room {size : Nat} (past : p.basePastAddr < Word.modulus)
    (room : p.baseNextAddr + cachelineCeiling size ≤ p.basePastAddr) :
    baseAlloc c p size = (p.advance (cachelineCeiling size), some p.baseNextAddr) := by
  have next : Word.add p.baseNextAddr (cachelineCeiling size) =
      p.baseNextAddr + cachelineCeiling size := Word.add_eq (by omega)
  have enough : ¬p.baseNextAddr + cachelineCeiling size > p.basePastAddr := by omega
  simp only [baseAlloc, baseBump, next, if_neg enough, Pool.advance]

theorem baseAllocAll_of_room (sizes : List Nat) (past : p.basePastAddr < Word.modulus)
    (room : p.baseNextAddr + (sizes.map cachelineCeiling).sum ≤ p.basePastAddr) :
    baseAllocAll c p sizes = (p.advance (sizes.map cachelineCeiling).sum, true) := by
  induction sizes generalizing p with
  | nil => rfl
  | cons size sizes inductionHypothesis =>
      rw [List.map_cons, List.sum_cons] at room ⊢
      have enough : (p.advance (cachelineCeiling size)).baseNextAddr +
          (sizes.map cachelineCeiling).sum ≤ p.basePastAddr := by
        rw [Pool.advance_next]
        omega
      have rest := inductionHypothesis (p := p.advance (cachelineCeiling size)) past enough
      have first := baseAlloc_of_room (c := c) past
        (show p.baseNextAddr + cachelineCeiling size ≤ p.basePastAddr by omega)
      simp only [baseAllocAll, first, rest, Pool.advance_advance]

theorem baseNodePrealloc_of_room (number : Nat) (past : p.basePastAddr < Word.modulus)
    (room : p.baseNextAddr + number * cachelineCeiling c.sizeofExtentNode ≤
      p.basePastAddr) :
    baseNodePrealloc c p number =
      ((p.advance (number * cachelineCeiling c.sizeofExtentNode)).addNodes number, 0) := by
  induction number generalizing p with
  | zero =>
      rw [Nat.zero_mul]
      rfl
  | succ number inductionHypothesis =>
      have split : (number + 1) * cachelineCeiling c.sizeofExtentNode =
          cachelineCeiling c.sizeofExtentNode +
            number * cachelineCeiling c.sizeofExtentNode := by
        rw [Nat.add_mul, Nat.one_mul, Nat.add_comm]
      rw [split] at room ⊢
      have enough : ((p.advance (cachelineCeiling c.sizeofExtentNode)).addNodes
          1).baseNextAddr + number * cachelineCeiling c.sizeofExtentNode ≤
            p.basePastAddr := by
        rw [Pool.addNodes_next, Pool.advance_next]
        omega
      have rest := inductionHypothesis
        (p := (p.advance (cachelineCeiling c.sizeofExtentNode)).addNodes 1) past enough
      have first := baseAlloc_of_room (c := c) past
        (show p.baseNextAddr + cachelineCeiling c.sizeofExtentNode ≤ p.basePastAddr by omega)
      rw [Pool.addNodes_advance, Pool.addNodes_addNodes, Pool.advance_advance, Nat.add_comm 1,
        Pool.addNodes_one] at rest
      simp only [baseNodePrealloc, first, rest]

/-! ## The usable range of a region -/

/-- Memory that can be made into a pool or added to one. -/
structure Region (c : Config) (addr size : Nat) : Prop where
  nonnull : 0 < addr
  minimal : c.poolMinimalSize ≤ size
  below : addr + size < Word.modulus

/-- A range `[usable, usable + length)` of whole chunks inside a region. -/
structure UsableIn (c : Config) (addr size usable length : Nat) : Prop where
  nonempty : 0 < length
  length_dvd : c.chunksize ∣ length
  usable_dvd : c.chunksize ∣ usable
  lower : addr ≤ usable
  upper : usable + length ≤ addr + size

/-- Rounding up a start that leaves two chunks free gives a usable range. -/
theorem usableSizeOf_spec {addr size start : Nat} (region : Region c addr size)
    (lower : addr ≤ start) (room : start + 2 * c.chunksize ≤ addr + size) :
    usableSizeOf c addr size (c.chunkCeiling start) =
        c.chunkFloor (addr + size - c.chunkCeiling start) ∧
      UsableIn c addr size (c.chunkCeiling start)
        (c.chunkFloor (addr + size - c.chunkCeiling start)) := by
  have below := region.below
  have positive := c.chunksize_pos
  have ceilLower := Word.le_ceil (a := start) positive (by omega)
  have ceilUpper := Word.ceil_lt_add (a := start) positive (by omega)
  have aligned := c.dvd_chunkCeiling start
  unfold Config.chunkCeiling at aligned
  unfold usableSizeOf Config.chunkCeiling
  generalize Word.ceil start c.chunksize = usable at *
  have offset : Word.sub usable addr = usable - addr := Word.sub_eq (by omega) (by omega)
  have rest : Word.sub size (usable - addr) = size - (usable - addr) :=
    Word.sub_eq (by omega) (by omega)
  have same : size - (usable - addr) = addr + size - usable := by omega
  rw [offset, rest, same]
  refine ⟨rfl, ?_⟩
  have floorLe := Word.floor_le (addr + size - usable) c.chunksize
  have floorLower := Word.lt_floor_add (addr + size - usable) positive
  unfold Config.chunkFloor
  exact {
    nonempty := by omega
    length_dvd := Word.dvd_floor _ _
    usable_dvd := aligned
    lower := by omega
    upper := by omega }

theorem UsableIn.within {addr size usable length : Nat}
    (inside : UsableIn c addr size usable length) :
    (Span.mk usable length).Within ⟨addr, size⟩ := ⟨inside.lower, inside.upper⟩

theorem UsableIn.has {addr size usable length x : Nat}
    (inside : UsableIn c addr size usable length) (has : (Span.mk usable length).Has x) :
    (Span.mk addr size).Has x := by
  have lower := inside.lower
  have upper := inside.upper
  rw [Span.has_mk] at has ⊢
  omega

/-- The memory range node of a region. -/
def rangeOf (addr size usable length : Nat) : MemoryRange where
  addr := addr
  addrEnd := addr + size
  usableAddr := usable
  usableAddrEnd := usable + length

/-- What registering a usable range does to a pool. -/
structure Registered (c : Config) (p p' : Pool) (addr size usable length : Nat)
    (zeroed : Bool) : Prop where
  change : PoolChange c p p' [⟨usable, length⟩] []
  nodeCount : p'.nodeCount = p.nodeCount
  baseChunks : p'.baseChunks = p.baseChunks
  kept : p.baseNodes ≠ [] → p'.leaked = p.leaked
  ranges : p'.memoryRanges = rangeOf addr size usable length :: p.memoryRanges
  coalesced : Coalesced p → Coalesced p'
  flags : ZeroedSound p →
    (zeroed = true → ∀ x, (Span.mk usable length).Has x → p.mem x = 0) → ZeroedSound p'

theorem Registered.cover_free_eq {p' : Pool} {addr size usable length : Nat} {zeroed : Bool}
    (registered : Registered c p p' addr size usable length zeroed)
    (kept : p'.leaked = p.leaked) (x : Nat) :
    cover p'.freeSpans x = cover p.freeSpans x + cover [⟨usable, length⟩] x := by
  obtain ⟨extra, handed, leaked, chunks, covers⟩ := registered.change.dropped
  have noExtra : extra = [] := List.self_eq_append_left.mp (kept ▸ leaked)
  have noHanded : handed = [] :=
    List.self_eq_append_left.mp (registered.baseChunks ▸ chunks)
  have := covers x
  rw [noExtra, noHanded, cover_nil] at this
  omega

/-- The list of memory ranges plays no part in a change. -/
theorem PoolChange.of_ranges {q p' : Pool} {gain loss : List Span} {ranges : List MemoryRange}
    (same : q = { p with memoryRanges := ranges }) (change : PoolSection c q p' gain loss) :
    PoolChange c p p' gain loss := by
  subst same
  have changed := PoolChange.of_section change
  exact {
    trees := changed.trees
    created := changed.created
    dropped := changed.dropped
    heap := changed.heap
    mem := changed.mem
    huge := changed.huge }

theorem registerRange_registered {addr size usable length : Nat}
    (trees : FreeTrees c p) (apart : NodesApart p) (region : Region c addr size)
    (inside : UsableIn c addr size usable length)
    (free : ∀ x, (Span.mk usable length).Has x → cover p.freeSpans x = 0)
    (zeroed : Bool) :
    Registered c p (registerRange c p addr size usable length zeroed)
      addr size usable length zeroed := by
  have upper := inside.upper
  have below := region.below
  have ends : Word.add addr size = addr + size := Word.add_eq below
  have usableEnds : Word.add usable length = usable + length := Word.add_eq (by omega)
  unfold registerRange
  rw [ends, usableEnds]
  dsimp only
  generalize q_eq : { p with memoryRanges :=
    ({ addr := addr, addrEnd := addr + size, usableAddr := usable,
       usableAddrEnd := usable + length } : MemoryRange) :: p.memoryRanges } = q
  have trees' : FreeTrees c q := by
    rw [← q_eq]
    exact trees.of_edit rfl rfl fun _ _ => rfl
  have apart' : NodesApart q := by
    rw [← q_eq]
    exact apart
  have free' : ∀ x, (Span.mk usable length).Has x → cover q.freeSpans x = 0 := by
    rw [← q_eq]
    exact free
  have range := Recordable.of_cover trees' inside.nonempty inside.length_dvd
    inside.usable_dvd (by omega) free'
  have recorded := chunkRecord_section zeroed trees' apart' range
  exact {
    change := PoolChange.of_ranges q_eq.symm recorded
    nodeCount := by rw [recorded.nodeCount, ← q_eq]
    baseChunks := by rw [recorded.baseChunks, ← q_eq]
    kept := by
      intro available
      rw [chunkRecord_leaked zeroed trees' apart' range (by rw [← q_eq]; exact available),
        ← q_eq]
    ranges := by
      rw [recorded.memoryRanges, ← q_eq]
      rfl
    coalesced := by
      intro before
      apply chunkRecord_coalesced zeroed trees' apart' range
      rw [← q_eq]
      exact before
    flags := by
      intro sound truthful
      apply chunkRecord_zeroed trees' apart' range
      · rw [← q_eq]
        exact truthful
      · rw [← q_eq]
        exact sound }

/-! ## Creation -/

/-- Bytes of metadata a new pool of the given size puts behind its header. -/
def metadataBytes (c : Config) (size : Nat) : Nat :=
  (c.poolNewAllocs.map cachelineCeiling).sum + (c.arenaAllocs.map cachelineCeiling).sum +
    size / c.chunksize * cachelineCeiling c.sizeofExtentNode +
    cachelineCeiling c.sizeofRangeNode

/-- First address behind the metadata of a new pool. -/
def metadataEnd (c : Config) (addr size : Nat) : Nat :=
  cachelineCeiling (addr + c.sizeofPool) + metadataBytes c size

/-- First usable address of a new pool. -/
def usableAddr (c : Config) (addr size : Nat) : Nat :=
  c.chunkCeiling (metadataEnd c addr size)

/-- Number of usable bytes of a new pool. -/
def usableSize (c : Config) (addr size : Nat) : Nat :=
  c.chunkFloor (addr + size - usableAddr c addr size)

/-- The metadata leaves two chunks of every region. -/
theorem metadataEnd_bounds {addr size : Nat} (fits : c.Fits) (region : Region c addr size) :
    addr ≤ metadataEnd c addr size ∧
      metadataEnd c addr size + 2 * c.chunksize ≤ addr + size := by
  have metadata := fits.metadata
  have below := region.below
  have minimal := region.minimal
  unfold Config.poolMinimalSize at minimal
  have headerLower := Word.le_ceil (a := addr + c.sizeofPool)
    (show 0 < cacheline by decide) (by unfold cacheline at *; omega)
  have headerUpper := Word.ceil_lt_add (a := addr + c.sizeofPool)
    (show 0 < cacheline by decide) (by unfold cacheline at *; omega)
  have whole := Nat.div_mul_le_self size c.chunksize
  -- beyond the third node, each further chunk of the region pays for its own node
  obtain ⟨further, chunks⟩ : ∃ further, size / c.chunksize = 3 + further :=
    Nat.exists_eq_add_of_le ((Nat.le_div_iff_mul_le c.chunksize_pos).mpr minimal)
  have nodes : further * cachelineCeiling c.sizeofExtentNode ≤ further * c.chunksize :=
    Nat.mul_le_mul_left further (by omega)
  unfold metadataEnd metadataBytes
  rw [chunks, Nat.add_mul] at whole ⊢
  unfold cachelineCeiling at *
  omega

theorem usable_spec {addr size : Nat} (fits : c.Fits) (region : Region c addr size) :
    usableSizeOf c addr size (usableAddr c addr size) = usableSize c addr size ∧
      UsableIn c addr size (usableAddr c addr size) (usableSize c addr size) := by
  obtain ⟨lower, upper⟩ := metadataEnd_bounds fits region
  exact usableSizeOf_spec region lower upper

/-- The pool between the requests of creation, where there is room for all of them. -/
structure CreationCalls (c : Config) (p : Pool) (size : Nat) (internal prepared supplied : Pool) :
    Prop where
  internal_eq : internal = p.advance (c.poolNewAllocs.map cachelineCeiling).sum
  prepared_eq : prepared = internal.advance (c.arenaAllocs.map cachelineCeiling).sum
  supplied_eq : supplied = (prepared.advance
    (size / c.chunksize * cachelineCeiling c.sizeofExtentNode)).addNodes (size / c.chunksize)
  past : p.basePastAddr < Word.modulus
  room : p.baseNextAddr + metadataBytes c size ≤ p.basePastAddr

namespace CreationCalls

variable {size : Nat} {internal prepared supplied : Pool}

theorem of_room (past : p.basePastAddr < Word.modulus)
    (room : p.baseNextAddr + metadataBytes c size ≤ p.basePastAddr) :
    ∃ internal prepared supplied, CreationCalls c p size internal prepared supplied :=
  ⟨_, _, _, rfl, rfl, rfl, past, room⟩

variable (calls : CreationCalls c p size internal prepared supplied)

include calls

theorem newRoom :
    p.baseNextAddr + (c.poolNewAllocs.map cachelineCeiling).sum ≤ p.basePastAddr := by
  have room := calls.room
  unfold metadataBytes at room
  omega

theorem internalPast : internal.basePastAddr < Word.modulus := calls.internal_eq ▸ calls.past

theorem arenaRoom : internal.baseNextAddr + (c.arenaAllocs.map cachelineCeiling).sum ≤
    internal.basePastAddr := by
  have room := calls.room
  unfold metadataBytes at room
  rw [calls.internal_eq, Pool.advance_next, Pool.advance_past]
  omega

theorem preparedPast : prepared.basePastAddr < Word.modulus :=
  calls.prepared_eq ▸ calls.internalPast

theorem nodeRoom : prepared.baseNextAddr +
    size / c.chunksize * cachelineCeiling c.sizeofExtentNode ≤ prepared.basePastAddr := by
  have room := calls.room
  unfold metadataBytes at room
  rw [calls.prepared_eq, calls.internal_eq]
  simp only [Pool.advance_next, Pool.advance_past]
  omega

theorem suppliedPast : supplied.basePastAddr < Word.modulus :=
  calls.supplied_eq ▸ calls.preparedPast

theorem rangeRoom :
    supplied.baseNextAddr + cachelineCeiling c.sizeofRangeNode ≤ supplied.basePastAddr := by
  have room := calls.room
  unfold metadataBytes at room
  rw [calls.supplied_eq, calls.prepared_eq, calls.internal_eq]
  simp only [Pool.addNodes_next, Pool.addNodes_past, Pool.advance_next, Pool.advance_past]
  omega

theorem new : baseAllocAll c p c.poolNewAllocs = (internal, true) := by
  rw [calls.internal_eq]
  exact baseAllocAll_of_room _ calls.past calls.newRoom

theorem arena : baseAllocAll c internal c.arenaAllocs = (prepared, true) := by
  rw [calls.prepared_eq]
  exact baseAllocAll_of_room _ calls.internalPast calls.arenaRoom

theorem nodes : baseNodePrealloc c prepared (size / c.chunksize) = (supplied, 0) := by
  rw [calls.supplied_eq]
  exact baseNodePrealloc_of_room _ calls.preparedPast calls.nodeRoom

theorem range : baseAlloc c supplied c.sizeofRangeNode =
    (supplied.advance (cachelineCeiling c.sizeofRangeNode), some supplied.baseNextAddr) :=
  baseAlloc_of_room calls.suppliedPast calls.rangeRoom

/-- Together they take the metadata. -/
theorem last_eq :
    supplied.advance (cachelineCeiling c.sizeofRangeNode) =
      (p.advance (metadataBytes c size)).addNodes (size / c.chunksize) := by
  rw [calls.supplied_eq, calls.prepared_eq, calls.internal_eq]
  simp only [Pool.addNodes_advance, Pool.advance_advance]
  rfl

end CreationCalls

/-- Where the base region of a new pool begins and ends. -/
theorem poolBlank_region {addr size : Nat} (below : addr + size < Word.modulus)
    (header : addr + c.sizeofPool < Word.modulus) (mem : Nat → UInt8) :
    (poolBlank c mem addr size).baseNextAddr = cachelineCeiling (addr + c.sizeofPool) ∧
      (poolBlank c mem addr size).basePastAddr = addr + size := by
  have headerSum : Word.add addr c.sizeofPool = addr + c.sizeofPool := Word.add_eq header
  have ends : Word.add addr size = addr + size := Word.add_eq below
  refine ⟨?_, ?_⟩
  · rw [← headerSum]
    rfl
  · rw [← ends]
    rfl

/-- A new pool just before its usable range is registered. -/
def metadataPool (c : Config) (mem : Nat → UInt8) (addr size : Nat) : Pool :=
  { ((poolBlank c mem addr size).advance (metadataBytes c size)).addNodes
      (size / c.chunksize) with
    basePastAddr := usableAddr c addr size }

/-- `pool_create_empty` succeeds where there is room for the metadata and a chunk. -/
theorem poolCreateEmpty_of_room {addr size : Nat} (below : addr + size < Word.modulus)
    (header : addr + c.sizeofPool < Word.modulus)
    (upper : metadataEnd c addr size ≤ addr + size)
    (nonempty : 0 < usableSizeOf c addr size (usableAddr c addr size))
    (mem : Nat → UInt8) (zeroed : Bool) :
    poolCreateEmpty c mem addr size zeroed false =
      some (registerRange c (metadataPool c mem addr size) addr size (usableAddr c addr size)
        (usableSizeOf c addr size (usableAddr c addr size)) zeroed) := by
  obtain ⟨next, past⟩ := poolBlank_region below header mem
  unfold metadataEnd at upper
  unfold metadataPool
  generalize start_eq : poolBlank c mem addr size = start at next past ⊢
  obtain ⟨internal, prepared, supplied, calls⟩ := CreationCalls.of_room (c := c) (p := start)
    (show start.basePastAddr < Word.modulus by omega)
    (show start.baseNextAddr + metadataBytes c size ≤ start.basePastAddr by omega)
  have ceiling : c.chunkCeiling (supplied.advance
      (cachelineCeiling c.sizeofRangeNode)).baseNextAddr = usableAddr c addr size := by
    rw [calls.last_eq, Pool.addNodes_next, Pool.advance_next, next]
    rfl
  simp only [poolCreateEmpty, poolNew, start_eq, calls.new, calls.arena, calls.nodes, calls.range,
    ceiling, Bool.false_eq_true, ↓reduceIte]
  rw [if_neg (by omega), calls.last_eq]

/-- `pool_create_empty` succeeds on every region and registers its usable range. -/
theorem poolCreateEmpty_eq {addr size : Nat} (fits : c.Fits) (region : Region c addr size)
    (mem : Nat → UInt8) (zeroed : Bool) :
    poolCreateEmpty c mem addr size zeroed false =
      some (registerRange c (metadataPool c mem addr size) addr size
        (usableAddr c addr size) (usableSize c addr size) zeroed) := by
  have minimal := region.minimal
  unfold Config.poolMinimalSize at minimal
  have below := region.below
  have metadata := fits.metadata
  obtain ⟨_, upper⟩ := metadataEnd_bounds fits region
  obtain ⟨sizeEq, usable⟩ := usable_spec fits region
  rw [← sizeEq]
  exact poolCreateEmpty_of_room region.below (by omega) (by omega)
    (sizeEq.symm ▸ usable.nonempty) mem zeroed

/-- What `pool_create_empty` returns, whether or not it was told of a failure. -/
theorem poolCreateEmpty_registers {addr size : Nat} {mem : Nat → UInt8}
    {zeroed locksFail : Bool} (fits : c.Fits) (region : Region c addr size)
    (created : poolCreateEmpty c mem addr size zeroed locksFail = some p) :
    p = registerRange c (metadataPool c mem addr size) addr size
      (usableAddr c addr size) (usableSize c addr size) zeroed := by
  have ready : locksFail = false := by
    by_contra fails
    rw [Bool.not_eq_false] at fails
    simp [poolCreateEmpty, poolNew, fails] at created
  rw [ready, poolCreateEmpty_eq fits region] at created
  exact (Option.some.inj created).symm

/-- A pool as `pool_create_empty` leaves it. -/
structure FreshPool (c : Config) (addr size : Nat) (p : Pool) : Prop where
  trees : FreeTrees c p
  coalesced : Coalesced p
  numbered : NodesNumbered p []
  nodeCount : p.nodeCount = size / c.chunksize
  free : ∀ x, cover p.freeSpans x = (Span.mk (usableAddr c addr size)
    (usableSize c addr size)).ind x
  huge : p.huge = []
  baseChunks : p.baseChunks = []
  leaked : p.leaked = []
  ranges : p.memoryRanges =
    [rangeOf addr size (usableAddr c addr size) (usableSize c addr size)]

theorem metadataPool_trees (c : Config) (mem : Nat → UInt8) (addr size : Nat) :
    FreeTrees c (metadataPool c mem addr size) where
  sortedAd := OrderedTree.Sorted.nil _
  sortedSzad := OrderedTree.Sorted.nil _
  same := List.Perm.refl _
  extent := fun _ member => absurd member List.not_mem_nil
  disjoint := fun _ member => absurd member List.not_mem_nil

theorem metadataPool_baseNodes (c : Config) (mem : Nat → UInt8) (addr size : Nat) :
    (metadataPool c mem addr size).baseNodes =
      (List.range' 0 (size / c.chunksize)).reverse := by
  change (List.range' 0 (size / c.chunksize)).reverse ++ [] = _
  rw [List.append_nil]

theorem metadataPool_nodeCount (c : Config) (mem : Nat → UInt8) (addr size : Nat) :
    (metadataPool c mem addr size).nodeCount = size / c.chunksize := Nat.zero_add _

theorem metadataPool_numbered (c : Config) (mem : Nat → UInt8) (addr size : Nat) :
    NodesNumbered (metadataPool c mem addr size) [] := by
  unfold NodesNumbered
  rw [metadataPool_baseNodes, metadataPool_nodeCount, List.append_nil,
    List.range_eq_range']
  exact List.reverse_perm _

/-- Every pool `pool_create_empty` returns is fresh, and its zeroed flag is
sound when the caller's was truthful. -/
theorem poolCreateEmpty_fresh {addr size : Nat} {mem : Nat → UInt8}
    {zeroed locksFail : Bool} (fits : c.Fits) (region : Region c addr size)
    (created : poolCreateEmpty c mem addr size zeroed locksFail = some p) :
    FreshPool c addr size p ∧
      ((zeroed = true → ∀ x, (Span.mk addr size).Has x → mem x = 0) → ZeroedSound p) := by
  have registers := poolCreateEmpty_registers fits region created
  subst registers
  obtain ⟨_, inside⟩ := usable_spec fits region
  have trees := metadataPool_trees c mem addr size
  have numbered := metadataPool_numbered c mem addr size
  have registered := registerRange_registered trees numbered.apart region inside
    (fun _ _ => rfl) zeroed
  have available : (metadataPool c mem addr size).baseNodes ≠ [] := by
    have minimal := (Nat.le_div_iff_mul_le c.chunksize_pos).mpr region.minimal
    rw [metadataPool_baseNodes]
    intro empty
    have := congrArg List.length empty
    rw [List.length_reverse, List.length_range', List.length_nil] at this
    omega
  have kept := registered.kept available
  refine ⟨{
    trees := registered.change.trees
    coalesced := registered.coalesced fun _ member => absurd member List.not_mem_nil
    numbered := numbered.change registered.change
    nodeCount := registered.nodeCount.trans (metadataPool_nodeCount c mem addr size)
    free := ?_
    huge := registered.change.huge
    baseChunks := registered.baseChunks
    leaked := kept
    ranges := registered.ranges }, ?_⟩
  · intro x
    have counted := registered.cover_free_eq kept x
    rw [cover_cons, cover_nil, Nat.add_zero] at counted
    exact counted.trans (Nat.zero_add _)
  · intro truthful
    apply registered.flags fun _ member => absurd member List.not_mem_nil
    intro marked x has
    exact truthful marked x (inside.has has)

/-! ## Extension -/

theorem Config.Fits.baseRequest (fits : c.Fits) {request : Nat}
    (member : request ∈
      c.sizeofExtentNode :: c.sizeofRangeNode :: (c.poolNewAllocs ++ c.arenaAllocs)) :
    BaseRequest c request := by
  obtain ⟨nonempty, small⟩ := fits.requests request member
  have := c.chunksize_le
  refine ⟨nonempty, ?_⟩
  rw [Word.modulus_eq]
  norm_num at this
  unfold cacheline
  omega

theorem baseNodePrealloc_missing_le (c : Config) (p : Pool) (number : Nat) :
    (baseNodePrealloc c p number).2 ≤ number := by
  induction number generalizing p with
  | zero => exact le_rfl
  | succ number inductionHypothesis =>
      unfold baseNodePrealloc
      cases result : baseAlloc c p c.sizeofExtentNode with
      | mk q ret =>
          cases ret with
          | none => exact le_rfl
          | some ret => exact Nat.le_succ_of_le (inductionHypothesis _)

theorem chunkCeiling_idem {start : Nat} (fits : start + 2 * c.chunksize < Word.modulus) :
    c.chunkCeiling (c.chunkCeiling start) = c.chunkCeiling start := by
  have positive := c.chunksize_pos
  have upper := Word.ceil_lt_add (a := start) positive (by omega)
  exact Word.ceil_eq_of_dvd (c.dvd_chunkCeiling start) (by
    unfold Config.chunkCeiling
    omega)

/-- What extending a pool by a region does to it. -/
structure Extended (c : Config) (p p' : Pool) (addr size usable length : Nat)
    (zeroed : Bool) : Prop where
  inside : UsableIn c addr size usable length
  change : PoolChange c p p' [⟨usable, length⟩] []
  ranges : p'.memoryRanges = rangeOf addr size usable length :: p.memoryRanges
  coalesced : Coalesced p → Coalesced p'
  flags : ZeroedSound p →
    (zeroed = true → ∀ x, (Span.mk usable length).Has x → p.mem x = 0) → ZeroedSound p'

section Extend

variable {addr size : Nat} {zeroed : Bool} {held : List Nat}

/-- The end of `je_pool_extend`, after steps of the base allocator. -/
theorem poolExtendFinish_extended {q : Pool} {start : Nat} (zeroed : Bool)
    (step : BaseStep c p q) (numbered : NodesNumbered p held) (region : Region c addr size)
    (free : ∀ x, (Span.mk addr size).Has x → cover p.freeSpans x = 0)
    (lower : addr ≤ start) (room : start + 2 * c.chunksize ≤ addr + size) :
    ∃ p' length, poolExtendFinish c q addr size start zeroed = some (p', length) ∧
      Extended c p p' addr size (c.chunkCeiling start) length zeroed := by
  obtain ⟨size_eq, inside⟩ := usableSizeOf_spec region lower room
  generalize c.chunkFloor (addr + size - c.chunkCeiling start) = length at size_eq inside
  have nonempty := inside.nonempty
  have stillFree : ∀ x, (Span.mk (c.chunkCeiling start) length).Has x →
      cover q.freeSpans x = 0 := by
    intro x has
    obtain ⟨extra, handed, _, _, covers⟩ := step.change.dropped
    have counted := covers x
    rw [free x (inside.has has), cover_nil] at counted
    omega
  have registered := registerRange_registered step.change.trees
    (numbered.change step.change).apart region inside stillFree zeroed
  refine ⟨registerRange c q addr size (c.chunkCeiling start) length zeroed, length, ?_, {
    inside := inside
    change := step.change.trans registered.change
    ranges := by rw [registered.ranges, step.ranges]
    coalesced := registered.coalesced ∘ step.coalesced
    flags := ?_ }⟩
  · simp only [poolExtendFinish, size_eq]
    rw [if_neg (by omega)]
  · intro sound truthful
    apply registered.flags (step.zeroed sound)
    intro marked x has
    rw [step.change.mem x (free x (inside.has has)) rfl]
    exact truthful marked x has

/-- The fallback has room for all metadata of the region. -/
theorem fallback_room {missing : Nat} (fits : c.Fits) (region : Region c addr size)
    (atMost : missing ≤ size / c.chunksize) :
    addr ≤ cachelineCeiling addr ∧
      cachelineCeiling addr + missing * cachelineCeiling c.sizeofExtentNode +
        cachelineCeiling c.sizeofRangeNode + 2 * c.chunksize ≤ addr + size := by
  have metadata := fits.metadata
  have below := region.below
  have minimal := region.minimal
  unfold Config.poolMinimalSize at minimal
  have lower := Word.le_ceil (a := addr)
    (show 0 < cacheline by decide) (by unfold cacheline at *; omega)
  have upper := Word.ceil_lt_add (a := addr)
    (show 0 < cacheline by decide) (by unfold cacheline at *; omega)
  have whole := Nat.div_mul_le_self size c.chunksize
  have fewer := Nat.mul_le_mul_right (cachelineCeiling c.sizeofExtentNode) atMost
  obtain ⟨further, chunks⟩ : ∃ further, size / c.chunksize = 3 + further :=
    Nat.exists_eq_add_of_le ((Nat.le_div_iff_mul_le c.chunksize_pos).mpr minimal)
  have nodes : further * cachelineCeiling c.sizeofExtentNode ≤ further * c.chunksize :=
    Nat.mul_le_mul_left further (by omega)
  rw [chunks, Nat.add_mul] at whole fewer
  unfold cachelineCeiling at *
  omega

theorem poolExtendFallback_extended {q : Pool} {missing : Nat} (node : Option Nat)
    (fits : c.Fits) (step : BaseStep c p q) (numbered : NodesNumbered p held)
    (region : Region c addr size)
    (free : ∀ x, (Span.mk addr size).Has x → cover p.freeSpans x = 0)
    (atMost : missing ≤ size / c.chunksize) :
    ∃ p' usable length,
      poolExtendFallback c q missing node addr size zeroed = some (p', length) ∧
        Extended c p p' addr size usable length zeroed := by
  obtain ⟨lower, room⟩ := fallback_room fits region atMost
  have below := region.below
  have ends : Word.add addr size = addr + size := Word.add_eq below
  generalize moved_eq : { q with
    baseNextAddr := cachelineCeiling addr
    basePastAddr := Word.add addr size } = moved
  have movedStep : BaseStep c p moved := by
    rw [← moved_eq]
    exact step.trans (BaseStep.of_pointers step.change.trees _ _)
  have next : moved.baseNextAddr = cachelineCeiling addr := by rw [← moved_eq]
  have past : moved.basePastAddr = addr + size := by rw [← moved_eq, ends]
  have nodeRequest : BaseRequest c c.sizeofExtentNode := fits.baseRequest (by simp)
  have made := baseNodePrealloc_of_room (c := c) (p := moved) missing
    (by omega) (by omega)
  have madeStep := movedStep.trans (baseNodePrealloc_step nodeRequest missing
    movedStep.change.trees (numbered.change movedStep.change))
  rw [made] at madeStep
  generalize made_eq : (moved.advance
    (missing * cachelineCeiling c.sizeofExtentNode)).addNodes missing = carved
      at made madeStep
  have carvedNext : carved.baseNextAddr =
      moved.baseNextAddr + missing * cachelineCeiling c.sizeofExtentNode := by
    rw [← made_eq]
    rfl
  have carvedPast : carved.basePastAddr = moved.basePastAddr := by
    rw [← made_eq]
    rfl
  -- both outcomes end in `poolExtendFinish` with room for two chunks
  have finish : ∀ r : Pool, BaseStep c p r → addr ≤ r.baseNextAddr →
      r.baseNextAddr + 2 * c.chunksize ≤ addr + size →
      ∃ p' length, poolExtendFinish c
          { r with basePastAddr := c.chunkCeiling r.baseNextAddr } addr size
          (c.chunkCeiling r.baseNextAddr) zeroed = some (p', length) ∧
        Extended c p p' addr size (c.chunkCeiling r.baseNextAddr) length zeroed := by
    intro r rStep rLower rRoom
    have last := rStep.trans (BaseStep.of_pointers rStep.change.trees
      r.baseNextAddr (c.chunkCeiling r.baseNextAddr))
    obtain ⟨p', length, result, extended⟩ := poolExtendFinish_extended
      zeroed last numbered region free rLower rRoom
    refine ⟨p', length, ?_, extended⟩
    rw [← result]
    simp only [poolExtendFinish, chunkCeiling_idem (c := c)
      (show r.baseNextAddr + 2 * c.chunksize < Word.modulus by omega)]
  simp only [poolExtendFallback, moved_eq, made]
  cases node with
  | some node =>
      obtain ⟨p', length, result, extended⟩ := finish carved madeStep (by omega) (by omega)
      exact ⟨p', _, length, by simpa using result, extended⟩
  | none =>
      have allocated := baseAlloc_of_room (c := c) (p := carved)
        (show carved.basePastAddr < Word.modulus by omega)
        (show carved.baseNextAddr + cachelineCeiling c.sizeofRangeNode ≤
          carved.basePastAddr by omega)
      have rangeRequest : BaseRequest c c.sizeofRangeNode := fits.baseRequest (by simp)
      have allocatedStep := madeStep.trans (baseAlloc_step madeStep.change.trees
        (numbered.change madeStep.change).apart rangeRequest)
      rw [allocated] at allocatedStep
      obtain ⟨p', length, result, extended⟩ := finish _ allocatedStep
        (by rw [Pool.advance_next]; omega) (by rw [Pool.advance_next]; omega)
      refine ⟨p', _, length, ?_, extended⟩
      simp only [Option.isNone_none, ↓reduceIte, allocated]
      exact result

/-- `je_pool_extend` succeeds on every region that is not in use. -/
theorem poolExtend_extended (zeroed : Bool) (fits : c.Fits) (trees : FreeTrees c p)
    (numbered : NodesNumbered p held) (region : Region c addr size)
    (free : ∀ x, (Span.mk addr size).Has x → cover p.freeSpans x = 0) :
    ∃ p' usable length, poolExtend c p addr size zeroed = some (p', length) ∧
      Extended c p p' addr size usable length zeroed := by
  have minimal := region.minimal
  have nodeRequest : BaseRequest c c.sizeofExtentNode := fits.baseRequest (by simp)
  have rangeRequest : BaseRequest c c.sizeofRangeNode := fits.baseRequest (by simp)
  have first := baseNodePrealloc_step nodeRequest (size / c.chunksize) trees numbered
  have atMost := baseNodePrealloc_missing_le c p (size / c.chunksize)
  unfold poolExtend
  rw [if_neg (by omega)]
  cases made : baseNodePrealloc c p (size / c.chunksize) with
  | mk q missing =>
      rw [made] at first atMost
      have second := first.trans (baseAlloc_step first.change.trees
        (numbered.change first.change).apart rangeRequest)
      cases allocated : baseAlloc c q c.sizeofRangeNode with
      | mk r node =>
          rw [allocated] at second
          simp only [allocated]
          split
          · exact poolExtendFallback_extended node fits second numbered region free atMost
          · obtain ⟨p', length, result, extended⟩ := poolExtendFinish_extended
              zeroed second numbered region free le_rfl (by
                unfold Config.poolMinimalSize at minimal
                omega)
            exact ⟨p', _, length, result, extended⟩

end Extend

end Jemalloc
end Vmem
