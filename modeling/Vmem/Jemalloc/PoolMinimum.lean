import Vmem.Jemalloc.PoolCreation

/-!
# Is the minimal pool large enough?

`POOL_MINIMAL_SIZE` is three chunks, by its comment enough for the header, for the base
allocator and for one chunk with its alignment.  How much the base allocator takes depends on
the options: the radix tree on `opt_lg_chunk`, the array of arenas on `opt_narenas`, the
statistics of the first arena on both the page and the chunk size.

`opt_lg_chunk` runs up to 63 here, so that not even `POOL_MINIMAL_SIZE` is safe from wrapping.
While a pool is created there is no chunk in it, and the base allocator has only the memory
behind the header; assertions are dropped, as in a release build.
-/

namespace Vmem
namespace Jemalloc

/-- What the sizes of the metadata depend on, for pointers of eight bytes. -/
structure Build where
  /-- `LG_PAGE`. -/
  lgPage : Nat
  configFill : Bool
  configStats : Bool
  configIvsalloc : Bool
  /-- `opt_lg_chunk`. -/
  lgChunk : Nat
  optNarenas : Nat
  /-- `map_bias`. -/
  mapBias : Nat
  /-- `sizeof (pool_t)`. -/
  sizeofPool : Nat
  /-- `sizeof (arena_t)`. -/
  sizeofArena : Nat
  /-- `offsetof (rtree_t, level2bits)`. -/
  offsetofLevel2bits : Nat
  page_large : 12 ≤ lgPage
  /-- The limits of `malloc_conf_init`. -/
  accepted : lgPage + (if configFill then 2 else 1) ≤ lgChunk ∧ lgChunk ≤ 63
  sizeofPool_lt : sizeofPool < 2 ^ 32
  sizeofArena_lt : sizeofArena < 2 ^ 32
  offsetofLevel2bits_lt : offsetofLevel2bits < 2 ^ 32

/-- `sizeof (extent_node_t)`: two tree links, four pointers or sizes and a flag. -/
def sizeofExtentNode : Nat := 72

/-- `sizeof (pool_memory_range_node_t)`. -/
def sizeofRangeNode : Nat := 40

/-! ## The radix tree -/

/-- `bits_per_level` of `rtree_new`, for nodes of 64 KiB. -/
def rtreeBitsPerLevel : Nat := 13

/-- `bits_in_leaf` of `rtree_new`. -/
def rtreeBitsInLeaf : Nat := 16

/-- `height` of `rtree_new`. -/
def rtreeHeight (bits : Nat) : Nat :=
  if bits > rtreeBitsInLeaf then
    let height := 1 + (bits - rtreeBitsInLeaf) / rtreeBitsPerLevel
    if (height - 1) * rtreeBitsPerLevel + rtreeBitsInLeaf ≠ bits then height + 1 else height
  else 1

/-- `level2bits[0]` of `rtree_new`. -/
def rtreeRootBits (bits : Nat) : Nat :=
  if rtreeHeight bits > 1 then
    if (rtreeHeight bits - 1) * rtreeBitsPerLevel + rtreeBitsInLeaf > bits then
      (bits - rtreeBitsInLeaf) % rtreeBitsPerLevel
    else rtreeBitsPerLevel
  else bits

theorem rtreeRootBits_le (bits : Nat) : rtreeRootBits bits ≤ 16 := by
  unfold rtreeRootBits rtreeHeight rtreeBitsPerLevel rtreeBitsInLeaf
  dsimp only
  split_ifs <;> omega

theorem rtreeHeight_le {bits : Nat} (few : bits ≤ 64) : rtreeHeight bits ≤ 8 := by
  unfold rtreeHeight rtreeBitsPerLevel rtreeBitsInLeaf
  dsimp only
  split_ifs <;> omega

namespace Build

variable (b : Build)

/-- `chunksize`. -/
def chunksize : Nat := 2 ^ b.lgChunk

/-- `POOL_MINIMAL_SIZE`. -/
def poolMinimalSize : Nat := 3 * b.chunksize % Word.modulus

/-- `CHUNK_CEILING`. -/
def chunkCeiling (s : Nat) : Nat := Word.ceil s b.chunksize

/-- `narenas_auto`, an `unsigned`, as `pool_new` leaves it. -/
def narenasAuto : Nat :=
  let narenas := b.optNarenas % 2 ^ 32
  if narenas > b.chunksize / 8 then b.chunksize / 8 else narenas

/-- `nlclasses`. -/
def nlclasses : Nat := b.chunksize / 2 ^ b.lgPage - b.mapBias

/-- What `rtree_new` asks of `base_alloc`: the tree and its root. -/
def rtreeNew : List Nat :=
  let bits := 64 - b.lgChunk
  [b.offsetofLevel2bits + 4 * rtreeHeight bits, 8 * 2 ^ rtreeRootBits bits]

/-- What `pool_new` cannot do without: the radix tree and the array of arenas. -/
def poolNewAllocs : List Nat :=
  (if b.configIvsalloc then b.rtreeNew else []) ++ [8 * b.narenasAuto]

/-- What `arenas_extend` asks for: the arena and its `lstats`. -/
def arenaAllocs : List Nat :=
  b.sizeofArena :: if b.configStats then [b.nlclasses * 32] else []

end Build

/-! ## The base allocator -/

/-- `base_next_addr` and `base_past_addr`. -/
structure BaseArea where
  next : Nat
  past : Nat

namespace BaseArea

/-- `base_alloc` in a pool without chunks. -/
def baseAlloc (area : BaseArea) (size : Nat) : BaseArea × Option Span :=
  let csize := cachelineCeiling size
  if Word.add area.next csize > area.past then (area, none)
  else ({ area with next := Word.add area.next csize }, some ⟨area.next, csize⟩)

/-- Several calls of `base_alloc`, up to the first that returns `NULL`; the flag says that none
does. -/
def baseAllocAll : BaseArea → List Nat → BaseArea × List Span × Bool
  | area, [] => (area, [], true)
  | area, size :: sizes =>
      match area.baseAlloc size with
      | (area, none) => (area, [], false)
      | (area, some span) =>
          let (area, spans, complete) := area.baseAllocAll sizes
          (area, span :: spans, complete)

/-- With room for all of them, the requests are served one behind the other. -/
theorem baseAllocAll_of_room (area : BaseArea) (sizes : List Nat)
    (past : area.past < Word.modulus)
    (room : area.next + (sizes.map cachelineCeiling).sum ≤ area.past) :
    ∃ spans, area.baseAllocAll sizes =
        ({ area with next := area.next + (sizes.map cachelineCeiling).sum }, spans, true) ∧
      ∀ span ∈ spans, span.Within ⟨area.next, (sizes.map cachelineCeiling).sum⟩ := by
  induction sizes generalizing area with
  | nil => exact ⟨[], rfl, fun _ member => absurd member List.not_mem_nil⟩
  | cons size sizes inductionHypothesis =>
      rw [List.map_cons, List.sum_cons] at room ⊢
      have advance : Word.add area.next (cachelineCeiling size) =
          area.next + cachelineCeiling size := Word.add_eq (by omega)
      obtain ⟨spans, rest, within⟩ := inductionHypothesis
        ⟨area.next + cachelineCeiling size, area.past⟩ past (by dsimp only; omega)
      refine ⟨⟨area.next, cachelineCeiling size⟩ :: spans, ?_, ?_⟩
      · have enough : ¬area.next + cachelineCeiling size > area.past := by omega
        simp only [baseAllocAll, baseAlloc, advance, if_neg enough, rest, Nat.add_assoc]
      · intro span member
        rcases List.mem_cons.mp member with rfl | member
        · exact ⟨le_rfl, by dsimp only; omega⟩
        · obtain ⟨lower, upper⟩ := within span member
          dsimp only at lower upper
          exact ⟨by dsimp only; omega, by dsimp only; omega⟩

/-- Requests that are all served advance the allocator by their sum, modulo a word. -/
theorem baseAllocAll_next {area area' : BaseArea} {sizes : List Nat} {spans : List Span}
    {start : Nat} (begins : area.next = start % Word.modulus)
    (served : area.baseAllocAll sizes = (area', spans, true)) :
    area'.next = (start + (sizes.map cachelineCeiling).sum) % Word.modulus := by
  induction sizes generalizing area spans start with
  | nil =>
      cases served
      exact begins
  | cons size sizes inductionHypothesis =>
      rw [List.map_cons, List.sum_cons, ← Nat.add_assoc]
      unfold baseAllocAll at served
      cases first : area.baseAlloc size with
      | mk middle found =>
          cases found with
          | none => simp [first] at served
          | some span =>
              cases rest : middle.baseAllocAll sizes with
              | mk last tail =>
                  have advanced : middle.next =
                      (start + cachelineCeiling size) % Word.modulus := by
                    unfold baseAlloc at first
                    dsimp only at first
                    split at first
                    · cases first
                    · cases first
                      dsimp only
                      rw [Word.add, begins, Nat.mod_add_mod]
                  obtain ⟨others, complete⟩ := tail
                  simp only [first, rest, Prod.mk.injEq] at served
                  obtain ⟨rfl, _, rfl⟩ := served
                  exact inductionHypothesis advanced rest

/-- `base_node_prealloc`. -/
def baseNodePrealloc (area : BaseArea) (number : Nat) : BaseArea × List Span × Bool :=
  area.baseAllocAll (List.replicate number sizeofExtentNode)

end BaseArea

/-- How the memory of a region is used. -/
structure Layout where
  /-- The header and what `base_alloc` handed out. -/
  metadata : List Span
  /-- No call of `base_alloc` returned `NULL`. -/
  complete : Bool
  usableAddr : Nat
  usableSize : Nat
  deriving DecidableEq

namespace Build

variable (b : Build)

/-- `(size - (usable_addr - addr)) & ~chunksize_mask`. -/
def usableSizeOf (addr size usableAddr : Nat) : Nat :=
  Word.floor (Word.sub size (Word.sub usableAddr addr)) b.chunksize

/-- `pool_create_empty`; `none` when `pool_new` fails. -/
def poolCreateEmpty (addr size : Nat) : Option Layout :=
  let area : BaseArea := ⟨cachelineCeiling (Word.add addr b.sizeofPool), Word.add addr size⟩
  match area.baseAllocAll b.poolNewAllocs with
  | (_, _, false) => none
  | (area, poolNew, true) =>
      let (area, arena, arenaMade) := area.baseAllocAll b.arenaAllocs
      let (area, nodes, preallocated) := area.baseNodePrealloc (size / b.chunksize)
      let (area, range, listed) := area.baseAllocAll [sizeofRangeNode]
      let usableAddr := b.chunkCeiling area.next
      some {
        metadata := ⟨addr, b.sizeofPool⟩ :: (poolNew ++ (arena ++ (nodes ++ range)))
        complete := arenaMade && preallocated && listed
        usableAddr := usableAddr
        usableSize := b.usableSizeOf addr size usableAddr }

/-- `je_pool_extend`, given how many nodes `base_node_prealloc` could not get from the pool as
it was, and whether `base_alloc` had a range node there. -/
def poolExtend (addr size missing : Nat) (node : Bool) : Option Layout :=
  if size < b.poolMinimalSize then none
  else if 0 < missing ∨ node = false then
    let area : BaseArea := ⟨cachelineCeiling addr, Word.add addr size⟩
    let (area, nodes, preallocated) := area.baseNodePrealloc missing
    let (area, range, listed) := area.baseAllocAll (if node then [] else [sizeofRangeNode])
    let usableAddr := b.chunkCeiling (b.chunkCeiling area.next)
    some {
      metadata := nodes ++ range
      complete := preallocated && listed
      usableAddr := usableAddr
      usableSize := b.usableSizeOf addr size usableAddr }
  else
    let usableAddr := b.chunkCeiling addr
    some {
      metadata := []
      complete := true
      usableAddr := usableAddr
      usableSize := b.usableSizeOf addr size usableAddr }

/-- The region is used as it should be. -/
structure Suffices (addr size : Nat) (layout : Layout) : Prop where
  complete : layout.complete = true
  nonempty : 0 < layout.usableSize
  aligned : b.chunksize ∣ layout.usableAddr ∧ b.chunksize ∣ layout.usableSize
  inside : (Span.mk layout.usableAddr layout.usableSize).Within ⟨addr, size⟩
  apart : ∀ span ∈ layout.metadata, span.Apart ⟨layout.usableAddr, layout.usableSize⟩
  noWrap : layout.usableAddr - addr ≤ size

/-- The pool is created, and its memory is used as it should be. -/
def Creates (addr size : Nat) : Prop :=
  ∃ layout, b.poolCreateEmpty addr size = some layout ∧ b.Suffices addr size layout

/-- A pool is extended, and the new memory is used as it should be. -/
def Extends (addr size missing : Nat) (node : Bool) : Prop :=
  ∃ layout, b.poolExtend addr size missing node = some layout ∧ b.Suffices addr size layout

/-- Everything `pool_create_empty` asks of `base_alloc`. -/
def requests (size : Nat) : List Nat :=
  b.poolNewAllocs ++ (b.arenaAllocs ++
    (List.replicate (size / b.chunksize) sizeofExtentNode ++ [sizeofRangeNode]))

/-- Where the metadata of a new pool end. -/
def metadataEnd (addr size : Nat) : Nat :=
  Word.floor (addr + b.sizeofPool + (cacheline - 1)) cacheline +
    ((b.requests size).map cachelineCeiling).sum

/-! ## Bounds -/

theorem chunksize_pos : 0 < b.chunksize := Nat.two_pow_pos b.lgChunk

theorem chunksize_dvd_modulus : b.chunksize ∣ Word.modulus :=
  Nat.pow_dvd_pow 2 (by have := b.accepted.2; omega)

theorem chunksize_le : b.chunksize ≤ 2 ^ 63 :=
  Nat.pow_le_pow_right (by norm_num) b.accepted.2

theorem le_chunksize : 2 ^ 13 ≤ b.chunksize := by
  have large := b.page_large
  have accepted := b.accepted.1
  refine Nat.pow_le_pow_right (by norm_num) ?_
  split_ifs at accepted <;> omega

theorem cacheline_dvd_modulus : cacheline ∣ Word.modulus := by decide

/-- The statistics of large runs take a small part of a chunk. -/
theorem nlclasses_le : b.nlclasses ≤ 2 ^ 51 := by
  have large := b.page_large
  have accepted := b.accepted
  have pages : b.chunksize / 2 ^ b.lgPage = 2 ^ (b.lgChunk - b.lgPage) :=
    Nat.pow_div (by split_ifs at accepted <;> omega) (by norm_num)
  have few : 2 ^ (b.lgChunk - b.lgPage) ≤ 2 ^ 51 :=
    Nat.pow_le_pow_right (by norm_num) (by omega)
  unfold nlclasses
  omega

/-- Apart from the nodes the metadata are small. -/
theorem fixed_le : ((b.poolNewAllocs ++ b.arenaAllocs).map cachelineCeiling).sum ≤ 2 ^ 57 := by
  have pool := b.sizeofPool_lt
  have arena := b.sizeofArena_lt
  have tree := b.offsetofLevel2bits_lt
  have classes := b.nlclasses_le
  have height := rtreeHeight_le (show 64 - b.lgChunk ≤ 64 by omega)
  have root : 2 ^ rtreeRootBits (64 - b.lgChunk) ≤ 2 ^ 16 :=
    Nat.pow_le_pow_right (by norm_num) (rtreeRootBits_le _)
  have narenas : b.narenasAuto < 2 ^ 32 := by
    have := Nat.mod_lt b.optNarenas (show 0 < 2 ^ 32 by norm_num)
    unfold narenasAuto
    dsimp only
    split_ifs <;> omega
  have rounded : ∀ s, cachelineCeiling s ≤ s + 63 := fun s => Word.ceil_le s cacheline
  have first := rounded (b.offsetofLevel2bits + 4 * rtreeHeight (64 - b.lgChunk))
  have second := rounded (8 * 2 ^ rtreeRootBits (64 - b.lgChunk))
  have third := rounded (8 * b.narenasAuto)
  have fourth := rounded b.sizeofArena
  have fifth := rounded (b.nlclasses * 32)
  unfold poolNewAllocs arenaAllocs rtreeNew
  cases b.configIvsalloc <;> cases b.configStats <;> simp <;> omega

/-- One node for each chunk of a region. -/
theorem nodes_le {size : Nat} (below : size < Word.modulus) :
    size / b.chunksize * cachelineCeiling sizeofExtentNode ≤ 2 ^ 58 := by
  have rounded : cachelineCeiling sizeofExtentNode = 128 := by decide
  have count : size / b.chunksize ≤ size / 2 ^ 13 :=
    Nat.div_le_div_left b.le_chunksize (by norm_num)
  have := Word.modulus_eq
  rw [rounded]
  omega

theorem requests_sum (size : Nat) : ((b.requests size).map cachelineCeiling).sum =
    ((b.poolNewAllocs ++ b.arenaAllocs).map cachelineCeiling).sum +
      (size / b.chunksize * cachelineCeiling sizeofExtentNode +
        cachelineCeiling sizeofRangeNode) := by
  unfold requests
  simp only [List.map_append, List.sum_append, List.map_replicate, List.sum_replicate_nat,
    List.map_cons, List.map_nil, List.sum_cons, List.sum_nil, Nat.add_zero,
    Nat.add_assoc]

/-- The metadata of a pool are less than half of the address space. -/
theorem metadataEnd_le (addr : Nat) {size : Nat} (below : size < Word.modulus) :
    b.metadataEnd addr size + b.chunksize ≤ addr + Word.modulus := by
  have fixed := b.fixed_le
  have nodes := b.nodes_le below
  have chunk := b.chunksize_le
  have pool := b.sizeofPool_lt
  have range : cachelineCeiling sizeofRangeNode = 64 := by decide
  have start := Word.floor_le (addr + b.sizeofPool + (cacheline - 1)) cacheline
  have := Word.modulus_eq
  unfold metadataEnd
  rw [requests_sum]
  unfold cacheline at *
  omega

variable {b}

/-! ## Creation -/

/-- A start that leaves a whole chunk before the last boundary gives a usable range behind it. -/
theorem usable_of_room {addr size start : Nat} (below : addr + size < Word.modulus)
    (lower : addr ≤ start)
    (room : start + b.chunksize ≤ Word.floor (addr + size) b.chunksize) :
    start ≤ b.chunkCeiling start ∧ b.chunkCeiling (b.chunkCeiling start) = b.chunkCeiling start ∧
      ∀ metadata, (∀ span ∈ metadata, span.lo + span.len ≤ start) →
        b.Suffices addr size ⟨metadata, true, b.chunkCeiling start,
          b.usableSizeOf addr size (b.chunkCeiling start)⟩ := by
  have positive := b.chunksize_pos
  have top := Word.floor_le (addr + size) b.chunksize
  have boundary := Word.dvd_floor (addr + size) b.chunksize
  have ceilLower := Word.le_ceil (a := start) positive (by omega)
  have ceilUpper := Word.ceil_lt_add (a := start) positive (by omega)
  have aligned := Word.dvd_ceil start b.chunksize
  unfold chunkCeiling usableSizeOf
  generalize Word.floor (addr + size) b.chunksize = last at *
  generalize Word.ceil start b.chunksize = usable at *
  -- both are multiples of the chunk size
  have fits : usable + b.chunksize ≤ last := by
    obtain ⟨chunks, rfl⟩ := aligned
    obtain ⟨bound, rfl⟩ := boundary
    have less : b.chunksize * chunks < b.chunksize * bound := by omega
    have step : chunks + 1 ≤ bound := Nat.lt_of_mul_lt_mul_left less
    calc b.chunksize * chunks + b.chunksize = b.chunksize * (chunks + 1) := by ring
      _ ≤ b.chunksize * bound := Nat.mul_le_mul_left _ step
  have offset : Word.sub usable addr = usable - addr := Word.sub_eq (by omega) (by omega)
  have rest : Word.sub size (usable - addr) = addr + size - usable := by
    rw [Word.sub_eq (by omega) (by omega)]
    omega
  have floorLe := Word.floor_le (addr + size - usable) b.chunksize
  have floorLower := Word.lt_floor_add (addr + size - usable) positive
  refine ⟨ceilLower, Word.ceil_eq_of_dvd aligned (by omega), fun metadata before => ?_⟩
  rw [offset, rest]
  exact {
    complete := rfl
    nonempty := by dsimp only; omega
    aligned := ⟨aligned, Word.dvd_floor _ _⟩
    inside := ⟨by dsimp only; omega, by dsimp only; omega⟩
    apart := by
      intro span member
      exact Or.inl ((before span member).trans ceilLower)
    noWrap := by dsimp only; omega }

/-- The usable range has a whole chunk before the last boundary of the region. -/
theorem Suffices.chunk_le {addr size : Nat} {layout : Layout}
    (suffices_ : b.Suffices addr size layout) :
    layout.usableAddr + b.chunksize ≤ Word.floor (addr + size) b.chunksize := by
  obtain ⟨_, upper⟩ := suffices_.inside
  have long := Nat.le_of_dvd suffices_.nonempty suffices_.aligned.2
  have aligned := (Nat.dvd_add_self_right (m := b.chunksize)).mpr suffices_.aligned.1
  dsimp only at upper
  rw [← Word.floor_eq_of_dvd aligned]
  exact Word.floor_mono (by omega) _

/-- Where a pool whose metadata were all allocated begins to be usable. -/
theorem poolCreateEmpty_usableAddr {addr size : Nat} {layout : Layout}
    (created : b.poolCreateEmpty addr size = some layout) (complete : layout.complete = true) :
    layout.usableAddr =
      Word.floor (b.metadataEnd addr size + (b.chunksize - 1)) b.chunksize % Word.modulus := by
  have begins : cachelineCeiling (Word.add addr b.sizeofPool) =
      Word.floor (addr + b.sizeofPool + (cacheline - 1)) cacheline % Word.modulus :=
    Word.ceil_mod cacheline_dvd_modulus _
  unfold poolCreateEmpty at created
  dsimp only at created
  cases first : BaseArea.baseAllocAll
      ⟨cachelineCeiling (Word.add addr b.sizeofPool), Word.add addr size⟩ b.poolNewAllocs with
  | mk area1 outcome1 =>
  obtain ⟨spans1, done1⟩ := outcome1
  cases second : area1.baseAllocAll b.arenaAllocs with
  | mk area2 outcome2 =>
  obtain ⟨spans2, done2⟩ := outcome2
  cases third : area2.baseNodePrealloc (size / b.chunksize) with
  | mk area3 outcome3 =>
  obtain ⟨spans3, done3⟩ := outcome3
  cases fourth : area3.baseAllocAll [sizeofRangeNode] with
  | mk area4 outcome4 =>
  obtain ⟨spans4, done4⟩ := outcome4
  rw [first] at created
  cases done1 with
  | false => cases created
  | true =>
      simp only [second, third, fourth, Option.some.injEq] at created
      subst created
      simp only [Bool.and_eq_true] at complete
      obtain ⟨⟨rfl, rfl⟩, rfl⟩ := complete
      have next := BaseArea.baseAllocAll_next (BaseArea.baseAllocAll_next
        (BaseArea.baseAllocAll_next (BaseArea.baseAllocAll_next begins first) second) third)
        fourth
      dsimp only
      rw [chunkCeiling, next, Word.ceil_mod b.chunksize_dvd_modulus]
      unfold metadataEnd requests
      simp only [List.map_append, List.sum_append, Nat.add_assoc]

/-- With a chunk left behind the metadata, all of them are allocated. -/
theorem poolCreateEmpty_layout {addr size : Nat} (below : addr + size < Word.modulus)
    (room : b.metadataEnd addr size + b.chunksize ≤ Word.floor (addr + size) b.chunksize) :
    ∃ layout, b.poolCreateEmpty addr size = some layout ∧ b.Suffices addr size layout ∧
      layout.usableAddr = b.chunkCeiling (b.metadataEnd addr size) ∧
      layout.usableSize = b.usableSizeOf addr size layout.usableAddr := by
  have top := Word.floor_le (addr + size) b.chunksize
  have header := Word.lt_floor_add (addr + b.sizeofPool + (cacheline - 1))
    (show 0 < cacheline by decide)
  have before : addr + b.sizeofPool ≤
      Word.floor (addr + b.sizeofPool + (cacheline - 1)) cacheline := by
    have : cacheline = 64 := rfl
    omega
  have ends : Word.add addr size = addr + size := Word.add_eq below
  have total : b.metadataEnd addr size =
      Word.floor (addr + b.sizeofPool + (cacheline - 1)) cacheline +
        (b.poolNewAllocs.map cachelineCeiling).sum + (b.arenaAllocs.map cachelineCeiling).sum +
        ((List.replicate (size / b.chunksize) sizeofExtentNode).map cachelineCeiling).sum +
        ([sizeofRangeNode].map cachelineCeiling).sum := by
    unfold metadataEnd requests
    simp only [List.map_append, List.sum_append, Nat.add_assoc]
  have begins : cachelineCeiling (Word.add addr b.sizeofPool) =
      Word.floor (addr + b.sizeofPool + (cacheline - 1)) cacheline := by
    have wrapped := Word.ceil_mod cacheline_dvd_modulus (addr + b.sizeofPool)
    exact wrapped.trans (Nat.mod_eq_of_lt (by omega))
  generalize Word.floor (addr + b.sizeofPool + (cacheline - 1)) cacheline = start at *
  obtain ⟨spans1, first, within1⟩ := BaseArea.baseAllocAll_of_room ⟨start, addr + size⟩
    b.poolNewAllocs below (by dsimp only; omega)
  obtain ⟨spans2, second, within2⟩ := BaseArea.baseAllocAll_of_room
    ⟨start + (b.poolNewAllocs.map cachelineCeiling).sum, addr + size⟩ b.arenaAllocs below
    (by dsimp only; omega)
  obtain ⟨spans3, third, within3⟩ := BaseArea.baseAllocAll_of_room
    ⟨start + (b.poolNewAllocs.map cachelineCeiling).sum +
      (b.arenaAllocs.map cachelineCeiling).sum, addr + size⟩
    (List.replicate (size / b.chunksize) sizeofExtentNode) below (by dsimp only; omega)
  obtain ⟨spans4, fourth, within4⟩ := BaseArea.baseAllocAll_of_room
    ⟨start + (b.poolNewAllocs.map cachelineCeiling).sum +
      (b.arenaAllocs.map cachelineCeiling).sum +
      ((List.replicate (size / b.chunksize) sizeofExtentNode).map cachelineCeiling).sum,
      addr + size⟩ [sizeofRangeNode] below (by dsimp only; omega)
  obtain ⟨_, _, usable⟩ := usable_of_room below (show addr ≤ b.metadataEnd addr size by omega)
    room
  refine ⟨⟨⟨addr, b.sizeofPool⟩ :: (spans1 ++ (spans2 ++ (spans3 ++ spans4))), true,
    b.chunkCeiling (b.metadataEnd addr size),
    b.usableSizeOf addr size (b.chunkCeiling (b.metadataEnd addr size))⟩, ?_, usable _ ?_,
    rfl, rfl⟩
  · unfold poolCreateEmpty BaseArea.baseNodePrealloc
    dsimp only
    simp only [begins, ends, first, second, third, fourth, ← total, Bool.and_self]
  · intro span member
    simp only [List.mem_cons, List.mem_append] at member
    rcases member with rfl | member | member | member | member
    · dsimp only
      omega
    · have := (within1 span member).2
      dsimp only at this
      omega
    · have := (within2 span member).2
      dsimp only at this
      omega
    · have := (within3 span member).2
      dsimp only at this
      omega
    · have := (within4 span member).2
      dsimp only at this
      omega

/-- `pool_create_empty` uses the memory as it should exactly if the metadata end a chunk before
the last boundary. -/
theorem creates_iff {addr size : Nat} (below : addr + size < Word.modulus) :
    b.Creates addr size ↔
      b.metadataEnd addr size + b.chunksize ≤ Word.floor (addr + size) b.chunksize := by
  have positive := b.chunksize_pos
  constructor
  · rintro ⟨layout, created, right⟩
    have usable := poolCreateEmpty_usableAddr created right.complete
    have bound := b.metadataEnd_le addr (show size < Word.modulus by omega)
    have rounded := Word.floor_le (b.metadataEnd addr size + (b.chunksize - 1)) b.chunksize
    have above := Word.lt_floor_add (b.metadataEnd addr size + (b.chunksize - 1)) positive
    obtain ⟨lower, _⟩ := right.inside
    dsimp only at lower
    have room := right.chunk_le
    -- had the address wrapped, it would lie before the pool
    have fits : Word.floor (b.metadataEnd addr size + (b.chunksize - 1)) b.chunksize <
        Word.modulus := by
      by_contra wraps
      rw [Nat.mod_eq_sub_mod (by omega), Nat.mod_eq_of_lt (by omega)] at usable
      omega
    rw [Nat.mod_eq_of_lt fits] at usable
    omega
  · intro room
    obtain ⟨layout, created, right, _⟩ := poolCreateEmpty_layout below room
    exact ⟨layout, created, right⟩

/-! ## Extension -/

/-- The metadata of a minimal region leave two chunks of it. -/
theorem extension_room {addr size missing : Nat} (minimal : 3 * b.chunksize ≤ size)
    (below : addr + size < Word.modulus) (atMost : missing ≤ size / b.chunksize) :
    addr ≤ cachelineCeiling addr ∧
      cachelineCeiling addr + missing * cachelineCeiling sizeofExtentNode +
        cachelineCeiling sizeofRangeNode + 2 * b.chunksize ≤ addr + size := by
  have large := b.le_chunksize
  have positive := b.chunksize_pos
  have lower := Word.le_ceil (a := addr) (show 0 < cacheline by decide)
    (by unfold cacheline; omega)
  have upper := Word.ceil_le addr cacheline
  have whole := Nat.div_mul_le_self size b.chunksize
  have node : cachelineCeiling sizeofExtentNode = 128 := by decide
  have range : cachelineCeiling sizeofRangeNode = 64 := by decide
  -- beyond the third node, each further chunk of the region pays for its own node
  obtain ⟨further, chunks⟩ : ∃ further, size / b.chunksize = 3 + further :=
    Nat.exists_eq_add_of_le ((Nat.le_div_iff_mul_le positive).mpr minimal)
  have nodes : further * 128 ≤ further * b.chunksize := Nat.mul_le_mul_left further (by omega)
  rw [node, range]
  rw [chunks] at whole atMost
  rw [Nat.add_mul] at whole
  unfold cachelineCeiling
  unfold cacheline at *
  refine ⟨lower, ?_⟩
  omega

/-- Where the search for chunks starts in a region a pool is extended by. -/
def extensionStart (addr missing : Nat) (node : Bool) : Nat :=
  if 0 < missing ∨ node = false then
    cachelineCeiling addr + missing * cachelineCeiling sizeofExtentNode +
      (if node then 0 else cachelineCeiling sizeofRangeNode)
  else addr

/-- A minimal region has room for its metadata and a chunk. -/
theorem poolExtend_layout {addr size missing : Nat} (node : Bool)
    (minimal : 3 * b.chunksize ≤ size) (small : b.lgChunk ≤ 62)
    (below : addr + size < Word.modulus) (atMost : missing ≤ size / b.chunksize) :
    ∃ layout, b.poolExtend addr size missing node = some layout ∧ b.Suffices addr size layout ∧
      layout.usableAddr = b.chunkCeiling (extensionStart addr missing node) ∧
      b.chunkCeiling layout.usableAddr = layout.usableAddr ∧
      layout.usableSize = b.usableSizeOf addr size layout.usableAddr := by
  have chunk : b.chunksize ≤ 2 ^ 62 := Nat.pow_le_pow_right (by norm_num) small
  have := Word.modulus_eq
  have three : b.poolMinimalSize = 3 * b.chunksize := Nat.mod_eq_of_lt (by omega)
  have top := Word.lt_floor_add (addr + size) b.chunksize_pos
  have ends : Word.add addr size = addr + size := Word.add_eq below
  obtain ⟨lower, room⟩ := extension_room minimal below atMost
  unfold poolExtend extensionStart
  rw [if_neg (by omega)]
  by_cases fallback : 0 < missing ∨ node = false
  · rw [if_pos fallback, if_pos fallback]
    have nodeBytes : ((List.replicate missing sizeofExtentNode).map cachelineCeiling).sum =
        missing * cachelineCeiling sizeofExtentNode := by
      rw [List.map_replicate, List.sum_replicate_nat]
    have rangeBytes : ((if node then [] else [sizeofRangeNode]).map cachelineCeiling).sum =
        if node then 0 else cachelineCeiling sizeofRangeNode := by
      cases node with
      | true => rfl
      | false => rfl
    have rangeLe : (if node then 0 else cachelineCeiling sizeofRangeNode) ≤
        cachelineCeiling sizeofRangeNode := by
      split_ifs <;> omega
    obtain ⟨spans1, first, within1⟩ := BaseArea.baseAllocAll_of_room
      ⟨cachelineCeiling addr, addr + size⟩ (List.replicate missing sizeofExtentNode) below
      (by dsimp only; omega)
    obtain ⟨spans2, second, within2⟩ := BaseArea.baseAllocAll_of_room
      ⟨cachelineCeiling addr + missing * cachelineCeiling sizeofExtentNode, addr + size⟩
      (if node then [] else [sizeofRangeNode]) below (by dsimp only; omega)
    rw [nodeBytes] at first within1
    rw [rangeBytes] at second within2
    obtain ⟨_, again, usable⟩ := usable_of_room (b := b) below
      (show addr ≤ cachelineCeiling addr + missing * cachelineCeiling sizeofExtentNode +
        (if node then 0 else cachelineCeiling sizeofRangeNode) by omega) (by omega)
    refine ⟨⟨spans1 ++ spans2, true, _, _⟩, ?_, usable _ ?_, rfl, again, rfl⟩
    · unfold BaseArea.baseNodePrealloc
      simp only [ends, first, second, again, Bool.and_self]
    · intro span member
      rcases List.mem_append.mp member with member | member
      · have := (within1 span member).2
        dsimp only at this
        omega
      · have := (within2 span member).2
        dsimp only at this
        omega
  · rw [if_neg fallback, if_neg fallback]
    obtain ⟨_, again, usable⟩ := usable_of_room (b := b) below (le_refl addr) (by omega)
    exact ⟨_, rfl, usable [] fun _ member => absurd member List.not_mem_nil, rfl, again, rfl⟩

/-- `je_pool_extend` uses the memory as it should unless `POOL_MINIMAL_SIZE` wraps. -/
theorem extends_iff {addr size missing : Nat} (node : Bool) (nonnull : 0 < addr)
    (minimal : b.poolMinimalSize ≤ size) (below : addr + size < Word.modulus)
    (atMost : missing ≤ size / b.chunksize) :
    b.Extends addr size missing node ↔ b.lgChunk ≤ 62 := by
  have := Word.modulus_eq
  constructor
  · rintro ⟨layout, _, right⟩
    by_contra large
    have chunk : b.chunksize = 2 ^ 63 := by
      have := b.accepted.2
      exact congrArg (2 ^ ·) (show b.lgChunk = 63 by omega)
    have room := right.chunk_le
    have top := Word.floor_le (addr + size) b.chunksize
    obtain ⟨lower, _⟩ := right.inside
    obtain ⟨count, aligned⟩ := right.aligned.1
    dsimp only at lower
    rw [chunk] at *
    omega
  · intro small
    have chunk : b.chunksize ≤ 2 ^ 62 := Nat.pow_le_pow_right (by norm_num) small
    have three : b.poolMinimalSize = 3 * b.chunksize := Nat.mod_eq_of_lt (by omega)
    obtain ⟨layout, extended, right, _⟩ := poolExtend_layout node (three ▸ minimal) small below
      atMost
    exact ⟨layout, extended, right⟩

/-! ## The pools themselves -/

/-- A configuration for the build. -/
structure Models (b : Build) (c : Config) : Prop where
  lgChunk : c.lgChunk = b.lgChunk
  sizeofPool : c.sizeofPool = b.sizeofPool
  sizeofExtentNode : c.sizeofExtentNode = Jemalloc.sizeofExtentNode
  sizeofRangeNode : c.sizeofRangeNode = Jemalloc.sizeofRangeNode
  poolNewAllocs : c.poolNewAllocs = b.poolNewAllocs
  arenaAllocs : c.arenaAllocs = b.arenaAllocs

variable {c : Config} {addr size : Nat}

theorem Models.chunksize (models : b.Models c) : c.chunksize = b.chunksize :=
  congrArg (2 ^ ·) models.lgChunk

theorem Models.chunkCeiling (models : b.Models c) (s : Nat) :
    c.chunkCeiling s = b.chunkCeiling s :=
  congrArg (Word.ceil s) models.chunksize

theorem Models.usableSizeOf (models : b.Models c) (usable : Nat) :
    Jemalloc.usableSizeOf c addr size usable = b.usableSizeOf addr size usable :=
  congrArg (Word.floor _) models.chunksize

/-- The pool that is created has the layout's usable range. -/
theorem Models.poolCreateEmpty (models : b.Models c) (below : addr + size < Word.modulus)
    (creates : b.Creates addr size) (mem : Nat → UInt8) (zeroed : Bool) :
    ∃ layout p, b.poolCreateEmpty addr size = some layout ∧ b.Suffices addr size layout ∧
      Jemalloc.poolCreateEmpty c mem addr size zeroed false = some (registerRange c p addr size
        layout.usableAddr layout.usableSize zeroed) ∧
      p.chunksSzad = [] ∧ p.memoryRanges = [] := by
  have room := (creates_iff below).mp creates
  obtain ⟨layout, created, right, starts, length⟩ := poolCreateEmpty_layout below room
  have positive := right.nonempty
  have large := b.le_chunksize
  have line : cacheline = 64 := rfl
  have top := Word.floor_le (addr + size) b.chunksize
  have header := Word.lt_floor_add (addr + b.sizeofPool + (cacheline - 1))
    (show 0 < cacheline by decide)
  have behind : Word.floor (addr + b.sizeofPool + (cacheline - 1)) cacheline ≤
      b.metadataEnd addr size := Nat.le_add_right _ _
  have start : cachelineCeiling (addr + c.sizeofPool) =
      Word.floor (addr + b.sizeofPool + (cacheline - 1)) cacheline := by
    rw [models.sizeofPool, cachelineCeiling, Word.ceil, Word.add_eq]
    omega
  have same : Jemalloc.metadataEnd c addr size = b.metadataEnd addr size := by
    unfold Jemalloc.metadataEnd metadataBytes metadataEnd
    rw [start, requests_sum, models.sizeofExtentNode, models.sizeofRangeNode,
      models.poolNewAllocs, models.arenaAllocs, models.chunksize, List.map_append,
      List.sum_append]
    omega
  have usable : usableAddr c addr size = layout.usableAddr := by
    rw [usableAddr, same, models.chunkCeiling, starts]
  have result := poolCreateEmpty_of_room (c := c) below
    (show addr + c.sizeofPool < Word.modulus by rw [models.sizeofPool]; omega)
    (show Jemalloc.metadataEnd c addr size ≤ addr + size by rw [same]; omega)
    (show 0 < Jemalloc.usableSizeOf c addr size (usableAddr c addr size) by
      rw [usable, models.usableSizeOf, ← length]
      exact positive) mem zeroed
  rw [usable, models.usableSizeOf, ← length] at result
  exact ⟨layout, _, created, right, result, rfl, rfl⟩

/-- The pool that is extended has the layout's usable range. -/
theorem Models.poolExtend (models : b.Models c) {p q r : Pool} {missing : Nat}
    {node : Option Nat} (minimal : b.poolMinimalSize ≤ size)
    (below : addr + size < Word.modulus)
    (made : Jemalloc.baseNodePrealloc c p (size / c.chunksize) = (q, missing))
    (allocated : Jemalloc.baseAlloc c q c.sizeofRangeNode = (r, node)) (zeroed : Bool) :
    ∃ layout p', b.poolExtend addr size missing node.isSome = some layout ∧
      b.Suffices addr size layout ∧
      Jemalloc.poolExtend c p addr size zeroed = some (registerRange c p' addr size
        layout.usableAddr layout.usableSize zeroed, layout.usableSize) := by
  have small : b.lgChunk ≤ 62 := models.lgChunk ▸ c.chunk_le
  have atMost : missing ≤ size / b.chunksize := by
    have counted := baseNodePrealloc_missing_le c p (size / c.chunksize)
    rw [made] at counted
    rw [← models.chunksize]
    exact counted
  have chunk : b.chunksize ≤ 2 ^ 62 := Nat.pow_le_pow_right (by norm_num) small
  have := Word.modulus_eq
  have three : b.poolMinimalSize = 3 * b.chunksize := Nat.mod_eq_of_lt (by omega)
  rw [three] at minimal
  obtain ⟨layout, extended, right, starts, again, length⟩ := poolExtend_layout node.isSome minimal
    small below atMost
  obtain ⟨lower, room⟩ := extension_room minimal below atMost
  have nonempty := right.nonempty
  have ends : Word.add addr size = addr + size := Word.add_eq below
  -- both ways end here
  have finish : ∀ (s : Pool) (start : Nat), c.chunkCeiling start = layout.usableAddr →
      poolExtendFinish c s addr size start zeroed = some (registerRange c s addr size
        layout.usableAddr layout.usableSize zeroed, layout.usableSize) := by
    intro s start same
    unfold poolExtendFinish
    dsimp only
    rw [same, models.usableSizeOf, ← length, if_neg (by omega)]
  unfold Jemalloc.poolExtend
  rw [if_neg (show ¬size < c.poolMinimalSize by
    rw [Config.poolMinimalSize, models.chunksize]; omega), made]
  dsimp only
  rw [allocated]
  dsimp only
  unfold extensionStart at starts
  by_cases fallback : 0 < missing ∨ node = none
  · rw [if_pos fallback]
    rw [if_pos (by simpa using fallback)] at starts
    rw [← models.sizeofExtentNode, ← models.sizeofRangeNode] at starts room
    unfold poolExtendFallback
    dsimp only
    rw [ends]
    generalize moved_eq : { r with
      baseNextAddr := cachelineCeiling addr
      basePastAddr := addr + size } = moved
    have next : moved.baseNextAddr = cachelineCeiling addr := by rw [← moved_eq]
    have past : moved.basePastAddr = addr + size := by rw [← moved_eq]
    have carved := baseNodePrealloc_of_room (c := c) (p := moved) missing (by omega) (by omega)
    generalize carved_eq : (moved.advance
      (missing * cachelineCeiling c.sizeofExtentNode)).addNodes missing = q' at carved
    have carvedNext : q'.baseNextAddr = cachelineCeiling addr +
        missing * cachelineCeiling c.sizeofExtentNode := by
      rw [← carved_eq, ← next]
      rfl
    have carvedPast : q'.basePastAddr = addr + size := by
      rw [← carved_eq, ← past]
      rfl
    rw [carved]
    dsimp only
    cases node with
    | some node =>
        have begins : c.chunkCeiling q'.baseNextAddr = layout.usableAddr := by
          rw [starts, carvedNext, models.chunkCeiling]
          rfl
        refine ⟨layout, _, extended, right, finish _ _ ?_⟩
        rw [begins, models.chunkCeiling, again]
    | none =>
        have served := baseAlloc_of_room (c := c) (show q'.basePastAddr < Word.modulus by omega)
          (show q'.baseNextAddr + cachelineCeiling c.sizeofRangeNode ≤ q'.basePastAddr by omega)
        have begins : c.chunkCeiling (q'.advance
            (cachelineCeiling c.sizeofRangeNode)).baseNextAddr = layout.usableAddr := by
          rw [starts, Pool.advance, carvedNext, models.chunkCeiling]
          rfl
        simp only [Option.isNone_none, ↓reduceIte, served]
        refine ⟨layout, _, extended, right, finish _ _ ?_⟩
        rw [begins, models.chunkCeiling, again]
  · rw [if_neg fallback]
    rw [if_neg (by simpa using fallback)] at starts
    exact ⟨layout, r, extended, right, finish r addr (by rw [models.chunkCeiling, starts])⟩

end Build

/-- For every region of `POOL_MINIMAL_SIZE`: creating a pool there works exactly if the metadata,
which begin at the cache line behind the header, end a whole chunk before the last chunk boundary
of the region; and extending a pool by it works exactly if three chunks fit into a word. -/
theorem minimal_size_suffices_iff (b : Build) {addr size : Nat} (nonnull : 0 < addr)
    (minimal : b.poolMinimalSize ≤ size) (below : addr + size < Word.modulus) :
    (b.Creates addr size ↔
      b.metadataEnd addr size + b.chunksize ≤ Word.floor (addr + size) b.chunksize) ∧
    ∀ missing node, missing ≤ size / b.chunksize →
      (b.Extends addr size missing node ↔ b.lgChunk ≤ 62) :=
  ⟨Build.creates_iff below,
    fun _ node atMost => Build.extends_iff node nonnull minimal below atMost⟩

/-- Pages of 4 KiB, chunks of 4 MiB and the given number of arenas. -/
def buildWith (narenas : Nat) : Build where
  lgPage := 12
  configFill := true
  configStats := true
  configIvsalloc := true
  lgChunk := 22
  optNarenas := narenas
  mapBias := 13
  sizeofPool := 2048
  sizeofArena := 8192
  offsetofLevel2bits := 72
  page_large := by decide
  accepted := by decide
  sizeofPool_lt := by decide
  sizeofArena_lt := by decide
  offsetofLevel2bits_lt := by decide

/-- Three chunks, one page behind a boundary, are enough for sixteen arenas. -/
theorem minimal_size_suffices_default :
    (buildWith 16).Creates 8392704 12582912 ∧ (buildWith 16).Extends 8392704 12582912 3 false := by
  obtain ⟨creates, extends_⟩ := minimal_size_suffices_iff (buildWith 16)
    (show 0 < 8392704 by decide)
    (show (buildWith 16).poolMinimalSize ≤ 12582912 by decide +kernel) (by decide +kernel)
  exact ⟨creates.mpr (by decide +kernel),
    (extends_ 3 false (by decide +kernel)).mpr (by decide)⟩

/-- The array of arenas may take a whole chunk.  Three chunks one page before a boundary are then
not enough: no usable memory is left. -/
theorem minimal_size_insufficient :
    (buildWith 524288).narenasAuto ≤ (buildWith 524288).chunksize / 8 ∧
      (buildWith 524288).poolMinimalSize ≤ 12582912 ∧ 12578816 + 12582912 < Word.modulus ∧
      ((buildWith 524288).poolCreateEmpty 12578816 12582912).map
        (fun layout => (layout.complete, layout.usableSize)) = some (true, 0) ∧
      ¬(buildWith 524288).Creates 12578816 12582912 := by
  have outcome : ((buildWith 524288).poolCreateEmpty 12578816 12582912).map
      (fun layout => (layout.complete, layout.usableSize)) = some (true, 0) := by
    decide +kernel
  refine ⟨by decide +kernel, by decide +kernel, by decide +kernel, outcome, ?_⟩
  rintro ⟨layout, created, right⟩
  rw [created] at outcome
  have nonempty := right.nonempty
  injection outcome with values
  injection values with _ empty
  omega

end Jemalloc
end Vmem
