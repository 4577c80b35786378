import Vmem.Library.Word

/-!
# Build and run-time constants of the allocator

The allocator fixes a chunk size `2^opt_lg_chunk` when it starts.  The sizes of
its own structures and the effect of `madvise` come from the platform, so they
are parameters; the bounds the rest of the development needs are fields.
-/

namespace Vmem
namespace Jemalloc

/-- `CACHELINE`, the quantum of the base allocator. -/
def cacheline : Nat := 64

/-- `CACHELINE_CEILING`. -/
def cachelineCeiling (s : Nat) : Nat := Word.ceil s cacheline

/-- Constants fixed when the allocator starts. -/
structure Config where
  /-- `LG_PAGE`. -/
  lgPage : Nat
  /-- `opt_lg_chunk`. -/
  lgChunk : Nat
  /-- `map_bias`, the number of header pages of an arena chunk. -/
  mapBias : Nat
  /-- `sizeof (pool_t)`. -/
  sizeofPool : Nat
  /-- `sizeof (extent_node_t)`. -/
  sizeofExtentNode : Nat
  /-- `sizeof (pool_memory_range_node_t)`. -/
  sizeofRangeNode : Nat
  /-- What `pool_new` asks of `base_alloc` and cannot do without: the radix
  tree and its root, and the array of arenas. -/
  poolNewAllocs : List Nat
  /-- What `arenas_extend` asks of `base_alloc` for one arena. -/
  arenaAllocs : List Nat
  /-- `opt_junk`. -/
  optJunk : Bool
  /-- `opt_zero`. -/
  optZero : Bool
  /-- `have_dss`. -/
  haveDss : Bool
  /-- Contents of memory after `madvise` on a range. -/
  madvise : (Nat → UInt8) → Nat → Nat → Nat → UInt8
  page_lt_chunk : lgPage < lgChunk
  /-- Three chunks, the minimal pool, still fit into a word. -/
  chunk_le : lgChunk ≤ 62
  cacheline_le_page : 6 ≤ lgPage
  mapBias_pos : 0 < mapBias
  mapBias_fits : mapBias * 2 ^ lgPage < 2 ^ lgChunk
  /-- `madvise` touches nothing outside its range. -/
  madvise_outside : ∀ contents start length x,
    x < start ∨ start + length ≤ x → madvise contents start length x = contents x
  /-- Inside it, a byte is kept or zeroed. -/
  madvise_inside : ∀ contents start length x,
    madvise contents start length x = contents x ∨ madvise contents start length x = 0

namespace Config

variable (c : Config)

/-- `chunksize`. -/
def chunksize : Nat := 2 ^ c.lgChunk

/-- `PAGE`. -/
def page : Nat := 2 ^ c.lgPage

/-- `arena_maxclass`, the largest size an arena serves. -/
def arenaMaxclass : Nat := c.chunksize - c.mapBias * c.page

/-- `POOL_MINIMAL_SIZE`. -/
def poolMinimalSize : Nat := 3 * c.chunksize

/-- `CHUNK_CEILING`. -/
def chunkCeiling (s : Nat) : Nat := Word.ceil s c.chunksize

/-- `s & ~chunksize_mask`. -/
def chunkFloor (s : Nat) : Nat := Word.floor s c.chunksize

theorem chunksize_pos : 0 < c.chunksize := Nat.two_pow_pos c.lgChunk

theorem page_pos : 0 < c.page := Nat.two_pow_pos c.lgPage

theorem page_dvd_chunksize : c.page ∣ c.chunksize :=
  Nat.pow_dvd_pow 2 (le_of_lt c.page_lt_chunk)

theorem chunksize_le : c.chunksize ≤ 2 ^ 62 :=
  Nat.pow_le_pow_right (by norm_num) c.chunk_le

theorem two_chunks_lt_modulus : 2 * c.chunksize < Word.modulus := by
  have := c.chunksize_le
  rw [Word.modulus_eq]
  norm_num at this
  omega

theorem chunksize_dvd_modulus : c.chunksize ∣ Word.modulus :=
  Nat.pow_dvd_pow 2 (by have := c.chunk_le; omega)

theorem arenaMaxclass_lt : c.arenaMaxclass < c.chunksize := by
  have positive : 0 < c.mapBias * c.page :=
    Nat.mul_pos c.mapBias_pos (Nat.two_pow_pos c.lgPage)
  have := c.chunksize_pos
  unfold arenaMaxclass
  omega

theorem dvd_chunkCeiling (s : Nat) : c.chunksize ∣ c.chunkCeiling s :=
  Word.dvd_ceil s c.chunksize

theorem chunkCeiling_lt (s : Nat) : c.chunkCeiling s < Word.modulus := Word.ceil_lt ..

/-- Rounding up keeps what is already a multiple of the chunk size. -/
theorem chunkCeiling_eq {s : Nat} (divides : c.chunksize ∣ s) (lt : s < Word.modulus) :
    c.chunkCeiling s = s := by
  have gap : c.chunksize ∣ Word.modulus - s := Nat.dvd_sub c.chunksize_dvd_modulus divides
  have := Nat.le_of_dvd (by omega) gap
  have := c.chunksize_pos
  exact Word.ceil_eq_of_dvd divides (by omega)

/-- Extra bytes do not make a request smaller, unless the sum wraps. -/
theorem chunkCeiling_extra {size extra : Nat} (sizeLt : size < Word.modulus)
    (noWrap : extra ≠ 0 → size + extra + c.chunksize ≤ Word.modulus) :
    c.chunkCeiling size ≤ c.chunkCeiling (Word.add size extra) := by
  have positive := c.chunksize_pos
  by_cases none : extra = 0
  · rw [none, Word.add_eq (by omega), Nat.add_zero]
  · have := noWrap none
    rw [Word.add_eq (by omega)]
    exact Word.ceil_mono (by omega) (by omega)

/-- The metadata of a minimal pool fits into the one chunk that
`POOL_MINIMAL_SIZE` sets aside for the base allocator. -/
structure Fits : Prop where
  metadata : cacheline + c.sizeofPool + (c.poolNewAllocs.map cachelineCeiling).sum +
    (c.arenaAllocs.map cachelineCeiling).sum +
    3 * cachelineCeiling c.sizeofExtentNode +
    cachelineCeiling c.sizeofRangeNode ≤ c.chunksize
  /-- Every request is nonzero and no larger than a chunk. -/
  requests : ∀ request ∈
    c.sizeofExtentNode :: c.sizeofRangeNode :: (c.poolNewAllocs ++ c.arenaAllocs),
      0 < request ∧ request ≤ c.chunksize

end Config

/-- Pages of 4 KiB and the default chunks of 4 MiB; `madvise` keeps contents. -/
def defaultConfig : Config where
  lgPage := 12
  lgChunk := 22
  mapBias := 13
  sizeofPool := 2048
  sizeofExtentNode := 72
  sizeofRangeNode := 40
  poolNewAllocs := [256]
  arenaAllocs := [8192, 4096]
  optJunk := false
  optZero := false
  haveDss := true
  madvise := fun contents _ _ => contents
  page_lt_chunk := by decide
  chunk_le := by decide
  cacheline_le_page := by decide
  mapBias_pos := by decide
  mapBias_fits := by decide
  madvise_outside := fun _ _ _ _ _ => rfl
  madvise_inside := fun _ _ _ _ => Or.inl rfl

theorem defaultConfig_fits : defaultConfig.Fits where
  metadata := by decide +kernel
  requests := by decide +kernel

end Jemalloc
end Vmem
