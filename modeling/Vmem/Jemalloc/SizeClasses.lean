import Vmem.Jemalloc.Config

/-!
# Size classes

`s2u` and `sa2u` compute the usable size of an allocation from its size and its
alignment, and `imalloct` and `ipalloct` decide from it whether an arena or the huge
allocator serves the request.  Sizes and alignments are machine words.
-/

namespace Vmem
namespace Jemalloc

/-- `LG_QUANTUM`. -/
def lgQuantum : Nat := 4

/-- `LG_TINY_MAXCLASS`, with a single tiny class. -/
def lgTinyMaxclass : Nat := 3

/-- `LG_SIZE_CLASS_GROUP`. -/
def lgSizeClassGroup : Nat := 2

/-- `small_s2u_compute`, with which the lookup table for the smallest sizes agrees. -/
def smallS2u (size : Nat) : Nat :=
  if size ≤ 2 ^ lgTinyMaxclass then 2 ^ lgTinyMaxclass
  else
    let x := Nat.log2 (2 * size - 1)
    let lgDelta :=
      if x < lgSizeClassGroup + lgQuantum + 1 then lgQuantum else x - lgSizeClassGroup - 1
    Word.ceil size (2 ^ lgDelta)

namespace Config

variable (c : Config)

/-- `SMALL_MAXCLASS`, the largest class below a page. -/
def smallMaxclass : Nat := c.page - c.page / 8

/-- `PAGE_CEILING`. -/
def pageCeiling (s : Nat) : Nat := Word.ceil s c.page

/-- `s2u`. -/
def s2u (size : Nat) : Nat :=
  if size ≤ c.smallMaxclass then smallS2u size
  else if size ≤ c.arenaMaxclass then c.pageCeiling size
  else c.chunkCeiling size

/-- `sa2u`. -/
def sa2u (size alignment : Nat) : Nat :=
  let usize := Word.ceil size alignment
  if usize < size then 0 -- size_t overflow
  else if usize ≤ c.arenaMaxclass ∧ alignment ≤ c.page then
    if usize ≤ c.smallMaxclass then smallS2u usize else c.pageCeiling usize
  else
    let alignment := c.pageCeiling alignment
    let usize := c.pageCeiling size
    if usize < size ∨ Word.add usize alignment < usize then 0 -- size_t overflow
    else
      let runSize := Word.sub (Word.add usize alignment) c.page
      if runSize ≤ c.arenaMaxclass then c.pageCeiling usize else c.chunkCeiling usize

end Config

/-- Who serves a request, and with which usable size. -/
structure Placement where
  usize : Nat
  /-- A huge block; otherwise a run of an arena. -/
  huge : Bool
  deriving DecidableEq

/-- `imalloct` and `icalloct`. -/
def imalloct (c : Config) (size : Nat) : Placement :=
  if size ≤ c.arenaMaxclass then ⟨c.s2u size, false⟩ else ⟨c.chunkCeiling size, true⟩

/-- `ipalloct`: small alignments go to `arena_malloc`, others that fit to `arena_palloc`, the
rest to `huge_malloc` or `huge_palloc`. -/
def ipalloct (c : Config) (usize alignment : Nat) : Placement :=
  if usize ≤ c.arenaMaxclass ∧ alignment ≤ c.page then ⟨usize, false⟩
  else if usize ≤ c.arenaMaxclass then ⟨usize, false⟩
  else ⟨usize, true⟩

/-! ## Bounds -/

namespace Config

variable (c : Config)

theorem page_le_chunksize : c.page ≤ c.chunksize :=
  Nat.le_of_dvd c.chunksize_pos c.page_dvd_chunksize

theorem arenaMaxclass_pos : 0 < c.arenaMaxclass := Nat.sub_pos_of_lt c.mapBias_fits

/-- The largest arena class is a number of pages. -/
theorem page_dvd_arenaMaxclass : c.page ∣ c.arenaMaxclass :=
  Nat.dvd_sub c.page_dvd_chunksize (Nat.dvd_mul_left _ _)

/-- Rounding up to pages keeps a size among the arena classes. -/
theorem pageCeiling_le {s : Nat} (le : s ≤ c.arenaMaxclass) :
    s ≤ c.pageCeiling s ∧ c.pageCeiling s ≤ c.arenaMaxclass := by
  have small := c.arenaMaxclass_lt
  have two := c.two_chunks_lt_modulus
  have page := c.page_le_chunksize
  have positive := c.page_pos
  refine ⟨Word.le_ceil positive (by omega), ?_⟩
  have mono : c.pageCeiling s ≤ Word.ceil c.arenaMaxclass c.page := Word.ceil_mono le (by omega)
  rwa [Word.ceil_eq_of_dvd c.page_dvd_arenaMaxclass (by omega)] at mono

/-- A small class is not smaller than the request. -/
theorem le_smallS2u {size : Nat} (fits : 2 * size < Word.modulus) : size ≤ smallS2u size := by
  have modulus := Word.modulus_eq
  unfold smallS2u
  split
  · assumption
  next large =>
  norm_num [lgTinyMaxclass] at large
  dsimp only
  refine Word.le_ceil (Nat.two_pow_pos _) ?_
  split
  · norm_num [lgQuantum]
    omega
  · next wide =>
    norm_num [lgSizeClassGroup, lgQuantum] at wide
    have power : 2 ^ Nat.log2 (2 * size - 1) ≤ 2 * size - 1 := Nat.log2_self_le (by omega)
    have half : 2 ^ (Nat.log2 (2 * size - 1) - lgSizeClassGroup - 1) * 2 ≤
        2 ^ Nat.log2 (2 * size - 1) := by
      rw [← pow_succ]
      exact Nat.pow_le_pow_right (by norm_num) (by omega)
    omega

/-- A small class is not larger than a page. -/
theorem smallS2u_le_page {size : Nat} (le : size ≤ c.page) : smallS2u size ≤ c.page := by
  have lgPage := c.cacheline_le_page
  have chunk := c.page_le_chunksize
  have two := c.two_chunks_lt_modulus
  have rounded : ∀ lgDelta, lgDelta ≤ c.lgPage → Word.ceil size (2 ^ lgDelta) ≤ c.page := by
    intro lgDelta small
    have divides : 2 ^ lgDelta ∣ c.page := Nat.pow_dvd_pow 2 small
    have bounded := Nat.le_of_dvd c.page_pos divides
    have mono : Word.ceil size (2 ^ lgDelta) ≤ Word.ceil c.page (2 ^ lgDelta) :=
      Word.ceil_mono le (by omega)
    rwa [Word.ceil_eq_of_dvd divides (by omega)] at mono
  unfold smallS2u
  split
  · exact Nat.pow_le_pow_right (by norm_num) (show lgTinyMaxclass ≤ c.lgPage by
      unfold lgTinyMaxclass
      omega)
  next large =>
  apply rounded
  split
  · unfold lgQuantum
    omega
  · have nonzero : 2 * size - 1 ≠ 0 := by
      unfold lgTinyMaxclass at large
      omega
    have power : 2 ^ Nat.log2 (2 * size - 1) ≤ 2 * size - 1 := Nat.log2_self_le nonzero
    have below : 2 ^ Nat.log2 (2 * size - 1) < 2 ^ (c.lgPage + 1) := by
      have double : 2 ^ (c.lgPage + 1) = 2 * c.page := by
        rw [pow_succ]
        exact Nat.mul_comm _ _
      omega
    have := (Nat.pow_lt_pow_iff_right (by norm_num)).mp below
    omega

/-- What `s2u` gives to an arena is an arena class, and enough for the request. -/
theorem s2u_bounds {size : Nat} (le : size ≤ c.arenaMaxclass) :
    size ≤ c.s2u size ∧ c.s2u size ≤ c.arenaMaxclass := by
  have small := c.arenaMaxclass_lt
  have two := c.two_chunks_lt_modulus
  have least : c.page ≤ c.arenaMaxclass :=
    Nat.le_of_dvd c.arenaMaxclass_pos c.page_dvd_arenaMaxclass
  unfold s2u
  split
  · next tiny =>
    unfold smallMaxclass at tiny
    exact ⟨le_smallS2u (by omega), (c.smallS2u_le_page (by omega)).trans least⟩
  · exact c.pageCeiling_le le

/-- With an alignment of at most a page, `sa2u` keeps a size among the arena classes. -/
theorem sa2u_le_of_page {size lgAlign : Nat} (le : size ≤ c.arenaMaxclass)
    (small : 2 ^ lgAlign ≤ c.page) : c.sa2u size (2 ^ lgAlign) ≤ c.arenaMaxclass := by
  have maxclass := c.arenaMaxclass_lt
  have two := c.two_chunks_lt_modulus
  have chunk := c.page_le_chunksize
  have divides : 2 ^ lgAlign ∣ c.page :=
    Nat.pow_dvd_pow 2 ((Nat.pow_le_pow_iff_right (by norm_num)).mp small)
  have aligned : Word.ceil size (2 ^ lgAlign) ≤ c.arenaMaxclass := by
    have mono : Word.ceil size (2 ^ lgAlign) ≤ Word.ceil c.arenaMaxclass (2 ^ lgAlign) :=
      Word.ceil_mono le (by omega)
    rwa [Word.ceil_eq_of_dvd (Nat.dvd_trans divides c.page_dvd_arenaMaxclass) (by omega)] at mono
  have page : c.page ≤ c.arenaMaxclass := Nat.le_of_dvd c.arenaMaxclass_pos c.page_dvd_arenaMaxclass
  unfold sa2u
  dsimp only
  split
  · exact Nat.zero_le _
  rw [if_pos ⟨aligned, small⟩]
  split
  · next tiny =>
      unfold smallMaxclass at tiny
      exact Nat.le_trans (c.smallS2u_le_page (by omega)) page
  · exact (c.pageCeiling_le aligned).2

/-- With an alignment above a page, `sa2u` gives a huge size exactly if a run that is large
enough for every alignment does not fit into a chunk. -/
theorem sa2u_of_large {size lgAlign : Nat} (le : size ≤ c.arenaMaxclass) (word : lgAlign < 64)
    (large : c.page < 2 ^ lgAlign) :
    c.sa2u size (2 ^ lgAlign) =
      if c.pageCeiling size + 2 ^ lgAlign - c.page ≤ c.arenaMaxclass then c.pageCeiling size
      else c.chunkCeiling (c.pageCeiling size) := by
  have maxclass := c.arenaMaxclass_lt
  have chunk := c.chunksize_le
  norm_num at chunk
  have modulus := Word.modulus_eq
  have pageChunk := c.page_le_chunksize
  have positive := c.page_pos
  have bounded : 2 ^ lgAlign ≤ 2 ^ 63 := Nat.pow_le_pow_right (by norm_num) (by omega)
  norm_num at bounded
  have divides : c.page ∣ 2 ^ lgAlign :=
    Nat.pow_dvd_pow 2 (Nat.le_of_lt ((Nat.pow_lt_pow_iff_right (by norm_num)).mp large))
  obtain ⟨lower, upper⟩ := c.pageCeiling_le le
  have alignment : c.pageCeiling (2 ^ lgAlign) = 2 ^ lgAlign :=
    Word.ceil_eq_of_dvd divides (by omega)
  have again : c.pageCeiling (c.pageCeiling size) = c.pageCeiling size :=
    Word.ceil_eq_of_dvd (Word.dvd_ceil _ _) (by omega)
  have enough : size ≤ Word.ceil size (2 ^ lgAlign) :=
    Word.le_ceil (Nat.two_pow_pos _) (by omega)
  unfold sa2u
  dsimp only
  rw [if_neg (by omega), if_neg (fun both => absurd both.2 (by omega)), alignment,
    Word.add_eq (by omega), if_neg (by omega), Word.sub_eq (by omega) (by omega), again]

/-- A size that is rounded to pages stays so. -/
theorem pageCeiling_idem (size : Nat) :
    c.pageCeiling (c.pageCeiling size) = c.pageCeiling size := by
  have divides : c.page ∣ c.pageCeiling size := Word.dvd_ceil _ _
  have gap : c.page ∣ Word.modulus - c.pageCeiling size :=
    Nat.dvd_sub (Nat.dvd_trans c.page_dvd_chunksize c.chunksize_dvd_modulus) divides
  have less : c.pageCeiling size < Word.modulus := Word.ceil_lt _ _
  have := Nat.le_of_dvd (by omega) gap
  have := c.page_pos
  exact Word.ceil_eq_of_dvd divides (by omega)

/-- An alignment of at least a page is left. -/
theorem page_le_pageCeiling {alignment : Nat} (positive : 0 < alignment)
    (fits : alignment ≤ 2 ^ 63) : c.page ≤ c.pageCeiling alignment := by
  have chunk := c.page_le_chunksize
  have bounded := c.chunksize_le
  norm_num at bounded fits
  have modulus := Word.modulus_eq
  have lower : alignment ≤ c.pageCeiling alignment := Word.le_ceil c.page_pos (by omega)
  exact Nat.le_of_dvd (by omega) (Word.dvd_ceil _ _)

/-- A size above the arena classes is a number of chunks. -/
theorem sa2u_whole {size lgAlign : Nat} (word : lgAlign < 64)
    (large : c.arenaMaxclass < c.sa2u size (2 ^ lgAlign)) :
    c.chunkCeiling (c.sa2u size (2 ^ lgAlign)) = c.sa2u size (2 ^ lgAlign) := by
  have bounded : 2 ^ lgAlign ≤ 2 ^ 63 := Nat.pow_le_pow_right (by norm_num) (by omega)
  have page := c.page_le_pageCeiling (Nat.two_pow_pos lgAlign) bounded
  have least : c.page ≤ c.arenaMaxclass :=
    Nat.le_of_dvd c.arenaMaxclass_pos c.page_dvd_arenaMaxclass
  unfold sa2u at large ⊢
  dsimp only at large ⊢
  split at large
  · omega
  next enough =>
  rw [if_neg enough]
  split at large
  · next both =>
      -- the arena classes are not exceeded by rounding
      exfalso
      split at large
      · next tiny =>
          unfold smallMaxclass at tiny
          have := c.smallS2u_le_page (show Word.ceil size (2 ^ lgAlign) ≤ c.page by omega)
          omega
      · have := (c.pageCeiling_le both.1).2
        omega
  next split =>
  rw [if_neg split]
  split at large
  · omega
  next noOverflow =>
  rw [if_neg noOverflow]
  split at large
  · next fits =>
      exfalso
      obtain ⟨_, noWrap⟩ := not_or.mp noOverflow
      have usizeLt : c.pageCeiling size < Word.modulus := Word.ceil_lt _ _
      have alignmentLt : c.pageCeiling (2 ^ lgAlign) < Word.modulus := Word.ceil_lt _ _
      have pagePos := c.page_pos
      have sum : Word.add (c.pageCeiling size) (c.pageCeiling (2 ^ lgAlign)) =
          c.pageCeiling size + c.pageCeiling (2 ^ lgAlign) := by
        by_cases wraps : Word.modulus ≤ c.pageCeiling size + c.pageCeiling (2 ^ lgAlign)
        · rw [Word.add_eq_of_wraps usizeLt alignmentLt wraps] at noWrap
          omega
        · exact Word.add_eq (by omega)
      have below := Word.add_lt (c.pageCeiling size) (c.pageCeiling (2 ^ lgAlign))
      rw [sum] at fits below
      rw [Word.sub_eq (by omega) below] at fits
      rw [c.pageCeiling_idem] at large
      omega
  next tooLarge =>
  rw [if_neg tooLarge]
  exact c.chunkCeiling_eq (c.dvd_chunkCeiling _) (c.chunkCeiling_lt _)

end Config

end Jemalloc
end Vmem
