import Vmem.Jemalloc.SizeClasses

/-!
# Aligned sizes

`sa2u` rounds to the alignment, to pages or to chunks, and `ipalloct` decides again from
the rounded size who serves the request.  The two agree, and rounding twice is rounding
once, with one exception: a size that has just room for its alignment below the end of the
address space may lose that room when it is rounded up to chunks.
-/

namespace Vmem
namespace Jemalloc

/-- The function that `ipalloct` calls. -/
inductive AlignedPath
  | arenaMalloc
  | arenaPalloc
  | hugeMalloc
  | hugePalloc
  deriving DecidableEq

/-- The decision of `ipalloct`. -/
def ipalloctPath (c : Config) (usize alignment : Nat) : AlignedPath :=
  if usize ≤ c.arenaMaxclass ∧ alignment ≤ c.page then .arenaMalloc
  else if usize ≤ c.arenaMaxclass then .arenaPalloc
  else if alignment ≤ c.chunksize then .hugeMalloc
  else .hugePalloc

/-! ## Small classes -/

/-- The logarithm of the end of the group of classes a size is in. -/
def lgGroup (size : Nat) : Nat := Nat.log2 (2 * size - 1)

/-- The distance of the classes of this group. -/
def lgDelta (size : Nat) : Nat :=
  if lgGroup size < lgSizeClassGroup + lgQuantum + 1 then lgQuantum
  else lgGroup size - lgSizeClassGroup - 1

/-- A size is in the upper half of what its group ends with. -/
theorem lgGroup_bounds {size : Nat} (positive : 0 < size) :
    2 ^ lgGroup size < 2 * size ∧ size ≤ 2 ^ lgGroup size := by
  have lower : 2 ^ lgGroup size ≤ 2 * size - 1 := Nat.log2_self_le (by omega)
  have upper : 2 * size - 1 < 2 ^ (lgGroup size + 1) := Nat.lt_log2_self
  rw [pow_succ] at upper
  omega

theorem lgGroup_eq {a b : Nat} (positive : 0 < a) (le : a ≤ b) (within : b ≤ 2 ^ lgGroup a) :
    lgGroup b = lgGroup a := by
  have lower := (lgGroup_bounds positive).1
  refine (Nat.log2_eq_iff (by omega)).mpr ⟨by omega, ?_⟩
  rw [pow_succ]
  omega

theorem lgDelta_le_lgGroup {size : Nat} (large : 8 < size) : lgDelta size ≤ lgGroup size := by
  have upper := (lgGroup_bounds (show 0 < size by omega)).2
  have quantum : 4 ≤ lgGroup size := by
    by_contra less
    have : 2 ^ lgGroup size ≤ 2 ^ 3 := Nat.pow_le_pow_right (by norm_num) (by omega)
    omega
  unfold lgDelta
  split
  · exact quantum
  · omega

/-- Rounding to the distance of the classes stays in the group. -/
theorem up_lgDelta_le {size : Nat} (large : 8 < size) :
    Word.up size (2 ^ lgDelta size) ≤ 2 ^ lgGroup size :=
  Word.up_le_of_dvd (Nat.two_pow_pos _) (Nat.pow_dvd_pow 2 (lgDelta_le_lgGroup large))
    (lgGroup_bounds (by omega)).2

theorem smallS2u_tiny {size : Nat} (tiny : size ≤ 8) : smallS2u size = 8 := by
  unfold smallS2u
  rw [if_pos (show size ≤ 2 ^ lgTinyMaxclass from tiny)]
  rfl

theorem smallS2u_large {size : Nat} (large : 8 < size) (fits : 2 * size < Word.modulus) :
    smallS2u size = Word.up size (2 ^ lgDelta size) := by
  have modulus := Word.modulus_eq
  have bounds := lgGroup_bounds (show 0 < size by omega)
  have within := up_lgDelta_le large
  have power : lgDelta size ≤ 64 := by
    have below : 2 ^ lgGroup size < 2 ^ 64 := by omega
    have := (Nat.pow_lt_pow_iff_right (by norm_num)).mp below
    have := lgDelta_le_lgGroup large
    omega
  have rounded : Word.ceil size (2 ^ lgDelta size) = Word.up size (2 ^ lgDelta size) :=
    Word.ceil_eq_up (Nat.pow_dvd_pow 2 power) (by omega) (by omega)
  unfold smallS2u
  rw [if_neg (show ¬size ≤ 2 ^ lgTinyMaxclass from not_le.mpr large)]
  exact rounded

/-- A power of two that divides a request divides its class. -/
theorem dvd_smallS2u {size k : Nat} (positive : 0 < size) (fits : 2 * size < Word.modulus)
    (divides : 2 ^ k ∣ size) : 2 ^ k ∣ smallS2u size := by
  rcases Nat.lt_or_ge 8 size with large | tiny
  · rw [smallS2u_large large fits]
    rcases Nat.le_total k (lgDelta size) with finer | coarser
    · exact (Nat.pow_dvd_pow 2 finer).trans (Word.dvd_up _ _)
    · rw [Word.up_eq_of_dvd (Nat.two_pow_pos _) ((Nat.pow_dvd_pow 2 coarser).trans divides)]
      exact divides
  · rw [smallS2u_tiny tiny]
    have small : 2 ^ k ≤ 2 ^ 3 := (Nat.le_of_dvd positive divides).trans tiny
    exact Nat.pow_dvd_pow 2 ((Nat.pow_le_pow_iff_right (by norm_num)).mp small)

/-- A class is its own class. -/
theorem smallS2u_idem {size : Nat} (fits : 4 * size < Word.modulus) :
    smallS2u (smallS2u size) = smallS2u size := by
  rcases Nat.lt_or_ge 8 size with large | tiny
  · have lower := Word.le_up (Nat.two_pow_pos (lgDelta size)) size
    have within := up_lgDelta_le large
    have bounds := lgGroup_bounds (show 0 < size by omega)
    have group := lgGroup_eq (show 0 < size by omega) lower within
    have delta : lgDelta (Word.up size (2 ^ lgDelta size)) = lgDelta size := by
      unfold lgDelta at group ⊢
      rw [group]
    rw [smallS2u_large large (by omega), smallS2u_large (by omega) (by omega), delta]
    exact Word.up_eq_of_dvd (Nat.two_pow_pos _) (Word.dvd_up _ _)
  · rw [smallS2u_tiny tiny, smallS2u_tiny le_rfl]

/-! ## The size that is computed -/

namespace Config

variable (c : Config)

theorem two_pages_le_chunksize : 2 * c.page ≤ c.chunksize := by
  have power : 2 ^ (c.lgPage + 1) ≤ 2 ^ c.lgChunk :=
    Nat.pow_le_pow_right (by norm_num) c.page_lt_chunk
  rw [pow_succ, Nat.mul_comm] at power
  exact power

theorem page_le_arenaMaxclass : c.page ≤ c.arenaMaxclass :=
  Nat.le_of_dvd c.arenaMaxclass_pos c.page_dvd_arenaMaxclass

theorem page_dvd_modulus : c.page ∣ Word.modulus :=
  c.page_dvd_chunksize.trans c.chunksize_dvd_modulus

/-- The class of a size that is a multiple of its alignment. -/
def alignedClass (usize : Nat) : Nat :=
  if usize ≤ c.smallMaxclass then smallS2u usize else c.pageCeiling usize

/-- An alignment is rounded up to a page. -/
theorem pageCeiling_alignment {lgAlign : Nat} (word : lgAlign < 64) :
    c.pageCeiling (2 ^ lgAlign) = max (2 ^ lgAlign) c.page := by
  have modulus := Word.modulus_eq
  have bounded : 2 ^ lgAlign ≤ 2 ^ 63 := Nat.pow_le_pow_right (by norm_num) (by omega)
  have chunk := c.chunksize_le
  have pageChunk := c.page_le_chunksize
  have rounded : Word.up (2 ^ lgAlign) c.page = max (2 ^ lgAlign) c.page := by
    rcases Nat.le_total (2 ^ lgAlign) c.page with small | large
    · rw [Nat.max_eq_right small]
      apply Nat.le_antisymm (Word.up_le_of_dvd c.page_pos dvd_rfl small)
      exact Nat.le_of_dvd ((Nat.two_pow_pos lgAlign).trans_le (Word.le_up c.page_pos _))
        (Word.dvd_up _ _)
    · rw [Nat.max_eq_left large]
      exact Word.up_eq_of_dvd c.page_pos
        (Nat.pow_dvd_pow 2 ((Nat.pow_le_pow_iff_right (by norm_num)).mp large))
  norm_num at bounded chunk
  unfold pageCeiling
  rw [Word.ceil_eq_up c.page_dvd_modulus (by omega) (by omega), rounded]

/-- `sa2u` without wrapping sums. -/
theorem sa2u_eq {size lgAlign : Nat} (positive : 0 < size) (sizeLt : size < Word.modulus)
    (word : lgAlign < 64) :
    c.sa2u size (2 ^ lgAlign) =
      if Word.modulus ≤ Word.up size (2 ^ lgAlign) then 0
      else if Word.up size (2 ^ lgAlign) ≤ c.arenaMaxclass ∧ 2 ^ lgAlign ≤ c.page then
        c.alignedClass (Word.up size (2 ^ lgAlign))
      else if Word.modulus ≤ Word.up size c.page + max (2 ^ lgAlign) c.page then 0
      else if Word.up size c.page + max (2 ^ lgAlign) c.page - c.page ≤ c.arenaMaxclass then
        Word.up size c.page
      else if Word.modulus ≤ Word.up size c.chunksize then 0
      else Word.up size c.chunksize := by
  have modulus := Word.modulus_eq
  have bounded : 2 ^ lgAlign ≤ 2 ^ 63 := Nat.pow_le_pow_right (by norm_num) (by omega)
  have chunk := c.chunksize_le
  have pageChunk := c.page_le_chunksize
  have alignDvd : 2 ^ lgAlign ∣ Word.modulus := Nat.pow_dvd_pow 2 (by omega)
  norm_num at bounded chunk
  unfold sa2u
  dsimp only
  by_cases wraps : Word.modulus ≤ Word.up size (2 ^ lgAlign)
  · rw [if_pos wraps, Word.ceil_eq_zero alignDvd sizeLt wraps, if_pos positive]
  have lower := Word.le_up (Nat.two_pow_pos lgAlign) size
  rw [if_neg wraps, Word.ceil_eq_up alignDvd sizeLt (by omega), if_neg (by omega)]
  by_cases classes : Word.up size (2 ^ lgAlign) ≤ c.arenaMaxclass ∧ 2 ^ lgAlign ≤ c.page
  · rw [if_pos classes, if_pos classes]
    rfl
  rw [if_neg classes, if_neg classes, c.pageCeiling_alignment word]
  have maxLt : max (2 ^ lgAlign) c.page < Word.modulus := by omega
  have pageLower := Word.le_up c.page_pos size
  by_cases pageWraps : Word.modulus ≤ Word.up size c.page
  · have zero : c.pageCeiling size = 0 := Word.ceil_eq_zero c.page_dvd_modulus sizeLt pageWraps
    rw [zero, if_pos (Or.inl positive), if_pos (by omega)]
  have pages : c.pageCeiling size = Word.up size c.page :=
    Word.ceil_eq_up c.page_dvd_modulus sizeLt (by omega)
  have again := c.pageCeiling_idem size
  rw [pages] at again ⊢
  by_cases sumWraps : Word.modulus ≤ Word.up size c.page + max (2 ^ lgAlign) c.page
  · rw [if_pos sumWraps, if_pos]
    right
    rw [Word.add_eq_of_wraps (by omega) maxLt sumWraps]
    omega
  rw [if_neg sumWraps, Word.add_eq (by omega), if_neg (by omega),
    Word.sub_eq (by omega) (by omega), again]
  have chunks : c.chunkCeiling (Word.up size c.page) =
      if Word.modulus ≤ Word.up size c.chunksize then 0 else Word.up size c.chunksize := by
    have absorbed := Word.up_up c.page_dvd_chunksize c.chunksize_pos size
    unfold chunkCeiling
    split
    · next chunkWraps =>
      exact Word.ceil_eq_zero c.chunksize_dvd_modulus (by omega) (absorbed ▸ chunkWraps)
    · next chunkFits =>
      rw [Word.ceil_eq_up c.chunksize_dvd_modulus (by omega) (by omega), absorbed]
  rw [chunks]

/-! ## The classes -/

/-- A small class above the largest one is a page. -/
theorem smallS2u_eq_page {size : Nat} (le : size ≤ c.smallMaxclass)
    (above : c.smallMaxclass < smallS2u size) : smallS2u size = c.page := by
  have line := c.cacheline_le_page
  have chunk := c.chunksize_le
  have modulus := Word.modulus_eq
  have pageChunk := c.page_le_chunksize
  have eighth : c.page = 8 * 2 ^ (c.lgPage - 3) := by
    unfold page
    rw [show c.lgPage = (c.lgPage - 3) + 3 by omega, pow_add]
    norm_num
    ring
  have wide : 2 ^ 3 ≤ 2 ^ (c.lgPage - 3) := Nat.pow_le_pow_right (by norm_num) (by omega)
  have short : c.smallMaxclass = 7 * 2 ^ (c.lgPage - 3) := by
    unfold smallMaxclass
    omega
  norm_num at chunk
  rcases Nat.lt_or_ge 8 size with large | tiny
  · have upper := c.smallS2u_le_page (show size ≤ c.page by omega)
    have bounds := lgGroup_bounds (show 0 < size by omega)
    have within := up_lgDelta_le large
    rw [smallS2u_large large (by omega)] at above upper ⊢
    -- the class is in the last group below a page
    have group : lgGroup size = c.lgPage := by
      apply Nat.le_antisymm
      · have below : 2 ^ lgGroup size < 2 ^ (c.lgPage + 1) := by
          rw [pow_succ]
          change _ < c.page * 2
          omega
        have := (Nat.pow_lt_pow_iff_right (by norm_num)).mp below
        omega
      · by_contra less
        have half : 2 ^ (lgGroup size + 1) ≤ c.page :=
          Nat.pow_le_pow_right (by norm_num) (by omega)
        rw [pow_succ] at half
        omega
    have finer : c.lgPage - 3 ≤ lgDelta size := by
      unfold lgDelta
      rw [group]
      norm_num [lgSizeClassGroup, lgQuantum]
      split
      · omega
      · omega
    obtain ⟨count, whole⟩ := (Nat.pow_dvd_pow 2 finer).trans (Word.dvd_up size (2 ^ lgDelta size))
    rw [whole] at above upper ⊢
    rw [eighth] at upper ⊢
    rw [short, Nat.mul_comm] at above
    rw [Nat.mul_comm] at upper
    have most : count ≤ 8 := Nat.le_of_mul_le_mul_right upper (Nat.two_pow_pos (c.lgPage - 3))
    have least : 7 < count := by
      apply Nat.lt_of_mul_lt_mul_left (a := 2 ^ (c.lgPage - 3))
      exact above
    rw [show count = 8 by omega, Nat.mul_comm]
  · rw [smallS2u_tiny tiny] at above
    omega

/-- The class of an aligned size that fits an arena. -/
theorem alignedClass_spec {usize lgAlign : Nat} (positive : 0 < usize)
    (fits : usize ≤ c.arenaMaxclass) (small : 2 ^ lgAlign ≤ c.page)
    (divides : 2 ^ lgAlign ∣ usize) :
    usize ≤ c.alignedClass usize ∧ c.alignedClass usize ≤ c.arenaMaxclass ∧
      2 ^ lgAlign ∣ c.alignedClass usize ∧
      c.alignedClass (c.alignedClass usize) = c.alignedClass usize := by
  have chunk := c.chunksize_le
  have modulus := Word.modulus_eq
  have pageChunk := c.page_le_chunksize
  have least := c.page_le_arenaMaxclass
  have pages := c.two_pages_le_chunksize
  norm_num at chunk
  have smallLe : c.smallMaxclass ≤ c.page := Nat.sub_le ..
  unfold alignedClass
  by_cases tiny : usize ≤ c.smallMaxclass
  · rw [if_pos tiny]
    have upper := c.smallS2u_le_page (show usize ≤ c.page by omega)
    refine ⟨le_smallS2u (by omega), by omega, dvd_smallS2u positive (by omega) divides, ?_⟩
    split
    · exact smallS2u_idem (by omega)
    · next above =>
      rw [c.smallS2u_eq_page tiny (not_le.mp above)]
      exact Word.ceil_eq_of_dvd dvd_rfl (by omega)
  · obtain ⟨lower, upper⟩ := c.pageCeiling_le fits
    rw [if_neg tiny, if_neg (by omega), c.pageCeiling_idem]
    exact ⟨lower, upper, (Nat.pow_dvd_pow 2
      ((Nat.pow_le_pow_iff_right (by norm_num)).mp small)).trans (Word.dvd_ceil _ _), rfl⟩

end Config

/-! ## Sizes and paths -/

variable {c : Config} {size lgAlign : Nat}

/-- What `sa2u` computes, and why. -/
inductive AlignedOutcome (c : Config) (size alignment : Nat) : Prop
  | overflow (zero : c.sa2u size alignment = 0)
      (limit : Word.modulus ≤ size + alignment + c.chunksize)
  | classes (small : alignment ≤ c.page) (fits : Word.up size alignment ≤ c.arenaMaxclass)
      (usize : c.sa2u size alignment = c.alignedClass (Word.up size alignment))
  | run (large : c.page < alignment)
      (fits : Word.up size c.page + alignment - c.page ≤ c.arenaMaxclass)
      (usize : c.sa2u size alignment = Word.up size c.page)
  | chunks (room : Word.up size alignment < Word.modulus)
      (pageRoom : Word.up size c.page + max alignment c.page < Word.modulus)
      (below : Word.up size c.chunksize < Word.modulus)
      (usize : c.sa2u size alignment = Word.up size c.chunksize)

theorem sa2u_outcome (positive : 0 < size) (sizeLt : size < Word.modulus) (word : lgAlign < 64) :
    AlignedOutcome c size (2 ^ lgAlign) := by
  have formula := c.sa2u_eq positive sizeLt word
  have pages := c.two_pages_le_chunksize
  have pagePositive := c.page_pos
  by_cases wraps : Word.modulus ≤ Word.up size (2 ^ lgAlign)
  · rw [if_pos wraps] at formula
    have := Word.up_lt_add (Nat.two_pow_pos lgAlign) size
    exact .overflow formula (by omega)
  rw [if_neg wraps] at formula
  by_cases classes : Word.up size (2 ^ lgAlign) ≤ c.arenaMaxclass ∧ 2 ^ lgAlign ≤ c.page
  · rw [if_pos classes] at formula
    exact .classes classes.2 classes.1 formula
  rw [if_neg classes] at formula
  have pageUpper := Word.up_lt_add c.page_pos size
  by_cases sumWraps : Word.modulus ≤ Word.up size c.page + max (2 ^ lgAlign) c.page
  · rw [if_pos sumWraps] at formula
    have := Nat.two_pow_pos lgAlign
    exact .overflow formula (by omega)
  rw [if_neg sumWraps] at formula
  by_cases fits : Word.up size c.page + max (2 ^ lgAlign) c.page - c.page ≤ c.arenaMaxclass
  · rw [if_pos fits] at formula
    have large : c.page < 2 ^ lgAlign := by
      by_contra small
      have divides : 2 ^ lgAlign ∣ c.page :=
        Nat.pow_dvd_pow 2 ((Nat.pow_le_pow_iff_right (by norm_num)).mp (not_lt.mp small))
      have finer : Word.up size (2 ^ lgAlign) ≤ Word.up size c.page :=
        Word.up_le_of_dvd (Nat.two_pow_pos _) (divides.trans (Word.dvd_up _ _))
          (Word.le_up c.page_pos size)
      exact classes ⟨by omega, by omega⟩
    exact .run large (by omega) formula
  rw [if_neg fits] at formula
  by_cases chunkWraps : Word.modulus ≤ Word.up size c.chunksize
  · rw [if_pos chunkWraps] at formula
    have := Word.up_lt_add c.chunksize_pos size
    have := Nat.two_pow_pos lgAlign
    exact .overflow formula (by omega)
  · rw [if_neg chunkWraps] at formula
    exact .chunks (by omega) (by omega) (by omega) formula

/-- A size that is enough, that `sa2u` leaves, and for which the path of `ipalloct` can honour
the alignment. -/
structure HonoredSize (c : Config) (size alignment usize : Nat) : Prop where
  enough : size ≤ usize
  /-- The assertion of `ipalloct`. -/
  fixed : c.sa2u usize alignment = usize
  arenaMalloc : ipalloctPath c usize alignment = .arenaMalloc →
    alignment ≤ c.page ∧ alignment ∣ usize
  arenaPalloc : ipalloctPath c usize alignment = .arenaPalloc →
    usize + alignment - c.page ≤ c.arenaMaxclass
  huge : ipalloctPath c usize alignment ≠ .arenaMalloc →
    ipalloctPath c usize alignment ≠ .arenaPalloc →
      c.arenaMaxclass < usize ∧ c.chunksize ∣ usize ∧
        (ipalloctPath c usize alignment = .hugeMalloc ↔ alignment ≤ c.chunksize)

/-- `sa2u` refuses only sizes near the limit of the address space, and others are honoured. -/
def SoundAlignedSize (c : Config) (size alignment : Nat) : Prop :=
  (c.sa2u size alignment = 0 → Word.modulus ≤ size + alignment + c.chunksize) ∧
    (c.sa2u size alignment ≠ 0 →
      HonoredSize c size alignment (c.sa2u size alignment))

/-- The size rounded up to pages has room for the alignment below the limit of the address
space, and rounded up to chunks it has not. -/
def LosesRoom (c : Config) (size alignment : Nat) : Prop :=
  c.chunksize ≤ alignment ∧ Word.modulus < size + alignment + c.chunksize ∧
    size + alignment + c.page ≤ Word.modulus

/-- A size that `sa2u` rounds to chunks is left exactly if the alignment still fits behind it. -/
theorem sa2u_chunks_fixed (positive : 0 < size) (word : lgAlign < 64)
    (room : Word.up size (2 ^ lgAlign) < Word.modulus)
    (below : Word.up size c.chunksize < Word.modulus) :
    c.sa2u (Word.up size c.chunksize) (2 ^ lgAlign) = Word.up size c.chunksize ↔
      Word.up size c.chunksize + max (2 ^ lgAlign) c.page < Word.modulus := by
  have lower := Word.le_up c.chunksize_pos size
  have whole := Word.dvd_up size c.chunksize
  have long := Nat.le_of_dvd (by omega) whole
  have maxclass := c.arenaMaxclass_lt
  have pageSame : Word.up (Word.up size c.chunksize) c.page = Word.up size c.chunksize :=
    Word.up_eq_of_dvd c.page_pos (c.page_dvd_chunksize.trans whole)
  have chunkSame : Word.up (Word.up size c.chunksize) c.chunksize = Word.up size c.chunksize :=
    Word.up_eq_of_dvd c.chunksize_pos whole
  have aligned : Word.up (Word.up size c.chunksize) (2 ^ lgAlign) < Word.modulus := by
    rcases Nat.le_total lgAlign c.lgChunk with small | large
    · rw [Word.up_eq_of_dvd (Nat.two_pow_pos _) ((Nat.pow_dvd_pow 2 small).trans whole)]
      exact below
    · have divides : c.chunksize ∣ 2 ^ lgAlign := Nat.pow_dvd_pow 2 large
      rw [Word.up_up divides (Nat.two_pow_pos _)]
      exact room
  have notClasses : ¬(Word.up (Word.up size c.chunksize) (2 ^ lgAlign) ≤ c.arenaMaxclass ∧
      2 ^ lgAlign ≤ c.page) := by
    have := Word.le_up (Nat.two_pow_pos lgAlign) (Word.up size c.chunksize)
    omega
  rw [c.sa2u_eq (by omega) below word, if_neg (not_le.mpr aligned), if_neg notClasses, pageSame,
    chunkSame, if_neg (not_le.mpr below)]
  by_cases fits : Word.modulus ≤ Word.up size c.chunksize + max (2 ^ lgAlign) c.page
  · rw [if_pos fits]
    exact iff_of_false (by omega) (not_lt.mpr fits)
  · rw [if_neg fits, if_neg (by omega)]
    exact iff_of_true rfl (not_le.mp fits)

/-- Only an alignment of at least a chunk may no longer fit. -/
theorem losesRoom_of_chunks
    (pageRoom : Word.up size c.page + max (2 ^ lgAlign) c.page < Word.modulus)
    (below : Word.up size c.chunksize < Word.modulus)
    (passes : Word.modulus ≤ Word.up size c.chunksize + max (2 ^ lgAlign) c.page) :
    LosesRoom c size (2 ^ lgAlign) := by
  have pageChunk := c.page_le_chunksize
  have pages := c.two_pages_le_chunksize
  have pagePositive := c.page_pos
  have lower := Word.le_up c.page_pos size
  have upper := Word.up_lt_add c.chunksize_pos size
  have last : c.chunksize ≤ Word.modulus - Word.up size c.chunksize :=
    Nat.le_of_dvd (by omega) (Nat.dvd_sub c.chunksize_dvd_modulus (Word.dvd_up size c.chunksize))
  have large : c.chunksize ≤ 2 ^ lgAlign := by omega
  have pageDvd : c.page ∣ 2 ^ lgAlign := c.page_dvd_chunksize.trans
    (Nat.pow_dvd_pow 2 ((Nat.pow_le_pow_iff_right (by norm_num)).mp large))
  have lastPage : c.page ≤ Word.modulus - (Word.up size c.page + 2 ^ lgAlign) :=
    Nat.le_of_dvd (by omega)
      (Nat.dvd_sub c.page_dvd_modulus (Nat.dvd_add (Word.dvd_up size c.page) pageDvd))
  exact ⟨large, by omega, by omega⟩

/-- A size that loses its room is rounded to chunks, and then refused. -/
theorem LosesRoom.not_fixed (loses : LosesRoom c size (2 ^ lgAlign)) (positive : 0 < size)
    (word : lgAlign < 64) :
    c.sa2u size (2 ^ lgAlign) ≠ 0 ∧
      c.sa2u (c.sa2u size (2 ^ lgAlign)) (2 ^ lgAlign) ≠ c.sa2u size (2 ^ lgAlign) := by
  obtain ⟨large, near, fits⟩ := loses
  have pageChunk := c.page_le_chunksize
  have pages := c.two_pages_le_chunksize
  have pagePositive := c.page_pos
  have maxclass := c.arenaMaxclass_lt
  have chunkDvd : c.chunksize ∣ 2 ^ lgAlign :=
    Nat.pow_dvd_pow 2 ((Nat.pow_le_pow_iff_right (by norm_num)).mp large)
  have alignDvd : 2 ^ lgAlign ∣ Word.modulus := Nat.pow_dvd_pow 2 (by omega)
  have pageDvd := c.page_dvd_chunksize.trans chunkDvd
  have whole : Word.up size (2 ^ lgAlign) ≤ Word.modulus - 2 ^ lgAlign :=
    Word.up_le_of_dvd (Nat.two_pow_pos _) (Nat.dvd_sub alignDvd dvd_rfl) (by omega)
  have wholePages : Word.up size c.page ≤ Word.modulus - 2 ^ lgAlign - c.page :=
    Word.up_le_of_dvd c.page_pos
      (Nat.dvd_sub (Nat.dvd_sub c.page_dvd_modulus pageDvd) dvd_rfl) (by omega)
  have wholeChunks : Word.up size c.chunksize ≤ Word.modulus - 2 ^ lgAlign :=
    Word.up_le_of_dvd c.chunksize_pos (Nat.dvd_sub c.chunksize_dvd_modulus chunkDvd) (by omega)
  have lower := Word.le_up c.chunksize_pos size
  have lowerPages := Word.le_up c.page_pos size
  have longPages := Nat.le_of_dvd (by omega) (Word.dvd_up size c.page)
  have usize : c.sa2u size (2 ^ lgAlign) = Word.up size c.chunksize := by
    rw [c.sa2u_eq positive (by omega) word, if_neg (by omega), if_neg (by omega),
      if_neg (by omega), if_neg (by omega), if_neg (by omega)]
  -- the next number of chunks is where the alignment ends
  have short : Word.modulus - 2 ^ lgAlign - Word.up size c.chunksize < c.chunksize := by omega
  have none : Word.modulus - 2 ^ lgAlign - Word.up size c.chunksize = 0 :=
    Nat.eq_zero_of_dvd_of_lt
      (Nat.dvd_sub (Nat.dvd_sub c.chunksize_dvd_modulus chunkDvd) (Word.dvd_up _ _)) short
  rw [usize]
  refine ⟨by omega, ?_⟩
  rw [Ne, sa2u_chunks_fixed positive word (by omega) (by omega)]
  omega

/-- A size that is left by `sa2u` is honoured. -/
theorem honoredSize_of_fixed (positive : 0 < size) (sizeLt : size < Word.modulus)
    (word : lgAlign < 64) (nonzero : c.sa2u size (2 ^ lgAlign) ≠ 0)
    (fixed : c.sa2u (c.sa2u size (2 ^ lgAlign)) (2 ^ lgAlign) = c.sa2u size (2 ^ lgAlign)) :
    HonoredSize c size (2 ^ lgAlign) (c.sa2u size (2 ^ lgAlign)) := by
  have maxclass := c.arenaMaxclass_lt
  have pageChunk := c.page_le_chunksize
  cases sa2u_outcome (c := c) positive sizeLt word with
  | overflow zero limit => exact absurd zero nonzero
  | classes small fits usize =>
      have lower := Word.le_up (Nat.two_pow_pos lgAlign) size
      obtain ⟨atLeast, atMost, divides, _⟩ :=
        c.alignedClass_spec (by omega) fits small (Word.dvd_up size (2 ^ lgAlign))
      rw [← usize] at atLeast atMost divides
      have path : ipalloctPath c (c.sa2u size (2 ^ lgAlign)) (2 ^ lgAlign) = .arenaMalloc :=
        if_pos ⟨atMost, small⟩
      rw [← usize] at *
      refine ⟨by omega, fixed, fun _ => ⟨small, divides⟩, fun palloc => ?_, fun huge => ?_⟩
      · rw [path] at palloc
        cases palloc
      · exact absurd path huge
  | run large fits usize =>
      have lower := Word.le_up c.page_pos size
      have path : ipalloctPath c (Word.up size c.page) (2 ^ lgAlign) = .arenaPalloc := by
        unfold ipalloctPath
        rw [if_neg (by omega), if_pos (by omega)]
      rw [usize] at fixed ⊢
      refine ⟨lower, fixed, fun malloc => ?_, fun _ => fits, fun _ huge => ?_⟩
      · rw [path] at malloc
        cases malloc
      · exact absurd path huge
  | chunks room pageRoom below usize =>
      have lower := Word.le_up c.chunksize_pos size
      have whole := Word.dvd_up size c.chunksize
      have long := Nat.le_of_dvd (by omega) whole
      have path : ipalloctPath c (Word.up size c.chunksize) (2 ^ lgAlign) =
          if 2 ^ lgAlign ≤ c.chunksize then .hugeMalloc else .hugePalloc := by
        unfold ipalloctPath
        rw [if_neg (by omega), if_neg (by omega)]
      rw [usize] at fixed ⊢
      refine ⟨lower, fixed, fun malloc => ?_, fun palloc => ?_, fun _ _ => ?_⟩
      · rw [path] at malloc
        split at malloc
        · cases malloc
        · cases malloc
      · rw [path] at palloc
        split at palloc
        · cases palloc
        · cases palloc
      · refine ⟨by omega, whole, ?_⟩
        rw [path]
        split
        · next small => exact iff_of_true rfl small
        · next large => exact iff_of_false (fun same => by cases same) large

/-- The size is left by `sa2u`, unless the room for the alignment is lost. -/
theorem sa2u_fixed (positive : 0 < size) (sizeLt : size < Word.modulus) (word : lgAlign < 64)
    (nonzero : c.sa2u size (2 ^ lgAlign) ≠ 0) (keeps : ¬LosesRoom c size (2 ^ lgAlign)) :
    c.sa2u (c.sa2u size (2 ^ lgAlign)) (2 ^ lgAlign) = c.sa2u size (2 ^ lgAlign) := by
  have maxclass := c.arenaMaxclass_lt
  have two := c.two_chunks_lt_modulus
  cases sa2u_outcome (c := c) positive sizeLt word with
  | overflow zero limit => exact absurd zero nonzero
  | classes small fits usize =>
      have lower := Word.le_up (Nat.two_pow_pos lgAlign) size
      obtain ⟨atLeast, atMost, divides, again⟩ :=
        c.alignedClass_spec (by omega) fits small (Word.dvd_up size (2 ^ lgAlign))
      rw [usize, c.sa2u_eq (by omega) (by omega) word,
        Word.up_eq_of_dvd (Nat.two_pow_pos _) divides, if_neg (by omega), if_pos ⟨atMost, small⟩]
      exact again
  | run large fits usize =>
      have lower := Word.le_up c.page_pos size
      have upper := Word.up_lt_add (Nat.two_pow_pos lgAlign) (Word.up size c.page)
      have long := Nat.le_of_dvd (by omega) (Word.dvd_up size c.page)
      rw [usize, c.sa2u_eq (by omega) (by omega) word, if_neg (by omega), if_neg (by omega),
        Word.up_eq_of_dvd c.page_pos (Word.dvd_up size c.page), if_neg (by omega),
        if_pos (by omega)]
  | chunks room pageRoom below usize =>
      rw [usize, sa2u_chunks_fixed positive word room below]
      by_contra passes
      exact keeps (losesRoom_of_chunks pageRoom below (not_lt.mp passes))

/-- For every size and every alignment: the size that `sa2u` computes is refused only near the
limit of the address space, is enough, is left by `sa2u`, and takes a path that honours the
alignment, exactly if rounding to chunks does not take away the room for the alignment. -/
theorem sound_aligned_size_iff (c : Config) (positive : 0 < size) (sizeLt : size < Word.modulus)
    (word : lgAlign < 64) :
    SoundAlignedSize c size (2 ^ lgAlign) ↔ ¬LosesRoom c size (2 ^ lgAlign) := by
  constructor
  · intro sound loses
    obtain ⟨nonzero, moves⟩ := loses.not_fixed positive word
    exact moves (sound.2 nonzero).fixed
  · intro keeps
    refine ⟨fun zero => ?_, fun nonzero => honoredSize_of_fixed positive sizeLt word nonzero
      (sa2u_fixed positive sizeLt word nonzero keeps)⟩
    cases sa2u_outcome (c := c) positive sizeLt word with
    | overflow _ limit => exact limit
    | classes small fits usize =>
        have lower := Word.le_up (Nat.two_pow_pos lgAlign) size
        have atLeast := (c.alignedClass_spec (by omega) fits small
          (Word.dvd_up size (2 ^ lgAlign))).1
        omega
    | run large fits usize =>
        have lower := Word.le_up c.page_pos size
        omega
    | chunks room pageRoom below usize =>
        have lower := Word.le_up c.chunksize_pos size
        omega

/-- A request of 100 bytes on 64 is rounded to 128, which is a class on 64. -/
theorem sound_aligned_size_iff_hundred : SoundAlignedSize defaultConfig 100 (2 ^ 6) :=
  (sound_aligned_size_iff defaultConfig (by decide) (by decide) (by decide)).mpr
    (fun loses => absurd loses.1 (by decide +kernel))

/-- A size of 2^63 bytes less one chunk, and one page, on 2^63: the size is rounded to 2^63,
which `sa2u` refuses. -/
theorem sound_aligned_size_fails :
    defaultConfig.sa2u 9223372036850585600 (2 ^ 63) = 2 ^ 63 ∧
      defaultConfig.sa2u (2 ^ 63) (2 ^ 63) = 0 ∧
      ¬SoundAlignedSize defaultConfig 9223372036850585600 (2 ^ 63) := by
  have rounded : defaultConfig.sa2u 9223372036850585600 (2 ^ 63) = 2 ^ 63 := by decide +kernel
  have refused : defaultConfig.sa2u (2 ^ 63) (2 ^ 63) = 0 := by decide +kernel
  refine ⟨rounded, refused, fun sound => ?_⟩
  have honored := sound.2
  rw [rounded] at honored
  have fixed := (honored (by decide)).fixed
  rw [refused] at fixed
  exact absurd fixed (by decide)

end Jemalloc
end Vmem
