import Vmem.Library.Lines
import Vmem.Library.RangeQueue
import Vmem.Library.Scanf

/-!
# Looking for an unused range of addresses

`util_map_hint_unused` of `mmap_posix.c` reads the mappings of the process and carries along the
lowest aligned address that is not yet known to be in use.  It goes on behind a mapping that it
meets and stops at a mapping that begins late enough.
-/

namespace Vmem
namespace Common

/-- How `sscanf` reads a range with `sscanf_os`: the two pointers if both are converted.  What
`%p` matches is left to the C library. -/
structure RangeFormat where
  scan : List Char → Option (Nat × Nat)
  words : ∀ {line lo hi}, scan line = some (lo, hi) → lo < Word.modulus ∧ hi < Word.modulus

/-- `PROCMAXLEN`: maximum expected line length in /proc files. -/
def procMaxLen : Nat := 2048

/-- `UINTPTR_MAX`. -/
def uintptrMax : Nat := Word.modulus - 1

/-- `MAP_FAILED`. -/
def mapFailed : Nat := Word.modulus - 1

/-- The loop of `util_map_hint_unused` over what `fgets` reads. -/
def scanMaps (format : RangeFormat) (len align : Nat) : List (List Char) → Nat → Nat
  | [], raddr => raddr
  | line :: rest, raddr =>
      match format.scan line with
      | none => scanMaps format len align rest raddr
      | some (lo, hi) =>
          if lo > raddr ∧ lo - raddr ≥ len then raddr -- unused region found
          else
            let raddr := if hi > raddr then Word.ceil hi align else raddr
            if raddr = 0 then raddr -- end of address space reached
            else scanMaps format len align rest raddr

/-- `util_map_hint_unused`; the file is `none` when it cannot be opened. -/
def utilMapHintUnused (format : RangeFormat) (pagesize : Nat) (file : Option (List Char))
    (minaddr len align : Nat) : Nat :=
  match file with
  | none => mapFailed
  | some file =>
      let raddr := if minaddr = 0 then Word.add minaddr pagesize else minaddr
      let raddr := Word.ceil raddr align
      let raddr := scanMaps format len align (Lines.fgetsAll procMaxLen file.length file) raddr
      if raddr ≠ 0 ∧ uintptrMax - raddr < len then mapFailed else raddr

/-! ## Holes between ranges -/

/-- The ranges that the lines of a file give. -/
def rangesOf (format : RangeFormat) (file : List Char) : List (Nat × Nat) :=
  (Lines.linesOf file).filterMap format.scan

/-- The ranges that the scan reads, where `fgets` cuts lines that are too long. -/
def rangesRead (format : RangeFormat) (file : List Char) : List (Nat × Nat) :=
  (Lines.fgetsAll procMaxLen file.length file).filterMap format.scan

/-- An aligned range of addresses, not below a given one, that has no byte in common with a list
of ranges. -/
structure Hole (ranges : List (Nat × Nat)) (least len align addr : Nat) : Prop where
  aligned : align ∣ addr
  least_le : least ≤ addr
  free : ∀ range ∈ ranges, addr + len ≤ range.1 ∨ range.2 ≤ addr

/-- Ranges in order, none of them empty. -/
def RangesInOrder (ranges : List (Nat × Nat)) : Prop := RangeQueue.InOrder Prod.fst Prod.snd ranges

variable {format : RangeFormat} {ranges : List (Nat × Nat)} {range : Nat × Nat}
  {lines : List (List Char)} {file : List Char}
  {least len align addr raddr minaddr pagesize lgAlign : Nat}

/-- With lines that fit into the buffer, the scan reads the ranges of the lines. -/
theorem rangesRead_eq (fits : ∀ line ∈ Lines.linesOf file, line.length < procMaxLen) :
    rangesRead format file = rangesOf format file := by
  unfold rangesRead rangesOf
  rw [Lines.fgetsAll_eq_linesOf fits le_rfl]

/-- A range that ends at or before the least address does not matter. -/
theorem hole_cons_of_le (ends : range.2 ≤ least) :
    Hole (range :: ranges) least len align addr ↔ Hole ranges least len align addr := by
  constructor
  · rintro ⟨aligned, least_le, free⟩
    exact ⟨aligned, least_le, fun other member => free other (List.mem_cons_of_mem range member)⟩
  · rintro ⟨aligned, least_le, free⟩
    refine ⟨aligned, least_le, fun other member => ?_⟩
    rcases List.mem_cons.mp member with rfl | member
    · exact Or.inr (ends.trans least_le)
    · exact free other member

/-- A hole does not begin before a range that begins too early. -/
theorem Hole.behind (hole : Hole (range :: ranges) least len align addr) (nonempty : 0 < len)
    (early : ¬(least < range.1 ∧ len ≤ range.1 - least)) : range.2 ≤ addr := by
  have := hole.least_le
  rcases hole.free range List.mem_cons_self with before | behind
  · omega
  · exact behind

theorem Hole.raise {higher : Nat} (hole : Hole ranges least len align addr)
    (le : higher ≤ addr) : Hole ranges higher len align addr := ⟨hole.aligned, le, hole.free⟩

/-- Where the next range begins late enough, the least address is a hole. -/
theorem hole_least (inOrder : RangesInOrder (range :: ranges)) (aligned : align ∣ least)
    (late : least < range.1 ∧ len ≤ range.1 - least) :
    Hole (range :: ranges) least len align least := by
  refine ⟨aligned, le_rfl, fun other member => Or.inl ?_⟩
  rcases List.mem_cons.mp member with rfl | member
  · omega
  · have long := inOrder.nonempty range List.mem_cons_self
    have := inOrder.head_le member
    omega

/-- The lowest hole among the words, or 0 if there is none. -/
structure LowestHole (ranges : List (Nat × Nat)) (least len align addr : Nat) : Prop where
  fits : addr < Word.modulus
  hole : addr ≠ 0 → Hole ranges least len align addr
  lowest : addr ≠ 0 → ∀ lower < addr, ¬Hole ranges least len align lower
  none : addr = 0 → ∀ other < Word.modulus, ¬Hole ranges least len align other

theorem scanMaps_lowest (divides : align ∣ Word.modulus)
    (nonempty : 0 < len)
    (inOrder : RangesInOrder (lines.filterMap format.scan)) (aligned : align ∣ raddr)
    (fits : raddr < Word.modulus) (positive : 0 < raddr) :
    LowestHole (lines.filterMap format.scan) raddr len align
      (scanMaps format len align lines raddr) := by
  have alignPositive : 0 < align := Nat.pos_of_dvd_of_pos divides (by decide)
  induction lines generalizing raddr with
  | nil =>
      refine ⟨fits, fun _ => ⟨aligned, le_rfl, fun _ never => by cases never⟩,
        fun _ lower less hole => ?_, fun zero => ?_⟩
      · exact absurd hole.least_le (Nat.not_le.mpr less)
      · exact absurd zero (Nat.ne_of_gt positive)
  | cons line rest inductionHypothesis =>
      unfold scanMaps
      cases read : format.scan line with
      | none =>
          rw [List.filterMap_cons_none read] at inOrder ⊢
          exact inductionHypothesis inOrder aligned fits positive
      | some range =>
          obtain ⟨lo, hi⟩ := range
          obtain ⟨_, hiFits⟩ := format.words read
          rw [List.filterMap_cons_some read] at inOrder ⊢
          dsimp only
          by_cases late : lo > raddr ∧ lo - raddr ≥ len
          · rw [if_pos late]
            refine ⟨fits, fun _ => hole_least inOrder aligned late, fun _ lower less hole => ?_,
              fun zero => ?_⟩
            · exact absurd hole.least_le (Nat.not_le.mpr less)
            · exact absurd zero (Nat.ne_of_gt positive)
          · rw [if_neg late]
            by_cases passed : hi ≤ raddr
            · -- the range lies below the candidate
              rw [if_neg (Nat.not_lt.mpr passed), if_neg (Nat.ne_of_gt positive)]
              have below := inductionHypothesis inOrder.tail aligned fits positive
              have same : ∀ addr, Hole ((lo, hi) :: rest.filterMap format.scan) raddr len align
                  addr ↔ Hole (rest.filterMap format.scan) raddr len align addr :=
                fun addr => hole_cons_of_le passed
              exact ⟨below.fits, fun some => (same _).mpr (below.hole some),
                fun some lower less hole => below.lowest some lower less ((same lower).mp hole),
                fun zero other less hole => below.none zero other less ((same other).mp hole)⟩
            · have behind : ∀ {addr}, Hole ((lo, hi) :: rest.filterMap format.scan) raddr len align
                  addr → hi ≤ addr := fun hole => hole.behind nonempty late
              rw [if_pos (Nat.not_le.mp passed)]
              have higher : ∀ {addr}, Hole ((lo, hi) :: rest.filterMap format.scan) raddr len align
                  addr → Word.up hi align ≤ addr := fun hole =>
                Word.up_le_of_dvd alignPositive hole.aligned (behind hole)
              rcases Nat.lt_or_ge (Word.up hi align) Word.modulus with upFits | wraps
              · have hiLe := Word.le_up alignPositive hi
                rw [Word.ceil_eq_up divides hiFits upFits, if_neg (by omega)]
                have above := inductionHypothesis inOrder.tail (Word.dvd_up hi align) upFits
                  (by omega)
                have same : ∀ {addr}, Hole ((lo, hi) :: rest.filterMap format.scan) raddr len align
                    addr ↔ Hole (rest.filterMap format.scan) (Word.up hi align) len align
                      addr := by
                  intro addr
                  constructor
                  · intro hole
                    exact (hole_cons_of_le hiLe).mp (hole.raise (higher hole))
                  · intro hole
                    exact ((hole_cons_of_le hiLe).mpr hole).raise
                      (le_trans (by omega) hole.least_le)
                exact ⟨above.fits, fun some => same.mpr (above.hole some),
                  fun some lower less hole => above.lowest some lower less (same.mp hole),
                  fun zero other less hole => above.none zero other less (same.mp hole)⟩
              · rw [Word.ceil_eq_zero divides hiFits wraps, if_pos rfl]
                refine ⟨by decide, fun some => absurd rfl some, fun some => absurd rfl some,
                  fun _ other less hole => ?_⟩
                have := higher hole
                omega

/-! ## What is returned -/

/-- The address below which nothing is returned. -/
def leastAddr (pagesize minaddr : Nat) : Nat := if minaddr = 0 then pagesize else minaddr

/-- What `util_map_hint_unused` is to return: the lowest hole that ends below the end of the
address space, or `NULL` or `MAP_FAILED` if there is none. -/
structure UnusedHint (ranges : List (Nat × Nat)) (least len align result : Nat) : Prop where
  hole : result ≠ 0 → result ≠ mapFailed → Hole ranges least len align result
  fits : result ≠ 0 → result ≠ mapFailed → result + len < Word.modulus
  lowest : result ≠ 0 → result ≠ mapFailed → ∀ lower < result, ¬Hole ranges least len align lower
  none : result = 0 ∨ result = mapFailed → ∀ other, Hole ranges least len align other →
    ¬other + len < Word.modulus

/-- Holes begin at a multiple, so the least address may be rounded up. -/
theorem hole_up_iff (positive : 0 < align) :
    Hole ranges (Word.up least align) len align addr ↔ Hole ranges least len align addr :=
  ⟨fun hole => hole.raise ((Word.le_up positive least).trans hole.least_le),
    fun hole => hole.raise (Word.up_le_of_dvd positive hole.aligned hole.least_le)⟩

/-- The check for the end of the address space. -/
theorem LowestHole.unusedHint {result : Nat} (found : LowestHole ranges least len align raddr)
    (nonempty : 0 < len)
    (checked : result = if raddr ≠ 0 ∧ uintptrMax - raddr < len then mapFailed else raddr) :
    UnusedHint ranges least len align result := by
  have fits := found.fits
  have modulus := Word.modulus_eq
  unfold uintptrMax mapFailed at checked
  by_cases zero : raddr = 0
  · -- the end of the address space was reached in the loop
    rw [if_neg fun both => both.1 zero, zero] at checked
    refine ⟨fun some => absurd checked some, fun some => absurd checked some,
      fun some => absurd checked some, fun _ other hole ends => ?_⟩
    exact found.none zero other (by omega) hole
  · by_cases short : Word.modulus - 1 - raddr < len
    · rw [if_pos ⟨zero, short⟩] at checked
      refine ⟨fun _ some => absurd checked some, fun _ some => absurd checked some,
        fun _ some => absurd checked some, fun _ other hole ends => ?_⟩
      exact found.lowest zero other (by omega) hole
    · rw [if_neg fun both => short both.2] at checked
      subst checked
      refine ⟨fun _ _ => found.hole zero, fun _ _ => by omega, fun _ _ => found.lowest zero, ?_⟩
      unfold mapFailed
      omega

/-- `util_map_hint_unused` returns the lowest fitting hole between the ranges that the lines of
the file give, when cutting lines that do not fit into the buffer makes no difference to what is
read. -/
theorem map_hint_lowest_hole (power : lgAlign < 64) (page : 0 < pagesize)
    (pageLe : pagesize ≤ 2 ^ lgAlign) (nonempty : 0 < len)
    (fits : minaddr + (2 ^ lgAlign - 1) < Word.modulus)
    (inOrder : RangesInOrder (rangesOf format file))
    (uncut : rangesRead format file = rangesOf format file) :
    UnusedHint (rangesOf format file) (leastAddr pagesize minaddr) len (2 ^ lgAlign)
      (utilMapHintUnused format pagesize (some file) minaddr len (2 ^ lgAlign)) := by
  have half : 2 ^ lgAlign ≤ 2 ^ 63 := Nat.pow_le_pow_right (by decide) (by omega)
  have positive : 0 < 2 ^ lgAlign := Nat.two_pow_pos lgAlign
  have modulus := Word.modulus_eq
  have divides : 2 ^ lgAlign ∣ Word.modulus := Nat.pow_dvd_pow 2 (by omega)
  have start : (if minaddr = 0 then Word.add minaddr pagesize else minaddr) =
      leastAddr pagesize minaddr := by
    unfold leastAddr
    split
    · rename_i null
      rw [null, Word.add_eq (by omega), Nat.zero_add]
    · rfl
  have leastFits : leastAddr pagesize minaddr + (2 ^ lgAlign - 1) < Word.modulus := by
    unfold leastAddr
    split <;> omega
  have leastPositive : 0 < leastAddr pagesize minaddr := by
    unfold leastAddr
    split <;> omega
  have above := Word.le_up positive (leastAddr pagesize minaddr)
  have upFits : Word.up (leastAddr pagesize minaddr) (2 ^ lgAlign) < Word.modulus := by
    have := Word.up_lt_add positive (leastAddr pagesize minaddr)
    omega
  have found := scanMaps_lowest divides nonempty
    (show RangesInOrder (rangesRead format file) from uncut ▸ inOrder)
    (Word.dvd_up (leastAddr pagesize minaddr) (2 ^ lgAlign)) upFits (by omega)
  have lowest : LowestHole (rangesOf format file) (leastAddr pagesize minaddr) len (2 ^ lgAlign)
      (scanMaps format len (2 ^ lgAlign) (Lines.fgetsAll procMaxLen file.length file)
        (Word.up (leastAddr pagesize minaddr) (2 ^ lgAlign))) := by
    rw [show (Lines.fgetsAll procMaxLen file.length file).filterMap format.scan = _ from uncut]
      at found
    have same : ∀ addr, Hole (rangesOf format file)
          (Word.up (leastAddr pagesize minaddr) (2 ^ lgAlign)) len (2 ^ lgAlign) addr ↔
        Hole (rangesOf format file) (leastAddr pagesize minaddr) len (2 ^ lgAlign) addr :=
      fun addr => hole_up_iff positive
    exact ⟨found.fits, fun some => (same _).mp (found.hole some),
      fun some lower less hole => found.lowest some lower less ((same lower).mpr hole),
      fun zero other less hole => found.none zero other less ((same other).mpr hole)⟩
  refine lowest.unusedHint nonempty ?_
  unfold utilMapHintUnused
  dsimp only
  rw [start, Word.ceil_eq_up divides (by omega) upFits]

/-! ## Maps files -/

/-- A hexadecimal digit. -/
def isHexDigit (ch : Char) : Bool := ch.isDigit ∨ ('a' ≤ ch ∧ ch ≤ 'f')

/-- The number that hexadecimal digits stand for, or the largest word. -/
def pointerValue (digits : List Char) : Nat :=
  min (digits.foldl (fun n ch => 16 * n + if ch.isDigit then ch.toNat - 48 else ch.toNat - 87) 0)
    (Word.modulus - 1)

/-- `%p-%p` where `%p` takes white space and hexadecimal digits. -/
def hexRange (line : List Char) : Option (Nat × Nat) :=
  let line := line.dropWhile Scanf.isSpace
  let lo := line.takeWhile isHexDigit
  match line.dropWhile isHexDigit with
  | '-' :: rest =>
      let hi := (rest.dropWhile Scanf.isSpace).takeWhile isHexDigit
      if lo = [] ∨ hi = [] then none else some (pointerValue lo, pointerValue hi)
  | _ => none

theorem pointerValue_lt (digits : List Char) : pointerValue digits < Word.modulus :=
  lt_of_le_of_lt (min_le_right _ _) (by decide)

/-- Ranges in hexadecimal digits. -/
def hexFormat : RangeFormat where
  scan := hexRange
  words := by
    intro line lo hi read
    unfold hexRange at read
    dsimp only at read
    split at read
    · split at read
      · cases read
      · cases read
        exact ⟨pointerValue_lt _, pointerValue_lt _⟩
    · cases read

/-- Two mappings. -/
def twoMappings : List Char :=
  ['4', '0', '0', '0', '0', '0', '-', '4', '0', '1', '0', '0', '0', '\n',
    '6', '0', '0', '0', '0', '0', '-', '7', '0', '0', '0', '0', '0', '\n']

/-- The hole between the mappings is too small. -/
theorem map_hint_lowest_hole_behind :
    utilMapHintUnused hexFormat 4096 (some twoMappings) 0 0x400000 (2 ^ 12) = 0x700000 ∧
      ∀ lower < 0x700000, ¬Hole (rangesOf hexFormat twoMappings) 4096 0x400000 (2 ^ 12) lower := by
  have run : utilMapHintUnused hexFormat 4096 (some twoMappings) 0 0x400000 (2 ^ 12) =
      0x700000 := by
    decide +kernel
  have ranges : rangesOf hexFormat twoMappings = [(0x400000, 0x401000), (0x600000, 0x700000)] := by
    decide +kernel
  have inOrder : RangesInOrder (rangesOf hexFormat twoMappings) := by
    rw [ranges]
    exact ⟨by decide, by decide⟩
  have found : UnusedHint (rangesOf hexFormat twoMappings) (leastAddr 4096 0) 0x400000 (2 ^ 12)
      (utilMapHintUnused hexFormat 4096 (some twoMappings) 0 0x400000 (2 ^ 12)) :=
    map_hint_lowest_hole (by decide) (by decide) (by decide) (by decide) (by decide +kernel) inOrder
      (by decide +kernel)
  rw [run] at found
  exact ⟨run, found.lowest (by decide) (by decide +kernel)⟩

/-- A line of 2061 characters with one mapping; its path ends in what looks like a range, and
2047 characters stand before that. -/
def longLine : List Char :=
  ['4', '0', '0', '0', '0', '0', '-', '4', '0', '1', '0', '0', '0', ' ', 'r', '-', '-', 'p', ' ',
    '0', '0', '0', '0', '0', '0', '0', '0', ' ', '0', '0', ':', '0', '0', ' ', '1', ' '] ++
  (List.replicate 1005 ['/', 'a']).flatten ++
  ['/', '5', '0', '0', '0', '0', '0', '-', '6', '0', '0', '0', '0', '0', '\n']

/-- The rest of a line that does not fit into the buffer is taken for a range. -/
theorem map_hint_reads_rest_of_line :
    RangesInOrder (rangesOf hexFormat longLine) ∧ 0x500000 + (2 ^ 12 - 1) < Word.modulus ∧
      utilMapHintUnused hexFormat 4096 (some longLine) 0x500000 0x1000 (2 ^ 12) = 0x600000 ∧
      ¬UnusedHint (rangesOf hexFormat longLine) (leastAddr 4096 0x500000) 0x1000 (2 ^ 12)
        (utilMapHintUnused hexFormat 4096 (some longLine) 0x500000 0x1000 (2 ^ 12)) := by
  have run : utilMapHintUnused hexFormat 4096 (some longLine) 0x500000 0x1000 (2 ^ 12) =
      0x600000 := by decide +kernel
  have ranges : rangesOf hexFormat longLine = [(0x400000, 0x401000)] := by decide +kernel
  rw [run, ranges]
  refine ⟨⟨by decide, by decide⟩, by decide +kernel, rfl, fun hint => ?_⟩
  refine hint.lowest (by decide) (by decide +kernel) 0x500000 (by decide) ⟨by decide, by decide, ?_⟩
  decide

end Common
end Vmem
