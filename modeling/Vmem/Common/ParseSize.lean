import Vmem.Library.Scanf

/-!
# Parsing a size

`util_parse_size` leaves the scanning to `sscanf` and looks the unit up in a table.  Sizes are
decimal digits with or without one of the units behind them, but white space and signs go through
as well, as does what stands behind white space after a unit, and the product may wrap.
-/

namespace Vmem
namespace Common

open Scanf

/-- `suffixes`. -/
def suffixes : List (List Char × Nat) :=
  [(['B'], 1), (['K'], 1 <<< 10), (['M'], 1 <<< 20), (['G'], 1 <<< 30), (['T'], 1 <<< 40),
    (['P'], 1 <<< 50), (['K', 'i', 'B'], 1 <<< 10), (['M', 'i', 'B'], 1 <<< 20),
    (['G', 'i', 'B'], 1 <<< 30), (['T', 'i', 'B'], 1 <<< 40), (['P', 'i', 'B'], 1 <<< 50),
    (['k', 'B'], 1000), (['M', 'B'], 1000 * 1000), (['G', 'B'], 1000 * 1000 * 1000),
    (['T', 'B'], 1000 * 1000 * 1000 * 1000), (['P', 'B'], 1000 * 1000 * 1000 * 1000 * 1000)]

/-- `sscanf(str, "%zu%8s", &size, unit)`: the number of conversions and what they stored.  An
input that ends before the first one counts like one that does not match it. -/
def sscanf (big : Nat) (str : List Char) : Nat × Nat × List Char :=
  match unsigned big str with
  | none => (0, 0, [])
  | some (size, rest) =>
      match string 8 rest with
      | none => (1, size, [])
      | some unit => (2, size, unit)

/-- `util_parse_size`: the result and `*sizep`, if `sizep` is not null.  `big` is what `%zu` stores
for a number that is not a word. -/
def utilParseSize (big : Nat) (str : List Char) (sizep : Option Nat) : Int × Option Nat :=
  match sscanf big str with
  | (ret, size, unit) =>
      if ret = 1 then (0, sizep.map fun _ => size)
      else if ret = 2 then
        match suffixes.find? fun entry => entry.1 = unit with
        | some entry => (0, sizep.map fun _ => size * entry.2 % Word.modulus)
        | none => (-1, sizep)
      else (-1, sizep)

/-- Digits with or without one unit behind them, whose product is a word. -/
def IsSize (str : List Char) (product : Nat) : Prop :=
  ∃ digits unit magnitude, str = digits ++ unit ∧ digits ≠ [] ∧
    (∀ ch ∈ digits, ch.isDigit = true) ∧
    (unit = [] ∧ magnitude = 1 ∨ (unit, magnitude) ∈ suffixes) ∧
    number digits * magnitude = product ∧ product < Word.modulus

/-- What `sscanf` reads as a size: there may be white space and a sign before the digits and white
space behind them; then the string ends, or a unit follows, after which it ends or goes on with
white space. -/
def ReadsAsSize (str : List Char) : Prop :=
  ∃ lead mark digits rest, Unsigned str lead mark digits rest ∧
    ((∀ ch ∈ rest, isSpace ch = true) ∨
      ∃ gap unit after magnitude, rest = gap ++ (unit ++ after) ∧
        (∀ ch ∈ gap, isSpace ch = true) ∧ (unit, magnitude) ∈ suffixes ∧
        Stops (fun ch => !isSpace ch) after)

/-- What the function is to do with a string. -/
def ParsesSize (big : Nat) (str : List Char) : Prop :=
  ∀ sizep,
    ((utilParseSize big str sizep).1 = 0 ↔ ∃ product, IsSize str product) ∧
    (∀ product, IsSize str product →
      (utilParseSize big str sizep).2 = sizep.map fun _ => product) ∧
    ((utilParseSize big str sizep).1 ≠ 0 → (utilParseSize big str sizep).2 = sizep)

variable {big product : Nat} {str : List Char}

/-! ## The table -/

/-- A unit is not empty, has no white space, begins with a letter, is short, and has a positive
magnitude. -/
theorem suffix_facts {unit : List Char} {magnitude : Nat} (entry : (unit, magnitude) ∈ suffixes) :
    unit ≠ [] ∧ (∀ ch ∈ unit, isSpace ch = false) ∧ Stops Char.isDigit unit ∧ unit.length ≤ 3 ∧
      0 < magnitude := by
  have all : ∀ entry ∈ suffixes, entry.1 ≠ [] ∧ (entry.1.all fun ch => !isSpace ch) = true ∧
      (entry.1.head?.all fun ch => !ch.isDigit) = true ∧ entry.1.length ≤ 3 ∧ 0 < entry.2 := by
    decide
  obtain ⟨nonempty, spaces, first, short, positive⟩ := all _ entry
  refine ⟨nonempty, fun ch member => ?_, fun ch member => ?_, short, positive⟩
  · simpa using List.all_eq_true.mp spaces ch member
  · rw [Option.mem_def.mp member] at first
    simpa using first

/-- No unit has two entries. -/
theorem find_suffix {unit : List Char} {magnitude : Nat} (entry : (unit, magnitude) ∈ suffixes) :
    (suffixes.find? fun entry => entry.1 = unit) = some (unit, magnitude) := by
  have all : ∀ entry ∈ suffixes,
      (suffixes.find? fun other => other.1 = entry.1) = some entry := by
    decide
  exact all _ entry

theorem stops_append {p : Char → Bool} {first second : List Char} (firstStops : Stops p first)
    (secondStops : first = [] → Stops p second) : Stops p (first ++ second) := by
  cases first with
  | nil => exact secondStops rfl
  | cons ch rest => exact stops_cons (firstStops ch rfl) _

theorem stops_isDigit_of_spaces {gap : List Char} (spaces : ∀ ch ∈ gap, isSpace ch = true) :
    Stops Char.isDigit gap := by
  intro ch member
  rw [Bool.eq_false_iff]
  intro digit
  have := spaces ch (List.mem_of_mem_head? member)
  rw [not_isSpace_of_isDigit digit] at this
  cases this

/-! ## What is returned -/

/-- Nothing but white space behind the number. -/
theorem utilParseSize_of_number {lead mark digits rest : List Char}
    (parts : Unsigned str lead mark digits rest) (spaces : ∀ ch ∈ rest, isSpace ch = true)
    (sizep : Option Nat) :
    utilParseSize big str sizep =
      (0, sizep.map fun _ => unsignedValue big (mark = ['-']) digits) := by
  have scanned : sscanf big str = (1, unsignedValue big (mark = ['-']) digits, []) := by
    unfold sscanf
    rw [unsigned_of_parts parts (stops_isDigit_of_spaces spaces)]
    dsimp only
    rw [string_eq_none_iff.mpr spaces]
  unfold utilParseSize
  rw [scanned]
  exact if_pos rfl

/-- A unit behind the number. -/
theorem utilParseSize_of_unit {lead mark digits gap unit after : List Char} {magnitude : Nat}
    (parts : Unsigned str lead mark digits (gap ++ (unit ++ after)))
    (spaces : ∀ ch ∈ gap, isSpace ch = true) (entry : (unit, magnitude) ∈ suffixes)
    (stops : Stops (fun ch => !isSpace ch) after) (sizep : Option Nat) :
    utilParseSize big str sizep =
      (0, sizep.map fun _ =>
        unsignedValue big (mark = ['-']) digits * magnitude % Word.modulus) := by
  obtain ⟨nonempty, unitSpaces, unitDigits, short, _⟩ := suffix_facts entry
  have ends : Stops Char.isDigit (gap ++ (unit ++ after)) :=
    stops_append (stops_isDigit_of_spaces spaces) fun _ =>
      stops_append unitDigits fun empty => absurd empty nonempty
  have scanned : sscanf big str = (2, unsignedValue big (mark = ['-']) digits, unit) := by
    unfold sscanf
    rw [unsigned_of_parts parts ends]
    dsimp only
    rw [string_of_parts spaces nonempty unitSpaces stops, List.take_of_length_le (by omega)]
  unfold utilParseSize
  rw [scanned]
  dsimp only
  rw [if_neg (by decide), if_pos rfl, find_suffix entry]

/-- Zero is returned only for what reads as a size. -/
theorem readsAsSize_of_zero {sizep : Option Nat} (zero : (utilParseSize big str sizep).1 = 0) :
    ReadsAsSize str := by
  unfold utilParseSize sscanf at zero
  cases scanned : unsigned big str with
  | none =>
      rw [scanned] at zero
      cases zero
  | some taken =>
      obtain ⟨size, rest⟩ := taken
      obtain ⟨lead, mark, digits, parts, _, _⟩ := exists_parts scanned
      refine ⟨lead, mark, digits, rest, parts, ?_⟩
      rw [scanned] at zero
      dsimp only at zero
      cases word : string 8 rest with
      | none => exact Or.inl (string_eq_none_iff.mp word)
      | some unit =>
          right
          rw [word] at zero
          dsimp only at zero
          rw [if_neg (by decide), if_pos rfl] at zero
          cases found : suffixes.find? fun entry => entry.1 = unit with
          | none =>
              rw [found] at zero
              cases zero
          | some entry =>
              obtain ⟨name, magnitude⟩ := entry
              have isEntry := List.mem_of_find?_eq_some found
              have same : name = unit := by simpa using List.find?_some found
              subst same
              obtain ⟨gap, field, after, split, spaces, stops, taken⟩ := exists_field word
              -- eight characters are more than any unit has
              have whole : field.take 8 = field := by
                have short := (suffix_facts isEntry).2.2.2.1
                rw [taken, List.length_take] at short
                exact List.take_of_length_le (by omega)
              rw [whole] at taken
              subst taken
              exact ⟨gap, name, after, magnitude, split, spaces, isEntry, stops⟩

theorem zero_of_readsAsSize (reads : ReadsAsSize str) (big : Nat) (sizep : Option Nat) :
    (utilParseSize big str sizep).1 = 0 := by
  obtain ⟨lead, mark, digits, rest, parts, spaces | ⟨gap, unit, after, magnitude, rfl, spaces,
    entry, stops⟩⟩ := reads
  · rw [utilParseSize_of_number parts spaces]
  · rw [utilParseSize_of_unit parts spaces entry stops]

/-- A size is stored as it is. -/
theorem utilParseSize_of_isSize (isSize : IsSize str product) (big : Nat) (sizep : Option Nat) :
    utilParseSize big str sizep = (0, sizep.map fun _ => product) := by
  obtain ⟨digits, unit, magnitude, rfl, nonempty, all, known, rfl, below⟩ := isSize
  have parts : Unsigned (digits ++ unit) [] [] digits unit :=
    ⟨rfl, fun _ member => absurd member List.not_mem_nil, by decide, nonempty, all⟩
  have value : number digits < Word.modulus →
      unsignedValue big (([] : List Char) = ['-']) digits = number digits := by
    intro fits
    unfold unsignedValue
    rw [if_neg (by omega)]
    rfl
  rcases known with ⟨rfl, rfl⟩ | entry
  · rw [utilParseSize_of_number parts fun _ member => absurd member List.not_mem_nil,
      Nat.mul_one, value (by omega)]
  · have positive := (suffix_facts entry).2.2.2.2
    have fits : number digits < Word.modulus :=
      lt_of_le_of_lt (Nat.le_mul_of_pos_right _ positive) below
    have parts' : Unsigned (digits ++ unit) [] [] digits ([] ++ (unit ++ [])) := by
      rw [List.nil_append, List.append_nil]
      exact parts
    rw [utilParseSize_of_unit parts' (fun _ member => absurd member List.not_mem_nil) entry
      (stops_nil _), value fits, Nat.mod_eq_of_lt below]

/-- Otherwise nothing is stored. -/
theorem utilParseSize_refused {sizep : Option Nat}
    (refused : (utilParseSize big str sizep).1 ≠ 0) : (utilParseSize big str sizep).2 = sizep := by
  unfold utilParseSize at refused ⊢
  generalize sscanf big str = scanned at refused ⊢
  obtain ⟨ret, size, unit⟩ := scanned
  dsimp only at refused ⊢
  by_cases one : ret = 1
  · rw [if_pos one] at refused
    exact absurd rfl refused
  rw [if_neg one] at refused ⊢
  by_cases two : ret = 2
  · rw [if_pos two] at refused ⊢
    cases found : suffixes.find? fun entry => entry.1 = unit with
    | none => rfl
    | some entry =>
        rw [found] at refused
        exact absurd rfl refused
  · rw [if_neg two]

theorem readsAsSize_of_isSize (isSize : IsSize str product) : ReadsAsSize str := by
  have result := utilParseSize_of_isSize isSize 0 none
  have zero : (utilParseSize 0 str none).1 = 0 := by rw [result]
  exact readsAsSize_of_zero zero

/-- Exactly the strings that read as a size without being one are not treated as they should be. -/
theorem parsesSize_iff (big : Nat) (str : List Char) :
    ParsesSize big str ↔ (ReadsAsSize str → ∃ product, IsSize str product) := by
  constructor
  · intro parses reads
    exact ((parses none).1).mp (zero_of_readsAsSize reads big none)
  · intro fine sizep
    refine ⟨⟨fun zero => fine (readsAsSize_of_zero zero), ?_⟩, ?_, ?_⟩
    · rintro ⟨product, isSize⟩
      exact zero_of_readsAsSize (readsAsSize_of_isSize isSize) big sizep
    · intro product isSize
      rw [utilParseSize_of_isSize isSize]
    · exact fun refused => utilParseSize_refused refused

/-- A number so large that the product wraps. -/
def wrappingSize : List Char := ['1', '6', '7', '7', '7', '2', '1', '6', 'T']

/-- 2 ^ 24 terabytes are taken for nothing, and a negative number for a large one. -/
theorem parse_size_wraps :
    utilParseSize (2 ^ 64 - 1) wrappingSize (some 7) = (0, some 0) ∧
      utilParseSize (2 ^ 64 - 1) ['-', '1'] (some 7) = (0, some (2 ^ 64 - 1)) ∧
      ¬ParsesSize (2 ^ 64 - 1) wrappingSize := by
  refine ⟨by decide +kernel, by decide +kernel, fun parses => ?_⟩
  obtain ⟨product, digits, unit, magnitude, split, _, all, known, rfl, below⟩ :=
    (parses none).1.mp (by decide +kernel)
  have stops : Stops Char.isDigit unit := by
    rcases known with ⟨rfl, _⟩ | entry
    · exact stops_nil _
    · exact (suffix_facts entry).2.2.1
  have taken := takeWhile_append all stops
  have dropped := dropWhile_append all stops
  rw [← split] at taken dropped
  subst taken dropped
  rcases known with ⟨empty, _⟩ | entry
  · exact absurd empty (by decide +kernel)
  · have found := find_suffix entry
    rw [show (suffixes.find? fun entry => entry.1 = wrappingSize.dropWhile Char.isDigit) =
      some (['T'], 2 ^ 40) by decide +kernel, Option.some.injEq, Prod.mk.injEq] at found
    rw [← found.2] at below
    exact absurd below (by decide +kernel)

end Common
end Vmem
