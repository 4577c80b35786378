import Mathlib.Data.List.TakeWhile
import Vmem.Library.Word

/-!
# Conversions of `scanf`

Strings are their characters, without the zero at the end.  `%zu` skips white space and takes an
optional sign and decimal digits; `%s` skips white space and takes what is not white space, up to
a width.  For each of them, what it takes from which strings.
-/

namespace Vmem
namespace Scanf

/-! ## Scanning while a condition holds -/

section Scan

variable {α : Type} {p : α → Bool} {taken rest : List α}

/-- The list is empty or begins with an element without the property. -/
def Stops (p : α → Bool) (list : List α) : Prop := ∀ x ∈ list.head?, p x = false

theorem stops_nil (p : α → Bool) : Stops p [] := fun _ member => by cases member

theorem stops_cons {x : α} (fails : p x = false) (rest : List α) : Stops p (x :: rest) := by
  intro y member
  cases member
  exact fails

theorem stops_dropWhile (p : α → Bool) (list : List α) : Stops p (list.dropWhile p) := by
  induction list with
  | nil => exact stops_nil p
  | cons x rest inductionHypothesis =>
      rw [List.dropWhile_cons]
      split
      · exact inductionHypothesis
      · rename_i fails
        exact stops_cons (Bool.eq_false_iff.mpr fails) rest

theorem takeWhile_of_stops (stops : Stops p rest) : rest.takeWhile p = [] := by
  cases rest with
  | nil => rfl
  | cons x rest => rw [List.takeWhile_cons, if_neg (Bool.eq_false_iff.mp (stops x rfl))]

theorem takeWhile_append (all : ∀ x ∈ taken, p x = true) (stops : Stops p rest) :
    (taken ++ rest).takeWhile p = taken := by
  rw [List.takeWhile_append_of_pos all, takeWhile_of_stops stops, List.append_nil]

theorem dropWhile_append (all : ∀ x ∈ taken, p x = true) (stops : Stops p rest) :
    (taken ++ rest).dropWhile p = rest := by
  rw [List.dropWhile_append_of_pos all]
  cases rest with
  | nil => rfl
  | cons x rest => rw [List.dropWhile_cons, if_neg (Bool.eq_false_iff.mp (stops x rfl))]

end Scan

/-! ## The conversions -/

/-- White space in the "C" locale. -/
def isSpace (ch : Char) : Bool :=
  ch = ' ' ∨ ch = '\t' ∨ ch = '\n' ∨ ch = Char.ofNat 11 ∨ ch = Char.ofNat 12 ∨ ch = '\r'

/-- The number that a sequence of decimal digits stands for. -/
def number (digits : List Char) : Nat := digits.foldl (fun n ch => 10 * n + (ch.toNat - 48)) 0

/-- An optional sign: whether it is a minus, and what follows. -/
def sign : List Char → Bool × List Char
  | '-' :: rest => (true, rest)
  | '+' :: rest => (false, rest)
  | rest => (false, rest)

/-- The word that stands for a signed number; `big` stands for one that is too large. -/
def unsignedValue (big : Nat) (negative : Bool) (digits : List Char) : Nat :=
  if Word.modulus ≤ number digits then big
  else if negative then Word.sub 0 (number digits) else number digits

/-- `%zu`: the word that is stored, and what follows; `none` when nothing matches. -/
def unsigned (big : Nat) (str : List Char) : Option (Nat × List Char) :=
  match sign (str.dropWhile isSpace) with
  | (negative, rest) =>
      if rest.takeWhile Char.isDigit = [] then none
      else
        some (unsignedValue big negative (rest.takeWhile Char.isDigit),
          rest.dropWhile Char.isDigit)

/-- `%s` with a width: what is stored; `none` at the end of the string. -/
def string (width : Nat) (str : List Char) : Option (List Char) :=
  let field := (str.dropWhile isSpace).takeWhile fun ch => !isSpace ch
  if field = [] then none else some (field.take width)

/-! ## What they take -/

variable {big width value : Nat} {str rest word : List Char}

/-- The signs that `%zu` takes. -/
def signs : List (List Char) := [[], ['-'], ['+']]

theorem not_isSpace_of_isDigit {ch : Char} (digit : ch.isDigit = true) : isSpace ch = false := by
  unfold isSpace
  rw [decide_eq_false_iff_not]
  rintro (rfl | rfl | rfl | rfl | rfl | rfl) <;> exact absurd digit (by decide)

theorem sign_append {mark digits : List Char} (isSign : mark ∈ signs) (nonempty : digits ≠ [])
    (all : ∀ ch ∈ digits, ch.isDigit = true) (rest : List Char) :
    sign (mark ++ (digits ++ rest)) = (decide (mark = ['-']), digits ++ rest) := by
  unfold signs at isSign
  simp only [List.mem_cons, List.not_mem_nil, or_false] at isSign
  rcases isSign with rfl | rfl | rfl
  · cases digits with
    | nil => exact absurd rfl nonempty
    | cons ch digits =>
        have digit := all ch List.mem_cons_self
        rw [List.nil_append, List.cons_append]
        unfold sign
        split
        · rename_i same
          obtain ⟨rfl, _⟩ := List.cons.inj same
          exact absurd digit (by decide)
        · rename_i same
          obtain ⟨rfl, _⟩ := List.cons.inj same
          exact absurd digit (by decide)
        · simp
  · rfl
  · rfl

/-- What `sign` leaves behind. -/
theorem exists_sign (str : List Char) :
    ∃ mark ∈ signs, str = mark ++ (sign str).2 ∧ (sign str).1 = decide (mark = ['-']) := by
  unfold sign
  split
  · rename_i rest
    exact ⟨['-'], by decide, rfl, rfl⟩
  · rename_i rest
    exact ⟨['+'], by decide, rfl, rfl⟩
  · exact ⟨[], by decide, rfl, rfl⟩

/-- A number with white space and a sign before it. -/
structure Unsigned (str lead mark digits rest : List Char) : Prop where
  split : str = lead ++ (mark ++ (digits ++ rest))
  spaces : ∀ ch ∈ lead, isSpace ch = true
  isSign : mark ∈ signs
  nonempty : digits ≠ []
  digits : ∀ ch ∈ digits, ch.isDigit = true

theorem stops_isSpace_sign {mark digits : List Char} (isSign : mark ∈ signs)
    (nonempty : digits ≠ []) (all : ∀ ch ∈ digits, ch.isDigit = true) (rest : List Char) :
    Stops isSpace (mark ++ (digits ++ rest)) := by
  unfold signs at isSign
  simp only [List.mem_cons, List.not_mem_nil, or_false] at isSign
  rcases isSign with rfl | rfl | rfl
  · cases digits with
    | nil => exact absurd rfl nonempty
    | cons ch digits =>
        exact stops_cons (not_isSpace_of_isDigit (all ch List.mem_cons_self)) _
  · exact stops_cons (by decide) _
  · exact stops_cons (by decide) _

/-- `%zu` takes a number up to the first character that is not a digit. -/
theorem unsigned_of_parts {lead mark digits : List Char}
    (parts : Unsigned str lead mark digits rest) (stops : Stops Char.isDigit rest) (big : Nat) :
    unsigned big str = some (unsignedValue big (mark = ['-']) digits, rest) := by
  obtain ⟨rfl, spaces, isSign, nonempty, all⟩ := parts
  unfold unsigned
  rw [dropWhile_append spaces (stops_isSpace_sign isSign nonempty all rest),
    sign_append isSign nonempty all]
  dsimp only
  rw [takeWhile_append all stops, if_neg nonempty, dropWhile_append all stops]

/-- Whatever `%zu` takes is such a number. -/
theorem exists_parts (taken : unsigned big str = some (value, rest)) :
    ∃ lead mark digits, Unsigned str lead mark digits rest ∧ Stops Char.isDigit rest ∧
      value = unsignedValue big (mark = ['-']) digits := by
  obtain ⟨mark, isSign, split, negative⟩ := exists_sign (str.dropWhile isSpace)
  unfold unsigned at taken
  generalize signed : sign (str.dropWhile isSpace) = pair at taken split negative
  obtain ⟨minus, number⟩ := pair
  dsimp only at taken split negative
  split at taken
  · cases taken
  · rename_i nonempty
    obtain ⟨rfl, rfl⟩ := Prod.mk.inj (Option.some.inj taken)
    refine ⟨str.takeWhile isSpace, mark, number.takeWhile Char.isDigit, ⟨?_, ?_, isSign, nonempty,
      ?_⟩, stops_dropWhile _ _, by rw [negative]⟩
    · rw [List.takeWhile_append_dropWhile, ← split, List.takeWhile_append_dropWhile]
    · exact fun ch member => List.mem_takeWhile_imp member
    · exact fun ch member => List.mem_takeWhile_imp member

/-- `%s` takes what stands between white space. -/
theorem string_of_parts {gap field after : List Char} (spaces : ∀ ch ∈ gap, isSpace ch = true)
    (nonempty : field ≠ []) (all : ∀ ch ∈ field, isSpace ch = false)
    (stops : Stops (fun ch => !isSpace ch) after) (width : Nat) :
    string width (gap ++ (field ++ after)) = some (field.take width) := by
  have all' : ∀ ch ∈ field, (!isSpace ch) = true := fun ch member => by rw [all ch member]; rfl
  have begins : Stops isSpace (field ++ after) := by
    cases field with
    | nil => exact absurd rfl nonempty
    | cons ch field => exact stops_cons (all ch List.mem_cons_self) _
  unfold string
  dsimp only
  rw [dropWhile_append spaces begins, takeWhile_append all' stops, if_neg nonempty]

theorem exists_field (taken : string width str = some word) :
    ∃ gap field after, str = gap ++ (field ++ after) ∧ (∀ ch ∈ gap, isSpace ch = true) ∧
      Stops (fun ch => !isSpace ch) after ∧ word = field.take width := by
  unfold string at taken
  dsimp only at taken
  split at taken
  · cases taken
  · refine ⟨str.takeWhile isSpace, (str.dropWhile isSpace).takeWhile fun ch => !isSpace ch,
      (str.dropWhile isSpace).dropWhile fun ch => !isSpace ch, ?_, ?_, stops_dropWhile _ _,
      (Option.some.inj taken).symm⟩
    · rw [List.takeWhile_append_dropWhile, List.takeWhile_append_dropWhile]
    · exact fun ch member => List.mem_takeWhile_imp member

/-- Only white space is left where `%s` takes nothing. -/
theorem string_eq_none_iff : string width str = none ↔ ∀ ch ∈ str, isSpace ch = true := by
  unfold string
  dsimp only
  rw [ite_eq_left_iff]
  constructor
  · intro nothing
    have empty : (str.dropWhile isSpace).takeWhile (fun ch => !isSpace ch) = [] := by
      by_contra nonempty
      cases nothing nonempty
    cases remaining : str.dropWhile isSpace with
    | nil => exact List.dropWhile_eq_nil_iff.mp remaining
    | cons ch rest =>
        have fails := stops_dropWhile isSpace str ch (by rw [remaining]; rfl)
        rw [remaining, List.takeWhile_cons, fails] at empty
        cases empty
  · intro spaces nonempty
    rw [List.dropWhile_eq_nil_iff.mpr spaces] at nonempty
    exact absurd rfl nonempty

end Scanf
end Vmem
