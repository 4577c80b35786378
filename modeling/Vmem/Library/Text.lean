import Mathlib.Data.List.TakeWhile

/-!
# Text in memory

Characters of a buffer and of whatever lies behind it, with the C functions that write to it.
-/

namespace Vmem
namespace Text

/-- A text without `\0`. -/
abbrev CString := { chars : List Char // '\x00' ∉ chars }

/-- The characters of a buffer up to the first `\0`. -/
def cstring (buffer : List Char) : List Char := buffer.takeWhile (· != '\x00')

/-- `strlen`. -/
def strlen (buffer : List Char) : Nat := (cstring buffer).length

/-- The characters from some address on. -/
abbrev Memory := Nat → Char

/-- Write a text to an address. -/
def put (memory : Memory) (address : Nat) (text : List Char) : Memory :=
  fun i => if address ≤ i ∧ i < address + text.length then text.getD (i - address) '\x00'
    else memory i

/-- `memset`. -/
def memset (memory : Memory) (address : Nat) (ch : Char) (count : Nat) : Memory :=
  fun i => if address ≤ i ∧ i < address + count then ch else memory i

/-- What `vsnprintf` writes: as much of the text as fits, and a `\0`. -/
def snprintf (memory : Memory) (address size : Nat) (text : List Char) : Memory :=
  if size = 0 then memory else put memory address (text.take (size - 1) ++ ['\x00'])

/-- What `vsnprintf` returns for a text: its length, also if it was cut, unless no `int` can say
that. -/
def intLength (text : List Char) : Option Nat :=
  if text.length ≤ 2147483647 then some text.length else none

/-- The string that starts a buffer ends in it. -/
def Terminated (memory : Memory) (size : Nat) : Prop := ∃ i, i < size ∧ memory i = '\x00'

/-- `%d`. -/
def decimal (n : Int) : List Char :=
  if n < 0 then '-' :: Nat.toDigits 10 n.natAbs else Nat.toDigits 10 n.natAbs

/-! ## Strings -/

section Strings

variable {str buffer : List Char}

theorem cstring_of_plain (plain : '\x00' ∉ str) : cstring str = str := by
  apply List.takeWhile_eq_self_iff.mpr
  intro ch member
  exact bne_iff_ne.mpr fun same => plain (same ▸ member)

theorem strlen_of_plain (plain : '\x00' ∉ str) : strlen str = str.length := by
  unfold strlen
  rw [cstring_of_plain plain]

theorem length_cstring_le (str : List Char) : (cstring str).length ≤ str.length :=
  (List.takeWhile_prefix _).length_le

theorem cstring_append (plain : '\x00' ∉ buffer) (str : List Char) :
    cstring (buffer ++ str) = buffer ++ cstring str :=
  List.takeWhile_append_of_pos fun _ member =>
    bne_iff_ne.mpr fun same => plain (same ▸ member)

theorem plain_cstring (buffer : List Char) : '\x00' ∉ cstring buffer := by
  intro member
  have other := List.mem_takeWhile_imp member
  exact absurd other (by decide)

end Strings

/-! ## Writing -/

variable {memory : Memory} {address size : Nat} {text : List Char}

theorem terminated_snprintf (memory : Memory) (address : Nat) (text : List Char)
    (positive : 0 < size) :
    Terminated (snprintf memory address size text) (address + size) := by
  have short : (text.take (size - 1)).length ≤ size - 1 := List.length_take_le _ _
  refine ⟨address + (text.take (size - 1)).length, by omega, ?_⟩
  unfold snprintf put
  rw [if_neg (by omega), if_pos (by simp only [List.length_append, List.length_singleton]; omega),
    Nat.add_sub_cancel_left, List.getD_eq_getElem?_getD, List.getElem?_concat_length]
  rfl

theorem snprintf_zero : snprintf memory address 0 text = memory := rfl

/-- A text that fits is written whole. -/
theorem snprintf_of_fits {i : Nat} (memory : Memory) (address : Nat) (fits : text.length < size)
    (inside : i < text.length) :
    snprintf memory address size text (address + i) = text[i] := by
  unfold snprintf put
  rw [if_neg (by omega), List.take_of_length_le (by omega),
    if_pos (by simp only [List.length_append, List.length_singleton]; omega),
    Nat.add_sub_cancel_left, List.getD_eq_getElem?_getD, List.getElem?_append_left inside,
    List.getElem?_eq_getElem inside]
  rfl

theorem plain_decimal (n : Int) : '\x00' ∉ decimal n := by
  have digits : '\x00' ∉ Nat.toDigits 10 n.natAbs := by
    intro member
    have digit := Nat.isDigit_of_mem_toDigits (by decide) (by decide) member
    exact absurd digit (by decide)
  unfold decimal
  split
  · exact List.not_mem_cons_of_ne_of_not_mem (by decide) digits
  · exact digits

end Text
end Vmem
