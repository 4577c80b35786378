import Mathlib.Algebra.Order.Ring.Nat
import Mathlib.Tactic.Ring

/-!
# Unsigned 64-bit arithmetic on natural numbers

Machine words are natural numbers below `modulus`; sums and differences wrap.
Masking the low bits of a word with a power of two is rounding down to a
multiple, which is how `floor` and `ceil` are written.
-/

namespace Vmem
namespace Word

/-- Number of 64-bit words. -/
def modulus : Nat := 2 ^ 64

theorem modulus_eq : modulus = 18446744073709551616 := by
  norm_num [modulus]

/-- Wrapping sum. -/
def add (a b : Nat) : Nat := (a + b) % modulus

/-- Wrapping difference. -/
def sub (a b : Nat) : Nat := (a + (modulus - b % modulus)) % modulus

/-- Round down to a multiple: `a & ~(unit - 1)` for a power of two. -/
def floor (a unit : Nat) : Nat := a / unit * unit

/-- Round up to a multiple: `(a + (unit - 1)) & ~(unit - 1)`. -/
def ceil (a unit : Nat) : Nat := floor (add a (unit - 1)) unit

theorem add_eq {a b : Nat} (fits : a + b < modulus) : add a b = a + b :=
  Nat.mod_eq_of_lt fits

/-- Sums that wrap are associative. -/
theorem add_add (a b c : Nat) : add (add a b) c = add a (b + c) := by
  unfold add
  rw [Nat.mod_add_mod, Nat.add_assoc]

/-- A wrapped sum of two words is smaller than its first summand. -/
theorem add_eq_of_wraps {a b : Nat} (fits : a < modulus) (otherFits : b < modulus)
    (wraps : modulus ≤ a + b) : add a b = a + b - modulus := by
  unfold add
  rw [Nat.mod_eq_sub_mod wraps, Nat.mod_eq_of_lt (by omega)]

/-- A wrapped sum gives back its first summand. -/
theorem sub_add_mod (a b : Nat) : sub ((a + b) % modulus) b = a % modulus := by
  rw [sub, modulus_eq]
  omega

theorem add_mod_add (a b c : Nat) : add ((a + b) % modulus) c = (a + add b c) % modulus := by
  rw [add, add, modulus_eq]
  omega

theorem sub_mod_add {a b : Nat} (c : Nat) :
    sub ((a + b) % modulus) c = (a + sub b c) % modulus := by
  rw [sub, sub, modulus_eq]
  omega

theorem mod_sub (a b : Nat) : sub (a % modulus) b = sub a b := Nat.mod_add_mod _ _ _

theorem sub_eq {a b : Nat} (le : b ≤ a) (fits : a < modulus) : sub a b = a - b := by
  unfold sub
  rw [Nat.mod_eq_of_lt (by omega : b < modulus)]
  rw [show a + (modulus - b) = a - b + modulus by omega, Nat.add_mod_right,
    Nat.mod_eq_of_lt (by omega)]

theorem sub_eq_of_lt {a b : Nat} (less : a < b) (fits : b < modulus) :
    sub a b = a + modulus - b := by
  unfold sub
  rw [Nat.mod_eq_of_lt fits, Nat.mod_eq_of_lt (by omega)]
  omega

theorem add_lt (a b : Nat) : add a b < modulus :=
  Nat.mod_lt _ (by norm_num [modulus])

theorem sub_lt (a b : Nat) : sub a b < modulus :=
  Nat.mod_lt _ (by norm_num [modulus])

/-- Subtracting something changes a word. -/
theorem sub_ne_self {a b : Nat} (positive : 0 < b) (less : b < modulus) : sub a b ≠ a := by
  intro same
  have fits := sub_lt a b
  rw [same] at fits
  rcases Nat.lt_or_ge a b with wraps | le
  · rw [sub_eq_of_lt wraps less] at same
    omega
  · rw [sub_eq le fits] at same
    omega

theorem dvd_floor (a unit : Nat) : unit ∣ floor a unit := Dvd.intro_left _ rfl

theorem floor_le (a unit : Nat) : floor a unit ≤ a := Nat.div_mul_le_self a unit

theorem lt_floor_add {unit : Nat} (a : Nat) (positive : 0 < unit) :
    a < floor a unit + unit := by
  have := Nat.div_add_mod a unit
  have remainder := Nat.mod_lt a positive
  unfold floor
  rw [Nat.mul_comm]
  omega

theorem floor_eq_of_dvd {a unit : Nat} (divides : unit ∣ a) : floor a unit = a :=
  Nat.div_mul_cancel divides

theorem floor_mono {a b : Nat} (le : a ≤ b) (unit : Nat) : floor a unit ≤ floor b unit :=
  Nat.mul_le_mul_right unit (Nat.div_le_div_right le)

theorem ceil_lt (a unit : Nat) : ceil a unit < modulus :=
  lt_of_le_of_lt (floor_le _ unit) (add_lt a (unit - 1))

theorem ceil_mono {a b unit : Nat} (le : a ≤ b) (fits : b + (unit - 1) < modulus) :
    ceil a unit ≤ ceil b unit := by
  unfold ceil
  rw [add_eq fits, add_eq (by omega)]
  exact floor_mono (by omega) unit

theorem dvd_ceil (a unit : Nat) : unit ∣ ceil a unit := dvd_floor _ unit

theorem le_ceil {a unit : Nat} (positive : 0 < unit) (fits : a + (unit - 1) < modulus) :
    a ≤ ceil a unit := by
  unfold ceil
  rw [add_eq fits]
  have := lt_floor_add (a + (unit - 1)) positive
  omega

theorem ceil_lt_add {a unit : Nat} (positive : 0 < unit)
    (fits : a + (unit - 1) < modulus) : ceil a unit < a + unit := by
  unfold ceil
  rw [add_eq fits]
  have := floor_le (a + (unit - 1)) unit
  omega

theorem ceil_eq_of_dvd {a unit : Nat} (divides : unit ∣ a)
    (fits : a + (unit - 1) < modulus) : ceil a unit = a := by
  rcases Nat.eq_zero_or_pos unit with rfl | positive
  · have : a = 0 := Nat.eq_zero_of_zero_dvd divides
    subst this
    simp [ceil, floor]
  · obtain ⟨quotient, rfl⟩ := divides
    have lower := le_ceil positive fits
    have upper := ceil_lt_add positive fits
    obtain ⟨other, other_eq⟩ := dvd_ceil (unit * quotient) unit
    rw [other_eq] at lower upper ⊢
    have : quotient = other := by
      have first : quotient ≤ other := Nat.le_of_mul_le_mul_left lower positive
      have second : other < quotient + 1 := by
        apply Nat.lt_of_mul_lt_mul_left (a := unit)
        rw [Nat.mul_add]
        omega
      omega
    rw [this]

theorem ceil_le (a unit : Nat) : ceil a unit ≤ a + (unit - 1) :=
  (floor_le _ unit).trans (Nat.mod_le _ _)

/-- Rounding down commutes with wrapping. -/
theorem floor_mod {unit : Nat} (divides : unit ∣ modulus) (a : Nat) :
    floor (a % modulus) unit = floor a unit % modulus := by
  obtain ⟨count, whole⟩ := divides
  unfold floor
  rw [whole, Nat.mod_mul_right_div_self, Nat.mul_comm unit count, Nat.mul_mod_mul_right]

/-- Rounding up is rounding up without bounds, and wrapping. -/
theorem ceil_mod {unit : Nat} (divides : unit ∣ modulus) (a : Nat) :
    ceil (a % modulus) unit = floor (a + (unit - 1)) unit % modulus := by
  unfold ceil add
  rw [Nat.mod_add_mod, floor_mod divides]

/-- Round up to a multiple, without a bound. -/
def up (a unit : Nat) : Nat := floor (a + (unit - 1)) unit

theorem dvd_up (a unit : Nat) : unit ∣ up a unit := dvd_floor _ unit

theorem le_up {unit : Nat} (positive : 0 < unit) (a : Nat) : a ≤ up a unit := by
  have := lt_floor_add (a + (unit - 1)) positive
  unfold up
  omega

theorem up_lt_add {unit : Nat} (positive : 0 < unit) (a : Nat) : up a unit < a + unit := by
  have := floor_le (a + (unit - 1)) unit
  unfold up
  omega

/-- It gives the least multiple. -/
theorem up_le_of_dvd {a b unit : Nat} (positive : 0 < unit) (divides : unit ∣ b) (le : a ≤ b) :
    up a unit ≤ b := by
  have upper := up_lt_add positive a
  obtain ⟨count, rfl⟩ := divides
  obtain ⟨quotient, whole⟩ := dvd_up a unit
  rw [whole] at upper ⊢
  refine Nat.mul_le_mul_left unit ?_
  by_contra less
  have := Nat.mul_le_mul_left unit (show count + 1 ≤ quotient by omega)
  rw [Nat.mul_add] at this
  omega

theorem up_eq_of_dvd {a unit : Nat} (positive : 0 < unit) (divides : unit ∣ a) : up a unit = a :=
  Nat.le_antisymm (up_le_of_dvd positive divides le_rfl) (le_up positive a)

/-- Rounding to a larger unit absorbs rounding to a smaller one. -/
theorem up_up {small large : Nat} (divides : small ∣ large) (largePositive : 0 < large) (a : Nat) :
    up (up a small) large = up a large := by
  have smallPositive := Nat.pos_of_dvd_of_pos divides largePositive
  apply Nat.le_antisymm
  · apply up_le_of_dvd largePositive (dvd_up a large)
    exact up_le_of_dvd smallPositive (divides.trans (dvd_up a large)) (le_up largePositive a)
  · apply up_le_of_dvd largePositive (dvd_up _ large)
    exact (le_up smallPositive a).trans (le_up largePositive _)

theorem up_le_modulus {a unit : Nat} (divides : unit ∣ modulus) (fits : a < modulus) :
    up a unit ≤ modulus :=
  up_le_of_dvd (Nat.pos_of_dvd_of_pos divides (by decide)) divides fits.le

theorem ceil_eq_up {a unit : Nat} (divides : unit ∣ modulus) (fits : a < modulus)
    (upFits : up a unit < modulus) : ceil a unit = up a unit := by
  have wrapped := ceil_mod divides a
  rw [Nat.mod_eq_of_lt fits] at wrapped
  rw [wrapped]
  exact Nat.mod_eq_of_lt upFits

/-- A word above the last multiple is rounded to zero. -/
theorem ceil_eq_zero {a unit : Nat} (divides : unit ∣ modulus) (fits : a < modulus)
    (wraps : modulus ≤ up a unit) : ceil a unit = 0 := by
  have wrapped := ceil_mod divides a
  rw [Nat.mod_eq_of_lt fits, show floor (a + (unit - 1)) unit = up a unit from rfl,
    Nat.le_antisymm (up_le_modulus divides fits) wraps, Nat.mod_self] at wrapped
  exact wrapped

/-- A word that is not rounded to zero is not made smaller. -/
theorem le_ceil_of_ne_zero {a unit : Nat} (divides : unit ∣ modulus) (fits : a < modulus)
    (nonzero : ceil a unit ≠ 0) : a ≤ ceil a unit := by
  rcases Nat.lt_or_ge (up a unit) modulus with upFits | wraps
  · rw [ceil_eq_up divides fits upFits]
    exact le_up (Nat.pos_of_dvd_of_pos divides (by decide)) a
  · exact absurd (ceil_eq_zero divides fits wraps) nonzero

/-- Rounding a multiple of a smaller unit up to a larger one moves it by at
most the difference of the units. -/
theorem ceil_le_add_sub {a small large : Nat}
    (smallDivides : small ∣ large)
    (largePositive : 0 < large)
    (aligned : small ∣ a)
    (fits : a + (large - 1) < modulus) :
    ceil a large ≤ a + (large - small) := by
  have upper := ceil_lt_add largePositive fits
  obtain ⟨quotient, quotient_eq⟩ := smallDivides.trans (dvd_ceil a large)
  obtain ⟨start, rfl⟩ := aligned
  obtain ⟨ratio, rfl⟩ := smallDivides
  rw [quotient_eq] at upper ⊢
  rw [← Nat.mul_add] at upper
  have steps : quotient + 1 ≤ start + ratio := Nat.lt_of_mul_lt_mul_left upper
  have scaled := Nat.mul_le_mul_left small steps
  rw [Nat.mul_add, Nat.mul_add] at scaled
  omega

end Word
end Vmem
