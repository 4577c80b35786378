/-!
# Signed and unsigned words

What an integer becomes when it is kept in a machine word: the number of the word's range that is
congruent to it.
-/

namespace Vmem

/-- What an integer becomes in an `int`. -/
def toInt32 (n : Int) : Int := Int.bmod n 4294967296

/-- What an integer becomes in an `unsigned`. -/
def toUInt32 (n : Int) : Nat := (n % 4294967296).toNat

/-- What an integer becomes in a signed word of 64 bits. -/
def toInt64 (n : Int) : Int := Int.bmod n 18446744073709551616

/-- What an integer becomes in an unsigned word of 64 bits. -/
def toUInt64 (n : Int) : Nat := (n % 18446744073709551616).toNat

variable {n : Int}

theorem toInt32_of_fits (lower : -2147483648 ≤ n) (upper : n < 2147483648) : toInt32 n = n :=
  Int.bmod_eq_of_le_mul_two (by omega) (by omega)

theorem toInt32_neg (lower : 2147483648 ≤ n) (upper : n < 4294967296) : toInt32 n < 0 := by
  unfold toInt32
  rw [Int.bmod_def]
  split <;> omega

theorem toUInt32_of_nonneg (lower : 0 ≤ n) (upper : n < 4294967296) : (toUInt32 n : Int) = n := by
  unfold toUInt32
  omega

theorem toInt64_of_fits (lower : -9223372036854775808 ≤ n) (upper : n < 9223372036854775808) :
    toInt64 n = n :=
  Int.bmod_eq_of_le_mul_two (by omega) (by omega)

theorem toUInt64_of_nonneg (lower : 0 ≤ n) (upper : n < 18446744073709551616) :
    (toUInt64 n : Int) = n := by
  unfold toUInt64
  omega

theorem toInt64_eq_self_iff :
    n = toInt64 n ↔ -9223372036854775808 ≤ n ∧ n < 9223372036854775808 := by
  constructor
  · intro same
    unfold toInt64 at same
    rw [Int.bmod_def] at same
    split at same <;> omega
  · rintro ⟨lower, upper⟩
    rw [toInt64_of_fits lower upper]

theorem toUInt64_eq_self_iff : n = toUInt64 n ↔ 0 ≤ n ∧ n < 18446744073709551616 := by
  constructor
  · intro same
    unfold toUInt64 at same
    omega
  · rintro ⟨lower, upper⟩
    rw [toUInt64_of_nonneg lower upper]

end Vmem
