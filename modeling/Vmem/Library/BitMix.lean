import Mathlib.Data.Fintype.EquivFin
import Mathlib.Data.Finite.Prod

/-!
# Mixing the bits of a word

Generators and hash functions mix the bits of a word by steps that lose nothing: adding a
constant, multiplying by one that has an inverse, rotating, and combining a word with itself
shifted.  Each of these steps is a bijection.
-/

namespace Vmem
namespace BitMix

variable {w k : Nat} {x y d : BitVec w}

instance finite_bitVec (w : Nat) : Finite (BitVec w) :=
  Finite.of_injective BitVec.toFin fun _ _ same => BitVec.eq_of_toFin_eq same

/-! ## A word and itself shifted -/

/-- Shifting to the right loses a bit of every word but zero. -/
theorem eq_zero_of_eq_ushiftRight (positive : 0 < k) (same : d = d >>> k) : d = 0#w := by
  have shrinks : d.toNat = d.toNat / 2 ^ k := by
    rw [← Nat.shiftRight_eq_div_pow, ← BitVec.toNat_ushiftRight, ← same]
  have wide : 1 < 2 ^ k := Nat.one_lt_two_pow (Nat.ne_of_gt positive)
  apply BitVec.eq_of_toNat_eq
  rw [BitVec.toNat_zero]
  by_contra nonzero
  exact absurd shrinks (Nat.ne_of_gt (Nat.div_lt_self (Nat.pos_of_ne_zero nonzero) wide))

/-- Shifting to the left moves the lowest bit. -/
theorem eq_zero_of_eq_shiftLeft (positive : 0 < k) (same : d = d <<< k) : d = 0#w := by
  have bits : ∀ i, d.getLsbD i = false := by
    intro i
    induction i using Nat.strong_induction_on with
    | _ i inductionHypothesis =>
        rw [same, BitVec.getLsbD_shiftLeft]
        by_cases low : i < k
        · simp [low]
        · rw [inductionHypothesis (i - k) (by omega), Bool.and_false]
  apply BitVec.eq_of_getLsbD_eq
  intro i _
  rw [bits i, BitVec.getLsbD_zero]

private theorem exchange_bits :
    ∀ a b c d : Bool, (a ^^ b) = (c ^^ d) → (a ^^ c) = (b ^^ d) := by
  decide

/-- In an equation between two combinations, the inner terms change sides. -/
theorem xor_exchange {a b c d : BitVec w} (same : a ^^^ b = c ^^^ d) : a ^^^ c = b ^^^ d := by
  apply BitVec.eq_of_getLsbD_eq
  intro i _
  have bit : (a.getLsbD i ^^ b.getLsbD i) = (c.getLsbD i ^^ d.getLsbD i) := by
    rw [← BitVec.getLsbD_xor, same, BitVec.getLsbD_xor]
  rw [BitVec.getLsbD_xor, BitVec.getLsbD_xor]
  exact exchange_bits _ _ _ _ bit

theorem xorShiftRight_injective (w : Nat) (positive : 0 < k) :
    Function.Injective fun x : BitVec w => x ^^^ (x >>> k) := by
  intro x y same
  have difference : x ^^^ y = (x ^^^ y) >>> k := by
    rw [BitVec.ushiftRight_xor_distrib]
    exact xor_exchange same
  exact BitVec.xor_eq_zero_iff.mp (eq_zero_of_eq_ushiftRight positive difference)

theorem xorShiftLeft_injective (w : Nat) (positive : 0 < k) :
    Function.Injective fun x : BitVec w => x ^^^ (x <<< k) := by
  intro x y same
  have difference : x ^^^ y = (x ^^^ y) <<< k := by
    rw [BitVec.shiftLeft_xor_distrib]
    exact xor_exchange same
  exact BitVec.xor_eq_zero_iff.mp (eq_zero_of_eq_shiftLeft positive difference)

/-! ## Constants -/

theorem add_injective (c : BitVec w) : Function.Injective fun x => x + c :=
  fun _ _ same => BitVec.add_left_inj c |>.mp same

/-- A word that has an inverse may be cancelled. -/
theorem mul_injective {c inverse : BitVec w} (invertible : c * inverse = 1#w) :
    Function.Injective fun x => x * c := by
  have undo : Function.LeftInverse (fun x => x * inverse) fun x => x * c := by
    intro x
    change x * c * inverse = x
    rw [BitVec.mul_assoc, invertible, BitVec.mul_one]
  exact undo.injective

/-! ## Rotation -/

/-- A word rotated to the left. -/
def rotateLeft (x : BitVec w) (k : Nat) : BitVec w := (x <<< k) ||| (x >>> (w - k))

theorem getLsbD_rotateLeft_of_low {i : Nat} (bound : k ≤ w) (low : i < w - k) :
    (rotateLeft x k).getLsbD (i + k) = x.getLsbD i := by
  have beyond : w ≤ w - k + (i + k) := by omega
  unfold rotateLeft
  rw [BitVec.getLsbD_or, BitVec.getLsbD_shiftLeft, BitVec.getLsbD_ushiftRight,
    BitVec.getLsbD_of_ge x _ beyond, Nat.add_sub_cancel]
  simp
  omega

theorem getLsbD_rotateLeft_of_high {i : Nat} (bound : k ≤ w) (high : w - k ≤ i) (inside : i < w) :
    (rotateLeft x k).getLsbD (i - (w - k)) = x.getLsbD i := by
  have below : i - (w - k) < k := by omega
  unfold rotateLeft
  rw [BitVec.getLsbD_or, BitVec.getLsbD_shiftLeft, BitVec.getLsbD_ushiftRight,
    Nat.add_sub_cancel' high]
  simp [below]

theorem rotateLeft_injective (bound : k ≤ w) :
    Function.Injective fun x : BitVec w => rotateLeft x k := by
  intro x y same
  have agree : rotateLeft x k = rotateLeft y k := same
  apply BitVec.eq_of_getLsbD_eq
  intro i inside
  by_cases low : i < w - k
  · rw [← getLsbD_rotateLeft_of_low bound low, agree, getLsbD_rotateLeft_of_low bound low]
  · have high : w - k ≤ i := Nat.le_of_not_lt low
    rw [← getLsbD_rotateLeft_of_high bound high inside, agree,
      getLsbD_rotateLeft_of_high bound high inside]

end BitMix
end Vmem
