import Vmem.Library.Span

/-!
# Memory of bytes

A memory gives a byte for every address.  A number that takes several bytes has its lowest
byte first.  What a store or a fill leaves alone is said once for each, so that a frame is a
matter of spans.
-/

namespace Vmem

/-- The contents of memory. -/
abbrev Bytes := Nat → UInt8

namespace Bytes

/-- The number in the first `width` bytes from an address on. -/
def load (mem : Bytes) : (addr width : Nat) → Nat
  | _, 0 => 0
  | addr, width + 1 => (mem addr).toNat + 256 * load mem (addr + 1) width

/-- Store a number in the first `width` bytes from an address on. -/
def store (mem : Bytes) : (addr value width : Nat) → Bytes
  | _, _, 0 => mem
  | addr, value, width + 1 => fun x =>
      if x = addr then UInt8.ofNat value else store mem (addr + 1) (value / 256) width x

/-- Replace the bytes of a span. -/
def fill (mem : Bytes) (span : Span) (contents : Bytes) : Bytes := fun x =>
  if span.Has x then contents x else mem x

variable {mem other contents : Bytes} {span : Span} {addr value width x : Nat}

/-- A number depends on its own bytes only. -/
theorem load_congr (same : ∀ x, (Span.mk addr width).Has x → mem x = other x) :
    load mem addr width = load other addr width := by
  induction width generalizing addr with
  | zero => rfl
  | succ width inductionHypothesis =>
      unfold load
      rw [same addr ⟨le_rfl, by simp⟩, inductionHypothesis fun x inside => same x ?_]
      have lower := inside.1
      have upper := inside.2
      dsimp only at lower upper
      exact ⟨by dsimp only; omega, by dsimp only; omega⟩

theorem store_outside (outside : ¬(Span.mk addr width).Has x) :
    store mem addr value width x = mem x := by
  induction width generalizing addr value with
  | zero => rfl
  | succ width inductionHypothesis =>
      rw [Span.has_mk] at outside
      unfold store
      rw [if_neg (by omega)]
      refine inductionHypothesis ?_
      rw [Span.has_mk]
      omega

/-- What was stored is read back. -/
theorem load_store (fits : value < 256 ^ width) :
    load (store mem addr value width) addr width = value := by
  induction width generalizing addr value with
  | zero =>
      rw [Nat.pow_zero] at fits
      unfold load
      omega
  | succ width inductionHypothesis =>
      have rest : load (store mem addr value (width + 1)) (addr + 1) width =
          load (store mem (addr + 1) (value / 256) width) (addr + 1) width :=
        load_congr fun x inside => if_neg fun first => by
          have lower := inside.1
          dsimp only at lower
          omega
      have high : value / 256 < 256 ^ width := by
        rw [Nat.div_lt_iff_lt_mul (by decide)]
        rwa [Nat.pow_succ] at fits
      unfold load
      rw [rest, inductionHypothesis high]
      show (if addr = addr then UInt8.ofNat value else _).toNat + 256 * (value / 256) = value
      rw [if_pos rfl, UInt8.toNat_ofNat']
      omega

/-- A store to other addresses leaves a number as it was. -/
theorem load_store_apart {at_ bytes : Nat}
    (apart : (Span.mk at_ bytes).Apart (Span.mk addr width)) :
    load (store mem at_ value bytes) addr width = load mem addr width := by
  refine load_congr fun x inside => store_outside fun stored => ?_
  exact apart.disjoint x stored inside

theorem fill_outside (outside : ¬span.Has x) : fill mem span contents x = mem x :=
  if_neg outside

end Bytes

end Vmem
