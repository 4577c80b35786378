import Mathlib.Data.List.Chain
import Mathlib.Algebra.Order.Group.Nat
import Mathlib.Algebra.BigOperators.Group.List.Basic

/-!
# Tilings

A list of pieces of given widths covers an interval without gaps: each piece starts where
the one before it ends.  An edit of a tiling replaces some pieces by others of the same
total width, so every notion here has a rule for `before ++ middle ++ after`.
-/

namespace Vmem
namespace Tiling

variable {α : Type}

/-! ## Positions -/

section Positions

variable (width : α → Nat)

/-- The total width of some pieces. -/
def extent : List α → Nat
  | [] => 0
  | piece :: rest => width piece + extent rest

/-- The pieces with their positions. -/
def placed : Nat → List α → List (Nat × α)
  | _, [] => []
  | start, piece :: rest => (start, piece) :: placed (start + width piece) rest

@[simp] theorem extent_nil : extent width [] = 0 := rfl

@[simp] theorem extent_cons (piece : α) (rest : List α) :
    extent width (piece :: rest) = width piece + extent width rest := rfl

@[simp] theorem extent_append (before after : List α) :
    extent width (before ++ after) = extent width before + extent width after := by
  induction before with
  | nil => simp
  | cons piece rest inductionHypothesis => simp [inductionHypothesis, Nat.add_assoc]

@[simp] theorem placed_nil (start : Nat) : placed width start [] = [] := rfl

@[simp] theorem placed_cons (start : Nat) (piece : α) (rest : List α) :
    placed width start (piece :: rest) =
      (start, piece) :: placed width (start + width piece) rest := rfl

@[simp] theorem placed_append (start : Nat) (before after : List α) :
    placed width start (before ++ after) =
      placed width start before ++ placed width (start + extent width before) after := by
  induction before generalizing start with
  | nil => simp
  | cons piece rest inductionHypothesis => simp [inductionHypothesis, Nat.add_assoc]

variable {width}

/-- A piece divides a tiling into what lies before it and what lies behind it. -/
theorem exists_split {start position : Nat} {piece : α} {pieces : List α}
    (found : (position, piece) ∈ placed width start pieces) :
    ∃ before after, pieces = before ++ piece :: after ∧
      position = start + extent width before := by
  induction pieces generalizing start with
  | nil => simp at found
  | cons first rest inductionHypothesis =>
      rcases List.mem_cons.mp found with same | found
      · obtain ⟨rfl, rfl⟩ := Prod.mk.inj same
        exact ⟨[], rest, rfl, by simp⟩
      · obtain ⟨before, after, split, at_⟩ := inductionHypothesis found
        exact ⟨first :: before, after, by simp [split], by simp [at_, Nat.add_assoc]⟩

/-- Each piece lies inside the tiling. -/
theorem placed_bounds {start position : Nat} {piece : α} {pieces : List α}
    (found : (position, piece) ∈ placed width start pieces) :
    start ≤ position ∧ position + width piece ≤ start + extent width pieces := by
  obtain ⟨before, after, rfl, rfl⟩ := exists_split found
  simp only [extent_append, extent_cons]
  omega

end Positions

/-! ## Neighbours -/

section Neighbours

variable (test : α → α → Bool)

/-- The number of neighbours that pass a test. -/
def touching : List α → Nat
  | [] => 0
  | [_] => 0
  | left :: right :: rest => (test left right).toNat + touching (right :: rest)

/-- Whether the first piece passes the test with a piece before it. -/
def headTouches (piece : α) (after : List α) : Bool := after.head?.any (test piece)

/-- Whether the last piece passes the test with a piece behind it. -/
def lastTouches (before : List α) (piece : α) : Bool :=
  before.getLast?.any fun last => test last piece

@[simp] theorem touching_nil : touching test [] = 0 := rfl

@[simp] theorem headTouches_nil (piece : α) : headTouches test piece [] = false := rfl

@[simp] theorem headTouches_cons (piece next : α) (rest : List α) :
    headTouches test piece (next :: rest) = test piece next := rfl

@[simp] theorem lastTouches_nil (piece : α) : lastTouches test [] piece = false := rfl

@[simp] theorem lastTouches_concat (rest : List α) (last piece : α) :
    lastTouches test (rest ++ [last]) piece = test last piece := by
  simp [lastTouches]

theorem touching_cons (piece : α) (after : List α) :
    touching test (piece :: after) =
      (headTouches test piece after).toNat + touching test after := by
  cases after with
  | nil => rfl
  | cons next rest => rfl

/-- The neighbours of a piece in the middle. -/
theorem touching_append_cons (before : List α) (piece : α) (after : List α) :
    touching test (before ++ piece :: after) =
      touching test before + (lastTouches test before piece).toNat +
        (headTouches test piece after).toNat + touching test after := by
  induction before with
  | nil => simp [touching_cons]
  | cons first rest inductionHypothesis =>
      rw [List.cons_append, touching_cons, inductionHypothesis, touching_cons]
      cases rest with
      | nil => simp [lastTouches, headTouches]; omega
      | cons second others => simp [lastTouches, headTouches]; omega

variable {test}

/-- Pieces that pass the test with no other piece separate the others. -/
theorem touching_replace {middle : List α} (nonempty : middle ≠ [])
    (apart : ∀ piece ∈ middle, ∀ other, test piece other = false ∧ test other piece = false)
    (before after : List α) :
    touching test (before ++ middle ++ after) = touching test before + touching test after := by
  induction middle generalizing before with
  | nil => exact absurd rfl nonempty
  | cons piece rest inductionHypothesis =>
      have alone := apart piece (by simp)
      have noLast : lastTouches test before piece = false := by
        simp [lastTouches, (alone _).2]
      have noHead (others : List α) : headTouches test piece others = false := by
        cases others <;> simp [(alone _).1]
      cases rest with
      | nil =>
          rw [List.append_assoc, List.singleton_append, touching_append_cons, noLast, noHead]
          simp
      | cons second others =>
          have step := inductionHypothesis (by simp)
            (fun other member => apart other (by simp [member])) (before ++ [piece])
          rw [List.append_assoc, List.append_assoc, List.singleton_append] at step
          rw [List.append_assoc, List.cons_append, step, touching_append_cons, noLast]
          simp

end Neighbours

end Tiling
end Vmem
