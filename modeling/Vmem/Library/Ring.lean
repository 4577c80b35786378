import Mathlib.Data.List.Range
import Mathlib.Data.Nat.ModEq
import Mathlib.Logic.Function.Basic

/-!
# Ring buffers

A ring buffer is an array in which a queue occupies the cells from `first` on, wrapping
at the end of the array.  Its contents are a list, and the operations are the list
operations as long as the array is not full.
-/

namespace Vmem

/-- An array that holds a queue of `count` elements from `first` on. -/
structure Ring (α : Type) where
  capacity : Nat
  first : Nat
  count : Nat
  cells : Nat → α

namespace Ring

variable {α : Type} (r : Ring α)

/-- The index of the element with the given number. -/
def index (i : Nat) : Nat := (r.first + i) % r.capacity

/-- The elements in order. -/
def contents : List α := (List.range r.count).map fun i => r.cells (r.index i)

/-- An empty queue. -/
def empty (capacity : Nat) (cells : Nat → α) : Ring α := ⟨capacity, 0, 0, cells⟩

/-- The element at the head. -/
def head : α := r.cells r.first

/-- Drop the head. -/
def pop : Ring α := { r with first := (r.first + 1) % r.capacity, count := r.count - 1 }

/-- Append an element. -/
def push (x : α) : Ring α :=
  { r with cells := Function.update r.cells (r.index r.count) x, count := r.count + 1 }

/-- Copy the queue to the start of another array, in one or two pieces. -/
def moveTo (capacity : Nat) (cells : Nat → α) : Ring α where
  capacity := capacity
  first := 0
  count := r.count
  cells := fun i =>
    if i < r.count then
      if r.first + r.count ≤ r.capacity then r.cells (r.first + i)
      else if i < r.capacity - r.first then r.cells (r.first + i)
      else r.cells (i - (r.capacity - r.first))
    else cells i

/-- The queue fits into the array. -/
structure Fits : Prop where
  first : r.first < r.capacity
  count : r.count ≤ r.capacity

variable {r}

@[simp] theorem contents_empty (capacity : Nat) (cells : Nat → α) :
    (empty capacity cells).contents = [] := rfl

theorem contents_eq_nil (none : r.count = 0) : r.contents = [] := by
  unfold contents
  rw [none]
  rfl

@[simp] theorem length_contents : r.contents.length = r.count := by
  simp [contents]

/-- Different elements lie in different cells. -/
theorem index_ne {i j : Nat} (less : i < j) (bound : j < r.capacity) : r.index i ≠ r.index j := by
  unfold index
  intro same
  have congruent : (r.first + i) ≡ (r.first + j) [MOD r.capacity] := same
  have small := Nat.ModEq.add_left_cancel' r.first congruent
  unfold Nat.ModEq at small
  rw [Nat.mod_eq_of_lt (by omega), Nat.mod_eq_of_lt bound] at small
  omega

theorem fits_empty {capacity : Nat} (positive : 0 < capacity) (cells : Nat → α) :
    (empty capacity cells).Fits := ⟨positive, Nat.zero_le _⟩

theorem Fits.pop (fits : r.Fits) : r.pop.Fits where
  first := Nat.mod_lt _ (Nat.zero_lt_of_lt fits.first)
  count := Nat.le_trans (Nat.sub_le _ _) fits.count

theorem Fits.push (fits : r.Fits) (room : r.count < r.capacity) (x : α) : (r.push x).Fits where
  first := fits.first
  count := room

theorem Fits.moveTo {capacity : Nat} (cells : Nat → α) (positive : 0 < capacity)
    (room : r.count ≤ capacity) : (r.moveTo capacity cells).Fits := ⟨positive, room⟩

/-- Popping takes the head off. -/
theorem contents_pop (fits : r.Fits) (nonempty : 0 < r.count) :
    r.contents = r.head :: r.pop.contents := by
  unfold contents
  obtain ⟨rest, isRest⟩ : ∃ rest, r.count = rest + 1 := ⟨r.count - 1, by omega⟩
  rw [isRest, List.range_succ_eq_map, List.map_cons, List.map_map]
  congr 1
  · unfold index head
    rw [Nat.add_zero, Nat.mod_eq_of_lt fits.first]
  · have fewer : r.pop.count = rest := by
      show r.count - 1 = rest
      omega
    rw [fewer]
    apply List.map_congr_left
    intro i _
    show r.cells ((r.first + (i + 1)) % r.capacity) =
      r.cells (((r.first + 1) % r.capacity + i) % r.capacity)
    rw [Nat.mod_add_mod, Nat.add_assoc, Nat.add_comm 1 i]

/-- Pushing appends. -/
theorem contents_push (room : r.count < r.capacity) (x : α) :
    (r.push x).contents = r.contents ++ [x] := by
  unfold contents
  show (List.range (r.count + 1)).map _ = _
  rw [List.range_succ, List.map_append]
  congr 1
  · apply List.map_congr_left
    intro i member
    have less := List.mem_range.mp member
    show Function.update r.cells (r.index r.count) x (r.index i) = r.cells (r.index i)
    exact Function.update_of_ne (index_ne less room) _ _
  · show [Function.update r.cells (r.index r.count) x (r.index r.count)] = [x]
    rw [Function.update_self]

/-- Moving to another array keeps the contents. -/
theorem contents_moveTo (fits : r.Fits) {capacity : Nat} (cells : Nat → α)
    (room : r.count ≤ capacity) : (r.moveTo capacity cells).contents = r.contents := by
  unfold contents
  apply List.map_congr_left
  intro i member
  have less : i < r.count := List.mem_range.mp member
  have bound := fits.count
  have first := fits.first
  show (r.moveTo capacity cells).cells ((0 + i) % capacity) = r.cells ((r.first + i) % r.capacity)
  rw [Nat.zero_add, Nat.mod_eq_of_lt (by omega)]
  unfold moveTo
  dsimp only
  rw [if_pos less]
  by_cases straight : r.first + i < r.capacity
  · rw [Nat.mod_eq_of_lt straight, if_pos (show i < r.capacity - r.first by omega), ite_self]
  · have wrapped : (r.first + i) % r.capacity = i - (r.capacity - r.first) := by
      rw [Nat.mod_eq_sub_mod (by omega), Nat.mod_eq_of_lt (by omega)]
      omega
    rw [wrapped, if_neg (by omega), if_neg (by omega)]

end Ring
end Vmem
