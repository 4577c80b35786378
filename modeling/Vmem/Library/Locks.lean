import Mathlib.Data.List.Basic

/-!
# Mutexes of one thread

What a thread does with mutexes is the list of its acquire and release events.
Mutexes are not recursive: a thread must not acquire one that it holds, and it
must release what it has acquired, once each.
-/

namespace Vmem

/-- A thread acquires or releases a mutex. -/
inductive LockEvent (μ : Type)
  | acquire (m : μ)
  | release (m : μ)
  deriving DecidableEq

variable {μ : Type} [DecidableEq μ]

/-- What a thread holds after some events; `none` when it acquires a mutex that it holds or
releases one that it does not hold. -/
def holding : List μ → List (LockEvent μ) → Option (List μ)
  | held, [] => some held
  | held, .acquire m :: events => if m ∈ held then none else holding (m :: held) events
  | held, .release m :: events => if m ∈ held then holding (held.erase m) events else none

/-- A thread that held nothing never acquires a mutex it holds, and in the end has released
every mutex it acquired exactly once. -/
def Disciplined (events : List (LockEvent μ)) : Prop := holding [] events = some []

instance (events : List (LockEvent μ)) : Decidable (Disciplined events) :=
  inferInstanceAs (Decidable (holding [] events = some []))

/-- Events between acquiring and releasing a mutex. -/
def locked (m : μ) (events : List (LockEvent μ)) : List (LockEvent μ) :=
  .acquire m :: (events ++ [.release m])

theorem holding_append (held : List μ) (first second : List (LockEvent μ)) :
    holding held (first ++ second) = (holding held first).bind fun rest => holding rest second := by
  induction first generalizing held with
  | nil => rfl
  | cons event events inductionHypothesis =>
      cases event with
      | acquire m =>
          rw [List.cons_append, holding, holding]
          split
          · rfl
          · exact inductionHypothesis (m :: held)
      | release m =>
          rw [List.cons_append, holding, holding]
          split
          · exact inductionHypothesis (held.erase m)
          · rfl

/-- Releasing the mutex that was acquired last. -/
theorem holding_release (held : List μ) (m : μ) :
    holding (m :: held) [.release m] = some held := by
  rw [holding, if_pos List.mem_cons_self, List.erase_cons_head]
  rfl

/-- A section under a mutex. -/
theorem holding_locked {held : List μ} {m : μ} (free : m ∉ held)
    (events : List (LockEvent μ)) :
    holding held (locked m events) =
      (holding (m :: held) events).bind fun rest => holding rest [.release m] := by
  rw [locked, holding, if_neg free, holding_append]

/-- A section under a mutex that leaves the thread with what it had. -/
theorem holding_locked_of_some {held : List μ} {m : μ} {events : List (LockEvent μ)}
    (free : m ∉ held) (inside : holding (m :: held) events = some (m :: held)) :
    holding held (locked m events) = some held := by
  rw [holding_locked free, inside]
  exact holding_release held m

/-- A section under a mutex in which something goes wrong. -/
theorem holding_locked_of_none {held : List μ} {m : μ} {events : List (LockEvent μ)}
    (inside : holding (m :: held) events = none) : holding held (locked m events) = none := by
  rw [locked, holding]
  split
  · rfl
  · rw [holding_append, inside]
    rfl

/-- Acquiring a mutex twice. -/
theorem holding_locked_of_held {held : List μ} {m : μ} (mine : m ∈ held)
    (events : List (LockEvent μ)) : holding held (locked m events) = none := by
  rw [locked, holding, if_pos mine]

/-- Whatever else a thread holds, the events use only the given mutexes and leave it with what
it had. -/
structure Balanced (uses : List μ) (events : List (LockEvent μ)) : Prop where
  keeps : ∀ held, (∀ m ∈ uses, m ∉ held) → holding held events = some held

namespace Balanced

variable {uses more : List μ} {events first second : List (LockEvent μ)}

theorem nil : Balanced uses ([] : List (LockEvent μ)) := ⟨fun _ _ => rfl⟩

theorem append (one : Balanced uses first) (two : Balanced uses second) :
    Balanced uses (first ++ second) := by
  refine ⟨fun held free => ?_⟩
  rw [holding_append, one.keeps held free]
  exact two.keeps held free

theorem mono (balanced : Balanced uses events) (subset : ∀ m ∈ uses, m ∈ more) :
    Balanced more events :=
  ⟨fun held free => balanced.keeps held fun m member => free m (subset m member)⟩

theorem locked {m : μ} (balanced : Balanced uses events) (other : m ∉ uses) :
    Balanced (m :: uses) (locked m events) := by
  refine ⟨fun held free => ?_⟩
  apply holding_locked_of_some (free m List.mem_cons_self)
  apply balanced.keeps
  intro k member inside
  rcases List.mem_cons.mp inside with rfl | mine
  · exact other member
  · exact free k (List.mem_cons_of_mem _ member) mine

theorem disciplined (balanced : Balanced uses events) : Disciplined events :=
  balanced.keeps [] fun _ _ => List.not_mem_nil

end Balanced

end Vmem
