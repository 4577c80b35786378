import Mathlib.Logic.Function.Basic

/-!
# Shared and private mappings of files

A process sees a file through a mapping.  A shared mapping reads and writes the
file itself.  A private mapping reads the file until a page is written; the first
write to a page takes a copy of it, and from then on the page is read from the
copy.
-/

namespace Vmem

variable {β : Type}

/-- A mapping of a whole file. -/
inductive Mapping (β : Type)
  /-- `MAP_SHARED`. -/
  | shared (file : Nat)
  /-- `MAP_PRIVATE`, with the pages that have been copied and their bytes. -/
  | copied (file : Nat) (own : Nat → Bool) (copy : Nat → β)

namespace Mapping

/-- The file a mapping is about. -/
def file : Mapping β → Nat
  | shared f => f
  | copied f _ _ => f

/-- Whether writes stay in the process. -/
def isPrivate : Mapping β → Bool
  | shared _ => false
  | copied _ _ _ => true

/-- A private mapping as `mmap` returns it. -/
def fresh (f : Nat) (unused : β) : Mapping β := copied f (fun _ => false) (fun _ => unused)

/-- The bytes that are seen through a mapping. -/
def read (pagesize : Nat) (files : Nat → Nat → β) : Mapping β → Nat → β
  | shared f => files f
  | copied f own copy =>
      fun offset => if own (offset / pagesize) then copy offset else files f offset

/-- A page of a private mapping before its first write. -/
def copyPage (pagesize : Nat) (files : Nat → Nat → β) (f page : Nat) (own : Nat → Bool)
    (copy : Nat → β) : Nat → β :=
  fun offset =>
    if own page = false ∧ offset / pagesize = page then files f offset else copy offset

/-- Write one byte through a mapping. -/
def write (pagesize : Nat) (files : Nat → Nat → β) (mapping : Mapping β) (offset : Nat)
    (value : β) : (Nat → Nat → β) × Mapping β :=
  match mapping with
  | shared f => (Function.update files f (Function.update (files f) offset value), shared f)
  | copied f own copy =>
      let page := offset / pagesize
      (files, copied f (Function.update own page true)
        (Function.update (copyPage pagesize files f page own copy) offset value))

variable {pagesize : Nat} {files files' : Nat → Nat → β} {mapping : Mapping β}
variable {offset : Nat} {value : β}

@[simp] theorem file_shared (f : Nat) : (shared f : Mapping β).file = f := rfl

@[simp] theorem isPrivate_shared (f : Nat) : (shared f : Mapping β).isPrivate = false := rfl

@[simp] theorem read_shared (f : Nat) : (shared f : Mapping β).read pagesize files = files f := rfl

@[simp] theorem file_fresh (f : Nat) (unused : β) : (fresh f unused).file = f := rfl

@[simp] theorem isPrivate_fresh (f : Nat) (unused : β) : (fresh f unused).isPrivate = true := rfl

@[simp] theorem read_fresh (f : Nat) (unused : β) :
    (fresh f unused).read pagesize files = files f := rfl

@[simp] theorem file_write : (mapping.write pagesize files offset value).2.file = mapping.file := by
  cases mapping <;> rfl

@[simp] theorem isPrivate_write :
    (mapping.write pagesize files offset value).2.isPrivate = mapping.isPrivate := by
  cases mapping <;> rfl

/-- Only the mapped file matters for what is read. -/
theorem read_congr (same : files' mapping.file = files mapping.file) :
    mapping.read pagesize files' = mapping.read pagesize files := by
  cases mapping with
  | shared f => exact same
  | copied f own copy =>
      funext offset
      have same : files' f = files f := same
      simp only [read, same]

/-- A mapping that is not private reads its file. -/
theorem read_of_not_private (open_ : mapping.isPrivate = false) :
    mapping.read pagesize files = files mapping.file := by
  cases mapping with
  | shared f => rfl
  | copied f own copy => cases open_

/-- A write leaves all other files alone. -/
theorem write_files_of_ne {g : Nat} (different : g ≠ mapping.file) :
    (mapping.write pagesize files offset value).1 g = files g := by
  cases mapping with
  | shared f => exact Function.update_of_ne different _ _
  | copied f own copy => rfl

/-- A write through a private mapping leaves every file alone. -/
theorem write_files_of_private (closed : mapping.isPrivate = true) :
    (mapping.write pagesize files offset value).1 = files := by
  cases mapping with
  | shared f => cases closed
  | copied f own copy => rfl

/-- The writer sees its write, and otherwise what it saw before. -/
theorem read_write :
    (mapping.write pagesize files offset value).2.read pagesize
        (mapping.write pagesize files offset value).1 =
      Function.update (mapping.read pagesize files) offset value := by
  cases mapping with
  | shared f => exact Function.update_self f _ files
  | copied f own copy =>
      funext other
      by_cases here : other = offset
      · subst here
        simp [write, read]
      · by_cases page : other / pagesize = offset / pagesize
        · cases taken : own (offset / pagesize) <;>
            simp [write, read, here, page, taken, copyPage]
        · simp [write, read, here, page, copyPage]

end Mapping

end Vmem
