import Mathlib.Data.List.Basic

/-!
# Cells of a heap

A record of everything that was obtained from a heap, newest first.  An address can be
handed out again once its cell has been released, and an operation on an address is one
on the newest cell that has it.  A cell counts its releases and the accesses after its
first release, so that a second release or a late access stays visible.
-/

namespace Vmem

/-- A piece of memory that was obtained at some time. -/
structure Cell where
  address : Nat
  releases : Nat
  /-- Accesses after a release. -/
  late : Nat
  deriving DecidableEq

namespace Cell

/-- The newest cell at an address is changed. -/
def update (change : Cell → Cell) (address : Nat) : List Cell → List Cell
  | [] => []
  | cell :: older =>
      if cell.address = address then change cell :: older
      else cell :: update change address older

/-- Memory at an address is obtained. -/
def obtain (cells : List Cell) (address : Nat) : List Cell := ⟨address, 0, 0⟩ :: cells

/-- The memory at an address is released. -/
def release (cells : List Cell) (address : Nat) : List Cell :=
  update (fun cell => { cell with releases := cell.releases + 1 }) address cells

/-- The memory at an address is read or written. -/
def access (cells : List Cell) (address : Nat) : List Cell :=
  update (fun cell => if cell.releases = 0 then cell else { cell with late := cell.late + 1 })
    address cells

/-- The addresses of the cells that have not been released. -/
def inUse (cells : List Cell) : List Nat :=
  (cells.filter fun cell => cell.releases = 0).map (·.address)

/-- No cell was released twice or used after its release, and none was handed out where
another one was in use. -/
structure Sound (cells : List Cell) : Prop where
  once : ∀ cell ∈ cells, cell.releases ≤ 1 ∧ cell.late = 0
  apart : cells.Pairwise fun newer older => newer.address = older.address → older.releases = 1

variable {cells : List Cell} {address : Nat}

theorem sound_nil : Sound [] := ⟨by simp, List.Pairwise.nil⟩

theorem Sound.tail {cell : Cell} (sound : Sound (cell :: cells)) : Sound cells :=
  ⟨fun other member => sound.once other (List.mem_cons_of_mem _ member),
    (List.pairwise_cons.1 sound.apart).2⟩

theorem mem_inUse : address ∈ inUse cells ↔
    ∃ cell ∈ cells, cell.releases = 0 ∧ cell.address = address := by
  unfold inUse
  simp [and_assoc]

theorem inUse_cons (cell : Cell) : inUse (cell :: cells) =
    if cell.releases = 0 then cell.address :: inUse cells else inUse cells := by
  unfold inUse
  by_cases unreleased : cell.releases = 0
  · simp [unreleased]
  · simp [unreleased]

@[simp] theorem inUse_obtain : inUse (obtain cells address) = address :: inUse cells := by
  unfold obtain
  rw [inUse_cons, if_pos rfl]

/-- Memory that was not in use can be obtained. -/
theorem Sound.obtain (sound : Sound cells) (unused : address ∉ inUse cells) :
    Sound (obtain cells address) := by
  constructor
  · intro cell member
    obtain rfl | member := List.mem_cons.1 member
    · exact ⟨Nat.zero_le _, rfl⟩
    · exact sound.once cell member
  · refine List.pairwise_cons.2 ⟨fun older member same => ?_, sound.apart⟩
    have once := (sound.once older member).1
    have released : older.releases ≠ 0 := fun unreleased =>
      unused (mem_inUse.2 ⟨older, member, unreleased, same.symm⟩)
    omega

/-- The newest cell at an address in use is the one in use. -/
theorem Sound.unreleased {cell : Cell} (sound : Sound (cell :: cells))
    (used : cell.address ∈ inUse (cell :: cells)) : cell.releases = 0 := by
  obtain ⟨other, member, unreleased, same⟩ := mem_inUse.1 used
  obtain rfl | member := List.mem_cons.1 member
  · exact unreleased
  · have released := (List.pairwise_cons.1 sound.apart).1 other member same.symm
    omega

theorem inUse_of_ne {cell : Cell} (other : cell.address ≠ address)
    (used : address ∈ inUse (cell :: cells)) : address ∈ inUse cells := by
  obtain ⟨found, member, unreleased, same⟩ := mem_inUse.1 used
  obtain rfl | member := List.mem_cons.1 member
  · exact absurd same other
  · exact mem_inUse.2 ⟨found, member, unreleased, same⟩

/-- Memory in use can be accessed. -/
theorem Sound.access (sound : Sound cells) (used : address ∈ inUse cells) :
    access cells address = cells := by
  induction cells with
  | nil => rfl
  | cons cell older inductionHypothesis =>
      unfold Cell.access update
      by_cases same : cell.address = address
      · subst same
        rw [if_pos rfl, if_pos (sound.unreleased used)]
      · rw [if_neg same]
        exact congrArg (cell :: ·) (inductionHypothesis sound.tail (inUse_of_ne same used))

theorem mem_release {cell : Cell} (member : cell ∈ release cells address) :
    ∃ before ∈ cells, before.address = cell.address ∧
      (cell = before ∨ cell = { before with releases := before.releases + 1 }) := by
  induction cells with
  | nil => cases member
  | cons first older inductionHypothesis =>
      unfold release update at member
      split at member
      · obtain rfl | member := List.mem_cons.1 member
        · exact ⟨first, List.mem_cons_self, rfl, Or.inr rfl⟩
        · exact ⟨cell, List.mem_cons_of_mem _ member, rfl, Or.inl rfl⟩
      · obtain rfl | member := List.mem_cons.1 member
        · exact ⟨cell, List.mem_cons_self, rfl, Or.inl rfl⟩
        · obtain ⟨before, old, rest⟩ := inductionHypothesis member
          exact ⟨before, List.mem_cons_of_mem _ old, rest⟩

/-- What is in use after memory in use was released. -/
theorem Sound.inUse_release (sound : Sound cells) (used : address ∈ inUse cells) :
    inUse (release cells address) = (inUse cells).erase address := by
  induction cells with
  | nil => rfl
  | cons cell older inductionHypothesis =>
      unfold release update
      by_cases same : cell.address = address
      · subst same
        rw [if_pos rfl, inUse_cons, inUse_cons, if_neg (Nat.succ_ne_zero _),
          if_pos (sound.unreleased used), List.erase_cons_head]
      · have rest := inductionHypothesis sound.tail (inUse_of_ne same used)
        unfold release at rest
        rw [if_neg same, inUse_cons, inUse_cons, rest]
        split
        · rw [List.erase_cons_tail (by simpa using same)]
        · rfl

/-- Memory in use can be released. -/
theorem Sound.release (sound : Sound cells) (used : address ∈ inUse cells) :
    Sound (release cells address) := by
  induction cells with
  | nil => exact sound
  | cons cell older inductionHypothesis =>
      obtain ⟨ahead, apart⟩ := List.pairwise_cons.1 sound.apart
      unfold Cell.release update
      by_cases same : cell.address = address
      · subst same
        have unreleased := sound.unreleased used
        have first := sound.once cell List.mem_cons_self
        rw [if_pos rfl]
        constructor
        · intro other member
          obtain rfl | member := List.mem_cons.1 member
          · exact ⟨by simp [unreleased], first.2⟩
          · exact sound.once other (List.mem_cons_of_mem _ member)
        · exact List.pairwise_cons.2 ⟨ahead, apart⟩
      · have rest := inductionHypothesis sound.tail (inUse_of_ne same used)
        rw [if_neg same]
        constructor
        · intro other member
          obtain rfl | member := List.mem_cons.1 member
          · exact sound.once _ List.mem_cons_self
          · exact rest.once other member
        · refine List.pairwise_cons.2 ⟨fun other member equal => ?_, rest.apart⟩
          have bound := (rest.once other member).1
          obtain ⟨before, old, address, unchanged | changed⟩ := mem_release member
          · rw [unchanged] at equal ⊢
            exact ahead before old equal
          · have released := ahead before old (equal.trans address.symm)
            rw [changed] at bound ⊢
            simp only at bound ⊢
            omega

end Cell

end Vmem
