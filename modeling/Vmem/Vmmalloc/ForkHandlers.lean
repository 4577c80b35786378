import Vmem.Vmmalloc.Fork

/-!
# What one handler step does to the process that takes it

A process depends on the file it has mapped and on the copy it is making; a child
that has not yet mapped its copy depends on that copy alone.  A handler step
changes no other file, keeps the pool as it is, and leaves the descriptors as the
next stage expects them.
-/

namespace Vmem
namespace Vmmalloc

namespace Process

/-- The open pool descriptors, with their files. -/
def Descriptors (p : Process) (table : List (Int × Nat)) : Prop :=
  ∀ descriptor f, p.descriptors descriptor = some (.pool f) ↔ (descriptor, f) ∈ table

/-- A copy of the pool is open beside the pool. -/
structure WithClone (p : Process) (c : Nat) : Prop where
  distinct : p.fd ≠ p.fdClone
  apart : c ≠ p.mapping.file
  descriptors : p.Descriptors [(p.fd, p.mapping.file), (p.fdClone, c)]

/-- The first bytes of a file are those of the pool. -/
def Copied (p : Process) (settings : Settings) (files : Nat → Nat → UInt8) (c count : Nat) : Prop :=
  ∀ offset < count, files c offset = p.mapping.read settings.pagesize files offset

/-- What holds of a process at each stage. -/
def Staged (p : Process) (settings : Settings) (files : Nat → Nat → UInt8) : Prop :=
  match p.stage with
  | .user | .prefork => p.Descriptors [(p.fd, p.mapping.file)]
  | .cloneTmpfile | .cloneFailed | .remapAsPrivate =>
      p.isPrivate = false ∧ p.Descriptors [(p.fd, p.mapping.file)]
  | .cloneAllocate | .cloneMap | .cloneError => p.isPrivate = false ∧ ∃ c, p.WithClone c
  | .cloneCopy c next =>
      p.isPrivate = false ∧ p.WithClone c ∧ next ≤ settings.size ∧ p.Copied settings files c next
  | .cloneUnmap =>
      p.isPrivate = false ∧ ∃ c, p.WithClone c ∧ p.Copied settings files c settings.size
  | .fork =>
      (p.isPrivate = true ∧ p.Descriptors [(p.fd, p.mapping.file)]) ∨
        (p.isPrivate = false ∧ ∃ c, p.WithClone c ∧ p.Copied settings files c settings.size)
  | .postforkParent | .postforkChild =>
      (p.isPrivate = true ∧ p.Descriptors [(p.fd, p.mapping.file)]) ∨
        (p.isPrivate = false ∧ ∃ c, p.WithClone c)
  | .childMap => p.isPrivate = false ∧ p.fd = p.fdClone ∧ ∃ c, p.Descriptors [(p.fd, c)]

/-- The local invariant of a process. -/
structure Sound (p : Process) (settings : Settings) (files : Nat → Nat → UInt8) : Prop where
  closed : p.isPrivate = p.mapping.isPrivate
  unspoilt : p.misclosed = false
  staged : p.Staged settings files

/-- The file behind `Fd_clone`, if there is one. -/
def cloneFile (p : Process) : List Nat := (p.poolFile p.fdClone).toList

/-- The files a process depends on. -/
def held (p : Process) : List Nat :=
  match p.stage with
  | .cloneAllocate | .cloneMap | .cloneCopy _ _ | .cloneUnmap | .cloneError =>
      p.mapping.file :: p.cloneFile
  | .fork => if p.isPrivate then [p.mapping.file] else p.mapping.file :: p.cloneFile
  | .postforkChild | .childMap => if p.isPrivate then [p.mapping.file] else p.cloneFile
  | _ => [p.mapping.file]

/-- A child that has not yet mapped its pool. -/
def pending (p : Process) : Bool := p.stage = .postforkChild ∨ p.stage = .childMap

/-- The pool a process works on.  For a child that still has to map it, this is the
copy behind `Fd_clone`. -/
def contents (p : Process) (settings : Settings) (files : Nat → Nat → UInt8) : Nat → UInt8 :=
  if p.pending ∧ p.isPrivate = false then
    match p.poolFile p.fdClone with
    | some c => files c
    | none => p.mapping.read settings.pagesize files
  else p.mapping.read settings.pagesize files

variable {p : Process} {settings : Settings} {files files' : Nat → Nat → UInt8} {c f : Nat}

/-! ## Descriptors -/

theorem poolFile_eq_some {descriptor : Int} :
    p.poolFile descriptor = some f ↔ p.descriptors descriptor = some (.pool f) := by
  unfold poolFile
  cases open_ : p.descriptors descriptor with
  | none => simp
  | some target => cases target <;> simp

theorem Descriptors.poolFile {table : List (Int × Nat)} (descriptors : p.Descriptors table)
    {descriptor : Int} (member : (descriptor, f) ∈ table) : p.poolFile descriptor = some f :=
  poolFile_eq_some.mpr ((descriptors descriptor f).mpr member)

/-- The stage does not matter for the descriptors. -/
theorem WithClone.at_stage (clone : p.WithClone c) (next : Stage) :
    Process.WithClone { p with stage := next } c :=
  ⟨clone.distinct, clone.apart, clone.descriptors⟩

theorem WithClone.poolFile (clone : p.WithClone c) : p.poolFile p.fdClone = some c :=
  clone.descriptors.poolFile (by simp)

theorem WithClone.cloneFile (clone : p.WithClone c) : p.cloneFile = [c] := by
  unfold Process.cloneFile
  rw [clone.poolFile]
  rfl

/-- Closing an open pool descriptor takes it out of the table. -/
theorem Descriptors.close {table : List (Int × Nat)} (descriptors : p.Descriptors table)
    (descriptor : Int) :
    (p.close descriptor).Descriptors (table.filter fun entry => entry.1 ≠ descriptor) := by
  intro other f
  unfold Process.close
  by_cases same : other = descriptor
  · subst same
    simp
  · simp [descriptors other f, same]

/-- Closing an open pool descriptor is no mistake. -/
theorem misclosed_close {descriptor : Int} (open_ : p.poolFile descriptor = some f) :
    (p.close descriptor).misclosed = p.misclosed := by
  simp [Process.close, open_]

/-- Closing `Fd_clone` leaves the pool descriptor. -/
theorem WithClone.close_clone (clone : p.WithClone c) (next : Stage) :
    Process.Descriptors { p.close p.fdClone with stage := next } [(p.fd, p.mapping.file)] := by
  have rest : (p.close p.fdClone).Descriptors [(p.fd, p.mapping.file)] := by
    simpa [clone.distinct] using clone.descriptors.close p.fdClone
  exact rest

/-- Opening a descriptor that was not in use adds it to the table. -/
theorem Descriptors.opened {table : List (Int × Nat)} (descriptors : p.Descriptors table)
    {descriptor : Int} (unused : p.descriptors descriptor = none) (f : Nat) (q : Process)
    (result : q.descriptors = Function.update p.descriptors descriptor (some (.pool f))) :
    q.Descriptors (table ++ [(descriptor, f)]) := by
  intro other g
  rw [result]
  by_cases same : other = descriptor
  · subst same
    have absent : (other, g) ∉ table := by
      rw [← descriptors other g, unused]
      simp
    simp [absent, eq_comm]
  · simp [descriptors other g, same]

/-- A descriptor that is no pool descriptor before and after does not matter. -/
theorem Descriptors.keep {table : List (Int × Nat)} (descriptors : p.Descriptors table)
    (descriptor : Int) (target : Option Target) (q : Process)
    (result : q.descriptors = Function.update p.descriptors descriptor target)
    (before : ∀ f, p.descriptors descriptor ≠ some (.pool f))
    (after : ∀ f, target ≠ some (.pool f)) : q.Descriptors table := by
  intro other f
  rw [result, ← descriptors other f]
  by_cases same : other = descriptor
  · subst same
    simp [after f, before f]
  · rw [Function.update_of_ne same]

/-! ## What depends on which files -/

/-- A process that depends on files that are the same is in the same state. -/
theorem Sound.congr (sound : p.Sound settings files)
    (same : ∀ g ∈ p.held, files' g = files g) : p.Sound settings files' := by
  refine ⟨sound.closed, sound.unspoilt, ?_⟩
  have staged := sound.staged
  have copied : ∀ c count, files' p.mapping.file = files p.mapping.file → files' c = files c →
      p.Copied settings files c count → p.Copied settings files' c count := by
    intro c count mapped clone copied offset below
    rw [clone, Mapping.read_congr mapped]
    exact copied offset below
  unfold Staged at staged ⊢
  unfold held at same
  cases stage : p.stage with
  | cloneCopy c next =>
      simp only [stage] at staged same ⊢
      obtain ⟨shared, clone, within, soFar⟩ := staged
      rw [clone.cloneFile] at same
      exact ⟨shared, clone, within, copied c next (same _ (by simp)) (same _ (by simp)) soFar⟩
  | cloneUnmap =>
      simp only [stage] at staged same ⊢
      obtain ⟨shared, c, clone, whole⟩ := staged
      rw [clone.cloneFile] at same
      exact ⟨shared, c, clone, copied c _ (same _ (by simp)) (same _ (by simp)) whole⟩
  | fork =>
      simp only [stage] at staged same ⊢
      obtain private_ | ⟨shared, c, clone, whole⟩ := staged
      · exact Or.inl private_
      · rw [shared, clone.cloneFile] at same
        exact Or.inr
          ⟨shared, c, clone, copied c _ (same _ (by simp)) (same _ (by simp)) whole⟩
  | _ => simpa only [stage] using staged

/-- A process depends on the file it has mapped, unless it is a child that is
going to map a copy. -/
theorem mapped_mem_held (settled : ¬(p.pending = true ∧ p.isPrivate = false)) :
    p.mapping.file ∈ p.held := by
  unfold pending at settled
  unfold held
  cases stage : p.stage with
  | postforkChild | childMap =>
      have closed : p.isPrivate = true := by simpa [stage] using settled
      simp [closed]
  | fork => cases closed : p.isPrivate <;> simp
  | _ => exact List.mem_cons_self

/-- A child that is going to map a copy works on that copy. -/
theorem contents_of_pending (pending : p.pending = true) (shared : p.isPrivate = false)
    (file : p.poolFile p.fdClone = some c) : p.contents settings files = files c := by
  simp [contents, pending, shared, file]

/-- Every other process works on what it sees. -/
theorem contents_of_settled (settled : p.pending = false) :
    p.contents settings files = p.mapping.read settings.pagesize files := by
  simp [contents, settled]

/-- The pool of a process depends on the files it holds. -/
theorem Sound.contents_congr (sound : p.Sound settings files)
    (same : ∀ g ∈ p.held, files' g = files g) :
    p.contents settings files' = p.contents settings files := by
  have staged := sound.staged
  unfold contents
  unfold Staged at staged
  by_cases waits : p.pending = true ∧ p.isPrivate = false
  · rw [if_pos waits, if_pos waits]
    obtain ⟨pending, shared⟩ := waits
    have stage : p.stage = .postforkChild ∨ p.stage = .childMap := by
      simpa [Process.pending] using pending
    cases open_ : p.poolFile p.fdClone with
    | some c =>
        refine same c ?_
        obtain stage | stage := stage <;> simp [held, stage, shared, cloneFile, open_]
    | none =>
        exfalso
        obtain stage | stage := stage
        · simp only [stage, shared] at staged
          obtain ⟨absurd_, _⟩ | ⟨_, c, clone⟩ := staged
          · cases absurd_
          · rw [clone.poolFile] at open_
            cases open_
        · simp only [stage] at staged
          obtain ⟨_, equal, c, descriptors⟩ := staged
          rw [← equal, descriptors.poolFile List.mem_cons_self] at open_
          cases open_
  · rw [if_neg waits, if_neg waits]
    exact Mapping.read_congr (same _ (mapped_mem_held waits))

end Process

/-! ## One step of a handler -/

/-- A step of a process touches only the files it holds and files that are new,
and none at all once the mapping is private. -/
structure Touches (files : Nat → Nat → UInt8) (nextFile : Nat) (p : Process)
    (files' : Nat → Nat → UInt8) (nextFile' : Nat) : Prop where
  grows : nextFile ≤ nextFile'
  others : ∀ g < nextFile, g ∉ p.held → files' g = files g
  quiet : p.isPrivate = true → files' = files

/-- What a process depends on after a step. -/
structure Moved (settings : Settings) (nextFile : Nat) (p : Process)
    (files' : Nat → Nat → UInt8) (nextFile' : Nat) (p' : Process) : Prop where
  sound : p'.Sound settings files'
  held : ∀ f ∈ p'.held, f ∈ p.held ∨ (f = nextFile ∧ nextFile < nextFile')
  closed : p.isPrivate = true → p'.isPrivate = true

section

variable {settings : Settings} {files : Nat → Nat → UInt8} {nextFile : Nat}
variable {p p' : Process}

theorem Touches.refl : Touches files nextFile p files nextFile :=
  ⟨Nat.le_refl _, fun _ _ _ => rfl, fun _ => rfl⟩

/-- What a step of a handler does. -/
structure Advanced (settings : Settings) (files : Nat → Nat → UInt8) (nextFile : Nat) (p : Process)
    (stepped : Stepped) : Prop where
  touches : Touches files nextFile p stepped.files stepped.nextFile
  moved : ∀ p', stepped.process = some p' →
    Moved settings nextFile p stepped.files stepped.nextFile p'
  contents : ∀ p', stepped.process = some p' → ∀ offset < settings.size,
    p'.contents settings stepped.files offset = p.contents settings files offset
  pending : ∀ p', stepped.process = some p' → p'.pending = true → p.pending = true

/-- A step that aborts. -/
theorem Advanced.abort : Advanced settings files nextFile p ⟨files, nextFile, none⟩ := by
  refine ⟨Touches.refl, ?_, ?_, ?_⟩ <;> intro p' absurd_ <;> cases absurd_

/-- A step that changes no file and after which the process depends on the same
files or fewer. -/
theorem Advanced.goto (sound : p'.Sound settings files)
    (held : ∀ f ∈ p'.held, f ∈ p.held) (closed : p.isPrivate = true → p'.isPrivate = true)
    (contents : p'.contents settings files = p.contents settings files)
    (pending : p'.pending = true → p.pending = true) :
    Advanced settings files nextFile p ⟨files, nextFile, some p'⟩ := by
  refine ⟨Touches.refl, ?_, ?_, ?_⟩ <;> intro q same <;> injection same with same <;> subst same
  · exact ⟨sound, fun f member => Or.inl (held f member), closed⟩
  · intro offset _
    rw [contents]
  · exact pending

variable {outcome : Outcome} {stepped : Stepped}

theorem advanced_prefork (stage : p.stage = .prefork) (option : settings.forkopt ≠ 0)
    (sound : p.Sound settings files)
    (result : advance settings files nextFile p outcome = some stepped) :
    Advanced settings files nextFile p stepped := by
  have staged := sound.staged
  simp only [Process.Staged, stage] at staged
  simp only [advance, stage] at result
  split at result
  next closed =>
      injection result with result
      subst result
      refine Advanced.goto ⟨sound.closed, sound.unspoilt, Or.inl ⟨closed, staged⟩⟩ ?_ id ?_ ?_ <;>
        simp [Process.held, Process.contents, Process.pending, stage, closed]
  next shared =>
      have shared : p.isPrivate = false := by simpa using shared
      have goto : ∀ next : Stage, next = .cloneTmpfile ∨ next = .remapAsPrivate →
          Advanced settings files nextFile p ⟨files, nextFile, some { p with stage := next }⟩ := by
        intro next which
        obtain rfl | rfl := which <;>
          refine Advanced.goto ⟨sound.closed, sound.unspoilt, shared, staged⟩ ?_ id ?_ ?_ <;>
          simp [Process.held, Process.contents, Process.pending, stage]
      split at result <;> injection result with result <;> subst result
      · exact goto _ (Or.inl rfl)
      · exact goto _ (Or.inl rfl)
      · exact goto _ (Or.inr rfl)
      · contradiction
      · exact Advanced.abort

theorem advanced_cloneTmpfile (stage : p.stage = .cloneTmpfile) (sound : p.Sound settings files)
    (below : ∀ f ∈ p.held, f < nextFile)
    (result : advance settings files nextFile p outcome = some stepped) :
    Advanced settings files nextFile p stepped := by
  have staged := sound.staged
  simp only [Process.Staged, stage] at staged
  obtain ⟨shared, descriptors⟩ := staged
  simp only [advance, stage] at result
  split at result
  next =>
      injection result with result
      subst result
      refine Advanced.goto ⟨sound.closed, sound.unspoilt, shared, descriptors⟩ ?_ id ?_ ?_ <;>
        simp [Process.held, Process.contents, Process.pending, stage]
  next descriptor =>
      split at result
      case isFalse => cases result
      case isTrue unused =>
      obtain ⟨_, unused⟩ := unused
      injection result with result
      subst result
      have mapped : p.mapping.file < nextFile := below _ (by simp [Process.held, stage])
      have opened : p.fd ≠ descriptor := by
        intro same
        have file := (descriptors p.fd p.mapping.file).mpr List.mem_cons_self
        rw [same, unused] at file
        cases file
      refine ⟨⟨by simp, ?_, ?_⟩, ?_, ?_, ?_⟩
      · intro g older _
        exact Function.update_of_ne (by omega) _ _
      · intro closed
        rw [shared] at closed
        cases closed
      · intro q same
        injection same with same
        subst same
        have clone : Process.WithClone { p with
            fdClone := descriptor
            descriptors := Function.update p.descriptors descriptor (some (.pool nextFile))
            stage := .cloneAllocate } nextFile :=
          ⟨opened, by simp only; omega, descriptors.opened unused nextFile _ rfl⟩
        refine ⟨⟨sound.closed, sound.unspoilt, shared, nextFile, clone⟩, ?_, id⟩
        intro f member
        simp only [Process.held, clone.cloneFile, List.mem_cons, List.not_mem_nil, or_false]
          at member
        obtain rfl | rfl := member
        · exact Or.inl (by simp [Process.held, stage])
        · exact Or.inr ⟨rfl, Nat.lt_succ_self _⟩
      · intro q same offset _
        injection same with same
        subst same
        have older : Function.update files nextFile (fun _ => 0) p.mapping.file =
            files p.mapping.file := Function.update_of_ne (by omega) _ _
        simp [Process.contents, Process.pending, stage, Mapping.read_congr older]
      · intro q same
        injection same with same
        subst same
        simp [Process.pending]

/-- A step of `libvmmalloc_clone` that changes no file while the copy is open. -/
theorem advanced_cloning {next : Stage} (sound : p.Sound settings files)
    (before : p.held = p.mapping.file :: p.cloneFile) (settled : p.pending = false)
    (staged : Process.Staged { p with stage := next } settings files)
    (after : ∀ f ∈ Process.held { p with stage := next }, f ∈ p.mapping.file :: p.cloneFile)
    (stays : Process.pending { p with stage := next } = false) :
    Advanced settings files nextFile p ⟨files, nextFile, some { p with stage := next }⟩ := by
  refine Advanced.goto ⟨sound.closed, sound.unspoilt, staged⟩ ?_ id ?_ ?_
  · rw [before]
    exact after
  · simp [Process.contents, settled, stays]
  · simp [stays]

theorem advanced_cloneAllocate (stage : p.stage = .cloneAllocate) (sound : p.Sound settings files)
    (result : advance settings files nextFile p outcome = some stepped) :
    Advanced settings files nextFile p stepped := by
  have staged := sound.staged
  simp only [Process.Staged, stage] at staged
  simp only [advance, stage] at result
  obtain ⟨shared, c, clone⟩ := staged
  split at result <;> injection result with result <;> subst result <;>
    exact advanced_cloning sound (by simp [Process.held, stage]) (by simp [Process.pending, stage])
      ⟨shared, c, clone.at_stage _⟩ (fun _ member => member) rfl

theorem advanced_cloneMap (stage : p.stage = .cloneMap) (sound : p.Sound settings files)
    (result : advance settings files nextFile p outcome = some stepped) :
    Advanced settings files nextFile p stepped := by
  have staged := sound.staged
  simp only [Process.Staged, stage] at staged
  simp only [advance, stage] at result
  obtain ⟨shared, c, clone⟩ := staged
  have goto : ∀ next : Stage, next = .cloneCopy c 0 ∨ next = .cloneError →
      Advanced settings files nextFile p ⟨files, nextFile, some { p with stage := next }⟩ := by
    intro next which
    have first : p.Copied settings files c 0 := fun _ absurd_ => absurd absurd_ (Nat.not_lt_zero _)
    obtain rfl | rfl := which
    · exact advanced_cloning sound (by simp [Process.held, stage])
        (by simp [Process.pending, stage]) ⟨shared, clone.at_stage _, Nat.zero_le _, first⟩
        (fun _ member => member) rfl
    · exact advanced_cloning sound (by simp [Process.held, stage])
        (by simp [Process.pending, stage]) ⟨shared, c, clone.at_stage _⟩
        (fun _ member => member) rfl
  rw [clone.poolFile] at result
  split at result
  next same =>
      injection same with same
      injection result with result
      subst result same
      exact goto _ (Or.inl rfl)
  next =>
      injection result with result
      subst result
      exact goto _ (Or.inr rfl)

/-- One byte of `memcpy`. -/
theorem advanced_cloneCopy {c next : Nat} (stage : p.stage = .cloneCopy c next)
    (sound : p.Sound settings files)
    (result : advance settings files nextFile p outcome = some stepped) :
    Advanced settings files nextFile p stepped := by
  have staged := sound.staged
  simp only [Process.Staged, stage] at staged
  simp only [advance, stage] at result
  obtain ⟨shared, clone, within, copied⟩ := staged
  have held : p.held = p.mapping.file :: p.cloneFile := by simp [Process.held, stage]
  split at result
  next more =>
      injection result with result
      subst result
      generalize written : Function.update files c (Function.update (files c) next
        (p.mapping.read settings.pagesize files next)) = files'
      have mapped : files' p.mapping.file = files p.mapping.file := by
        rw [← written]
        exact Function.update_of_ne clone.apart.symm _ _
      refine ⟨⟨Nat.le_refl _, ?_, ?_⟩, ?_, ?_, ?_⟩
      · intro g _ foreign
        rw [held, clone.cloneFile] at foreign
        rw [← written]
        exact Function.update_of_ne (fun same => foreign (by simp [same])) _ _
      · intro closed
        rw [shared] at closed
        cases closed
      · intro q same
        injection same with same
        subst same
        refine ⟨⟨sound.closed, sound.unspoilt, shared, clone.at_stage _, more, ?_⟩, ?_, id⟩
        · intro offset before
          show files' c offset = p.mapping.read settings.pagesize files' offset
          rw [Mapping.read_congr mapped, ← written, Function.update_self]
          by_cases last : offset = next
          · rw [last, Function.update_self]
          · rw [Function.update_of_ne last]
            exact copied offset (by omega)
        · intro f member
          rw [held]
          exact Or.inl member
      · intro q same offset _
        injection same with same
        subst same
        simp [Process.contents, Process.pending, stage, Mapping.read_congr mapped]
      · intro q same
        injection same with same
        subst same
        simp [Process.pending]
  next full =>
      injection result with result
      subst result
      have whole : next = settings.size := by omega
      rw [whole] at copied
      exact advanced_cloning sound held (by simp [Process.pending, stage])
        ⟨shared, c, clone.at_stage _, copied⟩ (fun _ member => member) rfl

theorem advanced_cloneUnmap (stage : p.stage = .cloneUnmap) (sound : p.Sound settings files)
    (result : advance settings files nextFile p outcome = some stepped) :
    Advanced settings files nextFile p stepped := by
  have staged := sound.staged
  simp only [Process.Staged, stage] at staged
  simp only [advance, stage] at result
  obtain ⟨shared, c, clone, copied⟩ := staged
  split at result <;> injection result with result <;> subst result
  · exact advanced_cloning sound (by simp [Process.held, stage]) (by simp [Process.pending, stage])
      ⟨shared, c, clone.at_stage _⟩ (fun _ member => member) rfl
  · exact advanced_cloning sound (by simp [Process.held, stage]) (by simp [Process.pending, stage])
      (Or.inr ⟨shared, c, clone.at_stage _, copied⟩)
      (by simp [Process.held, shared, Process.cloneFile, Process.poolFile]) rfl

theorem advanced_cloneError (stage : p.stage = .cloneError) (sound : p.Sound settings files)
    (result : advance settings files nextFile p outcome = some stepped) :
    Advanced settings files nextFile p stepped := by
  have staged := sound.staged
  simp only [Process.Staged, stage] at staged
  simp only [advance, stage] at result
  obtain ⟨shared, c, clone⟩ := staged
  injection result with result
  subst result
  refine Advanced.goto ⟨sound.closed, ?_, shared, clone.close_clone _⟩ ?_ id ?_ ?_
  · exact (Process.misclosed_close clone.poolFile).trans sound.unspoilt
  · simp [Process.held, stage, Process.close]
  · simp [Process.contents, Process.pending, stage, Process.close]
  · simp [Process.pending]

theorem advanced_cloneFailed (stage : p.stage = .cloneFailed) (sound : p.Sound settings files)
    (result : advance settings files nextFile p outcome = some stepped) :
    Advanced settings files nextFile p stepped := by
  have staged := sound.staged
  simp only [Process.Staged, stage] at staged
  simp only [advance, stage] at result
  obtain ⟨shared, descriptors⟩ := staged
  split at result <;> injection result with result <;> subst result
  · exact Advanced.abort
  · refine Advanced.goto ⟨sound.closed, sound.unspoilt, shared, descriptors⟩ ?_ id ?_ ?_ <;>
      simp [Process.held, Process.contents, Process.pending, stage]

/-- The private mapping starts out with what the shared one showed. -/
theorem advanced_remapAsPrivate (stage : p.stage = .remapAsPrivate)
    (sound : p.Sound settings files)
    (result : advance settings files nextFile p outcome = some stepped) :
    Advanced settings files nextFile p stepped := by
  have staged := sound.staged
  simp only [Process.Staged, stage] at staged
  simp only [advance, stage] at result
  obtain ⟨shared, descriptors⟩ := staged
  rw [descriptors.poolFile List.mem_cons_self] at result
  split at result
  next same =>
      injection same with same
      injection result with result
      subst result same
      refine Advanced.goto ⟨rfl, sound.unspoilt, Or.inl ⟨rfl, descriptors⟩⟩ ?_ (fun _ => rfl) ?_ ?_
      · simp [Process.held, stage]
      · have open_ : p.mapping.isPrivate = false := sound.closed ▸ shared
        simp [Process.contents, Process.pending, stage, Mapping.read_of_not_private open_]
      · simp [Process.pending]
  next =>
      injection result with result
      subst result
      exact Advanced.abort

theorem advanced_postforkParent (stage : p.stage = .postforkParent) (option : settings.forkopt ≠ 0)
    (sound : p.Sound settings files)
    (result : advance settings files nextFile p outcome = some stepped) :
    Advanced settings files nextFile p stepped := by
  have staged := sound.staged
  simp only [Process.Staged, stage] at staged
  simp only [advance, stage, option, false_or] at result
  obtain ⟨closed, descriptors⟩ | ⟨shared, c, clone⟩ := staged
  · rw [if_pos closed] at result
    injection result with result
    subst result
    refine Advanced.goto ⟨sound.closed, sound.unspoilt, descriptors⟩ ?_ id ?_ ?_ <;>
      simp [Process.held, Process.contents, Process.pending, stage]
  · rw [if_neg (by simp [shared])] at result
    injection result with result
    subst result
    refine Advanced.goto ⟨sound.closed, ?_, clone.close_clone _⟩ ?_ id ?_ ?_
    · exact (Process.misclosed_close clone.poolFile).trans sound.unspoilt
    · simp [Process.held, stage, Process.close]
    · simp [Process.contents, Process.pending, stage, Process.close]
    · simp [Process.pending]

theorem advanced_postforkChild (stage : p.stage = .postforkChild) (option : settings.forkopt ≠ 0)
    (sound : p.Sound settings files)
    (result : advance settings files nextFile p outcome = some stepped) :
    Advanced settings files nextFile p stepped := by
  have staged := sound.staged
  simp only [Process.Staged, stage] at staged
  simp only [advance, stage, option, false_or] at result
  obtain ⟨closed, descriptors⟩ | ⟨shared, c, clone⟩ := staged
  · rw [if_pos closed] at result
    injection result with result
    subst result
    refine Advanced.goto ⟨sound.closed, sound.unspoilt, descriptors⟩ ?_ id ?_ ?_ <;>
      simp [Process.held, Process.contents, Process.pending, stage, closed]
  · rw [if_neg (by simp [shared])] at result
    injection result with result
    subst result
    generalize child : ({ p.close p.fd with fd := p.fdClone, stage := .childMap } : Process) = q
    have descriptors : q.Descriptors [(p.fdClone, c)] := by
      have rest : (p.close p.fd).Descriptors [(p.fdClone, c)] := by
        simpa [clone.distinct.symm] using clone.descriptors.close p.fd
      rw [← child]
      exact rest
    have file : q.poolFile p.fdClone = some c := descriptors.poolFile List.mem_cons_self
    have fields : q.stage = .childMap ∧ q.isPrivate = false ∧ q.fd = p.fdClone ∧
        q.fdClone = p.fdClone ∧ q.mapping = p.mapping ∧ q.misclosed = (p.close p.fd).misclosed := by
      rw [← child]
      exact ⟨rfl, shared, rfl, rfl, rfl, rfl⟩
    obtain ⟨stage', shared', fd', clone', mapping', misclosed'⟩ := fields
    refine Advanced.goto ⟨?_, ?_, ?_⟩ ?_ ?_ ?_ ?_
    · rw [shared', mapping', ← sound.closed, shared]
    · rw [misclosed', Process.misclosed_close (clone.descriptors.poolFile List.mem_cons_self)]
      exact sound.unspoilt
    · simp only [Process.Staged, stage', fd', clone']
      exact ⟨shared', trivial, c, descriptors⟩
    · simp [Process.held, stage, stage', shared, shared', Process.cloneFile, clone', file,
        clone.poolFile]
    · simp [shared]
    · simp [Process.contents, Process.pending, stage, stage', shared, shared', clone', file,
        clone.poolFile]
    · simp [Process.pending, stage]

theorem advanced_childMap (stage : p.stage = .childMap) (sound : p.Sound settings files)
    (result : advance settings files nextFile p outcome = some stepped) :
    Advanced settings files nextFile p stepped := by
  have staged := sound.staged
  simp only [Process.Staged, stage] at staged
  simp only [advance, stage] at result
  obtain ⟨shared, equal, c, descriptors⟩ := staged
  have file : p.poolFile p.fd = some c := descriptors.poolFile List.mem_cons_self
  rw [file] at result
  split at result
  next same =>
      injection same with same
      injection result with result
      subst result same
      refine Advanced.goto ⟨shared, sound.unspoilt, descriptors⟩ ?_ id ?_ ?_
      · simp [Process.held, stage, shared, Process.cloneFile, ← equal, file]
      · simp [Process.contents, Process.pending, stage, shared, ← equal, file]
      · simp [Process.pending, stage]
  next =>
      injection result with result
      subst result
      exact Advanced.abort

/-- What any step of a handler does. -/
theorem advanced_of_advance (option : settings.forkopt ≠ 0) (sound : p.Sound settings files)
    (below : ∀ f ∈ p.held, f < nextFile)
    (result : advance settings files nextFile p outcome = some stepped) :
    Advanced settings files nextFile p stepped := by
  cases stage : p.stage with
  | user | fork => simp [advance, stage] at result
  | prefork => exact advanced_prefork stage option sound result
  | cloneTmpfile => exact advanced_cloneTmpfile stage sound below result
  | cloneAllocate => exact advanced_cloneAllocate stage sound result
  | cloneMap => exact advanced_cloneMap stage sound result
  | cloneCopy c next => exact advanced_cloneCopy stage sound result
  | cloneUnmap => exact advanced_cloneUnmap stage sound result
  | cloneError => exact advanced_cloneError stage sound result
  | cloneFailed => exact advanced_cloneFailed stage sound result
  | remapAsPrivate => exact advanced_remapAsPrivate stage sound result
  | postforkParent => exact advanced_postforkParent stage option sound result
  | postforkChild => exact advanced_postforkChild stage option sound result
  | childMap => exact advanced_childMap stage sound result

end

end Vmmalloc
end Vmem
