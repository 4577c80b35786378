import Vmem.Library.Run
import Vmem.Vmmalloc.ForkHandlers

/-!
# Forked processes do not see each other's writes

Two processes depend on a common file only if both have it mapped privately, and
then nobody writes it.  Every step keeps this, whatever the outcomes of the clone
attempts, so that after any tree of forks each process has its pool to itself.
-/

namespace Vmem
namespace Vmmalloc

/-- No process depends on a file that another one may write. -/
structure System.Isolated (settings : Settings) (s : System) : Prop where
  sound : ∀ i p, s.processes i = some p → p.Sound settings s.files
  below : ∀ i p, s.processes i = some p → ∀ f ∈ p.held, f < s.nextFile
  apart : ∀ i j p q f, i ≠ j → s.processes i = some p → s.processes j = some q →
    f ∈ p.held → f ∈ q.held → p.isPrivate = true ∧ q.isPrivate = true
  numbered : ∀ i p, s.processes i = some p → i < s.nextProcess

/-- What a step by one process keeps. -/
structure Kept (settings : Settings) (s : System) (i : Nat) (s' : System) : Prop where
  isolated : s'.Isolated settings
  grows : s.nextProcess ≤ s'.nextProcess
  others : ∀ j q, j ≠ i → s.processes j = some q →
    s'.processes j = some q ∧ ∀ g ∈ q.held, s'.files g = s.files g
  gone : ∀ j, j ≠ i → j < s.nextProcess → s.processes j = none → s'.processes j = none
  pending : ∀ p', s'.processes i = some p' → p'.pending = true →
    ∃ p, s.processes i = some p ∧ p.pending = true ∧
      ∀ offset < settings.size, p'.contents settings s'.files offset =
        p.contents settings s.files offset

namespace System

variable {settings : Settings} {s s' : System} {i : Nat} {p : Process}

/-- The files another process depends on are not touched. -/
theorem Isolated.frame (isolated : s.Isolated settings) (present : s.processes i = some p)
    {files' : Nat → Nat → UInt8} {nextFile' : Nat}
    (touches : Touches s.files s.nextFile p files' nextFile') {j : Nat} {q : Process}
    (other : j ≠ i) (there : s.processes j = some q) :
    ∀ g ∈ q.held, files' g = s.files g := by
  intro g member
  by_cases mine : g ∈ p.held
  · have closed := (isolated.apart i j p q g other.symm present there mine member).1
    rw [touches.quiet closed]
  · exact touches.others g (isolated.below j q there g member) mine

/-- A step that replaces one process. -/
theorem Isolated.replace (isolated : s.Isolated settings) (present : s.processes i = some p)
    {files' : Nat → Nat → UInt8} {nextFile' : Nat} {result : Option Process}
    (touches : Touches s.files s.nextFile p files' nextFile')
    (moved : ∀ p', result = some p' → Moved settings s.nextFile p files' nextFile' p')
    (pending : ∀ p', result = some p' → p'.pending = true → p.pending = true ∧
      ∀ offset < settings.size, p'.contents settings files' offset =
        p.contents settings s.files offset) :
    Kept settings s i { s.set i result with files := files', nextFile := nextFile' } := by
  have frame := fun {j : Nat} {q : Process} => isolated.frame present touches (j := j) (q := q)
  have here : (s.set i result).processes i = result := Function.update_self _ _ _
  have there : ∀ j, j ≠ i → (s.set i result).processes j = s.processes j :=
    fun j other => Function.update_of_ne other _ _
  -- what the process depends on now, it depended on before, or it is new
  have mine : ∀ p' f, result = some p' → f ∈ p'.held → f ∈ p.held ∨ f = s.nextFile := by
    intro p' f same member
    exact ((moved p' same).held f member).imp id And.left
  have alone : ∀ p' f j q, result = some p' → f ∈ p'.held → j ≠ i → s.processes j = some q →
      f ∈ q.held → p'.isPrivate = true ∧ q.isPrivate = true := by
    intro p' f j q same member other stands also
    obtain before | new := mine p' f same member
    · have both := isolated.apart i j p q f other.symm present stands before also
      exact ⟨(moved p' same).closed both.1, both.2⟩
    · have := isolated.below j q stands f also
      omega
  refine ⟨⟨?_, ?_, ?_, ?_⟩, Nat.le_refl _, ?_, ?_, ?_⟩
  · intro j q stands
    by_cases same : j = i
    · subst same
      exact (moved q (here.symm.trans stands)).sound
    · rw [there j same] at stands
      exact (isolated.sound j q stands).congr (frame same stands)
  · intro j q stands f member
    by_cases same : j = i
    · subst same
      obtain before | ⟨rfl, new⟩ := (moved q (here.symm.trans stands)).held f member
      · exact Nat.lt_of_lt_of_le (isolated.below j p present f before) touches.grows
      · exact new
    · rw [there j same] at stands
      exact Nat.lt_of_lt_of_le (isolated.below j q stands f member) touches.grows
  · intro j k q r f different standsJ standsK memberJ memberK
    by_cases first : j = i
    · subst first
      rw [there k different.symm] at standsK
      exact alone q f k r (here.symm.trans standsJ) memberJ different.symm standsK memberK
    · rw [there j first] at standsJ
      by_cases second : k = i
      · subst second
        exact (alone r f j q (here.symm.trans standsK) memberK different standsJ memberJ).symm
      · rw [there k second] at standsK
        exact isolated.apart j k q r f different standsJ standsK memberJ memberK
  · intro j q stands
    by_cases same : j = i
    · subst same
      exact isolated.numbered j p present
    · rw [there j same] at stands
      exact isolated.numbered j q stands
  · intro j q other stands
    exact ⟨(there j other).trans stands, frame other stands⟩
  · intro j other _ absent
    exact (there j other).trans absent
  · intro p' stands waits
    have same := here.symm.trans stands
    exact ⟨p, present, pending p' same waits⟩

/-- A step that changes no file and replaces a process by one that is no child in
its handler. -/
theorem Isolated.set (isolated : s.Isolated settings) (present : s.processes i = some p)
    {p' : Process} (sound : p'.Sound settings s.files) (held : ∀ f ∈ p'.held, f ∈ p.held)
    (closed : p.isPrivate = true → p'.isPrivate = true) (settled : p'.pending = false) :
    Kept settings s i (s.set i (some p')) := by
  have moved : ∀ q, some p' = some q → Moved settings s.nextFile p s.files s.nextFile q := by
    intro q same
    injection same with same
    exact same ▸ ⟨sound, fun f member => Or.inl (held f member), closed⟩
  refine isolated.replace present Touches.refl moved ?_
  intro q same waits
  injection same with same
  rw [← same, settled] at waits
  cases waits

/-- A write by one process. -/
theorem Isolated.write (isolated : s.Isolated settings) (present : s.processes i = some p)
    (stage : p.stage = .user) (offset : Nat) (value : UInt8) :
    Kept settings s i
      { s.set i (some { p with
          mapping := (p.mapping.write settings.pagesize s.files offset value).2 }) with
        files := (p.mapping.write settings.pagesize s.files offset value).1 } := by
  have sound := isolated.sound i p present
  have staged := sound.staged
  simp only [Process.Staged, stage] at staged
  have touches : Touches s.files s.nextFile p
      (p.mapping.write settings.pagesize s.files offset value).1 s.nextFile := by
    refine ⟨Nat.le_refl _, fun g _ foreign => ?_, fun closed => ?_⟩
    · exact Mapping.write_files_of_ne (fun same => foreign (by simp [Process.held, stage, same]))
    · exact Mapping.write_files_of_private (sound.closed ▸ closed)
  refine isolated.replace present touches (fun q same => ?_) (fun q same waits => ?_) <;>
    injection same with same <;> subst same
  · refine ⟨⟨sound.closed.trans Mapping.isPrivate_write.symm, sound.unspoilt, ?_⟩, ?_, id⟩
    · simp only [Process.Staged, stage, Mapping.file_write]
      exact staged
    · simp [Process.held, stage]
  · simp [Process.pending, stage] at waits

/-- A process that is about to fork is a parent afterwards. -/
theorem Isolated.parent (isolated : s.Isolated settings) (present : s.processes i = some p)
    (stage : p.stage = .fork) :
    Kept settings s i (s.set i (some { p with stage := .postforkParent })) := by
  have sound := isolated.sound i p present
  have staged := sound.staged
  simp only [Process.Staged, stage] at staged
  refine isolated.set present ⟨sound.closed, sound.unspoilt, ?_⟩ ?_ id rfl
  · obtain closed | ⟨shared, c, clone, _⟩ := staged
    · exact Or.inl closed
    · exact Or.inr ⟨shared, c, clone.at_stage _⟩
  · simp only [Process.held, stage]
    intro f member
    split
    · exact member
    · exact List.mem_cons.mpr (Or.inl (List.mem_singleton.mp member))

/-- A process that is about to fork depends on nothing its child shares with it,
unless both are private. -/
theorem child_held (sound : p.Sound settings s.files) (stage : p.stage = .fork) :
    (p.isPrivate = true ∧ Process.held { p with stage := .postforkChild } = p.held) ∨
      (p.isPrivate = false ∧ ∃ c, Process.held { p with stage := .postforkChild } = [c] ∧
        c ≠ p.mapping.file ∧ c ∈ p.held) := by
  have staged := sound.staged
  simp only [Process.Staged, stage] at staged
  obtain ⟨closed, _⟩ | ⟨shared, c, clone, _⟩ := staged
  · exact Or.inl ⟨closed, by simp [Process.held, stage, closed]⟩
  · refine Or.inr ⟨shared, c, ?_, clone.apart, ?_⟩
    · have file := (clone.at_stage .postforkChild).cloneFile
      simp only [Process.held, shared, Bool.false_eq_true, if_false]
      exact file
    · simp [Process.held, stage, shared, clone.cloneFile]

/-- The child starts with the pool of its parent. -/
theorem child_contents (sound : p.Sound settings s.files) (stage : p.stage = .fork) :
    ∀ offset < settings.size,
      Process.contents { p with stage := .postforkChild } settings s.files offset =
        s.view settings p offset := by
  have staged := sound.staged
  simp only [Process.Staged, stage] at staged
  intro offset inside
  obtain ⟨closed, _⟩ | ⟨shared, c, clone, copied⟩ := staged
  · simp [Process.contents, closed, view]
  · have copy : Process.contents { p with stage := .postforkChild } settings s.files = s.files c :=
      Process.contents_of_pending rfl shared (clone.at_stage .postforkChild).poolFile
    rw [copy]
    exact copied offset inside

/-- A new process beside the others. -/
theorem Isolated.add (isolated : s.Isolated settings) {child : Process}
    (sound : child.Sound settings s.files) (below : ∀ f ∈ child.held, f < s.nextFile)
    (apart : ∀ j q f, s.processes j = some q → f ∈ q.held → f ∈ child.held →
      q.isPrivate = true ∧ child.isPrivate = true) :
    ({ s.set s.nextProcess (some child) with nextProcess := s.nextProcess + 1 } :
      System).Isolated settings := by
  have here : (s.set s.nextProcess (some child)).processes s.nextProcess = some child :=
    Function.update_self _ _ _
  have there : ∀ j, j ≠ s.nextProcess →
      (s.set s.nextProcess (some child)).processes j = s.processes j :=
    fun j other => Function.update_of_ne other _ _
  -- every process is the child or stood there before
  have cases_ : ∀ j q, (s.set s.nextProcess (some child)).processes j = some q →
      (j = s.nextProcess ∧ q = child) ∨ (j ≠ s.nextProcess ∧ s.processes j = some q) := by
    intro j q stands
    by_cases same : j = s.nextProcess
    · subst same
      rw [here] at stands
      injection stands with stands
      exact Or.inl ⟨rfl, stands.symm⟩
    · exact Or.inr ⟨same, (there j same).symm.trans stands⟩
  refine ⟨?_, ?_, ?_, ?_⟩
  · intro j q stands
    obtain ⟨_, rfl⟩ | ⟨_, before⟩ := cases_ j q stands
    · exact sound
    · exact isolated.sound j q before
  · intro j q stands
    obtain ⟨_, rfl⟩ | ⟨_, before⟩ := cases_ j q stands
    · exact below
    · exact isolated.below j q before
  · intro j k q r f different standsJ standsK memberJ memberK
    obtain ⟨rfl, rfl⟩ | ⟨_, first⟩ := cases_ j q standsJ <;>
      obtain ⟨rfl, rfl⟩ | ⟨_, second⟩ := cases_ k r standsK
    · exact absurd rfl different
    · exact (apart k r f second memberK memberJ).symm
    · exact apart j q f first memberJ memberK
    · exact isolated.apart j k q r f different first second memberJ memberK
  · intro j q stands
    obtain ⟨rfl, _⟩ | ⟨_, before⟩ := cases_ j q stands
    · exact Nat.lt_succ_self _
    · exact Nat.lt_succ_of_lt (isolated.numbered j q before)

/-- A fork. -/
theorem Isolated.fork (isolated : s.Isolated settings) (present : s.processes i = some p)
    (stage : p.stage = .fork) :
    Kept settings s i
      { (s.set i (some { p with stage := .postforkParent })).set s.nextProcess
          (some { p with stage := .postforkChild }) with
        nextProcess := s.nextProcess + 1 } := by
  have sound := isolated.sound i p present
  have parent := isolated.parent present stage
  have older := isolated.numbered i p present
  have held := child_held sound stage
  have isolated' := parent.isolated
  generalize middle : s.set i (some { p with stage := .postforkParent }) = t at parent isolated'
  have next : t.nextProcess = s.nextProcess := by rw [← middle]; rfl
  have files : t.files = s.files := by rw [← middle]; rfl
  have limit : t.nextFile = s.nextFile := by rw [← middle]; rfl
  have here : t.processes i = some { p with stage := .postforkParent } := by
    rw [← middle]
    exact Function.update_self _ _ _
  have there : ∀ j, j ≠ i → t.processes j = s.processes j := by
    intro j other
    rw [← middle]
    exact Function.update_of_ne other _ _
  have childSound : Process.Sound { p with stage := .postforkChild } settings t.files := by
    have staged := (isolated'.sound i _ here).staged
    exact ⟨sound.closed, sound.unspoilt,
      staged.imp id fun ⟨shared, c, clone⟩ => ⟨shared, c, clone.at_stage .postforkChild⟩⟩
  have below : ∀ f ∈ Process.held { p with stage := .postforkChild }, f < t.nextFile := by
    intro f member
    rw [limit]
    obtain ⟨_, same⟩ | ⟨_, c, same, _, mine⟩ := held
    · exact isolated.below i p present f (same ▸ member)
    · rw [same, List.mem_singleton] at member
      exact member ▸ isolated.below i p present c mine
  have apart : ∀ j q f, t.processes j = some q → f ∈ q.held →
      f ∈ Process.held { p with stage := .postforkChild } →
      q.isPrivate = true ∧ p.isPrivate = true := by
    intro j q f stands theirs childs
    by_cases same : j = i
    · subst same
      rw [here] at stands
      injection stands with stands
      subst stands
      obtain ⟨closed, _⟩ | ⟨_, c, single, foreign, _⟩ := held
      · exact ⟨closed, closed⟩
      · rw [single, List.mem_singleton] at childs
        simp only [Process.held, List.mem_singleton] at theirs
        exact absurd (childs.symm.trans theirs) foreign
    · rw [there j same] at stands
      have mine : f ∈ p.held := by
        obtain ⟨_, whole⟩ | ⟨_, c, single, _, mine⟩ := held
        · exact whole ▸ childs
        · rw [single, List.mem_singleton] at childs
          exact childs ▸ mine
      exact isolated.apart j i q p f same stands present theirs mine
  have added := isolated'.add childSound below apart
  rw [← next]
  refine ⟨added, ?_, ?_, ?_, ?_⟩
  · rw [← next]
    exact Nat.le_succ _
  · intro j q other stands
    have before := isolated.numbered j q stands
    refine ⟨(Function.update_of_ne (by omega) _ _).trans ((there j other).trans stands), ?_⟩
    intro g _
    exact congrFun files g
  · intro j other before absent
    exact (Function.update_of_ne (by omega) _ _).trans ((there j other).trans absent)
  · intro q stands waits
    have old := (Function.update_of_ne (by omega) _ _ : _ = t.processes i).symm.trans stands
    rw [here] at old
    injection old with old
    subst old
    cases waits

/-- What one step keeps. -/
theorem Isolated.step (isolated : s.Isolated settings) (option : settings.forkopt ≠ 0)
    {action : Action} (result : step settings s action = some s') :
    Kept settings s action.process s' := by
  unfold Vmmalloc.step at result
  cases present : s.processes action.process with
  | none =>
      rw [present] at result
      cases result
  | some p =>
      rw [present] at result
      have sound := isolated.sound _ p present
      have staged := sound.staged
      cases action with
      | write i offset value =>
          simp only [act] at result
          split at result
          case isFalse => cases result
          case isTrue guard =>
          injection result with result
          exact result ▸ isolated.write present guard.1 offset value
      | enter i =>
          simp only [act] at result
          split at result
          case isFalse => cases result
          case isTrue stage =>
          injection result with result
          simp only [Process.Staged, stage] at staged
          exact result ▸ isolated.set present ⟨sound.closed, sound.unspoilt, staged⟩
            (by simp [Process.held, stage]) id rfl
      | advance i outcome =>
          simp only [act] at result
          split at result
          next stepped advanced =>
              injection result with result
              subst result
              have advanced := advanced_of_advance option sound
                (isolated.below _ p present) advanced
              exact isolated.replace present advanced.touches advanced.moved
                fun q same waits => ⟨advanced.pending q same waits, advanced.contents q same⟩
          next => cases result
      | fork i =>
          simp only [act] at result
          split at result
          case isFalse => cases result
          case isTrue stage =>
          injection result with result
          exact result ▸ isolated.fork present stage
      | forkFails i =>
          simp only [act] at result
          split at result
          case isFalse => cases result
          case isTrue stage =>
          injection result with result
          exact result ▸ isolated.parent present stage
      | openOther i descriptor =>
          simp only [act] at result
          split at result
          case isFalse => cases result
          case isTrue guard =>
          obtain ⟨stage, unused⟩ := guard
          injection result with result
          simp only [Process.Staged, stage] at staged
          refine result ▸ isolated.set present ⟨sound.closed, sound.unspoilt, ?_⟩
            (by simp [Process.held, stage]) id (by simp [Process.pending, stage])
          simp only [Process.Staged, stage]
          exact staged.keep descriptor (some .other) _ rfl (by simp [unused]) (by simp)
      | closeOther i descriptor =>
          simp only [act] at result
          split at result
          case isFalse => cases result
          case isTrue guard =>
          obtain ⟨stage, used⟩ := guard
          injection result with result
          simp only [Process.Staged, stage] at staged
          refine result ▸ isolated.set present ⟨sound.closed, sound.unspoilt, ?_⟩
            (by simp [Process.held, stage]) id (by simp [Process.pending, stage])
          simp only [Process.Staged, stage]
          exact staged.keep descriptor none _ rfl (by simp [used]) (by simp)
      | exit i =>
          simp only [act] at result
          injection result with result
          subst result
          refine isolated.replace present Touches.refl ?_ ?_ <;> intro q absurd_ <;> cases absurd_

end System

/-! ## Whole runs -/

/-- The states that any steps of any processes lead to. -/
abbrev Reaches (settings : Settings) (start s : System) : Prop :=
  Reached (fun _ _ => True) (step settings) start s

/-- What the fork handlers promise. -/
structure ForkSafe (settings : Settings) (s : System) : Prop where
  /-- When a child leaves `libvmmalloc_postfork_child`, however late, it has the pool
  its parent had at the fork. -/
  inherits : ∀ parent p forked later left outcome q q',
    s.processes parent = some p → step settings s (.fork parent) = some forked →
    Reaches settings forked later →
    later.processes s.nextProcess = some q → q.pending = true →
    step settings later (.advance s.nextProcess outcome) = some left →
    left.processes s.nextProcess = some q' → q'.pending = false →
    ∀ offset < settings.size, left.view settings q' offset = s.view settings p offset
  /-- A process sees what it writes. -/
  own : ∀ i p offset value s', s.processes i = some p →
    step settings s (.write i offset value) = some s' →
    ∃ p', s'.processes i = some p' ∧
      s'.view settings p' = Function.update (s.view settings p) offset value
  /-- What another process does, a write above all, is not seen. -/
  unseen : ∀ action s' j q, step settings s action = some s' → j ≠ action.process →
    s.processes j = some q → q.pending = false →
    s'.processes j = some q ∧ s'.view settings q = s.view settings q
  /-- `Private` is set only if the mapping is private. -/
  closed : ∀ i p, s.processes i = some p → p.isPrivate = true → p.mapping.isPrivate = true
  /-- Outside the handlers `Fd` is the one open pool descriptor, and it is that of
  the mapped file. -/
  descriptors : ∀ i p, s.processes i = some p → p.stage = .user →
    ∀ descriptor f, p.descriptors descriptor = some (.pool f) ↔
      descriptor = p.fd ∧ f = p.mapping.file
  /-- No handler has closed a descriptor that was not an open pool descriptor. -/
  unspoilt : ∀ i p, s.processes i = some p → p.misclosed = false

section

variable {settings : Settings} {s : System}

theorem started_isolated (fd : Int) (contents : Nat → UInt8) (others : Int → Bool) :
    (started fd contents others).Isolated settings := by
  have only : ∀ i p, (started fd contents others).processes i = some p →
      i = 0 ∧ p.stage = .user ∧ p.fd = fd ∧ p.isPrivate = false ∧ p.mapping = .shared 0 ∧
        p.misclosed = false ∧ p.Descriptors [(fd, 0)] := by
    intro i p stands
    simp only [started] at stands
    split at stands
    case isFalse => cases stands
    case isTrue first =>
    injection stands with stands
    subst stands
    refine ⟨first, rfl, rfl, rfl, rfl, rfl, ?_⟩
    intro descriptor f
    by_cases same : descriptor = fd
    · simp [same, eq_comm]
    · by_cases other : others descriptor <;> simp [same, other]
  refine ⟨?_, ?_, ?_, ?_⟩
  · intro i p stands
    obtain ⟨_, stage, fdIs, shared, mapping, unspoilt, descriptors⟩ := only i p stands
    refine ⟨by rw [shared, mapping]; rfl, unspoilt, ?_⟩
    simp only [Process.Staged, stage, fdIs, mapping]
    exact descriptors
  · intro i p stands f member
    obtain ⟨_, stage, _, _, mapping, _⟩ := only i p stands
    simp only [Process.held, stage, mapping, List.mem_singleton] at member
    subst member
    exact Nat.zero_lt_one
  · intro i j p q f different first second
    have := (only i p first).1
    have := (only j q second).1
    omega
  · intro i p stands
    rw [(only i p stands).1]
    exact Nat.zero_lt_one

theorem isolated_of_reaches (option : settings.forkopt ≠ 0) {start : System}
    (starts : start.Isolated settings) (reaches : Reaches settings start s) :
    s.Isolated settings :=
  reaches.invariant (System.Isolated settings) starts
    fun _ _ _ isolated _ result => (isolated.step option result).isolated

/-- A child keeps the pool it is going to map, for as long as it stays in its
handler. -/
theorem pending_contents (option : settings.forkopt ≠ 0) {start : System} {child : Nat}
    {pool : Nat → UInt8} (starts : start.Isolated settings) (older : child < start.nextProcess)
    (inherited : ∀ q, start.processes child = some q → q.pending = true →
      ∀ offset < settings.size, q.contents settings start.files offset = pool offset)
    (reaches : Reaches settings start s) :
    ∀ q, s.processes child = some q → q.pending = true →
      ∀ offset < settings.size, q.contents settings s.files offset = pool offset := by
  refine (reaches.invariant (fun s => s.Isolated settings ∧ child < s.nextProcess ∧
    ∀ q, s.processes child = some q → q.pending = true →
      ∀ offset < settings.size, q.contents settings s.files offset = pool offset)
    ⟨starts, older, inherited⟩ ?_).2.2
  intro before action after ⟨isolated, older, inherited⟩ _ result
  have kept := isolated.step option result
  refine ⟨kept.isolated, Nat.lt_of_lt_of_le older kept.grows, ?_⟩
  intro q stands waits offset inside
  by_cases mine : child = action.process
  · obtain ⟨p, present, waited, same⟩ := kept.pending q (mine ▸ stands) waits
    rw [same offset inside]
    exact inherited p (mine ▸ present) waited offset inside
  · cases there : before.processes child with
    | none =>
        rw [kept.gone child mine older there] at stands
        cases stands
    | some p =>
        obtain ⟨stays, same⟩ := kept.others child p mine there
        have equal : p = q := Option.some.inj (stays.symm.trans stands)
        subst equal
        rw [(isolated.sound child p there).contents_congr same]
        exact inherited p there waits offset inside

/-- The contents of a child that leaves its handler. -/
theorem inherits_of_isolated (option : settings.forkopt ≠ 0) (isolated : s.Isolated settings)
    {parent : Nat} {p : Process} {forked later left : System} {outcome : Outcome} {q q' : Process}
    (present : s.processes parent = some p) (forks : step settings s (.fork parent) = some forked)
    (reaches : Reaches settings forked later)
    (there : later.processes s.nextProcess = some q) (waits : q.pending = true)
    (leaves : step settings later (.advance s.nextProcess outcome) = some left)
    (stands : left.processes s.nextProcess = some q') (settled : q'.pending = false)
    (offset : Nat) (inside : offset < settings.size) :
    left.view settings q' offset = s.view settings p offset := by
  have kept := isolated.step option forks
  have isolatedLater := isolated_of_reaches option kept.isolated reaches
  have sound := isolated.sound parent p present
  -- the fork itself
  have stage : p.stage = .fork ∧ forked.processes s.nextProcess =
      some { p with stage := .postforkChild } ∧ forked.files = s.files ∧
      s.nextProcess < forked.nextProcess := by
    simp only [step, Action.process, present, act] at forks
    split at forks
    case isFalse => cases forks
    case isTrue stage =>
    injection forks with forks
    subst forks
    exact ⟨stage, Function.update_self _ _ _, rfl, Nat.lt_succ_self _⟩
  obtain ⟨stage, child, files, older⟩ := stage
  have inherited : ∀ q, forked.processes s.nextProcess = some q → q.pending = true →
      ∀ offset < settings.size, q.contents settings forked.files offset =
        s.view settings p offset := by
    intro q stands _ offset inside
    rw [child] at stands
    injection stands with stands
    rw [← stands, files]
    exact System.child_contents sound stage offset inside
  have waiting := pending_contents option kept.isolated older inherited reaches q there waits
  rw [← waiting offset inside]
  -- the last step of the handler
  simp only [step, Action.process, there, act] at leaves
  split at leaves
  case h_2 => cases leaves
  case h_1 stepped advanced =>
  injection leaves with leaves
  subst leaves
  have advanced := advanced_of_advance option (isolatedLater.sound _ q there)
    (isolatedLater.below _ q there) advanced
  have same : stepped.process = some q' := by
    rw [← stands]
    exact (Function.update_self s.nextProcess stepped.process later.processes).symm
  have contents := advanced.contents q' same offset inside
  rw [Process.contents_of_settled settled] at contents
  exact contents

/-- In every state that any tree of forks and any writes lead to, the handlers keep
the processes isolated. -/
theorem fork_isolation (settings : Settings)
    (option : settings.forkopt = 1 ∨ settings.forkopt = 2 ∨ settings.forkopt = 3)
    (fd : Int) (contents : Nat → UInt8) (others : Int → Bool) (s : System)
    (reaches : Reaches settings (started fd contents others) s) :
    ForkSafe settings s := by
  have option : settings.forkopt ≠ 0 := by omega
  have isolated := isolated_of_reaches option (started_isolated fd contents others) reaches
  refine ⟨?_, ?_, ?_, ?_, ?_, ?_⟩
  · intro parent p forked later left outcome q q' present forks reaches there waits leaves stands
      settled offset inside
    exact inherits_of_isolated option isolated present forks reaches there waits leaves stands
      settled offset inside
  · intro i p offset value s' present result
    simp only [step, Action.process, present, act] at result
    split at result
    case isFalse => cases result
    case isTrue =>
    injection result with result
    subst result
    exact ⟨_, Function.update_self _ _ _, Mapping.read_write⟩
  · intro action s' j q result other there settled
    obtain ⟨stays, same⟩ := (isolated.step option result).others j q other there
    refine ⟨stays, ?_⟩
    have contents := (isolated.sound j q there).contents_congr same
    rwa [Process.contents_of_settled settled, Process.contents_of_settled settled] at contents
  · intro i p present closed
    rw [← (isolated.sound i p present).closed]
    exact closed
  · intro i p present stage descriptor f
    have staged := (isolated.sound i p present).staged
    simp only [Process.Staged, stage] at staged
    simpa using staged descriptor f
  · intro i p present
    exact (isolated.sound i p present).unspoilt

/-- A fork that clones the pool, whose child forks in turn and fails to clone. -/
def nestedForks : List Action :=
  [.write 0 0 5, .enter 0, .advance 0 (.done 0), .advance 0 (.done 4), .advance 0 (.done 0),
    .advance 0 (.done 0), .advance 0 (.done 0), .advance 0 (.done 0), .advance 0 (.done 0),
    .advance 0 (.done 0), .fork 0, .advance 0 (.done 0), .write 0 0 9, .advance 1 (.done 0),
    .advance 1 (.done 0), .enter 1, .advance 1 (.done 0), .advance 1 .failed,
    .advance 1 (.done 0), .advance 1 (.done 0), .fork 1, .advance 2 (.done 0), .write 2 1 8]

theorem fork_isolation_nested :
    ∃ s, ForkSafe ⟨4096, 2, 3⟩ s ∧
      (s.processes 0).map (fun p => (s.view ⟨4096, 2, 3⟩ p 0, p.isPrivate)) = some (9, false) ∧
      (s.processes 1).map (fun p => (s.view ⟨4096, 2, 3⟩ p 1, p.isPrivate)) = some (7, true) ∧
      (s.processes 2).map (fun p => (s.view ⟨4096, 2, 3⟩ p 1, p.isPrivate)) = some (8, true) := by
  have evaluated : (runs (step ⟨4096, 2, 3⟩) (started 3 (fun _ => 7) (fun _ => false))
      nestedForks).map (fun s =>
        ((s.processes 0).map (fun p => (s.view ⟨4096, 2, 3⟩ p 0, p.isPrivate)),
          (s.processes 1).map (fun p => (s.view ⟨4096, 2, 3⟩ p 1, p.isPrivate)),
          (s.processes 2).map (fun p => (s.view ⟨4096, 2, 3⟩ p 1, p.isPrivate)))) =
      some (some (9, false), some (7, true), some (8, true)) := by
    decide +kernel
  obtain ⟨s, run, seen⟩ := Option.map_eq_some_iff.mp evaluated
  injection seen with first rest
  injection rest with second third
  exact ⟨s, fork_isolation ⟨4096, 2, 3⟩ (by decide) 3 (fun _ => 7) (fun _ => false) s
    (Reached.of_runs (fun _ _ _ => trivial) run), first, second, third⟩

end

end Vmmalloc
end Vmem
