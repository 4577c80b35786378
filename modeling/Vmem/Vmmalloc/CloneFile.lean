import Vmem.Vmmalloc.Create
import Vmem.Vmmalloc.Fork

/-!
# What `VMMALLOC_POOL_DIR` names

`libvmmalloc_create` opens the path itself and maps it, so it needs a file that is
not a directory.  `libvmmalloc_clone` creates a temporary file inside the path, so it
needs a directory.  Both are stated over a file system that tells what a path names
and which directories support `O_TMPFILE`.
-/

namespace Vmem
namespace Vmmalloc

/-- What a path can name, with symbolic links followed. -/
inductive FileKind
  | directory
  | regular
  | device
  /-- A pipe or a socket. -/
  | other
  deriving DecidableEq

/-- The part of a file system that `open` and `mkstemp` look at. -/
structure FileSystem where
  kind : String → Option FileKind
  /-- Whether files without a name can be made in a directory. -/
  supportsTmpfile : String → Bool
  /-- The empty path names nothing. -/
  kind_empty : kind "" = none

/-- Why no temporary file was made. -/
inductive TmpfileError
  | noEntry
  | notDirectory
  | notSupported
  /-- Resources or permissions are missing. -/
  | refused
  deriving DecidableEq

/-- What resources and permissions allow: the descriptor, unless the call is refused. -/
structure Grants where
  openTmpfile : Option Int
  mkstemp : Option Int

/-- Create a file in a directory. -/
def createIn (fs : FileSystem) (dir : String) (granted : Option Int) : Except TmpfileError Int :=
  match fs.kind dir with
  | none => .error .noEntry
  | some .directory =>
      match granted with
      | some descriptor => .ok descriptor
      | none => .error .refused
  | some _ => .error .notDirectory

/-- `open(dir, O_TMPFILE | O_RDWR | flags, ...)`. -/
def openTmpfile (fs : FileSystem) (dir : String) (granted : Option Int) : Except TmpfileError Int :=
  if fs.kind dir = some .directory ∧ fs.supportsTmpfile dir = false then .error .notSupported
  else createIn fs dir granted

/-- `util_tmpfile_mkstemp`: the template starts with a separator, so the file is created in
`dir`, and in the root if `dir` is empty. -/
def utilTmpfileMkstemp (fs : FileSystem) (dir : String) (granted : Option Int) :
    Except TmpfileError Int :=
  createIn fs (if dir = "" then "/" else dir) granted

/-- `util_tmpfile`; the flag tells whether `O_TMPFILE` is defined. -/
def utilTmpfile (tmpfileDefined : Bool) (fs : FileSystem) (dir : String) (grants : Grants) :
    Except TmpfileError Int :=
  if tmpfileDefined then
    match openTmpfile fs dir grants.openTmpfile with
    | .ok descriptor => .ok descriptor
    | .error error =>
        if error ≠ .notSupported then .error error
        else utilTmpfileMkstemp fs dir grants.mkstemp
  else utilTmpfileMkstemp fs dir grants.mkstemp

/-- `util_tmpfile` fails only if resources or permissions are missing. -/
def CloneFileCreatable (tmpfileDefined : Bool) (fs : FileSystem) (dir : String) : Prop :=
  ∀ grants : Grants, grants.openTmpfile.isSome → grants.mkstemp.isSome →
    ∃ descriptor, utilTmpfile tmpfileDefined fs dir grants = .ok descriptor

/-- What is known of `open(dir, O_RDWR)` and of a shared mapping. -/
structure Calls.Posix (calls : Calls) (fs : FileSystem) (dir : String) : Prop where
  opened : calls.openResult.isSome → ∃ kind, fs.kind dir = some kind ∧ kind ≠ .directory
  mapped : calls.mmapResult.isSome → calls.openResult.isSome

/-! ## The kind of file decides -/

section

variable {fs : FileSystem} {dir : String} {tmpfileDefined : Bool}

/-- Files are created in directories only. -/
theorem createIn_eq_error (granted : Option Int) (notDirectory : fs.kind dir ≠ some .directory) :
    createIn fs dir granted = .error .noEntry ∨ createIn fs dir granted = .error .notDirectory := by
  unfold createIn
  cases named : fs.kind dir with
  | none => exact Or.inl rfl
  | some kind =>
      cases kind with
      | directory => exact absurd named notDirectory
      | regular => exact Or.inr rfl
      | device => exact Or.inr rfl
      | other => exact Or.inr rfl

theorem createIn_directory {granted : Option Int} (directory : fs.kind dir = some .directory)
    (isGranted : granted.isSome) : ∃ descriptor, createIn fs dir granted = .ok descriptor := by
  obtain ⟨descriptor, rfl⟩ := Option.isSome_iff_exists.mp isGranted
  refine ⟨descriptor, ?_⟩
  unfold createIn
  rw [directory]

/-- Without a directory there is no temporary file, whatever is granted. -/
theorem utilTmpfile_eq_error (tmpfileDefined : Bool) (grants : Grants) (nonempty : dir ≠ "")
    (notDirectory : fs.kind dir ≠ some .directory) :
    ∃ error, utilTmpfile tmpfileDefined fs dir grants = .error error := by
  have mkstemp : ∃ error, utilTmpfileMkstemp fs dir grants.mkstemp = .error error := by
    unfold utilTmpfileMkstemp
    rw [if_neg nonempty]
    obtain missing | wrong := createIn_eq_error grants.mkstemp notDirectory
    · exact ⟨_, missing⟩
    · exact ⟨_, wrong⟩
  unfold utilTmpfile
  cases tmpfileDefined with
  | false => exact mkstemp
  | true =>
      rw [if_pos rfl]
      split
      · next descriptor opened =>
          rw [openTmpfile, if_neg (fun both => notDirectory both.1)] at opened
          obtain missing | wrong := createIn_eq_error grants.openTmpfile notDirectory
          · rw [missing] at opened
            cases opened
          · rw [wrong] at opened
            cases opened
      · next error _ =>
          split
          · exact ⟨error, rfl⟩
          · exact mkstemp

/-- In a directory only resources and permissions count. -/
theorem utilTmpfile_directory {grants : Grants} (directory : fs.kind dir = some .directory)
    (tmpfile : grants.openTmpfile.isSome) (mkstemp : grants.mkstemp.isSome) :
    ∃ descriptor, utilTmpfile tmpfileDefined fs dir grants = .ok descriptor := by
  have nonempty : dir ≠ "" := by
    rintro rfl
    rw [fs.kind_empty] at directory
    cases directory
  have made : ∃ descriptor, utilTmpfileMkstemp fs dir grants.mkstemp = .ok descriptor := by
    unfold utilTmpfileMkstemp
    rw [if_neg nonempty]
    exact createIn_directory directory mkstemp
  unfold utilTmpfile
  cases tmpfileDefined with
  | false => exact made
  | true =>
      rw [if_pos rfl]
      unfold openTmpfile
      by_cases supported : fs.supportsTmpfile dir = false
      · rw [if_pos ⟨directory, supported⟩]
        exact made
      · rw [if_neg fun both => supported both.2]
        obtain ⟨descriptor, opened⟩ := createIn_directory directory tmpfile
        rw [opened]
        exact ⟨descriptor, rfl⟩

/-- A clone file can be made exactly in a directory. -/
theorem cloneFileCreatable_iff (nonempty : dir ≠ "") :
    CloneFileCreatable tmpfileDefined fs dir ↔ fs.kind dir = some .directory := by
  constructor
  · intro creatable
    by_contra notDirectory
    obtain ⟨descriptor, made⟩ := creatable ⟨some 0, some 0⟩ rfl rfl
    obtain ⟨error, failed⟩ := utilTmpfile_eq_error tmpfileDefined ⟨some 0, some 0⟩ nonempty
      notDirectory
    rw [failed] at made
    cases made
  · intro directory grants tmpfile mkstemp
    exact utilTmpfile_directory directory tmpfile mkstemp

end

/-! ## Initialisation and fork -/

section

variable {pagesize : Nat} {calls : Calls} {env : Environment} {sp after : Space} {vmp : Nat}
  {forkopt : Int}

/-- What is known when initialisation completes. -/
theorem libvmmallocInit_completes
    (completes : libvmmallocInit pagesize calls env sp = .ok (after, vmp, forkopt)) :
    ∃ dir size, env.Accepted dir size ∧
      libvmmallocCreate pagesize calls sp dir size = .ok (after, some vmp) := by
  unfold libvmmallocInit at completes
  split at completes
  · cases completes
  next atfork =>
  split at completes
  · cases completes
  next dir poolDir =>
  split at completes
  · cases completes
  next v poolSize =>
  split at completes
  · cases completes
  next positive =>
  dsimp only at completes
  split at completes
  · cases completes
  next large =>
  split at completes
  · cases completes
  next fork =>
  refine ⟨dir, v.toNat, ⟨by simpa using atfork, poolDir, ?_, by omega, by omega⟩, ?_⟩
  · rw [poolSize, Int.toNat_of_nonneg (by omega)]
  · split at completes
    · cases completes
    · cases completes
    next created =>
    rw [created]
    injection completes with same
    injection same with first second
    injection second with third
    rw [first, third]

/-- The file the pool was created in is not a directory. -/
theorem kind_of_completes {fs : FileSystem} {dir : String} (valid : sp.Valid)
    (named : env.poolDir = some dir) (posix : calls.Posix fs dir)
    (completes : libvmmallocInit pagesize calls env sp = .ok (after, vmp, forkopt)) :
    ∃ kind, fs.kind dir = some kind ∧ kind ≠ .directory := by
  obtain ⟨other, size, accepted, created⟩ := libvmmallocInit_completes completes
  have same : other = dir := Option.some_inj.mp (accepted.poolDir.symm.trans named)
  subst same
  apply posix.opened
  apply posix.mapped
  cases mapped : calls.mmapResult with
  | none =>
      rw [libvmmallocCreate_mmap_failed valid accepted.large mapped] at created
      cases created
  | some addr => rfl

/-- After initialisation in one state of the file system and at a fork in another, a clone
file can be made exactly if the path has come to name a directory; it never did when the pool
was created. -/
theorem cloneFile_after_init (tmpfileDefined : Bool) (before later : FileSystem) (dir : String)
    (valid : sp.Valid) (named : env.poolDir = some dir) (posix : calls.Posix before dir)
    (completes : libvmmallocInit pagesize calls env sp = .ok (after, vmp, forkopt)) :
    (CloneFileCreatable tmpfileDefined later dir ↔ later.kind dir = some .directory) ∧
      ¬CloneFileCreatable tmpfileDefined before dir := by
  obtain ⟨kind, isKind, notDirectory⟩ := kind_of_completes valid named posix completes
  have nonempty : dir ≠ "" := by
    rintro rfl
    rw [before.kind_empty] at isKind
    cases isKind
  refine ⟨cloneFileCreatable_iff nonempty, ?_⟩
  rw [cloneFileCreatable_iff nonempty, isKind]
  intro directory
  exact notDirectory (Option.some_inj.mp directory)

end

/-- A file system with one regular file. -/
def poolFileSystem : FileSystem where
  kind := fun path => if path = "/mnt/pmem/pool" then some .regular else none
  supportsTmpfile := fun _ => true
  kind_empty := rfl

/-- Initialisation with a regular file completes. -/
theorem libvmmallocInit_poolFile :
    ∃ result, libvmmallocInit 4096 ⟨some 3, some 0x7f0000000000, true⟩
      ⟨true, some "/mnt/pmem/pool", some vmmallocMinPool, some 2⟩
      ⟨[], [], 0, fun _ => ⟨[], 0, 0, 0⟩⟩ = .ok result := by
  have completes : (libvmmallocInit 4096 ⟨some 3, some 0x7f0000000000, true⟩
      ⟨true, some "/mnt/pmem/pool", some vmmallocMinPool, some 2⟩
      ⟨[], [], 0, fun _ => ⟨[], 0, 0, 0⟩⟩).toOption.isSome := by
    decide +kernel
  generalize libvmmallocInit 4096 _ _ _ = result at completes
  cases result with
  | error stop => cases completes
  | ok result => exact ⟨result, rfl⟩

theorem poolFile_posix :
    Calls.Posix ⟨some 3, some 0x7f0000000000, true⟩ poolFileSystem "/mnt/pmem/pool" where
  opened := fun _ => ⟨.regular, by decide, by decide⟩
  mapped := fun _ => rfl

theorem cloneFile_after_init_directory :
    ∃ later : FileSystem, later.kind "/mnt/pmem/pool" = some .directory ∧
      CloneFileCreatable true later "/mnt/pmem/pool" := by
  obtain ⟨⟨after, vmp, forkopt⟩, completes⟩ := libvmmallocInit_poolFile
  let later : FileSystem := ⟨fun path => if path = "" then none else some .directory,
    fun _ => true, rfl⟩
  have directory : later.kind "/mnt/pmem/pool" = some .directory := by decide
  exact ⟨later, directory, (cloneFile_after_init true poolFileSystem later "/mnt/pmem/pool"
    (by rintro r ⟨⟩) rfl poolFile_posix completes).1.mpr directory⟩

/-- The library starts with a regular file, and the fork cannot make its clone file. -/
theorem cloneFile_not_creatable :
    (∃ result, libvmmallocInit 4096 ⟨some 3, some 0x7f0000000000, true⟩
      ⟨true, some "/mnt/pmem/pool", some vmmallocMinPool, some 2⟩
      ⟨[], [], 0, fun _ => ⟨[], 0, 0, 0⟩⟩ = .ok result) ∧
      ¬CloneFileCreatable true poolFileSystem "/mnt/pmem/pool" := by
  refine ⟨libvmmallocInit_poolFile, ?_⟩
  rw [cloneFileCreatable_iff (by decide)]
  decide

/-- How `libvmmalloc_clone` sees the result of `util_tmpfile`. -/
def tmpfileOutcome : Except TmpfileError Int → Outcome
  | .ok descriptor => .done descriptor
  | .error _ => .failed

/-- Where the path does not name a directory, `libvmmalloc_prefork` ends the process under
option 2 and remaps the pool under option 3. -/
theorem prefork_without_directory {settings : Settings} {files : Nat → Nat → UInt8} {nextFile : Nat}
    {p : Process} {fs : FileSystem} {dir : String} (tmpfileDefined : Bool) (grants : Grants)
    (nonempty : dir ≠ "") (notDirectory : fs.kind dir ≠ some .directory)
    (stage : p.stage = .cloneTmpfile) :
    ∃ failed, advance settings files nextFile p
        (tmpfileOutcome (utilTmpfile tmpfileDefined fs dir grants)) =
        some ⟨files, nextFile, some failed⟩ ∧
      ∀ outcome, advance settings files nextFile failed outcome =
        some ⟨files, nextFile,
          if settings.forkopt = 2 then none
            else some { failed with stage := .remapAsPrivate }⟩ := by
  obtain ⟨error, failed⟩ := utilTmpfile_eq_error tmpfileDefined grants nonempty notDirectory
  refine ⟨{ p with fdClone := -1, stage := .cloneFailed }, ?_, ?_⟩
  · unfold advance
    rw [stage, failed]
    rfl
  · intro outcome
    unfold advance
    dsimp only
    split
    · rfl
    · rfl

end Vmmalloc
end Vmem
