import Vmem.Library.Mapping

/-!
# The fork handlers of libvmmalloc

`libvmmalloc_init` registers `libvmmalloc_prefork`, `libvmmalloc_postfork_parent`
and `libvmmalloc_postfork_child` with `os_thread_atfork`.  A process carries the
globals the handlers share (`Fd`, `Fd_clone`, `Private` and the mapping at `Vmp`)
and its descriptor table; files are shared by all processes.

Every system call of a handler is one step, and `memcpy` copies one byte a step,
so that the steps of other processes may fall anywhere in between.  The outcome of
a system call is chosen by the environment.
-/

namespace Vmem
namespace Vmmalloc

/-- What an open descriptor refers to. -/
inductive Target
  /-- A file that holds a pool or a copy of one. -/
  | pool (file : Nat)
  /-- A file of the application. -/
  | other
  deriving DecidableEq

/-- Where a process stands: in front of which call of which handler. -/
inductive Stage
  /-- Outside `fork`. -/
  | user
  /-- At the start of `libvmmalloc_prefork`. -/
  | prefork
  /-- `libvmmalloc_clone` before `util_tmpfile`. -/
  | cloneTmpfile
  /-- `libvmmalloc_clone` before `os_posix_fallocate`. -/
  | cloneAllocate
  /-- `libvmmalloc_clone` before `mmap`. -/
  | cloneMap
  /-- `libvmmalloc_clone` inside `memcpy` into the mapped copy. -/
  | cloneCopy (file next : Nat)
  /-- `libvmmalloc_clone` before `munmap`. -/
  | cloneUnmap
  /-- `libvmmalloc_clone` at `err_close`. -/
  | cloneError
  /-- `libvmmalloc_clone` has returned -1. -/
  | cloneFailed
  /-- `remap_as_private`. -/
  | remapAsPrivate
  /-- `libvmmalloc_prefork` has returned. -/
  | fork
  /-- At the start of `libvmmalloc_postfork_parent`. -/
  | postforkParent
  /-- At the start of `libvmmalloc_postfork_child`. -/
  | postforkChild
  /-- `libvmmalloc_postfork_child` before `mmap`. -/
  | childMap
  deriving DecidableEq

/-- A process that uses libvmmalloc. -/
structure Process where
  stage : Stage
  /-- `Fd`. -/
  fd : Int
  /-- `Fd_clone`. -/
  fdClone : Int
  /-- `Private`. -/
  isPrivate : Bool
  /-- The mapping at `Vmp`. -/
  mapping : Mapping UInt8
  descriptors : Int → Option Target
  /-- A handler has closed a descriptor that was not an open pool descriptor. -/
  misclosed : Bool

/-- All processes that descend from one `libvmmalloc_init`, and the files. -/
structure System where
  processes : Nat → Option Process
  nextProcess : Nat
  files : Nat → Nat → UInt8
  nextFile : Nat

/-- What is the same in all processes. -/
structure Settings where
  pagesize : Nat
  /-- `Vmp->size`. -/
  size : Nat
  /-- `Forkopt`. -/
  forkopt : Nat

/-- How a system call of a handler ends. -/
inductive Outcome
  /-- It succeeds; `util_tmpfile` returns the descriptor. -/
  | done (descriptor : Int)
  | failed

/-! ## Handlers -/

namespace Process

/-- The pool file a descriptor refers to. -/
def poolFile (p : Process) (descriptor : Int) : Option Nat :=
  match p.descriptors descriptor with
  | some (.pool f) => some f
  | _ => none

/-- `os_close`. -/
def close (p : Process) (descriptor : Int) : Process :=
  { p with
    descriptors := Function.update p.descriptors descriptor none
    misclosed := p.misclosed || (p.poolFile descriptor).isNone }

end Process

/-- What a step leaves behind; the process is gone if it has aborted. -/
structure Stepped where
  files : Nat → Nat → UInt8
  nextFile : Nat
  process : Option Process

/-- The next step of a handler. -/
def advance (settings : Settings) (files : Nat → Nat → UInt8) (nextFile : Nat) (p : Process)
    (outcome : Outcome) : Option Stepped :=
  let goto (q : Process) : Option Stepped := some ⟨files, nextFile, some q⟩
  let abort : Option Stepped := some ⟨files, nextFile, none⟩
  match p.stage with
  | .user => none
  | .prefork =>
      if p.isPrivate then goto { p with stage := .fork }
      else
        match settings.forkopt with
        | 3 => goto { p with stage := .cloneTmpfile }
        | 2 => goto { p with stage := .cloneTmpfile }
        | 1 => goto { p with stage := .remapAsPrivate }
        | 0 => goto { p with stage := .fork }
        | _ => abort
  | .cloneTmpfile =>
      match outcome with
      | .failed => goto { p with fdClone := -1, stage := .cloneFailed }
      | .done descriptor =>
          -- a system call returns a descriptor that is not in use
          if 0 ≤ descriptor ∧ p.descriptors descriptor = none then
            some ⟨Function.update files nextFile (fun _ => 0), nextFile + 1,
              some { p with
                fdClone := descriptor
                descriptors := Function.update p.descriptors descriptor (some (.pool nextFile))
                stage := .cloneAllocate }⟩
          else none
  | .cloneAllocate =>
      match outcome with
      | .failed => goto { p with stage := .cloneError }
      | .done _ => goto { p with stage := .cloneMap }
  | .cloneMap =>
      match outcome, p.poolFile p.fdClone with
      | .done _, some c => goto { p with stage := .cloneCopy c 0 }
      | _, _ => goto { p with stage := .cloneError }
  | .cloneCopy c next =>
      if next < settings.size then
        some ⟨Function.update files c (Function.update (files c) next
            (p.mapping.read settings.pagesize files next)), nextFile,
          some { p with stage := .cloneCopy c (next + 1) }⟩
      else goto { p with stage := .cloneUnmap }
  | .cloneUnmap =>
      match outcome with
      | .failed => goto { p with stage := .cloneError }
      | .done _ => goto { p with stage := .fork }
  | .cloneError => goto { p.close p.fdClone with stage := .cloneFailed }
  | .cloneFailed =>
      if settings.forkopt = 2 then abort else goto { p with stage := .remapAsPrivate }
  | .remapAsPrivate =>
      match outcome, p.poolFile p.fd with
      | .done _, some f =>
          goto { p with mapping := Mapping.fresh f 0, isPrivate := true, stage := .fork }
      | _, _ => abort
  | .fork => none
  | .postforkParent =>
      if settings.forkopt = 0 ∨ p.isPrivate then goto { p with stage := .user }
      else goto { p.close p.fdClone with stage := .user }
  | .postforkChild =>
      if settings.forkopt = 0 ∨ p.isPrivate then goto { p with stage := .user }
      else goto { p.close p.fd with fd := p.fdClone, stage := .childMap }
  | .childMap =>
      match outcome, p.poolFile p.fd with
      | .done _, some f => goto { p with mapping := .shared f, stage := .user }
      | _, _ => abort

/-! ## Steps of the whole system -/

/-- What can happen next, and in which process. -/
inductive Action
  /-- Write one byte of the pool. -/
  | write (process offset : Nat) (value : UInt8)
  /-- Call `fork`. -/
  | enter (process : Nat)
  /-- The next step of a handler. -/
  | advance (process : Nat) (outcome : Outcome)
  /-- The system call between the handlers. -/
  | fork (process : Nat)
  /-- The system call between the handlers fails. -/
  | forkFails (process : Nat)
  /-- The application opens a file of its own. -/
  | openOther (process : Nat) (descriptor : Int)
  /-- The application closes a file of its own. -/
  | closeOther (process : Nat) (descriptor : Int)
  /-- The process ends, or is killed. -/
  | exit (process : Nat)

namespace Action

/-- The process that acts. -/
def process : Action → Nat
  | write p _ _ | enter p | advance p _ | fork p | forkFails p | openOther p _
  | closeOther p _ | exit p => p

end Action

namespace System

/-- Replace a process. -/
def set (s : System) (i : Nat) (p : Option Process) : System :=
  { s with processes := Function.update s.processes i p }

/-- What a process sees in its pool. -/
def view (s : System) (settings : Settings) (p : Process) : Nat → UInt8 :=
  p.mapping.read settings.pagesize s.files

end System

/-- One step of a process.  `fork` gives the child a copy of everything the parent
has. -/
def act (settings : Settings) (s : System) (p : Process) : Action → Option System
  | .write i offset value =>
      if p.stage = .user ∧ offset < settings.size then
        let written := p.mapping.write settings.pagesize s.files offset value
        some { s.set i (some { p with mapping := written.2 }) with files := written.1 }
      else none
  | .enter i =>
      if p.stage = .user then some (s.set i (some { p with stage := .prefork })) else none
  | .advance i outcome =>
      match advance settings s.files s.nextFile p outcome with
      | some stepped =>
          some { s.set i stepped.process with
            files := stepped.files, nextFile := stepped.nextFile }
      | none => none
  | .fork i =>
      if p.stage = .fork then
        some { (s.set i (some { p with stage := .postforkParent })).set s.nextProcess
            (some { p with stage := .postforkChild }) with
          nextProcess := s.nextProcess + 1 }
      else none
  | .forkFails i =>
      if p.stage = .fork then some (s.set i (some { p with stage := .postforkParent })) else none
  | .openOther i descriptor =>
      if p.stage = .user ∧ p.descriptors descriptor = none then
        some (s.set i (some { p with
          descriptors := Function.update p.descriptors descriptor (some .other) }))
      else none
  | .closeOther i descriptor =>
      if p.stage = .user ∧ p.descriptors descriptor = some .other then
        some (s.set i (some { p with
          descriptors := Function.update p.descriptors descriptor none }))
      else none
  | .exit i => some (s.set i none)

/-- One step of the system. -/
def step (settings : Settings) (s : System) (action : Action) : Option System :=
  match s.processes action.process with
  | none => none
  | some p => act settings s p action

/-- The process that has returned from `libvmmalloc_init`: `Fd` is the only pool
descriptor, and the pool is a shared mapping of the file behind it. -/
def started (fd : Int) (contents : Nat → UInt8) (others : Int → Bool) : System where
  processes := fun i =>
    if i = 0 then
      some {
        stage := .user
        fd := fd
        fdClone := 0
        isPrivate := false
        mapping := .shared 0
        descriptors := fun d =>
          if d = fd then some (.pool 0) else if others d then some .other else none
        misclosed := false }
    else none
  nextProcess := 1
  files := fun _ => contents
  nextFile := 1

end Vmmalloc
end Vmem
