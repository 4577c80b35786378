import Vmem.Jemalloc.ArenaFrame

/-!
# Aligned runs

`arena_palloc` allocates a run with pages to spare and returns those before the first aligned
page and those behind the pages it needs.  If the pages it returns are dirty, it purges the
arena in between, and other threads use the arena while it does so without the lock.
-/

namespace Vmem
namespace Jemalloc

variable {g : Geometry} {state state' : ArenaState} {chunks : Nat → ArenaChunk}
  {elm run : MapElm} {n alignment : Nat}

/-! ## The rest of `arena_palloc` once the run has been allocated -/

/-- The variables of a call that has allocated a run; sizes are in pages. -/
structure Palloc where
  elm : MapElm
  size : Nat
  alignment : Nat

namespace Palloc

variable (call : Palloc)

def allocSize : Nat := call.size + call.alignment - 1

def leadSize : Nat := Arena.leadPages call.elm call.alignment

def trailSize : Nat := call.allocSize - call.leadSize - call.size

/-- The run that is returned. -/
def ret : MapElm := ⟨call.elm.chunk, call.elm.pageind + call.leadSize⟩

end Palloc

/-- The pages that are returned. -/
inductive PallocPart
  | lead
  | trail
  deriving DecidableEq

/-- Where the thread is. -/
inductive PallocPlace
  | trim (part : PallocPart)
  /-- `arena_run_dalloc` has freed dirty pages and calls `arena_maybe_purge`. -/
  | freed (part : PallocPart)
  /-- The thread purges, and has released the lock. -/
  | purging (part : PallocPart)
  | initLarge
  | done
  deriving DecidableEq

def PallocPlace.isPurging : PallocPlace → Bool
  | .purging _ => true
  | _ => false

/-- How many more times the thread may go on. -/
def PallocPlace.left : PallocPlace → Nat
  | .trim .lead => 7
  | .freed .lead => 6
  | .purging .lead => 5
  | .trim .trail => 4
  | .freed .trail => 3
  | .purging .trail => 2
  | .initLarge => 1
  | .done => 0

/-- An arena while a thread of it is in `arena_palloc`. -/
structure PallocState where
  arena : ArenaState
  place : PallocPlace

/-- What happens meanwhile: the thread itself goes on, or there is a section of any thread,
also one in which the thread purges the runs that it has stashed. -/
inductive PallocAction
  | goesOn
  | meanwhile (action : ArenaAction)

namespace ArenaState

variable (g) (state : ArenaState) (call : Palloc)

/-- The pages before the first aligned one are returned, if there are any; whether they are
dirty. -/
def trimLead : Option (ArenaState × Bool) :=
  if call.leadSize ≠ 0 then do
    let newsize := call.allocSize - call.leadSize
    let (_, _, dirty) ← state.arena.runTrimHead g call.elm.chunk call.elm.pageind call.allocSize
      newsize
    let state ← state.step g (.trimHead call.elm newsize)
    some (state, dirty)
  else some (state, false)

/-- The pages behind those needed are returned, if there are any; whether they are dirty. -/
def trimTrail : Option (ArenaState × Bool) :=
  if call.trailSize ≠ 0 then do
    let (_, _, dirty) ← state.arena.runTrimTail g call.ret.chunk call.ret.pageind
      (call.size + call.trailSize) call.size false
    let state ← state.step g (.trimTail call.ret call.size)
    some (state, dirty)
  else some (state, false)

end ArenaState

namespace PallocPart

/-- Where the thread goes on. -/
def next : PallocPart → PallocPlace
  | .lead => .trim .trail
  | .trail => .initLarge

theorem freed_left (part : PallocPart) :
    (PallocPlace.freed part).left < (PallocPlace.trim part).left := by
  cases part <;> decide

theorem purging_left (part : PallocPart) :
    (PallocPlace.purging part).left < (PallocPlace.freed part).left := by
  cases part <;> decide

theorem next_left (part : PallocPart) : part.next.left < (PallocPlace.purging part).left := by
  cases part <;> decide

/-- `arena_run_dalloc` ends with `arena_maybe_purge` if the pages are dirty. -/
def trimmed (part : PallocPart) : ArenaState × Bool → PallocState
  | (arena, true) => ⟨arena, .freed part⟩
  | (arena, false) => ⟨arena, part.next⟩

end PallocPart

namespace PallocState

variable (g) (call : Palloc) (state : PallocState)

def goOn : Option PallocState :=
  match state.place with
  | .trim .lead => do
      check (call.leadSize + call.size ≤ call.allocSize)
      let result ← state.arena.trimLead g call
      some (PallocPart.lead.trimmed result)
  | .trim .trail => do
      let result ← state.arena.trimTrail g call
      some (PallocPart.trail.trimmed result)
  | .freed part => do
      let arena ← state.arena.step g .maybePurge
      -- without a stashed run there is nothing to purge, and the lock has not been released
      some ⟨arena, if arena.purges.length = state.arena.purges.length then part.next
        else .purging part⟩
  | .purging part => some ⟨state.arena, part.next⟩
  | .initLarge => do
      let arena ← state.arena.step g (.initLarge call.ret)
      some ⟨arena, .done⟩
  | .done => none

def step : PallocAction → Option PallocState
  | .goesOn => state.goOn g call
  | .meanwhile action => do
      let arena ← state.arena.step g action
      some { state with arena }

/-- The run that the thread has. -/
def mine : MapElm :=
  match state.place with
  | .trim .lead => call.elm
  | _ => call.ret

/-- The lock is free only while the thread purges, and other threads do not take its run for
theirs.  The thread may go on although it has not purged all runs that it has stashed: what it
has left is then purged by somebody later. -/
def permitted : PallocAction → Prop
  | .goesOn => state.place ≠ .done
  | .meanwhile action => state.place.isPurging = true ∧ state.arena.permitted g action ∧
      action.mine ≠ some (state.mine call)

instance (action : PallocAction) : Decidable (state.permitted g call action) := by
  cases action <;> unfold permitted <;> infer_instance

/-- How long that run is. -/
def pages : Nat :=
  match state.place with
  | .trim .lead => call.allocSize
  | .freed .lead | .purging .lead | .trim .trail => call.allocSize - call.leadSize
  | _ => call.size

end PallocState

/-! ## The first aligned page -/

theorem Arena.alignmentCeiling_bounds (page : Nat) (positive : 0 < alignment) :
    page ≤ Arena.alignmentCeiling page alignment ∧
      Arena.alignmentCeiling page alignment < page + alignment := by
  unfold Arena.alignmentCeiling
  have below := Nat.div_mul_le_self (page + alignment - 1) alignment
  have above : page + alignment - 1 < (page + alignment - 1) / alignment * alignment + alignment :=
    Nat.lt_div_mul_add positive
  omega

theorem Arena.leadPages_lt (elm : MapElm) (positive : 0 < alignment) :
    Arena.leadPages elm alignment < alignment := by
  have bounds := Arena.alignmentCeiling_bounds (elm.chunk + elm.pageind) positive
  unfold Arena.leadPages
  omega

theorem Arena.dvd_leadPages (elm : MapElm) (positive : 0 < alignment) :
    alignment ∣ elm.chunk + (elm.pageind + Arena.leadPages elm alignment) := by
  have bounds := Arena.alignmentCeiling_bounds (elm.chunk + elm.pageind) positive
  have ceiling : elm.chunk + (elm.pageind + Arena.leadPages elm alignment) =
      Arena.alignmentCeiling (elm.chunk + elm.pageind) alignment := by
    unfold Arena.leadPages
    omega
  rw [ceiling]
  exact Nat.dvd_mul_left _ _

/-! ## Trimming -/

namespace ArenaState

variable {call : Palloc}

/-- `arena_maybe_purge` changes the runs that the thread stashes only. -/
theorem live_of_maybePurge (ends : state.step g .maybePurge = some state')
    (free : elm ∉ state'.stashes) : state'.live elm = state.live elm := by
  obtain ⟨⟨arena, purge⟩, -, ⟨⟩⟩ := Option.bind_eq_some_iff.mp ends
  cases purge with
  | none => rfl
  | some purge =>
      refine if_neg fun stashed => free ?_
      have owner : purge ∈ (state.purging (arena, some purge)).purges :=
        List.mem_append_right _ List.mem_cons_self
      have member := mem_stashes owner stashed.2
      rwa [← stashed.1] at member

/-- A trimmed arena: the caller has the pages it keeps, and the other callers have their runs. -/
structure Trims (g : Geometry) (chunks : Nat → ArenaChunk) (state state' : ArenaState)
    (elm kept : MapElm) (n : Nat) : Prop where
  reached : Reached (permitted g) (step g) (start chunks) state'
  live : state'.live = Function.update (Function.update state.live elm none) kept
    (some (n, .large))
  mine : kept ∉ state'.stashes
  keeps : ∀ other use, other ≠ elm → state.Has other use → Keeps state state' other

theorem Trims.has (trims : Trims g chunks state state' elm run n) : state'.Has run .large :=
  ⟨by rw [trims.live, Function.update_self]; rfl, trims.mine⟩

theorem Trims.pages (trims : Trims g chunks state state' elm run n) : state'.pages run = n :=
  pages_eq (by rw [trims.live, Function.update_self])

section Reached

variable (reached : Reached (permitted g) (step g) (start chunks) state)
include reached

/-- A permitted section ends, and what it leads to is reached. -/
theorem exists_step {action : ArenaAction} (allowed : state.permitted g action) :
    ∃ state', state.step g action = some state' ∧
      Reached (permitted g) (step g) (start chunks) state' := by
  obtain ⟨map, -, related⟩ := exists_related reached
  obtain ⟨state', map', ends, -, -⟩ := related.performs allowed
  exact ⟨state', ends, reached.next allowed ends⟩

/-- A section of any thread keeps the runs of the others. -/
theorem keeps_of_step {action : ArenaAction} {use : RunUse} (allowed : state.permitted g action)
    (ends : state.step g action = some state') (has : state.Has elm use)
    (other : action.mine ≠ some elm) : Keeps state state' elm := by
  obtain ⟨map, -, related⟩ := exists_related reached
  exact related.keeps allowed has other ends

/-- There is nothing to trim. -/
theorem trims_nothing (has : state.Has elm .large) (whole : state.pages elm = n) :
    Trims g chunks state state elm elm n where
  reached := reached
  live := by rw [Function.update_idem, ← whole, ← has.live, Function.update_eq_self]
  mine := has.2
  keeps := fun _ _ _ other => ⟨rfl, other.2⟩

/-- `arena_run_trim_head` leaves the pages from the first aligned one on. -/
theorem exists_trimLead (has : state.Has call.elm .large)
    (room : state.pages call.elm = call.allocSize) (small : call.leadSize < call.allocSize) :
    ∃ state' dirty, state.trimLead g call = some (state', dirty) ∧
      Trims g chunks state state' call.elm call.ret (call.allocSize - call.leadSize) := by
  unfold trimLead
  by_cases none : call.leadSize = 0
  · have same : call.ret = call.elm := by simp [Palloc.ret, none]
    refine ⟨state, false, by simp [none], ?_⟩
    rw [same]
    exact trims_nothing reached has (by omega)
  · obtain ⟨map, -, related⟩ := exists_related reached
    have allowed : state.permitted g (.trimHead call.elm (call.allocSize - call.leadSize)) :=
      ⟨has, by omega, by omega⟩
    obtain ⟨state', ends, newReached⟩ := exists_step reached allowed
    have first : call.ret = ⟨call.elm.chunk, call.elm.pageind +
        (state.pages call.elm - (call.allocSize - call.leadSize))⟩ := by
      rw [Palloc.ret, show state.pages call.elm - (call.allocSize - call.leadSize) = call.leadSize
        by omega]
    have idle : state.live call.ret = .none :=
      related.idle_inside has.live (by omega : 0 < call.leadSize) (by omega)
    have notStashed := related.not_stashed (related.live ▸ idle)
    obtain ⟨⟨arena, given, dirty⟩, trimmed, same⟩ := Option.bind_eq_some_iff.mp ends
    obtain rfl := Option.some.inj same
    rw [room] at trimmed
    refine ⟨_, dirty, ?_, newReached, ?_, notStashed, fun other use different otherHas =>
      keeps_of_step reached allowed ends otherHas fun named => ?_⟩
    · simp only [if_pos none, ne_eq, Option.bind_eq_bind, trimmed, Option.bind_some, ends]
    · rw [first]
      rfl
    · exact different (Option.some.inj named).symm

/-- `arena_run_trim_tail` leaves the pages needed. -/
theorem exists_trimTrail (has : state.Has call.ret .large) (positive : 0 < call.size)
    (room : state.pages call.ret = call.size + call.trailSize) :
    ∃ state' dirty, state.trimTrail g call = some (state', dirty) ∧
      Trims g chunks state state' call.ret call.ret call.size := by
  unfold trimTrail
  by_cases none : call.trailSize = 0
  · exact ⟨state, false, by simp [none], trims_nothing reached has (by omega)⟩
  · have allowed : state.permitted g (.trimTail call.ret call.size) :=
      ⟨has, positive, by omega⟩
    obtain ⟨state', ends, newReached⟩ := exists_step reached allowed
    obtain ⟨⟨arena, given, dirty⟩, trimmed, same⟩ := Option.bind_eq_some_iff.mp ends
    obtain rfl := Option.some.inj same
    rw [room] at trimmed
    refine ⟨_, dirty, ?_, newReached, ?_, has.2, fun other use different otherHas =>
      keeps_of_step reached allowed ends otherHas fun named => ?_⟩
    · simp only [if_pos none, ne_eq, Option.bind_eq_bind, trimmed, Option.bind_some, ends]
    · exact (Function.update_idem _ _ _).symm
    · exact different (Option.some.inj named).symm

end Reached

end ArenaState

/-! ## The thread and the others -/

namespace PallocState

variable {call : Palloc} {state next : PallocState}

/-- The thread has its run, of the size that it should have by now. -/
structure Proceeds (g : Geometry) (chunks : Nat → ArenaChunk) (call : Palloc)
    (state : PallocState) : Prop where
  reached : Reached (ArenaState.permitted g) (ArenaState.step g) (ArenaState.start chunks)
    state.arena
  has : state.arena.Has (state.mine call) .large
  pages : state.arena.pages (state.mine call) = state.pages call

/-- What the thread's next section makes of the runs in use. -/
def trimmed (call : Palloc) (state : PallocState) : MapElm → Option (Nat × RunUse) :=
  match state.place with
  | .trim .lead => Function.update (Function.update state.arena.live call.elm none) call.ret
      (some (call.allocSize - call.leadSize, .large))
  | .trim .trail => Function.update state.arena.live call.ret (some (call.size, .large))
  | _ => state.arena.live

/-- The thread has gone on towards its end: the runs in use are as they should be, but for those
that it has stashed, and other callers have their runs. -/
structure GoesOn (g : Geometry) (chunks : Nat → ArenaChunk) (call : Palloc)
    (state next : PallocState) : Prop where
  proceeds : next.Proceeds g chunks call
  live : ∀ elm ∉ next.arena.stashes, next.arena.live elm = state.trimmed call elm
  keeps : ∀ other use, state.mine call ≠ other → state.arena.Has other use →
    ArenaState.Keeps state.arena next.arena other
  closer : next.place.left < state.place.left

theorem goesOn_lead (proceeds : state.Proceeds g chunks call) (place : state.place = .trim .lead)
    (sizePositive : 0 < call.size) (positive : 0 < call.alignment) :
    ∃ next, state.goOn g call = some next ∧ state.GoesOn g chunks call next := by
  obtain ⟨arena, _⟩ := state
  obtain rfl := place
  have small : call.leadSize < call.alignment := Arena.leadPages_lt call.elm positive
  have enough : call.leadSize + call.size ≤ call.allocSize := by
    unfold Palloc.allocSize
    omega
  obtain ⟨arena', dirty, ends, trims⟩ :=
    ArenaState.exists_trimLead proceeds.reached proceeds.has proceeds.pages (by omega)
  refine ⟨PallocPart.lead.trimmed (arena', dirty), ?_, ?_⟩
  · simp only [goOn, check_eq_some enough, Option.bind_eq_bind, Option.bind_some, ends]
  · have keeps : ∀ other use, call.elm ≠ other → arena.Has other use →
        ArenaState.Keeps arena arena' other :=
      fun other use different => trims.keeps other use different.symm
    have live : ∀ elm ∉ arena'.stashes, arena'.live elm = trimmed call ⟨arena, .trim .lead⟩ elm :=
      fun elm _ => congrFun trims.live elm
    cases dirty with
    | true =>
        exact ⟨⟨trims.reached, trims.has, trims.pages⟩, live, keeps, PallocPart.freed_left .lead⟩
    | false =>
        have closer := (PallocPart.next_left .lead).trans (PallocPart.purging_left .lead)
        exact ⟨⟨trims.reached, trims.has, trims.pages⟩, live, keeps,
          closer.trans (PallocPart.freed_left .lead)⟩

theorem goesOn_trail (proceeds : state.Proceeds g chunks call) (place : state.place = .trim .trail)
    (sizePositive : 0 < call.size) (positive : 0 < call.alignment) :
    ∃ next, state.goOn g call = some next ∧ state.GoesOn g chunks call next := by
  obtain ⟨arena, _⟩ := state
  obtain rfl := place
  have small : call.leadSize < call.alignment := Arena.leadPages_lt call.elm positive
  have room : call.allocSize - call.leadSize = call.size + call.trailSize := by
    unfold Palloc.trailSize Palloc.allocSize
    omega
  obtain ⟨arena', dirty, ends, trims⟩ :=
    ArenaState.exists_trimTrail proceeds.reached proceeds.has sizePositive
      (proceeds.pages.trans room)
  refine ⟨PallocPart.trail.trimmed (arena', dirty), ?_, ?_⟩
  · simp only [goOn, Option.bind_eq_bind, Option.bind_some, ends]
  · have keeps : ∀ other use, call.ret ≠ other → arena.Has other use →
        ArenaState.Keeps arena arena' other :=
      fun other use different => trims.keeps other use different.symm
    have live : ∀ elm ∉ arena'.stashes, arena'.live elm = trimmed call ⟨arena, .trim .trail⟩ elm :=
      fun elm _ => by rw [trims.live, Function.update_idem]; rfl
    cases dirty with
    | true =>
        exact ⟨⟨trims.reached, trims.has, trims.pages⟩, live, keeps, PallocPart.freed_left .trail⟩
    | false =>
        have closer := (PallocPart.next_left .trail).trans (PallocPart.purging_left .trail)
        exact ⟨⟨trims.reached, trims.has, trims.pages⟩, live, keeps,
          closer.trans (PallocPart.freed_left .trail)⟩

/-- A section of another thread, and what the thread does while it purges. -/
theorem Proceeds.of_keeps (proceeds : state.Proceeds g chunks call)
    (reached : Reached (ArenaState.permitted g) (ArenaState.step g) (ArenaState.start chunks)
      next.arena)
    (keeps : ArenaState.Keeps state.arena next.arena (state.mine call))
    (mine : next.mine call = state.mine call) (pages : next.pages call = state.pages call) :
    next.Proceeds g chunks call where
  reached := reached
  has := by
    rw [mine]
    exact keeps.has proceeds.has
  pages := by
    rw [mine, pages, keeps.pages]
    exact proceeds.pages

theorem goesOn_freed (proceeds : state.Proceeds g chunks call) {part : PallocPart}
    (place : state.place = .freed part) :
    ∃ next, state.goOn g call = some next ∧ state.GoesOn g chunks call next := by
  obtain ⟨arena, _⟩ := state
  obtain rfl := place
  have allowed : arena.permitted g .maybePurge := trivial
  obtain ⟨arena', ends, reached⟩ := ArenaState.exists_step proceeds.reached allowed
  have keeps : ∀ other use, arena.Has other use → ArenaState.Keeps arena arena' other :=
    fun other use otherHas =>
      ArenaState.keeps_of_step proceeds.reached allowed ends otherHas (Option.some_ne_none _).symm
  have live : ∀ elm ∉ arena'.stashes, arena'.live elm = arena.live elm :=
    fun elm free => ArenaState.live_of_maybePurge ends free
  have result : goOn g call ⟨arena, .freed part⟩ = some ⟨arena',
      if arena'.purges.length = arena.purges.length then part.next else .purging part⟩ := by
    simp only [goOn, Option.bind_eq_bind, ends, Option.bind_some]
  -- with or without a run to purge the thread still has the run that it had
  split at result
  · refine ⟨_, result, ?_, live, fun other use _ => keeps other use, ?_⟩
    · exact proceeds.of_keeps reached (keeps _ _ proceeds.has) (by cases part <;> rfl)
        (by cases part <;> rfl)
    · exact part.next_left.trans part.purging_left
  · refine ⟨_, result, ?_, live, fun other use _ => keeps other use, ?_⟩
    · exact proceeds.of_keeps reached (keeps _ _ proceeds.has) (by cases part <;> rfl)
        (by cases part <;> rfl)
    · exact part.purging_left

theorem goesOn_purging (proceeds : state.Proceeds g chunks call) {part : PallocPart}
    (place : state.place = .purging part) :
    ∃ next, state.goOn g call = some next ∧ state.GoesOn g chunks call next := by
  obtain ⟨arena, _⟩ := state
  obtain rfl := place
  refine ⟨_, rfl, ?_, fun _ _ => rfl, fun other use _ otherHas => ⟨rfl, otherHas.2⟩, ?_⟩
  · exact proceeds.of_keeps proceeds.reached ⟨rfl, proceeds.has.2⟩ (by cases part <;> rfl)
      (by cases part <;> rfl)
  · exact part.next_left

theorem goesOn_initLarge (proceeds : state.Proceeds g chunks call)
    (place : state.place = .initLarge) :
    ∃ next, state.goOn g call = some next ∧ state.GoesOn g chunks call next := by
  obtain ⟨arena, _⟩ := state
  obtain rfl := place
  have allowed : arena.permitted g (.initLarge call.ret) := proceeds.has
  obtain ⟨arena', ends, reached⟩ := ArenaState.exists_step proceeds.reached allowed
  obtain rfl : _ = arena' := Option.some.inj ends
  refine ⟨_, rfl, ?_, fun _ _ => rfl, fun other use _ otherHas => ⟨rfl, otherHas.2⟩,
    Nat.zero_lt_one⟩
  exact proceeds.of_keeps reached ⟨rfl, proceeds.has.2⟩ rfl rfl

theorem Proceeds.exists_goesOn (proceeds : state.Proceeds g chunks call)
    (sizePositive : 0 < call.size) (positive : 0 < call.alignment) (more : state.place ≠ .done) :
    ∃ next, state.goOn g call = some next ∧ state.GoesOn g chunks call next := by
  cases place : state.place with
  | trim part =>
      cases part with
      | lead => exact goesOn_lead proceeds place sizePositive positive
      | trail => exact goesOn_trail proceeds place sizePositive positive
  | freed part => exact goesOn_freed proceeds place
  | purging part => exact goesOn_purging proceeds place
  | initLarge => exact goesOn_initLarge proceeds place
  | done => exact absurd place more

theorem Proceeds.exists_meanwhile (proceeds : state.Proceeds g chunks call) {action : ArenaAction}
    (allowed : state.permitted g call (.meanwhile action)) :
    ∃ next, state.step g call (.meanwhile action) = some next ∧ next.Proceeds g chunks call := by
  obtain ⟨-, permitted, other⟩ := allowed
  obtain ⟨arena', ends, reached⟩ := ArenaState.exists_step proceeds.reached permitted
  refine ⟨{ state with arena := arena' }, ?_, ?_⟩
  · simp only [step, Option.bind_eq_bind, ends, Option.bind_some]
  · have keeps := ArenaState.keeps_of_step proceeds.reached permitted ends proceeds.has other
    exact proceeds.of_keeps reached keeps rfl rfl

end PallocState

/-- Wherever a thread is in `arena_palloc` with a run that has pages to spare, and whatever the
threads of the arena do while it purges: it still has the run or what it needs of it, it goes on
without a failed assertion and takes nothing of the others, and in the end it has an aligned run
of the size asked for. -/
theorem arena_palloc_aligned {call : Palloc} {palloc : PallocState}
    (sizePositive : 0 < call.size) (positive : 0 < call.alignment)
    (reached : Reached (ArenaState.permitted g) (ArenaState.step g) (ArenaState.start chunks)
      state)
    (has : state.Has call.elm .large) (room : state.pages call.elm = call.allocSize)
    (went : Reached (PallocState.permitted g call) (PallocState.step g call)
      ⟨state, .trim .lead⟩ palloc) :
    palloc.Proceeds g chunks call ∧
      (∀ action, palloc.permitted g call action → ∃ next, palloc.step g call action = some next) ∧
      (∀ next, palloc.step g call .goesOn = some next → palloc.GoesOn g chunks call next) ∧
      (palloc.place = .done → palloc.arena.live call.ret = some (call.size, .large) ∧
        call.alignment ∣ call.ret.chunk + call.ret.pageind) := by
  have proceeds : palloc.Proceeds g chunks call := by
    refine went.invariant (PallocState.Proceeds g chunks call) ⟨reached, has, room⟩ ?_
    intro before action after proceeds allowed result
    cases action with
    | goesOn =>
        obtain ⟨next, ends, goesOn⟩ := proceeds.exists_goesOn sizePositive positive allowed
        obtain rfl := Option.some.inj (ends.symm.trans result)
        exact goesOn.proceeds
    | meanwhile action =>
        obtain ⟨next, ends, later⟩ := proceeds.exists_meanwhile allowed
        obtain rfl := Option.some.inj (ends.symm.trans result)
        exact later
  refine ⟨proceeds, fun action allowed => ?_, fun next result => ?_, fun done => ⟨?_, ?_⟩⟩
  · cases action with
    | goesOn =>
        obtain ⟨next, ends, -⟩ := proceeds.exists_goesOn sizePositive positive allowed
        exact ⟨next, ends⟩
    | meanwhile action =>
        obtain ⟨next, ends, -⟩ := proceeds.exists_meanwhile allowed
        exact ⟨next, ends⟩
  · have more : palloc.place ≠ .done := by
      intro done
      simp [PallocState.step, PallocState.goOn, done] at result
    obtain ⟨next, ends, goesOn⟩ := proceeds.exists_goesOn sizePositive positive more
    obtain rfl := Option.some.inj (ends.symm.trans result)
    exact goesOn
  · have isMine : palloc.mine call = call.ret := by simp [PallocState.mine, done]
    have size : palloc.pages call = call.size := by simp [PallocState.pages, done]
    have live := proceeds.has.live
    rwa [proceeds.pages, isMine, size] at live
  · exact Arena.dvd_leadPages call.elm positive

/-- An arena with a free run of two dirty pages, which are in use again. -/
def dirtyReused : List ArenaAction :=
  [.allocLarge 2 0, .resumeLarge 2 0 (some ⟨0, zeroedChunk, true⟩), .allocSmall 0 0,
    .hugeAlloc 8 true, .dallocLarge ⟨0, 1⟩, .maybePurge, .hugeDalloc 8, .allocLarge 2 0]

/-- The thread purges the page before the first aligned one, and has the next page then. -/
def purgesLead : List PallocAction :=
  [.goesOn, .goesOn, .meanwhile (.purgeStashed 0 true), .meanwhile (.unstashPurged 0),
    .meanwhile (.purgeAgain 0), .goesOn, .goesOn, .goesOn]

/-- A page aligned to two pages is cut out of a run of two, and the other page is purged. -/
theorem arena_palloc_aligned_example :
    ∃ palloc : PallocState, palloc.place = .done ∧ palloc.arena.pages ⟨0, 1⟩ = 0 ∧
      palloc.arena.live ⟨0, 2⟩ = some (1, .large) ∧ 2 ∣ 0 + 2 := by
  let g : Geometry := { fourPages with lgDirtyMult := 2 }
  let call : Palloc := ⟨⟨0, 1⟩, 1, 2⟩
  have evaluated : ((permittedRuns (ArenaState.permitted g) (ArenaState.step g)
      (ArenaState.start fun _ => zeroedChunk) dirtyReused).bind fun state =>
        (permittedRuns (PallocState.permitted g call) (PallocState.step g call)
          ⟨state, .trim .lead⟩ purgesLead).map fun palloc =>
            (decide (state.Has ⟨0, 1⟩ .large), state.pages ⟨0, 1⟩, palloc.place,
              palloc.arena.pages ⟨0, 1⟩)) = some (true, 2, .done, 0) := by
    decide +kernel
  obtain ⟨state, before, later⟩ := Option.bind_eq_some_iff.mp evaluated
  obtain ⟨palloc, after, values⟩ := Option.map_eq_some_iff.mp later
  simp only [Prod.mk.injEq, decide_eq_true_eq] at values
  obtain ⟨has, room, done, free⟩ := values
  have positive : 0 < call.size := by decide
  obtain ⟨-, -, -, ends⟩ := arena_palloc_aligned positive (by decide)
    (Reached.start.of_permittedRuns before) has room (Reached.start.of_permittedRuns after)
  have ret : call.ret = ⟨0, 2⟩ := by decide
  rw [ret] at ends
  exact ⟨palloc, done, free, ends done⟩

end Jemalloc
end Vmem
