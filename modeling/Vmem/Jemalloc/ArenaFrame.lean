import Vmem.Jemalloc.ArenaThreads

/-!
# What a section leaves alone

A caller of an arena names the run that it works on.  A section keeps every other run that a
caller has as it is: what it allocates was free, and so was what a purging thread stashes.
-/

namespace Vmem
namespace Jemalloc

variable {g : Geometry} {state state' : ArenaState} {map map' : RunMap} {elm other : MapElm}
  {use use' : RunUse} {need n : Nat} {outcome : Arena.Outcome}

/-- The run that the caller of a section says it has. -/
def ArenaAction.mine : ArenaAction → Option MapElm
  | .dallocLarge elm | .dallocBin elm _ | .trimHead elm _ | .trimTail elm _ | .initLarge elm
  | .shrink elm _ | .grow elm _ _ => some elm
  | _ => none

/-! ## Runs of the map -/

namespace RunMap

/-- Where a section takes a run, it was free, so that runs in use stay as they are. -/
theorem live_kept {run : Nat × RunUse}
    (changed : map'.live g = liveWith (map.live g) run outcome)
    (idle : ∀ named, outcome = .run named → map.live g named = none)
    (live : map.live g elm ≠ none) : map'.live g elm = map.live g elm := by
  rw [changed]
  cases outcome with
  | run named =>
      have different : elm ≠ named := by
        rintro rfl
        exact live (idle elm rfl)
      exact Function.update_of_ne different _ _
  | none => rfl
  | needsChunk => rfl

theorem Allocates.keeps (allocates : Allocates g need use map map' outcome)
    (fits : need ≤ g.maxPages) (owns : ∀ c, map.spare = some c → c ∈ map.owned)
    (nonempty : ∀ c ∈ map.owned, NonemptyRuns (map.layouts c))
    (inUse : ∀ dirty, (⟨need, use, dirty⟩ : Run).inUse = true) (live : map.live g elm ≠ none) :
    map'.live g elm = map.live g elm := by
  refine live_kept (allocates.live fits owns nonempty inUse) ?_ live
  rintro named rfl
  exact allocates.idle nonempty

theorem Resumes.keeps {fresh : Option Nat} (resumes : Resumes g need use map fresh map' outcome)
    (fits : need ≤ g.maxPages) (nonempty : ∀ c ∈ map.owned, NonemptyRuns (map.layouts c))
    (inUse : ∀ dirty, (⟨need, use, dirty⟩ : Run).inUse = true) (live : map.live g elm ≠ none) :
    map'.live g elm = map.live g elm := by
  refine live_kept (resumes.live fits nonempty inUse) ?_ live
  rintro named rfl
  exact resumes.idle nonempty

/-- A purging thread stashes free runs only. -/
theorem Stashes.keeps (stashes : Stashes g map map')
    (nonempty : ∀ c ∈ map.owned, NonemptyRuns (map.layouts c)) (live : map.live g elm ≠ none) :
    map'.live g elm = map.live g elm := by
  cases stashes with
  | idle => rfl
  | @stashed c layout pages owns stashed =>
      by_cases here : elm.chunk = c
      · subst here
        have other : elm.pageind ∉ pages := by
          intro member
          refine live ?_
          simp [RunMap.live, owns, (stashed.live_of_mem (nonempty _ owns) member).1]
        simp [RunMap.live, RunMap.put, owns, stashed.live_of_notMem other]
      · simp [RunMap.live, RunMap.put, here]

end RunMap

/-! ## Runs of a purging thread -/

section Purging

variable {arena arena' : Arena} {purge next : Purge} {unzeroed : Bool} {given : Option Nat}

theorem Arena.purgeStashed_mapelms (result : arena.purgeStashed g purge unzeroed =
    some (arena', next)) : next.chunk = purge.chunk ∧ next.mapelms = purge.mapelms := by
  unfold Arena.purgeStashed at result
  split at result
  · cases result
  · obtain ⟨npages, -, checked⟩ := Option.bind_eq_some_iff.mp result
    obtain ⟨-, -, ⟨⟩⟩ := Option.bind_eq_some_iff.mp checked
    exact ⟨rfl, rfl⟩

theorem Arena.unstashPurged_mapelms (result : arena.unstashPurged g purge =
    some (arena', next, given)) :
    next.chunk = purge.chunk ∧ next.mapelms = purge.mapelms.tail := by
  unfold Arena.unstashPurged at result
  split at result
  · cases result
  · next page rest mapelms =>
      obtain ⟨⟨freed, chunk, dirty⟩, -, ⟨⟩⟩ := Option.bind_eq_some_iff.mp result
      exact ⟨rfl, by rw [mapelms]; rfl⟩

end Purging

/-! ## Runs of a caller -/

namespace ArenaState

variable {thread : Nat} {purge next : Purge}

theorem pages_eq (live : state.live elm = some (n, use)) : state.pages elm = n := by
  simp [pages, live]

theorem Has.live (has : state.Has elm use) : state.live elm = some (state.pages elm, use) := by
  obtain ⟨⟨m, _⟩, isLive, rfl⟩ := Option.map_eq_some_iff.mp has.1
  rw [pages_eq isLive, isLive]

theorem Has.live_ne_none (has : state.Has elm use) : state.live elm ≠ none := by
  rw [has.live]
  exact Option.some_ne_none _

theorem stashes_congr (purges : state'.purges = state.purges) : state'.stashes = state.stashes := by
  rw [stashes, stashes, purges]

@[simp] theorem allocated_purges (result : Arena × Arena.Outcome) :
    (state.allocated need use result).purges = state.purges := by
  obtain ⟨arena, _ | _ | _⟩ := result <;> rfl

/-- A thread that keeps some of its stashed runs. -/
theorem mem_stashes_setPurge (isThread : state.purges[thread]? = some purge)
    (chunk : next.chunk = purge.chunk) (fewer : next.mapelms ⊆ purge.mapelms)
    (member : elm ∈ (state.setPurge thread next).stashes) : elm ∈ state.stashes := by
  obtain ⟨owner, isOwner, listed⟩ := List.mem_flatMap.mp member
  obtain ⟨page, stashed, rfl⟩ := List.mem_map.mp listed
  rcases List.mem_or_eq_of_mem_set isOwner with old | rfl
  · exact mem_stashes old stashed
  · rw [chunk]
    exact mem_stashes (List.mem_of_getElem? isThread) (fewer stashed)

/-- A caller's run is as it was, and nobody has stashed it. -/
structure Keeps (state state' : ArenaState) (elm : MapElm) : Prop where
  live : state'.live elm = state.live elm
  mine : elm ∉ state'.stashes

theorem Keeps.has (keeps : Keeps state state' elm) (has : state.Has elm use) :
    state'.Has elm use := ⟨by rw [keeps.live]; exact has.1, keeps.mine⟩

theorem Keeps.pages (keeps : Keeps state state' elm) : state'.pages elm = state.pages elm := by
  rw [ArenaState.pages, ArenaState.pages, keeps.live]

/-- A section in which a caller changes another run. -/
theorem Keeps.of_update {named : MapElm} {value : Option (Nat × RunUse)}
    (has : state.Has elm use) (different : elm ≠ named) (purges : state'.purges = state.purges)
    (live : state'.live = Function.update state.live named value) : Keeps state state' elm where
  live := by rw [live, Function.update_of_ne different]
  mine := by
    rw [stashes_congr purges]
    exact has.2

theorem stashesIdle_of_purges (purges : state'.purges = state.purges) : StashesIdle state state' :=
  fun _ member => Or.inl (stashes_congr purges ▸ member)

namespace Related

theorem keeps_of_stashes (newRelated : Related g state' map') (related : Related g state map)
    (has : state.Has elm use) (live : map'.live g elm = map.live g elm)
    (free : StashesIdle state state') : Keeps state state' elm := by
  refine ⟨by rw [newRelated.live, related.live, live], fun member => ?_⟩
  rcases free elm member with old | idle
  · exact has.2 old
  · exact has.live_ne_none idle

/-- The run that `arena_run_trim_head` leaves starts inside the run before. -/
theorem idle_inside (related : Related g state map) {i : Nat}
    (live : state.live elm = some (n, use)) (positive : 0 < i) (inside : i < n) :
    state.live ⟨elm.chunk, elm.pageind + i⟩ = none := by
  rw [related.live] at live ⊢
  obtain ⟨before, dirty, after, located, -⟩ := RunMap.exists_located live
  exact located.idle_inside (related.sound.nonempty _ located.owns) positive inside

/-- `arena_run_trim_head` leaves a run that was no run before. -/
theorem keeps_trimHead (related : Related g state map) {named : MapElm} {pages : Nat}
    (permitted : state.permitted g (.trimHead named pages)) (has : state.Has elm use)
    (different : elm ≠ named) (ends : state.step g (.trimHead named pages) = some state') :
    Keeps state state' elm := by
  obtain ⟨large, positive, smaller⟩ := permitted
  have inside := related.idle_inside large.live (by omega : 0 < state.pages named - pages)
    (by omega)
  have behind : elm ≠ ⟨named.chunk, named.pageind + (state.pages named - pages)⟩ := by
    rintro rfl
    exact has.live_ne_none inside
  obtain ⟨⟨arena, given, dirty⟩, -, ⟨⟩⟩ := Option.bind_eq_some_iff.mp ends
  refine ⟨?_, has.2⟩
  exact (Function.update_of_ne behind _ _).trans (Function.update_of_ne different _ _)

end Related

theorem keeps_purgeStashed {unzeroed : Bool} (has : state.Has elm use)
    (ends : state.step g (.purgeStashed thread unzeroed) = some state') :
    Keeps state state' elm := by
  obtain ⟨purge, isThread, purges⟩ := Option.bind_eq_some_iff.mp ends
  obtain ⟨⟨arena, next⟩, result, ⟨⟩⟩ := Option.bind_eq_some_iff.mp purges
  obtain ⟨chunk, mapelms⟩ := Arena.purgeStashed_mapelms result
  refine ⟨rfl, fun member => has.2 ?_⟩
  have fewer : next.mapelms ⊆ purge.mapelms := mapelms ▸ List.Subset.refl _
  have kept : elm ∈ ({ state with arena }.setPurge _ next).stashes := member
  exact mem_stashes_setPurge isThread chunk fewer kept

/-- A thread frees what it has stashed. -/
theorem keeps_unstashPurged (has : state.Has elm use)
    (ends : state.step g (.unstashPurged thread) = some state') : Keeps state state' elm := by
  obtain ⟨purge, isThread, frees⟩ := Option.bind_eq_some_iff.mp ends
  obtain ⟨page, isFirst, freed⟩ := Option.bind_eq_some_iff.mp frees
  obtain ⟨⟨arena, next, given⟩, result, ⟨⟩⟩ := Option.bind_eq_some_iff.mp freed
  obtain ⟨chunk, mapelms⟩ := Arena.unstashPurged_mapelms result
  have stashed := mem_stashes (List.mem_of_getElem? isThread) (List.mem_of_mem_head? isFirst)
  have apart : elm ≠ ⟨purge.chunk, page⟩ := by
    rintro rfl
    exact has.2 stashed
  refine ⟨?_, fun member => has.2 ?_⟩
  · exact Function.update_of_ne (chunk ▸ apart) _ _
  · have fewer : next.mapelms ⊆ purge.mapelms := mapelms ▸ List.tail_subset _
    have kept : elm ∈ ((state.freed _ arena given.toList).setPurge _ next).stashes := member
    exact mem_stashes_setPurge isThread chunk fewer kept

/-- A section keeps the runs that callers have, but for the run that its own caller names. -/
theorem Related.keeps (related : Related g state map) {action : ArenaAction}
    (permitted : state.permitted g action) (has : state.Has elm use)
    (other : action.mine ≠ some elm) (ends : state.step g action = some state') :
    Keeps state state' elm := by
  have nonempty := related.sound.nonempty
  have mapLive : map.live g elm ≠ none := related.live ▸ has.live_ne_none
  have spare : ∀ c, map.spare = some c → c ∈ map.owned :=
    fun c isSpare => (related.sound.spareHeld c isSpare).1
  have different : ∀ named, action.mine = some named → elm ≠ named := by
    rintro named isNamed rfl
    exact other isNamed
  obtain ⟨same, map', ends', performs, newRelated⟩ := related.performs permitted
  obtain rfl : same = state' := Option.some.inj (ends'.symm.trans ends)
  clear ends' other
  cases performs with
  | allocLarge allocates =>
      obtain ⟨result, -, ⟨⟩⟩ := Option.bind_eq_some_iff.mp ends
      exact newRelated.keeps_of_stashes related has
        (allocates.keeps permitted.2 spare nonempty (fun _ => rfl) mapLive)
        (stashesIdle_of_purges (allocated_purges result))
  | resumeLarge resumes =>
      obtain ⟨result, -, ⟨⟩⟩ := Option.bind_eq_some_iff.mp ends
      exact newRelated.keeps_of_stashes related has
        (resumes.keeps permitted.1.2 nonempty (fun _ => rfl) mapLive)
        (stashesIdle_of_purges (allocated_purges result))
  | @allocSmall binind shape map' outcome allocates =>
      obtain ⟨result, -, ⟨⟩⟩ := Option.bind_eq_some_iff.mp ends
      exact newRelated.keeps_of_stashes related has
        (allocates.keeps (g.runPages_le binind permitted) spare nonempty (fun _ => rfl) mapLive)
        (stashesIdle_of_purges (allocated_purges result))
  | @resumeSmall binind shape fresh map' outcome resumes =>
      obtain ⟨result, -, ⟨⟩⟩ := Option.bind_eq_some_iff.mp ends
      exact newRelated.keeps_of_stashes related has
        (resumes.keeps (g.runPages_le binind permitted.1) nonempty (fun _ => rfl) mapLive)
        (stashesIdle_of_purges (allocated_purges result))
  | trimHead => exact related.keeps_trimHead permitted has (different _ rfl) ends
  | dallocLarge | dallocBin | trimTail | shrink =>
      obtain ⟨⟨arena, given, dirty⟩, -, ⟨⟩⟩ := Option.bind_eq_some_iff.mp ends
      exact .of_update has (different _ rfl) rfl rfl
  | grow | cannotGrow =>
      obtain ⟨⟨arena, failed⟩, -, ⟨⟩⟩ := Option.bind_eq_some_iff.mp ends
      exact .of_update has (different _ rfl) rfl rfl
  | initLarge | hugeAlloc | hugeDalloc =>
      obtain ⟨⟩ := ends
      exact ⟨rfl, has.2⟩
  | maybePurge stashes =>
      obtain ⟨_, _, again, -, -, free⟩ := related.maybePurge
      obtain rfl := Option.some.inj (again.symm.trans ends)
      exact newRelated.keeps_of_stashes related has (stashes.keeps nonempty mapLive) free
  | purgeAll stashes =>
      obtain ⟨_, _, again, -, -, free⟩ := related.purgeAll
      obtain rfl := Option.some.inj (again.symm.trans ends)
      exact newRelated.keeps_of_stashes related has (stashes.keeps nonempty mapLive) free
  | purgeStashed => exact keeps_purgeStashed has ends
  | unstashPurged => exact keeps_unstashPurged has ends
  | @purgeAgain thread map' stashes =>
      obtain ⟨purge, isThread, done⟩ := permitted
      obtain ⟨_, _, again, -, -, free⟩ := related.purgeAgain isThread done
      obtain rfl := Option.some.inj (again.symm.trans ends)
      exact newRelated.keeps_of_stashes related has (stashes.keeps nonempty mapLive) free

end ArenaState

end Jemalloc
end Vmem
