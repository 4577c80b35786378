import Vmem.Jemalloc.ArenaRefines

/-!
# Runs of the threads of an arena

Whatever the threads of an arena do in turns, the page map stays that of a run map, no
assertion fails, and the threads that are purging have promised what `npurgatory` says.
-/

namespace Vmem
namespace Jemalloc

variable {g : Geometry}

/-! ## Steps of the run map -/

namespace RunMap

variable (g) in
/-- Dirty free runs of one chunk become large runs of a purging thread, or nothing changes. -/
inductive Stashes (map : RunMap) : RunMap → Prop
  | idle : Stashes map map
  | stashed {c : Nat} {layout : List Run} {pages : List Nat} (owns : c ∈ map.owned)
      (stashed : Stashed g.mapBias (map.layouts c) layout pages) (nonempty : pages ≠ [])
      (apart : nadjac layout = 0) : Stashes map (map.put c layout)

variable (g) in
/-- What a step of a thread does to the runs. -/
inductive Performs (map : RunMap) : ArenaAction → RunMap → Prop
  | allocLarge {need shape : Nat} {map' : RunMap} {outcome : Arena.Outcome}
      (allocates : Allocates g need .large map map' outcome) :
      Performs map (.allocLarge need shape) map'
  | resumeLarge {need shape : Nat} {fresh : Option Arena.FreshChunk} {map' : RunMap}
      {outcome : Arena.Outcome}
      (resumes : Resumes g need .large map (fresh.map Arena.FreshChunk.chunk) map' outcome) :
      Performs map (.resumeLarge need shape fresh) map'
  | allocSmall {binind shape : Nat} {map' : RunMap} {outcome : Arena.Outcome}
      (allocates : Allocates g (g.runPages binind) (.small binind) map map' outcome) :
      Performs map (.allocSmall binind shape) map'
  | resumeSmall {binind shape : Nat} {fresh : Option Arena.FreshChunk} {map' : RunMap}
      {outcome : Arena.Outcome}
      (resumes : Resumes g (g.runPages binind) (.small binind) map
        (fresh.map Arena.FreshChunk.chunk) map' outcome) :
      Performs map (.resumeSmall binind shape fresh) map'
  | dallocLarge {elm : MapElm} {before after : List Run} {n : Nat} {dirty : Bool} {map' : RunMap}
      {given : Option Nat} (located : Located g map elm before ⟨n, .large, dirty⟩ after)
      (frees : Frees g elm.chunk (coalesce (before ++ ⟨n, .free, true⟩ :: after)) true map map'
        given) :
      Performs map (.dallocLarge elm) map'
  | dallocBin {elm : MapElm} {before after : List Run} {n binind used : Nat} {dirty : Bool}
      {map' : RunMap} {given : Option Nat}
      (located : Located g map elm before ⟨n, .small binind, dirty⟩ after)
      (frees : Frees g elm.chunk (coalesce (before ++ Books.binRunFreed n used dirty ++ after)) true
        map map' given) :
      Performs map (.dallocBin elm used) map'
  | trimHead {elm : MapElm} {before after : List Run} {first second : Nat} {dirty : Bool}
      (located : Located g map elm before ⟨first + second, .large, dirty⟩ after) :
      Performs map (.trimHead elm second) (map.put elm.chunk
        (coalesce (before ++ ⟨first, .free, dirty⟩ :: ⟨second, .large, dirty⟩ :: after)))
  | trimTail {elm : MapElm} {before after : List Run} {first second : Nat} {dirty : Bool}
      (located : Located g map elm before ⟨first + second, .large, dirty⟩ after) :
      Performs map (.trimTail elm first) (map.put elm.chunk
        (coalesce (before ++ ⟨first, .large, dirty⟩ :: ⟨second, .free, dirty⟩ :: after)))
  | initLarge {elm : MapElm} : Performs map (.initLarge elm) map
  | shrink {elm : MapElm} {before after : List Run} {first second : Nat} {dirty : Bool}
      (located : Located g map elm before ⟨first + second, .large, dirty⟩ after) :
      Performs map (.shrink elm first) (map.put elm.chunk
        (coalesce (before ++ ⟨first, .large, dirty⟩ :: ⟨second, .free, true⟩ :: after)))
  | grow {elm : MapElm} {before after grown : List Run} {n pages extra : Nat} {dirty : Bool}
      (located : Located g map elm before ⟨n, .large, dirty⟩ after)
      (possible : Books.Grown n pages extra dirty after grown) :
      Performs map (.grow elm pages extra) (map.put elm.chunk (before ++ grown))
  | cannotGrow {elm : MapElm} {before after : List Run} {n pages extra : Nat} {dirty : Bool}
      (located : Located g map elm before ⟨n, .large, dirty⟩ after)
      (impossible : ∀ grown, ¬Books.Grown n pages extra dirty after grown) :
      Performs map (.grow elm pages extra) map
  | hugeAlloc {pages : Nat} {succeeds : Bool} : Performs map (.hugeAlloc pages succeeds) map
  | hugeDalloc {pages : Nat} : Performs map (.hugeDalloc pages) map
  | maybePurge {map' : RunMap} (stashes : Stashes g map map') : Performs map .maybePurge map'
  | purgeAll {map' : RunMap} (stashes : Stashes g map map') : Performs map .purgeAll map'
  | purgeStashed {thread : Nat} {unzeroed : Bool} : Performs map (.purgeStashed thread unzeroed) map
  | unstashPurged {thread : Nat} {elm : MapElm} {before after : List Run} {n : Nat} {dirty : Bool}
      {map' : RunMap} {given : Option Nat}
      (located : Located g map elm before ⟨n, .large, dirty⟩ after)
      (frees : Frees g elm.chunk (coalesce (before ++ ⟨n, .free, false⟩ :: after)) false map map'
        given) :
      Performs map (.unstashPurged thread) map'
  | purgeAgain {thread : Nat} {map' : RunMap} (stashes : Stashes g map map') :
      Performs map (.purgeAgain thread) map'

end RunMap

/-! ## What holds between two steps -/

namespace ArenaState

/-- The pages of the runs that a thread has still to purge. -/
def unpurgedPages (state : ArenaState) (purge : Purge) : Nat :=
  (purge.unpurged.map fun page => state.pages ⟨purge.chunk, page⟩).sum

/-- The threads that are purging have stashed runs of their own. -/
structure Stashing (state : ArenaState) : Prop where
  live : ∀ elm ∈ state.stashes, ∃ n, state.live elm = some (n, .large)
  nodup : state.stashes.Nodup
  order : ∀ purge ∈ state.purges, purge.unpurged <:+ purge.mapelms
  enough : ∀ purge ∈ state.purges, purge.npurged + state.unpurgedPages purge ≤ purge.npurgeable

/-- What the threads that are purging have promised to purge. -/
def promised (state : ArenaState) : Nat := (state.purges.map Purge.npurgatory).sum

/-- The threads that are purging have stashed runs of their own, and the arena knows what
they have promised. -/
structure Purging (state : ArenaState) : Prop extends Stashing state where
  promised : state.arena.npurgatory = state.promised % Word.modulus

/-- The state of an arena as a run map. -/
structure Related (g : Geometry) (state : ArenaState) (map : RunMap) : Prop where
  sound : Sound g map (state.huge + state.lost) state.arena
  owned : state.owned = map.owned
  live : state.live = map.live g
  aligned : ∀ c ∈ state.owned, g.chunkNpages ∣ c ∧ c + g.chunkNpages ≤ addressPages
  purging : state.Purging

variable {state state' : ArenaState} {map map' : RunMap} {elm : MapElm} {use : RunUse}

/-! ## Steps of the callers -/

theorem mem_stashes {purge : Purge} {page : Nat} (member : purge ∈ state.purges)
    (stashed : page ∈ purge.mapelms) : ⟨purge.chunk, page⟩ ∈ state.stashes :=
  List.mem_flatMap.mpr ⟨purge, member, List.mem_map.mpr ⟨page, stashed, rfl⟩⟩

/-- The pages that a thread has still to purge are as many as long as its runs are. -/
theorem Stashing.unpurgedPages_congr (stashing : state.Stashing) {purge : Purge}
    (member : purge ∈ state.purges)
    (keeps : ∀ elm ∈ state.stashes, state'.live elm = state.live elm) :
    state'.unpurgedPages purge = state.unpurgedPages purge := by
  refine congrArg List.sum (List.map_congr_left fun page unpurged => ?_)
  rw [pages, pages, keeps _ (mem_stashes member ((stashing.order purge member).subset unpurged))]

/-- A step that leaves the stashed runs alone leaves the purging threads alone. -/
theorem Purging.frame (purging : state.Purging) (purges : state'.purges = state.purges)
    (npurgatory : state'.arena.npurgatory = state.arena.npurgatory)
    (keeps : ∀ elm ∈ state.stashes, state'.live elm = state.live elm) : state'.Purging := by
  have stashes : state'.stashes = state.stashes := by rw [ArenaState.stashes, purges]; rfl
  refine ⟨⟨?_, ?_, ?_, ?_⟩, ?_⟩
  · intro elm member
    rw [stashes] at member
    rw [keeps elm member]
    exact purging.live elm member
  · rw [stashes]
    exact purging.nodup
  · rw [purges]
    exact purging.order
  · intro purge member
    rw [purges] at member
    rw [purging.toStashing.unpurgedPages_congr member keeps]
    exact purging.enough purge member
  · rw [npurgatory, ArenaState.promised, purges]
    exact purging.promised

theorem keeps_update (notStashed : elm ∉ state.stashes) (value : Option (Nat × RunUse)) :
    ∀ other ∈ state.stashes, Function.update state.live elm value other = state.live other := by
  intro other member
  refine Function.update_of_ne ?_ _ _
  rintro rfl
  exact notStashed member

namespace Related

theorem located (related : Related g state map) (has : state.Has elm use) :
    ∃ before dirty after, Located g map elm before ⟨state.pages elm, use, dirty⟩ after ∧
      (⟨state.pages elm, use, dirty⟩ : Run).inUse = true ∧ elm ∉ state.stashes := by
  obtain ⟨isLive, notStashed⟩ := has
  obtain ⟨⟨n, use'⟩, live, rfl⟩ := Option.map_eq_some_iff.mp isLive
  have size : state.pages elm = n := by simp [pages, live]
  rw [related.live] at live
  obtain ⟨before, dirty, after, located, inUse⟩ := RunMap.exists_located live
  rw [← size] at located inUse
  exact ⟨before, dirty, after, located, inUse, notStashed⟩

theorem live_large (has : state.Has elm .large) : ∃ n, state.live elm = some (n, .large) := by
  obtain ⟨⟨n, use⟩, live, rfl⟩ := Option.map_eq_some_iff.mp has.1
  exact ⟨n, live⟩

theorem not_stashed (related : Related g state map) (idle : map.live g elm = none) :
    elm ∉ state.stashes := by
  intro member
  obtain ⟨n, live⟩ := related.purging.live elm member
  rw [related.live, idle] at live
  cases live

/-- A step of a caller. -/
theorem edited (related : Related g state map) (purges : state'.purges = state.purges)
    (npurgatory : state'.arena.npurgatory = state.arena.npurgatory)
    (keeps : ∀ elm ∈ state.stashes, state'.live elm = state.live elm)
    (sound : Sound g map' (state'.huge + state'.lost) state'.arena)
    (owned : state'.owned = map'.owned) (live : state'.live = map'.live g)
    (aligned : ∀ c ∈ state'.owned, c ∈ state.owned ∨
      g.chunkNpages ∣ c ∧ c + g.chunkNpages ≤ addressPages) : Related g state' map' where
  sound := sound
  owned := owned
  live := live
  aligned := fun c member => (aligned c member).elim (related.aligned c) id
  purging := related.purging.frame purges npurgatory keeps

/-! ### Allocation -/

section Allocation

variable {need : Nat} {outcome : Arena.Outcome} {arena : Arena}
  {split : Arena → MapElm → Option Arena}

/-- `arena_run_alloc_large` and `arena_run_alloc_small`. -/
theorem allocates (related : Related g state map)
    (inUse : ∀ dirty, (⟨need, use, dirty⟩ : Run).inUse = true) (splits : Splits g split need use)
    (fits : need ≤ g.maxPages) (shape : Nat) :
    ∃ result map' outcome, state.arena.runAlloc g split need shape = some result ∧
      RunMap.Allocates g need use map map' outcome ∧
      Related g (state.allocated need use result) map' := by
  obtain ⟨arena, map', outcome, result, allocates, sound, npurgatory⟩ :=
    related.sound.runAlloc inUse splits fits shape
  refine ⟨(arena, outcome), map', outcome, result, allocates, ?_⟩
  have nonempty := related.sound.nonempty
  have live := allocates.live fits (fun c spare => (related.sound.spareHeld c spare).1) nonempty
    inUse
  rw [← related.live] at live
  have owned := related.owned.trans allocates.owned.symm
  cases outcome with
  | run elm =>
      exact related.edited rfl npurgatory
        (keeps_update (related.not_stashed (allocates.idle nonempty)) _) sound owned live.symm
        fun c member => Or.inl member
  | none =>
      exact related.edited rfl npurgatory (fun _ _ => rfl) sound owned live.symm
        fun c member => Or.inl member
  | needsChunk =>
      exact related.edited rfl npurgatory (fun _ _ => rfl) sound owned live.symm
        fun c member => Or.inl member

/-- The rest of an allocation that asked for a chunk. -/
theorem resumes (related : Related g state map)
    (inUse : ∀ dirty, (⟨need, use, dirty⟩ : Run).inUse = true) (splits : Splits g split need use)
    (fits : need ≤ g.maxPages) (shape : Nat) {fresh : Option Arena.FreshChunk}
    (new : ∀ chunk ∈ fresh, state.Fresh g chunk) :
    ∃ result map' outcome, state.arena.runAllocResumed g split need shape fresh = some result ∧
      RunMap.Resumes g need use map (fresh.map Arena.FreshChunk.chunk) map' outcome ∧
      Related g ((state.adopted fresh).allocated need use result) map' := by
  obtain ⟨arena, map', outcome, result, resumes, sound, npurgatory⟩ :=
    related.sound.runAllocResumed inUse splits fits shape fresh
      (fun chunk isFresh => related.owned ▸ (new chunk isFresh).1)
      (fun chunk isFresh => (new chunk isFresh).2.2.2)
  refine ⟨(arena, outcome), map', outcome, result, resumes, ?_⟩
  have nonempty := related.sound.nonempty
  have live := resumes.live fits nonempty inUse
  rw [← related.live] at live
  have owned : (state.adopted fresh).owned = map'.owned := by
    rw [resumes.owned, ← related.owned]
    rfl
  have aligned : ∀ c ∈ (state.adopted fresh).owned, c ∈ state.owned ∨
      g.chunkNpages ∣ c ∧ c + g.chunkNpages ≤ addressPages := by
    intro c member
    rcases Finset.mem_union.mp member with old | isNew
    · exact Or.inl old
    · obtain ⟨chunk, isFresh, rfl⟩ := Option.map_eq_some_iff.mp (Option.mem_toFinset.mp isNew)
      exact Or.inr ⟨(new chunk isFresh).2.1, (new chunk isFresh).2.2.1⟩
  cases outcome with
  | run elm =>
      exact related.edited rfl npurgatory
        (keeps_update (related.not_stashed (resumes.idle nonempty)) _) sound owned live.symm aligned
  | none => exact related.edited rfl npurgatory (fun _ _ => rfl) sound owned live.symm aligned
  | needsChunk => exact related.edited rfl npurgatory (fun _ _ => rfl) sound owned live.symm aligned

end Allocation

/-! ### Freeing and resizing -/

section Runs

variable {before after : List Run} {n : Nat} {dirty : Bool} {arena : Arena} {given : Option Nat}

/-- A caller's run has been freed. -/
theorem freed (related : Related g state map) (notStashed : elm ∉ state.stashes)
    (sound : Sound g map' (state.huge + state.lost) arena)
    (npurgatory : arena.npurgatory = state.arena.npurgatory)
    (live : map'.live g = Function.update (map.live g) elm none)
    (owned : map'.owned = map.owned \ given.toList.toFinset) :
    Related g (state.freed (Function.update state.live elm none) arena given.toList) map' := by
  refine related.edited rfl npurgatory (keeps_update notStashed _) sound ?_ ?_ fun c member => ?_
  · exact owned ▸ related.owned ▸ rfl
  · exact live ▸ related.live ▸ rfl
  · exact Or.inl (Finset.mem_sdiff.mp member).1

/-- A caller's run has been cut or has grown. -/
theorem resized (related : Related g state map) (notStashed : elm ∉ state.stashes)
    {layout : List Run} {value : Option (Nat × RunUse)}
    (sound : Sound g (map.put elm.chunk layout) (state.huge + state.lost) arena)
    (npurgatory : arena.npurgatory = state.arena.npurgatory)
    (live : (map.put elm.chunk layout).live g = Function.update (map.live g) elm value) :
    Related g (state.freed (Function.update state.live elm value) arena [])
      (map.put elm.chunk layout) := by
  refine related.edited rfl npurgatory (keeps_update notStashed _) sound ?_ ?_ fun c member => ?_
  · simpa [ArenaState.freed, RunMap.put] using related.owned
  · exact live ▸ related.live ▸ rfl
  · exact Or.inl (Finset.mem_sdiff.mp member).1

theorem dallocLarge (related : Related g state map) (has : state.Has elm .large) :
    ∃ state' map', state.step g (.dallocLarge elm) = some state' ∧
      RunMap.Performs g map (.dallocLarge elm) map' ∧ Related g state' map' := by
  obtain ⟨before, dirty, after, located, inUse, notStashed⟩ := related.located has
  obtain ⟨arena, map', given, result, frees, sound, npurgatory, live, owned⟩ :=
    related.sound.runDalloc located inUse true false
  exact ⟨_, map', by simp [ArenaState.step, result], .dallocLarge located frees,
    related.freed notStashed sound npurgatory live owned⟩

theorem dallocBin (related : Related g state map) {binind used : Nat}
    (has : state.Has elm (.small binind)) (positive : 0 < used) :
    ∃ state' map', state.step g (.dallocBin elm used) = some state' ∧
      RunMap.Performs g map (.dallocBin elm used) map' ∧ Related g state' map' := by
  obtain ⟨before, dirty, after, located, inUse, notStashed⟩ := related.located has
  obtain ⟨arena, map', given, result, frees, sound, npurgatory, live, owned⟩ :=
    related.sound.dallocBinRun located positive
  exact ⟨_, map', by simp [ArenaState.step, result], .dallocBin located frees,
    related.freed notStashed sound npurgatory live owned⟩

/-- The size of a run divided into two parts. -/
theorem exists_parts (smaller : n < state.pages elm)
    (located : Located g map elm before ⟨state.pages elm, use, dirty⟩ after) :
    ∃ rest, 0 < rest ∧ state.pages elm = n + rest ∧
      Located g map elm before ⟨n + rest, use, dirty⟩ after := by
  refine ⟨state.pages elm - n, by omega, by omega, ?_⟩
  rw [Nat.add_sub_cancel' smaller.le]
  exact located

theorem trimHead (related : Related g state map) (has : state.Has elm .large) (positive : 0 < n)
    (smaller : n < state.pages elm) :
    ∃ state' map', state.step g (.trimHead elm n) = some state' ∧
      RunMap.Performs g map (.trimHead elm n) map' ∧ Related g state' map' := by
  obtain ⟨before, dirty, after, located, -, notStashed⟩ := related.located has
  obtain ⟨first, firstPositive, size, located⟩ := exists_parts smaller located
  rw [Nat.add_comm] at size located
  obtain ⟨arena, result, sound, npurgatory, live⟩ :=
    related.sound.runTrimHead located firstPositive positive
  have notLive := located.idle_inside (related.sound.nonempty _ located.owns) firstPositive
    (by simp only; omega)
  have head : state.pages elm - n = first := by omega
  refine ⟨state.freed (Function.update (Function.update state.live elm none)
    ⟨elm.chunk, elm.pageind + first⟩ (some (n, .large))) arena [], _,
    by simp [ArenaState.step, result, size], .trimHead located, ?_⟩
  refine related.edited rfl npurgatory (fun other member => ?_) sound ?_ ?_ fun c member => ?_
  · have apart : other ≠ ⟨elm.chunk, elm.pageind + first⟩ := by
      rintro rfl
      exact related.not_stashed notLive member
    have same := keeps_update notStashed none other member
    simpa [ArenaState.freed, apart] using same
  · simpa [ArenaState.freed, RunMap.put] using related.owned
  · simpa [ArenaState.freed, related.live] using live.symm
  · exact Or.inl (Finset.mem_sdiff.mp member).1

theorem trimTail (related : Related g state map) (has : state.Has elm .large) (positive : 0 < n)
    (smaller : n < state.pages elm) :
    ∃ state' map', state.step g (.trimTail elm n) = some state' ∧
      RunMap.Performs g map (.trimTail elm n) map' ∧ Related g state' map' := by
  obtain ⟨before, dirty, after, located, -, notStashed⟩ := related.located has
  obtain ⟨rest, restPositive, size, located⟩ := exists_parts smaller located
  obtain ⟨arena, result, sound, npurgatory, live⟩ :=
    related.sound.runTrimTail located positive restPositive false
  exact ⟨_, _, by simp [ArenaState.step, size, result], .trimTail located,
    related.resized notStashed sound npurgatory live⟩

theorem shrink (related : Related g state map) (has : state.Has elm .large) (positive : 0 < n)
    (smaller : n < state.pages elm) :
    ∃ state' map', state.step g (.shrink elm n) = some state' ∧
      RunMap.Performs g map (.shrink elm n) map' ∧ Related g state' map' := by
  obtain ⟨before, dirty, after, located, -, notStashed⟩ := related.located has
  obtain ⟨rest, restPositive, size, located⟩ := exists_parts smaller located
  obtain ⟨arena, result, sound, npurgatory, live⟩ :=
    related.sound.runTrimTail located positive restPositive true
  have shrunk : state.arena.rallocLargeShrink g elm.chunk elm.pageind (n + rest) n =
      some (arena, none, true) := by
    unfold Arena.rallocLargeShrink
    rw [check_eq_some (by omega)]
    exact result
  exact ⟨_, _, by simp [ArenaState.step, size, shrunk], .shrink located,
    related.resized notStashed sound npurgatory live⟩

theorem grow (related : Related g state map) (has : state.Has elm .large) {pages extra : Nat}
    (more : state.pages elm < pages + extra) :
    ∃ state' map', state.step g (.grow elm pages extra) = some state' ∧
      RunMap.Performs g map (.grow elm pages extra) map' ∧ Related g state' map' := by
  obtain ⟨before, dirty, after, located, -, notStashed⟩ := related.located has
  obtain ⟨arena, failed, result, outcome⟩ := related.sound.rallocLargeGrow located more
  cases failed with
  | true =>
      obtain ⟨rfl, impossible⟩ := outcome
      obtain ⟨n, isLive⟩ := live_large has
      have size := related.sound.largeSizeGet (related.live ▸ isLive)
      have same : Function.update state.live elm (some (n, .large)) = state.live := by
        rw [← isLive, Function.update_eq_self]
      exact ⟨state, map, by simp [ArenaState.step, result, size, same],
        .cannotGrow located impossible, related⟩
  | false =>
      obtain ⟨grown, n, possible, sound, npurgatory, live⟩ := outcome
      have size := sound.largeSizeGet (live ▸ Function.update_self _ _ _)
      refine ⟨{ state with arena, live := Function.update state.live elm (some (n, .large)) }, _,
        by simp [ArenaState.step, result, size], .grow located possible, ?_⟩
      exact related.edited rfl npurgatory (keeps_update notStashed _) sound related.owned
        (live ▸ related.live ▸ rfl) fun c member => Or.inl member

end Runs

end Related

end ArenaState

end Jemalloc
end Vmem
