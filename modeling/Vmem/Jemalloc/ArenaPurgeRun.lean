import Vmem.Jemalloc.ArenaRun
import Mathlib.Algebra.Group.Action.Defs

/-!
# Runs of the purging threads

A thread that purges stashes runs of its own and frees them later, and `npurgatory` stays
the sum of what the threads have promised.  Sums of machine words wrap, and a thread may
promise less than nothing for a while.
-/

namespace Vmem
namespace Jemalloc

variable {g : Geometry} {state state' : ArenaState} {map map' : RunMap} {others : Nat}
  {arena arena' : Arena} {c : Nat}

/-! ## The next chunk -/

namespace Sound

/-- A chunk in the tree of dirty chunks has dirty free pages, and is not the spare one. -/
theorem of_mem_dirty (sound : Sound g map others arena) (member : c ∈ arena.chunksDirty) :
    c ∈ map.owned ∧ (arena.chunks c).ndirty = dirtyOf (map.layouts c) ∧
      dirtyOf (map.layouts c) ≠ 0 ∧ map.spare ≠ some c := by
  obtain ⟨owns, dirty⟩ := (sound.books.mem_dirty c).mp member
  refine ⟨owns, (sound.books.chunk c owns).counts.ndirty, dirty, fun isSpare => ?_⟩
  obtain ⟨-, isDirty, held⟩ := sound.spareHeld c isSpare
  rw [held] at dirty
  simp [wholeRun, Run.dirtyPages, Run.isFree] at dirty

/-- The number of pages to be purged matters to no book. -/
theorem promise (sound : Sound g map others arena) (npurgatory : Nat) :
    Sound g map others { arena with npurgatory } :=
  ⟨sound.books.unrelated arena.spare npurgatory, sound.spare, sound.spareHeld, sound.settled,
    sound.notWhole⟩

end Sound

/-- What `Arena.purgeNext` does: the thread is done, or it has stashed runs of a chunk. -/
inductive PurgesNext (g : Geometry) (map : RunMap) (promised : Nat) (arena : Arena) :
    Option Purge → RunMap → Prop
  | done (npurgatory : arena.npurgatory = promised % Word.modulus) :
      PurgesNext g map promised arena none map
  | goes (purge : Purge) {layout : List Run} (owns : purge.chunk ∈ map.owned)
      (stashed : Stashed g.mapBias (map.layouts purge.chunk) layout purge.mapelms)
      (nonempty : purge.mapelms ≠ []) (apart : nadjac layout = 0)
      (unpurged : purge.unpurged = purge.mapelms) (npurged : purge.npurged = 0)
      (npurgeable : purge.npurgeable = dirtyOf (map.layouts purge.chunk))
      (npurgatory : arena.npurgatory = (promised + purge.npurgatory) % Word.modulus) :
      PurgesNext g map promised arena (some purge) (map.put purge.chunk layout)

namespace Sound

/-- The thread goes on to the first dirty chunk, if it has promised to purge more. -/
theorem purgeNext (sound : Sound g map others arena) (all : Bool) {promised npurgatory : Nat}
    (known : arena.npurgatory = (promised + npurgatory) % Word.modulus) :
    ∃ arena' purge map', arena.purgeNext g all npurgatory = some (arena', purge) ∧
      PurgesNext g map promised arena' purge map' ∧ Sound g map' others arena' := by
  by_cases finished : npurgatory = 0
  · refine ⟨arena, none, map, ?_, .done (by rw [known, finished, Nat.add_zero]), sound⟩
    rw [Arena.purgeNext, if_pos finished]
  cases tree : arena.chunksDirty with
  | nil =>
      refine ⟨{ arena with npurgatory := Word.sub arena.npurgatory npurgatory }, none, map, ?_,
        .done ?_, sound.promise _⟩
      · simp [Arena.purgeNext, finished, tree]
      · simp only [known, Word.sub_add_mod]
  | cons c rest =>
      obtain ⟨owns, counted, dirty, notSpare⟩ := sound.of_mem_dirty (tree ▸ List.mem_cons_self)
      have header := (sound.books.chunk c owns).counts
      generalize isRaised : Arena.raised (arena.chunks c) npurgatory = raised
      have le : npurgatory ≤ raised := by
        rw [← isRaised, Arena.raised]
        split <;> omega
      obtain ⟨arena', layout, pages, result, stashed, apart, clean, newSound, npurgatory'⟩ :=
        (sound.promise (Word.sub (Word.add arena.npurgatory (raised - npurgatory))
          (arena.chunks c).ndirty)).chunkStashDirty owns notSpare
          (all || (arena.chunks c).nrunsAdjac = 0)
      have computed : arena.purgeNext g all npurgatory = some (arena', some
          { all
            npurgatory := Word.sub raised (arena.chunks c).ndirty
            npurgeable := (arena.chunks c).ndirty
            npurged := 0
            chunk := c
            unpurged := pages
            mapelms := pages }) := by
        have notSpare : arena.spare ≠ some c := sound.spare ▸ notSpare
        have nonzero : (arena.chunks c).ndirty ≠ 0 := counted ▸ dirty
        simp only [Arena.purgeNext, if_neg finished, tree]
        rw [check_eq_some nonzero]
        simp only [Option.bind_eq_bind, Option.bind_some, isRaised, Arena.chunkUnspare]
        rw [if_neg notSpare]
        simp only [Option.bind_some]
        rw [← tree, result]
        rfl
      refine ⟨arena', _, _, computed, .goes _ owns stashed ?_ apart rfl rfl counted ?_, newSound⟩
      · rintro rfl
        have same := stashed.eq_of_nil rfl
        rw [same] at apart clean
        refine dirty (clean ?_)
        simp [header.nrunsAdjac, apart]
      · simp only [npurgatory', known]
        rw [Word.add_mod_add, Word.sub_mod_add, Word.add, Nat.add_sub_cancel' le, Word.mod_sub]

end Sound

/-! ## A thread begins with a chunk -/

namespace ArenaState

variable {purge : Purge} {page : Nat}

/-- What threads have stashed since was free before. -/
def StashesIdle (state state' : ArenaState) : Prop :=
  ∀ elm ∈ state'.stashes, elm ∈ state.stashes ∨ state.live elm = none

/-- Whether the thread is done or has stashed runs, the state is that of a run map. -/
theorem related_purging (stashing : state.Stashing) (owned : state.owned = map.owned)
    (live : state.live = map.live g)
    (aligned : ∀ c ∈ state.owned, g.chunkNpages ∣ c ∧ c + g.chunkNpages ≤ addressPages)
    (nonempty : ∀ c ∈ map.owned, NonemptyRuns (map.layouts c)) {next : Option Purge}
    (purges : PurgesNext g map state.promised arena next map')
    (sound : Sound g map' (state.huge + state.lost) arena) :
    Related g (state.purging (arena, next)) map' ∧ RunMap.Stashes g map map' ∧
      StashesIdle state (state.purging (arena, next)) := by
  cases purges with
  | done npurgatory =>
      exact ⟨⟨sound, owned, live, aligned,
        ⟨⟨stashing.live, stashing.nodup, stashing.order, stashing.enough⟩, npurgatory⟩⟩, .idle,
        fun elm member => Or.inl member⟩
  | @goes purge layout owns stashed nonemptyPages apart unpurged npurged npurgeable npurgatory =>
      have runs := nonempty _ owns
      have stashedLive : ∀ page ∈ purge.mapelms,
          map.live g ⟨purge.chunk, page⟩ = none ∧
            ∃ n, (map.put purge.chunk layout).live g ⟨purge.chunk, page⟩ = some (n, .large) := by
        intro page member
        obtain ⟨idle, n, isLive⟩ := stashed.live_of_mem runs member
        refine ⟨by simp [RunMap.live, owns, idle], n, ?_⟩
        simp [RunMap.live, RunMap.put, owns, isLive]
      have newLive : (state.purging (arena, some purge)).live =
          (map.put purge.chunk layout).live g := by
        funext elm
        obtain ⟨chunk, page⟩ := elm
        by_cases same : chunk = purge.chunk ∧ page ∈ purge.mapelms
        · obtain ⟨rfl, member⟩ := same
          obtain ⟨-, n, isLive⟩ := stashedLive page member
          have size := sound.largeSizeGet isLive
          simp only at size
          simp [ArenaState.purging, member, size, isLive]
        · have old : (state.purging (arena, some purge)).live ⟨chunk, page⟩ =
              state.live ⟨chunk, page⟩ := if_neg same
          rw [old, live]
          by_cases here : chunk = purge.chunk
          · subst here
            have other : page ∉ purge.mapelms := fun member => same ⟨rfl, member⟩
            simp [RunMap.live, RunMap.put, owns, stashed.live_of_notMem other]
          · simp [RunMap.live, RunMap.put, here]
      have fresh : ∀ elm ∈ state.stashes,
          ¬(elm.chunk = purge.chunk ∧ elm.pageind ∈ purge.mapelms) := by
        rintro ⟨chunk, page⟩ member ⟨rfl, isNew⟩
        obtain ⟨n, isLive⟩ := stashing.live _ member
        rw [live, (stashedLive page isNew).1] at isLive
        cases isLive
      have keeps : ∀ elm ∈ state.stashes,
          (state.purging (arena, some purge)).live elm = state.live elm :=
        fun elm member => if_neg (fresh elm member)
      have stashes : (state.purging (arena, some purge)).stashes =
          state.stashes ++ purge.mapelms.map fun page => ⟨purge.chunk, page⟩ := by
        simp [ArenaState.stashes, ArenaState.purging]
      refine ⟨⟨sound, owned, newLive, aligned, ⟨⟨?_, ?_, ?_, ?_⟩, ?_⟩⟩,
        .stashed owns stashed nonemptyPages apart, ?_⟩
      · intro elm member
        rw [stashes, List.mem_append] at member
        rcases member with old | isNew
        · rw [keeps elm old]
          exact stashing.live elm old
        · obtain ⟨page, inPages, rfl⟩ := List.mem_map.mp isNew
          rw [newLive]
          exact (stashedLive page inPages).2
      · rw [stashes]
        refine stashing.nodup.append ((stashed.nodup runs).map fun left right same => ?_) ?_
        · exact congrArg MapElm.pageind same
        · intro elm old isNew
          obtain ⟨page, inPages, rfl⟩ := List.mem_map.mp isNew
          exact fresh _ old ⟨rfl, inPages⟩
      · intro other member
        rcases List.mem_append.mp member with old | isNew
        · exact stashing.order other old
        · rw [List.mem_singleton.mp isNew, unpurged]
      · intro other member
        rcases List.mem_append.mp member with old | isNew
        · rw [stashing.unpurgedPages_congr old keeps]
          exact stashing.enough other old
        · rw [List.mem_singleton.mp isNew]
          have pages : (state.purging (arena, some purge)).unpurgedPages purge =
              livePages g.mapBias layout purge.mapelms := by
            rw [unpurgedPages, livePages, unpurged]
            refine congrArg List.sum (List.map_congr_left fun page _ => ?_)
            rw [ArenaState.pages, newLive]
            simp [RunMap.live, RunMap.put, owns]
          have dirty := stashed.dirtyOf_eq runs
          omega
      · simpa [ArenaState.promised, ArenaState.purging] using npurgatory
      · intro elm member
        rw [stashes, List.mem_append] at member
        refine member.imp_right fun isNew => ?_
        obtain ⟨page, inPages, rfl⟩ := List.mem_map.mp isNew
        rw [live]
        exact (stashedLive page inPages).1

end ArenaState

/-! ## How many pages there are -/

/-- Aligned pieces of an interval are not longer than it. -/
theorem card_mul_le {unit limit : Nat} (positive : 0 < unit) {chunks : Finset Nat}
    (aligned : ∀ c ∈ chunks, unit ∣ c ∧ c + unit ≤ limit) : chunks.card * unit ≤ limit := by
  have injective : Set.InjOn (· / unit) (chunks : Set Nat) := by
    intro left leftMember right rightMember same
    rw [← Nat.div_mul_cancel (aligned left leftMember).1,
      ← Nat.div_mul_cancel (aligned right rightMember).1]
    exact congrArg (· * unit) same
  have inside : ∀ c ∈ chunks, c / unit ∈ Finset.range (limit / unit) := by
    intro c member
    obtain ⟨divides, fits⟩ := aligned c member
    rw [Finset.mem_range, Nat.lt_iff_add_one_le, Nat.le_div_iff_mul_le positive, Nat.add_mul,
      Nat.div_mul_cancel divides, Nat.one_mul]
    exact fits
  have few := Finset.card_le_card_of_injOn _ inside injective
  rw [Finset.card_range] at few
  exact (Nat.mul_le_mul_right unit few).trans (Nat.div_mul_le_self limit unit)

theorem dirtyOf_le_pagesOf (layout : List Run) : dirtyOf layout ≤ pagesOf layout := by
  induction layout with
  | nil => exact le_rfl
  | cons run rest inductionHypothesis =>
      have one : run.dirtyPages ≤ run.pages := by
        unfold Run.dirtyPages
        split <;> omega
      rw [dirtyOf_cons, pagesOf_cons]
      omega

namespace ArenaState

namespace Related

/-- The dirty pages of an arena are not more than there are addresses. -/
theorem ndirty_le (related : Related g state map) : state.arena.ndirty ≤ addressPages := by
  have positive : 0 < g.chunkNpages := by
    have := g.mapBias_lt
    omega
  have few := card_mul_le positive related.aligned
  rw [related.owned] at few
  have sum := Finset.sum_le_card_nsmul map.owned (fun c => dirtyOf (map.layouts c)) g.chunkNpages
    fun c owns => by
      have covers := (related.sound.books.chunk c owns).covers
      have := dirtyOf_le_pagesOf (map.layouts c)
      omega
  rw [← related.sound.books.ndirty, smul_eq_mul] at sum
  exact sum.trans few

/-- The pages that the tree of dirty chunks knows of are all dirty pages. -/
theorem dirtySum_eq (related : Related g state map) :
    state.arena.dirtySum = state.arena.ndirty := by
  have books := related.sound.books
  have counted : (state.arena.chunksDirty.map fun c => (state.arena.chunks c).ndirty) =
      state.arena.chunksDirty.map fun c => dirtyOf (map.layouts c) :=
    List.map_congr_left fun c member => (related.sound.of_mem_dirty member).2.1
  rw [Arena.dirtySum, counted, ← List.sum_toFinset _ books.dirtySorted.nodup, books.ndirty]
  refine Finset.sum_subset (fun c member => ?_) fun c owns clean => ?_
  · exact ((books.mem_dirty c).mp (List.mem_toFinset.mp member)).1
  · by_contra dirty
    exact clean (List.mem_toFinset.mpr ((books.mem_dirty c).mpr ⟨owns, dirty⟩))

/-- `arena_purge` finds what it asserts, and begins with a chunk. -/
theorem purge (related : Related g state map) (all : Bool)
    (enough : state.arena.npurgatory < state.arena.ndirty ∧
      state.arena.threshold g < state.arena.ndirty - state.arena.npurgatory ∨ all = true) :
    ∃ result map', state.arena.purge g all = some result ∧
      Related g (state.purging result) map' ∧ RunMap.Stashes g map map' ∧
      StashesIdle state (state.purging result) := by
  have fits : state.arena.ndirty < Word.modulus :=
    related.ndirty_le.trans_lt (by rw [addressPages, Word.modulus_eq]; omega)
  have dirty : ∀ c ∈ state.arena.chunksDirty, (state.arena.chunks c).ndirty ≠ 0 :=
    fun c member => (related.sound.of_mem_dirty member).2.1 ▸
      (related.sound.of_mem_dirty member).2.2.1
  have some_ : state.arena.npurgatory < state.arena.ndirty ∨ all = true := enough.imp_left And.left
  have many : state.arena.threshold g < Word.sub state.arena.ndirty state.arena.npurgatory ∨
      all = true := enough.imp_left fun both => by
    rw [Word.sub_eq both.1.le fits]
    exact both.2
  have known : Word.add state.arena.npurgatory (state.arena.computeNpurgatory g all) =
      (state.promised + state.arena.computeNpurgatory g all) % Word.modulus := by
    rw [related.purging.promised, Word.add, Nat.mod_add_mod]
  obtain ⟨arena', next, map', result, purges, sound⟩ :=
    (related.sound.promise _).purgeNext all known
  obtain ⟨newRelated, stashes⟩ := related_purging related.purging.toStashing related.owned
    related.live related.aligned related.sound.nonempty purges sound
  refine ⟨(arena', next), map', ?_, newRelated, stashes⟩
  unfold Arena.purge
  rw [check_eq_some dirty, check_eq_some related.dirtySum_eq, check_eq_some some_,
    check_eq_some many]
  exact result

theorem maybePurge (related : Related g state map) :
    ∃ state' map', state.step g .maybePurge = some state' ∧
      RunMap.Performs g map .maybePurge map' ∧ Related g state' map' ∧
      StashesIdle state state' := by
  have idle (result : state.arena.maybePurge g = some (state.arena, none)) :
      ∃ state' map', state.step g .maybePurge = some state' ∧
        RunMap.Performs g map .maybePurge map' ∧ Related g state' map' ∧
        StashesIdle state state' :=
    ⟨state, map, by simp [ArenaState.step, result, ArenaState.purging], .maybePurge .idle, related,
      fun elm member => Or.inl member⟩
  by_cases disabled : g.lgDirtyMult < 0
  · exact idle (if_pos disabled)
  by_cases promised : state.arena.ndirty ≤ state.arena.npurgatory
  · exact idle (by rw [Arena.maybePurge, if_neg disabled, if_pos promised])
  by_cases few : state.arena.ndirty - state.arena.npurgatory ≤ state.arena.threshold g
  · exact idle (by rw [Arena.maybePurge, if_neg disabled, if_neg promised, if_pos few])
  obtain ⟨result, map', purges, newRelated, stashes, free⟩ :=
    related.purge false (Or.inl ⟨by omega, by omega⟩)
  have begins : state.arena.maybePurge g = some result := by
    rw [Arena.maybePurge, if_neg disabled, if_neg promised, if_neg few, purges]
  exact ⟨_, map', by simp [ArenaState.step, begins], .maybePurge stashes, newRelated, free⟩

theorem purgeAll (related : Related g state map) :
    ∃ state' map', state.step g .purgeAll = some state' ∧
      RunMap.Performs g map .purgeAll map' ∧ Related g state' map' ∧
      StashesIdle state state' := by
  obtain ⟨result, map', purges, newRelated, stashes, free⟩ := related.purge true (Or.inr rfl)
  exact ⟨_, map', by simp [ArenaState.step, purges], .purgeAll stashes, newRelated, free⟩

end Related

end ArenaState

/-! ## A thread goes on -/

namespace ArenaState

variable {front back : List Purge} {purge next : Purge} {thread : Nat} {elm : MapElm}

/-- The runs that a thread has stashed. -/
def stashOf (purge : Purge) : List MapElm := purge.mapelms.map fun page => ⟨purge.chunk, page⟩

theorem exists_thread (isThread : state.purges[thread]? = some purge) :
    ∃ front back, state.purges = front ++ purge :: back ∧
      (∀ next, state.purges.set thread next = front ++ next :: back) ∧
      state.purges.eraseIdx thread = front ++ back := by
  generalize state.purges = purges at isThread
  induction purges generalizing thread with
  | nil => simp at isThread
  | cons first rest inductionHypothesis =>
      cases thread with
      | zero =>
          rw [List.getElem?_cons_zero] at isThread
          obtain rfl := Option.some.inj isThread
          exact ⟨[], rest, rfl, fun _ => rfl, rfl⟩
      | succ thread =>
          rw [List.getElem?_cons_succ] at isThread
          obtain ⟨front, back, split, set, erase⟩ := inductionHypothesis isThread
          exact ⟨first :: front, back, by rw [split]; rfl,
            fun next => by rw [List.set_cons_succ, set]; rfl,
            by rw [List.eraseIdx_cons_succ, erase]; rfl⟩

theorem stashes_append (purges : state.purges = front ++ purge :: back) :
    state.stashes = front.flatMap stashOf ++ (stashOf purge ++ back.flatMap stashOf) := by
  rw [ArenaState.stashes, purges, List.flatMap_append, List.flatMap_cons]
  rfl

/-- Threads that keep some of their stashed runs. -/
theorem Stashing.sublist (stashing : state.Stashing)
    (fewer : state'.stashes.Sublist state.stashes)
    (keeps : ∀ elm ∈ state'.stashes, state'.live elm = state.live elm)
    (threads : ∀ other ∈ state'.purges, other ∈ state.purges ∨ other.unpurged <:+ other.mapelms ∧
      other.npurged + state'.unpurgedPages other ≤ other.npurgeable) : state'.Stashing := by
  refine ⟨fun elm member => ?_, stashing.nodup.sublist fewer, fun other member => ?_,
    fun other member => ?_⟩
  · rw [keeps elm member]
    exact stashing.live elm (fewer.subset member)
  · exact (threads other member).elim (stashing.order other) And.left
  · rcases threads other member with old | new
    · have same : state'.unpurgedPages other = state.unpurgedPages other := by
        refine congrArg List.sum (List.map_congr_left fun page unpurged => ?_)
        rw [pages, pages, keeps _ (mem_stashes member ((stashing.order other old).subset unpurged))]
      rw [same]
      exact stashing.enough other old
    · exact new.2

namespace Related

/-- A run that a thread has stashed. -/
theorem stashed_located (related : Related g state map) {page : Nat}
    (member : purge ∈ state.purges) (stashed : page ∈ purge.mapelms) :
    ∃ before n dirty after, Located g map ⟨purge.chunk, page⟩ before ⟨n, .large, dirty⟩ after ∧
      state.pages ⟨purge.chunk, page⟩ = n := by
  obtain ⟨n, live⟩ := related.purging.live _ (mem_stashes member stashed)
  have size : state.pages ⟨purge.chunk, page⟩ = n := by simp [pages, live]
  rw [related.live] at live
  obtain ⟨before, dirty, after, located, -⟩ := RunMap.exists_located live
  exact ⟨before, n, dirty, after, located, size⟩

theorem purgeStashed (related : Related g state map) (isThread : state.purges[thread]? = some purge)
    (more : purge.unpurged ≠ []) (unzeroed : Bool) :
    ∃ state' map', state.step g (.purgeStashed thread unzeroed) = some state' ∧
      RunMap.Performs g map (.purgeStashed thread unzeroed) map' ∧ Related g state' map' := by
  have member := List.mem_of_getElem? isThread
  obtain ⟨page, rest, unpurged⟩ := List.exists_cons_of_ne_nil more
  have order := related.purging.order purge member
  rw [unpurged] at order
  obtain ⟨before, n, dirty, after, located, size⟩ :=
    related.stashed_located member (order.subset List.mem_cons_self)
  obtain ⟨arena', result, sound, npurgatory⟩ :=
    related.sound.purgeStashed unpurged located unzeroed
  obtain ⟨front, back, split, set, -⟩ := exists_thread isThread
  generalize isNext : ({ purge with npurged := purge.npurged + n, unpurged := rest } : Purge) = next
    at result
  have mapelms : next.chunk = purge.chunk ∧ next.mapelms = purge.mapelms := by
    rw [← isNext]
    exact ⟨rfl, rfl⟩
  have newPurges : ({ state with arena := arena' }.setPurge thread next).purges =
      front ++ next :: back := set next
  have stashes : ({ state with arena := arena' }.setPurge thread next).stashes = state.stashes := by
    rw [stashes_append newPurges, stashes_append split, stashOf, stashOf, mapelms.1, mapelms.2]
  refine ⟨{ state with arena := arena' }.setPurge thread next, map, ?_, .purgeStashed,
    ⟨sound, related.owned, related.live, related.aligned, ⟨related.purging.toStashing.sublist
      (by rw [stashes]) (fun _ _ => rfl) fun other isOther => ?_, ?_⟩⟩⟩
  · simp [ArenaState.step, isThread, result]
  · rw [newPurges] at isOther
    rcases List.mem_append.mp isOther with inFront | inBack
    · exact Or.inl (by rw [split]; exact List.mem_append_left _ inFront)
    · rcases List.mem_cons.mp inBack with rfl | inBack
      · refine Or.inr ?_
        have enough := related.purging.enough purge member
        rw [unpurgedPages, unpurged, List.map_cons, List.sum_cons, size] at enough
        rw [← isNext]
        refine ⟨(List.suffix_cons page rest).trans order, ?_⟩
        have same : ({ state with arena := arena' }.setPurge thread other).unpurgedPages
            { purge with npurged := purge.npurged + n, unpurged := rest } =
              (rest.map fun page => state.pages ⟨purge.chunk, page⟩).sum := rfl
        rw [isNext] at same ⊢
        rw [same, ← isNext]
        simp only
        omega
      · exact Or.inl (by
          rw [split]
          exact List.mem_append_right _ (List.mem_cons_of_mem _ inBack))
  · have sum : ({ state with arena := arena' }.setPurge thread next).promised = state.promised := by
      rw [ArenaState.promised, newPurges, ArenaState.promised, split, ← isNext]
      simp
    rw [sum]
    exact npurgatory.trans related.purging.promised

theorem unstashPurged (related : Related g state map)
    (isThread : state.purges[thread]? = some purge) (done : purge.unpurged = [])
    (more : purge.mapelms ≠ []) :
    ∃ state' map', state.step g (.unstashPurged thread) = some state' ∧
      RunMap.Performs g map (.unstashPurged thread) map' ∧ Related g state' map' := by
  have member := List.mem_of_getElem? isThread
  obtain ⟨page, rest, mapelms⟩ := List.exists_cons_of_ne_nil more
  have isStashed : page ∈ purge.mapelms := mapelms ▸ List.mem_cons_self
  obtain ⟨before, n, dirty, after, located, -⟩ := related.stashed_located member isStashed
  obtain ⟨arena', map', given, result, frees, sound, npurgatory, live, owned⟩ :=
    related.sound.runDalloc located rfl false true
  obtain ⟨front, back, split, set, -⟩ := exists_thread isThread
  generalize isState : ((state.freed (Function.update state.live ⟨purge.chunk, page⟩ none) arena'
    given.toList).setPurge thread { purge with mapelms := rest }) = state'
  have newPurges : state'.purges = front ++ { purge with mapelms := rest } :: back := by
    rw [← isState]
    exact set _
  have newLive : state'.live = Function.update state.live ⟨purge.chunk, page⟩ none := by
    rw [← isState]
    rfl
  have old : state.stashes = front.flatMap stashOf ++ ⟨purge.chunk, page⟩ ::
      (stashOf { purge with mapelms := rest } ++ back.flatMap stashOf) := by
    rw [stashes_append split, stashOf, mapelms]
    rfl
  have new := stashes_append newPurges
  have nodup := related.purging.nodup
  rw [old, List.nodup_middle, List.nodup_cons, ← new] at nodup
  have fewer : state'.stashes.Sublist state.stashes := by
    rw [old, new]
    exact (List.Sublist.refl _).append (List.sublist_cons_self _ _)
  have computed : state.step g (.unstashPurged thread) = some state' := by
    have freed : state.arena.unstashPurged g purge =
        some (arena', { purge with mapelms := rest }, given) := by
      unfold Arena.unstashPurged
      rw [mapelms]
      simp only [Option.bind_eq_bind, result, Option.bind_some]
    simp only [ArenaState.step, isThread, mapelms, List.head?_cons, freed, Option.bind_eq_bind,
      Option.bind_some, isState]
  refine ⟨state', map', computed, .unstashPurged located frees, ⟨?_, ?_, ?_, ?_,
    ⟨related.purging.toStashing.sublist fewer (fun elm isElm => ?_) fun other isOther => ?_, ?_⟩⟩⟩
  · rw [← isState]
    exact sound
  · rw [owned, ← related.owned, ← isState]
    rfl
  · rw [newLive, live, related.live]
  · intro c isOwned
    rw [← isState] at isOwned
    exact related.aligned c (Finset.mem_sdiff.mp isOwned).1
  · rw [newLive]
    refine Function.update_of_ne ?_ _ _
    rintro rfl
    exact nodup.1 isElm
  · rw [newPurges] at isOther
    rcases List.mem_append.mp isOther with inFront | inBack
    · exact Or.inl (by rw [split]; exact List.mem_append_left _ inFront)
    · rcases List.mem_cons.mp inBack with rfl | inBack
      · have enough := related.purging.enough purge member
        refine Or.inr ⟨by rw [done]; exact List.nil_suffix, ?_⟩
        rw [unpurgedPages, done, List.map_nil, List.sum_nil]
        exact (Nat.le_add_right _ _).trans enough
      · exact Or.inl (by
          rw [split]
          exact List.mem_append_right _ (List.mem_cons_of_mem _ inBack))
  · have sum : state'.promised = state.promised := by
      rw [ArenaState.promised, newPurges, ArenaState.promised, split]
      simp
    have same : state'.arena.npurgatory = arena'.npurgatory := by rw [← isState]; rfl
    rw [sum, same]
    exact npurgatory.trans related.purging.promised

theorem purgeAgain (related : Related g state map) (isThread : state.purges[thread]? = some purge)
    (done : purge.mapelms = []) :
    ∃ state' map', state.step g (.purgeAgain thread) = some state' ∧
      RunMap.Performs g map (.purgeAgain thread) map' ∧ Related g state' map' ∧
      StashesIdle state state' := by
  obtain ⟨front, back, split, -, erase⟩ := exists_thread isThread
  have newPurges : (state.dropPurge thread).purges = front ++ back := erase
  have stashes : (state.dropPurge thread).stashes = state.stashes := by
    rw [stashes_append split, stashOf, done, ArenaState.stashes, newPurges, List.flatMap_append]
    rfl
  have stashing : (state.dropPurge thread).Stashing :=
    related.purging.toStashing.sublist (by rw [stashes]) (fun _ _ => rfl) fun other isOther => by
      rw [newPurges] at isOther
      rw [split]
      rcases List.mem_append.mp isOther with inFront | inBack
      · exact Or.inl (List.mem_append_left _ inFront)
      · exact Or.inl (List.mem_append_right _ (List.mem_cons_of_mem _ inBack))
  have sum : state.promised = (state.dropPurge thread).promised + purge.npurgatory := by
    rw [ArenaState.promised, split, ArenaState.promised, newPurges]
    simp
    omega
  have known : Word.add state.arena.npurgatory (Word.sub purge.npurgeable purge.npurged) =
      ((state.dropPurge thread).promised +
        Word.add purge.npurgatory (Word.sub purge.npurgeable purge.npurged)) % Word.modulus := by
    rw [related.purging.promised, sum, Word.add_mod_add]
  obtain ⟨arena', next, map', result, purges, sound⟩ :=
    (related.sound.promise _).purgeNext purge.all known
  obtain ⟨newRelated, stashed, free⟩ := related_purging stashing related.owned
    related.live related.aligned related.sound.nonempty purges sound
  have again : state.arena.purgeAgain g purge = some (arena', next) := result
  refine ⟨_, map', by simp [ArenaState.step, isThread, again], .purgeAgain stashed, newRelated,
    fun elm member => ?_⟩
  rw [← stashes]
  exact free elm member

end Related

end ArenaState

end Jemalloc
end Vmem
