import Vmem.Jemalloc.ArenaPurgeRun
import Mathlib.Algebra.BigOperators.Intervals
import Mathlib.Logic.Relation

/-!
# An arena and its threads

Whatever the threads of an arena do, the arena goes through the states of a run map: every
critical section that the program order permits ends without a failed assertion and performs
an operation on the runs.
-/

namespace Vmem
namespace Jemalloc

variable {g : Geometry} {state : ArenaState} {map : RunMap}

/-! ## Sections -/

namespace ArenaState
namespace Related

/-- `arena_run_init_large` writes what the map says already. -/
theorem initLarge (related : Related g state map) {elm : MapElm} (has : state.Has elm .large) :
    ∃ state' map', state.step g (.initLarge elm) = some state' ∧
      RunMap.Performs g map (.initLarge elm) map' ∧ Related g state' map' := by
  obtain ⟨before, dirty, after, located, -, -⟩ := related.located has
  refine ⟨_, map, rfl, .initLarge, ?_⟩
  exact related.edited rfl rfl (fun _ _ => rfl) (related.sound.runInitLarge located) related.owned
    related.live fun c member => Or.inl member

/-- Huge blocks are no runs: only the number of active pages changes. -/
theorem huge (related : Related g state map) {nactive huge lost old new : Nat}
    (counted : Recounts state.arena.nactive old new nactive)
    (sums : huge + lost + old = state.huge + state.lost + new) :
    Related g { state with arena := { state.arena with nactive }, huge, lost } map := by
  have books := related.sound.books
  refine related.edited rfl rfl (fun _ _ => rfl) ⟨⟨books.chunk, books.availSorted, books.mem_avail,
    books.dirtySorted, books.mem_dirty, books.ndirty, ?_⟩, related.sound.spare,
    related.sound.spareHeld, related.sound.settled, related.sound.notWhole⟩ related.owned
    related.live fun c member => Or.inl member
  have total : (huge + lost + ∑ c ∈ map.owned, activeOf (map.layouts c)) + old =
      (state.huge + state.lost + ∑ c ∈ map.owned, activeOf (map.layouts c)) + new := by omega
  exact counted.total books.nactive total

/-- No permitted section fails an assertion, and each performs an operation on the runs. -/
theorem performs (related : Related g state map) {action : ArenaAction}
    (permitted : state.permitted g action) :
    ∃ state' map', state.step g action = some state' ∧ RunMap.Performs g map action map' ∧
      Related g state' map' := by
  cases action with
  | allocLarge need shape =>
      obtain ⟨result, map', outcome, ends, allocates, newRelated⟩ :=
        related.allocates (fun _ => rfl) (splits_large permitted.1) permitted.2 shape
      exact ⟨_, map', by simp [ArenaState.step, ends], .allocLarge allocates, newRelated⟩
  | resumeLarge need shape fresh =>
      obtain ⟨⟨positive, fits⟩, new⟩ := permitted
      obtain ⟨result, map', outcome, ends, resumes, newRelated⟩ :=
        related.resumes (fun _ => rfl) (splits_large positive) fits shape new
      exact ⟨_, map', by simp [ArenaState.step, ends], .resumeLarge resumes, newRelated⟩
  | allocSmall binind shape =>
      obtain ⟨result, map', outcome, ends, allocates, newRelated⟩ :=
        related.allocates (fun _ => rfl) (splits_forBin permitted) (g.runPages_le binind permitted)
          shape
      exact ⟨_, map', by simp [ArenaState.step, ends], .allocSmall allocates, newRelated⟩
  | resumeSmall binind shape fresh =>
      obtain ⟨known, new⟩ := permitted
      obtain ⟨result, map', outcome, ends, resumes, newRelated⟩ :=
        related.resumes (fun _ => rfl) (splits_forBin known) (g.runPages_le binind known) shape new
      exact ⟨_, map', by simp [ArenaState.step, ends], .resumeSmall resumes, newRelated⟩
  | dallocLarge elm => exact related.dallocLarge permitted
  | dallocBin elm used =>
      obtain ⟨⟨binind, -, has⟩, positive⟩ := permitted
      exact related.dallocBin has positive
  | trimHead elm pages => exact related.trimHead permitted.1 permitted.2.1 permitted.2.2
  | trimTail elm pages => exact related.trimTail permitted.1 permitted.2.1 permitted.2.2
  | initLarge elm => exact related.initLarge permitted
  | shrink elm pages => exact related.shrink permitted.1 permitted.2.1 permitted.2.2
  | grow elm pages extra => exact related.grow permitted.1 permitted.2
  | hugeAlloc pages succeeds =>
      refine ⟨_, map, rfl, .hugeAlloc, related.huge (Recounts.add pages) ?_⟩
      cases succeeds <;> simp <;> omega
  | hugeDalloc pages =>
      have fits : pages ≤ state.huge := permitted
      exact ⟨_, map, rfl, .hugeDalloc, related.huge (Recounts.sub pages) (by omega)⟩
  | maybePurge =>
      obtain ⟨state', map', ends, performs, newRelated, -⟩ := related.maybePurge
      exact ⟨state', map', ends, performs, newRelated⟩
  | purgeAll =>
      obtain ⟨state', map', ends, performs, newRelated, -⟩ := related.purgeAll
      exact ⟨state', map', ends, performs, newRelated⟩
  | purgeStashed thread unzeroed =>
      obtain ⟨purge, isThread, more⟩ := permitted
      exact related.purgeStashed isThread more unzeroed
  | unstashPurged thread =>
      obtain ⟨purge, isThread, done, more⟩ := permitted
      exact related.unstashPurged isThread done more
  | purgeAgain thread =>
      obtain ⟨purge, isThread, done⟩ := permitted
      obtain ⟨state', map', ends, performs, newRelated, -⟩ := related.purgeAgain isThread done
      exact ⟨state', map', ends, performs, newRelated⟩

end Related

/-! ## Runs of sections -/

/-- The arena after `arena_new`: the memory where chunks will be says anything. -/
def start (chunks : Nat → ArenaChunk) : ArenaState where
  arena := ⟨chunks, none, [], [], 0, 0, 0⟩
  purges := []
  owned := ∅
  live := fun _ => none
  huge := 0
  lost := 0

theorem related_start (chunks : Nat → ArenaChunk) : Related g (start chunks) RunMap.empty where
  sound := by
    refine ⟨⟨?_, .nil _, ?_, .nil _, ?_, rfl, rfl⟩, rfl, ?_, ?_, ?_⟩ <;> simp [start, RunMap.empty]
  owned := rfl
  live := by
    funext elm
    simp [start, RunMap.live, RunMap.empty]
  aligned := by simp [start]
  purging := by
    refine ⟨⟨?_, ?_, ?_, ?_⟩, ?_⟩ <;> simp [start, stashes, ArenaState.promised]

end ArenaState

variable (g) in
/-- One run map becomes another by something that a thread may do. -/
def RunMap.Moves (map map' : RunMap) : Prop := ∃ action, RunMap.Performs g map action map'

/-- Every state of the arena is that of a run map which the operations on the runs have led
to. -/
theorem ArenaState.exists_related {chunks : Nat → ArenaChunk}
    (reached : Reached (ArenaState.permitted g) (ArenaState.step g) (ArenaState.start chunks)
      state) :
    ∃ map, Relation.ReflTransGen (RunMap.Moves g) RunMap.empty map ∧
      ArenaState.Related g state map := by
  refine reached.invariant (fun state => ∃ map,
    Relation.ReflTransGen (RunMap.Moves g) RunMap.empty map ∧ ArenaState.Related g state map)
    ⟨RunMap.empty, .refl, ArenaState.related_start chunks⟩ ?_
  rintro before action after ⟨map, led, related⟩ permitted result
  obtain ⟨state', map', ends, performs, newRelated⟩ := related.performs permitted
  obtain rfl : state' = after := Option.some.inj (ends.symm.trans result)
  exact ⟨map', led.tail ⟨action, performs⟩, newRelated⟩

/-- The arena refines the run map: in every state that its threads reach it holds the runs of
a run map that the operations on the runs have led to, and every section that a thread may
begin there ends, without a failed assertion, in the state of the run map after one operation
more. -/
theorem arena_sections_refine {chunks : Nat → ArenaChunk}
    (reached : Reached (ArenaState.permitted g) (ArenaState.step g) (ArenaState.start chunks)
      state) :
    ∃ map, Relation.ReflTransGen (RunMap.Moves g) RunMap.empty map ∧
      ArenaState.Related g state map ∧
      ∀ action, state.permitted g action →
        ∃ state' map', state.step g action = some state' ∧ RunMap.Performs g map action map' ∧
          ArenaState.Related g state' map' := by
  obtain ⟨map, led, related⟩ := ArenaState.exists_related reached
  exact ⟨map, led, related, fun _ permitted => related.performs permitted⟩

/-- A small arena: chunks of four pages, the first of which is the header. -/
def fourPages : Geometry where
  mapBias := 1
  chunkNpages := 4
  runPages := fun _ => 1
  lgDirtyMult := 0
  nbins := 1
  nbins_le := by decide
  mapBias_pos := by decide
  mapBias_lt := by decide
  runPages_pos := by decide
  runPages_le := by decide

/-- Memory that is all zero. -/
def zeroedChunk : ArenaChunk where
  map := fun _ => ⟨0, 0, false, false, false, false⟩
  runBin := fun _ => 0
  ndirty := 0
  nrunsAvail := 0
  nrunsAdjac := 0

/-- A large run is freed and purged, while another thread needs a second chunk. -/
def purgedMeanwhile : List ArenaAction :=
  [.allocLarge 2 0, .resumeLarge 2 0 (some ⟨0, zeroedChunk, true⟩), .allocSmall 0 0,
    .dallocLarge ⟨0, 1⟩, .purgeAll, .allocLarge 1 0,
    .resumeLarge 1 0 (some ⟨8, zeroedChunk, true⟩), .purgeStashed 0 true]

theorem exists_purgedMeanwhile :
    ∃ state, Reached (ArenaState.permitted fourPages) (ArenaState.step fourPages)
        (ArenaState.start fun _ => zeroedChunk) state ∧
      (state.arena.nactive, state.pages ⟨0, 3⟩, state.pages ⟨8, 1⟩,
        decide (state.permitted fourPages (.unstashPurged 0))) = (4, 1, 1, true) := by
  have evaluated : (permittedRuns (ArenaState.permitted fourPages) (ArenaState.step fourPages)
      (ArenaState.start fun _ => zeroedChunk) purgedMeanwhile).map (fun state =>
        (state.arena.nactive, state.pages ⟨0, 3⟩, state.pages ⟨8, 1⟩,
          decide (state.permitted fourPages (.unstashPurged 0)))) = some (4, 1, 1, true) := by
    decide +kernel
  exact Reached.of_evaluated evaluated

/-- The thread that purges frees its run, although the arena has grown meanwhile. -/
theorem arena_sections_refine_example :
    ∃ state : ArenaState, state.pages ⟨8, 1⟩ = 1 ∧
      ∃ map, Relation.ReflTransGen (RunMap.Moves fourPages) RunMap.empty map ∧
        ∃ state' map', state.step fourPages (.unstashPurged 0) = some state' ∧
          RunMap.Performs fourPages map (.unstashPurged 0) map' ∧
          ArenaState.Related fourPages state' map' := by
  obtain ⟨state, reached, values⟩ := exists_purgedMeanwhile
  simp only [Prod.mk.injEq, decide_eq_true_eq] at values
  obtain ⟨-, -, grown, permitted⟩ := values
  obtain ⟨map, led, -, performs⟩ := arena_sections_refine reached
  exact ⟨state, grown, map, led, performs _ permitted⟩

/-! ## What the callers may rely on -/

/-- No run in use starts inside another one. -/
theorem ArenaState.Related.apart_of_lt (related : ArenaState.Related g state map) {c p q n m : Nat}
    {use use' : RunUse} (first : state.live ⟨c, p⟩ = some (n, use))
    (second : state.live ⟨c, q⟩ = some (m, use')) (behind : p < q) : p + n ≤ q := by
  rw [related.live] at first second
  obtain ⟨before, dirty, after, located, -⟩ := RunMap.exists_located first
  by_contra overlap
  have idle := located.idle_inside (related.sound.nonempty _ located.owns)
    (show 0 < q - p by omega) (show q - p < n by omega)
  have same : p + (q - p) = q := by omega
  rw [same, second] at idle
  cases idle

/-- Chunks of an arena do not overlap. -/
theorem chunks_apart {unit c d : Nat} (first : unit ∣ c) (second : unit ∣ d) (before : c < d) :
    c + unit ≤ d := by
  obtain ⟨i, rfl⟩ := first
  obtain ⟨j, rfl⟩ := second
  have next : i + 1 ≤ j := Nat.lt_of_mul_lt_mul_left before
  calc unit * i + unit = unit * (i + 1) := (Nat.mul_succ unit i).symm
    _ ≤ unit * j := Nat.mul_le_mul_left unit next

/-- The runs in use of a layout that may stand are its active pages. -/
theorem sum_liveRun {start : Nat} {layout : List Run} (nonempty : NonemptyRuns layout)
    (written : ∀ run ∈ layout, run.use ≠ .raw) :
    ∑ page ∈ Finset.Ico start (start + pagesOf layout),
      ((liveRun start layout page).map Prod.fst).getD 0 = activeOf layout := by
  induction layout generalizing start with
  | nil => simp
  | cons run rest inductionHypothesis =>
      obtain ⟨positive, nonemptyRest⟩ := nonemptyRuns_cons.mp nonempty
      have later := @inductionHypothesis (start + run.pages) nonemptyRest
        fun other member => written other (List.mem_cons_of_mem _ member)
      have own : ((liveRun start (run :: rest) start).map Prod.fst).getD 0 = run.active := by
        have isWritten := written run List.mem_cons_self
        rw [liveRun, if_pos rfl]
        unfold Run.inUse Run.active
        cases use : run.use <;> simp_all
      -- no run in use starts behind the first page of the run and before the next run
      have inside : ∑ page ∈ Finset.Ico (start + 1) (start + run.pages),
          ((liveRun start (run :: rest) page).map Prod.fst).getD 0 = 0 := by
        refine Finset.sum_eq_zero fun page member => ?_
        obtain ⟨behind, before⟩ := Finset.mem_Ico.mp member
        rw [liveRun, if_neg (by omega), liveRun_of_lt before]
        rfl
      have others : ∑ page ∈ Finset.Ico (start + run.pages) (start + run.pages + pagesOf rest),
          ((liveRun start (run :: rest) page).map Prod.fst).getD 0 = activeOf rest := by
        rw [← later]
        refine Finset.sum_congr rfl fun page member => ?_
        have behind := (Finset.mem_Ico.mp member).1
        rw [liveRun, if_neg (by omega)]
      rw [pagesOf_cons, activeOf_cons, ← Nat.add_assoc,
        ← Finset.sum_Ico_consecutive _ (Nat.le_add_right start run.pages) (Nat.le_add_right _ _),
        others, Finset.sum_eq_sum_Ico_succ_bot (Nat.lt_add_of_pos_right positive), own, inside,
        Nat.add_zero]

/-- What the callers of an arena have been given lies apart, and the arena has counted it. -/
structure ArenaState.WellGiven (g : Geometry) (state : ArenaState) : Prop where
  inside : ∀ elm n use, state.live elm = some (n, use) → elm.chunk ∈ state.owned ∧
    g.mapBias ≤ elm.pageind ∧ elm.pageind + n ≤ g.chunkNpages
  apart : ∀ elm other n m use use', state.live elm = some (n, use) →
    state.live other = some (m, use') → elm ≠ other →
      elm.chunk + elm.pageind + n ≤ other.chunk + other.pageind ∨
        other.chunk + other.pageind + m ≤ elm.chunk + elm.pageind
  nactive : state.arena.nactive = (state.huge + state.lost +
    ∑ c ∈ state.owned, ∑ page ∈ Finset.Ico g.mapBias g.chunkNpages, state.pages ⟨c, page⟩) %
      Word.modulus
  ndirty : state.arena.ndirty ≤ addressPages
  npurgatory : state.purges = [] → state.arena.npurgatory = 0

namespace ArenaState
namespace Related

theorem inside (related : Related g state map) {elm : MapElm} {n : Nat} {use : RunUse}
    (live : state.live elm = some (n, use)) : elm.chunk ∈ state.owned ∧
      g.mapBias ≤ elm.pageind ∧ elm.pageind + n ≤ g.chunkNpages := by
  rw [related.live] at live
  obtain ⟨before, dirty, after, located, -⟩ := RunMap.exists_located live
  exact ⟨related.owned ▸ located.owns, related.sound.inside located⟩

/-- Runs at different pages lie one behind the other. -/
theorem ordered (related : Related g state map) {elm other : MapElm} {n m : Nat}
    {use use' : RunUse} (first : state.live elm = some (n, use))
    (second : state.live other = some (m, use'))
    (before : elm.chunk < other.chunk ∨ elm.chunk = other.chunk ∧ elm.pageind < other.pageind) :
    elm.chunk + elm.pageind + n ≤ other.chunk + other.pageind := by
  obtain ⟨owns, -, fits⟩ := related.inside first
  obtain ⟨owns', -, -⟩ := related.inside second
  rcases before with chunks | ⟨same, pages⟩
  · have apart := chunks_apart (related.aligned _ owns).1 (related.aligned _ owns').1 chunks
    omega
  · obtain ⟨c, p⟩ := elm
    obtain ⟨d, q⟩ := other
    obtain rfl : c = d := same
    have apart := related.apart_of_lt first second pages
    simp only
    omega

/-- No run of an arena is left half written. -/
theorem written (related : Related g state map) {c : Nat} (owns : c ∈ map.owned) :
    ∀ run ∈ map.layouts c, run.use ≠ .raw := by
  intro run member
  by_cases isSpare : map.spare = some c
  · obtain ⟨-, dirty, held⟩ := related.sound.spareHeld c isSpare
    rw [held] at member
    rw [List.mem_singleton.mp member]
    simp [wholeRun]
  · exact Run.use_ne_raw_of_settled (related.sound.settled c owns isSpare run member)

theorem wellGiven (related : Related g state map) : state.WellGiven g where
  inside := fun elm n use live => related.inside live
  apart := by
    intro elm other n m use use' first second different
    obtain chunks | chunks | chunks := lt_trichotomy elm.chunk other.chunk
    · exact Or.inl (related.ordered first second (Or.inl chunks))
    · obtain pages | pages | pages := lt_trichotomy elm.pageind other.pageind
      · exact Or.inl (related.ordered first second (Or.inr ⟨chunks, pages⟩))
      · have same : elm = other := by
          cases elm
          cases other
          simp_all
        exact absurd same different
      · exact Or.inr (related.ordered second first (Or.inr ⟨chunks.symm, pages⟩))
    · exact Or.inr (related.ordered second first (Or.inl chunks))
  nactive := by
    rw [related.sound.books.nactive, related.owned]
    refine congrArg (fun pages => (state.huge + state.lost + pages) % Word.modulus)
      (Finset.sum_congr rfl fun c owns => ?_)
    rw [← sum_liveRun (related.sound.nonempty c owns) (related.written owns),
      (related.sound.books.chunk c owns).covers]
    refine Finset.sum_congr rfl fun page _ => ?_
    rw [pages, related.live, RunMap.live, if_pos owns]
  ndirty := related.ndirty_le
  npurgatory := by
    intro idle
    rw [related.purging.promised, ArenaState.promised, idle]
    rfl

end Related
end ArenaState

/-- Whatever its threads have done, the runs in use of an arena lie behind the headers of its
chunks and share no page, and its counters are right: the active pages are those of the runs
in use and of the huge blocks, as far as a word counts, and nothing is to be purged when nobody
is purging. -/
theorem arena_runs_apart {chunks : Nat → ArenaChunk}
    (reached : Reached (ArenaState.permitted g) (ArenaState.step g) (ArenaState.start chunks)
      state) : state.WellGiven g := by
  obtain ⟨map, -, related⟩ := ArenaState.exists_related reached
  exact related.wellGiven

/-- The runs of a bin and of a large block while another run is purged. -/
theorem arena_runs_apart_example :
    ∃ state : ArenaState, state.arena.nactive = 4 ∧ state.pages ⟨0, 3⟩ = 1 ∧
      state.pages ⟨8, 1⟩ = 1 ∧ state.WellGiven fourPages := by
  obtain ⟨state, reached, values⟩ := exists_purgedMeanwhile
  simp only [Prod.mk.injEq] at values
  exact ⟨state, values.1, values.2.1, values.2.2.1, arena_runs_apart reached⟩

end Jemalloc
end Vmem
