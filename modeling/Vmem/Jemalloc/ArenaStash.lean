import Vmem.Jemalloc.ArenaPurge
import Vmem.Jemalloc.LiveRuns

/-!
# Stashing dirty runs

`arena_chunk_stash_dirty` goes through the runs of a chunk once and allocates dirty free
ones: all of them, or only those that touch a clean free run.  Afterwards no two free runs
of the chunk touch.
-/

namespace Vmem
namespace Jemalloc

variable {g : Geometry} {owned : Finset Nat} {layouts : Nat → List Run} {others : Nat}
  {arena : Arena} {c : Nat} {before after after' : List Run} {run : Run} {start : Nat}
  {pages : List Nat} {all : Bool}

/-! ## Which runs are stashed -/

namespace Run

/-- Whether a run is stashed, by its neighbours. -/
def stashes (all : Bool) (before : List Run) (run : Run) (after : List Run) : Bool :=
  run.isFree && run.dirty &&
    (all || Tiling.lastTouches adjoins before run || Tiling.headTouches adjoins run after)

/-- A run that may have been stashed. -/
def stashed (taken : Bool) (run : Run) : Run := if taken then { run with use := .large } else run

@[simp] theorem stashed_pages (taken : Bool) : (run.stashed taken).pages = run.pages := by
  cases taken <;> rfl

@[simp] theorem stashed_true_isFree : (run.stashed true).isFree = false := rfl

@[simp] theorem stashed_false : run.stashed false = run := rfl

/-- Neighbouring free runs of a chunk differ in being dirty. -/
theorem dirty_of_adjoins {left right : Run} (apart : mergeable left right = false)
    (touches : adjoins left right = true) : left.dirty ≠ right.dirty := by
  intro same
  simp [mergeable, touches, same] at apart

end Run

/-- Some dirty free runs of a chunk have become large ones; their first pages are listed. -/
inductive Stashed : Nat → List Run → List Run → List Nat → Prop
  | nil (start : Nat) : Stashed start [] [] []
  | skip (start : Nat) (run : Run) {rest rest' : List Run} {pages : List Nat}
      (others : Stashed (start + run.pages) rest rest' pages) :
      Stashed start (run :: rest) (run :: rest') pages
  | take (start n : Nat) {rest rest' : List Run} {pages : List Nat}
      (others : Stashed (start + n) rest rest' pages) :
      Stashed start (⟨n, .free, true⟩ :: rest) (⟨n, .large, true⟩ :: rest') (start :: pages)

/-! ## One run -/

/-- The neighbours of a run in a chunk without runs to merge. -/
theorem RunsCoalesced.apart (coalesced : RunsCoalesced (before ++ run :: after)) :
    Tiling.lastTouches Run.mergeable before run = false ∧
      Tiling.headTouches Run.mergeable run after = false := by
  unfold RunsCoalesced at coalesced
  rw [Tiling.touching_append_cons] at coalesced
  constructor
  · cases touches : Tiling.lastTouches Run.mergeable before run with
    | false => rfl
    | true => simp [touches] at coalesced
  · cases touches : Tiling.headTouches Run.mergeable run after with
    | false => rfl
    | true => simp [touches] at coalesced

/-- The tests of the neighbours find out whether a dirty run is a fragment. -/
theorem toStash_eq {chunk : ArenaChunk} (books : HeaderBooks g chunk (before ++ run :: after))
    (settledBefore : AllSettled before) (settledAfter : AllSettled after)
    (free : run.isFree = true) (all : Bool) :
    Arena.toStash g chunk (g.mapBias + pagesOf before) run.pages all =
      some (run.stashes all before after) := by
  have isFree : run.use = .free := by simpa [Run.isFree] using free
  have first := (books.holds.described.first (by simp [isFree])).2
  obtain ⟨apartLast, apartHead⟩ := books.coalesced.apart
  have pred := availAdjacPred_eq books.holds apartLast free settledBefore.last
  have succ := availAdjacSucc_eq books.holds books.covers apartHead free settledAfter.head
  simp only [Arena.maybe, if_true] at pred succ
  unfold Arena.toStash Run.stashes
  rw [first, free]
  cases run.dirty with
  | false => rfl
  | true =>
      cases all with
      | true => rfl
      | false =>
          simp only [if_true, Bool.false_eq_true, if_false, Arena.availAdjac, pred, succ]
          cases Tiling.lastTouches Run.adjoins before run <;> simp

namespace Books

/-- One turn of the loop stashes the run at a page, or skips it. -/
theorem stashRun (books : Books g owned layouts others arena) (owns : c ∈ owned)
    (layout : layouts c = before ++ run :: after) (settledBefore : AllSettled before)
    (settledAfter : AllSettled after) (settled : run.settled = true) (all : Bool) :
    ∃ arena', arena.stashRun g c (g.mapBias + pagesOf before) all =
        some (arena', run.pages, run.stashes all before after) ∧
      Books g owned (Function.update layouts c
        (before ++ run.stashed (run.stashes all before after) :: after)) others arena' ∧
      Frame arena arena' := by
  have old := books.chunk c owns
  rw [layout] at old
  have described := old.holds.described
  have first := described.first (Run.use_ne_raw_of_settled settled)
  have same : Books g owned (Function.update layouts c (before ++ run :: after)) others arena := by
    rw [← layout, Function.update_eq_self]
    exact books
  have frame : Frame arena arena := ⟨rfl, rfl⟩
  cases use : run.use with
  | held => simp [Run.settled, use] at settled
  | raw => simp [Run.settled, use] at settled
  | large =>
      have isLarge := described.2
      rw [use] at isLarge
      obtain ⟨⟨size, -, large, allocated⟩, -⟩ := isLarge
      have notFree : run.stashes all before after = false := by
        simp [Run.stashes, Run.isFree, use]
      have skipped : Arena.skipPages g (arena.chunks c) (g.mapBias + pagesOf before) =
          some run.pages := by
        simp [Arena.skipPages, ArenaChunk.largeSizeGet, large, allocated, size]
      refine ⟨arena, ?_, by rw [notFree]; exact same, frame⟩
      simp [Arena.stashRun, allocated, skipped, notFree]
  | small binind =>
      have isSmall := described.2
      rw [use] at isSmall
      obtain ⟨-, size, bin, inside, -⟩ := isSmall
      obtain ⟨runind, -, large, allocated⟩ := inside 0 described.pages_pos
      rw [Nat.add_zero] at runind large allocated
      have notFree : run.stashes all before after = false := by
        simp [Run.stashes, Run.isFree, use]
      have skipped : Arena.skipPages g (arena.chunks c) (g.mapBias + pagesOf before) =
          some run.pages := by
        simp [Arena.skipPages, ArenaChunk.smallRunindGet, large, allocated, runind, bin, size]
      refine ⟨arena, ?_, by rw [notFree]; exact same, frame⟩
      simp [Arena.stashRun, allocated, skipped, notFree]
  | free =>
      have free : run.isFree = true := by simp [Run.isFree, use]
      have sizes := described.unallocatedSizeGet (Or.inl use)
      have last := described.last (Run.use_ne_raw_of_settled settled)
      have inUse : run.inUse = false := by simp [Run.inUse, use]
      have covers := old.covers
      simp only [pagesOf_append, pagesOf_cons] at covers
      have inside : g.mapBias + pagesOf before + run.pages ≤ g.chunkNpages := by omega
      have tested := toStash_eq old settledBefore settledAfter free all
      have computed (result : Option (Arena × Nat × Bool))
          (finishes : (if run.stashes all before after then do
            let arena ← arena.runSplitLarge g c (g.mapBias + pagesOf before) run.pages
            some (arena, run.pages, true)
          else some (arena, run.pages, false)) = result) :
          arena.stashRun g c (g.mapBias + pagesOf before) all = result := by
        simp only [Arena.stashRun, first.1, inUse, Bool.false_eq_true, if_false,
          Option.bind_eq_bind, sizes.1, Option.bind_some]
        rw [check_eq_some inside, check_eq_some (first.2.trans last.2.symm)]
        simp only [Option.bind_some, tested]
        exact finishes
      cases taken : run.stashes all before after with
      | false =>
          rw [taken] at computed
          exact ⟨arena, computed _ rfl, same, frame⟩
      | true =>
          have layout_ : layouts c = before ++ ⟨run.pages, .free, run.dirty⟩ :: after := by
            rw [layout, ← use]
          obtain ⟨arena', result, newBooks, newFrame⟩ := splits_large (g := g) described.pages_pos
            books owns layout_ settledBefore.last settledAfter.head le_rfl
          have result : arena.runSplitLarge g c (g.mapBias + pagesOf before) run.pages =
              some arena' := result
          have noRest : restOf run.pages run.pages run.dirty = [] := by simp [restOf]
          rw [taken] at computed
          refine ⟨arena', computed _ (by simp [result]), ?_, newFrame⟩
          rw [noRest] at newBooks
          exact newBooks

/-! ## All runs of a chunk -/

/-- What the loop has seen of a chunk: no free runs touch, no dirty one is left if all are to
be stashed, and a free run behind will be stashed if it touches the last one. -/
structure Cleared (all : Bool) (before after : List Run) : Prop where
  apart : nadjac before = 0
  clean : all = true → dirtyOf before = 0
  ready : ∀ next ∈ after.head?, Tiling.lastTouches Run.adjoins before next = true →
    next.dirty = true

theorem lastTouches_of_not_free (notFree : run.isFree = false) :
    Tiling.lastTouches Run.adjoins before run = false := by
  simp [Tiling.lastTouches, Run.adjoins, notFree]

/-- One more run has been seen. -/
theorem Cleared.next (cleared : Cleared all before (run :: after))
    (coalesced : RunsCoalesced (before ++ run :: after)) :
    Cleared all (before ++ [run.stashed (run.stashes all before after)]) after := by
  have apartHead := coalesced.apart.2
  have counted (other : Run) : nadjac (before ++ [other]) =
      nadjac before + (Tiling.lastTouches Run.adjoins before other).toNat := by
    unfold nadjac
    rw [Tiling.touching_append_cons]
    simp
  cases taken : run.stashes all before after with
  | true =>
      refine ⟨?_, fun isAll => ?_, fun next _ touches => ?_⟩
      · rw [counted, cleared.apart, lastTouches_of_not_free rfl]
        rfl
      · simp [cleared.clean isAll, Run.dirtyPages]
      · rw [Tiling.lastTouches_concat] at touches
        simp [Run.adjoins] at touches
  | false =>
      rw [Run.stashed_false]
      have notTouching : Tiling.lastTouches Run.adjoins before run = false := by
        cases touches : Tiling.lastTouches Run.adjoins before run with
        | false => rfl
        | true =>
            have dirty := cleared.ready run rfl touches
            have free : run.isFree = true := by
              by_contra notFree
              rw [lastTouches_of_not_free (by simpa using notFree)] at touches
              cases touches
            simp [Run.stashes, free, dirty, touches] at taken
      refine ⟨?_, fun isAll => ?_, fun next isNext touches => ?_⟩
      · rw [counted, cleared.apart, notTouching]
        rfl
      · have notDirty : ¬(run.isFree = true ∧ run.dirty = true) := by
          rintro ⟨free, dirty⟩
          simp [Run.stashes, free, dirty, isAll] at taken
        simp [cleared.clean isAll, Run.dirtyPages, notDirty]
      · rw [Tiling.lastTouches_concat] at touches
        obtain ⟨others, rfl⟩ : ∃ others, after = next :: others := by
          cases after with
          | nil => cases isNext
          | cons first others => exact ⟨others, by rw [Option.some.inj isNext]⟩
        rw [Tiling.headTouches_cons] at apartHead
        have differ := Run.dirty_of_adjoins apartHead touches
        have free : run.isFree = true := (Bool.and_eq_true_iff.mp touches).1
        cases dirty : run.dirty with
        | true => simp [Run.stashes, free, dirty, touches] at taken
        | false => simpa [dirty] using differ.symm

/-- The loop stashes what it has to, and leaves no free runs that touch. -/
theorem stashLoop (books : Books g owned layouts others arena) (owns : c ∈ owned)
    (layout : layouts c = before ++ after) (settledBefore : AllSettled before)
    (settledAfter : AllSettled after) (cleared : Cleared all before after)
    {fuel : Nat} (enough : after.length < fuel) :
    ∃ arena' after' pages,
      Arena.stashLoop g c all fuel arena (g.mapBias + pagesOf before) = some (arena', pages) ∧
      Stashed (g.mapBias + pagesOf before) after after' pages ∧
      Books g owned (Function.update layouts c (before ++ after')) others arena' ∧
      nadjac (before ++ after') = 0 ∧ (all = true → dirtyOf (before ++ after') = 0) ∧
      Frame arena arena' := by
  induction after generalizing layouts before arena fuel with
  | nil =>
      obtain ⟨fuel, rfl⟩ := Nat.exists_eq_succ_of_ne_zero (by omega : fuel ≠ 0)
      have covers := (books.chunk c owns).covers
      rw [layout, List.append_nil] at covers
      have same : Books g owned (Function.update layouts c (before ++ [])) others arena := by
        rw [← layout, Function.update_eq_self]
        exact books
      refine ⟨arena, [], [], ?_, .nil _, same, by simpa using cleared.apart,
        by simpa using cleared.clean, rfl, rfl⟩
      rw [Arena.stashLoop, if_neg (by omega), check_eq_some covers]
      rfl
  | cons run rest inductionHypothesis =>
      obtain ⟨fuel, rfl⟩ := Nat.exists_eq_succ_of_ne_zero (by omega : fuel ≠ 0)
      have old := books.chunk c owns
      rw [layout] at old
      have positive := old.holds.described.pages_pos
      have covers := old.covers
      simp only [pagesOf_append, pagesOf_cons] at covers
      have inside : g.mapBias + pagesOf before < g.chunkNpages := by omega
      have settled := settledAfter run (by simp)
      have settledRest : AllSettled rest :=
        fun other member => settledAfter other (by simp [member])
      obtain ⟨between, result, newBooks, frame⟩ :=
        books.stashRun owns layout settledBefore settledRest settled all
      have clearedNext := cleared.next old.coalesced
      generalize isTaken : run.stashes all before rest = taken at result newBooks clearedNext
      have settledNew : (run.stashed taken).settled = true := by
        cases taken with
        | true => rfl
        | false => exact settled
      have layoutNew : Function.update layouts c (before ++ run.stashed taken :: rest) c =
          (before ++ [run.stashed taken]) ++ rest := by simp
      have fewer : rest.length < fuel := by
        rw [List.length_cons] at enough
        omega
      obtain ⟨arena', rest', pages, loops, stashed, lastBooks, apart, clean, frame'⟩ :=
        inductionHypothesis newBooks layoutNew (settledBefore.concat settledNew) settledRest
          clearedNext fewer
      have position : g.mapBias + pagesOf (before ++ [run.stashed taken]) =
          g.mapBias + pagesOf before + run.pages := by simp [Nat.add_assoc]
      rw [position] at loops stashed
      rw [Function.update_idem, ← List.append_cons] at lastBooks
      rw [← List.append_cons] at apart clean
      refine ⟨arena', run.stashed taken :: rest',
        if taken then (g.mapBias + pagesOf before) :: pages else pages, ?_, ?_, lastBooks, apart,
        clean, frame.trans frame'⟩
      · rw [Arena.stashLoop, if_pos inside]
        simp only [Option.bind_eq_bind, result, Option.bind_some, loops]
      · cases taken with
        | false => exact .skip _ run stashed
        | true =>
            obtain ⟨free, dirty⟩ : run.use = .free ∧ run.dirty = true := by
              simp only [Run.stashes, Run.isFree, Bool.and_eq_true, decide_eq_true_eq] at isTaken
              exact isTaken.1
            have shape : run = ⟨run.pages, .free, true⟩ := by rw [← free, ← dirty]
            rw [shape]
            exact .take _ run.pages stashed

/-- `arena_chunk_stash_dirty` stashes all dirty free runs, or those that touch a clean one. -/
theorem chunkStashDirty (books : Books g owned layouts others arena) (owns : c ∈ owned)
    (settled : AllSettled (layouts c)) (all : Bool) :
    ∃ arena' layout pages, arena.chunkStashDirty g c all = some (arena', pages) ∧
      Stashed g.mapBias (layouts c) layout pages ∧
      Books g owned (Function.update layouts c layout) others arena' ∧
      nadjac layout = 0 ∧ (all = true → dirtyOf layout = 0) ∧ Frame arena arena' := by
  have old := books.chunk c owns
  have short := old.holds.nonemptyRuns.length_le
  have covers := old.covers
  have bias := g.mapBias_pos
  have cleared : Cleared all [] (layouts c) :=
    ⟨rfl, fun _ => rfl, fun _ _ touches => by simp at touches⟩
  obtain ⟨arena', layout, pages, loops, stashed, newBooks, apart, clean, frame⟩ :=
    books.stashLoop owns (List.nil_append _).symm (by simp [AllSettled]) settled cleared
      (by omega : (layouts c).length < g.chunkNpages)
  rw [List.nil_append] at newBooks apart clean
  rw [pagesOf_nil, Nat.add_zero] at loops stashed
  have counts := (newBooks.chunk c owns).counts
  rw [Function.update_self] at counts
  refine ⟨arena', layout, pages, ?_, stashed, newBooks, apart, clean, frame⟩
  have noDirty : (arena'.chunks c).ndirty = 0 ∨ all = false := by
    cases all with
    | false => exact Or.inr rfl
    | true => exact Or.inl (counts.ndirty.trans (clean rfl))
  unfold Arena.chunkStashDirty
  simp only [Option.bind_eq_bind, loops, Option.bind_some]
  rw [check_eq_some noDirty, check_eq_some (counts.nrunsAdjac.trans apart)]
  rfl

end Books

/-! ## What has become of the runs -/

/-- The pages of the runs in use that start at some pages. -/
def livePages (start : Nat) (layout : List Run) (pages : List Nat) : Nat :=
  (pages.map fun page => ((liveRun start layout page).map Prod.fst).getD 0).sum

namespace Stashed

theorem allSettled (stashed : Stashed start before after pages) (settled : AllSettled before) :
    AllSettled after := by
  induction stashed with
  | nil => exact settled
  | skip start run others inductionHypothesis =>
      have rest := inductionHypothesis fun other member => settled other (by simp [member])
      exact rest.cons (settled run (by simp))
  | take start n others inductionHypothesis =>
      have rest := inductionHypothesis fun other member => settled other (by simp [member])
      exact rest.cons rfl

theorem le_of_mem {page : Nat} (stashed : Stashed start before after pages)
    (member : page ∈ pages) : start ≤ page := by
  induction stashed with
  | nil => cases member
  | skip start run others inductionHypothesis =>
      exact le_of_add_le_left (inductionHypothesis member)
  | take start n others inductionHypothesis =>
      rcases List.mem_cons.mp member with rfl | member
      · exact le_rfl
      · exact le_of_add_le_left (inductionHypothesis member)

/-- No run is stashed twice. -/
theorem nodup (stashed : Stashed start before after pages) (nonempty : NonemptyRuns before) :
    pages.Nodup := by
  induction stashed with
  | nil => exact List.nodup_nil
  | skip start run others inductionHypothesis =>
      exact inductionHypothesis (nonemptyRuns_cons.mp nonempty).2
  | take start n others inductionHypothesis =>
      obtain ⟨positive, nonemptyRest⟩ := nonemptyRuns_cons.mp nonempty
      refine List.nodup_cons.mpr ⟨fun member => ?_, inductionHypothesis nonemptyRest⟩
      have := others.le_of_mem member
      simp only at positive
      omega

/-- Nothing else has come into use. -/
theorem live_of_notMem {page : Nat} (stashed : Stashed start before after pages)
    (other : page ∉ pages) : liveRun start after page = liveRun start before page := by
  induction stashed with
  | nil => rfl
  | skip start run others inductionHypothesis =>
      rw [liveRun, liveRun, inductionHypothesis other]
  | take start n others inductionHypothesis =>
      rw [List.mem_cons, not_or] at other
      rw [liveRun, liveRun, if_neg other.1, if_neg other.1, inductionHypothesis other.2]

/-- The runs stashed were free, and are in use as large ones. -/
theorem live_of_mem {page : Nat} (stashed : Stashed start before after pages)
    (nonempty : NonemptyRuns before) (member : page ∈ pages) :
    liveRun start before page = none ∧ ∃ n, liveRun start after page = some (n, .large) := by
  induction stashed with
  | nil => cases member
  | skip start run others inductionHypothesis =>
      obtain ⟨positive, nonemptyRest⟩ := nonemptyRuns_cons.mp nonempty
      have apart : page ≠ start := by
        have := others.le_of_mem member
        omega
      rw [liveRun, liveRun, if_neg apart, if_neg apart]
      exact inductionHypothesis nonemptyRest member
  | take start n others inductionHypothesis =>
      obtain ⟨positive, nonemptyRest⟩ := nonemptyRuns_cons.mp nonempty
      rw [liveRun, liveRun]
      by_cases here : page = start
      · rw [if_pos here, if_pos here]
        exact ⟨rfl, n, rfl⟩
      · rw [if_neg here, if_neg here]
        exact inductionHypothesis nonemptyRest ((List.mem_cons.mp member).resolve_left here)

/-- The dirty pages left and those stashed are the dirty pages before. -/
theorem dirtyOf_eq (stashed : Stashed start before after pages) (nonempty : NonemptyRuns before) :
    dirtyOf before = dirtyOf after + livePages start after pages := by
  induction stashed with
  | nil => rfl
  | @skip start run rest rest' pages others inductionHypothesis =>
      obtain ⟨positive, nonemptyRest⟩ := nonemptyRuns_cons.mp nonempty
      have same : livePages start (run :: rest') pages =
          livePages (start + run.pages) rest' pages := by
        refine congrArg List.sum (List.map_congr_left fun page member => ?_)
        have := others.le_of_mem member
        rw [liveRun, if_neg (by omega)]
      rw [dirtyOf_cons, dirtyOf_cons, inductionHypothesis nonemptyRest, same, Nat.add_assoc]
  | @take start n rest rest' pages others inductionHypothesis =>
      obtain ⟨positive, nonemptyRest⟩ := nonemptyRuns_cons.mp nonempty
      simp only at positive
      have same : livePages start (⟨n, .large, true⟩ :: rest') (start :: pages) =
          n + livePages (start + n) rest' pages := by
        rw [livePages, List.map_cons, List.sum_cons]
        congr 1
        · simp [liveRun, Run.inUse]
        · refine congrArg List.sum (List.map_congr_left fun page member => ?_)
          have := others.le_of_mem member
          rw [liveRun, if_neg (by omega)]
      rw [dirtyOf_cons, dirtyOf_cons, inductionHypothesis nonemptyRest, same]
      simp only [Run.dirtyPages, Run.isFree]
      simp
      omega

/-- Where nothing is stashed, nothing changes. -/
theorem eq_of_nil (stashed : Stashed start before after pages) (none : pages = []) :
    after = before := by
  induction stashed with
  | nil => rfl
  | skip start run others inductionHypothesis => rw [inductionHypothesis none]
  | take => cases none

end Stashed

end Jemalloc
end Vmem
