import Vmem.Jemalloc.ArenaSplit

/-!
# Freeing a run

`arena_run_dalloc` marks a run free and merges it with the free runs before and behind it
that are as clean or as dirty as it is.  On the level of layouts that is one function,
which merges whatever can be merged.
-/

namespace Vmem
namespace Jemalloc

variable {g : Geometry} {owned : Finset Nat} {layouts : Nat → List Run} {others : Nat}
  {arena : Arena} {c : Nat} {before middle new after : List Run} {n m : Nat} {dirty : Bool}

/-! ## Merging -/

/-- Merge a run with the one behind it if both are free and equally dirty. -/
def joinFront (run : Run) : List Run → List Run
  | [] => [run]
  | next :: rest =>
      if run.mergeable next then ⟨run.pages + next.pages, run.use, run.dirty⟩ :: rest
      else run :: next :: rest

/-- Merge all neighbouring runs that can be merged. -/
def coalesce : List Run → List Run
  | [] => []
  | run :: rest => joinFront run (coalesce rest)

theorem joinFront_of_apart {run : Run} {rest : List Run}
    (apart : Tiling.headTouches Run.mergeable run rest = false) :
    joinFront run rest = run :: rest := by
  cases rest with
  | nil => rfl
  | cons next others =>
      rw [Tiling.headTouches_cons] at apart
      simp [joinFront, apart]

theorem coalesced_cons {run : Run} {rest : List Run} :
    RunsCoalesced (run :: rest) ↔
      Tiling.headTouches Run.mergeable run rest = false ∧ RunsCoalesced rest := by
  unfold RunsCoalesced
  rw [Tiling.touching_cons]
  cases Tiling.headTouches Run.mergeable run rest <;> simp

/-- Nothing happens where nothing can be merged. -/
theorem coalesce_of_coalesced {layout : List Run} (coalesced : RunsCoalesced layout) :
    coalesce layout = layout := by
  induction layout with
  | nil => rfl
  | cons run rest inductionHypothesis =>
      obtain ⟨apart, restCoalesced⟩ := coalesced_cons.mp coalesced
      rw [coalesce, inductionHypothesis restCoalesced, joinFront_of_apart apart]

theorem coalesce_append (front back : List Run) :
    coalesce (front ++ back) = front.foldr joinFront (coalesce back) := by
  induction front with
  | nil => rfl
  | cons run rest inductionHypothesis =>
      rw [List.cons_append, coalesce, inductionHypothesis, List.foldr_cons]

theorem RunsCoalesced.suffix {front back : List Run} (coalesced : RunsCoalesced (front ++ back)) :
    RunsCoalesced back := by
  induction front with
  | nil => exact coalesced
  | cons run rest inductionHypothesis => exact inductionHypothesis (coalesced_cons.mp coalesced).2

/-- Merging stops where what lies before cannot be merged with the result. -/
theorem coalesce_front {front back merged : List Run} (coalesced : RunsCoalesced (front ++ merged))
    (result : coalesce back = merged) : coalesce (front ++ back) = front ++ merged := by
  have stable := coalesce_of_coalesced coalesced
  rw [coalesce_append, coalesce_of_coalesced coalesced.suffix] at stable
  rw [coalesce_append, result, stable]

theorem joinFront_coalesced {run : Run} {rest : List Run} (coalesced : RunsCoalesced rest) :
    RunsCoalesced (joinFront run rest) := by
  cases rest with
  | nil => rfl
  | cons next others =>
      obtain ⟨apart, chain⟩ := coalesced_cons.mp coalesced
      by_cases joins : run.mergeable next = true
      · have alike : (⟨run.pages + next.pages, run.use, run.dirty⟩ : Run).mergeable =
            next.mergeable := by
          funext other
          simp only [Run.mergeable, Run.adjoins, Run.isFree, Bool.and_eq_true,
            decide_eq_true_eq, beq_iff_eq] at joins ⊢
          rw [joins.1.1, joins.1.2, joins.2]
        rw [joinFront, if_pos joins]
        refine coalesced_cons.mpr ⟨?_, chain⟩
        rw [Tiling.headTouches, alike]
        exact apart
      · rw [joinFront, if_neg joins]
        exact coalesced_cons.mpr ⟨by simpa using joins, coalesced⟩

/-- After merging there is nothing left to merge. -/
theorem coalesced_coalesce (layout : List Run) : RunsCoalesced (coalesce layout) := by
  induction layout with
  | nil => rfl
  | cons run rest inductionHypothesis => exact joinFront_coalesced inductionHypothesis

theorem coalesce_append_coalesce (front back : List Run) :
    coalesce (front ++ coalesce back) = coalesce (front ++ back) := by
  rw [coalesce_append, coalesce_append, coalesce_of_coalesced (coalesced_coalesce back)]

/-- Nothing is merged across a run that is not free. -/
theorem coalesce_taken {run : Run} (taken : run.isFree = false) (chain : RunsCoalesced before) :
    coalesce (before ++ run :: after) = before ++ run :: coalesce after := by
  have joined : coalesce (run :: after) = run :: coalesce after := by
    rw [coalesce, joinFront_of_apart]
    cases coalesce after with
    | nil => rfl
    | cons next rest => exact (Run.apart_of_not_free taken next).2.1
  exact coalesce_front ((coalesced_taken taken).mpr ⟨chain, coalesced_coalesce after⟩) joined

theorem coalesced_concat_free :
    RunsCoalesced (before ++ [⟨n, .free, dirty⟩]) ↔
      RunsCoalesced before ∧ Tiling.lastTouches Run.mergeable before ⟨n, .free, dirty⟩ = false := by
  unfold RunsCoalesced
  rw [Tiling.touching_append_cons]
  cases Tiling.lastTouches Run.mergeable before ⟨n, .free, dirty⟩ <;> simp

/-! ## Marking a run free -/

theorem onlyPages_unallocatedRun {chunk : ArenaChunk} {runInd : Nat} (positive : 0 < n) :
    OnlyPages chunk (Arena.unallocatedRun chunk runInd n dirty) runInd (runInd + n) := by
  unfold Arena.unallocatedRun
  cases dirty
  · exact ((OnlyPages.refl _ _ _).write (by omega)).write (by omega)
  · exact ((OnlyPages.refl _ _ _).write (by omega)).write (by omega)

theorem describes_unallocatedRun {chunk : ArenaChunk} {runInd : Nat} (positive : 0 < n) :
    Describes g (Arena.unallocatedRun chunk runInd n dirty) runInd ⟨n, .held, dirty⟩ := by
  refine ⟨positive, ?_⟩
  unfold Arena.unallocatedRun ArenaChunk.unallocatedSet MapBits.IsUnallocated
  by_cases single : runInd = runInd + n - 1
  · cases dirty <;> simp [← single]
  · cases dirty <;> simp [single]

/-- The size of an allocated run is found in its map elements or in its header. -/
theorem runSize_eq {chunk : ArenaChunk} {start : Nat} {run : Run}
    (describes : Describes g chunk start run) (allocated : run.inUse = true) :
    Arena.runSize g chunk start = some run.pages := by
  obtain ⟨positive, shape⟩ := describes
  unfold Arena.runSize
  revert allocated shape
  unfold Run.inUse
  cases run.use with
  | free => simp
  | held => simp
  | raw => simp
  | large =>
      rintro - ⟨⟨size, -, large, taken⟩, last⟩
      have first : chunk.largeSizeGet start = some run.pages := by
        simp [ArenaChunk.largeSizeGet, large, taken, size]
      have ends : run.pages = 1 ∨ chunk.largeSizeGet (start + run.pages - 1) = some 0 := by
        by_cases single : run.pages = 1
        · exact Or.inl single
        · obtain ⟨size', -, large', taken'⟩ := last (by omega)
          simp [ArenaChunk.largeSizeGet, large', taken', size']
      rw [if_pos large, first]
      simp only [Option.bind_eq_bind, Option.bind_some]
      rw [check_eq_some ends]
      rfl
  | small binind =>
      rintro - ⟨-, size, bin, pages, -⟩
      have notLarge := (pages 0 positive).2.2.1
      rw [Nat.add_zero] at notLarge
      simp [notLarge, bin, size]

/-! ## Coalescing -/

/-- The sizes at both ends make one run of two runs marked free. -/
theorem unallocatedSizeSet_join {chunk : ArenaChunk} {start : Nat}
    (left : Describes g chunk start ⟨n, .held, dirty⟩)
    (right : Describes g chunk (start + n) ⟨m, .held, dirty⟩) :
    ∃ first both, chunk.unallocatedSizeSet start (n + m) = some first ∧
      first.unallocatedSizeSet (start + (n + m) - 1) (n + m) = some both ∧
      Describes g both start ⟨n + m, .held, dirty⟩ ∧
      OnlyPages chunk both start (start + (n + m)) := by
  obtain ⟨leftPositive, ⟨-, startDirty, startLarge, startTaken⟩, -⟩ := left
  obtain ⟨rightPositive, -, ⟨-, endDirty, endLarge, endTaken⟩⟩ := right
  simp only at leftPositive rightPositive startDirty endDirty
  have last : start + n + m - 1 = start + (n + m) - 1 := by omega
  have apart : start + (n + m) - 1 ≠ start := by omega
  rw [last] at endDirty endLarge endTaken
  have firstOnly : OnlyPages chunk (chunk.write start { chunk.map start with high := n + m })
      start (start + (n + m)) := (OnlyPages.refl _ _ _).write (by omega)
  refine ⟨chunk.write start { chunk.map start with high := n + m },
    (chunk.write start { chunk.map start with high := n + m }).write (start + (n + m) - 1)
      { chunk.map (start + (n + m) - 1) with high := n + m }, ?_, ?_, ?_,
    firstOnly.write (by omega)⟩
  · unfold ArenaChunk.unallocatedSizeSet
    rw [if_pos ⟨startLarge, startTaken⟩]
  · simp only [ArenaChunk.unallocatedSizeSet, ArenaChunk.write_map, if_neg apart]
    rw [if_pos ⟨endLarge, endTaken⟩]
  · refine ⟨by simp only; omega, ⟨?_, ?_⟩⟩
    · simp [MapBits.IsUnallocated, apart.symm, startDirty, startLarge, startTaken]
    · simp [MapBits.IsUnallocated, endDirty, endLarge, endTaken]

/-- No run is half way through an operation. -/
def AllSettled (layout : List Run) : Prop := ∀ run ∈ layout, run.settled = true

theorem AllSettled.head (settled : AllSettled after) : Quiet true after.head? :=
  fun run member => settled run (List.mem_of_mem_head? member)

theorem AllSettled.last (settled : AllSettled before) : Quiet true before.getLast? :=
  fun run member => settled run (List.mem_of_getLast? member)

namespace Books

/-- Coalescing forward takes an equally dirty free run behind the one freed. -/
theorem coalesceForward_merge (books : Books g owned layouts others arena) (owns : c ∈ owned)
    (layout : layouts c = before ++ ⟨n, .held, dirty⟩ :: ⟨m, .free, dirty⟩ :: after)
    (settledAfter : AllSettled after) :
    ∃ arena', arena.coalesceForward g c ⟨g.mapBias + pagesOf before, n⟩ dirty =
        some (arena', ⟨g.mapBias + pagesOf before, n + m⟩) ∧
      Books g owned (Function.update layouts c (before ++ ⟨n + m, .held, dirty⟩ :: after)) others
        arena' ∧ Frame arena arena' := by
  have old := books.chunk c owns
  rw [layout] at old
  have parts := old.holds
  simp only [Holds.append_iff, Holds.cons_iff] at parts
  obtain ⟨-, -, described, -⟩ := parts
  have first := described.first (by simp)
  have sizes := described.unallocatedSizeGet (Or.inl rfl)
  have last := (described.last (by simp)).2
  have positive := described.pages_pos
  have covers := old.covers
  simp only [pagesOf_append, pagesOf_cons] at covers first sizes last positive
  rw [List.append_cons] at layout
  obtain ⟨removed, result, removedBooks, same⟩ := books.availRemove owns layout false true
    (by simp [Quiet, Run.isFree]) settledAfter.head
  have position : g.mapBias + pagesOf (before ++ [⟨n, .held, dirty⟩]) =
      g.mapBias + pagesOf before + n := by simp [Nat.add_assoc]
  rw [position] at result
  have parts := (removedBooks.chunk c owns).holds
  simp only [Function.update_self, Holds.append_iff, Holds.cons_iff] at parts
  obtain ⟨⟨-, left, -⟩, right, -⟩ := parts
  rw [position] at right
  obtain ⟨head, both, headSet, bothSet, joined, only⟩ := unallocatedSizeSet_join left right
  have written := removedBooks.rewriteChunk before [⟨n, .held, dirty⟩, ⟨m, .held, dirty⟩]
    [⟨n + m, .held, dirty⟩] after both owns (by simp)
    (by simp) (by simp [Run.isFree]) (by simp) (by simp [Run.isFree]) (by simp)
    (by simpa using only) (by simpa using joined) (by simp [Run.active])
  refine ⟨removed.setChunk c both, ?_, by simpa using written, ⟨same.spare, same.npurgatory⟩⟩
  have inside : g.mapBias + pagesOf before + n < g.chunkNpages := by omega
  simp only [Arena.coalesceForward]
  rw [if_pos ⟨inside, first.1, first.2⟩]
  simp only [sizes.1, Option.bind_eq_bind, Option.bind_some]
  rw [check_eq_some sizes.2, check_eq_some last]
  simp only [Option.bind_some, result, headSet, bothSet]

/-- Coalescing backward takes an equally dirty free run before the one freed. -/
theorem coalesceBackward_merge (books : Books g owned layouts others arena) (owns : c ∈ owned)
    (layout : layouts c = before ++ ⟨m, .free, dirty⟩ :: ⟨n, .held, dirty⟩ :: after)
    (settledBefore : AllSettled before) :
    ∃ arena', arena.coalesceBackward g c ⟨g.mapBias + pagesOf before + m, n⟩ dirty =
        some (arena', ⟨g.mapBias + pagesOf before, m + n⟩) ∧
      Books g owned (Function.update layouts c (before ++ ⟨m + n, .held, dirty⟩ :: after)) others
        arena' ∧ Frame arena arena' := by
  have old := books.chunk c owns
  rw [layout] at old
  have parts := old.holds
  simp only [Holds.append_iff, Holds.cons_iff] at parts
  obtain ⟨-, described, -, -⟩ := parts
  have first := described.first (by simp)
  have sizes := described.unallocatedSizeGet (Or.inl rfl)
  have last := described.last (by simp)
  have positive := described.pages_pos
  simp only at first sizes last positive
  obtain ⟨removed, result, removedBooks, same⟩ := books.availRemove owns layout true false
    settledBefore.last (by simp [Quiet, Run.isFree])
  have parts := (removedBooks.chunk c owns).holds
  simp only [Function.update_self, Holds.append_iff, Holds.cons_iff] at parts
  obtain ⟨-, left, right, -⟩ := parts
  obtain ⟨head, both, headSet, bothSet, joined, only⟩ := unallocatedSizeSet_join left right
  have written := removedBooks.rewriteChunk before [⟨m, .held, dirty⟩, ⟨n, .held, dirty⟩]
    [⟨m + n, .held, dirty⟩] after both owns (by simp)
    (by simp) (by simp [Run.isFree]) (by simp) (by simp [Run.isFree]) (by simp)
    (by simpa using only) (by simpa using joined) (by simp [Run.active])
  refine ⟨removed.setChunk c both, ?_, by simpa using written, ⟨same.spare, same.npurgatory⟩⟩
  have inside : g.mapBias < g.mapBias + pagesOf before + m := by omega
  have begin_ : g.mapBias + pagesOf before + m - m = g.mapBias + pagesOf before := by omega
  simp only [Arena.coalesceBackward]
  rw [if_pos ⟨inside, last.1, last.2⟩]
  simp only [sizes.2, Option.bind_eq_bind, Option.bind_some, begin_]
  rw [check_eq_some sizes.1, check_eq_some first.2]
  simp only [Option.bind_some, result, Nat.add_comm n m, headSet, bothSet]

/-- Coalescing forward makes the run freed as long as it can be. -/
theorem coalesceForward (books : Books g owned layouts others arena) (owns : c ∈ owned)
    (layout : layouts c = before ++ ⟨n, .held, dirty⟩ :: after)
    (settledAfter : AllSettled after) :
    ∃ arena' size after',
      arena.coalesceForward g c ⟨g.mapBias + pagesOf before, n⟩ dirty =
        some (arena', ⟨g.mapBias + pagesOf before, size⟩) ∧
      Books g owned (Function.update layouts c (before ++ ⟨size, .held, dirty⟩ :: after')) others
        arena' ∧
      Frame arena arena' ∧ AllSettled after' ∧
      coalesce (⟨n, .free, dirty⟩ :: after) = ⟨size, .free, dirty⟩ :: after' ∧
      RunsCoalesced (⟨size, .free, dirty⟩ :: after') := by
  have old := books.chunk c owns
  rw [layout] at old
  have chainAfter := ((coalesced_taken rfl).mp old.coalesced).2
  have parts := old.holds
  simp only [Holds.append_iff, Holds.cons_iff] at parts
  obtain ⟨-, -, holdsAfter⟩ := parts
  have covers := old.covers
  simp only [pagesOf_append, pagesOf_cons] at covers
  by_cases joins : Tiling.headTouches Run.mergeable ⟨n, .free, dirty⟩ after = true
  · obtain _ | ⟨⟨m, use, dirty'⟩, rest⟩ := after
    · simp at joins
    obtain ⟨rfl, rfl⟩ : use = .free ∧ dirty = dirty' := by
      simpa [Run.mergeable, Run.adjoins, Run.isFree] using joins
    obtain ⟨arena', result, newBooks, frame⟩ := books.coalesceForward_merge owns layout
      fun run member => settledAfter run (by simp [member])
    obtain ⟨apart, chainRest⟩ := coalesced_cons.mp chainAfter
    refine ⟨arena', n + m, rest, result, newBooks, frame,
      fun run member => settledAfter run (by simp [member]), ?_, ?_⟩
    · rw [coalesce, coalesce_of_coalesced chainAfter]
      simp [joinFront, Run.mergeable, Run.adjoins, Run.isFree]
    · exact coalesced_cons.mpr ⟨apart, chainRest⟩
  · rw [Bool.not_eq_true] at joins
    have chain : RunsCoalesced (⟨n, .free, dirty⟩ :: after) :=
      coalesced_cons.mpr ⟨joins, chainAfter⟩
    refine ⟨arena, n, after, ?_, ?_, ⟨rfl, rfl⟩, settledAfter, coalesce_of_coalesced chain, chain⟩
    · simp only [Arena.coalesceForward]
      rw [if_neg]
      rintro ⟨inside, free, same⟩
      cases after with
      | nil =>
          rw [pagesOf_nil] at covers
          omega
      | cons next rest =>
          have settled := settledAfter next (by simp)
          rw [Holds.cons_iff] at holdsAfter
          have first := holdsAfter.1.first (Run.use_ne_raw_of_settled settled)
          rw [Run.inUse_of_settled settled, free, same] at first
          simp [Run.mergeable, Run.adjoins, Run.isFree] at joins first
          exact joins first.1 first.2
    · rwa [← layout, Function.update_eq_self]

/-- Coalescing backward makes the run freed start as early as it can. -/
theorem coalesceBackward (books : Books g owned layouts others arena) (owns : c ∈ owned)
    (layout : layouts c = before ++ ⟨n, .held, dirty⟩ :: after)
    (settledBefore : AllSettled before) (chain : RunsCoalesced (⟨n, .free, dirty⟩ :: after)) :
    ∃ arena' size before',
      arena.coalesceBackward g c ⟨g.mapBias + pagesOf before, n⟩ dirty =
        some (arena', ⟨g.mapBias + pagesOf before', size⟩) ∧
      Books g owned (Function.update layouts c (before' ++ ⟨size, .held, dirty⟩ :: after)) others
        arena' ∧
      Frame arena arena' ∧ AllSettled before' ∧
      RunsCoalesced (before' ++ ⟨size, .free, dirty⟩ :: after) ∧
      ∀ back, coalesce back = ⟨n, .free, dirty⟩ :: after →
        coalesce (before ++ back) = before' ++ ⟨size, .free, dirty⟩ :: after := by
  have old := books.chunk c owns
  rw [layout] at old
  have chainBefore := ((coalesced_taken rfl).mp old.coalesced).1
  have parts := old.holds
  simp only [Holds.append_iff, Holds.cons_iff] at parts
  obtain ⟨holdsBefore, -, -⟩ := parts
  obtain ⟨apartAfter, chainAfter⟩ := coalesced_cons.mp chain
  by_cases joins : Tiling.lastTouches Run.mergeable before ⟨n, .free, dirty⟩ = true
  · rcases List.eq_nil_or_concat before with rfl | ⟨rest, ⟨m, use, dirty'⟩, rfl⟩
    · simp at joins
    rw [List.concat_eq_append] at *
    rw [Tiling.lastTouches_concat] at joins
    obtain ⟨rfl, rfl⟩ : use = .free ∧ dirty' = dirty := by
      simpa [Run.mergeable, Run.adjoins, Run.isFree] using joins
    have settledRest : AllSettled rest := fun run member => settledBefore run (by simp [member])
    have position : g.mapBias + pagesOf (rest ++ [⟨m, .free, dirty'⟩]) =
        g.mapBias + pagesOf rest + m := by simp [Nat.add_assoc]
    obtain ⟨chainRest, apartRest⟩ := coalesced_concat_free.mp chainBefore
    have merged : RunsCoalesced (rest ++ ⟨m + n, .free, dirty'⟩ :: after) :=
      coalesced_free.mpr ⟨chainRest, chainAfter, apartRest, apartAfter⟩
    rw [List.append_assoc, List.singleton_append] at layout
    obtain ⟨arena', result, newBooks, frame⟩ := books.coalesceBackward_merge owns layout settledRest
    refine ⟨arena', m + n, rest, by rw [position, result], newBooks, frame, settledRest, merged,
      fun back joined => ?_⟩
    rw [List.append_assoc, List.singleton_append]
    refine coalesce_front merged ?_
    rw [coalesce, joined]
    simp [joinFront, Run.mergeable, Run.adjoins, Run.isFree]
  · rw [Bool.not_eq_true] at joins
    have whole : RunsCoalesced (before ++ ⟨n, .free, dirty⟩ :: after) :=
      coalesced_free.mpr ⟨chainBefore, chainAfter, joins, apartAfter⟩
    refine ⟨arena, n, before, ?_, ?_, ⟨rfl, rfl⟩, settledBefore, whole,
      fun back joined => coalesce_front whole joined⟩
    · simp only [Arena.coalesceBackward]
      rw [if_neg]
      rintro ⟨inside, free, same⟩
      rcases List.eq_nil_or_concat before with rfl | ⟨rest, last, rfl⟩
      · rw [pagesOf_nil] at inside
        omega
      · rw [List.concat_eq_append] at *
        have settled := settledBefore last (by simp)
        rw [Holds.append_iff, Holds.cons_iff] at holdsBefore
        have ends := holdsBefore.2.1.last (Run.use_ne_raw_of_settled settled)
        have page : g.mapBias + pagesOf (rest ++ [last]) - 1 =
            g.mapBias + pagesOf rest + last.pages - 1 := by simp [Nat.add_assoc]
        rw [page] at free same
        rw [Run.inUse_of_settled settled, free, same] at ends
        simp [Run.mergeable, Run.adjoins, Run.isFree] at joins ends
        exact joins ends.1 ends.2.symm
    · rwa [← layout, Function.update_eq_self]

/-- `arena_run_coalesce` merges the run freed with both neighbours. -/
theorem runCoalesce (books : Books g owned layouts others arena) (owns : c ∈ owned)
    (layout : layouts c = before ++ ⟨n, .held, dirty⟩ :: after)
    (settledBefore : AllSettled before) (settledAfter : AllSettled after) :
    ∃ arena' size before' after',
      arena.runCoalesce g c ⟨g.mapBias + pagesOf before, n⟩ dirty =
        some (arena', ⟨g.mapBias + pagesOf before', size⟩) ∧
      Books g owned (Function.update layouts c (before' ++ ⟨size, .held, dirty⟩ :: after')) others
        arena' ∧
      Frame arena arena' ∧ AllSettled before' ∧ AllSettled after' ∧
      RunsCoalesced (before' ++ ⟨size, .free, dirty⟩ :: after') ∧
      coalesce (before ++ ⟨n, .free, dirty⟩ :: after) =
        before' ++ ⟨size, .free, dirty⟩ :: after' := by
  obtain ⟨forward, middleSize, after', forwardResult, forwardBooks, forwardFrame, settledAfter',
    joined, chain⟩ := books.coalesceForward owns layout settledAfter
  obtain ⟨backward, size, before', backwardResult, backwardBooks, backwardFrame, settledBefore',
    coalesced, joinedBack⟩ := forwardBooks.coalesceBackward owns (Function.update_self _ _ _)
      settledBefore chain
  refine ⟨backward, size, before', after', ?_, by simpa using backwardBooks,
    forwardFrame.trans backwardFrame, settledBefore', settledAfter', coalesced,
    joinedBack _ joined⟩
  simp only [Arena.runCoalesce, forwardResult, Option.bind_eq_bind, Option.bind_some,
    backwardResult]

end Books

end Jemalloc
end Vmem
