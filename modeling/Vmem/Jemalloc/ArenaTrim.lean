import Vmem.Jemalloc.ArenaDalloc

/-!
# Trimming and resizing runs

The two functions that trim a large run first make two large runs of it and then free one.
A small run whose last pages were never touched is made large to be trimmed, and a large
run grows by taking the first pages of a free run behind it.
-/

namespace Vmem
namespace Jemalloc

variable {g : Geometry} {owned : Finset Nat} {layouts : Nat → List Run} {others : Nat}
  {arena : Arena} {c : Nat} {before after : List Run} {n first second : Nat} {dirty : Bool}

/-! ## One large run becomes two -/

section Cut

variable {chunk : ArenaChunk} {start : Nat}

/-- A large run that is cut: the last element of the first part is written first. -/
def cutLarge (chunk : ArenaChunk) (start first second : Nat) (dirty : Bool) : ArenaChunk :=
  ((chunk.largeSet (start + first - 1) 0 dirty).largeSet start first dirty).largeSet
    (start + first) second dirty

theorem describes_cutLarge (whole : Describes g chunk start ⟨first + second, .large, dirty⟩)
    (firstPositive : 0 < first) (secondPositive : 0 < second) :
    Describes g (cutLarge chunk start first second dirty) start ⟨first, .large, dirty⟩ ∧
      Describes g (cutLarge chunk start first second dirty) (start + first)
        ⟨second, .large, dirty⟩ := by
  obtain ⟨-, -, last⟩ := whole
  obtain ⟨size, isDirty, large, allocated⟩ := last (by simp only; omega)
  simp only at size isDirty large allocated
  have end_ : start + first + second - 1 = start + (first + second) - 1 := by omega
  have apart : start + first - 1 ≠ start + first := by omega
  have nonzero : first ≠ 0 := by omega
  refine ⟨⟨firstPositive, ?_, fun several => ?_⟩, ⟨secondPositive, ?_, fun several => ?_⟩⟩
  · simp [cutLarge, ArenaChunk.largeSet, MapBits.IsLarge, nonzero]
  · have : start + first - 1 ≠ start := by simp only at several; omega
    simp [cutLarge, ArenaChunk.largeSet, MapBits.IsLarge, apart, this]
  · simp [cutLarge, ArenaChunk.largeSet, MapBits.IsLarge]
  · simp only at several
    have notFirst : start + (first + second) - 1 ≠ start := by omega
    have notMiddle : start + (first + second) - 1 ≠ start + first - 1 := by omega
    have notSecond : start + (first + second) - 1 ≠ start + first := by omega
    simp [cutLarge, ArenaChunk.largeSet, MapBits.IsLarge, end_, notFirst, notMiddle, notSecond,
      size, isDirty, large, allocated]

theorem onlyPages_cutLarge (firstPositive : 0 < first) (secondPositive : 0 < second) :
    OnlyPages chunk (cutLarge chunk start first second dirty) start (start + (first + second)) :=
  (((OnlyPages.refl _ _ _).write (by omega)).write (by omega)).write (by omega)

/-- What the debug code of the two functions finds behind the first part. -/
theorem cutLarge_last (whole : Describes g chunk start ⟨first + second, .large, dirty⟩)
    (firstPositive : 0 < first) (secondPositive : 0 < second) :
    ((chunk.largeSet (start + first - 1) 0 dirty).largeSet start first dirty).largeSizeGet
        (start + first + second - 1) = some 0 ∧
      (((chunk.largeSet (start + first - 1) 0 dirty).largeSet start first dirty).map
        (start + first + second - 1)).dirty = dirty := by
  obtain ⟨-, -, last⟩ := whole
  obtain ⟨size, isDirty, large, allocated⟩ := last (by simp only; omega)
  simp only at size isDirty large allocated
  have end_ : start + first + second - 1 = start + (first + second) - 1 := by omega
  have notFirst : start + (first + second) - 1 ≠ start := by omega
  have notMiddle : start + (first + second) - 1 ≠ start + first - 1 := by omega
  simp [ArenaChunk.largeSizeGet, ArenaChunk.largeSet, end_, notFirst, notMiddle, size, isDirty,
    large, allocated]

end Cut

theorem largeSizeGet_of_describes {chunk : ArenaChunk} {start : Nat}
    (described : Describes g chunk start ⟨n, .large, dirty⟩) :
    chunk.largeSizeGet start = some n := by
  obtain ⟨-, ⟨size, -, large, allocated⟩, -⟩ := described
  simp [ArenaChunk.largeSizeGet, large, allocated, size]

theorem AllSettled.cons {run : Run} (settled : AllSettled after) (own : run.settled = true) :
    AllSettled (run :: after) := by
  intro other member
  rcases List.mem_cons.mp member with rfl | member
  · exact own
  · exact settled other member

theorem AllSettled.concat {run : Run} (settled : AllSettled before) (own : run.settled = true) :
    AllSettled (before ++ [run]) := by
  intro other member
  rcases List.mem_append.mp member with member | member
  · exact settled other member
  · rw [List.mem_singleton.mp member]
    exact own

namespace Books

/-- A cut changes no book. -/
theorem cut (books : Books g owned layouts others arena) (owns : c ∈ owned)
    (layout : layouts c = before ++ ⟨first + second, .large, dirty⟩ :: after)
    (firstPositive : 0 < first) (secondPositive : 0 < second) :
    Books g owned (Function.update layouts c
        (before ++ ⟨first, .large, dirty⟩ :: ⟨second, .large, dirty⟩ :: after)) others
      (arena.setChunk c
        (cutLarge (arena.chunks c) (g.mapBias + pagesOf before) first second dirty)) := by
  have described : Describes g (arena.chunks c) (g.mapBias + pagesOf before)
      ⟨first + second, .large, dirty⟩ :=
    books.described owns layout
  have parts := describes_cutLarge described firstPositive secondPositive
  have written := books.rewriteChunk before [⟨first + second, .large, dirty⟩]
    [⟨first, .large, dirty⟩, ⟨second, .large, dirty⟩] after
    (cutLarge (arena.chunks c) (g.mapBias + pagesOf before) first second dirty) owns
    (by simp [layout]) (by simp) (by simp [Run.isFree]) (by simp) (by simp [Run.isFree]) (by simp)
    (by simpa using onlyPages_cutLarge firstPositive secondPositive) (by simpa using parts)
    (by simp [Run.active])
  simpa using written

/-- `arena_run_trim_head` frees the first pages of a large run. -/
theorem runTrimHead (books : Books g owned layouts others arena) (owns : c ∈ owned)
    (layout : layouts c = before ++ ⟨first + second, .large, dirty⟩ :: after)
    (settledBefore : AllSettled before) (settledAfter : AllSettled after)
    (firstPositive : 0 < first) (secondPositive : 0 < second) :
    ∃ arena' given,
      arena.runTrimHead g c (g.mapBias + pagesOf before) (first + second) second =
        some (arena', given, dirty) ∧
      Freed g owned layouts others arena c
        (coalesce (before ++ ⟨first, .free, dirty⟩ :: ⟨second, .large, dirty⟩ :: after)) dirty
        arena' given := by
  have described : Describes g (arena.chunks c) (g.mapBias + pagesOf before)
      ⟨first + second, .large, dirty⟩ :=
    books.described owns layout
  have cutBooks := books.cut owns layout firstPositive secondPositive
  obtain ⟨arena', given, result, freed⟩ := cutBooks.runDalloc owns (Function.update_self _ _ _)
    rfl settledBefore (settledAfter.cons rfl) false false
  refine ⟨arena', given, ?_, freed.of_edit ⟨rfl, rfl⟩⟩
  have isDirty : ((arena.chunks c).map (g.mapBias + pagesOf before)).dirty = dirty :=
    (described.first (by simp)).2
  have head : first + second - second = first := by omega
  have smaller : second < first + second := by omega
  have whole : (arena.chunks c).largeSizeGet (g.mapBias + pagesOf before) =
      some (first + second) := largeSizeGet_of_describes described
  obtain ⟨last, lastDirty⟩ := cutLarge_last described firstPositive secondPositive
  simp only [Arena.runTrimHead, head, isDirty]
  rw [check_eq_some smaller, check_eq_some whole]
  simp only [Option.bind_eq_bind, Option.bind_some]
  rw [check_eq_some last, check_eq_some lastDirty]
  simpa [cutLarge] using result

/-- `arena_run_trim_tail` frees the last pages of a large run. -/
theorem runTrimTail (books : Books g owned layouts others arena) (owns : c ∈ owned)
    (layout : layouts c = before ++ ⟨first + second, .large, dirty⟩ :: after)
    (settledBefore : AllSettled before) (settledAfter : AllSettled after)
    (firstPositive : 0 < first) (secondPositive : 0 < second) (dirtied : Bool) :
    ∃ arena' given,
      arena.runTrimTail g c (g.mapBias + pagesOf before) (first + second) first dirtied =
        some (arena', given, dirtied || dirty) ∧
      Freed g owned layouts others arena c
        (coalesce (before ++ ⟨first, .large, dirty⟩ :: ⟨second, .free, dirtied || dirty⟩ :: after))
        (dirtied || dirty) arena' given := by
  have described : Describes g (arena.chunks c) (g.mapBias + pagesOf before)
      ⟨first + second, .large, dirty⟩ :=
    books.described owns layout
  have cutBooks := books.cut owns layout firstPositive secondPositive
  have around : before ++ ⟨first, .large, dirty⟩ :: ⟨second, .large, dirty⟩ :: after =
      (before ++ [⟨first, .large, dirty⟩]) ++ ⟨second, .large, dirty⟩ :: after := by simp
  rw [around] at cutBooks
  obtain ⟨arena', given, result, freed⟩ := cutBooks.runDalloc owns (Function.update_self _ _ _)
    rfl (settledBefore.concat rfl) settledAfter dirtied false
  have frame : Frame arena (arena.setChunk c (cutLarge (arena.chunks c)
      (g.mapBias + pagesOf before) first second dirty)) := ⟨rfl, rfl⟩
  have edited := freed.of_edit frame
  refine ⟨arena', given, ?_, by simpa using edited⟩
  have isDirty : ((arena.chunks c).map (g.mapBias + pagesOf before)).dirty = dirty :=
    (described.first (by simp)).2
  have tail : first + second - first = second := by omega
  have smaller : first < first + second := by omega
  have whole : (arena.chunks c).largeSizeGet (g.mapBias + pagesOf before) =
      some (first + second) := largeSizeGet_of_describes described
  obtain ⟨last, lastDirty⟩ := cutLarge_last described firstPositive secondPositive
  simp only [Arena.runTrimTail, tail, isDirty]
  rw [check_eq_some smaller, check_eq_some whole]
  simp only [Option.bind_eq_bind, Option.bind_some]
  rw [check_eq_some last, check_eq_some lastDirty]
  simpa [cutLarge, Nat.add_assoc] using result

/-- What remains of a run of a bin: a run that was clean keeps its pages that were never
touched as a clean run. -/
def binRunFreed (n used : Nat) (dirty : Bool) : List Run :=
  if dirty = false ∧ used < n then [⟨used, .free, true⟩, ⟨n - used, .free, false⟩]
  else [⟨n, .free, true⟩]

/-- A chunk in which a run is in use does not become the spare one. -/
theorem Freed.of_inUse {merged : List Run} {arena' : Arena} {given : Option Nat}
    (freed : Freed g owned layouts others arena c merged dirty arena' given) (run : Run)
    (member : run ∈ merged) (allocated : run.inUse = true) :
    given = none ∧ AllSettled merged ∧
      Books g owned (Function.update layouts c merged) others arena' ∧ Frame arena arena' := by
  cases freed with
  | kept notWhole settled books frame => exact ⟨rfl, settled, books, frame⟩
  | spared whole books spare npurgatory =>
      rw [whole, List.mem_singleton] at member
      rw [member] at allocated
      simp [wholeRun, Run.inUse] at allocated

/-- The pages that were never touched become a clean free run. -/
theorem trimUntouched (books : Books g owned layouts others arena) (owns : c ∈ owned)
    {binind used rest : Nat}
    (layout : layouts c = before ++ ⟨used + rest, .small binind, false⟩ :: after)
    (settledBefore : AllSettled before) (settledAfter : AllSettled after)
    (usedPositive : 0 < used) (restPositive : 0 < rest) :
    ∃ arena', arena.trimUntouched g c (g.mapBias + pagesOf before) (used + rest)
        (g.mapBias + pagesOf before + used) = some (arena', none) ∧
      Books g owned (Function.update layouts c (before ++ ⟨used, .large, false⟩ ::
        coalesce (⟨rest, .free, false⟩ :: after))) others arena' ∧
      AllSettled (coalesce (⟨rest, .free, false⟩ :: after)) ∧ Frame arena arena' := by
  have old := books.chunk c owns
  rw [layout] at old
  have chainBefore := ((coalesced_taken rfl).mp old.coalesced).1
  have described : Describes g (arena.chunks c) (g.mapBias + pagesOf before)
      ⟨used + rest, .small binind, false⟩ :=
    old.holds.described
  have clean : ((arena.chunks c).map (g.mapBias + pagesOf before)).dirty = false :=
    (described.first (by simp)).2
  generalize position : g.mapBias + pagesOf before = start at *
  have apart : start ≠ start + (used + rest) - 1 := by omega
  have large : Describes g (((arena.chunks c).largeSet start (used + rest) false).largeSet
      (start + (used + rest) - 1) 0 false) start ⟨used + rest, .large, false⟩ := by
    refine ⟨by simp only; omega, ?_, fun _ => ?_⟩
    · simp [ArenaChunk.largeSet, MapBits.IsLarge, apart]
    · simp [ArenaChunk.largeSet, MapBits.IsLarge]
  have only : OnlyPages (arena.chunks c) (((arena.chunks c).largeSet start (used + rest)
      false).largeSet (start + (used + rest) - 1) 0 false) start (start + (used + rest)) :=
    ((OnlyPages.refl _ _ _).write (by omega)).write (by omega)
  have converted := books.rewriteChunk before [⟨used + rest, .small binind, false⟩]
    [⟨used + rest, .large, false⟩] after
    (((arena.chunks c).largeSet start (used + rest) false).largeSet
      (start + (used + rest) - 1) 0 false) owns (by simp [layout]) (by simp)
    (by simp [Run.isFree]) (by simp) (by simp [Run.isFree]) (by simp)
    (by simpa [position] using only) (by simpa [position] using large) (by simp [Run.active])
  rw [List.append_assoc, List.singleton_append] at converted
  obtain ⟨arena', given, result, freed⟩ := converted.runTrimTail owns (Function.update_self _ _ _)
    settledBefore settledAfter usedPositive restPositive false
  rw [coalesce_taken rfl chainBefore, Bool.or_self] at freed
  obtain ⟨rfl, settled, newBooks, frame⟩ := freed.of_inUse ⟨used, .large, false⟩ (by simp) rfl
  refine ⟨arena', ?_, by simpa using newBooks, fun run member => settled run (by simp [member]),
    ⟨frame.spare, frame.npurgatory⟩⟩
  have smaller : start + used - start < used + rest := by omega
  have kept : start + used - start = used := by omega
  unfold Arena.trimUntouched
  simp only
  rw [if_pos ⟨clean, smaller⟩, kept]
  rw [position] at result
  simp only [result, Option.bind_eq_bind, Option.bind_some]

/-- `arena_dalloc_bin_run` frees the run of a bin. -/
theorem dallocBinRun (books : Books g owned layouts others arena) (owns : c ∈ owned)
    {binind used : Nat} (layout : layouts c = before ++ ⟨n, .small binind, dirty⟩ :: after)
    (settledBefore : AllSettled before) (settledAfter : AllSettled after) (positive : 0 < used) :
    ∃ arena' given,
      arena.dallocBinRun g c (g.mapBias + pagesOf before) (g.mapBias + pagesOf before + used) =
        some (arena', given.toList, true) ∧
      Freed g owned layouts others arena c (coalesce (before ++ binRunFreed n used dirty ++ after))
        true arena' given := by
  have old := books.chunk c owns
  rw [layout] at old
  have described : Describes g (arena.chunks c) (g.mapBias + pagesOf before)
      ⟨n, .small binind, dirty⟩ :=
    old.holds.described
  have first : ((arena.chunks c).map (g.mapBias + pagesOf before)).dirty = dirty :=
    (described.first (by simp)).2
  have last : ((arena.chunks c).map (g.mapBias + pagesOf before + n - 1)).dirty = dirty :=
    (described.last (by simp)).2
  obtain ⟨-, -, pages, bin, -⟩ := described
  simp only at pages bin
  have begun : arena.dallocBinRun g c (g.mapBias + pagesOf before)
      (g.mapBias + pagesOf before + used) = (do
        let trimmed ← arena.trimUntouched g c (g.mapBias + pagesOf before) n
          (g.mapBias + pagesOf before + used)
        let freed ← trimmed.1.runDalloc g c (g.mapBias + pagesOf before) true false
        some (freed.1, trimmed.2.toList ++ freed.2.1.toList, freed.2.2)) := by
    unfold Arena.dallocBinRun
    simp only [bin, ← pages]
    rw [check_eq_some (first.trans last.symm)]
    rfl
  by_cases trims : dirty = false ∧ used < n
  · obtain ⟨rfl, smaller⟩ := trims
    obtain ⟨rest, rfl⟩ := Nat.exists_eq_add_of_lt smaller
    rw [Nat.add_assoc] at layout
    obtain ⟨trimmed, trimResult, trimBooks, settledTail, trimFrame⟩ :=
      books.trimUntouched owns layout settledBefore settledAfter positive (Nat.succ_pos rest)
    obtain ⟨arena', given, result, freed⟩ := trimBooks.runDalloc owns (Function.update_self _ _ _)
      rfl settledBefore settledTail true false
    have edited := freed.of_edit trimFrame
    refine ⟨arena', given, ?_, ?_⟩
    · rw [begun, Nat.add_assoc, trimResult]
      simp [result]
    · have parts : binRunFreed (used + rest + 1) used false =
          [⟨used, .free, true⟩, ⟨rest + 1, .free, false⟩] := by
        have : used + rest + 1 - used = rest + 1 := by omega
        simp [binRunFreed, smaller, this]
      have merged : coalesce (before ++ ⟨used, .free, true⟩ ::
            coalesce (⟨rest + 1, .free, false⟩ :: after)) =
          coalesce (before ++ binRunFreed (used + rest + 1) used false ++ after) := by
        rw [parts, List.append_cons, coalesce_append_coalesce]
        simp
      rw [← merged]
      exact edited
  · obtain ⟨arena', given, result, freed⟩ := books.runDalloc owns layout rfl settledBefore
      settledAfter true false
    have idle : arena.trimUntouched g c (g.mapBias + pagesOf before) n
        (g.mapBias + pagesOf before + used) = some (arena, none) := by
      unfold Arena.trimUntouched
      simp only [first, Nat.add_sub_cancel_left]
      rw [if_neg trims]
    refine ⟨arena', given, ?_, ?_⟩
    · rw [begun, idle]
      simp [result]
    · have parts : binRunFreed n used dirty = [⟨n, .free, true⟩] := by
        rw [binRunFreed, if_neg trims]
      rw [parts, List.append_assoc, List.singleton_append]
      exact freed

/-- What `arena_ralloc_large_grow` makes of a large run and the runs behind it: the run grows
if a free run of enough pages follows, by all it can get. -/
inductive Grown (pages wanted extra : Nat) (dirty : Bool) : List Run → List Run → Prop
  | extended (n : Nat) (dirtyNext : Bool) (rest : List Run)
      (enough : pages ≤ wanted ∧ wanted - pages ≤ n) :
      Grown pages wanted extra dirty (⟨n, .free, dirtyNext⟩ :: rest)
        (⟨pages + min n (wanted + extra - pages), .large, dirty || dirtyNext⟩ ::
          (restOf n (min n (wanted + extra - pages)) dirtyNext ++ rest))

/-- The free run behind a large one is split, and the first part joins the large run. -/
theorem extendLarge (books : Books g owned layouts others arena) (owns : c ∈ owned)
    {m split : Nat} {dirtyNext : Bool}
    (layout : layouts c = before ++ ⟨n, .large, dirty⟩ :: ⟨m, .free, dirtyNext⟩ :: after)
    (settledAfter : AllSettled after) (positive : 0 < split) (fits : split ≤ m) :
    ∃ taken, arena.runSplitLarge g c (g.mapBias + pagesOf before + n) split = some taken ∧
      ((taken.chunks c).map (g.mapBias + pagesOf before)).dirty = dirty ∧
      ((taken.chunks c).map (g.mapBias + pagesOf before + (n + split) - 1)).dirty = dirtyNext ∧
      Books g owned (Function.update layouts c (before ++
          ⟨n + split, .large, dirty || dirtyNext⟩ :: (restOf m split dirtyNext ++ after))) others
        (taken.setChunk c (((taken.chunks c).largeSet (g.mapBias + pagesOf before) (n + split)
          (dirty || dirtyNext)).largeSet (g.mapBias + pagesOf before + (n + split) - 1) 0
            (dirty || dirtyNext))) ∧
      Frame arena taken := by
  rw [List.append_cons] at layout
  obtain ⟨taken, result, takenBooks, frame⟩ := splits_large positive books owns layout
    (by simp [Quiet, Run.settled]) settledAfter.head fits
  have position : g.mapBias + pagesOf (before ++ [⟨n, .large, dirty⟩]) =
      g.mapBias + pagesOf before + n := by simp [Nat.add_assoc]
  rw [position] at result
  have parts := (takenBooks.chunk c owns).holds
  simp only [Function.update_self, Holds.append_iff, Holds.cons_iff, position] at parts
  obtain ⟨⟨-, left, -⟩, right, -⟩ := parts
  have nPositive := left.pages_pos
  simp only at nPositive
  have last : g.mapBias + pagesOf before + n + split - 1 =
      g.mapBias + pagesOf before + (n + split) - 1 := by omega
  have ends := (right.last (by simp)).2
  simp only [last] at ends
  have apart : g.mapBias + pagesOf before ≠ g.mapBias + pagesOf before + (n + split) - 1 := by
    omega
  have joined : Describes g (((taken.chunks c).largeSet (g.mapBias + pagesOf before) (n + split)
      (dirty || dirtyNext)).largeSet (g.mapBias + pagesOf before + (n + split) - 1) 0
        (dirty || dirtyNext)) (g.mapBias + pagesOf before)
      ⟨n + split, .large, dirty || dirtyNext⟩ := by
    refine ⟨by simp only; omega, ?_, fun _ => ?_⟩
    · simp [ArenaChunk.largeSet, MapBits.IsLarge, apart]
    · simp [ArenaChunk.largeSet, MapBits.IsLarge]
  have only : OnlyPages (taken.chunks c) (((taken.chunks c).largeSet (g.mapBias + pagesOf before)
      (n + split) (dirty || dirtyNext)).largeSet (g.mapBias + pagesOf before + (n + split) - 1) 0
        (dirty || dirtyNext)) (g.mapBias + pagesOf before)
      (g.mapBias + pagesOf before + (n + split)) :=
    ((OnlyPages.refl _ _ _).write (by omega)).write (by omega)
  have written := takenBooks.rewriteChunk before
    [⟨n, .large, dirty⟩, ⟨split, .large, dirtyNext⟩] [⟨n + split, .large, dirty || dirtyNext⟩]
    (restOf m split dirtyNext ++ after) _ owns (by simp) (by simp) (by simp [Run.isFree])
    (by simp) (by simp [Run.isFree]) (by simp) (by simpa using only) (by simpa using joined)
    (by simp [Run.active])
  exact ⟨taken, result, (left.first (by simp)).2, ends, by simpa using written, frame⟩

/-- `arena_ralloc_large_grow` extends a large run in place, or changes nothing. -/
theorem rallocLargeGrow (books : Books g owned layouts others arena) (owns : c ∈ owned)
    {wanted extra : Nat}
    (layout : layouts c = before ++ ⟨n, .large, dirty⟩ :: after)
    (settledAfter : AllSettled after) (more : n < wanted + extra) :
    ∃ arena' failed,
      arena.rallocLargeGrow g c (g.mapBias + pagesOf before) n wanted extra =
        some (arena', failed) ∧
      if failed then arena' = arena ∧ ∀ grown, ¬Grown n wanted extra dirty after grown
      else ∃ grown, Grown n wanted extra dirty after grown ∧ Frame arena arena' ∧
        Books g owned (Function.update layouts c (before ++ grown)) others arena' := by
  have old := books.chunk c owns
  rw [layout] at old
  have parts := old.holds
  simp only [Holds.append_iff, Holds.cons_iff] at parts
  obtain ⟨-, described, holdsAfter⟩ := parts
  have covers := old.covers
  simp only [pagesOf_append, pagesOf_cons] at covers
  have size := largeSizeGet_of_describes described
  have idle (alone : ¬(g.mapBias + pagesOf before + n < g.chunkNpages ∧
      ((arena.chunks c).map (g.mapBias + pagesOf before + n)).allocated = false)) :
      arena.rallocLargeGrow g c (g.mapBias + pagesOf before) n wanted extra =
        some (arena, true) := by
    unfold Arena.rallocLargeGrow
    simp only
    rw [check_eq_some size, check_eq_some more]
    simp only [Option.bind_eq_bind, Option.bind_some]
    rw [if_neg alone]
  cases after with
  | nil =>
      refine ⟨arena, true, idle ?_, rfl, fun grown possible => by cases possible⟩
      rw [pagesOf_nil] at covers
      omega
  | cons next rest =>
      have settled := settledAfter next (by simp)
      rw [Holds.cons_iff] at holdsAfter
      have first := (holdsAfter.1.first (Run.use_ne_raw_of_settled settled)).1
      rw [Run.inUse_of_settled settled] at first
      cases free : next.isFree with
      | false =>
          refine ⟨arena, true, idle ?_, rfl, fun grown possible => ?_⟩
          · rw [first, free]
            simp
          · cases possible
            simp [Run.isFree] at free
      | true =>
          obtain ⟨m, use, dirtyNext⟩ := next
          obtain rfl : use = .free := by simpa [Run.isFree] using free
          have nextPositive := holdsAfter.1.pages_pos
          have follow := (holdsAfter.1.unallocatedSizeGet (Or.inl rfl)).1
          simp only [pagesOf_cons] at follow nextPositive covers
          have inside : g.mapBias + pagesOf before + n < g.chunkNpages := by omega
          have begun : arena.rallocLargeGrow g c (g.mapBias + pagesOf before) n wanted extra =
              if n ≤ wanted ∧ wanted - n ≤ m then do
                let split := if n + m ≤ wanted + extra then m else wanted + extra - n
                let arena ← arena.runSplitLarge g c (g.mapBias + pagesOf before + n) split
                let header := arena.chunks c
                let npages := n + split
                let dirty := (header.map (g.mapBias + pagesOf before)).dirty ||
                  (header.map (g.mapBias + pagesOf before + npages - 1)).dirty
                some (arena.setChunk c ((header.largeSet (g.mapBias + pagesOf before) npages
                  dirty).largeSet (g.mapBias + pagesOf before + npages - 1) 0 dirty), false)
              else some (arena, true) := by
            unfold Arena.rallocLargeGrow
            simp only
            rw [check_eq_some size, check_eq_some more]
            simp only [Option.bind_eq_bind, Option.bind_some]
            rw [if_pos ⟨inside, by rw [first, free]; rfl⟩, follow]
            rfl
          by_cases enough : n ≤ wanted ∧ wanted - n ≤ m
          · have split : (if n + m ≤ wanted + extra then m else wanted + extra - n) =
                min m (wanted + extra - n) := by
              rw [min_def]
              split <;> split <;> omega
            have splitPositive : 0 < min m (wanted + extra - n) := by omega
            have splitFits : min m (wanted + extra - n) ≤ m := by omega
            obtain ⟨taken, result, startDirty, endDirty, newBooks, frame⟩ := books.extendLarge owns
              layout (fun run member => settledAfter run (by simp [member])) splitPositive splitFits
            refine ⟨taken.setChunk c _, false, ?_, _, .extended m dirtyNext rest enough,
              ⟨frame.spare, frame.npurgatory⟩, newBooks⟩
            rw [begun, if_pos enough]
            simp only [split, result, Option.bind_eq_bind, Option.bind_some, startDirty, endDirty]
          · refine ⟨arena, true, by rw [begun, if_neg enough], rfl, fun grown possible => ?_⟩
            cases possible with
            | extended _ _ _ possible => exact enough possible

end Books

end Jemalloc
end Vmem
