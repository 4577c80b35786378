import Vmem.Jemalloc.ArenaCoalesce

/-!
# Freeing runs and parts of runs

`arena_run_dalloc` frees a run; a chunk without any other run then becomes the spare one.
The two functions that trim a large run first make two large runs of it, and a small run
whose last pages were never touched is made large to be trimmed.
-/

namespace Vmem
namespace Jemalloc

variable {g : Geometry} {owned : Finset Nat} {layouts : Nat → List Run} {others : Nat}
  {arena : Arena} {c : Nat} {before after : List Run} {n : Nat} {dirty : Bool} {run : Run}

/-- The one run of a chunk that nobody uses. -/
def wholeRun (g : Geometry) (use : RunUse) (dirty : Bool) : Run := ⟨g.maxPages, use, dirty⟩

theorem maxPages_pos (g : Geometry) : 0 < g.maxPages := Nat.sub_pos_of_lt g.mapBias_lt

theorem mapBias_add_maxPages (g : Geometry) : g.mapBias + g.maxPages = g.chunkNpages :=
  Nat.add_sub_cancel' g.mapBias_lt.le

theorem Holds.eq_nil {chunk : ArenaChunk} {start : Nat} {layout : List Run}
    (holds : Holds g chunk start layout) (none : pagesOf layout = 0) : layout = [] := by
  cases layout with
  | nil => rfl
  | cons first rest =>
      rw [Holds.cons_iff] at holds
      rw [pagesOf_cons] at none
      have := holds.1.pages_pos
      omega

/-- The map elements of a chunk that nobody uses are as its assertions want them. -/
theorem wholeFree_of_describes {chunk : ArenaChunk} {use : RunUse}
    (describes : Describes g chunk g.mapBias (wholeRun g use dirty))
    (marked : use = .free ∨ use = .held) : Arena.wholeFree g chunk := by
  have last : g.mapBias + g.maxPages - 1 = g.chunkNpages - 1 := by
    rw [mapBias_add_maxPages]
  have known : use ≠ .raw := by rcases marked with rfl | rfl <;> simp
  have sizes := describes.unallocatedSizeGet marked
  have first := (describes.first known).2
  have ends := (describes.last known).2
  simp only [wholeRun, last] at sizes first ends
  exact ⟨sizes.1, sizes.2, by rw [first, ends]⟩

namespace Books

/-- The spare chunk and the pages to be purged are in no book. -/
theorem unrelated (books : Books g owned layouts others arena) (spare : Option Nat)
    (npurgatory : Nat) :
    Books g owned layouts others { arena with spare, npurgatory } :=
  ⟨books.chunk, books.availSorted, books.mem_avail, books.dirtySorted, books.mem_dirty,
    books.ndirty, books.nactive⟩

/-- `arena_chunk_dalloc` makes a chunk that nobody uses the spare one. -/
theorem chunkDalloc (books : Books g owned layouts others arena) (owns : c ∈ owned)
    (layout : layouts c = [wholeRun g .free dirty]) :
    ∃ arena', arena.chunkDalloc g c = some (arena', arena.spare) ∧
      Books g owned (Function.update layouts c [wholeRun g .held dirty]) others arena' ∧
      arena'.spare = some c ∧ arena'.npurgatory = arena.npurgatory := by
  have described : Describes g (arena.chunks c) g.mapBias (wholeRun g .free dirty) := by
    have holds := (books.chunk c owns).holds
    rw [layout, Holds.cons_iff] at holds
    exact holds.1
  have whole := wholeFree_of_describes described (Or.inl rfl)
  obtain ⟨removed, result, removedBooks, same⟩ := books.availRemove owns
    (show layouts c = [] ++ wholeRun g .free dirty :: [] from layout) false false (by simp [Quiet])
    (by simp [Quiet])
  refine ⟨{ removed with spare := some c }, ?_, removedBooks.unrelated (some c) _, rfl,
    same.npurgatory⟩
  unfold Arena.chunkDalloc
  rw [check_eq_some whole]
  have result : arena.availRemove g c g.mapBias g.maxPages false false = some removed := result
  simp only [Option.bind_eq_bind, Option.bind_some, result, same.spare]

/-- What `arena_run_dalloc` leaves of a chunk: the run freed is merged with its neighbours,
and a chunk without any other run becomes the spare one. -/
inductive Freed (g : Geometry) (owned : Finset Nat) (layouts : Nat → List Run) (others : Nat)
    (arena : Arena) (c : Nat) (merged : List Run) (dirty : Bool) : Arena → Option Nat → Prop
  | kept (arena' : Arena) (notWhole : ∀ dirty, merged ≠ [wholeRun g .free dirty])
      (settled : AllSettled merged)
      (books : Books g owned (Function.update layouts c merged) others arena')
      (frame : Frame arena arena') :
      Freed g owned layouts others arena c merged dirty arena' none
  | spared (arena' : Arena) (whole : merged = [wholeRun g .free dirty])
      (books : Books g owned (Function.update layouts c [wholeRun g .held dirty]) others arena')
      (spare : arena'.spare = some c) (npurgatory : arena'.npurgatory = arena.npurgatory) :
      Freed g owned layouts others arena c merged dirty arena' arena.spare

/-- What is freed after an edit of the chunk is freed of the chunk. -/
theorem Freed.of_edit {arena₁ arena' : Arena} {layout merged : List Run} {given : Option Nat}
    (freed : Freed g owned (Function.update layouts c layout) others arena₁ c merged dirty arena'
      given)
    (frame : Frame arena arena₁) :
    Freed g owned layouts others arena c merged dirty arena' given := by
  cases freed with
  | kept notWhole settled books frame' =>
      exact .kept arena' notWhole settled (by simpa using books) (frame.trans frame')
  | spared whole books spare npurgatory =>
      rw [frame.spare]
      exact .spared arena' whole (by simpa using books) spare (npurgatory.trans frame.npurgatory)

/-- The pages of a run in use are marked, and no longer active. -/
theorem unallocate (books : Books g owned layouts others arena) (owns : c ∈ owned)
    (layout : layouts c = before ++ run :: after) (allocated : run.inUse = true) (dirty : Bool) :
    Books g owned (Function.update layouts c (before ++ ⟨run.pages, .held, dirty⟩ :: after)) others
      ({ arena with nactive := Word.sub arena.nactive run.pages }.setChunk c
        (Arena.unallocatedRun (arena.chunks c) (g.mapBias + pagesOf before) run.pages dirty)) := by
  have old := books.chunk c owns
  rw [layout] at old
  have positive := old.holds.described.pages_pos
  have taken : run.isFree = false := by
    revert allocated
    unfold Run.inUse Run.isFree
    cases run.use <;> simp
  have active : run.active = run.pages := by
    revert allocated
    unfold Run.inUse Run.active
    cases run.use <;> simp
  have written := books.rewritePages before [run] [⟨run.pages, .held, dirty⟩] after
    (Arena.unallocatedRun (arena.chunks c) (g.mapBias + pagesOf before) run.pages dirty)
    (Word.sub arena.nactive run.pages) owns (by simp [layout]) (by simp) (by simp [taken]) (by simp)
    (by simp [Run.isFree]) (by simp) (by simpa using onlyPages_unallocatedRun positive)
    (by simpa using describes_unallocatedRun positive)
    (by rw [activeOf_cons, active]; simpa [Run.active] using Recounts.sub run.pages)
  rwa [List.append_assoc, List.singleton_append] at written

/-- A run that has been merged with its neighbours goes into the tree of free runs, and a chunk
without any other run becomes the spare one. -/
theorem insertFreed (books : Books g owned layouts others arena) (owns : c ∈ owned)
    (layout : layouts c = before ++ ⟨n, .held, dirty⟩ :: after) (settledBefore : AllSettled before)
    (settledAfter : AllSettled after)
    (coalesced : RunsCoalesced (before ++ ⟨n, .free, dirty⟩ :: after)) :
    ∃ inserted arena' given,
      arena.availInsert g c (g.mapBias + pagesOf before) n true true = some inserted ∧
      (if n = g.maxPages then do
        check (g.mapBias + pagesOf before = g.mapBias)
        let (arena, given) ← inserted.chunkDalloc g c
        some (arena, given, dirty)
      else some (inserted, none, dirty)) = some (arena', given, dirty) ∧
      Freed g owned layouts others arena c (before ++ ⟨n, .free, dirty⟩ :: after) dirty arena'
        given := by
  obtain ⟨-, -, apartLast, apartHead⟩ := coalesced_free.mp coalesced
  obtain ⟨inserted, insertResult, insertBooks, same⟩ := books.availInsert owns layout true true
    settledBefore.last settledAfter.head apartLast apartHead
  have parts := (books.chunk c owns).holds
  rw [layout, Holds.append_iff, Holds.cons_iff] at parts
  obtain ⟨holdsBefore, -, holdsAfter⟩ := parts
  have covers := (books.chunk c owns).covers
  rw [layout, pagesOf_append, pagesOf_cons] at covers
  have whole := mapBias_add_maxPages g
  refine ⟨inserted, ?_⟩
  by_cases isWhole : n = g.maxPages
  · obtain rfl : before = [] := holdsBefore.eq_nil (by simp only at covers; omega)
    obtain rfl : after = [] := holdsAfter.eq_nil (by simp only at covers; omega)
    subst isWhole
    obtain ⟨spared, spareResult, spareBooks, spare, npurgatory⟩ :=
      insertBooks.chunkDalloc owns (by rw [Function.update_self]; rfl)
    refine ⟨spared, arena.spare, insertResult, ?_, .spared spared rfl ?_ spare ?_⟩
    · rw [if_pos rfl, check_eq_some (by simp)]
      simp only [Option.bind_eq_bind, Option.bind_some, spareResult, same.spare]
    · simpa using spareBooks
    · rw [npurgatory, same.npurgatory]
  · have settled : AllSettled (before ++ ⟨n, .free, dirty⟩ :: after) := by
      intro other member
      rw [List.mem_append, List.mem_cons] at member
      rcases member with member | rfl | member
      · exact settledBefore other member
      · rfl
      · exact settledAfter other member
    refine ⟨inserted, none, insertResult, if_neg isWhole, .kept inserted ?_ settled insertBooks
      ⟨same.spare, same.npurgatory⟩⟩
    intro dirty' isOne
    have none : before = [] := by
      cases before with
      | nil => rfl
      | cons => simp at isOne
    rw [none, List.nil_append, List.cons.injEq] at isOne
    exact isWhole (congrArg Run.pages isOne.1)

/-- `arena_run_dalloc` frees an allocated run, which is dirty if the caller says so or if it
was dirty before and has not been cleaned. -/
theorem runDalloc (books : Books g owned layouts others arena) (owns : c ∈ owned)
    (layout : layouts c = before ++ run :: after) (allocated : run.inUse = true)
    (settledBefore : AllSettled before) (settledAfter : AllSettled after)
    (dirtied cleaned : Bool) :
    ∃ arena' given,
      arena.runDalloc g c (g.mapBias + pagesOf before) dirtied cleaned =
        some (arena', given, dirtied || (!cleaned && run.dirty)) ∧
      Freed g owned layouts others arena c
        (coalesce (before ++
          ⟨run.pages, .free, dirtied || (!cleaned && run.dirty)⟩ :: after))
        (dirtied || (!cleaned && run.dirty)) arena' given := by
  have old := books.chunk c owns
  rw [layout] at old
  have described := old.holds.described
  have covers := old.covers
  simp only [pagesOf_append, pagesOf_cons] at covers
  have positive := described.pages_pos
  have known : run.use ≠ .raw := by
    intro isRaw
    simp [Run.inUse, isRaw] at allocated
  have first := (described.first known).2
  have last := (described.last known).2
  generalize isDirty : (dirtied || (!cleaned && run.dirty)) = dirty
  obtain ⟨joined, size, before', after', joinResult, joinBooks, joinFrame, settledBefore',
    settledAfter', coalesced, equal⟩ := (books.unallocate owns layout allocated dirty).runCoalesce
      owns (Function.update_self _ _ _) settledBefore settledAfter
  rw [Function.update_idem] at joinBooks
  obtain ⟨inserted, arena', given, insertResult, finishes, freed⟩ := joinBooks.insertFreed owns
    (Function.update_self _ _ _) settledBefore' settledAfter' coalesced
  refine ⟨arena', given, ?_, ?_⟩
  · have held := (joinBooks.chunk c owns).holds
    simp only [Function.update_self, Holds.append_iff, Holds.cons_iff] at held
    have sizes := held.2.1.unallocatedSizeGet (Or.inr rfl)
    have ends := ((held.2.1.first (by simp)).2).trans ((held.2.1.last (by simp)).2).symm
    have bounds : g.mapBias ≤ g.mapBias + pagesOf before ∧
        g.mapBias + pagesOf before < g.chunkNpages := by omega
    unfold Arena.runDalloc
    rw [check_eq_some bounds]
    simp only [Option.bind_eq_bind, Option.bind_some, runSize_eq described allocated]
    rw [check_eq_some (first.trans last.symm)]
    simp only [Option.bind_some, first, isDirty, joinResult]
    rw [check_eq_some (sizes.1.trans sizes.2.symm), check_eq_some ends]
    simp only [Option.bind_some, insertResult]
    exact finishes
  · rw [equal]
    exact freed.of_edit ⟨joinFrame.spare, joinFrame.npurgatory⟩

end Books

end Jemalloc
end Vmem
