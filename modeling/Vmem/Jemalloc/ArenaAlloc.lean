import Vmem.Jemalloc.ArenaTrim

/-!
# Allocating runs

A run is taken from the best fitting free run, from the spare chunk, or from a new chunk,
for which the lock is released.
-/

namespace Vmem
namespace Jemalloc

variable {g : Geometry} {owned : Finset Nat} {layouts : Nat → List Run} {others : Nat}
  {arena : Arena} {c : Nat} {before after : List Run} {n need shape : Nat} {dirty : Bool}
  {elm : MapElm}

/-! ## The search -/

/-- A free run that fits best: no free run that fits is smaller, and the run has the lowest
address among those of its size unless its size is the one wanted. -/
structure BestRun (g : Geometry) (owned : Finset Nat) (layouts : Nat → List Run) (need : Nat)
    (elm : MapElm) (n : Nat) : Prop where
  fits : need ≤ n
  least : ∀ c ∈ owned, ∀ page run, (page, run) ∈ runsAt g.mapBias (layouts c) →
    run.isFree = true → need ≤ run.pages →
    n ≤ run.pages ∧ (n ≠ need → run.pages = n →
      toLex (elm.chunk, elm.pageind) ≤ toLex (c, page))

/-- No free run has enough pages. -/
def NoneFits (g : Geometry) (owned : Finset Nat) (layouts : Nat → List Run) (need : Nat) :
    Prop :=
  ∀ c ∈ owned, ∀ page run, (page, run) ∈ runsAt g.mapBias (layouts c) → run.isFree = true →
    run.pages < need

theorem mem_freeAt {start page : Nat} {layout : List Run} :
    page ∈ freeAt start layout ↔
      ∃ run, (page, run) ∈ runsAt start layout ∧ run.isFree = true := by
  simp [freeAt]

namespace Books

/-- The size that the tree of free runs is sorted by is the size of the run. -/
theorem sizeAt_eq (books : Books g owned layouts others arena) (owns : c ∈ owned) {page : Nat}
    {run : Run} (placed : (page, run) ∈ runsAt g.mapBias (layouts c))
    (free : run.isFree = true) : arena.sizeAt ⟨c, page⟩ = run.pages := by
  have described := (books.chunk c owns).holds _ placed
  have isFree : run.use = .free := by simpa [Run.isFree] using free
  have := described.2
  simp only [isFree] at this
  exact this.1.1

theorem mem_avail_of_placed (books : Books g owned layouts others arena) (owns : c ∈ owned)
    {page : Nat} {run : Run} (placed : (page, run) ∈ runsAt g.mapBias (layouts c))
    (free : run.isFree = true) : (⟨c, page⟩ : MapElm) ∈ arena.runsAvail :=
  (books.mem_avail _).mpr ⟨owns, mem_freeAt.mpr ⟨run, placed, free⟩⟩

/-- Whatever the search may find is a free run of the layouts, and one that fits best. -/
theorem of_mem_nsearch (books : Books g owned layouts others arena)
    (member : elm ∈ arena.nsearch need) :
    elm ∈ arena.runsAvail ∧ BestRun g owned layouts need elm (arena.sizeAt elm) := by
  unfold Arena.nsearch at member
  simp only at member
  by_cases exact_ : (arena.runsAvail.filter fun elm => arena.sizeAt elm = need).isEmpty = true
  · rw [if_pos exact_, Option.mem_toList] at member
    obtain ⟨reaches, before, after, split, skipped⟩ := List.find?_eq_some_iff_append.mp member
    simp only [decide_eq_true_eq] at reaches
    have inTree : elm ∈ arena.runsAvail := by simp [split]
    refine ⟨inTree, reaches.le, fun c owns page run placed free fits => ?_⟩
    have size := books.sizeAt_eq owns placed free
    have otherMember := books.mem_avail_of_placed owns placed free
    have notExact : ¬arena.sizeAt ⟨c, page⟩ = need := by
      intro equal
      have : (⟨c, page⟩ : MapElm) ∈ arena.runsAvail.filter fun elm => arena.sizeAt elm = need :=
        List.mem_filter.mpr ⟨otherMember, by simpa using equal⟩
      rw [List.isEmpty_iff.mp exact_] at this
      simp at this
    have sorted := books.availSorted
    rw [split] at otherMember sorted
    have notBefore : (⟨c, page⟩ : MapElm) ∉ before := by
      intro earlier
      have := skipped _ earlier
      simp only [Bool.not_eq_true', decide_eq_false_iff_not, size] at this notExact
      omega
    have order : arena.availKey elm ≤ arena.availKey ⟨c, page⟩ := by
      rcases List.mem_append.mp otherMember with earlier | later
      · exact absurd earlier notBefore
      · rcases List.mem_cons.mp later with same | later
        · rw [same]
        · exact ((List.pairwise_cons.mp (List.pairwise_append.mp sorted).2.1).1 _ later).le
    rw [← size]
    unfold Arena.availKey at order
    rcases Prod.Lex.toLex_le_toLex.mp order with less | ⟨same, address⟩
    · exact ⟨le_of_lt less, fun _ equal => absurd equal (ne_of_gt less)⟩
    · exact ⟨le_of_eq same, fun _ _ => address⟩
  · rw [if_neg exact_, List.mem_filter] at member
    obtain ⟨inTree, size⟩ := member
    rw [decide_eq_true_eq] at size
    rw [size]
    exact ⟨inTree, le_rfl, fun _ _ _ _ _ _ fits => ⟨fits, fun different => absurd rfl different⟩⟩

/-- The search finds nothing only if no free run has enough pages. -/
theorem noneFits_of_nsearch (books : Books g owned layouts others arena)
    (empty : arena.nsearch need = []) : NoneFits g owned layouts need := by
  intro c owns page run placed free
  have size := books.sizeAt_eq owns placed free
  have member := books.mem_avail_of_placed owns placed free
  unfold Arena.nsearch at empty
  simp only at empty
  split at empty
  · next exact_ =>
      have missing : (arena.runsAvail.find? fun elm => need < arena.sizeAt elm) = none := by
        simpa using empty
      have small := List.find?_eq_none.mp missing _ member
      have notExact : ¬arena.sizeAt ⟨c, page⟩ = need := by
        intro equal
        have : (⟨c, page⟩ : MapElm) ∈
            arena.runsAvail.filter fun elm => arena.sizeAt elm = need :=
          List.mem_filter.mpr ⟨member, by simpa using equal⟩
        rw [List.isEmpty_iff.mp exact_] at this
        simp at this
      simp only [decide_eq_true_eq, size] at small notExact
      omega
  · next exact_ => simp [empty] at exact_

theorem found_some (found : arena.found need shape = some elm) : elm ∈ arena.nsearch need :=
  List.mem_of_getElem? found

theorem found_none (missing : arena.found need shape = none) : arena.nsearch need = [] := by
  unfold Arena.found at missing
  simp only [List.getElem?_eq_none_iff] at missing
  by_contra nonempty
  have positive := List.length_pos_of_ne_nil nonempty
  have := Nat.mod_lt shape positive
  omega

/-- What is found is the first page of a free run. -/
theorem split_found (books : Books g owned layouts others arena)
    (found : arena.found need shape = some elm) :
    elm.chunk ∈ owned ∧ ∃ before after n dirty,
      layouts elm.chunk = before ++ ⟨n, .free, dirty⟩ :: after ∧
      elm = ⟨elm.chunk, g.mapBias + pagesOf before⟩ ∧ BestRun g owned layouts need elm n := by
  obtain ⟨inTree, fits⟩ := books.of_mem_nsearch (found_some found)
  obtain ⟨owns, free⟩ := (books.mem_avail elm).mp inTree
  obtain ⟨before, after, n, dirty, layout, position⟩ := exists_free_run free
  refine ⟨owns, before, after, n, dirty, layout, by rw [← position], ?_⟩
  have placed : (elm.pageind, ⟨n, .free, dirty⟩) ∈ runsAt g.mapBias (layouts elm.chunk) := by
    simp [layout, position]
  rw [books.sizeAt_eq owns placed rfl] at fits
  exact fits

/-! ## Chunks -/

/-- `arena_chunk_alloc` with the spare chunk returns its run to the tree of free runs. -/
theorem chunkAllocSpare (books : Books g owned layouts others arena) (spare : arena.spare = some c)
    (owns : c ∈ owned) (layout : layouts c = [wholeRun g .held dirty]) :
    ∃ arena', arena.chunkAllocSpare g = some (arena', c) ∧
      Books g owned (Function.update layouts c [wholeRun g .free dirty]) others arena' ∧
      arena'.spare = none ∧ arena'.npurgatory = arena.npurgatory := by
  have described : Describes g (arena.chunks c) g.mapBias (wholeRun g .held dirty) := by
    have holds := (books.chunk c owns).holds
    rw [layout, Holds.cons_iff] at holds
    exact holds.1
  have whole := wholeFree_of_describes described (Or.inr rfl)
  obtain ⟨arena', result, newBooks, same⟩ := (books.unrelated none arena.npurgatory).availInsert
    owns (show layouts c = [] ++ wholeRun g .held dirty :: [] from layout) false false
    (by simp [Quiet]) (by simp [Quiet]) rfl rfl
  have result : ({ arena with spare := none } : Arena).availInsert g c g.mapBias g.maxPages false
      false = some arena' := result
  refine ⟨arena', ?_, newBooks, same.spare, same.npurgatory⟩
  unfold Arena.chunkAllocSpare
  simp only [spare]
  rw [check_eq_some whole]
  simp only [Option.bind_eq_bind, Option.bind_some, result]

/-- A chunk that is new to the arena enters its books. -/
theorem adopt (books : Books g owned layouts others arena) (fresh : c ∉ owned)
    {header : ArenaChunk} (holds : Holds g header g.mapBias [wholeRun g .held dirty])
    (counts : header.nrunsAvail = 0 ∧ header.nrunsAdjac = 0 ∧ header.ndirty = 0) :
    Books g (insert c owned) (Function.update layouts c [wholeRun g .held dirty]) others
      (arena.setChunk c header) := by
  have different : ∀ other ∈ owned, other ≠ c := fun other member same => fresh (same ▸ member)
  have notFree : freeAt g.mapBias [wholeRun g .held dirty] = [] := by
    simp [wholeRun, Run.isFree]
  have clean : dirtyOf [wholeRun g .held dirty] = 0 := by
    simp [wholeRun, Run.dirtyPages, Run.isFree]
  have idle : activeOf [wholeRun g .held dirty] = 0 := by simp [wholeRun, Run.active]
  have rest (f : List Run → Nat) :
      ∑ x ∈ owned, f (Function.update layouts c [wholeRun g .held dirty] x) =
        ∑ x ∈ owned, f (layouts x) :=
    Finset.sum_congr rfl fun x member => by rw [Function.update_of_ne (different x member)]
  constructor
  · intro other member
    by_cases same : other = c
    · subst same
      rw [Function.update_self]
      refine ⟨by simpa [Arena.setChunk] using holds, ?_, rfl, ?_, ?_, ?_⟩
      · simp [wholeRun, mapBias_add_maxPages]
      · simp [Arena.setChunk, counts.1, wholeRun, Run.isFree]
      · simp [Arena.setChunk, counts.2.1]
        rfl
      · simp [Arena.setChunk, counts.2.2, clean]
    · have member : other ∈ owned := Finset.mem_of_mem_insert_of_ne member same
      simpa [Arena.setChunk, same] using books.chunk other member
  · refine books.availSorted.congr fun elm member => Arena.availKey_congr ?_
    have owns := ((books.mem_avail elm).mp member).1
    simp [Arena.setChunk, different _ owns]
  · intro elm
    refine (books.mem_avail elm).trans ?_
    by_cases same : elm.chunk = c
    · simp [same, fresh, notFree]
    · simp [same]
  · refine books.dirtySorted.congr fun other member => Arena.dirtyKey_congr ?_
    have owns := ((books.mem_dirty other).mp member).1
    simp [Arena.setChunk, different _ owns]
  · intro other
    refine (books.mem_dirty other).trans ?_
    by_cases same : other = c
    · simp [same, fresh, clean]
    · simp [same]
  · rw [Finset.sum_insert fresh, Function.update_self, clean, rest]
    simpa [Arena.setChunk] using books.ndirty
  · rw [Finset.sum_insert fresh, Function.update_self, idle, rest]
    simpa [Arena.setChunk] using books.nactive

/-- A chunk that nobody uses leaves the books. -/
theorem giveBack (books : Books g owned layouts others arena) (owns : c ∈ owned)
    (layout : layouts c = [wholeRun g .held dirty]) :
    Books g (owned.erase c) layouts others arena := by
  have notFree : freeAt g.mapBias (layouts c) = [] := by simp [layout, wholeRun, Run.isFree]
  have clean : dirtyOf (layouts c) = 0 := by simp [layout, wholeRun, Run.dirtyPages, Run.isFree]
  have idle : activeOf (layouts c) = 0 := by simp [layout, wholeRun, Run.active]
  refine ⟨fun other member => books.chunk other (Finset.mem_of_mem_erase member),
    books.availSorted, fun elm => (books.mem_avail elm).trans ?_, books.dirtySorted,
    fun other => (books.mem_dirty other).trans ?_, ?_, ?_⟩
  · by_cases same : elm.chunk = c
    · simp [same, notFree]
    · simp [same]
  · by_cases same : other = c
    · simp [same, clean]
    · simp [same]
  · rw [books.ndirty, ← Finset.add_sum_erase owned _ owns, clean, Nat.zero_add]
  · rw [books.nactive, ← Finset.add_sum_erase owned _ owns, idle, Nat.zero_add]

/-- The flags of some pages are all that is written. -/
theorem unzeroedSet_foldl (unzeroed : Bool) (pages : List Nat) (chunk : ArenaChunk) :
    (∀ page, (pages.foldl (fun chunk i => chunk.unzeroedSet i unzeroed) chunk).map page =
      if page ∈ pages then { chunk.map page with unzeroed } else chunk.map page) ∧
    (pages.foldl (fun chunk i => chunk.unzeroedSet i unzeroed) chunk).runBin = chunk.runBin ∧
    (pages.foldl (fun chunk i => chunk.unzeroedSet i unzeroed) chunk).nrunsAvail =
      chunk.nrunsAvail ∧
    (pages.foldl (fun chunk i => chunk.unzeroedSet i unzeroed) chunk).nrunsAdjac =
      chunk.nrunsAdjac ∧
    (pages.foldl (fun chunk i => chunk.unzeroedSet i unzeroed) chunk).ndirty = chunk.ndirty := by
  induction pages generalizing chunk with
  | nil => simp
  | cons first rest inductionHypothesis =>
      obtain ⟨map, others⟩ := inductionHypothesis (chunk.unzeroedSet first unzeroed)
      refine ⟨fun page => ?_, others⟩
      rw [List.foldl_cons, map]
      by_cases isFirst : page = first <;> by_cases inRest : page ∈ rest <;>
        simp [ArenaChunk.unzeroedSet, isFirst, inRest]

/-- The map of a chunk from `chunk_alloc` says that all its pages are free. -/
theorem initHeader_eq (g : Geometry) (fresh : ArenaChunk) {zero : Bool}
    (zeroed : zero = true → ∀ page ∈ Arena.innerPages g, (fresh.map page).unzeroed = false) :
    ∃ header, Arena.initHeader g fresh zero = some header ∧
      Holds g header g.mapBias [wholeRun g .held false] ∧
      header.nrunsAvail = 0 ∧ header.nrunsAdjac = 0 ∧ header.ndirty = 0 := by
  have last : g.mapBias + g.maxPages - 1 = g.chunkNpages - 1 := by rw [mapBias_add_maxPages]
  have ends (chunk : ArenaChunk) (first : (chunk.map g.mapBias).IsUnallocated g.maxPages false) :
      Holds g (chunk.unallocatedSet (g.chunkNpages - 1) g.maxPages false !zero) g.mapBias
        [wholeRun g .held false] := by
    refine Holds.cons_iff.mpr ⟨⟨maxPages_pos g, ?_, ?_⟩, Holds.nil⟩
    · by_cases single : g.mapBias = g.chunkNpages - 1
      · simp [ArenaChunk.unallocatedSet, MapBits.IsUnallocated, wholeRun, single]
      · simpa [ArenaChunk.unallocatedSet, wholeRun, single] using first
    · simp [ArenaChunk.unallocatedSet, MapBits.IsUnallocated, wholeRun, last]
  have notFirst : g.mapBias ∉ Arena.innerPages g := by
    simp [Arena.innerPages, List.mem_range'_1]
  cases zero with
  | true =>
      refine ⟨_, ?_, ends (({ fresh with
        ndirty := 0, nrunsAvail := 0, nrunsAdjac := 0 } : ArenaChunk).unallocatedSet g.mapBias
          g.maxPages false false) ?_, rfl, rfl, rfl⟩
      · have clear : ∀ i ∈ Arena.innerPages g,
            ((({ fresh with ndirty := 0, nrunsAvail := 0, nrunsAdjac := 0 } :
              ArenaChunk).unallocatedSet g.mapBias g.maxPages false false).map i).unzeroed =
                false := by
          intro i member
          have apart : i ≠ g.mapBias := fun same => notFirst (same ▸ member)
          simp [ArenaChunk.unallocatedSet, apart, zeroed rfl i member]
        unfold Arena.initHeader Arena.initInner
        simp only [Bool.not_true, if_true]
        rw [if_pos clear]
        rfl
      · simp [ArenaChunk.unallocatedSet, MapBits.IsUnallocated]
  | false =>
      obtain ⟨map, -, avail, adjac, dirty⟩ := unzeroedSet_foldl true (Arena.innerPages g)
        (({ fresh with ndirty := 0, nrunsAvail := 0, nrunsAdjac := 0 } :
          ArenaChunk).unallocatedSet g.mapBias g.maxPages false true)
      refine ⟨_, rfl, ends _ ?_, avail, adjac, dirty⟩
      rw [Bool.not_false, map, if_neg notFirst]
      simp [ArenaChunk.unallocatedSet, MapBits.IsUnallocated]

end Books

end Jemalloc
end Vmem
