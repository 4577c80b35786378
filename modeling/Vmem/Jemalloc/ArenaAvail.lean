import Vmem.Jemalloc.ArenaBooks

/-!
# Free runs enter and leave the books

`arena_avail_remove` turns a free run into one that is only marked free, and
`arena_avail_insert` does the opposite.  All other functions rewrite the map elements of
runs that are not in the tree of free runs, which changes no counter but `nactive`.
-/

namespace Vmem
namespace Jemalloc

variable {g : Geometry} {owned : Finset Nat} {layouts : Nat → List Run} {others : Nat}
  {arena : Arena} {c : Nat} {before middle new after : List Run} {n : Nat} {dirty : Bool}

/-! ## Layouts with a run in the middle -/

theorem nadjac_free :
    nadjac (before ++ ⟨n, .free, dirty⟩ :: after) =
      nadjac before + (Tiling.lastTouches Run.adjoins before ⟨n, .free, dirty⟩).toNat +
        (Tiling.headTouches Run.adjoins ⟨n, .free, dirty⟩ after).toNat + nadjac after :=
  Tiling.touching_append_cons _ _ _ _

theorem nadjac_taken {run : Run} (taken : run.isFree = false) :
    nadjac (before ++ run :: after) = nadjac before + nadjac after := by
  rw [List.append_cons]
  exact Tiling.touching_replace (by simp)
    (by simpa using fun other => (Run.apart_of_not_free taken other).1) before after

/-- Runs that are not free separate the free ones. -/
theorem nadjac_replace (nonempty : middle ≠ [])
    (taken : ∀ run ∈ middle, run.isFree = false) :
    nadjac (before ++ middle ++ after) = nadjac before + nadjac after :=
  Tiling.touching_replace nonempty
    (fun run member other => (Run.apart_of_not_free (taken run member) other).1) before after

theorem coalesced_free :
    RunsCoalesced (before ++ ⟨n, .free, dirty⟩ :: after) ↔
      RunsCoalesced before ∧ RunsCoalesced after ∧
        Tiling.lastTouches Run.mergeable before ⟨n, .free, dirty⟩ = false ∧
        Tiling.headTouches Run.mergeable ⟨n, .free, dirty⟩ after = false := by
  unfold RunsCoalesced
  rw [Tiling.touching_append_cons]
  cases Tiling.lastTouches Run.mergeable before ⟨n, .free, dirty⟩ <;>
    cases Tiling.headTouches Run.mergeable ⟨n, .free, dirty⟩ after <;> simp

theorem coalesced_replace (nonempty : middle ≠ [])
    (taken : ∀ run ∈ middle, run.isFree = false) :
    RunsCoalesced (before ++ middle ++ after) ↔ RunsCoalesced before ∧ RunsCoalesced after := by
  unfold RunsCoalesced
  rw [Tiling.touching_replace nonempty
    fun run member other => (Run.apart_of_not_free (taken run member) other).2]
  omega

theorem coalesced_taken {run : Run} (taken : run.isFree = false) :
    RunsCoalesced (before ++ run :: after) ↔ RunsCoalesced before ∧ RunsCoalesced after := by
  rw [List.append_cons]
  exact coalesced_replace (by simp) (by simpa using taken)

theorem nfree_of_taken (taken : ∀ run ∈ middle, run.isFree = false) : nfree middle = 0 := by
  simpa [nfree, List.countP_eq_zero] using taken

theorem dirtyOf_of_taken (taken : ∀ run ∈ middle, run.isFree = false) : dirtyOf middle = 0 := by
  induction middle with
  | nil => rfl
  | cons run rest inductionHypothesis =>
      rw [dirtyOf_cons, inductionHypothesis fun other member => taken other (by simp [member])]
      simp [Run.dirtyPages, taken run]

theorem freeAt_of_taken {start : Nat} (taken : ∀ run ∈ middle, run.isFree = false) :
    freeAt start middle = [] := by
  induction middle generalizing start with
  | nil => rfl
  | cons run rest inductionHypothesis =>
      rw [freeAt_cons, taken run (by simp),
        inductionHypothesis fun other member => taken other (by simp [member])]
      simp

/-- The first page of a run is the first page of no other one. -/
theorem notMem_freeAt {chunk : ArenaChunk} {start : Nat} {run : Run}
    (holds : Holds g chunk start (before ++ run :: after)) :
    start + pagesOf before ∉ freeAt start before ∧
      start + pagesOf before ∉ freeAt (start + pagesOf before + run.pages) after := by
  simp only [Holds.append_iff, Holds.cons_iff] at holds
  have positive := holds.2.1.pages_pos
  constructor
  · intro member
    have := freeAt_bounds holds.1 member
    omega
  · intro member
    have := freeAt_bounds holds.2.2 member
    omega

/-! ## One chunk changes -/

/-- The counter of active pages when some of them are replaced by others. -/
def Recounts (active old new active' : Nat) : Prop :=
  active' = Word.sub (Word.add active new) old

/-- Replacing as many pages leaves the counter as it is. -/
theorem Recounts.same {active pages : Nat} (word : active < Word.modulus) :
    Recounts active pages pages active := by
  unfold Recounts Word.add
  rw [Word.sub_add_mod, Nat.mod_eq_of_lt word]

theorem Recounts.add {active : Nat} (pages : Nat) :
    Recounts active 0 pages (Word.add active pages) := by
  exact (Word.sub_add_mod (active + pages) 0).symm

theorem Recounts.sub {active : Nat} (pages : Nat) :
    Recounts active pages 0 (Word.sub active pages) :=
  (Word.mod_sub active pages).symm

/-- The counter follows the sum that it counts. -/
theorem Recounts.total {active old new active' total total' : Nat}
    (counted : Recounts active old new active') (known : active = total % Word.modulus)
    (sums : total' + old = total + new) : active' = total' % Word.modulus := by
  rw [counted, known, Word.add, Nat.mod_add_mod, ← sums, Word.sub_add_mod]

namespace Books

/-- A chunk gets other runs and other counters, and the trees follow. -/
theorem recount (books : Books g owned layouts others arena) (owns : c ∈ owned)
    {header : ArenaChunk} {total : Nat} {avail : List MapElm}
    (mapSame : header.map = (arena.chunks c).map)
    (chunk : HeaderBooks g header new) (active : activeOf new = activeOf (layouts c))
    (dirtied : total + dirtyOf (layouts c) = arena.ndirty + dirtyOf new)
    (availSorted : OrderedTree.Sorted arena.availKey avail)
    (mem_avail : ∀ elm, elm ∈ avail ↔ elm.chunk ∈ owned ∧
      elm.pageind ∈ freeAt g.mapBias (Function.update layouts c new elm.chunk)) :
    Books g owned (Function.update layouts c new) others
      { Arena.putDirty { (arena.takeDirty c).setChunk c header with ndirty := total } c with
        runsAvail := avail } := by
  have counts := (books.chunk c owns).counts
  have linked : c ∈ arena.chunksDirty ↔ (arena.chunks c).ndirty ≠ 0 := by
    rw [books.mem_dirty, counts.ndirty]
    simp [owns]
  obtain ⟨sorted, member⟩ := Arena.putDirty_takeDirty
    { (arena.takeDirty c).setChunk c header with ndirty := total } books.dirtySorted linked rfl
    fun other different => by simp [Arena.setChunk, different]
  constructor
  · intro other owned'
    by_cases same : other = c
    · subst same
      simpa [Arena.setChunk] using chunk
    · simpa [Arena.setChunk, same] using books.chunk other owned'
  · refine OrderedTree.Sorted.congr availSorted fun elm _ => Arena.availKey_congr ?_
    by_cases same : elm.chunk = c <;> simp [Arena.setChunk, same, mapSame]
  · exact mem_avail
  · refine OrderedTree.Sorted.congr sorted fun other _ => Arena.dirtyKey_congr ?_
    simp
  · intro other
    rw [member]
    by_cases same : other = c
    · subst same
      simp [Arena.setChunk, owns, chunk.counts.ndirty]
    · simp [same, books.mem_dirty]
  · have sum := sum_update owns layouts new dirtyOf
    have := books.ndirty
    simp only [Arena.putDirty_ndirty]
    omega
  · have sum := sum_update owns layouts new activeOf
    have same : ∑ x ∈ owned, activeOf (Function.update layouts c new x) =
        ∑ x ∈ owned, activeOf (layouts x) := by omega
    simp only [Arena.putDirty_nactive, Arena.setChunk, Arena.takeDirty_nactive]
    rw [books.nactive, same]

/-- The map elements of taken runs are rewritten. -/
theorem rewrite {arena' : Arena} (books : Books g owned layouts others arena) (owns : c ∈ owned)
    (layout : layouts c = before ++ middle ++ after)
    (nonempty : middle ≠ []) (taken : ∀ run ∈ middle, run.isFree = false)
    (newNonempty : new ≠ []) (newTaken : ∀ run ∈ new, run.isFree = false)
    (pages : pagesOf new = pagesOf middle)
    (chunks : ∀ other ≠ c, arena'.chunks other = arena.chunks other)
    (map : ∀ page, (page < g.mapBias + pagesOf before ∨
        g.mapBias + pagesOf before + pagesOf middle ≤ page) →
      (arena'.chunks c).map page = (arena.chunks c).map page)
    (bins : ∀ page, (page < g.mapBias + pagesOf before ∨
        g.mapBias + pagesOf before + pagesOf middle ≤ page) →
      (arena'.chunks c).runBin page = (arena.chunks c).runBin page)
    (written : Holds g (arena'.chunks c) (g.mapBias + pagesOf before) new)
    (counts : (arena'.chunks c).nrunsAvail = (arena.chunks c).nrunsAvail ∧
      (arena'.chunks c).nrunsAdjac = (arena.chunks c).nrunsAdjac ∧
      (arena'.chunks c).ndirty = (arena.chunks c).ndirty)
    (trees : arena'.runsAvail = arena.runsAvail ∧ arena'.chunksDirty = arena.chunksDirty ∧
      arena'.ndirty = arena.ndirty)
    (active : Recounts arena.nactive (activeOf middle) (activeOf new) arena'.nactive) :
    Books g owned (Function.update layouts c (before ++ new ++ after)) others arena' := by
  have old := books.chunk c owns
  rw [layout] at old
  obtain ⟨availSame, dirtySame, ndirtySame⟩ := trees
  have freeSame : freeAt g.mapBias (before ++ new ++ after) =
      freeAt g.mapBias (before ++ middle ++ after) := by
    simp [freeAt_of_taken taken, freeAt_of_taken newTaken, pages]
  have dirtyOfSame : dirtyOf (before ++ new ++ after) = dirtyOf (layouts c) := by
    simp [layout, dirtyOf_of_taken taken, dirtyOf_of_taken newTaken]
  have inTree : ∀ elm ∈ arena.runsAvail, ((arena'.chunks elm.chunk).map elm.pageind).high =
      ((arena.chunks elm.chunk).map elm.pageind).high := by
    intro elm member
    by_cases same : elm.chunk = c
    · have free := ((books.mem_avail elm).mp member).2
      rw [same, layout] at free
      have outside : elm.pageind < g.mapBias + pagesOf before ∨
          g.mapBias + pagesOf before + pagesOf middle ≤ elm.pageind := by
        simp only [freeAt_append, freeAt_of_taken taken, List.append_nil] at free
        have holds := old.holds
        simp only [Holds.append_iff] at holds
        rcases List.mem_append.mp free with free | free
        · exact Or.inl (freeAt_bounds holds.1.1 free).2
        · have := (freeAt_bounds holds.2 free).1
          rw [pagesOf_append] at this
          exact Or.inr (by omega)
      rw [same, map _ outside]
    · rw [chunks _ same]
  constructor
  · intro other owned'
    by_cases same : other = c
    · subst same
      rw [Function.update_self]
      refine ⟨old.holds.replace map bins pages written, ?_, ?_, ?_, ?_, ?_⟩
      · have := old.covers
        simp only [pagesOf_append, pages] at this ⊢
        exact this
      · exact (coalesced_replace newNonempty newTaken).mpr
          ((coalesced_replace nonempty taken).mp old.coalesced)
      · rw [counts.1, old.counts.nrunsAvail]
        simp [nfree_of_taken taken, nfree_of_taken newTaken]
      · rw [counts.2.1, old.counts.nrunsAdjac, nadjac_replace nonempty taken,
          nadjac_replace newNonempty newTaken]
      · rw [counts.2.2, old.counts.ndirty, dirtyOfSame, layout]
    · rw [Function.update_of_ne same, chunks other same]
      exact books.chunk other owned'
  · rw [availSame]
    exact books.availSorted.congr fun elm member => Arena.availKey_congr (inTree elm member)
  · intro elm
    rw [availSame, books.mem_avail]
    by_cases same : elm.chunk = c
    · rw [same, Function.update_self, freeSame, layout]
    · simp [same]
  · rw [dirtySame]
    refine books.dirtySorted.of_keys fun left _ right _ _ less => ?_
    have keys : ∀ other, arena'.dirtyKey other = arena.dirtyKey other := by
      intro other
      by_cases same : other = c
      · simp [Arena.dirtyKey, same, counts.1, counts.2.1]
      · exact Arena.dirtyKey_congr (chunks other same)
    rwa [keys, keys]
  · intro other
    rw [dirtySame, books.mem_dirty]
    by_cases same : other = c
    · rw [same, Function.update_self, dirtyOfSame]
    · simp [same]
  · have sum := sum_update owns layouts (before ++ new ++ after) dirtyOf
    have := books.ndirty
    omega
  · have sum := sum_update owns layouts (before ++ new ++ after) activeOf
    simp only [layout, activeOf_append] at sum ⊢
    exact active.total books.nactive (by omega)

end Books

/-! ## The two functions on free runs -/

namespace Arena

variable {page npages : Nat} {maybePred maybeSucc pred succ : Bool}

/-- A chunk after a free run has left it. -/
def removedFrom (header : ArenaChunk) (page npages : Nat) (pred succ : Bool) : ArenaChunk :=
  { header with
    nrunsAdjac := header.nrunsAdjac - pred.toNat - succ.toNat
    nrunsAvail := header.nrunsAvail - 1
    ndirty := header.ndirty - if (header.map page).dirty then npages else 0 }

/-- A chunk after a free run has entered it. -/
def insertedInto (header : ArenaChunk) (page npages : Nat) (pred succ : Bool) : ArenaChunk :=
  { header with
    nrunsAdjac := header.nrunsAdjac + pred.toNat + succ.toNat
    nrunsAvail := header.nrunsAvail + 1
    ndirty := header.ndirty + if (header.map page).dirty then npages else 0 }

theorem availRemove_eq (size : (arena.chunks c).unallocatedSizeGet page = some npages)
    (predTest : maybe maybePred (availAdjacPred g (arena.chunks c) page) = some pred)
    (succTest : maybe maybeSucc (availAdjacSucc g (arena.chunks c) page npages) = some succ)
    (fewer : (removedFrom (arena.chunks c) page npages pred succ).nrunsAdjac <
        (removedFrom (arena.chunks c) page npages pred succ).nrunsAvail ∨
      (removedFrom (arena.chunks c) page npages pred succ).nrunsAvail = 0 ∧
        (removedFrom (arena.chunks c) page npages pred succ).nrunsAdjac = 0) :
    arena.availRemove g c page npages maybePred maybeSucc =
      some { putDirty { (arena.takeDirty c).setChunk c
                (removedFrom (arena.chunks c) page npages pred succ) with
              ndirty := arena.ndirty -
                if ((arena.chunks c).map page).dirty then npages else 0 } c with
            runsAvail := OrderedTree.remove ⟨c, page⟩ arena.runsAvail } := by
  have counted : (arena.takeDirty c).countRemove c page npages pred succ =
      { (arena.takeDirty c).setChunk c (removedFrom (arena.chunks c) page npages pred succ) with
        ndirty := arena.ndirty -
          if ((arena.chunks c).map page).dirty then npages else 0 } := by
    simp [countRemove, removedFrom]
  unfold availRemove
  rw [check_eq_some size, predTest, succTest]
  simp only [Option.bind_eq_bind, Option.bind_some]
  rw [counted, check_eq_some (by simpa [setChunk] using fewer)]
  simp [setChunk]

theorem availInsert_eq (size : (arena.chunks c).unallocatedSizeGet page = some npages)
    (predTest : maybe maybePred (availAdjacPred g (arena.chunks c) page) = some pred)
    (succTest : maybe maybeSucc (availAdjacSucc g (arena.chunks c) page npages) = some succ)
    (fewer : (insertedInto (arena.chunks c) page npages pred succ).nrunsAdjac <
      (insertedInto (arena.chunks c) page npages pred succ).nrunsAvail) :
    arena.availInsert g c page npages maybePred maybeSucc =
      some { putDirty { (arena.takeDirty c).setChunk c
                (insertedInto (arena.chunks c) page npages pred succ) with
              ndirty := arena.ndirty +
                if ((arena.chunks c).map page).dirty then npages else 0 } c with
            runsAvail := OrderedTree.insert arena.availKey ⟨c, page⟩ arena.runsAvail } := by
  have counted : (arena.takeDirty c).countInsert c page npages pred succ =
      { (arena.takeDirty c).setChunk c (insertedInto (arena.chunks c) page npages pred succ) with
        ndirty := arena.ndirty +
          if ((arena.chunks c).map page).dirty then npages else 0 } := by
    simp [countInsert, insertedInto]
  have keys : availKey (putDirty { (arena.takeDirty c).setChunk c
        (insertedInto (arena.chunks c) page npages pred succ) with
      ndirty := arena.ndirty + if ((arena.chunks c).map page).dirty then npages else 0 } c) =
      arena.availKey := by
    funext elm
    refine availKey_congr ?_
    by_cases same : elm.chunk = c <;> simp [setChunk, same, insertedInto]
  unfold availInsert
  rw [check_eq_some size, predTest, succTest]
  simp only [Option.bind_eq_bind, Option.bind_some]
  rw [counted, check_eq_some (by simpa [setChunk] using fewer)]
  simp only [Option.bind_some, keys]
  simp [setChunk]

end Arena

namespace Books

/-- What does not change when a chunk is counted anew. -/
theorem sameMaps_recount {header : ArenaChunk} {total : Nat} {avail : List MapElm}
    (map : header.map = (arena.chunks c).map) (bins : header.runBin = (arena.chunks c).runBin) :
    SameMaps arena
      { Arena.putDirty { (arena.takeDirty c).setChunk c header with ndirty := total } c with
        runsAvail := avail } := by
  constructor
  · intro other
    by_cases same : other = c <;> simp [Arena.setChunk, same, map]
  · intro other
    by_cases same : other = c <;> simp [Arena.setChunk, same, bins]
  all_goals simp [Arena.setChunk]

/-- The dirty pages of a chunk are dirty pages of its arena. -/
theorem dirtyOf_le (books : Books g owned layouts others arena) (owns : c ∈ owned) :
    dirtyOf (layouts c) ≤ arena.ndirty := by
  rw [books.ndirty]
  exact Finset.single_le_sum (f := fun x => dirtyOf (layouts x)) (fun _ _ => Nat.zero_le _) owns

/-- `arena_avail_remove` turns a free run into one that is only marked free. -/
theorem availRemove (books : Books g owned layouts others arena) (owns : c ∈ owned)
    (layout : layouts c = before ++ ⟨n, .free, dirty⟩ :: after) (maybePred maybeSucc : Bool)
    (quietPred : Quiet maybePred before.getLast?) (quietSucc : Quiet maybeSucc after.head?) :
    ∃ arena', arena.availRemove g c (g.mapBias + pagesOf before) n maybePred maybeSucc =
        some arena' ∧
      Books g owned (Function.update layouts c (before ++ ⟨n, .held, dirty⟩ :: after)) others
        arena' ∧ SameMaps arena arena' := by
  have old := books.chunk c owns
  rw [layout] at old
  obtain ⟨chainBefore, chainAfter, apartLast, apartHead⟩ := coalesced_free.mp old.coalesced
  have parts := old.holds
  simp only [Holds.append_iff, Holds.cons_iff] at parts
  obtain ⟨holdsBefore, described, holdsAfter⟩ := parts
  have first : ((arena.chunks c).map (g.mapBias + pagesOf before)).dirty = dirty :=
    (described.first (by simp)).2
  have pred := availAdjacPred_eq old.holds apartLast rfl quietPred
  have succ := availAdjacSucc_eq old.holds old.covers apartHead rfl quietSucc
  have nadj := old.counts.nrunsAdjac
  rw [nadjac_free] at nadj
  have navail := old.counts.nrunsAvail
  have ndir := old.counts.ndirty
  have total := books.dirtyOf_le owns
  rw [layout] at total
  have newAdjac : nadjac (before ++ ⟨n, .held, dirty⟩ :: after) = nadjac before + nadjac after :=
    nadjac_taken rfl
  have counts : Counts (Arena.removedFrom (arena.chunks c) (g.mapBias + pagesOf before) n
      (Tiling.lastTouches Run.adjoins before ⟨n, .free, dirty⟩)
      (Tiling.headTouches Run.adjoins ⟨n, .free, dirty⟩ after))
      (before ++ ⟨n, .held, dirty⟩ :: after) := by
    constructor
    · simp only [Arena.removedFrom, navail, nfree_append, nfree_cons]
      simp [Run.isFree]
    · simp only [Arena.removedFrom, newAdjac]
      omega
    · simp only [Arena.removedFrom, ndir, first, dirtyOf_append, dirtyOf_cons]
      cases dirty <;> simp [Run.dirtyPages, Run.isFree]; omega
  refine ⟨_, Arena.availRemove_eq (described.unallocatedSizeGet (Or.inl rfl)).1 pred succ ?_,
    ?_, sameMaps_recount rfl rfl⟩
  · rw [counts.nrunsAdjac, counts.nrunsAvail]
    have := nadjac_lt (before ++ ⟨n, .held, dirty⟩ :: after)
    omega
  · refine books.recount owns rfl ⟨?_, ?_, ?_, counts⟩ ?_ ?_ (books.availSorted.remove _) ?_
    · have holds : Holds g (arena.chunks c) g.mapBias (before ++ ⟨n, .held, dirty⟩ :: after) := by
        simp only [Holds.append_iff, Holds.cons_iff]
        exact ⟨holdsBefore, described, holdsAfter⟩
      exact holds.congr (fun _ _ _ => rfl) fun _ _ _ => rfl
    · simpa using old.covers
    · exact (coalesced_taken rfl).mpr ⟨chainBefore, chainAfter⟩
    · simp [layout, Run.active]
    · simp only [layout, first, dirtyOf_append, dirtyOf_cons] at total ⊢
      cases dirty <;> simp [Run.dirtyPages, Run.isFree] at total ⊢; omega
    · obtain ⟨notBefore, notAfter⟩ := notMem_freeAt old.holds
      rintro ⟨chunk, page⟩
      rw [OrderedTree.mem_remove books.availSorted.nodup, books.mem_avail]
      by_cases same : chunk = c
      · subst same
        simp only [Function.update_self, layout, freeAt_append, freeAt_cons, List.mem_append]
        by_cases isPage : page = g.mapBias + pagesOf before
        · subst isPage
          simp [Run.isFree, notBefore, notAfter]
        · simp [Run.isFree, isPage]
      · simp [same]

/-- `arena_avail_insert` turns a run that is only marked free into a free one. -/
theorem availInsert (books : Books g owned layouts others arena) (owns : c ∈ owned)
    (layout : layouts c = before ++ ⟨n, .held, dirty⟩ :: after) (maybePred maybeSucc : Bool)
    (quietPred : Quiet maybePred before.getLast?) (quietSucc : Quiet maybeSucc after.head?)
    (apartLast : Tiling.lastTouches Run.mergeable before ⟨n, .free, dirty⟩ = false)
    (apartHead : Tiling.headTouches Run.mergeable ⟨n, .free, dirty⟩ after = false) :
    ∃ arena', arena.availInsert g c (g.mapBias + pagesOf before) n maybePred maybeSucc =
        some arena' ∧
      Books g owned (Function.update layouts c (before ++ ⟨n, .free, dirty⟩ :: after)) others
        arena' ∧ SameMaps arena arena' := by
  have old := books.chunk c owns
  rw [layout] at old
  obtain ⟨chainBefore, chainAfter⟩ := (coalesced_taken rfl).mp old.coalesced
  have parts := old.holds
  simp only [Holds.append_iff, Holds.cons_iff] at parts
  obtain ⟨holdsBefore, described, holdsAfter⟩ := parts
  have holds : Holds g (arena.chunks c) g.mapBias (before ++ ⟨n, .free, dirty⟩ :: after) := by
    simp only [Holds.append_iff, Holds.cons_iff]
    exact ⟨holdsBefore, described, holdsAfter⟩
  have covers : g.mapBias + pagesOf (before ++ ⟨n, .free, dirty⟩ :: after) = g.chunkNpages := by
    simpa using old.covers
  have first : ((arena.chunks c).map (g.mapBias + pagesOf before)).dirty = dirty :=
    (described.first (by simp)).2
  have pred := availAdjacPred_eq holds apartLast rfl quietPred
  have succ := availAdjacSucc_eq holds covers apartHead rfl quietSucc
  have navail := old.counts.nrunsAvail
  have nadj := old.counts.nrunsAdjac
  rw [nadjac_taken rfl] at nadj
  have ndir := old.counts.ndirty
  have counts : Counts (Arena.insertedInto (arena.chunks c) (g.mapBias + pagesOf before) n
      (Tiling.lastTouches Run.adjoins before ⟨n, .free, dirty⟩)
      (Tiling.headTouches Run.adjoins ⟨n, .free, dirty⟩ after))
      (before ++ ⟨n, .free, dirty⟩ :: after) := by
    constructor
    · simp only [Arena.insertedInto, navail, nfree_append, nfree_cons]
      simp [Run.isFree]
      omega
    · simp only [Arena.insertedInto, nadjac_free]
      omega
    · simp only [Arena.insertedInto, ndir, first, dirtyOf_append, dirtyOf_cons]
      cases dirty <;> simp [Run.dirtyPages, Run.isFree]
      omega
  refine ⟨_, Arena.availInsert_eq (described.unallocatedSizeGet (Or.inr rfl)).1 pred succ ?_,
    ?_, sameMaps_recount rfl rfl⟩
  · rw [counts.nrunsAdjac, counts.nrunsAvail]
    have := nadjac_lt (before ++ ⟨n, .free, dirty⟩ :: after)
    simp [nfree_append, Run.isFree] at this ⊢
    omega
  · obtain ⟨notBefore, notAfter⟩ := notMem_freeAt holds
    have fresh : (⟨c, g.mapBias + pagesOf before⟩ : MapElm) ∉ arena.runsAvail := by
      rw [books.mem_avail]
      simp [layout, Run.isFree, notBefore, notAfter]
    refine books.recount owns rfl ⟨?_, covers, ?_, counts⟩ ?_ ?_ ?_ ?_
    · exact holds.congr (fun _ _ _ => rfl) fun _ _ _ => rfl
    · exact coalesced_free.mpr ⟨chainBefore, chainAfter, apartLast, apartHead⟩
    · simp [layout, Run.active]
    · simp only [layout, first, dirtyOf_append, dirtyOf_cons]
      cases dirty <;> simp [Run.dirtyPages, Run.isFree]
      omega
    · refine books.availSorted.insert fun other member equal => ?_
      rw [Arena.availKey_injective equal] at member
      exact fresh member
    · rintro ⟨chunk, page⟩
      rw [OrderedTree.mem_insert, books.mem_avail]
      by_cases same : chunk = c
      · subst same
        simp only [Function.update_self, layout, freeAt_append, freeAt_cons, List.mem_append]
        by_cases isPage : page = g.mapBias + pagesOf before
        · subst isPage
          simp [Run.isFree, owns]
        · simp [Run.isFree, isPage]
      · simp [same]

end Books

end Jemalloc
end Vmem
