import Vmem.Jemalloc.ArenaAvail

/-!
# Splitting a free run

`arena_run_split_remove` takes the first pages of a free run and returns the rest to the
tree of free runs.  The callers then write the map elements of the pages taken.
-/

namespace Vmem
namespace Jemalloc

variable {g : Geometry} {owned : Finset Nat} {layouts : Nat → List Run} {others : Nat}
  {arena : Arena} {c : Nat} {before middle new after : List Run} {n need : Nat} {dirty : Bool}

/-! ## Written map elements -/

section Written

variable {chunk : ArenaChunk} {page pageind size : Nat} {bits : MapBits} {unzeroed large : Bool}

@[simp] theorem ArenaChunk.write_map :
    (chunk.write pageind bits).map page = if page = pageind then bits else chunk.map page := by
  simp [ArenaChunk.write, Function.update_apply]

@[simp] theorem ArenaChunk.write_runBin : (chunk.write pageind bits).runBin = chunk.runBin := rfl
@[simp] theorem ArenaChunk.write_ndirty : (chunk.write pageind bits).ndirty = chunk.ndirty := rfl

@[simp] theorem ArenaChunk.write_nrunsAvail :
    (chunk.write pageind bits).nrunsAvail = chunk.nrunsAvail := rfl

@[simp] theorem ArenaChunk.write_nrunsAdjac :
    (chunk.write pageind bits).nrunsAdjac = chunk.nrunsAdjac := rfl

/-- A chunk whose header and whose other pages stay as they are. -/
structure OnlyPages (chunk chunk' : ArenaChunk) (first last : Nat) : Prop where
  map : ∀ page, (page < first ∨ last ≤ page) → chunk'.map page = chunk.map page
  runBin : ∀ page, (page < first ∨ last ≤ page) → chunk'.runBin page = chunk.runBin page
  counts : chunk'.nrunsAvail = chunk.nrunsAvail ∧ chunk'.nrunsAdjac = chunk.nrunsAdjac ∧
    chunk'.ndirty = chunk.ndirty

theorem OnlyPages.refl (chunk : ArenaChunk) (first last : Nat) :
    OnlyPages chunk chunk first last :=
  ⟨fun _ _ => rfl, fun _ _ => rfl, rfl, rfl, rfl⟩

theorem OnlyPages.write {chunk' : ArenaChunk} {first last : Nat}
    (only : OnlyPages chunk chunk' first last) (inside : first ≤ pageind ∧ pageind < last) :
    OnlyPages chunk (chunk'.write pageind bits) first last := by
  refine ⟨fun page outside => ?_, only.runBin, only.counts⟩
  rw [ArenaChunk.write_map, if_neg (by omega)]
  exact only.map page outside

theorem OnlyPages.mono {chunk' : ArenaChunk} {first last first' last' : Nat}
    (only : OnlyPages chunk chunk' first last) (lower : first' ≤ first) (upper : last ≤ last') :
    OnlyPages chunk chunk' first' last' :=
  ⟨fun page outside => only.map page (by omega),
    fun page outside => only.runBin page (by omega), only.counts⟩

end Written

/-- The map elements of taken runs of one chunk are rewritten. -/
theorem Books.rewritePages (books : Books g owned layouts others arena)
    (before middle new after : List Run) (header : ArenaChunk) (active : Nat) (owns : c ∈ owned)
    (layout : layouts c = before ++ middle ++ after)
    (nonempty : middle ≠ []) (taken : ∀ run ∈ middle, run.isFree = false)
    (newNonempty : new ≠ []) (newTaken : ∀ run ∈ new, run.isFree = false)
    (pages : pagesOf new = pagesOf middle)
    (only : OnlyPages (arena.chunks c) header (g.mapBias + pagesOf before)
      (g.mapBias + pagesOf before + pagesOf middle))
    (written : Holds g header (g.mapBias + pagesOf before) new)
    (counted : Recounts arena.nactive (activeOf middle) (activeOf new) active) :
    Books g owned (Function.update layouts c (before ++ new ++ after)) others
      ({ arena with nactive := active }.setChunk c header) := by
  refine books.rewrite owns layout nonempty taken newNonempty newTaken pages ?_ ?_ ?_ ?_ ?_
    ⟨rfl, rfl, rfl⟩ counted
  · intro other different
    simp [Arena.setChunk, different]
  · simpa [Arena.setChunk] using only.map
  · simpa [Arena.setChunk] using only.runBin
  · simpa [Arena.setChunk] using written
  · simpa [Arena.setChunk] using only.counts

/-- The map elements of taken runs of one chunk are rewritten, and as many pages are active
as before. -/
theorem Books.rewriteChunk (books : Books g owned layouts others arena)
    (before middle new after : List Run) (header : ArenaChunk) (owns : c ∈ owned)
    (layout : layouts c = before ++ middle ++ after)
    (nonempty : middle ≠ []) (taken : ∀ run ∈ middle, run.isFree = false)
    (newNonempty : new ≠ []) (newTaken : ∀ run ∈ new, run.isFree = false)
    (pages : pagesOf new = pagesOf middle)
    (only : OnlyPages (arena.chunks c) header (g.mapBias + pagesOf before)
      (g.mapBias + pagesOf before + pagesOf middle))
    (written : Holds g header (g.mapBias + pagesOf before) new)
    (counted : activeOf middle = activeOf new) :
    Books g owned (Function.update layouts c (before ++ new ++ after)) others
      (arena.setChunk c header) :=
  books.rewritePages before middle new after header arena.nactive owns layout nonempty taken
    newNonempty newTaken pages only written (counted ▸ Recounts.same books.nactive_lt)

/-! ## The rest of a split run -/

/-- What remains of a free run. -/
def restOf (n need : Nat) (dirty : Bool) : List Run :=
  if need < n then [⟨n - need, .free, dirty⟩] else []

theorem onlyPages_splitRest {chunk : ArenaChunk} {runInd : Nat} (smaller : need < n) :
    OnlyPages chunk (Arena.splitRest chunk runInd need n dirty) (runInd + need) (runInd + n) := by
  unfold Arena.splitRest
  cases dirty
  · exact ((OnlyPages.refl _ _ _).write (by omega)).write (by omega)
  · exact ((OnlyPages.refl _ _ _).write (by omega)).write (by omega)

theorem describes_splitRest {chunk : ArenaChunk} {runInd : Nat} (smaller : need < n) :
    Describes g (Arena.splitRest chunk runInd need n dirty) (runInd + need)
      ⟨n - need, .held, dirty⟩ := by
  have last : runInd + need + (n - need) - 1 = runInd + n - 1 := by omega
  refine ⟨by simp; omega, ?_⟩
  simp only [last]
  unfold Arena.splitRest ArenaChunk.unallocatedSet MapBits.IsUnallocated
  cases dirty <;> by_cases single : runInd + need = runInd + n - 1 <;> simp [single]

theorem describes_raw {chunk : ArenaChunk} {start : Nat} (positive : 0 < need) :
    Describes g chunk start ⟨need, .raw, dirty⟩ := ⟨positive, trivial⟩

/-- What an operation on the runs leaves alone besides the runs of the other chunks. -/
structure Frame (arena arena' : Arena) : Prop where
  spare : arena'.spare = arena.spare
  npurgatory : arena'.npurgatory = arena.npurgatory

theorem Frame.trans {first second third : Arena} (left : Frame first second)
    (right : Frame second third) : Frame first third :=
  ⟨right.spare.trans left.spare, right.npurgatory.trans left.npurgatory⟩

theorem SameMaps.frame {arena' : Arena} (same : SameMaps arena arena') : Frame arena arena' :=
  ⟨same.spare, same.npurgatory⟩

namespace Books

/-- `arena_run_split_remove` takes the first pages of a free run. -/
theorem runSplitRemove (books : Books g owned layouts others arena) (owns : c ∈ owned)
    (layout : layouts c = before ++ ⟨n, .free, dirty⟩ :: after)
    (quietBefore : Quiet true before.getLast?) (quietAfter : Quiet true after.head?)
    (positive : 0 < need) (fits : need ≤ n) :
    ∃ arena', arena.runSplitRemove g c (g.mapBias + pagesOf before) dirty need = some arena' ∧
      Books g owned (Function.update layouts c
        (before ++ ⟨need, .raw, dirty⟩ :: (restOf n need dirty ++ after))) others arena' ∧
      Frame arena arena' := by
  have old := books.chunk c owns
  rw [layout] at old
  have apartHead := (coalesced_free.mp old.coalesced).2.2.2
  have described : Describes g (arena.chunks c) (g.mapBias + pagesOf before) ⟨n, .free, dirty⟩ :=
    old.holds.described
  have size : (arena.chunks c).unallocatedSizeGet (g.mapBias + pagesOf before) = some n :=
    (described.unallocatedSizeGet (Or.inl rfl)).1
  have last : ((arena.chunks c).map (g.mapBias + pagesOf before + n - 1)).dirty = dirty :=
    (described.last (by simp)).2
  obtain ⟨removed, result, removedBooks, same⟩ :=
    books.availRemove owns layout true true quietBefore quietAfter
  have split : arena.runSplitRemove g c (g.mapBias + pagesOf before) dirty need =
      if need < n then
        ({ removed with nactive := Word.add removed.nactive need }.setChunk c
          (Arena.splitRest (removed.chunks c) (g.mapBias + pagesOf before) need n
            dirty)).availInsert g c (g.mapBias + pagesOf before + need) (n - need) false true
      else some { removed with nactive := Word.add removed.nactive need } := by
    unfold Arena.runSplitRemove
    rw [size]
    simp only [Option.bind_eq_bind, Option.bind_some]
    rw [check_eq_some last, check_eq_some fits]
    simp only [Option.bind_some, result]
  by_cases smaller : need < n
  · have taken := removedBooks.rewritePages before [⟨n, .held, dirty⟩]
      [⟨need, .raw, dirty⟩, ⟨n - need, .held, dirty⟩] after
      (Arena.splitRest (removed.chunks c) (g.mapBias + pagesOf before) need n dirty)
      (Word.add removed.nactive need) owns (by simp) (by simp) (by simp [Run.isFree])
      (by simp) (by simp [Run.isFree]) (by simp; omega)
      ((onlyPages_splitRest smaller).mono (by omega) (by simp))
      (by simpa using ⟨describes_raw positive, describes_splitRest smaller⟩)
      (by simpa [Run.active] using Recounts.add need)
    have around : before ++ [⟨need, .raw, dirty⟩, ⟨n - need, .held, dirty⟩] ++ after =
        (before ++ [⟨need, .raw, dirty⟩]) ++ ⟨n - need, .held, dirty⟩ :: after := by simp
    rw [Function.update_idem, around] at taken
    obtain ⟨arena', inserted, newBooks, same'⟩ :=
      taken.availInsert owns (Function.update_self _ _ _) false true
        (by simp [Quiet, Run.isFree]) quietAfter
        (by simp [Run.mergeable, Run.adjoins, Run.isFree]) apartHead
    refine ⟨arena', ?_, ?_,
      ⟨same'.spare.trans same.spare, same'.npurgatory.trans same.npurgatory⟩⟩
    · rw [split, if_pos smaller]
      simpa [Nat.add_assoc] using inserted
    · simpa [restOf, smaller] using newBooks
  · have whole : need = n := by omega
    subst whole
    have taken := removedBooks.rewritePages before [⟨need, .held, dirty⟩] [⟨need, .raw, dirty⟩]
      after (removed.chunks c) (Word.add removed.nactive need) owns (by simp) (by simp)
      (by simp [Run.isFree]) (by simp) (by simp [Run.isFree]) (by simp) (OnlyPages.refl _ _ _)
      (by simpa using describes_raw positive) (by simpa [Run.active] using Recounts.add need)
    refine ⟨{ removed with nactive := Word.add removed.nactive need }, ?_, ?_,
      ⟨same.spare, same.npurgatory⟩⟩
    · rw [split, if_neg smaller]
    · simpa [restOf, Arena.setChunk] using taken

end Books

/-! ## Large runs -/

/-- The two map elements that a large run has, the last one written first. -/
theorem describes_large {chunk : ArenaChunk} {start : Nat} (positive : 0 < need) :
    Describes g ((chunk.largeSet (start + need - 1) 0 dirty).largeSet start need dirty) start
      ⟨need, .large, dirty⟩ := by
  refine ⟨positive, ?_, fun several => ?_⟩
  · simp [ArenaChunk.largeSet, MapBits.IsLarge]
  · have apart : start + need - 1 ≠ start := by simp only at several; omega
    simp [ArenaChunk.largeSet, MapBits.IsLarge, apart]

theorem onlyPages_large {chunk : ArenaChunk} {start : Nat} (positive : 0 < need) :
    OnlyPages chunk ((chunk.largeSet (start + need - 1) 0 dirty).largeSet start need dirty)
      start (start + need) :=
  ((OnlyPages.refl _ _ _).write (by omega)).write (by omega)

variable (g) in
/-- A way to split runs: it takes the first pages of a free run for a use. -/
def Splits (split : Arena → MapElm → Option Arena) (need : Nat) (use : RunUse) : Prop :=
  ∀ {owned layouts others arena c before after n dirty},
    Books g owned layouts others arena → c ∈ owned →
    layouts c = before ++ ⟨n, .free, dirty⟩ :: after →
    Quiet true before.getLast? → Quiet true after.head? → need ≤ n →
    ∃ arena', split arena ⟨c, g.mapBias + pagesOf before⟩ = some arena' ∧
      Books g owned (Function.update layouts c
        (before ++ ⟨need, use, dirty⟩ :: (restOf n need dirty ++ after))) others arena' ∧
      Frame arena arena'

/-- `arena_run_split_large` makes a large run of the first pages of a free one. -/
theorem splits_large (positive : 0 < need) : Splits g (Arena.splitLarge g need) need .large := by
  intro owned layouts others arena c before after n dirty books owns layout quietBefore quietAfter
    fits
  have described : Describes g (arena.chunks c) (g.mapBias + pagesOf before) ⟨n, .free, dirty⟩ :=
    books.described owns layout
  have first : ((arena.chunks c).map (g.mapBias + pagesOf before)).dirty = dirty :=
    (described.first (by simp)).2
  obtain ⟨taken, result, takenBooks, frame⟩ :=
    books.runSplitRemove owns layout quietBefore quietAfter positive fits
  have written := takenBooks.rewriteChunk before [⟨need, .raw, dirty⟩] [⟨need, .large, dirty⟩]
    (restOf n need dirty ++ after)
    (((taken.chunks c).largeSet (g.mapBias + pagesOf before + need - 1) 0
      dirty).largeSet (g.mapBias + pagesOf before) need dirty) owns (by simp) (by simp)
    (by simp [Run.isFree]) (by simp) (by simp [Run.isFree]) (by simp)
    (by simpa using onlyPages_large positive) (by simpa using describes_large positive)
    (by simp [Run.active])
  refine ⟨taken.setChunk c (((taken.chunks c).largeSet (g.mapBias + pagesOf before + need - 1) 0
    dirty).largeSet (g.mapBias + pagesOf before) need dirty), ?_, by simpa using written,
    ⟨frame.spare, frame.npurgatory⟩⟩
  unfold Arena.splitLarge Arena.runSplitLarge
  simp only [first]
  rw [check_eq_some positive]
  simp only [Option.bind_eq_bind, Option.bind_some, result]

/-! ## Small runs -/

section Small

variable {chunk : ArenaChunk} {runInd binind : Nat}

/-- What the pages inside a small run become. -/
theorem smallSetPages_eq (chunk : ArenaChunk) (known : binind < binindInvalid)
    (bias : g.mapBias ≤ runInd) (first count : Nat) :
    ∃ chunk', Arena.smallSetPages g runInd binind chunk (List.range' first count) = some chunk' ∧
      (∀ page, chunk'.map page =
        if runInd + first ≤ page ∧ page < runInd + first + count then
          ⟨page - runInd, binind, false, (chunk.map page).unzeroed, false, true⟩
        else chunk.map page) ∧
      chunk'.runBin = chunk.runBin ∧ chunk'.nrunsAvail = chunk.nrunsAvail ∧
      chunk'.nrunsAdjac = chunk.nrunsAdjac ∧ chunk'.ndirty = chunk.ndirty := by
  induction count generalizing first chunk with
  | zero =>
      refine ⟨chunk, rfl, fun page => ?_, rfl, rfl, rfl, rfl⟩
      rw [if_neg (by omega)]
  | succ count inductionHypothesis =>
      have set_ : chunk.smallSet g (runInd + first) first binind false = some
          (chunk.write (runInd + first) ⟨first, binind, false,
            (chunk.map (runInd + first)).unzeroed, false, true⟩) := by
        unfold ArenaChunk.smallSet
        rw [if_pos ⟨known, by omega⟩]
      obtain ⟨chunk', result, map, rest⟩ := inductionHypothesis
        (chunk.write (runInd + first) ⟨first, binind, false,
          (chunk.map (runInd + first)).unzeroed, false, true⟩) (first + 1)
      refine ⟨chunk', ?_, fun page => ?_, rest⟩
      · simp only [List.range'_succ, Arena.smallSetPages, set_, Option.bind_eq_bind,
          Option.bind_some, result]
      · rw [map page, ArenaChunk.write_map]
        by_cases isFirst : page = runInd + first
        · subst isFirst
          simp
        · rw [if_neg isFirst]
          by_cases inside : runInd + (first + 1) ≤ page ∧ page < runInd + (first + 1) + count
          · rw [if_pos inside, if_pos (by omega)]
          · rw [if_neg inside, if_neg (by omega)]

/-- What the pages of a small run become; only the first and the last one carry the dirty
flag. -/
theorem smallSetRun_eq (chunk : ArenaChunk) (dirty : Bool) (known : binind < binindInvalid)
    (bias : g.mapBias ≤ runInd) (positive : 0 < need) :
    ∃ chunk', Arena.smallSetRun g chunk runInd need binind dirty = some chunk' ∧
      (∀ page, chunk'.map page =
        if runInd ≤ page ∧ page < runInd + need then
          ⟨page - runInd, binind, (dirty && (page == runInd || page + 1 == runInd + need)),
            (chunk.map page).unzeroed, false, true⟩
        else chunk.map page) ∧
      chunk'.runBin = chunk.runBin ∧ chunk'.nrunsAvail = chunk.nrunsAvail ∧
      chunk'.nrunsAdjac = chunk.nrunsAdjac ∧ chunk'.ndirty = chunk.ndirty := by
  have set_ : ∀ (chunk : ArenaChunk) (i : Nat), chunk.smallSet g (runInd + i) i binind dirty = some
      (chunk.write (runInd + i) ⟨i, binind, dirty, (chunk.map (runInd + i)).unzeroed, false,
        true⟩) := by
    intro chunk i
    unfold ArenaChunk.smallSet
    rw [if_pos ⟨known, by omega⟩]
  obtain ⟨chunk', result, map, rest⟩ := smallSetPages_eq (g := g)
    (chunk.write runInd ⟨0, binind, dirty, (chunk.map runInd).unzeroed, false, true⟩)
    known bias 1 (need - 2)
  have last : runInd + need - 1 = runInd + (need - 1) := by omega
  refine ⟨chunk'.write (runInd + (need - 1)) ⟨need - 1, binind, dirty,
    (chunk'.map (runInd + (need - 1))).unzeroed, false, true⟩, ?_, fun page => ?_, rest⟩
  · have first := set_ chunk 0
    rw [Nat.add_zero] at first
    simp only [Arena.smallSetRun, first, Option.bind_eq_bind, Option.bind_some, result, last, set_]
  · have unzeroed : ∀ page, (chunk'.map page).unzeroed = (chunk.map page).unzeroed := by
      intro page
      rw [map page]
      split <;> by_cases isFirst : page = runInd <;> simp [isFirst]
    rw [ArenaChunk.write_map]
    by_cases isLast : page = runInd + (need - 1)
    · have end_ : page + 1 = runInd + need := by omega
      have inside : runInd ≤ page ∧ page < runInd + need := by omega
      have index : page - runInd = need - 1 := by omega
      rw [if_pos isLast, if_pos inside, ← isLast, unzeroed, index]
      simp [end_]
    · rw [if_neg isLast, map page, ArenaChunk.write_map]
      by_cases isFirst : page = runInd
      · subst isFirst
        simp [positive]
      · by_cases inside : runInd + 1 ≤ page ∧ page < runInd + 1 + (need - 2)
        · have notEnd : page + 1 ≠ runInd + need := by omega
          rw [if_pos inside, if_neg isFirst, if_pos (by omega)]
          simp [isFirst, notEnd]
        · rw [if_neg inside, if_neg isFirst, if_neg (by omega)]

end Small

/-- `arena_run_split_small` and the entry in the header of the run make a run for a bin. -/
theorem splits_forBin {binind : Nat} (known : binind < g.nbins) :
    Splits g (Arena.splitForBin g binind) (g.runPages binind) (.small binind) := by
  intro owned layouts others arena c before after n dirty books owns layout quietBefore quietAfter
    fits
  have positive := g.runPages_pos binind known
  have few := g.nbins_le
  have described : Describes g (arena.chunks c) (g.mapBias + pagesOf before) ⟨n, .free, dirty⟩ :=
    books.described owns layout
  have first : ((arena.chunks c).map (g.mapBias + pagesOf before)).dirty = dirty :=
    (described.first (by simp)).2
  obtain ⟨taken, result, takenBooks, frame⟩ :=
    books.runSplitRemove owns layout quietBefore quietAfter positive fits
  obtain ⟨header, set_, map, bins, counts⟩ := smallSetRun_eq (taken.chunks c) dirty
    (Nat.lt_of_lt_of_le known few) (Nat.le_add_right g.mapBias (pagesOf before)) positive
  have only : OnlyPages (taken.chunks c)
      { header with
        runBin := Function.update header.runBin (g.mapBias + pagesOf before) binind }
      (g.mapBias + pagesOf before) (g.mapBias + pagesOf before + g.runPages binind) := by
    refine ⟨fun page outside => ?_, fun page outside => ?_, counts⟩
    · rw [map, if_neg (by omega)]
    · have other : page ≠ g.mapBias + pagesOf before := by omega
      simp [other, bins]
  have small : Describes g
      { header with
        runBin := Function.update header.runBin (g.mapBias + pagesOf before) binind }
      (g.mapBias + pagesOf before) ⟨g.runPages binind, .small binind, dirty⟩ := by
    refine ⟨positive, known, rfl, Function.update_self _ _ _, fun i below => ?_, ?_, ?_⟩
    · simp only at below
      simp [MapBits.IsSmall, map, below]
    · simp [map, positive]
    · have inside : g.mapBias + pagesOf before ≤
          g.mapBias + pagesOf before + g.runPages binind - 1 ∧
          g.mapBias + pagesOf before + g.runPages binind - 1 <
            g.mapBias + pagesOf before + g.runPages binind := by omega
      have end_ : g.mapBias + pagesOf before + g.runPages binind - 1 + 1 =
          g.mapBias + pagesOf before + g.runPages binind := by omega
      simp [map, inside, end_]
  have written := takenBooks.rewriteChunk before [⟨g.runPages binind, .raw, dirty⟩]
    [⟨g.runPages binind, .small binind, dirty⟩] (restOf n (g.runPages binind) dirty ++ after)
    { header with runBin := Function.update header.runBin (g.mapBias + pagesOf before) binind }
    owns (by simp) (by simp) (by simp [Run.isFree]) (by simp) (by simp [Run.isFree]) (by simp)
    (by simpa using only) (by simpa using small) (by simp [Run.active])
  refine ⟨taken.setChunk c { header with
      runBin := Function.update header.runBin (g.mapBias + pagesOf before) binind },
    ?_, by simpa using written, ⟨frame.spare, frame.npurgatory⟩⟩
  have valid : binind ≠ binindInvalid := by omega
  unfold Arena.splitForBin Arena.splitSmall Arena.runSplitSmall
  simp only [first]
  rw [check_eq_some valid, check_eq_some positive]
  simp only [Option.bind_eq_bind, Option.bind_some, result, set_]
  simp [Arena.setBin, Arena.setChunk]

end Jemalloc
end Vmem
