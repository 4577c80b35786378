import Vmem.Jemalloc.RunLayout
import Mathlib.Algebra.BigOperators.Group.Finset.Basic
import Mathlib.Algebra.Order.BigOperators.Group.Finset
import Mathlib.Algebra.BigOperators.Group.Finset.Piecewise

/-!
# The books of an arena

The counters of an arena and of its chunks, the tree of free runs and the tree of dirty
chunks all say the same as the page maps.  The two functions that change them together are
`arena_avail_insert` and `arena_avail_remove`; everything else only rewrites map elements
of runs that are not in the tree.
-/

namespace Vmem
namespace Jemalloc

/-- The header and the map of a chunk with the given runs. -/
structure HeaderBooks (g : Geometry) (chunk : ArenaChunk) (layout : List Run) : Prop where
  holds : Holds g chunk g.mapBias layout
  covers : g.mapBias + pagesOf layout = g.chunkNpages
  coalesced : RunsCoalesced layout
  counts : Counts chunk layout

/-- The books of an arena that owns some chunks; `others` are the active pages that belong
to no chunk of runs.  Nothing bounds these, so that `nactive` may wrap. -/
structure Books (g : Geometry) (owned : Finset Nat) (layouts : Nat → List Run) (others : Nat)
    (arena : Arena) : Prop where
  chunk : ∀ c ∈ owned, HeaderBooks g (arena.chunks c) (layouts c)
  availSorted : OrderedTree.Sorted arena.availKey arena.runsAvail
  mem_avail : ∀ elm, elm ∈ arena.runsAvail ↔
    elm.chunk ∈ owned ∧ elm.pageind ∈ freeAt g.mapBias (layouts elm.chunk)
  dirtySorted : OrderedTree.Sorted arena.dirtyKey arena.chunksDirty
  mem_dirty : ∀ c, c ∈ arena.chunksDirty ↔ c ∈ owned ∧ dirtyOf (layouts c) ≠ 0
  ndirty : arena.ndirty = ∑ c ∈ owned, dirtyOf (layouts c)
  nactive : arena.nactive = (others + ∑ c ∈ owned, activeOf (layouts c)) % Word.modulus

theorem Books.nactive_lt {g : Geometry} {owned : Finset Nat} {layouts : Nat → List Run}
    {others : Nat} {arena : Arena} (books : Books g owned layouts others arena) :
    arena.nactive < Word.modulus := by
  rw [books.nactive]
  exact Nat.mod_lt _ (Nat.two_pow_pos 64)

/-- The map elements of one of the runs of a chunk. -/
theorem Books.described {g : Geometry} {owned : Finset Nat} {layouts : Nat → List Run}
    {others c : Nat} {arena : Arena} {before after : List Run} {run : Run}
    (books : Books g owned layouts others arena) (owns : c ∈ owned)
    (layout : layouts c = before ++ run :: after) :
    Describes g (arena.chunks c) (g.mapBias + pagesOf before) run := by
  have holds := (books.chunk c owns).holds
  rw [layout] at holds
  exact holds.described

/-- What the functions on the tree of free runs leave alone. -/
structure SameMaps (arena arena' : Arena) : Prop where
  map : ∀ c, (arena'.chunks c).map = (arena.chunks c).map
  runBin : ∀ c, (arena'.chunks c).runBin = (arena.chunks c).runBin
  spare : arena'.spare = arena.spare
  nactive : arena'.nactive = arena.nactive
  npurgatory : arena'.npurgatory = arena.npurgatory

/-- A neighbour that a test may look at, or need not look at. -/
def Quiet (tested : Bool) (neighbour : Option Run) : Prop :=
  ∀ run ∈ neighbour, if tested then run.settled = true else run.isFree = false

namespace Run

theorem inUse_of_settled {run : Run} (settled : run.settled = true) :
    run.inUse = !run.isFree := by
  revert settled
  unfold settled inUse isFree
  cases run.use <;> simp

theorem use_ne_raw_of_settled {run : Run} (settled : run.settled = true) : run.use ≠ .raw := by
  intro isRaw
  simp [Run.settled, isRaw] at settled

theorem apart_of_not_free {run : Run} (notFree : run.isFree = false) (other : Run) :
    (adjoins run other = false ∧ adjoins other run = false) ∧
      mergeable run other = false ∧ mergeable other run = false := by
  simp [mergeable, adjoins, notFree]

end Run

/-! ## The neighbours of a free run -/

section Neighbours

variable {g : Geometry} {chunk : ArenaChunk} {before after : List Run} {run : Run}

theorem Describes.unallocatedSizeGet {start : Nat} (describes : Describes g chunk start run)
    (marked : run.use = .free ∨ run.use = .held) :
    chunk.unallocatedSizeGet start = some run.pages ∧
      chunk.unallocatedSizeGet (start + run.pages - 1) = some run.pages := by
  obtain ⟨-, shape⟩ := describes
  unfold ArenaChunk.unallocatedSizeGet
  rcases marked with isFree | isHeld
  · simp only [isFree] at shape
    obtain ⟨⟨size, -, large, allocated⟩, size', -, large', allocated'⟩ := shape
    simp [large, allocated, size, large', allocated', size']
  · simp only [isHeld] at shape
    obtain ⟨⟨size, -, large, allocated⟩, size', -, large', allocated'⟩ := shape
    simp [large, allocated, size, large', allocated', size']

/-- The test of the predecessor finds out whether it is free, and no assertion fails. -/
theorem availAdjacPred_eq (holds : Holds g chunk g.mapBias (before ++ run :: after))
    (apart : Tiling.lastTouches Run.mergeable before run = false) (free : run.isFree = true)
    {tested : Bool} (quiet : Quiet tested before.getLast?) :
    Arena.maybe tested (Arena.availAdjacPred g chunk (g.mapBias + pagesOf before)) =
      some (Tiling.lastTouches Run.adjoins before run) := by
  have bias := g.mapBias_pos
  have isFree : run.use = .free := by simpa [Run.isFree] using free
  have own : Describes g chunk (g.mapBias + pagesOf before) run := by
    simp only [Holds.append_iff, Holds.cons_iff] at holds
    exact holds.2.1
  have ownFirst := own.first (by simp [isFree])
  rcases List.eq_nil_or_concat before with rfl | ⟨rest, last, rfl⟩
  · have outside : g.mapBias + pagesOf [] - 1 < g.mapBias := by simp; omega
    unfold Arena.maybe Arena.availAdjacPred
    rw [if_pos outside]
    simp
  · rw [List.concat_eq_append] at *
    have quiet := quiet last (by simp)
    cases tested with
    | false =>
        have notFree : last.isFree = false := quiet
        simp [Arena.maybe, Run.adjoins, notFree]
    | true =>
        have settled : last.settled = true := quiet
        have described : Describes g chunk (g.mapBias + pagesOf rest) last := by
          simp only [Holds.append_iff, Holds.cons_iff] at holds
          exact holds.1.2.1
        have ends := described.last (Run.use_ne_raw_of_settled settled)
        have positive := described.pages_pos
        have page : g.mapBias + pagesOf (rest ++ [last]) - 1 =
            g.mapBias + pagesOf rest + last.pages - 1 := by simp; omega
        have inside : ¬g.mapBias + pagesOf rest + last.pages - 1 < g.mapBias := by omega
        simp only [Tiling.lastTouches_concat, Run.mergeable, Run.adjoins, free,
          Bool.and_true] at apart ⊢
        simp only [Arena.maybe, Arena.availAdjacPred, if_neg inside, page, ends.1, ends.2,
          Run.inUse_of_settled settled, ownFirst.2]
        cases lastFree : last.isFree with
        | false => simp
        | true =>
            simp only [lastFree, Bool.true_and, beq_eq_false_iff_ne, ne_eq] at apart
            simp [apart]

/-- The test of the successor finds out whether it is free, and no assertion fails. -/
theorem availAdjacSucc_eq (holds : Holds g chunk g.mapBias (before ++ run :: after))
    (covers : g.mapBias + pagesOf (before ++ run :: after) = g.chunkNpages)
    (apart : Tiling.headTouches Run.mergeable run after = false) (free : run.isFree = true)
    {tested : Bool} (quiet : Quiet tested after.head?) :
    Arena.maybe tested (Arena.availAdjacSucc g chunk (g.mapBias + pagesOf before) run.pages) =
      some (Tiling.headTouches Run.adjoins run after) := by
  have isFree : run.use = .free := by simpa [Run.isFree] using free
  simp only [Holds.append_iff, Holds.cons_iff] at holds
  have ownFirst := holds.2.1.first (by simp [isFree])
  simp only [pagesOf_append, pagesOf_cons] at covers
  cases after with
  | nil =>
      have ends : g.mapBias + pagesOf before + run.pages = g.chunkNpages := by
        simpa [Nat.add_assoc] using covers
      cases tested <;> simp [Arena.maybe, Arena.availAdjacSucc, ends]
  | cons next rest =>
      have quiet := quiet next rfl
      have described := holds.2.2
      rw [Holds.cons_iff] at described
      have positive := described.1.pages_pos
      rw [pagesOf_cons] at covers
      simp only [Tiling.headTouches_cons, Run.mergeable, Run.adjoins, free,
        Bool.true_and] at apart ⊢
      cases tested with
      | false =>
          have notFree : next.isFree = false := quiet
          simp [Arena.maybe, notFree]
      | true =>
          have settled : next.settled = true := quiet
          have start := described.1.first (Run.use_ne_raw_of_settled settled)
          have before_end : ¬g.mapBias + pagesOf before + run.pages = g.chunkNpages := by omega
          have inside : ¬g.chunkNpages < g.mapBias + pagesOf before + run.pages := by omega
          simp only [Arena.maybe, Arena.availAdjacSucc, if_neg before_end, if_neg inside,
            start.1, start.2, Run.inUse_of_settled settled, ownFirst.2]
          cases nextFree : next.isFree with
          | false => simp
          | true =>
              simp only [nextFree, Bool.true_and, beq_eq_false_iff_ne, ne_eq] at apart
              simp [apart]

end Neighbours

/-! ## The tree of dirty chunks -/

namespace Arena

variable {g : Geometry} {arena new : Arena} {c : Nat}

/-- Different chunks have different keys in the tree of dirty chunks. -/
theorem dirtyKey_injective : Function.Injective arena.dirtyKey := by
  intro left right same
  have addresses : (if (arena.chunks left).nrunsAdjac = 0 then -(left : ℤ) else left) =
      if (arena.chunks right).nrunsAdjac = 0 then -(right : ℤ) else right :=
    congrArg (fun key => (ofLex key).2) same
  split at addresses <;> split at addresses <;> omega

theorem dirtyKey_congr (same : new.chunks c = arena.chunks c) :
    new.dirtyKey c = arena.dirtyKey c := by
  simp [dirtyKey, same]

theorem availKey_congr {elm : MapElm}
    (same : ((new.chunks elm.chunk).map elm.pageind).high =
      ((arena.chunks elm.chunk).map elm.pageind).high) :
    new.availKey elm = arena.availKey elm := by
  simp [availKey, same]

/-- Different map elements have different keys in the tree of free runs. -/
theorem availKey_injective : Function.Injective arena.availKey := by
  rintro ⟨leftChunk, leftPage⟩ ⟨rightChunk, rightPage⟩ same
  have address := congrArg (fun key => ofLex (ofLex key).2) same
  simpa [availKey] using address

@[simp] theorem takeDirty_chunks : (arena.takeDirty c).chunks = arena.chunks := by
  unfold takeDirty dirtyRemove
  split <;> rfl

@[simp] theorem takeDirty_spare : (arena.takeDirty c).spare = arena.spare := by
  unfold takeDirty dirtyRemove
  split <;> rfl

@[simp] theorem takeDirty_runsAvail : (arena.takeDirty c).runsAvail = arena.runsAvail := by
  unfold takeDirty dirtyRemove
  split <;> rfl

@[simp] theorem takeDirty_nactive : (arena.takeDirty c).nactive = arena.nactive := by
  unfold takeDirty dirtyRemove
  split <;> rfl

@[simp] theorem takeDirty_ndirty : (arena.takeDirty c).ndirty = arena.ndirty := by
  unfold takeDirty dirtyRemove
  split <;> rfl

@[simp] theorem takeDirty_npurgatory : (arena.takeDirty c).npurgatory = arena.npurgatory := by
  unfold takeDirty dirtyRemove
  split <;> rfl

@[simp] theorem putDirty_chunks : (arena.putDirty c).chunks = arena.chunks := by
  unfold putDirty dirtyInsert
  split <;> rfl

@[simp] theorem putDirty_spare : (arena.putDirty c).spare = arena.spare := by
  unfold putDirty dirtyInsert
  split <;> rfl

@[simp] theorem putDirty_runsAvail : (arena.putDirty c).runsAvail = arena.runsAvail := by
  unfold putDirty dirtyInsert
  split <;> rfl

@[simp] theorem putDirty_nactive : (arena.putDirty c).nactive = arena.nactive := by
  unfold putDirty dirtyInsert
  split <;> rfl

@[simp] theorem putDirty_ndirty : (arena.putDirty c).ndirty = arena.ndirty := by
  unfold putDirty dirtyInsert
  split <;> rfl

@[simp] theorem putDirty_npurgatory : (arena.putDirty c).npurgatory = arena.npurgatory := by
  unfold putDirty dirtyInsert
  split <;> rfl

/-- A chunk that is taken out of the tree, counted anew and put back is where its new
counters belong. -/
theorem putDirty_takeDirty (new : Arena)
    (sorted : OrderedTree.Sorted arena.dirtyKey arena.chunksDirty)
    (linked : c ∈ arena.chunksDirty ↔ (arena.chunks c).ndirty ≠ 0)
    (tree : new.chunksDirty = (arena.takeDirty c).chunksDirty)
    (same : ∀ other ≠ c, new.chunks other = arena.chunks other) :
    OrderedTree.Sorted new.dirtyKey (new.putDirty c).chunksDirty ∧
      ∀ other, other ∈ (new.putDirty c).chunksDirty ↔
        if other = c then (new.chunks c).ndirty ≠ 0 else other ∈ arena.chunksDirty := by
  have distinct := sorted.nodup
  have taken : ∀ other, other ∈ new.chunksDirty ↔ other ≠ c ∧ other ∈ arena.chunksDirty := by
    intro other
    rw [tree, takeDirty]
    split
    · exact OrderedTree.mem_remove distinct
    · next clean =>
        constructor
        · intro member
          refine ⟨?_, member⟩
          rintro rfl
          exact clean (linked.mp member)
        · exact And.right
  have keys : ∀ other ∈ new.chunksDirty, new.dirtyKey other = arena.dirtyKey other :=
    fun other member => dirtyKey_congr (same other ((taken other).mp member).1)
  have restSorted : OrderedTree.Sorted new.dirtyKey new.chunksDirty := by
    refine OrderedTree.Sorted.congr ?_ keys
    rw [tree, takeDirty]
    split
    · exact sorted.remove c
    · exact sorted
  unfold putDirty
  split
  · next dirty =>
      constructor
      · refine restSorted.insert fun other member equal => ?_
        exact ((taken other).mp member).1 (dirtyKey_injective equal)
      · intro other
        rw [dirtyInsert, OrderedTree.mem_insert, taken]
        by_cases isC : other = c <;> simp [isC, dirty]
  · next clean =>
      refine ⟨restSorted, fun other => ?_⟩
      rw [taken]
      by_cases isC : other = c
      · simp only [isC, ne_eq, not_true_eq_false, false_and, if_true, false_iff]
        exact clean
      · simp [isC]

end Arena

/-! ## Changing the books of one chunk -/

/-- A sum over the chunks changes with the layout of one of them. -/
theorem sum_update {owned : Finset Nat} {c : Nat} (owns : c ∈ owned) (layouts : Nat → List Run)
    (new : List Run) (f : List Run → Nat) :
    ∑ x ∈ owned, f (Function.update layouts c new x) + f (layouts c) =
      ∑ x ∈ owned, f (layouts x) + f new := by
  rw [← Finset.add_sum_erase owned _ owns,
    ← Finset.add_sum_erase owned (fun x => f (layouts x)) owns, Function.update_self]
  have rest : ∑ x ∈ owned.erase c, f (Function.update layouts c new x) =
      ∑ x ∈ owned.erase c, f (layouts x) :=
    Finset.sum_congr rfl fun x member => by
      rw [Function.update_of_ne (Finset.ne_of_mem_erase member)]
  omega

end Jemalloc
end Vmem
