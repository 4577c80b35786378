import Vmem.Jemalloc.ArenaMap
import Vmem.Library.Tiling

/-!
# The runs of a chunk

Abstractly, the pages behind the header of a chunk are divided into runs.  A run is free,
or it is in use by a bin or as one large block.  Within an operation there are two more
kinds: a run that is marked free but not in the tree of free runs, as the run of the spare
chunk always is, and one whose map elements are not written yet.
-/

namespace Vmem
namespace Jemalloc

inductive RunUse
  | free
  /-- Marked as free, but not in the tree of free runs. -/
  | held
  /-- Taken, with the map elements still to be written. -/
  | raw
  | large
  | small (binind : Nat)
  deriving DecidableEq

structure Run where
  pages : Nat
  use : RunUse
  dirty : Bool
  deriving DecidableEq

namespace Run

def isFree (run : Run) : Bool := run.use = .free

/-- The pages of a run that count as active. -/
def active (run : Run) : Nat :=
  match run.use with
  | .free | .held => 0
  | .raw | .large | .small _ => run.pages

/-- The pages of a run that count as dirty. -/
def dirtyPages (run : Run) : Nat := if run.isFree ∧ run.dirty then run.pages else 0

/-- A run that stays as it is when the lock is released. -/
def settled (run : Run) : Bool :=
  match run.use with
  | .held | .raw => false
  | .free | .large | .small _ => true

/-- A run that somebody has allocated. -/
def inUse (run : Run) : Bool :=
  match run.use with
  | .large | .small _ => true
  | .free | .held | .raw => false

/-- Two free runs that touch. -/
def adjoins (left right : Run) : Bool := left.isFree && right.isFree

/-- Two free runs that have to be one. -/
def mergeable (left right : Run) : Bool := adjoins left right && left.dirty == right.dirty

end Run

/-! ## The map elements of a run -/

namespace MapBits

/-- The end of an unallocated run. -/
def IsUnallocated (bits : MapBits) (size : Nat) (dirty : Bool) : Prop :=
  bits.high = size ∧ bits.dirty = dirty ∧ bits.large = false ∧ bits.allocated = false

/-- The end of a large run. -/
def IsLarge (bits : MapBits) (size : Nat) (dirty : Bool) : Prop :=
  bits.high = size ∧ bits.dirty = dirty ∧ bits.large = true ∧ bits.allocated = true

/-- A page of a small run. -/
def IsSmall (bits : MapBits) (runind binind : Nat) : Prop :=
  bits.high = runind ∧ bits.binind = binind ∧ bits.large = false ∧ bits.allocated = true

end MapBits

variable {g : Geometry} {chunk other : ArenaChunk}

variable (g) in
/-- The map elements of a run are as its kind and size demand. -/
def Describes (chunk : ArenaChunk) (start : Nat) (run : Run) : Prop :=
  0 < run.pages ∧
  match run.use with
  | .free | .held =>
      (chunk.map start).IsUnallocated run.pages run.dirty ∧
        (chunk.map (start + run.pages - 1)).IsUnallocated run.pages run.dirty
  | .raw => True
  | .large =>
      (chunk.map start).IsLarge run.pages run.dirty ∧
        (1 < run.pages → (chunk.map (start + run.pages - 1)).IsLarge 0 run.dirty)
  | .small binind =>
      binind < g.nbins ∧ run.pages = g.runPages binind ∧ chunk.runBin start = binind ∧
        (∀ i < run.pages, (chunk.map (start + i)).IsSmall i binind) ∧
        (chunk.map start).dirty = run.dirty ∧
        (chunk.map (start + run.pages - 1)).dirty = run.dirty

namespace Describes

variable {start : Nat} {run : Run}

theorem pages_pos (describes : Describes g chunk start run) : 0 < run.pages := describes.1

/-- Only the map elements of its own pages matter to a run. -/
theorem congr (describes : Describes g chunk start run)
    (sameMap : ∀ i < run.pages, other.map (start + i) = chunk.map (start + i))
    (sameBin : other.runBin start = chunk.runBin start) : Describes g other start run := by
  obtain ⟨positive, shape⟩ := describes
  have first := sameMap 0 positive
  have last := sameMap (run.pages - 1) (by omega)
  rw [Nat.add_zero] at first
  rw [← Nat.add_sub_assoc (by omega)] at last
  refine ⟨positive, ?_⟩
  revert shape
  cases run.use with
  | free => simp only [first, last]; exact id
  | held => simp only [first, last]; exact id
  | raw => exact id
  | large => simp only [first, last]; exact id
  | small binind =>
      simp only [first, last, sameBin]
      rintro ⟨known, size, bin, pages, ends⟩
      exact ⟨known, size, bin, fun i below => by rw [sameMap i below]; exact pages i below, ends⟩

/-- The first map element of a run tells whether the run is taken and dirty. -/
theorem first (describes : Describes g chunk start run) (known : run.use ≠ .raw) :
    (chunk.map start).allocated = run.inUse ∧ (chunk.map start).dirty = run.dirty := by
  obtain ⟨positive, shape⟩ := describes
  unfold Run.inUse
  revert shape known
  cases run.use with
  | free => rintro - ⟨⟨-, dirty, -, allocated⟩, -⟩; exact ⟨allocated, dirty⟩
  | held => rintro - ⟨⟨-, dirty, -, allocated⟩, -⟩; exact ⟨allocated, dirty⟩
  | raw => exact fun known => absurd rfl known
  | large => rintro - ⟨⟨-, dirty, -, allocated⟩, -⟩; exact ⟨allocated, dirty⟩
  | small binind =>
      rintro - ⟨-, -, -, pages, dirty, -⟩
      exact ⟨(pages 0 positive).2.2.2, dirty⟩

/-- The last map element of a run tells whether the run is taken and dirty. -/
theorem last (describes : Describes g chunk start run) (known : run.use ≠ .raw) :
    (chunk.map (start + run.pages - 1)).allocated = run.inUse ∧
      (chunk.map (start + run.pages - 1)).dirty = run.dirty := by
  obtain ⟨positive, shape⟩ := describes
  unfold Run.inUse
  revert shape known
  cases run.use with
  | free => rintro - ⟨-, -, dirty, -, allocated⟩; exact ⟨allocated, dirty⟩
  | held => rintro - ⟨-, -, dirty, -, allocated⟩; exact ⟨allocated, dirty⟩
  | raw => exact fun known => absurd rfl known
  | large =>
      rintro - ⟨⟨-, dirty, -, allocated⟩, end_⟩
      by_cases single : run.pages = 1
      · rw [single, Nat.add_sub_cancel]
        exact ⟨allocated, dirty⟩
      · obtain ⟨-, dirty, -, allocated⟩ := end_ (by omega)
        exact ⟨allocated, dirty⟩
  | small binind =>
      rintro - ⟨-, -, -, pages, -, dirty⟩
      have page := (pages (run.pages - 1) (by omega)).2.2.2
      rw [← Nat.add_sub_assoc (by omega)] at page
      exact ⟨page, dirty⟩

end Describes

/-! ## Layouts -/

/-- The number of pages of a list of runs. -/
def pagesOf (layout : List Run) : Nat := Tiling.extent Run.pages layout

/-- The runs with their first pages. -/
def runsAt (start : Nat) (layout : List Run) : List (Nat × Run) :=
  Tiling.placed Run.pages start layout

section

variable {start page : Nat} {run : Run} {before after : List Run}

@[simp] theorem pagesOf_nil : pagesOf [] = 0 := rfl

@[simp] theorem pagesOf_cons : pagesOf (run :: after) = run.pages + pagesOf after := by
  simp [pagesOf]

@[simp] theorem pagesOf_append : pagesOf (before ++ after) = pagesOf before + pagesOf after := by
  simp [pagesOf]

@[simp] theorem runsAt_nil : runsAt start [] = [] := rfl

@[simp] theorem runsAt_cons :
    runsAt start (run :: after) = (start, run) :: runsAt (start + run.pages) after := rfl

@[simp] theorem runsAt_append :
    runsAt start (before ++ after) =
      runsAt start before ++ runsAt (start + pagesOf before) after :=
  Tiling.placed_append Run.pages start before after

theorem runsAt_bounds {layout : List Run} (member : (page, run) ∈ runsAt start layout) :
    start ≤ page ∧ page + run.pages ≤ start + pagesOf layout :=
  Tiling.placed_bounds member

end

variable (g) in
/-- The map of a chunk has the given runs from a page on. -/
def Holds (chunk : ArenaChunk) (start : Nat) (layout : List Run) : Prop :=
  ∀ place ∈ runsAt start layout, Describes g chunk place.1 place.2

namespace Holds

variable {start : Nat} {before middle after : List Run}

@[simp] theorem nil : Holds g chunk start [] := by simp [Holds]

@[simp] theorem cons_iff {run : Run} :
    Holds g chunk start (run :: after) ↔
      Describes g chunk start run ∧ Holds g chunk (start + run.pages) after := by
  simp [Holds]

@[simp] theorem append_iff :
    Holds g chunk start (before ++ after) ↔
      Holds g chunk start before ∧ Holds g chunk (start + pagesOf before) after := by
  unfold Holds
  rw [runsAt_append, List.forall_mem_append]

/-- The map elements of one of the runs. -/
theorem described {run : Run} (holds : Holds g chunk start (before ++ run :: after)) :
    Describes g chunk (start + pagesOf before) run := by
  simp only [append_iff, cons_iff] at holds
  exact holds.2.1

theorem congr {layout : List Run} (holds : Holds g chunk start layout)
    (sameMap : ∀ page, start ≤ page → page < start + pagesOf layout →
      other.map page = chunk.map page)
    (sameBin : ∀ page, start ≤ page → page < start + pagesOf layout →
      other.runBin page = chunk.runBin page) : Holds g other start layout := by
  rintro ⟨page, run⟩ member
  have bounds := runsAt_bounds member
  have positive : 0 < run.pages := (holds _ member).pages_pos
  refine (holds _ member).congr ?_ (sameBin _ bounds.1 (by omega))
  intro i (below : i < run.pages)
  exact sameMap _ (by omega) (by omega)

/-- An edit that only touches the pages of some runs leaves the other runs alone. -/
theorem replace {new : List Run} (holds : Holds g chunk start (before ++ middle ++ after))
    (sameMap : ∀ page, (page < start + pagesOf before ∨
        start + pagesOf before + pagesOf middle ≤ page) → other.map page = chunk.map page)
    (sameBin : ∀ page, (page < start + pagesOf before ∨
        start + pagesOf before + pagesOf middle ≤ page) → other.runBin page = chunk.runBin page)
    (pages : pagesOf new = pagesOf middle)
    (written : Holds g other (start + pagesOf before) new) :
    Holds g other start (before ++ new ++ after) := by
  simp only [append_iff, pagesOf_append] at holds ⊢
  obtain ⟨⟨holdsBefore, -⟩, holdsAfter⟩ := holds
  refine ⟨⟨holdsBefore.congr (fun page _ below => sameMap page (Or.inl below))
    (fun page _ below => sameBin page (Or.inl below)), written⟩, ?_⟩
  rw [pages]
  exact holdsAfter.congr (fun page reached _ => sameMap page (Or.inr (by omega)))
    (fun page reached _ => sameBin page (Or.inr (by omega)))

end Holds

/-! ## Counting -/

/-- The number of free runs. -/
def nfree (layout : List Run) : Nat := layout.countP Run.isFree

/-- The number of neighbouring free runs. -/
def nadjac (layout : List Run) : Nat := Tiling.touching Run.adjoins layout

/-- The pages of the free dirty runs. -/
def dirtyOf (layout : List Run) : Nat := Tiling.extent Run.dirtyPages layout

/-- The pages in use. -/
def activeOf (layout : List Run) : Nat := Tiling.extent Run.active layout

/-- The first pages of the free runs. -/
def freeAt (start : Nat) (layout : List Run) : List Nat :=
  ((runsAt start layout).filter fun place => place.2.isFree).map Prod.fst

/-- No two neighbouring free runs are both clean or both dirty. -/
def RunsCoalesced (layout : List Run) : Prop := Tiling.touching Run.mergeable layout = 0

/-- The counters in the header of a chunk. -/
structure Counts (chunk : ArenaChunk) (layout : List Run) : Prop where
  nrunsAvail : chunk.nrunsAvail = nfree layout
  nrunsAdjac : chunk.nrunsAdjac = nadjac layout
  ndirty : chunk.ndirty = dirtyOf layout

variable {start page : Nat} {before after layout : List Run} {run : Run}

@[simp] theorem nfree_append : nfree (before ++ after) = nfree before + nfree after := by
  simp [nfree]

@[simp] theorem nfree_cons : nfree (run :: after) = nfree after + run.isFree.toNat := by
  cases free : run.isFree <;> simp [nfree, free]

@[simp] theorem dirtyOf_append : dirtyOf (before ++ after) = dirtyOf before + dirtyOf after := by
  simp [dirtyOf]

@[simp] theorem dirtyOf_cons : dirtyOf (run :: after) = run.dirtyPages + dirtyOf after := by
  simp [dirtyOf]

@[simp] theorem activeOf_append :
    activeOf (before ++ after) = activeOf before + activeOf after := by
  simp [activeOf]

@[simp] theorem activeOf_cons : activeOf (run :: after) = run.active + activeOf after := by
  simp [activeOf]

@[simp] theorem nfree_nil : nfree [] = 0 := rfl
@[simp] theorem dirtyOf_nil : dirtyOf [] = 0 := rfl
@[simp] theorem activeOf_nil : activeOf [] = 0 := rfl
@[simp] theorem freeAt_nil : freeAt start [] = [] := rfl

@[simp] theorem freeAt_append :
    freeAt start (before ++ after) =
      freeAt start before ++ freeAt (start + pagesOf before) after := by
  simp [freeAt]

@[simp] theorem freeAt_cons :
    freeAt start (run :: after) =
      (if run.isFree then [start] else []) ++ freeAt (start + run.pages) after := by
  cases free : run.isFree <;> simp [freeAt, free]

/-- A free page starts a free run of the layout. -/
theorem exists_free_run (member : page ∈ freeAt start layout) :
    ∃ before after pages dirty, layout = before ++ ⟨pages, .free, dirty⟩ :: after ∧
      page = start + pagesOf before := by
  unfold freeAt at member
  obtain ⟨⟨position, run⟩, found, rfl⟩ := List.mem_map.mp member
  obtain ⟨found, free⟩ := List.mem_filter.mp found
  obtain ⟨before, after, rfl, at_⟩ := Tiling.exists_split found
  have isFree : run.use = .free := by simpa [Run.isFree] using free
  exact ⟨before, after, run.pages, run.dirty, by rw [← isFree], at_⟩

theorem freeAt_bounds (holds : Holds g chunk start layout) (member : page ∈ freeAt start layout) :
    start ≤ page ∧ page < start + pagesOf layout := by
  unfold freeAt at member
  obtain ⟨⟨position, run⟩, found, rfl⟩ := List.mem_map.mp member
  have place := List.mem_of_mem_filter found
  have bounds := runsAt_bounds place
  have positive := (holds _ place).pages_pos
  simp only at positive ⊢
  omega

/-- Each free run but the first one has at most one free run directly before it. -/
theorem nadjac_lt (layout : List Run) :
    nadjac layout < nfree layout ∨ nadjac layout = 0 ∧ nfree layout = 0 := by
  induction layout with
  | nil => exact Or.inr ⟨rfl, rfl⟩
  | cons run rest inductionHypothesis =>
      unfold nadjac at inductionHypothesis ⊢
      rw [Tiling.touching_cons, nfree_cons]
      cases rest with
      | nil => cases run.isFree <;> simp
      | cons next others =>
          simp only [Tiling.headTouches_cons, Run.adjoins, nfree_cons] at inductionHypothesis ⊢
          cases free : run.isFree <;> cases nextFree : next.isFree <;>
            simp only [nextFree, Bool.and_false, Bool.and_true, Bool.toNat_false,
              Bool.toNat_true] at inductionHypothesis ⊢ <;> omega

end Jemalloc
end Vmem
