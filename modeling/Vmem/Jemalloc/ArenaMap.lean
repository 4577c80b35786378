import Vmem.Library.Word
import Vmem.Library.OrderedTree
import Mathlib.Data.Rat.Defs
import Mathlib.Algebra.Order.Ring.Rat

/-!
# The page map of an arena

Each chunk of an arena starts with a header, which holds one element for every page
behind it.  The elements of the first and the last page of a run tell its kind and its
size, and whether its pages are dirty.  The free runs of all chunks form one search tree
by size and address, and the chunks with dirty pages another one.

Sizes of runs are numbers of pages.  A function has no result where an assertion of the
C code fails.
-/

namespace Vmem
namespace Jemalloc

/-- `BININD_INVALID`. -/
def binindInvalid : Nat := 0xff

/-- What the arenas of one allocator have in common. -/
structure Geometry where
  /-- `map_bias`. -/
  mapBias : Nat
  /-- `chunk_npages`. -/
  chunkNpages : Nat
  /-- `arena_bin_info[binind].run_size >> LG_PAGE`. -/
  runPages : Nat → Nat
  /-- `opt_lg_dirty_mult`. -/
  lgDirtyMult : Int
  /-- `NBINS`. -/
  nbins : Nat
  nbins_le : nbins ≤ binindInvalid
  mapBias_pos : 0 < mapBias
  mapBias_lt : mapBias < chunkNpages
  runPages_pos : ∀ binind < nbins, 0 < runPages binind
  runPages_le : ∀ binind < nbins, runPages binind ≤ chunkNpages - mapBias

namespace Geometry

/-- `arena_maxclass >> LG_PAGE`. -/
def maxPages (g : Geometry) : Nat := g.chunkNpages - g.mapBias

end Geometry

/-- The fields of `arena_chunk_map_t.bits`. -/
structure MapBits where
  /-- The bits above the page offset: a size in pages, or the index of a page in its run. -/
  high : Nat
  binind : Nat
  dirty : Bool
  unzeroed : Bool
  large : Bool
  allocated : Bool
  deriving DecidableEq

/-- `arena_chunk_t`. -/
structure ArenaChunk where
  /-- `map`, by the index of the page in the chunk. -/
  map : Nat → MapBits
  /-- The index of the bin in the header of a small run, `run->bin`, by its first page. -/
  runBin : Nat → Nat
  ndirty : Nat
  nrunsAvail : Nat
  nrunsAdjac : Nat

/-- The address of a map element: the chunk, by the number of its first page, and the page
in it. -/
structure MapElm where
  chunk : Nat
  pageind : Nat
  deriving DecidableEq

/-- The part of `arena_t` that the runs use; the chunks are found by their addresses. -/
structure Arena where
  chunks : Nat → ArenaChunk
  spare : Option Nat
  runsAvail : List MapElm
  chunksDirty : List Nat
  nactive : Nat
  ndirty : Nat
  npurgatory : Nat

/-- `assert`. -/
def check (condition : Prop) [Decidable condition] : Option Unit :=
  if condition then some () else none

@[simp] theorem check_eq_some {condition : Prop} [Decidable condition] (holds : condition) :
    check condition = some () := if_pos holds

/-! ## Map elements -/

namespace ArenaChunk

variable (chunk : ArenaChunk)

/-- `arena_mapbits_unallocated_size_get`. -/
def unallocatedSizeGet (pageind : Nat) : Option Nat :=
  let bits := chunk.map pageind
  if bits.large = false ∧ bits.allocated = false then some bits.high else none

/-- `arena_mapbits_large_size_get`. -/
def largeSizeGet (pageind : Nat) : Option Nat :=
  let bits := chunk.map pageind
  if bits.large = true ∧ bits.allocated = true then some bits.high else none

/-- `arena_mapbits_small_runind_get`. -/
def smallRunindGet (pageind : Nat) : Option Nat :=
  let bits := chunk.map pageind
  if bits.large = false ∧ bits.allocated = true then some bits.high else none

/-- Write a map element. -/
def write (pageind : Nat) (bits : MapBits) : ArenaChunk :=
  { chunk with map := Function.update chunk.map pageind bits }

/-- `arena_mapbits_unallocated_set`. -/
def unallocatedSet (pageind size : Nat) (dirty unzeroed : Bool) : ArenaChunk :=
  chunk.write pageind ⟨size, binindInvalid, dirty, unzeroed, false, false⟩

/-- `arena_mapbits_unallocated_size_set`. -/
def unallocatedSizeSet (pageind size : Nat) : Option ArenaChunk :=
  let bits := chunk.map pageind
  if bits.large = false ∧ bits.allocated = false then
    some (chunk.write pageind { bits with high := size })
  else none

/-- `arena_mapbits_large_set`: the unzeroed flag is preserved. -/
def largeSet (pageind size : Nat) (dirty : Bool) : ArenaChunk :=
  chunk.write pageind
    ⟨size, binindInvalid, dirty, (chunk.map pageind).unzeroed, true, true⟩

/-- `arena_mapbits_small_set`: the unzeroed flag is preserved. -/
def smallSet (g : Geometry) (pageind runind binind : Nat) (dirty : Bool) :
    Option ArenaChunk :=
  if binind < binindInvalid ∧ g.mapBias ≤ pageind - runind then
    some (chunk.write pageind
      ⟨runind, binind, dirty, (chunk.map pageind).unzeroed, false, true⟩)
  else none

/-- `arena_mapbits_unzeroed_set`. -/
def unzeroedSet (pageind : Nat) (unzeroed : Bool) : ArenaChunk :=
  chunk.write pageind { chunk.map pageind with unzeroed }

end ArenaChunk

/-! ## Free runs -/

namespace Arena

variable (g : Geometry) (arena : Arena)

/-- Change one chunk. -/
def setChunk (chunk : Nat) (value : ArenaChunk) : Arena :=
  { arena with chunks := Function.update arena.chunks chunk value }

/-- The order that `arena_avail_comp` compares map elements by: size, then address. -/
def availKey (elm : MapElm) : Nat ×ₗ Nat ×ₗ Nat :=
  toLex (((arena.chunks elm.chunk).map elm.pageind).high, toLex (elm.chunk, elm.pageind))

/-- The order that `arena_chunk_dirty_comp` compares chunks by: the share of free runs
that touch no other one before them, the largest first, and then the address, upwards
for chunks with adjacent runs and downwards for those without. -/
def dirtyKey (chunk : Nat) : ℚ ×ₗ ℤ :=
  let header := arena.chunks chunk
  toLex (-(((header.nrunsAvail : ℚ) - header.nrunsAdjac) / header.nrunsAvail),
    if header.nrunsAdjac = 0 then -(chunk : ℤ) else chunk)

/-- `arena_chunk_dirty_insert`. -/
def dirtyInsert (chunk : Nat) : Arena :=
  { arena with chunksDirty := OrderedTree.insert arena.dirtyKey chunk arena.chunksDirty }

/-- `arena_chunk_dirty_remove`. -/
def dirtyRemove (chunk : Nat) : Arena :=
  { arena with chunksDirty := OrderedTree.remove chunk arena.chunksDirty }

/-- `arena_avail_adjac_pred`. -/
def availAdjacPred (chunk : ArenaChunk) (pageind : Nat) : Option Bool :=
  if pageind - 1 < g.mapBias then some false
  else
    let before := chunk.map (pageind - 1)
    if before.allocated = true then some false
    else if before.dirty ≠ (chunk.map pageind).dirty then some true else none

/-- `arena_avail_adjac_succ`. -/
def availAdjacSucc (chunk : ArenaChunk) (pageind npages : Nat) : Option Bool :=
  if pageind + npages = g.chunkNpages then some false
  else if g.chunkNpages < pageind + npages then none
  else
    let behind := chunk.map (pageind + npages)
    if behind.allocated = true then some false
    else if (chunk.map pageind).dirty ≠ behind.dirty then some true else none

/-- `arena_avail_adjac`. -/
def availAdjac (chunk : ArenaChunk) (pageind npages : Nat) : Option Bool :=
  match availAdjacPred g chunk pageind with
  | some false => availAdjacSucc g chunk pageind npages
  | result => result

/-- A test that the caller may rule out. -/
def maybe (flag : Bool) (test : Option Bool) : Option Bool := if flag then test else some false

/-- Take the chunk out of the tree of dirty chunks while its counters change. -/
def takeDirty (chunk : Nat) : Arena :=
  if (arena.chunks chunk).ndirty ≠ 0 then arena.dirtyRemove chunk else arena

/-- Put the chunk back if it has dirty pages. -/
def putDirty (chunk : Nat) : Arena :=
  if (arena.chunks chunk).ndirty ≠ 0 then arena.dirtyInsert chunk else arena

/-- The counters of a chunk and of the arena when a free run is added. -/
def countInsert (chunk pageind npages : Nat) (pred succ : Bool) : Arena :=
  let header := arena.chunks chunk
  let dirtied := if (header.map pageind).dirty then npages else 0
  { arena.setChunk chunk { header with
      nrunsAdjac := header.nrunsAdjac + pred.toNat + succ.toNat
      nrunsAvail := header.nrunsAvail + 1
      ndirty := header.ndirty + dirtied } with
    ndirty := arena.ndirty + dirtied }

/-- The counters of a chunk and of the arena when a free run is taken away. -/
def countRemove (chunk pageind npages : Nat) (pred succ : Bool) : Arena :=
  let header := arena.chunks chunk
  let dirtied := if (header.map pageind).dirty then npages else 0
  { arena.setChunk chunk { header with
      nrunsAdjac := header.nrunsAdjac - pred.toNat - succ.toNat
      nrunsAvail := header.nrunsAvail - 1
      ndirty := header.ndirty - dirtied } with
    ndirty := arena.ndirty - dirtied }

/-- `arena_avail_insert`. -/
def availInsert (chunk pageind npages : Nat) (maybePred maybeSucc : Bool) : Option Arena := do
  check ((arena.chunks chunk).unallocatedSizeGet pageind = some npages)
  let pred ← maybe maybePred (availAdjacPred g (arena.chunks chunk) pageind)
  let succ ← maybe maybeSucc (availAdjacSucc g (arena.chunks chunk) pageind npages)
  let arena := (arena.takeDirty chunk).countInsert chunk pageind npages pred succ
  check ((arena.chunks chunk).nrunsAdjac < (arena.chunks chunk).nrunsAvail)
  let arena := arena.putDirty chunk
  some { arena with
    runsAvail := OrderedTree.insert arena.availKey ⟨chunk, pageind⟩ arena.runsAvail }

/-- `arena_avail_remove`. -/
def availRemove (chunk pageind npages : Nat) (maybePred maybeSucc : Bool) : Option Arena := do
  check ((arena.chunks chunk).unallocatedSizeGet pageind = some npages)
  let pred ← maybe maybePred (availAdjacPred g (arena.chunks chunk) pageind)
  let succ ← maybe maybeSucc (availAdjacSucc g (arena.chunks chunk) pageind npages)
  let arena := (arena.takeDirty chunk).countRemove chunk pageind npages pred succ
  check ((arena.chunks chunk).nrunsAdjac < (arena.chunks chunk).nrunsAvail ∨
    (arena.chunks chunk).nrunsAvail = 0 ∧ (arena.chunks chunk).nrunsAdjac = 0)
  let arena := arena.putDirty chunk
  some { arena with runsAvail := OrderedTree.remove ⟨chunk, pageind⟩ arena.runsAvail }

/-! ## Splitting -/

/-- The map of the rest of a split run: a dirty rest is dirty, the pages of a clean one
keep their unzeroed flags. -/
def splitRest (chunk : ArenaChunk) (runInd needPages totalPages : Nat) (dirty : Bool) :
    ArenaChunk :=
  let remPages := totalPages - needPages
  let first := runInd + needPages
  let last := runInd + totalPages - 1
  if dirty then
    (chunk.unallocatedSet first remPages true false).unallocatedSet last remPages true false
  else
    let chunk := chunk.unallocatedSet first remPages false (chunk.map first).unzeroed
    chunk.unallocatedSet last remPages false (chunk.map last).unzeroed

/-- `arena_run_split_remove`. -/
def runSplitRemove (chunk runInd : Nat) (dirty : Bool) (needPages : Nat) : Option Arena := do
  let totalPages ← (arena.chunks chunk).unallocatedSizeGet runInd
  check (((arena.chunks chunk).map (runInd + totalPages - 1)).dirty = dirty)
  check (needPages ≤ totalPages)
  let arena ← arena.availRemove g chunk runInd totalPages true true
  let arena := { arena with nactive := Word.add arena.nactive needPages }
  if needPages < totalPages then
    (arena.setChunk chunk
      (splitRest (arena.chunks chunk) runInd needPages totalPages dirty)).availInsert g chunk
        (runInd + needPages) (totalPages - needPages) false true
  else some arena

/-- The last map elements of `arena_run_split_large_helper`: the last page first, in case
the run only contains one page. -/
def runInitLarge (chunk runInd needPages : Nat) : Arena :=
  let header := arena.chunks chunk
  let dirty := (header.map runInd).dirty
  arena.setChunk chunk
    ((header.largeSet (runInd + needPages - 1) 0 dirty).largeSet runInd needPages dirty)

/-- `arena_run_split_large`. -/
def runSplitLarge (chunk runInd needPages : Nat) : Option Arena := do
  let dirty := ((arena.chunks chunk).map runInd).dirty
  check (0 < needPages)
  let arena ← arena.runSplitRemove g chunk runInd dirty needPages
  let header := arena.chunks chunk
  some (arena.setChunk chunk
    ((header.largeSet (runInd + needPages - 1) 0 dirty).largeSet runInd needPages dirty))

/-- The pages between the first and the last one of a small run. -/
def smallSetPages (runInd binind : Nat) : ArenaChunk → List Nat → Option ArenaChunk
  | chunk, [] => some chunk
  | chunk, i :: rest => do
      let chunk ← chunk.smallSet g (runInd + i) i binind false
      smallSetPages runInd binind chunk rest

/-- The map elements of a small run. -/
def smallSetRun (chunk : ArenaChunk) (runInd needPages binind : Nat) (dirty : Bool) :
    Option ArenaChunk := do
  let chunk ← chunk.smallSet g runInd 0 binind dirty
  let chunk ← smallSetPages g runInd binind chunk (List.range' 1 (needPages - 2))
  chunk.smallSet g (runInd + needPages - 1) (needPages - 1) binind dirty

/-- `arena_run_split_small`. -/
def runSplitSmall (chunk runInd needPages binind : Nat) : Option Arena := do
  let dirty := ((arena.chunks chunk).map runInd).dirty
  check (binind ≠ binindInvalid)
  check (0 < needPages)
  let arena ← arena.runSplitRemove g chunk runInd dirty needPages
  let header ← smallSetRun g (arena.chunks chunk) runInd needPages binind dirty
  some (arena.setChunk chunk header)

/-! ## Chunks -/

/-- The pages behind the first and before the last one. -/
def innerPages : List Nat := List.range' (g.mapBias + 1) (g.maxPages - 2)

/-- The map elements between the first and the last page of a chunk from `chunk_alloc`:
the flags of a zeroed chunk are clear already. -/
def initInner (chunk : ArenaChunk) (zero : Bool) : Option ArenaChunk :=
  if zero then
    if ∀ i ∈ innerPages g, (chunk.map i).unzeroed = false then some chunk else none
  else some ((innerPages g).foldl (fun chunk i => chunk.unzeroedSet i true) chunk)

/-- The header and the map of a chunk from `chunk_alloc`: one maximal free run. -/
def initHeader (fresh : ArenaChunk) (zero : Bool) : Option ArenaChunk := do
  let chunk := { fresh with ndirty := 0, nrunsAvail := 0, nrunsAdjac := 0 }
  let chunk ← initInner g (chunk.unallocatedSet g.mapBias g.maxPages false !zero) zero
  some (chunk.unallocatedSet (g.chunkNpages - 1) g.maxPages false !zero)

/-- What the spare chunk has to look like, and what a chunk that is given back. -/
def wholeFree (chunk : ArenaChunk) : Prop :=
  chunk.unallocatedSizeGet g.mapBias = some g.maxPages ∧
    chunk.unallocatedSizeGet (g.chunkNpages - 1) = some g.maxPages ∧
    (chunk.map g.mapBias).dirty = (chunk.map (g.chunkNpages - 1)).dirty

instance (chunk : ArenaChunk) : Decidable (wholeFree g chunk) := instDecidableAnd

/-- `arena_chunk_alloc` with the spare chunk, `arena_chunk_init_spare`. -/
def chunkAllocSpare : Option (Arena × Nat) :=
  match arena.spare with
  | none => none
  | some chunk => do
      check (wholeFree g (arena.chunks chunk))
      let arena ← { arena with spare := none }.availInsert g chunk g.mapBias g.maxPages false false
      some (arena, chunk)

/-- `arena_chunk_alloc` with a chunk from `chunk_alloc`, `arena_chunk_init_hard`. -/
def chunkAllocHard (chunk : Nat) (fresh : ArenaChunk) (zero : Bool) : Option Arena := do
  let header ← initHeader g fresh zero
  (arena.setChunk chunk header).availInsert g chunk g.mapBias g.maxPages false false

/-- `arena_chunk_dalloc`: the chunk becomes the spare one; a former spare chunk is given
back, which is the second component. -/
def chunkDalloc (chunk : Nat) : Option (Arena × Option Nat) := do
  check (wholeFree g (arena.chunks chunk))
  let arena ← arena.availRemove g chunk g.mapBias g.maxPages false false
  some ({ arena with spare := some chunk }, arena.spare)

/-! ## Allocation -/

/-- The size of a free run in the tree. -/
def sizeAt (elm : MapElm) : Nat := ((arena.chunks elm.chunk).map elm.pageind).high

/-- The runs that `arena_avail_tree_nsearch` may find: the comparison with a key only looks
at the size, so which of several runs of the size wanted the search meets first depends on
the shape of the tree; without such a run it ends at the first larger one. -/
def nsearch (need : Nat) : List MapElm :=
  let exact := arena.runsAvail.filter fun elm => arena.sizeAt elm = need
  if exact.isEmpty then (arena.runsAvail.find? fun elm => need < arena.sizeAt elm).toList
  else exact

/-- The run that the search finds in a tree of some shape. -/
def found (need shape : Nat) : Option MapElm :=
  let candidates := arena.nsearch need
  candidates[shape % candidates.length]?

/-- The result of an allocation: a run, none, or a new chunk is asked for with the lock
released. -/
inductive Outcome
  | run (elm : MapElm)
  | none
  | needsChunk
  deriving DecidableEq

/-- `arena_run_alloc_large_helper` and `arena_run_alloc_small_helper`: the two differ in how
they split the run found. -/
def runAllocHelper (split : Arena → MapElm → Option Arena) (need shape : Nat) :
    Option (Arena × Outcome) :=
  match arena.found need shape with
  | some elm => do
      let arena ← split arena elm
      some (arena, .run elm)
  | none => some (arena, .none)

/-- `arena_run_alloc_large` and `arena_run_alloc_small` up to where `arena_chunk_alloc`
releases the lock. -/
def runAlloc (split : Arena → MapElm → Option Arena) (need shape : Nat) :
    Option (Arena × Outcome) := do
  check (need ≤ g.maxPages)
  match arena.found need shape with
  | some elm => do
      let arena ← split arena elm
      some (arena, .run elm)
  | none =>
      match arena.spare with
      | none => some (arena, .needsChunk)
      | some _ => do
          let (arena, chunk) ← arena.chunkAllocSpare g
          let arena ← split arena ⟨chunk, g.mapBias⟩
          some (arena, .run ⟨chunk, g.mapBias⟩)

/-- A chunk from `chunk_alloc`. -/
structure FreshChunk where
  chunk : Nat
  /-- What the memory of the chunk says where the header will be. -/
  header : ArenaChunk
  zero : Bool

/-- The rest of `arena_run_alloc_large` and `arena_run_alloc_small` once `chunk_alloc` has
returned and the lock is held again. -/
def runAllocResumed (split : Arena → MapElm → Option Arena) (need shape : Nat) :
    Option FreshChunk → Option (Arena × Outcome)
  | some fresh => do
      let arena ← arena.chunkAllocHard g fresh.chunk fresh.header fresh.zero
      let arena ← split arena ⟨fresh.chunk, g.mapBias⟩
      some (arena, .run ⟨fresh.chunk, g.mapBias⟩)
  | none => arena.runAllocHelper split need shape

/-- How `arena_run_alloc_large` splits a run. -/
def splitLarge (need : Nat) (arena : Arena) (elm : MapElm) : Option Arena :=
  arena.runSplitLarge g elm.chunk elm.pageind need

/-- How `arena_run_alloc_small` splits a run. -/
def splitSmall (binind : Nat) (arena : Arena) (elm : MapElm) : Option Arena :=
  arena.runSplitSmall g elm.chunk elm.pageind (g.runPages binind) binind

/-- `run->bin = bin`. -/
def setBin (binind : Nat) (elm : MapElm) : Arena :=
  let header := arena.chunks elm.chunk
  arena.setChunk elm.chunk
    { header with runBin := Function.update header.runBin elm.pageind binind }

/-- How `arena_bin_nonfull_run_get` gets a run for a bin: the header of the run names the
bin before the lock is released. -/
def splitForBin (binind : Nat) (arena : Arena) (elm : MapElm) : Option Arena := do
  let arena ← splitSmall g binind arena elm
  some (arena.setBin binind elm)

/-! ## Deallocation -/

/-- The run that is coalesced: its first page and its number of pages. -/
structure Extent where
  runInd : Nat
  runPages : Nat

/-- Coalesce forward. -/
def coalesceForward (chunk : Nat) (run : Extent) (dirty : Bool) : Option (Arena × Extent) :=
  let header := arena.chunks chunk
  let next := run.runInd + run.runPages
  if next < g.chunkNpages ∧ (header.map next).allocated = false ∧
      (header.map next).dirty = dirty then do
    let nrunPages ← header.unallocatedSizeGet next
    check (header.unallocatedSizeGet (next + nrunPages - 1) = some nrunPages)
    check ((header.map (next + nrunPages - 1)).dirty = dirty)
    let arena ← arena.availRemove g chunk next nrunPages false true
    let runPages := run.runPages + nrunPages
    let header ← (arena.chunks chunk).unallocatedSizeSet run.runInd runPages
    let header ← header.unallocatedSizeSet (run.runInd + runPages - 1) runPages
    some (arena.setChunk chunk header, ⟨run.runInd, runPages⟩)
  else some (arena, run)

/-- Coalesce backward. -/
def coalesceBackward (chunk : Nat) (run : Extent) (dirty : Bool) : Option (Arena × Extent) :=
  let header := arena.chunks chunk
  if g.mapBias < run.runInd ∧ (header.map (run.runInd - 1)).allocated = false ∧
      (header.map (run.runInd - 1)).dirty = dirty then do
    let prunPages ← header.unallocatedSizeGet (run.runInd - 1)
    let runInd := run.runInd - prunPages
    check (header.unallocatedSizeGet runInd = some prunPages)
    check ((header.map runInd).dirty = dirty)
    let arena ← arena.availRemove g chunk runInd prunPages true false
    let runPages := run.runPages + prunPages
    let header ← (arena.chunks chunk).unallocatedSizeSet runInd runPages
    let header ← header.unallocatedSizeSet (runInd + runPages - 1) runPages
    some (arena.setChunk chunk header, ⟨runInd, runPages⟩)
  else some (arena, run)

/-- `arena_run_coalesce`. -/
def runCoalesce (chunk : Nat) (run : Extent) (dirty : Bool) : Option (Arena × Extent) := do
  let (arena, run) ← arena.coalesceForward g chunk run dirty
  arena.coalesceBackward g chunk run dirty

/-- The number of pages of an allocated run. -/
def runSize (chunk : ArenaChunk) (runInd : Nat) : Option Nat :=
  if (chunk.map runInd).large then do
    let size ← chunk.largeSizeGet runInd
    check (size = 1 ∨ chunk.largeSizeGet (runInd + size - 1) = some 0)
    some size
  else some (g.runPages (chunk.runBin runInd))

/-- The map elements of a run that becomes free; a clean run keeps its unzeroed flags. -/
def unallocatedRun (chunk : ArenaChunk) (runInd runPages : Nat) (dirty : Bool) : ArenaChunk :=
  let last := runInd + runPages - 1
  if dirty then
    (chunk.unallocatedSet runInd runPages true false).unallocatedSet last runPages true false
  else
    let chunk := chunk.unallocatedSet runInd runPages false (chunk.map runInd).unzeroed
    chunk.unallocatedSet last runPages false (chunk.map last).unzeroed

/-- `arena_run_dalloc` up to the purging, which is a section of its own: the chunk that is given
back, if there is one, and whether the run is dirty. -/
def runDalloc (chunk runInd : Nat) (dirty cleaned : Bool) :
    Option (Arena × Option Nat × Bool) := do
  check (g.mapBias ≤ runInd ∧ runInd < g.chunkNpages)
  let runPages ← runSize g (arena.chunks chunk) runInd
  let header := arena.chunks chunk
  check ((header.map runInd).dirty = (header.map (runInd + runPages - 1)).dirty)
  let dirty := dirty || (!cleaned && (header.map runInd).dirty)
  let arena := { arena with nactive := Word.sub arena.nactive runPages }.setChunk chunk
    (unallocatedRun header runInd runPages dirty)
  let (arena, run) ← arena.runCoalesce g chunk ⟨runInd, runPages⟩ dirty
  let header := arena.chunks chunk
  check (header.unallocatedSizeGet run.runInd =
    header.unallocatedSizeGet (run.runInd + run.runPages - 1))
  check ((header.map run.runInd).dirty = (header.map (run.runInd + run.runPages - 1)).dirty)
  let arena ← arena.availInsert g chunk run.runInd run.runPages true true
  if run.runPages = g.maxPages then do
    check (run.runInd = g.mapBias)
    let (arena, given) ← arena.chunkDalloc g chunk
    some (arena, given, dirty)
  else some (arena, none, dirty)

/-! ## Trimming -/

/-- `arena_run_trim_head`. -/
def runTrimHead (chunk pageind oldPages newPages : Nat) :
    Option (Arena × Option Nat × Bool) := do
  let headPages := oldPages - newPages
  let header := arena.chunks chunk
  let dirty := (header.map pageind).dirty
  check (newPages < oldPages)
  check (header.largeSizeGet pageind = some oldPages)
  let header := header.largeSet (pageind + headPages - 1) 0 dirty
  let header := header.largeSet pageind headPages dirty
  check (header.largeSizeGet (pageind + headPages + newPages - 1) = some 0)
  check ((header.map (pageind + headPages + newPages - 1)).dirty = dirty)
  let header := header.largeSet (pageind + headPages) newPages dirty
  (arena.setChunk chunk header).runDalloc g chunk pageind false false

/-- `arena_run_trim_tail`. -/
def runTrimTail (chunk pageind oldPages newPages : Nat) (dirtied : Bool) :
    Option (Arena × Option Nat × Bool) := do
  let header := arena.chunks chunk
  let dirty := (header.map pageind).dirty
  check (newPages < oldPages)
  check (header.largeSizeGet pageind = some oldPages)
  let header := header.largeSet (pageind + newPages - 1) 0 dirty
  let header := header.largeSet pageind newPages dirty
  check (header.largeSizeGet (pageind + newPages + (oldPages - newPages) - 1) = some 0)
  check ((header.map (pageind + newPages + (oldPages - newPages) - 1)).dirty = dirty)
  let header := header.largeSet (pageind + newPages) (oldPages - newPages) dirty
  (arena.setChunk chunk header).runDalloc g chunk (pageind + newPages) dirtied false

/-- The part of `arena_dalloc_bin_run` that trims pages that were never touched off a clean
run, which is converted to a large run beforehand. -/
def trimUntouched (chunk runInd npages past : Nat) : Option (Arena × Option Nat) :=
  let header := arena.chunks chunk
  if (header.map runInd).dirty = false ∧ past - runInd < npages then do
    let header := header.largeSet runInd npages false
    let header := header.largeSet (runInd + npages - 1) 0 false
    let (arena, given, _) ← (arena.setChunk chunk header).runTrimTail g chunk runInd npages
      (past - runInd) false
    some (arena, given)
  else some (arena, none)

/-- `arena_dalloc_bin_run` from where it holds the lock of the arena up to the purging:
`past` is the page behind the last region that was ever used.  The chunks given back come
second. -/
def dallocBinRun (chunk runInd past : Nat) : Option (Arena × List Nat × Bool) := do
  let header := arena.chunks chunk
  let npages := g.runPages (header.runBin runInd)
  check ((header.map runInd).dirty = (header.map (runInd + npages - 1)).dirty)
  let (arena, trimmed) ← arena.trimUntouched g chunk runInd npages past
  let (arena, given, dirty) ← arena.runDalloc g chunk runInd true false
  some (arena, trimmed.toList ++ given.toList, dirty)

/-! ## Resizing -/

/-- `arena_ralloc_large_shrink`. -/
def rallocLargeShrink (chunk pageind oldPages pages : Nat) :
    Option (Arena × Option Nat × Bool) := do
  check (pages < oldPages)
  arena.runTrimTail g chunk pageind oldPages pages true

/-- `arena_ralloc_large_grow`; the flag says that the run could not be extended.  Where
`size - oldsize` wraps round, no run is as large as that. -/
def rallocLargeGrow (chunk pageind oldPages pages extra : Nat) : Option (Arena × Bool) := do
  let header := arena.chunks chunk
  let next := pageind + oldPages
  check (header.largeSizeGet pageind = some oldPages)
  check (oldPages < pages + extra)
  if next < g.chunkNpages ∧ (header.map next).allocated = false then do
    let follow ← header.unallocatedSizeGet next
    if oldPages ≤ pages ∧ pages - oldPages ≤ follow then do
      let split := if oldPages + follow ≤ pages + extra then follow else pages + extra - oldPages
      let arena ← arena.runSplitLarge g chunk next split
      let header := arena.chunks chunk
      let npages := oldPages + split
      let dirty := (header.map pageind).dirty || (header.map (pageind + npages - 1)).dirty
      some (arena.setChunk chunk
        ((header.largeSet pageind npages dirty).largeSet (pageind + npages - 1) 0 dirty), false)
    else some (arena, true)
  else some (arena, true)

/-- `ALIGNMENT_CEILING`, in pages. -/
def alignmentCeiling (page alignment : Nat) : Nat := (page + alignment - 1) / alignment * alignment

/-- The pages that `arena_palloc` trims off the front of the run it has got. -/
def leadPages (elm : MapElm) (alignment : Nat) : Nat :=
  alignmentCeiling (elm.chunk + elm.pageind) alignment - (elm.chunk + elm.pageind)

end Arena

end Jemalloc
end Vmem
