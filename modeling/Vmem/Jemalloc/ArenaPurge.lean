import Vmem.Jemalloc.ArenaMap
import Vmem.Library.Word

/-!
# Purging dirty pages

When an arena has too many dirty free pages for its active ones, a thread takes one chunk
after another from the tree of dirty chunks, allocates its dirty free runs for itself,
tells the system with the lock released that their pages are not needed, and frees the
runs again as clean ones.  The counter `npurgatory` says how many dirty pages the threads
that are purging have still promised to purge.
-/

namespace Vmem
namespace Jemalloc

/-- The variables of a thread in `arena_purge` while it works on a chunk. -/
structure Purge where
  all : Bool
  npurgatory : Nat
  npurgeable : Nat
  npurged : Nat
  chunk : Nat
  /-- The runs of the chunk that are still to be purged, by their first pages. -/
  unpurged : List Nat
  /-- The runs of the chunk that are still to be freed. -/
  mapelms : List Nat

namespace Arena

variable (g : Geometry) (arena : Arena)

/-! ## Stashing the dirty runs of a chunk -/

/-- Whether `arena_chunk_stash_dirty` takes a free run. -/
def toStash (chunk : ArenaChunk) (pageind npages : Nat) (all : Bool) : Option Bool :=
  if (chunk.map pageind).dirty then
    if all then some true else availAdjac g chunk pageind npages
  else some false

/-- The number of pages of a run that `arena_chunk_stash_dirty` skips. -/
def skipPages (chunk : ArenaChunk) (pageind : Nat) : Option Nat :=
  if (chunk.map pageind).large then chunk.largeSizeGet pageind
  else do
    check (chunk.smallRunindGet pageind = some 0)
    some (g.runPages (chunk.runBin pageind))

/-- One turn of the loop of `arena_chunk_stash_dirty`: the number of pages of the run, and
whether it is taken. -/
def stashRun (chunk pageind : Nat) (all : Bool) : Option (Arena × Nat × Bool) :=
  let header := arena.chunks chunk
  if (header.map pageind).allocated then do
    let npages ← skipPages g header pageind
    some (arena, npages, false)
  else do
    let npages ← header.unallocatedSizeGet pageind
    check (pageind + npages ≤ g.chunkNpages)
    check ((header.map pageind).dirty = (header.map (pageind + npages - 1)).dirty)
    let taken ← toStash g header pageind npages all
    if taken then do
      let arena ← arena.runSplitLarge g chunk pageind npages
      some (arena, npages, true)
    else some (arena, npages, false)

/-- The loop of `arena_chunk_stash_dirty`. -/
def stashLoop (chunk : Nat) (all : Bool) : Nat → Arena → Nat → Option (Arena × List Nat)
  | 0, _, _ => none
  | fuel + 1, arena, pageind =>
      if pageind < g.chunkNpages then do
        let (arena, npages, taken) ← arena.stashRun g chunk pageind all
        let (arena, rest) ← stashLoop chunk all fuel arena (pageind + npages)
        some (arena, if taken then pageind :: rest else rest)
      else do
        check (pageind = g.chunkNpages)
        some (arena, [])

/-- `arena_chunk_stash_dirty`: no chunk has more runs than pages. -/
def chunkStashDirty (chunk : Nat) (all : Bool) : Option (Arena × List Nat) := do
  let (arena, mapelms) ← stashLoop g chunk all g.chunkNpages arena g.mapBias
  check ((arena.chunks chunk).ndirty = 0 ∨ all = false)
  check ((arena.chunks chunk).nrunsAdjac = 0)
  some (arena, mapelms)

/-- The beginning of `arena_chunk_purge`: the spare chunk would be allocated again. -/
def chunkUnspare (chunk : Nat) : Option Arena :=
  if arena.spare = some chunk then do
    check (((arena.chunks chunk).map g.mapBias).dirty = true)
    check (((arena.chunks chunk).map (g.chunkNpages - 1)).dirty = true)
    let (arena, _) ← arena.chunkAllocSpare g
    some arena
  else some arena

/-! ## The loop over the chunks -/

/-- `npurgatory` of the thread, where the chunk has more dirty pages and all of them will be
purged. -/
def raised (header : ArenaChunk) (npurgatory : Nat) : Nat :=
  if npurgatory < header.ndirty ∧ header.nrunsAdjac = 0 then header.ndirty else npurgatory

/-- The loop of `arena_purge` from its condition to where `arena_chunk_purge_stashed` releases
the lock; without a next chunk the thread is done. -/
def purgeNext (all : Bool) (npurgatory : Nat) : Option (Arena × Option Purge) :=
  if npurgatory = 0 then some (arena, none)
  else
    match arena.chunksDirty with
    | [] => some ({ arena with npurgatory := Word.sub arena.npurgatory npurgatory }, none)
    | chunk :: _ => do
        let header := arena.chunks chunk
        let npurgeable := header.ndirty
        check (npurgeable ≠ 0)
        let promised := raised header npurgatory
        let arena := { arena with
          npurgatory := Word.sub (Word.add arena.npurgatory (promised - npurgatory)) npurgeable }
        let arena ← arena.chunkUnspare g chunk
        let (arena, mapelms) ← arena.chunkStashDirty g chunk
          (all || (arena.chunks chunk).nrunsAdjac = 0)
        some (arena, some
          { all
            npurgatory := Word.sub promised npurgeable
            npurgeable
            npurged := 0
            chunk
            unpurged := mapelms
            mapelms })

/-- `arena->nactive >> opt_lg_dirty_mult`. -/
def threshold : Nat := arena.nactive >>> g.lgDirtyMult.toNat

/-- `arena_compute_npurgatory`. -/
def computeNpurgatory (all : Bool) : Nat :=
  let npurgeable := Word.sub arena.ndirty arena.npurgatory
  if all then npurgeable else Word.sub npurgeable (arena.threshold g)

/-- What `chunks_dirty_iter_cb` adds up. -/
def dirtySum : Nat := (arena.chunksDirty.map fun chunk => (arena.chunks chunk).ndirty).sum

/-- `arena_purge` up to where it releases the lock for the first time. -/
def purge (all : Bool) : Option (Arena × Option Purge) := do
  check (∀ chunk ∈ arena.chunksDirty, (arena.chunks chunk).ndirty ≠ 0)
  check (arena.dirtySum = arena.ndirty)
  check (arena.npurgatory < arena.ndirty ∨ all = true)
  check (arena.threshold g < Word.sub arena.ndirty arena.npurgatory ∨ all = true)
  let npurgatory := arena.computeNpurgatory g all
  { arena with npurgatory := Word.add arena.npurgatory npurgatory }.purgeNext g all npurgatory

/-- `arena_maybe_purge`. -/
def maybePurge : Option (Arena × Option Purge) :=
  if g.lgDirtyMult < 0 then some (arena, none)
  else if arena.ndirty ≤ arena.npurgatory then some (arena, none)
  else if arena.ndirty - arena.npurgatory ≤ arena.threshold g then some (arena, none)
  else arena.purge g false

/-! ## Purging the stashed runs -/

/-- The flags of some pages. -/
def unzeroedSetAll (chunk : ArenaChunk) (pageind npages : Nat) (unzeroed : Bool) : ArenaChunk :=
  (List.range' pageind npages).foldl (fun chunk i => chunk.unzeroedSet i unzeroed) chunk

/-- One turn of the loop of `arena_chunk_purge_stashed`, without the lock: `pages_purge` says
whether the pages may still hold something. -/
def purgeStashed (purge : Purge) (unzeroed : Bool) : Option (Arena × Purge) :=
  match purge.unpurged with
  | [] => none
  | pageind :: rest => do
      let header := arena.chunks purge.chunk
      let npages ← header.largeSizeGet pageind
      check (pageind + npages ≤ g.chunkNpages)
      some (arena.setChunk purge.chunk (unzeroedSetAll header pageind npages unzeroed),
        { purge with npurged := purge.npurged + npages, unpurged := rest })

/-- One turn of the loop of `arena_chunk_unstash_purged`; the run is clean, so it is no reason
to purge. -/
def unstashPurged (purge : Purge) : Option (Arena × Purge × Option Nat) :=
  match purge.mapelms with
  | [] => none
  | pageind :: rest => do
      let (arena, given, _) ← arena.runDalloc g purge.chunk pageind false true
      some (arena, { purge with mapelms := rest }, given)

/-- The loop of `arena_purge` from the return of `arena_chunk_purge` on. -/
def purgeAgain (purge : Purge) : Option (Arena × Option Purge) :=
  let nunpurged := Word.sub purge.npurgeable purge.npurged
  { arena with npurgatory := Word.add arena.npurgatory nunpurged }.purgeNext g purge.all
    (Word.add purge.npurgatory nunpurged)

end Arena

end Jemalloc
end Vmem
