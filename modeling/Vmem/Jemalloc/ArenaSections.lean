import Vmem.Jemalloc.ArenaStash
import Vmem.Library.Run

/-!
# Threads in one arena

The threads of an arena take turns at its lock.  A step is what one thread does between
taking the lock and releasing it, or while it purges the pages of one run without the lock.
The state also records what the callers have been given: the chunks of the arena, its runs
in use and the pages of huge blocks.  A step has no result where an assertion fails.
-/

namespace Vmem
namespace Jemalloc

/-- The number of pages of the address space. -/
def addressPages : Nat := 2 ^ 52

/-- An arena, the threads that are purging it, and what its callers have been given. -/
structure ArenaState where
  arena : Arena
  purges : List Purge
  owned : Finset Nat
  /-- The runs in use by their first pages: the number of pages and the use. -/
  live : MapElm → Option (Nat × RunUse)
  /-- The pages of the huge blocks of the arena. -/
  huge : Nat
  /-- The pages of the huge blocks that could not be allocated. -/
  lost : Nat

/-- What a thread may do in an arena.  An allocation says how many pages it needs; the shape
of the tree decides which of several free runs of the size is found. -/
inductive ArenaAction
  /-- `arena_run_alloc_large`, to its end or to where it asks for a chunk. -/
  | allocLarge (need shape : Nat)
  | resumeLarge (need shape : Nat) (fresh : Option Arena.FreshChunk)
  /-- `arena_run_alloc_small` for a bin, to its end or to where it asks for a chunk. -/
  | allocSmall (binind shape : Nat)
  | resumeSmall (binind shape : Nat) (fresh : Option Arena.FreshChunk)
  /-- `arena_dalloc_large_locked`. -/
  | dallocLarge (elm : MapElm)
  /-- `arena_dalloc_bin_run`: some of its first pages were used. -/
  | dallocBin (elm : MapElm) (used : Nat)
  /-- `arena_run_trim_head` in `arena_palloc`. -/
  | trimHead (elm : MapElm) (pages : Nat)
  /-- `arena_run_trim_tail` in `arena_palloc`. -/
  | trimTail (elm : MapElm) (pages : Nat)
  /-- `arena_run_init_large` in `arena_palloc`. -/
  | initLarge (elm : MapElm)
  /-- `arena_ralloc_large_shrink`. -/
  | shrink (elm : MapElm) (pages : Nat)
  /-- `arena_ralloc_large_grow`. -/
  | grow (elm : MapElm) (pages extra : Nat)
  /-- `arena_chunk_alloc_huge`, which counts the pages whether it gets them or not. -/
  | hugeAlloc (pages : Nat) (succeeds : Bool)
  /-- `arena_chunk_dalloc_huge`. -/
  | hugeDalloc (pages : Nat)
  /-- `arena_maybe_purge`, with which `arena_run_dalloc` ends if the run freed is dirty. -/
  | maybePurge
  /-- `arena_purge_all`. -/
  | purgeAll
  /-- The thread purges the pages of its next run. -/
  | purgeStashed (thread : Nat) (unzeroed : Bool)
  /-- The thread frees its next run. -/
  | unstashPurged (thread : Nat)
  /-- The thread goes on to the next chunk. -/
  | purgeAgain (thread : Nat)

namespace ArenaState

variable (g : Geometry) (state : ArenaState)

/-- The size of a run in use. -/
def pages (elm : MapElm) : Nat := ((state.live elm).map Prod.fst).getD 0

/-- The runs that the purging threads have stashed. -/
def stashes : List MapElm :=
  state.purges.flatMap fun purge => purge.mapelms.map fun page => ⟨purge.chunk, page⟩

/-! ## Results -/

/-- A run has been allocated, or not. -/
def allocated (need : Nat) (use : RunUse) : Arena × Arena.Outcome → ArenaState
  | (arena, .run elm) =>
      { state with arena, live := Function.update state.live elm (some (need, use)) }
  | (arena, _) => { state with arena }

/-- The chunk that was asked for belongs to the arena. -/
def adopted (fresh : Option Arena.FreshChunk) : ArenaState :=
  { state with owned := state.owned ∪ (fresh.map Arena.FreshChunk.chunk).toFinset }

/-- Runs have been freed, and some chunks were given back. -/
def freed (live : MapElm → Option (Nat × RunUse)) (arena : Arena) (given : List Nat) :
    ArenaState :=
  { state with arena, live, owned := state.owned \ given.toFinset }

/-- A thread has stashed the dirty runs of a chunk, unless it is done with purging. -/
def purging : Arena × Option Purge → ArenaState
  | (arena, none) => { state with arena }
  | (arena, some purge) =>
      { state with
        arena
        purges := state.purges ++ [purge]
        live := fun elm =>
          if elm.chunk = purge.chunk ∧ elm.pageind ∈ purge.mapelms then
            ((arena.chunks elm.chunk).largeSizeGet elm.pageind).map (·, .large)
          else state.live elm }

/-- One of the purging threads has new variables. -/
def setPurge (thread : Nat) (purge : Purge) : ArenaState :=
  { state with purges := state.purges.set thread purge }

/-- A thread has purged all runs it stashed. -/
def dropPurge (thread : Nat) : ArenaState :=
  { state with purges := state.purges.eraseIdx thread }

/-! ## Steps -/

def step : ArenaAction → Option ArenaState
  | .allocLarge need shape => do
      let result ← state.arena.runAlloc g (Arena.splitLarge g need) need shape
      some (state.allocated need .large result)
  | .resumeLarge need shape fresh => do
      let result ← state.arena.runAllocResumed g (Arena.splitLarge g need) need shape fresh
      some ((state.adopted fresh).allocated need .large result)
  | .allocSmall binind shape => do
      let result ← state.arena.runAlloc g (Arena.splitForBin g binind) (g.runPages binind) shape
      some (state.allocated (g.runPages binind) (.small binind) result)
  | .resumeSmall binind shape fresh => do
      let result ← state.arena.runAllocResumed g (Arena.splitForBin g binind) (g.runPages binind)
        shape fresh
      some ((state.adopted fresh).allocated (g.runPages binind) (.small binind) result)
  | .dallocLarge elm => do
      let (arena, given, _) ← state.arena.runDalloc g elm.chunk elm.pageind true false
      some (state.freed (Function.update state.live elm none) arena given.toList)
  | .dallocBin elm used => do
      let (arena, given, _) ← state.arena.dallocBinRun g elm.chunk elm.pageind (elm.pageind + used)
      some (state.freed (Function.update state.live elm none) arena given)
  | .trimHead elm pages => do
      let (arena, given, _) ← state.arena.runTrimHead g elm.chunk elm.pageind (state.pages elm)
        pages
      let start := elm.pageind + (state.pages elm - pages)
      some (state.freed (Function.update (Function.update state.live elm none) ⟨elm.chunk, start⟩
        (some (pages, .large))) arena given.toList)
  | .trimTail elm pages => do
      let (arena, given, _) ← state.arena.runTrimTail g elm.chunk elm.pageind (state.pages elm)
        pages false
      some (state.freed (Function.update state.live elm (some (pages, .large))) arena given.toList)
  | .initLarge elm =>
      some { state with
        arena := state.arena.runInitLarge elm.chunk elm.pageind (state.pages elm) }
  | .shrink elm pages => do
      let (arena, given, _) ← state.arena.rallocLargeShrink g elm.chunk elm.pageind
        (state.pages elm) pages
      some (state.freed (Function.update state.live elm (some (pages, .large))) arena given.toList)
  | .grow elm pages extra => do
      let (arena, _) ← state.arena.rallocLargeGrow g elm.chunk elm.pageind (state.pages elm) pages
        extra
      let size := (arena.chunks elm.chunk).largeSizeGet elm.pageind
      some { state with
        arena, live := Function.update state.live elm (size.map (·, .large)) }
  | .hugeAlloc pages succeeds =>
      some { state with
        arena := { state.arena with nactive := Word.add state.arena.nactive pages }
        huge := if succeeds then state.huge + pages else state.huge
        lost := if succeeds then state.lost else state.lost + pages }
  | .hugeDalloc pages =>
      some { state with
        arena := { state.arena with nactive := Word.sub state.arena.nactive pages }
        huge := state.huge - pages }
  | .maybePurge => do
      let result ← state.arena.maybePurge g
      some (state.purging result)
  | .purgeAll => do
      let result ← state.arena.purge g true
      some (state.purging result)
  | .purgeStashed thread unzeroed => do
      let purge ← state.purges[thread]?
      let (arena, purge) ← state.arena.purgeStashed g purge unzeroed
      some ({ state with arena }.setPurge thread purge)
  | .unstashPurged thread => do
      let purge ← state.purges[thread]?
      let page ← purge.mapelms.head?
      let (arena, purge, given) ← state.arena.unstashPurged g purge
      let live := Function.update state.live ⟨purge.chunk, page⟩ none
      some ((state.freed live arena given.toList).setPurge thread purge)
  | .purgeAgain thread => do
      let purge ← state.purges[thread]?
      let result ← state.arena.purgeAgain g purge
      some ((state.dropPurge thread).purging result)

/-! ## What callers and threads may do -/

/-- A caller has a run: it was allocated for a use and is not one that a thread has stashed. -/
def Has (elm : MapElm) (use : RunUse) : Prop :=
  (state.live elm).map Prod.snd = some use ∧ elm ∉ state.stashes

instance (elm : MapElm) (use : RunUse) : Decidable (state.Has elm use) := instDecidableAnd

/-- A chunk from `chunk_alloc`: it is new, and zeroed if it is said to be. -/
def Fresh (fresh : Arena.FreshChunk) : Prop :=
  fresh.chunk ∉ state.owned ∧ g.chunkNpages ∣ fresh.chunk ∧
    fresh.chunk + g.chunkNpages ≤ addressPages ∧
    (fresh.zero = true → ∀ page ∈ Arena.innerPages g, (fresh.header.map page).unzeroed = false)

instance (fresh : Arena.FreshChunk) : Decidable (state.Fresh g fresh) := instDecidableAnd

/-- The program order of the threads, and callers that use only what they have been given. -/
def permitted : ArenaAction → Prop
  | .allocLarge need _ => 0 < need ∧ need ≤ g.maxPages
  | .resumeLarge need _ fresh =>
      (0 < need ∧ need ≤ g.maxPages) ∧ ∀ chunk ∈ fresh, state.Fresh g chunk
  | .allocSmall binind _ => binind < g.nbins
  | .resumeSmall binind _ fresh => binind < g.nbins ∧ ∀ chunk ∈ fresh, state.Fresh g chunk
  | .dallocLarge elm => state.Has elm .large
  | .dallocBin elm used => (∃ binind < g.nbins, state.Has elm (.small binind)) ∧ 0 < used
  | .trimHead elm pages | .trimTail elm pages | .shrink elm pages =>
      state.Has elm .large ∧ 0 < pages ∧ pages < state.pages elm
  | .initLarge elm => state.Has elm .large
  | .grow elm pages extra => state.Has elm .large ∧ state.pages elm < pages + extra
  | .hugeAlloc _ _ => True
  | .hugeDalloc pages => pages ≤ state.huge
  | .maybePurge | .purgeAll => True
  | .purgeStashed thread _ => ∃ purge ∈ state.purges[thread]?, purge.unpurged ≠ []
  | .unstashPurged thread =>
      ∃ purge ∈ state.purges[thread]?, purge.unpurged = [] ∧ purge.mapelms ≠ []
  | .purgeAgain thread => ∃ purge ∈ state.purges[thread]?, purge.mapelms = []

instance (action : ArenaAction) : Decidable (state.permitted g action) := by
  cases action <;> unfold permitted <;> infer_instance

end ArenaState

end Jemalloc
end Vmem
