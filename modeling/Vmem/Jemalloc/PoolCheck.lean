import Vmem.Jemalloc.ChunkMachine

/-!
# The pool checker

`je_pool_check` looks at the memory ranges of a pool, at the free extents, and at
what its arenas have available.  A free extent is accepted when it lies inside a
single memory range, while `chunk_record` merges extents by address alone.  The
two disagree exactly when two usable ranges touch and the memory on both sides
of the boundary is free.  Of a run that an arena has available the checker looks
at the flags of the first page only, and of a spare chunk at one of the two
flags, so what it takes to be zero need not be.
-/

namespace Vmem
namespace Jemalloc

/-- `check_data_cb_t` without the list of ranges, which never changes. -/
structure CheckData where
  size : Nat
  error : Nat
  deriving DecidableEq

namespace CheckData

/-- Count one error. -/
def fail (arg : CheckData) : CheckData := { arg with error := arg.error + 1 }

/-- Count the size of one region. -/
def count (arg : CheckData) (size : Nat) : CheckData :=
  { arg with size := Word.add arg.size size }

end CheckData

/-- `check_is_unzeroed`: look at whole words only. -/
def checkIsUnzeroed (mem : Nat → UInt8) (ptr size : Nat) : Bool :=
  (List.range (size / 8)).any fun i =>
    (List.range 8).any fun j => mem (ptr + (8 * i + j)) != 0

/-- The test both callbacks make on each memory range. -/
def insideRange (addr addrEnd : Nat) (range : MemoryRange) : Bool :=
  decide (range.usableAddr ≤ addr) && decide (addr < range.usableAddrEnd) &&
    decide (range.usableAddr < addrEnd) && decide (addrEnd ≤ range.usableAddrEnd)

/-- What both callbacks check of a free region; the flag stops the iteration. -/
def checkRegion (mem : Nat → UInt8) (list : List MemoryRange) (arg : CheckData)
    (addr size : Nat) (zeroed : Bool) : CheckData × Bool :=
  if size = 0 then (arg.fail, true)
  else
    let arg := arg.count size
    if zeroed && checkIsUnzeroed mem addr size then (arg.fail, true)
    else if list.any (insideRange addr (Word.add addr size)) then (arg, false)
    else (arg.fail, true)

/-- `check_tree_binary_iter_cb`. -/
def checkTreeBinaryIterCb (p : Pool) (arg : CheckData) (n : Nat) : CheckData × Bool :=
  checkRegion p.mem p.memoryRanges arg (p.node n).addr (p.node n).size (p.node n).zeroed

/-- An element of `runs_avail`, with its chunk, its page and its bits. -/
structure AvailRun where
  chunk : Nat
  pageind : Nat
  size : Nat
  large : Bool
  allocated : Bool
  unzeroed : Bool
  dirty : Bool

/-- Where an available run begins. -/
def AvailRun.addr (c : Config) (run : AvailRun) : Nat :=
  Word.add run.chunk (run.pageind * c.page)

/-- `check_tree_chunks_avail_iter_cb`. -/
def checkTreeChunksAvailIterCb (c : Config) (p : Pool) (arg : CheckData) (run : AvailRun) :
    CheckData × Bool :=
  if run.large || run.allocated then (arg.fail, true)
  else checkRegion p.mem p.memoryRanges arg (run.addr c) run.size
    (!(run.unzeroed || run.dirty))

/-- The spare chunk of an arena, with the size and the flag of its only run. -/
structure SpareChunk where
  chunk : Nat
  size : Nat
  unzeroed : Bool

/-- Where the pages of a spare chunk begin. -/
def SpareChunk.addr (c : Config) (spare : SpareChunk) : Nat :=
  Word.add spare.chunk (c.mapBias * c.page)

/-- The part of an arena that the checker looks at. -/
structure ArenaView where
  runsAvail : List AvailRun
  spare : Option SpareChunk

/-- `extent_tree_szad_iter` and `arena_runs_avail_tree_iter`: call back in order
until a call asks to stop. -/
def treeIter {α : Type} (cb : CheckData → α → CheckData × Bool) :
    CheckData → List α → CheckData
  | arg, [] => arg
  | arg, a :: rest =>
      match cb arg a with
      | (arg, true) => arg
      | (arg, false) => treeIter cb arg rest

/-- The spare chunk is counted, and must be zero if it is marked so. -/
def checkSpare (c : Config) (p : Pool) (arg : CheckData) (spare : SpareChunk) : CheckData :=
  let arg := arg.count spare.size
  if !spare.unzeroed && checkIsUnzeroed p.mem (spare.addr c) spare.size then arg.fail
  else arg

/-- One arena. -/
def checkArena (c : Config) (p : Pool) (arg : CheckData) (arena : ArenaView) : CheckData :=
  let arg := treeIter (checkTreeChunksAvailIterCb c p) arg arena.runsAvail
  match arena.spare with
  | none => arg
  | some spare => checkSpare c p arg spare

/-- The loop over the arenas, which stops after the first error. -/
def checkArenas (c : Config) (p : Pool) : CheckData → List (Option ArenaView) → CheckData
  | arg, [] => arg
  | arg, arena :: rest =>
      if arg.error = 0 then
        match arena with
        | none => checkArenas c p arg rest
        | some arena => checkArenas c p (checkArena c p arg arena) rest
      else arg

/-- The loop over the pool's own ranges: their total size, unless one is
corrupted. -/
def checkRanges : Nat → List MemoryRange → Option Nat
  | total, [] => some total
  | total, range :: rest =>
      let total := Word.add total (Word.sub range.usableAddrEnd range.usableAddr)
      if range.addr > range.usableAddr ∨ range.addrEnd < range.usableAddrEnd ∨
          range.usableAddr ≥ range.usableAddrEnd then none
      else checkRanges total rest

/-- Two ranges have an address in common. -/
def rangesCollide (node node2 : MemoryRange) : Bool :=
  decide (node.addr ≤ node2.addr) && decide (node2.addr < node.addrEnd) ||
    decide (node2.addr ≤ node.addr) && decide (node.addr < node2.addrEnd)

/-- `je_pool_check`.  `live` is the outcome of the checks of the handle,
`others` are the lists of memory ranges of the other registered pools. -/
def poolCheck (c : Config) (live : Bool) (p : Pool) (others : List (List MemoryRange))
    (arenas : List (Option ArenaView)) : Int :=
  if !live then -1
  else
    match checkRanges 0 p.memoryRanges with
    | none => 0
    | some total =>
        if others.any fun list =>
            p.memoryRanges.any fun node => list.any fun node2 => rangesCollide node node2
        then 0
        else
          let arg := treeIter (checkTreeBinaryIterCb p) ⟨0, 0⟩ p.chunksSzad
          let arg := checkArenas c p arg arenas
          if arg.error ≠ 0 then 0
          else if total < arg.size then 0
          else 1

/-! ## The callbacks -/

section Region

variable {mem : Nat → UInt8} {list : List MemoryRange} {addr size : Nat} {zeroed : Bool}

end Region

/-! ## Iterations -/

namespace CheckData

end CheckData

/-- The available runs and the spare chunk of an arena as spans. -/
def ArenaView.spans (c : Config) (arena : ArenaView) : List Span :=
  arena.runsAvail.map (fun run => ⟨run.addr c, run.size⟩) ++
    arena.spare.toList.map fun spare => ⟨spare.addr c, spare.size⟩

/-- Everything the arenas of a pool have available. -/
def arenaSpans (c : Config) (arenas : List (Option ArenaView)) : List Span :=
  arenas.flatMap fun arena => arena.toList.flatMap (ArenaView.spans c)

/-- What an arena guarantees of an available run: it is not in use, has whole
pages, and lies inside one chunk. -/
structure RunSound (c : Config) (run : AvailRun) : Prop where
  notLarge : run.large = false
  notAllocated : run.allocated = false
  nonempty : 0 < run.size
  pages : c.page ∣ run.size
  chunk_dvd : c.chunksize ∣ run.chunk
  lower : run.chunk ≤ run.addr c
  upper : run.addr c + run.size ≤ run.chunk + c.chunksize

/-- The arenas of a pool only use chunks that were given to them. -/
structure ArenasSound (c : Config) (s : ChunkState) (arenas : List (Option ArenaView)) :
    Prop where
  runs : ∀ arena, some arena ∈ arenas → ∀ run ∈ arena.runsAvail, RunSound c run
  spares : ∀ arena, some arena ∈ arenas → ∀ spare ∈ arena.spare, c.page ∣ spare.size
  owned : ∀ x, cover (arenaSpans c arenas) x ≤ s.lentCount x

theorem Config.word_dvd_page (c : Config) : 8 ∣ c.page := by
  have := c.cacheline_le_page
  exact show 2 ^ 3 ∣ 2 ^ c.lgPage from Nat.pow_dvd_pow 2 (by omega)

section Accept

variable {c : Config} {s : ChunkState} {arenas : List (Option ArenaView)}

end Accept

/-! ## What is marked as zero and is not -/

section Reject

variable {c : Config} {p : Pool}

end Reject

end Jemalloc
end Vmem
