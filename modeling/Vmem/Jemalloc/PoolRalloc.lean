import Vmem.Jemalloc.Base
import Vmem.Jemalloc.Huge
import Vmem.Jemalloc.ThreadArrays

/-!
# Reallocation

`je_pool_ralloc` resizes a block in place or moves it.  What it does with chunks,
huge blocks and the base allocator is followed exactly.  The arenas with the caches
in front of them are a parameter: whether they have room for a request without
another chunk, and what they do with a new chunk.  The statistics of an arena,
profiling, `config_ivsalloc` and the quarantine are left out.
-/

namespace Vmem
namespace Jemalloc

/-- The arenas of a pool and the caches of the thread in front of them. -/
structure ArenaLayer (c : Config) (α : Type) where
  /-- `arena_salloc`. -/
  salloc : α → Nat → Nat
  /-- `arena_ralloc_no_move` of a block of an arena; `none` when it would have to move. -/
  rallocNoMove : α → (Nat → UInt8) → Nat → Nat → Nat → Option (α × (Nat → UInt8))
  /-- The arena has room for a request without another chunk. -/
  room : α → Nat → Nat → Bool
  /-- Serve a request that there is room for, or a request from a new chunk. -/
  serve : α → (Nat → UInt8) → Nat → Nat → α × (Nat → UInt8) × Nat
  /-- What a request leaves behind that was refused, a new cache for example. -/
  refuse : α → Nat → Nat → α
  /-- `arena_chunk_init_hard`: an arena gets a chunk. -/
  addChunk : α → Nat → Nat → α
  /-- `arena_new`. -/
  newArena : α → Nat → α
  /-- `arena_dalloc`, and the chunks that go back. -/
  dalloc : α → (Nat → UInt8) → Nat → α × (Nat → UInt8) × List Nat
  salloc_le : ∀ a ptr, salloc a ptr ≤ c.arenaMaxclass
  refuse_salloc : ∀ a arena size ptr, salloc (refuse a arena size) ptr = salloc a ptr
  refuse_room : ∀ a arena size, room a arena size = false →
    room (refuse a arena size) arena size = false
  newArena_salloc : ∀ a index ptr, salloc (newArena a index) ptr = salloc a ptr

/-- What one thread sees of a pool. -/
structure ThreadHeap (α : Type) where
  pool : Pool
  arenas : α
  /-- `pool->arenas` with the number of threads of each arena. -/
  loads : List (Option Nat)
  /-- The thread's arrays reach the id of the pool. -/
  arrays : Bool
  /-- The thread's entry for the pool, if it is current. -/
  arena : Option Nat

section

variable {α : Type} (c : Config) (layer : ArenaLayer c α)

/-- The index at which `choose_arena_hard` wants to initialize a new arena. -/
def newArenaIndex (arenas : List (Option Nat)) : Option Nat :=
  if arenas.length > 1 then
    let (choose, firstNull) := scanArenas arenas 1 (arenas.length - 1) (0, arenas.length)
    if nthreadsAt arenas choose = 0 ∨ firstNull = arenas.length then none else some firstNull
  else none

/-- `choose_arena_hard` with the allocations of `arenas_extend`. -/
def poolChooseArenaHard (h : ThreadHeap α) : ThreadHeap α × Nat :=
  match newArenaIndex h.loads with
  | none =>
      let chosen := chooseArenaHard h.loads false
      ({ h with loads := chosen.1, arena := some chosen.2 }, chosen.2)
  | some index =>
      match baseAllocAll c h.pool c.arenaAllocs with
      | (p, false) =>
          let chosen := chooseArenaHard h.loads true
          ({ h with pool := p, loads := chosen.1, arena := some chosen.2 }, chosen.2)
      | (p, true) =>
          let chosen := chooseArenaHard h.loads false
          ({ h with
              pool := p
              arenas := layer.newArena h.arenas index
              loads := chosen.1
              arena := some chosen.2 }, chosen.2)

/-- `choose_arena` with a dummy arena; `noMemory` tells whether `base_malloc_fn` fails. -/
def chooseArena (h : ThreadHeap α) (noMemory : Bool) : ThreadHeap α × Option Nat :=
  if h.arrays = false ∧ noMemory = true then (h, none)
  else
    let h := { h with arrays := true }
    match h.arena with
    | some arena => (h, some arena)
    | none =>
        let chosen := poolChooseArenaHard c layer h
        (chosen.1, some chosen.2)

/-- Serve a request from the arenas. -/
def arenaServe (h : ThreadHeap α) (arena size : Nat) : ThreadHeap α × Option Nat :=
  let served := layer.serve h.arenas h.pool.mem arena size
  ({ h with arenas := served.1, pool := { h.pool with mem := served.2.1 } }, some served.2.2)

/-- `arena_malloc`. -/
def arenaMalloc (h : ThreadHeap α) (size : Nat) (noMemory : Bool) : ThreadHeap α × Option Nat :=
  match chooseArena c layer h noMemory with
  | (h, none) => (h, none)
  | (h, some arena) =>
      if layer.room h.arenas arena size then arenaServe c layer h arena size
      else
        match chunkAllocArena c h.pool 0 c.chunksize c.chunksize false false with
        | (p, none) => ({ h with pool := p, arenas := layer.refuse h.arenas arena size }, none)
        | (p, some (chunk, _)) =>
            arenaServe c layer
              { h with pool := p, arenas := layer.addChunk h.arenas arena chunk } arena size

/-- `huge_malloc` for a dummy arena: a size that wraps is refused first. -/
def poolHugeMalloc (h : ThreadHeap α) (size : Nat) (noMemory : Bool) : ThreadHeap α × Option Nat :=
  if c.chunkCeiling size = 0 then (h, none)
  else
    match chooseArena c layer h noMemory with
    | (h, none) => (h, none)
    | (h, some arena) =>
        let allocated := hugeMalloc c h.pool (some arena) size false false
        ({ h with pool := allocated.1 }, allocated.2)

/-- `isalloc`: a huge block starts on a chunk boundary, a block of an arena does not. -/
def isalloc (h : ThreadHeap α) (ptr : Nat) : Nat :=
  if c.chunksize ∣ ptr then hugePoolSalloc h.pool ptr else layer.salloc h.arenas ptr

/-- `pool_iqalloct`. -/
def poolIqalloct (h : ThreadHeap α) (ptr : Nat) : ThreadHeap α :=
  if c.chunksize ∣ ptr then { h with pool := hugeDalloc c h.pool ptr }
  else
    let freed := layer.dalloc h.arenas h.pool.mem ptr
    { h with
      arenas := freed.1
      pool := freed.2.2.foldl (fun p chunk => chunkDallocDefault c p chunk c.chunksize)
        { h.pool with mem := freed.2.1 } }

/-- `memcpy`. -/
def memcpy (mem : Nat → UInt8) (target source length : Nat) : Nat → UInt8 :=
  fun x => if target ≤ x ∧ x < target + length then mem (source + (x - target)) else mem x

/-- Copy the block and free the old one. -/
def moveBlock (h : ThreadHeap α) (ptr oldsize size ret : Nat) : ThreadHeap α :=
  poolIqalloct c layer
    { h with pool := { h.pool with mem := memcpy h.pool.mem ret ptr (min size oldsize) } } ptr

/-- `arena_ralloc_no_move`: a block above `arena_maxclass` has to move. -/
def arenaRallocNoMove (h : ThreadHeap α) (ptr oldsize size : Nat) : Option (α × (Nat → UInt8)) :=
  if oldsize ≤ c.arenaMaxclass then layer.rallocNoMove h.arenas h.pool.mem ptr oldsize size
  else none

/-- `arena_ralloc` without extra space and alignment. -/
def poolArenaRalloc (h : ThreadHeap α) (ptr oldsize size : Nat) (noMemory : Bool) :
    ThreadHeap α × Option Nat :=
  match arenaRallocNoMove c layer h ptr oldsize size with
  | some (arenas, mem) =>
      ({ h with arenas := arenas, pool := { h.pool with mem := mem } }, some ptr)
  | none =>
      match arenaMalloc c layer h size noMemory with
      | (h, none) => (h, none)
      | (h, some ret) => (moveBlock c layer h ptr oldsize size ret, some ret)

/-- `huge_ralloc` without extra space and alignment. -/
def poolHugeRalloc (h : ThreadHeap α) (ptr oldsize size : Nat) (noMemory : Bool) :
    ThreadHeap α × Option Nat :=
  match hugeRallocNoMove c h.pool ptr oldsize size 0 false false false with
  | (p, false) => ({ h with pool := p }, some ptr)
  | (p, true) =>
      match poolHugeMalloc c layer { h with pool := p } size noMemory with
      | (h, none) => (h, none)
      | (h, some ret) => (moveBlock c layer h ptr oldsize size ret, some ret)

/-- `iralloct` without extra space and alignment; the flags tell whether `base_malloc_fn` fails
in the first and in the second attempt. -/
def iralloct (h : ThreadHeap α) (ptr size : Nat) (noMemory noMemoryAgain : Bool) :
    ThreadHeap α × Option Nat :=
  let oldsize := isalloc c layer h ptr
  if size ≤ c.arenaMaxclass then
    match poolArenaRalloc c layer h ptr oldsize size noMemory with
    | (h, some ret) => (h, some ret)
    | (h, none) =>
        if size > oldsize then (h, none)
        else if oldsize > c.chunksize then
          match poolHugeRalloc c layer h ptr oldsize c.chunksize noMemoryAgain with
          | (h, none) => (h, none)
          | (h, some ret) =>
              -- "Now, it should succeed..."
              poolArenaRalloc c layer h ret c.chunksize size noMemoryAgain
        else (h, none)
  else poolHugeRalloc c layer h ptr oldsize size noMemory

/-- `pool_imalloct`. -/
def poolImalloct (h : ThreadHeap α) (size : Nat) (noMemory : Bool) : ThreadHeap α × Option Nat :=
  if size ≤ c.arenaMaxclass then arenaMalloc c layer h size noMemory
  else poolHugeMalloc c layer h size noMemory

/-- `je_pool_ralloc`. -/
def jePoolRalloc (h : ThreadHeap α) (ptr size : Nat) (noMemory noMemoryAgain : Bool) :
    ThreadHeap α × Option Nat :=
  if size = 0 ∧ ptr ≠ 0 then (poolIqalloct c layer h ptr, none)
  else
    let size := if size = 0 then 1 else size
    if ptr ≠ 0 then iralloct c layer h ptr size noMemory noMemoryAgain
    else poolImalloct c layer h size noMemory

end

end Jemalloc
end Vmem
