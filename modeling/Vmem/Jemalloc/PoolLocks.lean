import Vmem.Library.Locks
import Vmem.Jemalloc.Huge
import Vmem.Jemalloc.Registry

/-!
# The mutexes of the pool layer

For each function of the pool layer, what the calling thread does with
`pools_lock` and with the mutexes of the pool and of the base pool, as a list of
events.  Which branch is taken follows from the model of the function.

The base pool gets its memory from the system: whether its base region had room,
a chunk was mapped, or neither, is an argument.  `chunk_recycle` on behalf of the
base pool's own base allocator returns at once, so only `chunk_register` takes a
further mutex there.

The allocations that `rtree_set` makes under `config_ivsalloc` and those of
`quarantine_alloc_hook` are left out.
-/

namespace Vmem
namespace Jemalloc

/-- The two pools whose mutexes one call can take. -/
inductive Owner
  | basePool
  | pool
  deriving DecidableEq

/-- The mutexes of the pool layer. -/
inductive Mutex
  | poolsLock
  | baseMtx (owner : Owner)
  | baseNodeMtx (owner : Owner)
  | chunksMtx (owner : Owner)
  | memoryRangeMtx (owner : Owner)
  deriving DecidableEq

/-- What a thread does with the mutexes. -/
abbrev Events : Type := List (LockEvent Mutex)

/-! ## `chunk.c` -/

/-- `base_node_alloc` of a custom pool, or `base_node_dalloc`. -/
def baseNodeEvents : Events := locked (.baseNodeMtx .pool) []

/-- `base_node_dalloc` of a node, if there is one. -/
def baseNodeDallocIfEvents (n : Option Nat) : Events :=
  match n with
  | none => []
  | some _ => baseNodeEvents

/-- `chunk_record`. -/
def chunkRecordEvents (c : Config) (p : Pool) (chunk size : Nat) (zeroed : Bool) : Events :=
  let purged := pagesPurge c p chunk size
  let taken := baseNodeAlloc purged.1
  let recorded := chunkRecordLocked taken.1 taken.2 chunk size (zeroed || !purged.2)
  baseNodeEvents ++ locked (.chunksMtx .pool) [] ++ baseNodeDallocIfEvents recorded.xnode ++
    baseNodeDallocIfEvents recorded.xprev

/-- `chunk_dalloc_core`, which counts the chunks out first. -/
def chunkDallocCoreEvents (c : Config) (p : Pool) (chunk size : Nat) : Events :=
  let p := { p with curchunks := Word.sub p.curchunks (size / c.chunksize) }
  locked (.chunksMtx .pool) [] ++ chunkRecordEvents c p chunk size false

/-- `chunk_recycle` from the point where its extent is unlinked; `chunks_mtx` is held. -/
def chunkRecycleRestEvents (c : Config) (taken : Taken) (size : Nat) : Events :=
  if taken.trailsize ≠ 0 then
    match taken.node with
    | some _ => [.release (.chunksMtx .pool)]
    | none =>
        .release (.chunksMtx .pool) ::
          (baseNodeEvents ++
            match baseNodeAlloc taken.pool with
            | (p, none) =>
                let p := { p with
                  leaked := ⟨Word.add taken.ret size, taken.trailsize⟩ :: p.leaked }
                chunkDallocCoreEvents c p taken.ret size
            | (_, some _) => locked (.chunksMtx .pool) [])
  else .release (.chunksMtx .pool) :: baseNodeDallocIfEvents taken.node

/-- `chunk_recycle`. -/
def chunkRecycleEvents (c : Config) (p : Pool) (newAddr size alignment : Nat) : Events :=
  let allocSize := Word.sub (Word.add size alignment) c.chunksize
  if allocSize < size then []
  else
    .acquire (.chunksMtx .pool) ::
      match chunkRecycleTake p newAddr size alignment allocSize with
      | none => [.release (.chunksMtx .pool)]
      | some taken => chunkRecycleRestEvents c taken size

/-- `chunk_register`: a failure of `rtree_set` comes before the counters. -/
def chunkRegisterEvents (rtreeFails : Bool) : Events :=
  if rtreeFails then [] else locked (.chunksMtx .pool) []

/-- `chunk_alloc_arena`. -/
def chunkAllocArenaEvents (c : Config) (p : Pool) (newAddr size alignment : Nat)
    (zero rtreeFails : Bool) : Events :=
  chunkRecycleEvents c p newAddr size alignment ++
    match chunkAllocDefault c p newAddr size alignment zero with
    | (_, none) => []
    | (p, some (ret, _)) =>
        chunkRegisterEvents rtreeFails ++
          if rtreeFails then chunkDallocCoreEvents c p ret size else []

/-- `chunk_alloc_base` of a custom pool. -/
def chunkAllocBaseEvents (c : Config) (p : Pool) (size : Nat) : Events :=
  chunkRecycleEvents c p 0 size c.chunksize ++
    match chunkRecycle c p 0 size c.chunksize false with
    | (_, none) => []
    | (_, some _) => chunkRegisterEvents false

/-! ## `base.c` -/

/-- `base_alloc`. -/
def baseAllocEvents (c : Config) (p : Pool) (size : Nat) : Events :=
  let csize := cachelineCeiling size
  locked (.baseMtx .pool)
    (if Word.add p.baseNextAddr csize > p.basePastAddr then
      chunkAllocBaseEvents c p (c.chunkCeiling csize)
    else [])

/-- A sequence of `base_alloc` calls that stops at the first failure. -/
def baseAllocAllEvents (c : Config) : Pool → List Nat → Events
  | _, [] => []
  | p, size :: sizes =>
      baseAllocEvents c p size ++
        match baseAlloc c p size with
        | (_, none) => []
        | (p, some _) => baseAllocAllEvents c p sizes

/-- The loop of `base_node_prealloc`. -/
def preallocLoopEvents (c : Config) : Pool → Nat → Events
  | _, 0 => []
  | p, number + 1 =>
      baseAllocEvents c p c.sizeofExtentNode ++
        match baseAlloc c p c.sizeofExtentNode with
        | (_, none) => []
        | (p, some _) =>
            preallocLoopEvents c
              { p with
                nodeCount := p.nodeCount + 1
                baseNodes := p.nodeCount :: p.baseNodes } number

/-- `base_node_prealloc`, which holds `base_node_mtx` all the time. -/
def baseNodePreallocEvents (c : Config) (p : Pool) (number : Nat) : Events :=
  locked (.baseNodeMtx .pool) (preallocLoopEvents c p number)

/-! ## The pool API -/

/-- How a `base_alloc` of the base pool goes. -/
inductive SystemAlloc
  | room
  | mapped
  | failed
  deriving DecidableEq

/-- `base_alloc` of the base pool. -/
def systemAllocEvents (outcome : SystemAlloc) : Events :=
  locked (.baseMtx .basePool)
    (match outcome with
    | .mapped => locked (.chunksMtx .basePool) []
    | _ => [])

/-- `pool_create_empty`. -/
def poolCreateEmptyEvents (c : Config) (mem : Nat → UInt8) (addr size : Nat)
    (zeroed locksFail : Bool) : Events :=
  if locksFail then []
  else
    let p := poolBlank c mem addr size
    baseAllocAllEvents c p c.poolNewAllocs ++
      match baseAllocAll c p c.poolNewAllocs with
      | (_, false) => []
      | (p, true) =>
          let number := size / c.chunksize
          let q := (baseAllocAll c p c.arenaAllocs).1
          let r := (baseNodePrealloc c q number).1
          baseAllocAllEvents c p c.arenaAllocs ++ baseNodePreallocEvents c q number ++
            baseAllocEvents c r c.sizeofRangeNode ++
            match baseAlloc c r c.sizeofRangeNode with
            | (_, none) => [] -- the list is written through a null pointer
            | (p, some _) =>
                let usableAddr := c.chunkCeiling p.baseNextAddr
                locked (.memoryRangeMtx .pool) [] ++
                  chunkRecordEvents c { p with basePastAddr := usableAddr } usableAddr
                    (usableSizeOf c addr size usableAddr) zeroed

/-- `pool_open`: when the run-time state cannot be set up it unlocks `pools_lock`. -/
def poolOpenEvents (fails : Bool) : Events :=
  if fails then [.release .poolsLock] else []

/-- What `je_pool_create` finds out about the base pool: how the allocations go when it is
set up, and whether it has room for a larger array of pools. -/
structure BasePoolAllocs where
  boot : List SystemAlloc
  room : Bool

/-- `je_pool_create`.  Both ways out of the section under `pools_lock` unlock it. -/
def jePoolCreateEvents (c : Config) (base : Nat) (r : Registry) (mem : Nat → UInt8)
    (addr size : Nat) (zeroed empty : Bool) (faults : CreateFaults) (allocs : BasePoolAllocs) :
    Events :=
  if faults.init then []
  else if addr = 0 ∨ size < c.poolMinimalSize then []
  else
    (if r.basePoolInitialized then [] else allocs.boot.flatMap systemAllocEvents) ++
      match mallocInitBasePool base r faults.basePool with
      | (_, true) => []
      | (r, false) =>
          let id := unusedId 1 (r.pools.drop 1)
          let grow : SystemAlloc :=
            if faults.grow then .failed else if allocs.room then .room else .mapped
          locked .poolsLock
            ((if id = r.pools.length ∧ r.pools.length < poolsMax then systemAllocEvents grow
              else []) ++
              match growPools r id faults.grow with
              | none => []
              | some _ =>
                  if id = poolsMax then []
                  else if empty then poolCreateEmptyEvents c mem addr size zeroed faults.poolNew
                  else poolOpenEvents faults.poolNew)

/-- `je_pool_delete`, whether it knows the handle or not. -/
def jePoolDeleteEvents : Events := locked .poolsLock []

/-- The end of `je_pool_extend`: `chunk_record` runs under `memory_range_mtx`. -/
def poolExtendFinishEvents (c : Config) (p : Pool) (addr size start : Nat) (zeroed : Bool) :
    Events :=
  let usableAddr := c.chunkCeiling start
  locked (.memoryRangeMtx .pool)
    (chunkRecordEvents c p usableAddr (usableSizeOf c addr size usableAddr) zeroed)

/-- `je_pool_extend` when the existing chunks did not suffice for the metadata. -/
def poolExtendFallbackEvents (c : Config) (p : Pool) (missing : Nat) (node : Option Nat)
    (addr size : Nat) (zeroed : Bool) : Events :=
  let p := { p with
    baseNextAddr := cachelineCeiling addr
    basePastAddr := Word.add addr size }
  let q := (baseNodePrealloc c p missing).1
  let r := if node.isNone then (baseAlloc c q c.sizeofRangeNode).1 else q
  let usableAddr := c.chunkCeiling r.baseNextAddr
  locked (.baseMtx .pool) [] ++
    (if 0 < missing then baseNodePreallocEvents c p missing else []) ++
    (if node.isNone then baseAllocEvents c q c.sizeofRangeNode else []) ++
    poolExtendFinishEvents c { r with basePastAddr := usableAddr } addr size usableAddr zeroed

/-- `je_pool_extend`. -/
def jePoolExtendEvents (c : Config) (p : Pool) (addr size : Nat) (zeroed : Bool) : Events :=
  if size < c.poolMinimalSize then []
  else
    let prealloc := baseNodePrealloc c p (size / c.chunksize)
    let range := baseAlloc c prealloc.1 c.sizeofRangeNode
    baseNodePreallocEvents c p (size / c.chunksize) ++
      baseAllocEvents c prealloc.1 c.sizeofRangeNode ++
      if 0 < prealloc.2 ∨ range.2 = none then
        poolExtendFallbackEvents c range.1 prealloc.2 range.2 addr size zeroed
      else poolExtendFinishEvents c range.1 addr size addr zeroed

/-- `huge_palloc`. -/
def hugePallocEvents (c : Config) (p : Pool) (arena : Option Nat) (size alignment : Nat)
    (zero rtreeFails : Bool) : Events :=
  let csize := c.chunkCeiling size
  if csize = 0 ∨ arena = none then []
  else
    baseNodeEvents ++
      match baseNodeAlloc p with
      | (_, none) => []
      | (p, some _) =>
          chunkAllocArenaEvents c p 0 csize alignment zero rtreeFails ++
            match arenaChunkAllocHuge c p 0 csize alignment zero rtreeFails with
            | (_, none) => baseNodeEvents
            | (_, some _) => []

/-- A huge allocation through `je_pool_malloc` and its kin: `choose_arena` may initialise a new
arena, which takes base allocations. -/
def poolHugeAllocEvents (c : Config) (p : Pool) (newArena : Bool) (arena : Option Nat)
    (size alignment : Nat) (zero rtreeFails : Bool) : Events :=
  -- a size that wraps is refused before an arena is chosen
  let newArena := newArena && decide (c.chunkCeiling size ≠ 0)
  let q := if newArena then (baseAllocAll c p c.arenaAllocs).1 else p
  (if newArena then baseAllocAllEvents c p c.arenaAllocs else []) ++
    hugePallocEvents c q arena size alignment zero rtreeFails

/-- The calls into the pool layer. -/
inductive PoolCall
  | create (mem : Nat → UInt8) (addr size : Nat) (zeroed empty : Bool) (faults : CreateFaults)
      (allocs : BasePoolAllocs)
  | delete (handle : Nat)
  | extend (addr size : Nat) (zeroed : Bool)
  | hugeAlloc (newArena : Bool) (arena : Option Nat) (size alignment : Nat)
      (zero rtreeFails : Bool)

/-- What a call does with the mutexes, given the registry and the pool it is made on. -/
def PoolCall.events (c : Config) (base : Nat) (r : Registry) (p : Pool) : PoolCall → Events
  | .create mem addr size zeroed empty faults allocs =>
      jePoolCreateEvents c base r mem addr size zeroed empty faults allocs
  | .delete _ => jePoolDeleteEvents
  | .extend addr size zeroed => jePoolExtendEvents c p addr size zeroed
  | .hugeAlloc newArena arena size alignment zero rtreeFails =>
      poolHugeAllocEvents c p newArena arena size alignment zero rtreeFails

end Jemalloc
end Vmem
