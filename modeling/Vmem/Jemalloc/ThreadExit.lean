import Vmem.Library.Cells
import Vmem.Library.Run
import Vmem.Jemalloc.ThreadArraySteps

/-!
# Thread exit

One thread whose arrays of arenas and of thread caches are memory that it gets from
`base_malloc_fn` and gives back with `base_free_fn`.  Its destructors release the arrays
and set `npools` to zero, but leave the pointers as they are; a call that comes afterwards
finds no element for its pool and obtains new arrays.

What `base_malloc_fn` returns is chosen by the environment, as are the pools of the
process, which other threads create and delete.
-/

namespace Vmem
namespace Jemalloc

/-- `tsd_pool_t` or `tsd_tcache_t`, with the addresses of its two arrays. -/
structure TsdOwned (α : Type) where
  /-- `npools` and what the arrays hold. -/
  arrays : TsdArrays α
  seqno : Option Nat
  /-- `arenas` or `tcaches`. -/
  slots : Option Nat
  deriving DecidableEq

/-- What the two calls of `base_malloc_fn` in an extension return. -/
structure Mallocs where
  seqno : Option Nat
  slots : Option Nat
  deriving DecidableEq

/-- A pool as a call finds it. -/
structure PoolView where
  pool : Nat
  birth : Nat
  poolId : Nat
  seqno : Nat
  /-- `nthreads` of its arenas. -/
  arenas : List (Option Nat)

/-! ## The arrays -/

/-- `base_malloc_fn`.  There is no step if the address is still in use. -/
def baseMallocFn (cells : List Cell) (address : Option Nat) : Option (List Cell × Option Nat) :=
  match address with
  | none => some (cells, none)
  | some a => if a ∈ Cell.inUse cells then none else some (Cell.obtain cells a, some a)

/-- `base_free_fn`. -/
def baseFreeFn (cells : List Cell) (pointer : Option Nat) : List Cell :=
  pointer.elim cells (Cell.release cells)

/-- Elements of an array are read or written. -/
def touch (cells : List Cell) (pointer : Option Nat) : List Cell :=
  pointer.elim cells (Cell.access cells)

/-- `memcpy` of the first `count` elements of an array. -/
def memcpyFrom (cells : List Cell) (pointer : Option Nat) (count : Nat) : List Cell :=
  if count = 0 then cells else touch cells pointer

/-- `arenas_tsd_extend` or `tcache_tsd_extend`; the result is whether it failed. -/
def tsdExtend {α : Type} (cells : List Cell) (tsd : TsdOwned α) (len : Nat) (blank : α)
    (mallocs : Mallocs) : Option (List Cell × TsdOwned α × Bool) :=
  match baseMallocFn cells mallocs.seqno with
  | none => none
  | some (cells, none) => some (cells, tsd, true)
  | some (cells, some tseqno) =>
      let cells := memcpyFrom cells tsd.seqno tsd.arrays.npools
      match baseMallocFn cells mallocs.slots with
      | none => none
      | some (cells, none) => some (baseFreeFn cells (some tseqno), tsd, true)
      | some (cells, some tslots) =>
          let cells := memcpyFrom cells tsd.slots tsd.arrays.npools
          let cells := baseFreeFn (baseFreeFn cells tsd.seqno) tsd.slots
          some (cells, ⟨tsd.arrays.extend len blank, some tseqno, some tslots⟩, false)

/-- The arrays are extended if they have no element for the pool id. -/
def tsdReach {α : Type} (cells : List Cell) (tsd : TsdOwned α) (id : Nat) (blank : α)
    (mallocs : Mallocs) : Option (List Cell × TsdOwned α × Bool) :=
  if tsd.arrays.npools ≤ id then tsdExtend cells tsd id blank mallocs
  else some (cells, tsd, false)

/-- `base_free_fn` of both arrays, and `npools = 0`. -/
def tsdRelease {α : Type} (cells : List Cell) (tsd : TsdOwned α) : List Cell × TsdOwned α :=
  (baseFreeFn (baseFreeFn cells tsd.seqno) tsd.slots, { tsd with arrays := TsdArrays.none_ })

/-- The thread, and what it obtained from `base_malloc_fn`. -/
structure ExitThread where
  cells : List Cell
  arenas : TsdOwned (Option ArenaRef)
  tcaches : TsdOwned TcacheSlot
  /-- `tcache_enabled`, once it is not the default any more. -/
  tcacheEnabled : Option Bool
  /-- Whether `arenas_cleanup` has run. -/
  arenasCleaned : Bool
  /-- Whether `tcache_thread_cleanup` has run. -/
  tcachesCleaned : Bool
  /-- The caches created after `tcache_thread_cleanup`. -/
  lateCaches : Nat

/-- A thread that has not called the allocator. -/
def ExitThread.fresh : ExitThread where
  cells := []
  arenas := ⟨TsdArrays.none_, none, none⟩
  tcaches := ⟨TsdArrays.none_, none, none⟩
  tcacheEnabled := none
  arenasCleaned := false
  tcachesCleaned := false
  lateCaches := 0

namespace ExitThread

/-! ## Choosing an arena -/

/-- `choose_arena_hard`. -/
def chooseArenaHard (t : ExitThread) (p : PoolView) (extendFails : Bool) :
    Option (ExitThread × Option ArenaRef) :=
  let arena : ArenaRef := ⟨p.pool, p.birth, (Jemalloc.chooseArenaHard p.arenas extendFails).2⟩
  (t.arenas.arrays.store p.poolId p.seqno (some arena)).map fun arrays =>
    ({ t with
        cells := touch (touch t.cells t.arenas.seqno) t.arenas.slots
        arenas := { t.arenas with arrays := arrays } }, some arena)

/-- `choose_arena` with arrays that have an element for the pool. -/
def chooseArenaFrom (t : ExitThread) (p : PoolView) (extendFails : Bool) :
    Option (ExitThread × Option ArenaRef) :=
  match t.arenas.arrays.seqnoAt p.poolId with
  | none => none
  | some seqno =>
      let t := { t with cells := touch t.cells t.arenas.seqno }
      if seqno ≠ p.seqno then t.chooseArenaHard p extendFails
      else
        let t := { t with cells := touch t.cells t.arenas.slots }
        match t.arenas.arrays.slotAt p.poolId with
        | none => none
        | some none => t.chooseArenaHard p extendFails
        | some (some arena) => some (t, some arena)

/-- `choose_arena` with a dummy arena of the pool. -/
def chooseArena (t : ExitThread) (p : PoolView) (extendFails : Bool) (mallocs : Mallocs) :
    Option (ExitThread × Option ArenaRef) :=
  match tsdReach t.cells t.arenas p.poolId none mallocs with
  | none => none
  | some (cells, arenas, true) => some ({ t with cells := cells, arenas := arenas }, none)
  | some (cells, arenas, false) =>
      chooseArenaFrom { t with cells := cells, arenas := arenas } p extendFails

/-! ## Caches -/

/-- The loop of `tcache_enabled_set` from index `i` on: what the elements become, and the
caches that are destroyed. -/
def tcacheEnabledLoop (pools : Nat → Option Nat) (enabled : Bool) (tsd : TsdOwned TcacheSlot) :
    List Cell → Nat → List (Nat × TcacheSlot) → List Cell × List TcacheSlot × List ArenaRef
  | cells, _, [] => (cells, [], [])
  | cells, i, (seqno, slot) :: rest =>
      let cells := touch cells tsd.slots
      match slot, enabled with
      | .disabled, true =>
          let (cells, slots, destroyed) := tcacheEnabledLoop pools enabled tsd cells (i + 1) rest
          (cells, .null :: slots, destroyed)
      | .cache a, false =>
          let cells := if (pools i).isSome then touch cells tsd.seqno else cells
          let (cells, slots, destroyed) := tcacheEnabledLoop pools enabled tsd cells (i + 1) rest
          (cells, .disabled :: slots, if pools i = some seqno then a :: destroyed else destroyed)
      | slot, _ =>
          let (cells, slots, destroyed) := tcacheEnabledLoop pools enabled tsd cells (i + 1) rest
          (cells, slot :: slots, destroyed)

/-- `tcache_enabled_set`; `pools i` is the sequence number of the pool with the id `i`. -/
def tcacheEnabledSet (t : ExitThread) (pools : Nat → Option Nat) (enabled : Bool) :
    ExitThread × List ArenaRef :=
  let (cells, slots, destroyed) := tcacheEnabledLoop pools enabled t.tcaches t.cells 0
    (t.tcaches.arrays.seqno.zip t.tcaches.arrays.slots)
  ({ t with
      tcacheEnabled := some enabled
      cells := cells
      tcaches := { t.tcaches with arrays := { t.tcaches.arrays with slots := slots } } }, destroyed)

/-- Write an element of the array of caches. -/
def storeCache (t : ExitThread) (p : PoolView) (slot : TcacheSlot) : Option ExitThread :=
  (t.tcaches.arrays.store p.poolId p.seqno slot).map fun arrays =>
    { t with
      cells := touch (touch t.cells t.tcaches.seqno) t.tcaches.slots
      tcaches := { t.tcaches with arrays := arrays } }

/-- `tcache_create`; the allocation of the cache may fail.  Without an arena there is no cache,
where the function would use the arena unchecked. -/
def tcacheCreate (t : ExitThread) (p : PoolView) (arena : Option ArenaRef) (fails : Bool) :
    Option (ExitThread × Option ArenaRef) :=
  match arena, fails with
  | none, _ | _, true => some (t, none)
  | some a, false =>
      (t.storeCache p (.cache a)).map fun t =>
        ({ t with lateCaches := t.lateCaches + if t.tcachesCleaned then 1 else 0 }, some a)

/-- What the environment decides in a call of `tcache_get`. -/
structure TcacheEnv where
  /-- For the array of caches. -/
  mallocs : Mallocs
  /-- For the array of arenas. -/
  arenaMallocs : Mallocs
  /-- `arenas_extend` fails. -/
  extendFails : Bool
  /-- The allocation of the cache fails. -/
  createFails : Bool
  pools : Nat → Option Nat

/-- `tcache_get_hard`. -/
def tcacheGetHard (optTcache : Bool) (t : ExitThread) (slot : TcacheSlot) (p : PoolView)
    (create : Bool) (env : TcacheEnv) : Option (ExitThread × Option ArenaRef) :=
  match slot with
  | .null =>
      if create = false then some (t, none)
      else if t.tcacheEnabled.getD optTcache = false then
        some ((t.tcacheEnabledSet env.pools false).1, none)
      else
        match chooseArena { t with tcacheEnabled := some true } p env.extendFails
            env.arenaMallocs with
        | none => none
        | some (t, arena) => t.tcacheCreate p arena env.createFails
  | .purgatory => (t.storeCache p .reincarnated).map fun t => (t, none)
  | .disabled | .reincarnated | .cache _ => some (t, none)

/-- `tcache_get` with arrays that have an element for the pool. -/
def tcacheGetFrom (optTcache : Bool) (t : ExitThread) (p : PoolView) (create : Bool)
    (env : TcacheEnv) : Option (ExitThread × Option ArenaRef) :=
  match t.tcaches.arrays.seqnoAt p.poolId, t.tcaches.arrays.slotAt p.poolId with
  | some seqno, some slot =>
      let t := { t with cells := touch (touch t.cells t.tcaches.seqno) t.tcaches.slots }
      -- the element of another pool with the same id is dropped
      let arrays := { t.tcaches.arrays with slots := t.tcaches.arrays.slots.set p.poolId .null }
      if seqno ≠ p.seqno then
        tcacheGetHard optTcache { t with tcaches := { t.tcaches with arrays := arrays } } .null p
          create env
      else
        match slot with
        | .disabled => some (t, none)
        | .cache a => some (t, some a)
        | slot => tcacheGetHard optTcache t slot p create env
  | _, _ => none

/-- `tcache_get`. -/
def tcacheGet (optTcache : Bool) (t : ExitThread) (p : PoolView) (create : Bool)
    (env : TcacheEnv) : Option (ExitThread × Option ArenaRef) :=
  -- an id of UINT_MAX is refused
  let mallocs := if p.poolId = uintMax then ⟨none, none⟩ else env.mallocs
  match tsdReach t.cells t.tcaches p.poolId .null mallocs with
  | none => none
  | some (cells, tcaches, true) => some ({ t with cells := cells, tcaches := tcaches }, none)
  | some (cells, tcaches, false) =>
      tcacheGetFrom optTcache { t with cells := cells, tcaches := tcaches } p create env

/-! ## Destructors -/

/-- The loop of `arenas_cleanup` from index `i` on, with the arenas whose `nthreads` is
decremented. -/
def arenasCleanupLoop (pools : Nat → Option Nat) (tsd : TsdOwned (Option ArenaRef)) :
    List Cell → Nat → List (Nat × Option ArenaRef) → List Cell × List ArenaRef
  | cells, _, [] => (cells, [])
  | cells, i, (seqno, slot) :: rest =>
      match pools i with
      | none => arenasCleanupLoop pools tsd cells (i + 1) rest
      | some number =>
          let cells := touch cells tsd.seqno
          if number = seqno then
            let (cells, left) :=
              arenasCleanupLoop pools tsd (touch cells tsd.slots) (i + 1) rest
            (cells, slot.toList ++ left)
          else arenasCleanupLoop pools tsd cells (i + 1) rest

/-- `arenas_cleanup`. -/
def arenasCleanup (t : ExitThread) (pools : Nat → Option Nat) : ExitThread × List ArenaRef :=
  let (cells, left) := arenasCleanupLoop pools t.arenas t.cells 0
    (t.arenas.arrays.seqno.zip t.arenas.arrays.slots)
  let (cells, arenas) := tsdRelease cells t.arenas
  ({ t with cells := cells, arenas := arenas, arenasCleaned := true }, left)

/-- The loop of `tcache_thread_cleanup` from index `i` on, with the caches that are
destroyed.  What it writes to the array is gone with the array. -/
def tcacheCleanupLoop (pools : Nat → Option Nat) (tsd : TsdOwned TcacheSlot) :
    List Cell → Nat → List (Nat × TcacheSlot) → List Cell × List ArenaRef
  | cells, _, [] => (cells, [])
  | cells, i, (seqno, slot) :: rest =>
      let cells := touch cells tsd.slots
      match slot with
      | .null | .disabled | .purgatory | .reincarnated =>
          tcacheCleanupLoop pools tsd cells (i + 1) rest
      | .cache a =>
          let cells := if (pools i).isSome then touch cells tsd.seqno else cells
          let (cells, destroyed) := tcacheCleanupLoop pools tsd cells (i + 1) rest
          (cells, if pools i = some seqno then a :: destroyed else destroyed)

/-- `tcache_thread_cleanup`. -/
def tcacheThreadCleanup (t : ExitThread) (pools : Nat → Option Nat) :
    ExitThread × List ArenaRef :=
  let (cells, destroyed) := tcacheCleanupLoop pools t.tcaches t.cells 0
    (t.tcaches.arrays.seqno.zip t.tcaches.arrays.slots)
  let (cells, tcaches) := tsdRelease cells t.tcaches
  ({ t with cells := cells, tcaches := tcaches, tcachesCleaned := true }, destroyed)

end ExitThread

/-! ## Runs -/

/-- What the thread does next. -/
inductive ExitOp
  | chooseArena (p : PoolView) (extendFails : Bool) (mallocs : Mallocs)
  | tcacheGet (p : PoolView) (create : Bool) (env : ExitThread.TcacheEnv)
  | tcacheEnabledSet (pools : Nat → Option Nat) (enabled : Bool)
  | arenasCleanup (pools : Nat → Option Nat)
  | tcacheThreadCleanup (pools : Nat → Option Nat)

namespace ExitThread

/-- One call. -/
def step (optTcache : Bool) (t : ExitThread) : ExitOp → Option ExitThread
  | .chooseArena p extendFails mallocs => (t.chooseArena p extendFails mallocs).map Prod.fst
  | .tcacheGet p create env => (t.tcacheGet optTcache p create env).map Prod.fst
  | .tcacheEnabledSet pools enabled => some (t.tcacheEnabledSet pools enabled).1
  | .arenasCleanup pools => some (t.arenasCleanup pools).1
  | .tcacheThreadCleanup pools => some (t.tcacheThreadCleanup pools).1

/-- Pool ids are below `POOLS_MAX`. -/
def Permitted : ExitOp → Prop
  | .chooseArena p _ _ | .tcacheGet p _ _ => p.poolId < poolsMax
  | .tcacheEnabledSet _ _ | .arenasCleanup _ | .tcacheThreadCleanup _ => True

/-- A call that comes after a destructor does not obtain the arrays that the destructor is
to release, and a destructor that has released arrays does not run again. -/
def Final (t : ExitThread) : ExitOp → Prop
  | .chooseArena _ _ mallocs =>
      t.arenasCleaned = true → mallocs.seqno = none ∨ mallocs.slots = none
  | .tcacheGet _ _ env =>
      (t.tcachesCleaned = true → env.mallocs.seqno = none ∨ env.mallocs.slots = none) ∧
        (t.arenasCleaned = true → env.arenaMallocs.seqno = none ∨ env.arenaMallocs.slots = none)
  | .tcacheEnabledSet _ _ => True
  | .arenasCleanup _ => t.arenasCleaned = true → t.arenas.seqno = none
  | .tcacheThreadCleanup _ => t.tcachesCleaned = true → t.tcaches.seqno = none

instance (op : ExitOp) : Decidable (Permitted op) :=
  match op with
  | .chooseArena p _ _ | .tcacheGet p _ _ => inferInstanceAs (Decidable (p.poolId < poolsMax))
  | .tcacheEnabledSet _ _ | .arenasCleanup _ | .tcacheThreadCleanup _ =>
      inferInstanceAs (Decidable True)

instance (t : ExitThread) (op : ExitOp) : Decidable (t.Final op) :=
  match op with
  | .chooseArena _ _ mallocs => inferInstanceAs (Decidable (t.arenasCleaned = true →
      mallocs.seqno = none ∨ mallocs.slots = none))
  | .tcacheGet _ _ env => inferInstanceAs (Decidable ((t.tcachesCleaned = true →
        env.mallocs.seqno = none ∨ env.mallocs.slots = none) ∧
      (t.arenasCleaned = true → env.arenaMallocs.seqno = none ∨ env.arenaMallocs.slots = none)))
  | .tcacheEnabledSet _ _ => inferInstanceAs (Decidable True)
  | .arenasCleanup _ =>
      inferInstanceAs (Decidable (t.arenasCleaned = true → t.arenas.seqno = none))
  | .tcacheThreadCleanup _ =>
      inferInstanceAs (Decidable (t.tcachesCleaned = true → t.tcaches.seqno = none))

end ExitThread

end Jemalloc
end Vmem
