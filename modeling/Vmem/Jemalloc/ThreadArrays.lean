import Vmem.Jemalloc.Registry

/-!
# The arrays of a thread

Every thread has an array of arenas and an array of thread caches, both indexed by
pool id and both with the sequence number of the pool that an entry is for.  An
access to an element that is not there is `none`.

A run is made of calls on the registry and of steps of threads.  Within a thread,
`choose_arena` and `tcache_get` are cut where they take a lock, call a function that
can fail, or go on to another function; the arrays themselves are the thread's own.
An arena is named by the pool it belongs to, by the number of the creation of that
pool and by its index, so that arenas of pools that had the same address at different
times are different.
-/

namespace Vmem
namespace Jemalloc

/-- An arena of one incarnation of a pool. -/
structure ArenaRef where
  /-- `arena->pool`. -/
  pool : Nat
  /-- Which creation of a pool it belongs to. -/
  birth : Nat
  index : Nat
  deriving DecidableEq

/-- An element of `tsd->tcaches`. -/
inductive TcacheSlot
  | null
  /-- `TCACHE_STATE_DISABLED`. -/
  | disabled
  /-- `TCACHE_STATE_REINCARNATED`. -/
  | reincarnated
  /-- `TCACHE_STATE_PURGATORY`. -/
  | purgatory
  /-- A cache, with the arena it was created in. -/
  | cache (arena : ArenaRef)
  deriving DecidableEq

/-- `tsd_pool_t` and `tsd_tcache_t`. -/
structure TsdArrays (α : Type) where
  npools : Nat
  seqno : List Nat
  /-- `arenas` or `tcaches`. -/
  slots : List α
  deriving DecidableEq

/-- `__builtin_clz` of a number that is not zero. -/
def builtinClz (x : Nat) : Nat := 31 - Nat.log2 x

/-- The length that `arenas_tsd_extend` and `tcache_tsd_extend` choose. -/
def tsdExtendLength (len : Nat) : Nat :=
  max (2 ^ (32 - builtinClz (len + 1))) poolsMin

namespace TsdArrays

variable {α : Type}

/-- `tsd->seqno[i]`. -/
def seqnoAt (tsd : TsdArrays α) (i : Nat) : Option Nat :=
  if i < tsd.npools then tsd.seqno[i]? else none

/-- `tsd->arenas[i]` or `tsd->tcaches[i]`. -/
def slotAt (tsd : TsdArrays α) (i : Nat) : Option α :=
  if i < tsd.npools then tsd.slots[i]? else none

/-- Write `tsd->arenas[i]` or `tsd->tcaches[i]`. -/
def setSlot (tsd : TsdArrays α) (i : Nat) (value : α) : Option (TsdArrays α) :=
  if i < tsd.npools then some { tsd with slots := tsd.slots.set i value } else none

/-- Write `tsd->seqno[i]` and the other element. -/
def store (tsd : TsdArrays α) (i seqno : Nat) (value : α) : Option (TsdArrays α) :=
  if i < tsd.npools then
    some { tsd with seqno := tsd.seqno.set i seqno, slots := tsd.slots.set i value }
  else none

/-- `arenas_tsd_extend` or `tcache_tsd_extend`, unless `base_malloc_fn` fails. -/
def extend (tsd : TsdArrays α) (len : Nat) (blank : α) : TsdArrays α :=
  let npools := tsdExtendLength len
  { npools := npools
    seqno := tsd.seqno ++ List.replicate (npools - tsd.npools) 0
    slots := tsd.slots ++ List.replicate (npools - tsd.npools) blank }

/-- No arrays. -/
def none_ : TsdArrays α := ⟨0, [], []⟩

end TsdArrays

/-! ## Threads -/

/-- What a thread does with the result of `choose_arena`. -/
inductive ArenaCont
  | return_
  /-- It is the argument of `tcache_create`. -/
  | tcacheCreate
  deriving DecidableEq

/-- Where a thread stands, in a call on the pool `p`. -/
inductive ThreadPc
  | idle
  /-- `choose_arena` before it looks at the length of the array. -/
  | arenaEnter (p : Nat) (k : ArenaCont)
  /-- `choose_arena` before it compares the sequence numbers. -/
  | arenaCompare (p : Nat) (k : ArenaCont)
  /-- `choose_arena_hard` before it takes `arenas_lock`. -/
  | arenaHard (p : Nat) (k : ArenaCont)
  /-- `choose_arena_hard` before it writes to the arrays. -/
  | arenaStore (p : Nat) (arena : ArenaRef) (k : ArenaCont)
  /-- `choose_arena` has returned. -/
  | arenaReturned (p : Nat) (arena : Option ArenaRef)
  /-- `tcache_get` before it looks at the length of the array. -/
  | tcacheEnter (p : Nat) (create : Bool)
  /-- `tcache_get` before it compares the sequence numbers. -/
  | tcacheCompare (p : Nat) (create : Bool)
  /-- `tcache_get` before it reads the cache. -/
  | tcacheRead (p : Nat) (create : Bool)
  /-- `tcache_create` before it allocates. -/
  | tcacheCreate (p : Nat) (arena : Option ArenaRef)
  /-- `tcache_create` before it writes to the arrays. -/
  | tcacheStore (p : Nat) (arena : ArenaRef)
  /-- `tcache_get` has returned. -/
  | tcacheReturned (p : Nat) (cache : Option ArenaRef)
  deriving DecidableEq

namespace ThreadPc

/-- The pool of the call. -/
def pool : ThreadPc → Option Nat
  | idle => none
  | arenaEnter p _ | arenaCompare p _ | arenaHard p _ | arenaStore p _ _ | arenaReturned p _
  | tcacheEnter p _ | tcacheCompare p _ | tcacheRead p _ | tcacheCreate p _ | tcacheStore p _
  | tcacheReturned p _ => some p

/-- A call has returned. -/
def returned : ThreadPc → Bool
  | arenaReturned _ _ | tcacheReturned _ _ => true
  | _ => false

end ThreadPc

/-- `choose_arena` returns. -/
def ArenaCont.resume (p : Nat) (arena : Option ArenaRef) : ArenaCont → ThreadPc
  | return_ => .arenaReturned p arena
  | tcacheCreate => .tcacheCreate p arena

/-- A thread. -/
structure Thread where
  pc : ThreadPc
  arenas : TsdArrays (Option ArenaRef)
  tcaches : TsdArrays TcacheSlot
  /-- `tcache_enabled`, once it is not the default any more. -/
  tcacheEnabled : Option Bool
  /-- The pool id for which the array of arenas has been extended last. -/
  extendedFor : Option Nat

/-- A thread that has not called the allocator. -/
def Thread.fresh : Thread where
  pc := .idle
  arenas := TsdArrays.none_
  tcaches := TsdArrays.none_
  tcacheEnabled := none
  extendedFor := none

/-- The registry, the creations so far, the arenas of each incarnation with their
`nthreads`, and the threads. -/
structure Machine where
  registry : Registry
  births : Nat
  /-- The last creation at an address. -/
  birth : Nat → Nat
  /-- The address of a creation. -/
  site : Nat → Nat
  arenas : Nat → List (Option Nat)
  threads : List Thread

/-! ## Choosing an arena -/

/-- `arenas[i]->nthreads`. -/
def nthreadsAt (arenas : List (Option Nat)) (i : Nat) : Nat := (arenas[i]?.join).getD 0

/-- The loop of `choose_arena_hard`: the least loaded arena and the first index
without an arena. -/
def scanArenas (arenas : List (Option Nat)) : Nat → Nat → Nat × Nat → Nat × Nat
  | _, 0, found => found
  | i, remaining + 1, (choose, firstNull) =>
      match arenas[i]?.join with
      | some nthreads =>
          scanArenas arenas (i + 1) remaining
            (if nthreads < nthreadsAt arenas choose then i else choose, firstNull)
      | none =>
          scanArenas arenas (i + 1) remaining
            (choose, if firstNull = arenas.length then i else firstNull)

/-- `choose_arena_hard` under `arenas_lock`: the arenas afterwards and the index of
the one that was chosen.  `arenas_extend` may fail. -/
def chooseArenaHard (arenas : List (Option Nat)) (extendFails : Bool) : List (Option Nat) × Nat :=
  let (arenas, index) :=
    if arenas.length > 1 then
      let (choose, firstNull) := scanArenas arenas 1 (arenas.length - 1) (0, arenas.length)
      if nthreadsAt arenas choose = 0 ∨ firstNull = arenas.length then (arenas, choose)
      else if extendFails then (arenas, 0)
      else (arenas.set firstNull (some 0), firstNull)
    else (arenas, 0)
  (arenas.modify index (Option.map (· + 1)), index)

/-! ## Loops over the arrays -/

/-- `tsd->arenas[i]->nthreads--`. -/
def releaseArena (arenas : Nat → List (Option Nat)) (a : ArenaRef) : Nat → List (Option Nat) :=
  Function.update arenas a.birth ((arenas a.birth).modify a.index (Option.map (· - 1)))

/-- The loop of `arenas_cleanup` from index `i` on. -/
def arenasCleanupLoop (r : Registry) (tsd : TsdArrays (Option ArenaRef)) :
    (Nat → List (Option Nat)) → Nat → Nat → Option (Nat → List (Option Nat))
  | arenas, _, 0 => some arenas
  | arenas, i, remaining + 1 =>
      match r.pools[i]? with
      | none => none
      | some none => arenasCleanupLoop r tsd arenas (i + 1) remaining
      | some (some pool) =>
          match tsd.seqnoAt i, tsd.slotAt i with
          | some seqno, some (some a) =>
              arenasCleanupLoop r tsd
                (if (r.header pool).seqno = seqno then releaseArena arenas a else arenas)
                (i + 1) remaining
          | some _, some none => arenasCleanupLoop r tsd arenas (i + 1) remaining
          | _, _ => none

/-- Whether `pools[i] != NULL && tsd->seqno[i] == pools[i]->seqno` can be evaluated. -/
def poolMatches (r : Registry) (tsd : TsdArrays TcacheSlot) (i : Nat) : Option Bool :=
  match r.pools[i]? with
  | none => none
  | some none => some false
  | some (some pool) => (tsd.seqnoAt i).map fun seqno => decide (seqno = (r.header pool).seqno)

/-- The loop of `tcache_thread_cleanup` from index `i` on. -/
def tcacheCleanupLoop (r : Registry) :
    TsdArrays TcacheSlot → Nat → Nat → Option (TsdArrays TcacheSlot)
  | tsd, _, 0 => some tsd
  | tsd, i, remaining + 1 =>
      match tsd.slotAt i with
      | none => none
      | some .null | some .disabled | some .purgatory => tcacheCleanupLoop r tsd (i + 1) remaining
      | some .reincarnated =>
          match tsd.setSlot i .purgatory with
          | none => none
          | some tsd => tcacheCleanupLoop r tsd (i + 1) remaining
      | some (.cache _) =>
          -- the cache is destroyed if its pool is still there
          match poolMatches r tsd i with
          | none => none
          | some _ =>
              match tsd.setSlot i .purgatory with
              | none => none
              | some tsd => tcacheCleanupLoop r tsd (i + 1) remaining

/-- The loop of `tcache_enabled_set` from index `i` on. -/
def tcacheEnabledLoop (r : Registry) (enabled : Bool) :
    TsdArrays TcacheSlot → Nat → Nat → Option (TsdArrays TcacheSlot)
  | tsd, _, 0 => some tsd
  | tsd, i, remaining + 1 =>
      match tsd.slotAt i with
      | none => none
      | some .null | some .purgatory | some .reincarnated =>
          tcacheEnabledLoop r enabled tsd (i + 1) remaining
      | some .disabled =>
          if enabled then
            match tsd.setSlot i .null with
            | none => none
            | some tsd => tcacheEnabledLoop r enabled tsd (i + 1) remaining
          else tcacheEnabledLoop r enabled tsd (i + 1) remaining
      | some (.cache _) =>
          if enabled then tcacheEnabledLoop r enabled tsd (i + 1) remaining
          else
            match poolMatches r tsd i with
            | none => none
            | some _ =>
                match tsd.setSlot i .disabled with
                | none => none
                | some tsd => tcacheEnabledLoop r enabled tsd (i + 1) remaining

/-- `tcache_enabled_set`. -/
def tcacheEnabledSet (r : Registry) (t : Thread) (enabled : Bool) : Option Thread :=
  (tcacheEnabledLoop r enabled t.tcaches 0 t.tcaches.npools).map fun tcaches =>
    { t with tcacheEnabled := some enabled, tcaches := tcaches }

/-- `tcache_get_hard` with `tcache == NULL`. -/
def tcacheGetHard (optTcache : Bool) (r : Registry) (t : Thread) (p : Nat) (create : Bool) :
    Option Thread :=
  if create = false then some { t with pc := .tcacheReturned p none }
  else if t.tcacheEnabled.getD optTcache then
    some { t with tcacheEnabled := some true, pc := .arenaEnter p .tcacheCreate }
  else
    (tcacheEnabledSet r t false).map fun t => { t with pc := .tcacheReturned p none }

/-- The next step of a call.  Where `choose_arena` has failed there is no cache; `tcache_create`
itself does not check its arena. -/
def advanceThread (optTcache : Bool) (r : Registry) (birth : Nat → Nat)
    (arenas : Nat → List (Option Nat)) (t : Thread) (fails : Bool) :
    Option ((Nat → List (Option Nat)) × Thread) :=
  let stay (t : Option Thread) := t.map fun t => (arenas, t)
  match t.pc with
  | .idle => none
  | .arenaReturned _ _ | .tcacheReturned _ _ => none
  | .arenaEnter p k =>
      let id := (r.header p).poolId
      if t.arenas.npools ≤ id then
        if fails then stay (some { t with pc := k.resume p none })
        else stay (some { t with
          arenas := t.arenas.extend id none, extendedFor := some id, pc := .arenaCompare p k })
      else stay (some { t with pc := .arenaCompare p k })
  | .arenaCompare p k =>
      let id := (r.header p).poolId
      match t.arenas.seqnoAt id, t.arenas.slotAt id with
      | some seqno, some slot =>
          if seqno ≠ (r.header p).seqno ∨ slot = none then
            stay (some { t with pc := .arenaHard p k })
          else stay (some { t with pc := k.resume p slot })
      | _, _ => none
  | .arenaHard p k =>
      let (chosen, index) := chooseArenaHard (arenas (birth p)) fails
      some (Function.update arenas (birth p) chosen,
        { t with pc := .arenaStore p ⟨p, birth p, index⟩ k })
  | .arenaStore p a k =>
      stay ((t.arenas.store (r.header p).poolId (r.header p).seqno (some a)).map fun tsd =>
        { t with arenas := tsd, pc := k.resume p (some a) })
  | .tcacheEnter p create =>
      let id := (r.header p).poolId
      if t.tcaches.npools ≤ id then
        -- an id of UINT_MAX is refused
        if fails ∨ id = uintMax then stay (some { t with pc := .tcacheReturned p none })
        else stay (some { t with
          tcaches := t.tcaches.extend id .null, pc := .tcacheCompare p create })
      else stay (some { t with pc := .tcacheCompare p create })
  | .tcacheCompare p create =>
      let id := (r.header p).poolId
      match t.tcaches.seqnoAt id with
      | none => none
      | some seqno =>
          if seqno ≠ (r.header p).seqno then
            stay ((t.tcaches.setSlot id .null).map fun tsd =>
              { t with tcaches := tsd, pc := .tcacheRead p create })
          else stay (some { t with pc := .tcacheRead p create })
  | .tcacheRead p create =>
      let id := (r.header p).poolId
      match t.tcaches.slotAt id with
      | none => none
      | some (.cache a) => stay (some { t with pc := .tcacheReturned p (some a) })
      | some .disabled | some .reincarnated => stay (some { t with pc := .tcacheReturned p none })
      | some .purgatory =>
          stay ((t.tcaches.store id (r.header p).seqno .reincarnated).map fun tsd =>
            { t with tcaches := tsd, pc := .tcacheReturned p none })
      | some .null => stay (tcacheGetHard optTcache r t p create)
  | .tcacheCreate p arena =>
      match arena with
      | none => stay (some { t with pc := .tcacheReturned p none })
      | some a =>
          if fails then stay (some { t with pc := .tcacheReturned p none })
          else stay (some { t with pc := .tcacheStore p a })
  | .tcacheStore p a =>
      stay ((t.tcaches.store (r.header a.pool).poolId (r.header a.pool).seqno (.cache a)).map
        fun tsd => { t with tcaches := tsd, pc := .tcacheReturned p (some a) })

/-! ## Runs -/

/-- What a thread does next. -/
inductive ThreadOp
  /-- Call `choose_arena` with a dummy arena of the pool. -/
  | chooseArena (p : Nat)
  /-- Call `tcache_get`. -/
  | tcacheGet (p : Nat) (create : Bool)
  /-- The next step of the call; `fails` tells whether what it asks for is refused. -/
  | advance (fails : Bool)
  /-- Go on after a call. -/
  | leave
  | tcacheEnabledSet (enabled : Bool)
  | arenasCleanup
  | tcacheThreadCleanup

/-- What can happen next. -/
inductive MachineOp
  /-- A call on the registry, with the arenas of the pool if it creates one. -/
  | registry (op : RegistryOp) (arenas : List (Option Nat))
  | thread (i : Nat) (op : ThreadOp)

/-- One step of a thread. -/
def threadStep (optTcache : Bool) (s : Machine) (t : Thread) :
    ThreadOp → Option ((Nat → List (Option Nat)) × Thread)
  | .chooseArena p => some (s.arenas, { t with pc := .arenaEnter p .return_ })
  | .tcacheGet p create => some (s.arenas, { t with pc := .tcacheEnter p create })
  | .advance fails => advanceThread optTcache s.registry s.birth s.arenas t fails
  | .leave => some (s.arenas, { t with pc := .idle })
  | .tcacheEnabledSet enabled =>
      (tcacheEnabledSet s.registry t enabled).map fun t => (s.arenas, t)
  | .arenasCleanup =>
      (arenasCleanupLoop s.registry t.arenas s.arenas 0 t.arenas.npools).map fun arenas =>
        (arenas, { t with arenas := TsdArrays.none_, extendedFor := none })
  | .tcacheThreadCleanup =>
      (tcacheCleanupLoop s.registry t.tcaches 0 t.tcaches.npools).map fun _ =>
        (s.arenas, { t with tcaches := TsdArrays.none_ })

namespace Machine

/-- A call on the registry. -/
def registryStep (c : Config) (base : Nat) (s : Machine) (op : RegistryOp)
    (arenas : List (Option Nat)) : Machine :=
  match op with
  | .create addr size zeroed empty faults =>
      match jePoolCreate c base s.registry addr size zeroed empty faults with
      | (r, none) => { s with registry := r }
      | (r, some p) =>
          { s with
            registry := r
            births := s.births + 1
            birth := Function.update s.birth p s.births
            site := Function.update s.site s.births p
            arenas := Function.update s.arenas s.births arenas }
  | .delete p => { s with registry := (jePoolDelete s.registry p).1 }
  | .scribble p value => { s with registry := s.registry.setHeader p value }

/-- One step.  It is `none` if an array is accessed outside its bounds. -/
def step (c : Config) (base : Nat) (optTcache : Bool) (s : Machine) : MachineOp → Option Machine
  | .registry op arenas => some (s.registryStep c base op arenas)
  | .thread i op =>
      (s.threads[i]?.bind fun t => threadStep optTcache s t op).map fun (arenas, t) =>
        { s with arenas := arenas, threads := s.threads.set i t }

/-- What a thread may do next: it calls on registered pools. -/
def ThreadPermitted (r : Registry) (t : Thread) : ThreadOp → Prop
  | .chooseArena p | .tcacheGet p _ => t.pc = .idle ∧ r.Registered p
  | .advance _ => t.pc ≠ .idle ∧ t.pc.returned = false
  | .leave => t.pc.returned = true
  | .tcacheEnabledSet _ | .arenasCleanup | .tcacheThreadCleanup => t.pc = .idle

instance (r : Registry) (t : Thread) (op : ThreadOp) : Decidable (ThreadPermitted r t op) :=
  match op with
  | .chooseArena p | .tcacheGet p _ =>
      inferInstanceAs (Decidable (t.pc = .idle ∧ r.Registered p))
  | .advance _ => inferInstanceAs (Decidable (t.pc ≠ .idle ∧ t.pc.returned = false))
  | .leave => inferInstanceAs (Decidable (t.pc.returned = true))
  | .tcacheEnabledSet _ | .arenasCleanup | .tcacheThreadCleanup =>
      inferInstanceAs (Decidable (t.pc = .idle))

/-- What may be done to the registry while threads run: a pool is deleted when no
thread is inside a call on it, and there are fewer than 2^32 creations. -/
def RegistryPermitted (base : Nat) (s : Machine) (arenas : List (Option Nat)) : RegistryOp → Prop
  | .create addr size zeroed empty faults =>
      s.registry.Permitted base (.create addr size zeroed empty faults) ∧ s.births < 2 ^ 32 ∧
        arenas[0]?.join.isSome = true
  | .delete p => ∀ t ∈ s.threads, t.pc.pool ≠ some p
  | .scribble p value => s.registry.Permitted base (.scribble p value)

instance (base : Nat) (s : Machine) (arenas : List (Option Nat)) (op : RegistryOp) :
    Decidable (s.RegistryPermitted base arenas op) :=
  match op with
  | .create addr size zeroed empty faults =>
      inferInstanceAs (Decidable
        (s.registry.Permitted base (.create addr size zeroed empty faults) ∧
        s.births < 2 ^ 32 ∧ arenas[0]?.join.isSome = true))
  | .delete p => inferInstanceAs (Decidable (∀ t ∈ s.threads, t.pc.pool ≠ some p))
  | .scribble p value => inferInstanceAs (Decidable (s.registry.Permitted base (.scribble p value)))

/-- What may happen next. -/
def Permitted (base : Nat) (s : Machine) : MachineOp → Prop
  | .registry op arenas => s.RegistryPermitted base arenas op
  | .thread i op => ∃ t ∈ s.threads[i]?, ThreadPermitted s.registry t op

instance (base : Nat) (s : Machine) (op : MachineOp) : Decidable (s.Permitted base op) :=
  match op with
  | .registry op arenas => inferInstanceAs (Decidable (s.RegistryPermitted base arenas op))
  | .thread i op =>
      inferInstanceAs (Decidable (∃ t ∈ s.threads[i]?, ThreadPermitted s.registry t op))

/-- The base pool has just been set up. -/
def start (base : Nat) (header : Nat → PoolHeader) (baseArenas : List (Option Nat))
    (threads : Nat) : Machine where
  registry := (mallocInitBasePool base (Registry.start header) false).1
  births := 1
  birth := fun _ => 0
  site := fun _ => base
  arenas := fun _ => baseArenas
  threads := List.replicate threads Thread.fresh

end Machine

end Jemalloc
end Vmem
