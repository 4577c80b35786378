import Vmem.Library.Bytes
import Vmem.Jemalloc.Registry

/-!
# The registry in memory

A `pool_t` lies at the start of the memory that is given to `je_pool_create`, with
`pool_id` in its first four bytes and `seqno` in the next four.  Nothing keeps a caller
from giving memory that other pools lie in, and a stale handle is read like any other.

Where no pool is created over another one, the registry of `Registry`, with a header for
each handle, is what these functions show of the memory.
-/

namespace Vmem
namespace Jemalloc

/-- The globals around `pools`, and the memory that the pools lie in.  The array itself, like all
that `base_alloc` takes for the base pool, lies in pages from the system that are no part of it. -/
structure RegistryMemory where
  /-- `pools`; its length is `npools`. -/
  pools : List (Option Nat)
  npoolsCnt : Nat
  poolSeqno : Nat
  basePoolInitialized : Bool
  mem : Bytes

/-- The bytes of `pool_id` and `seqno` together. -/
def headerBytes : Nat := 8

namespace RegistryMemory

/-- `pool->pool_id` and `pool->seqno`. -/
def header (r : RegistryMemory) (p : Nat) : PoolHeader :=
  ⟨Bytes.load r.mem p 4, Bytes.load r.mem (p + 4) 4⟩

/-- The registry with the headers that are read from the memory. -/
def view (r : RegistryMemory) : Registry where
  pools := r.pools
  npoolsCnt := r.npoolsCnt
  poolSeqno := r.poolSeqno
  basePoolInitialized := r.basePoolInitialized
  header := r.header

/-- The pool is in the array. -/
def Registered (r : RegistryMemory) (p : Nat) : Prop := ∃ i : Nat, r.pools[i]? = some (some p)

instance (r : RegistryMemory) (p : Nat) : Decidable (r.Registered p) :=
  inferInstanceAs (Decidable (r.view.Registered p))

/-- `pool_boot`, as far as it concerns the registry. -/
def poolBoot (r : RegistryMemory) (p id : Nat) : RegistryMemory :=
  { r with mem := Bytes.store r.mem p id 4 }

/-- What else is written to the memory of a pool: anything, behind `pool_id` and `seqno`. -/
def fillRest (r : RegistryMemory) (p size : Nat) (contents : Bytes) : RegistryMemory :=
  { r with mem := Bytes.fill r.mem ⟨p + headerBytes, size - headerBytes⟩ contents }

/-- `pool->seqno = pool_seqno++; pools[pool_id] = pool; npools_cnt++`. -/
def register (r : RegistryMemory) (p id : Nat) : RegistryMemory where
  pools := r.pools.set id (some p)
  npoolsCnt := r.npoolsCnt + 1
  poolSeqno := (r.poolSeqno + 1) % 2 ^ 32
  basePoolInitialized := r.basePoolInitialized
  mem := Bytes.store r.mem (p + 4) r.poolSeqno 4

/-- `malloc_init_base_pool`, and whether it has failed. -/
def mallocInitBasePool (c : Config) (base : Nat) (r : RegistryMemory) (fails : Bool)
    (contents : Bytes) : RegistryMemory × Bool :=
  if r.basePoolInitialized then (r, false)
  else
    -- pool_new of the base pool
    let r := (r.poolBoot base 0).fillRest base c.sizeofPool contents
    if fails then (r, true)
    else
      ({ pools := some base :: List.replicate (poolsMin - 1) none
         npoolsCnt := r.npoolsCnt + 1
         poolSeqno := (r.poolSeqno + 1) % 2 ^ 32
         basePoolInitialized := true
         mem := Bytes.store r.mem (base + 4) ((r.poolSeqno + 1) % 2 ^ 32) 4 }, false)

/-- Double the array if there is no unused id, and whether that has failed.  `base_alloc`
changes the base pool. -/
def growPools (c : Config) (base : Nat) (r : RegistryMemory) (id : Nat) (fails : Bool)
    (contents : Bytes) : RegistryMemory × Bool :=
  if id = r.pools.length ∧ r.pools.length < poolsMax then
    let r := r.fillRest base c.sizeofPool contents
    if fails then (r, true)
    else ({ r with pools := r.pools ++ List.replicate r.pools.length none }, false)
  else (r, false)

/-- `pool_create_empty`, as far as it concerns the registry. -/
def poolCreateEmpty (c : Config) (r : RegistryMemory) (p size : Nat) (zeroed : Bool) (id : Nat)
    (fails : Bool) (contents : Bytes) : RegistryMemory × Option Nat :=
  let r := if zeroed then r
    else { r with mem := Bytes.fill r.mem ⟨p, c.sizeofPool⟩ fun _ => 0 }
  let r := (r.poolBoot p id).fillRest p size contents
  if fails then (r, none) else (r.register p id, some p)

/-- `pool_open`. -/
def poolOpen (r : RegistryMemory) (p size id : Nat) (fails : Bool) (contents : Bytes) :
    RegistryMemory × Option Nat :=
  let r := (r.poolBoot p id).fillRest p size contents
  if fails then (r, none) else (r.register p id, some p)

/-- `je_pool_create`.  The bytes that it leaves in the rest of the memory it is given, and in the
base pool, are `contents`. -/
def jePoolCreate (c : Config) (base : Nat) (r : RegistryMemory) (addr size : Nat)
    (zeroed empty : Bool) (faults : CreateFaults) (contents : Bytes) :
    RegistryMemory × Option Nat :=
  if faults.init then (r, none)
  else if addr = 0 ∨ size < c.poolMinimalSize then (r, none)
  else
    match mallocInitBasePool c base r faults.basePool contents with
    | (r, true) => (r, none)
    | (r, false) =>
        let id := unusedId 1 (r.pools.drop 1)
        match growPools c base r id faults.grow contents with
        | (r, true) => (r, none)
        | (r, false) =>
            if id = poolsMax then (r, none)
            else if empty then poolCreateEmpty c r addr size zeroed id faults.poolNew contents
            else poolOpen r addr size id faults.poolNew contents

/-- `je_pool_delete`. -/
def jePoolDelete (r : RegistryMemory) (p : Nat) : RegistryMemory × Int :=
  let id := (r.header p).poolId
  if id = 0 ∨ r.pools.length ≤ id ∨ r.pools[id]? ≠ some (some p) then (r, -1)
  else
    -- pool_destroy sets pool_id to an incorrect value
    ({ r with
      mem := Bytes.store r.mem p uintMax 4
      pools := r.pools.set id none
      npoolsCnt := r.npoolsCnt - 1 }, 0)

/-- `je_pool_check` reads the array and the header only. -/
def jePoolCheck (c : Config) (r : RegistryMemory) (handle : Nat) (p : Pool)
    (others : List (List MemoryRange)) (arenas : List (Option ArenaView)) : Int :=
  Jemalloc.jePoolCheck c r.view handle p others arenas

end RegistryMemory

/-! ## Runs -/

/-- A call, or a write to memory by anyone: the users of pools, the allocator at work in them,
`pool_destroy` when it gives up the locks of a pool. -/
inductive RegistryMemoryOp
  | create (addr size : Nat) (zeroed empty : Bool) (faults : CreateFaults) (contents : Bytes)
  | delete (p : Nat)
  | write (x : Nat) (byte : UInt8)

namespace RegistryMemory

/-- One call or write. -/
def exec (c : Config) (base : Nat) (r : RegistryMemory) :
    RegistryMemoryOp → Option RegistryMemory
  | .create addr size zeroed empty faults contents =>
      some (jePoolCreate c base r addr size zeroed empty faults contents).1
  | .delete p => some (jePoolDelete r p).1
  | .write x byte => some { r with mem := Function.update r.mem x byte }

/-- Before the first call. -/
def start (mem : Bytes) : RegistryMemory where
  pools := []
  npoolsCnt := 0
  poolSeqno := 0
  basePoolInitialized := false
  mem := mem

/-- No pool is created at the address of a registered one. -/
def NewAddress (base : Nat) (r : RegistryMemory) : RegistryMemoryOp → Prop
  | .create addr _ _ _ _ _ => addr ≠ base ∧ ¬r.Registered addr
  | .delete _ | .write _ _ => True

instance (base : Nat) (r : RegistryMemory) (op : RegistryMemoryOp) :
    Decidable (r.NewAddress base op) :=
  match op with
  | .create addr _ _ _ _ _ => inferInstanceAs (Decidable (addr ≠ base ∧ ¬r.Registered addr))
  | .delete _ | .write _ _ => inferInstanceAs (Decidable True)

/-- No pool is created over the `pool_t` of the base pool or of a registered one, and nobody else
writes to `pool_id` and `seqno` of a registered pool. -/
def ApartPermitted (c : Config) (base : Nat) (r : RegistryMemory) : RegistryMemoryOp → Prop
  | .create addr size _ _ _ _ =>
      (Span.mk addr size).Apart ⟨base, c.sizeofPool⟩ ∧
        ∀ entry ∈ r.pools, ∀ p ∈ entry, (Span.mk addr size).Apart ⟨p, c.sizeofPool⟩
  | .delete _ => True
  | .write x _ => ∀ entry ∈ r.pools, ∀ p ∈ entry, ¬(Span.mk p headerBytes).Has x

instance (c : Config) (base : Nat) (r : RegistryMemory) (op : RegistryMemoryOp) :
    Decidable (r.ApartPermitted c base op) :=
  match op with
  | .create .. => inferInstanceAs (Decidable ((_ ∨ _) ∧ ∀ entry ∈ r.pools, ∀ p ∈ entry, _ ∨ _))
  | .delete _ => inferInstanceAs (Decidable True)
  | .write _ _ => inferInstanceAs (Decidable (∀ entry ∈ r.pools, ∀ p ∈ entry, ¬_))

/-! ## Headers in memory -/

variable {c : Config} {base p q id size x : Nat} {r : RegistryMemory} {contents : Bytes}
  {h : Nat → PoolHeader}

theorem header_congr {r' : RegistryMemory}
    (same : ∀ x, (Span.mk p headerBytes).Has x → r'.mem x = r.mem x) :
    r'.header p = r.header p := by
  have part : ∀ at_, p ≤ at_ → at_ + 4 ≤ p + headerBytes →
      Bytes.load r'.mem at_ 4 = Bytes.load r.mem at_ 4 := by
    intro at_ lower upper
    refine Bytes.load_congr fun x inside => same x ?_
    rw [Span.has_mk] at inside ⊢
    omega
  unfold header
  rw [part p le_rfl (by unfold headerBytes; omega), part (p + 4) (by omega) le_rfl]

theorem header_poolBoot (small : id < 2 ^ 32) :
    (r.poolBoot p id).header p = ⟨id, (r.header p).seqno⟩ := by
  have seqno : (Span.mk p 4).Apart ⟨p + 4, 4⟩ := Or.inl le_rfl
  unfold header poolBoot
  dsimp only
  rw [Bytes.load_store (by simpa using small), Bytes.load_store_apart seqno]

theorem header_fillRest : (r.fillRest p size contents).header p = r.header p := by
  refine header_congr fun x inside => Bytes.fill_outside fun filled => ?_
  rw [Span.has_mk] at inside filled
  omega

theorem header_register (small : r.poolSeqno < 2 ^ 32) :
    (r.register p id).header p = ⟨(r.header p).poolId, r.poolSeqno⟩ := by
  have poolId : (Span.mk (p + 4) 4).Apart ⟨p, 4⟩ := Or.inr le_rfl
  unfold header register
  dsimp only
  rw [Bytes.load_store (by simpa using small), Bytes.load_store_apart poolId]

/-- The header of a pool that was set up. -/
theorem header_setUp (small : id < 2 ^ 32) (seqno : r.poolSeqno < 2 ^ 32) :
    (((r.poolBoot p id).fillRest p size contents).register p id).header p =
      ⟨id, r.poolSeqno⟩ := by
  have written : (((r.poolBoot p id).fillRest p size contents).register p id).header p =
      ⟨(((r.poolBoot p id).fillRest p size contents).header p).poolId, r.poolSeqno⟩ :=
    header_register seqno
  rw [header_fillRest, header_poolBoot small] at written
  exact written

/-! ## What a failed creation leaves alone -/

/-- The array is as before, and so is the memory outside a span. -/
structure SameOutside (span : Span) (r r' : RegistryMemory) : Prop where
  pools : r'.pools = r.pools
  count : r'.npoolsCnt = r.npoolsCnt
  mem : ∀ x, ¬span.Has x → r'.mem x = r.mem x

theorem SameOutside.refl (span : Span) (r : RegistryMemory) : SameOutside span r r :=
  ⟨rfl, rfl, fun _ _ => rfl⟩

theorem SameOutside.trans {span : Span} {r' r'' : RegistryMemory} (first : SameOutside span r r')
    (second : SameOutside span r' r'') : SameOutside span r r'' :=
  ⟨second.pools.trans first.pools, second.count.trans first.count, fun x outside =>
    (second.mem x outside).trans (first.mem x outside)⟩

theorem fillRest_same (r : RegistryMemory) (p size : Nat) (contents : Bytes) :
    SameOutside ⟨p, size⟩ r (r.fillRest p size contents) := by
  refine ⟨rfl, rfl, fun x outside => Bytes.fill_outside fun filled => outside ?_⟩
  rw [Span.has_mk] at filled ⊢
  omega

theorem poolBoot_same (r : RegistryMemory) (id : Nat) (room : headerBytes ≤ size) :
    SameOutside ⟨p, size⟩ r (r.poolBoot p id) := by
  refine ⟨rfl, rfl, fun x outside => Bytes.store_outside fun stored => outside ?_⟩
  rw [Span.has_mk] at stored ⊢
  unfold headerBytes at room
  omega

/-- Setting up a pool writes to the memory of the pool only. -/
theorem setUp_same (r : RegistryMemory) (id : Nat) (room : headerBytes ≤ size) :
    SameOutside ⟨p, size⟩ r ((r.poolBoot p id).fillRest p size contents) :=
  (poolBoot_same r id room).trans (fillRest_same _ p size contents)

theorem clear_same (r : RegistryMemory) (zeroed : Bool) (room : c.sizeofPool ≤ size) :
    SameOutside ⟨p, size⟩ r
      (if zeroed then r else { r with mem := Bytes.fill r.mem ⟨p, c.sizeofPool⟩ fun _ => 0 }) := by
  split
  · exact SameOutside.refl _ r
  · refine ⟨rfl, rfl, fun x outside => ?_⟩
    show Bytes.fill r.mem ⟨p, c.sizeofPool⟩ (fun _ => 0) x = r.mem x
    refine Bytes.fill_outside fun filled => outside ?_
    rw [Span.has_mk] at filled ⊢
    omega

end RegistryMemory

end Jemalloc
end Vmem
