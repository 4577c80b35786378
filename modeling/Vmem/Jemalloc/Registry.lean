import Mathlib.Logic.Function.Basic
import Vmem.Jemalloc.PoolCheck
import Vmem.Library.Run

/-!
# The registry of pools

`pools` is the array of registered pools, indexed by pool id.  Id 0 is that of the
base pool, which `malloc_init_base_pool` registers before the first custom pool.
`je_pool_create` takes the first unused id, doubling the array when there is none;
`je_pool_delete` and `je_pool_check` recognise a handle by the id it carries.

A handle is the address of a `pool_t`.  Of its fields only `pool_id` and `seqno`
matter here; those of a pool that is not registered may hold anything.  Each handle has
a header of its own: this is how the registry looks to its users as long as no two
pools overlap.  `RegistryMemory` has the bytes that the headers lie in.
-/

namespace Vmem
namespace Jemalloc

/-- `POOLS_MIN`. -/
def poolsMin : Nat := 16

/-- `POOLS_MAX`. -/
def poolsMax : Nat := 32768

/-- `UINT_MAX`. -/
def uintMax : Nat := 2 ^ 32 - 1

/-- The fields of a `pool_t` that the registry reads or writes. -/
structure PoolHeader where
  poolId : Nat
  seqno : Nat
  deriving DecidableEq

/-- The globals around `pools`, and the headers in memory. -/
structure Registry where
  /-- `pools`; its length is `npools`. -/
  pools : List (Option Nat)
  npoolsCnt : Nat
  poolSeqno : Nat
  basePoolInitialized : Bool
  header : Nat → PoolHeader

/-- Which of the steps of `je_pool_create` that can fail do fail. -/
structure CreateFaults where
  /-- `malloc_init`. -/
  init : Bool
  /-- `malloc_init_base_pool`. -/
  basePool : Bool
  /-- `base_alloc` of the larger array. -/
  grow : Bool
  /-- `pool_new` or `pool_runtime_init`, after `pool_boot` has set the id. -/
  poolNew : Bool
  deriving DecidableEq

namespace Registry

/-- The pool is in the array. -/
def Registered (r : Registry) (p : Nat) : Prop := ∃ i : Nat, r.pools[i]? = some (some p)

instance (r : Registry) (p : Nat) : Decidable (r.Registered p) :=
  decidable_of_iff (some p ∈ r.pools) List.mem_iff_getElem?

/-- Write the header of a pool. -/
def setHeader (r : Registry) (p : Nat) (value : PoolHeader) : Registry :=
  { r with header := Function.update r.header p value }

/-- `pool->seqno = pool_seqno++; pools[pool_id] = pool; npools_cnt++`. -/
def register (r : Registry) (p id : Nat) : Registry :=
  { r.setHeader p { r.header p with seqno := r.poolSeqno } with
    pools := r.pools.set id (some p)
    npoolsCnt := r.npoolsCnt + 1
    poolSeqno := (r.poolSeqno + 1) % 2 ^ 32 }

/-- `pool_boot`, as far as it concerns the registry. -/
def poolBoot (r : Registry) (p id : Nat) : Registry :=
  r.setHeader p { r.header p with poolId := id }

end Registry

/-- `malloc_init_base_pool`, and whether it has failed. -/
def mallocInitBasePool (base : Nat) (r : Registry) (fails : Bool) : Registry × Bool :=
  if r.basePoolInitialized then (r, false)
  else if fails then (r, true)
  else
    ({ r with
      pools := some base :: List.replicate (poolsMin - 1) none
      header := Function.update r.header base ⟨0, (r.poolSeqno + 1) % 2 ^ 32⟩
      poolSeqno := (r.poolSeqno + 1) % 2 ^ 32
      npoolsCnt := r.npoolsCnt + 1
      basePoolInitialized := true }, false)

/-- The loop that looks for an unused id, over the entries from `id` on. -/
def unusedId : Nat → List (Option Nat) → Nat
  | id, [] => id
  | id, none :: _ => id
  | id, some _ :: rest => unusedId (id + 1) rest

/-- Double the array if there is no unused id. -/
def growPools (r : Registry) (id : Nat) (fails : Bool) : Option Registry :=
  if id = r.pools.length ∧ r.pools.length < poolsMax then
    if fails then none
    else some { r with pools := r.pools ++ List.replicate r.pools.length none }
  else some r

/-- `pool_create_empty`, as far as it concerns the registry. -/
def poolCreateEmptyAt (r : Registry) (p id : Nat) (zeroed fails : Bool) : Registry × Option Nat :=
  let r := if zeroed then r else r.setHeader p ⟨0, 0⟩
  let r := r.poolBoot p id
  if fails then (r, none) else (r.register p id, some p)

/-- `pool_open`. -/
def poolOpen (r : Registry) (p id : Nat) (fails : Bool) : Registry × Option Nat :=
  let r := r.poolBoot p id
  if fails then (r, none) else (r.register p id, some p)

/-- `je_pool_create`. -/
def jePoolCreate (c : Config) (base : Nat) (r : Registry) (addr size : Nat) (zeroed empty : Bool)
    (faults : CreateFaults) : Registry × Option Nat :=
  if faults.init then (r, none)
  else if addr = 0 ∨ size < c.poolMinimalSize then (r, none)
  else
    match mallocInitBasePool base r faults.basePool with
    | (r, true) => (r, none)
    | (r, false) =>
        let id := unusedId 1 (r.pools.drop 1)
        match growPools r id faults.grow with
        | none => (r, none)
        | some r =>
            if id = poolsMax then (r, none)
            else if empty then poolCreateEmptyAt r addr id zeroed faults.poolNew
            else poolOpen r addr id faults.poolNew

/-- `je_pool_delete`. -/
def jePoolDelete (r : Registry) (p : Nat) : Registry × Int :=
  let id := (r.header p).poolId
  if id = 0 ∨ r.pools.length ≤ id ∨ r.pools[id]? ≠ some (some p) then (r, -1)
  else
    -- pool_destroy sets pool_id to an incorrect value
    let r := r.setHeader p { r.header p with poolId := uintMax }
    ({ r with pools := r.pools.set id none, npoolsCnt := r.npoolsCnt - 1 }, 0)

/-- The checks of the handle in `je_pool_check`. -/
def poolCheckHandle (r : Registry) (p : Nat) : Bool :=
  let id := (r.header p).poolId
  if id = 0 ∨ r.pools.length ≤ id then false
  else if r.pools[id]? ≠ some (some p) then false
  else true

/-- `je_pool_check` of a registered pool. -/
def jePoolCheck (c : Config) (r : Registry) (handle : Nat) (p : Pool)
    (others : List (List MemoryRange)) (arenas : List (Option ArenaView)) : Int :=
  poolCheck c (poolCheckHandle r handle) p others arenas

/-! ## Runs -/

/-- A call, or a write to the header of a pool that is not registered. -/
inductive RegistryOp
  | create (addr size : Nat) (zeroed empty : Bool) (faults : CreateFaults)
  | delete (p : Nat)
  | scribble (p : Nat) (value : PoolHeader)

namespace Registry

/-- One call. -/
def exec (c : Config) (base : Nat) (r : Registry) : RegistryOp → Option Registry
  | .create addr size zeroed empty faults =>
      some (jePoolCreate c base r addr size zeroed empty faults).1
  | .delete p => some (jePoolDelete r p).1
  | .scribble p value => some (r.setHeader p value)

/-- Memory that belongs to a registered pool, or to the base pool, is neither given
to a new pool nor written to. -/
def Permitted (base : Nat) (r : Registry) : RegistryOp → Prop
  | .create addr _ _ _ _ => addr ≠ base ∧ ¬r.Registered addr
  | .delete _ => True
  | .scribble p _ => p ≠ base ∧ ¬r.Registered p

instance (base : Nat) (r : Registry) (op : RegistryOp) : Decidable (r.Permitted base op) :=
  match op with
  | .create addr _ _ _ _ => inferInstanceAs (Decidable (addr ≠ base ∧ ¬r.Registered addr))
  | .delete _ => inferInstanceAs (Decidable True)
  | .scribble p _ => inferInstanceAs (Decidable (p ≠ base ∧ ¬r.Registered p))

/-- Before the first call. -/
def start (header : Nat → PoolHeader) : Registry where
  pools := []
  npoolsCnt := 0
  poolSeqno := 0
  basePoolInitialized := false
  header := header

end Registry

/-! ## The invariant -/

/-- What holds of the array between calls, whatever the headers contain. -/
structure Registry.Shape (base : Nat) (r : Registry) : Prop where
  empty : r.basePoolInitialized = false → r.pools = []
  first : r.basePoolInitialized = true → r.pools[0]? = some (some base)
  count : r.npoolsCnt = r.pools.countP Option.isSome
  size : r.basePoolInitialized = true → ∃ k ≤ 11, r.pools.length = poolsMin * 2 ^ k

/-- What holds of the registry between calls. -/
structure Registry.Ok (base : Nat) (r : Registry) : Prop extends Registry.Shape base r where
  ids : ∀ (i p : Nat), r.pools[i]? = some (some p) → (r.header p).poolId = i

/-- The loop stops at an unused id or at the end. -/
theorem unusedId_spec (id : Nat) (entries : List (Option Nat)) :
    ∃ n ≤ entries.length, unusedId id entries = id + n ∧
      (n < entries.length → entries[n]? = some none) := by
  induction entries generalizing id with
  | nil => exact ⟨0, Nat.le_refl _, rfl, fun absurd_ => absurd absurd_ (Nat.lt_irrefl _)⟩
  | cons entry rest inductionHypothesis =>
      cases entry with
      | none => exact ⟨0, Nat.zero_le _, rfl, fun _ => rfl⟩
      | some p =>
          obtain ⟨n, within, found, unused⟩ := inductionHypothesis (id + 1)
          refine ⟨n + 1, by simpa using within, ?_, ?_⟩
          · rw [unusedId, found]
            omega
          · intro inside
            rw [List.getElem?_cons_succ]
            exact unused (by simpa using inside)

namespace Registry

variable {base p id : Nat} {r : Registry} {value : PoolHeader}

/-- The id that is found is not that of the base pool, and it is free unless it is
the end of the array. -/
theorem unusedId_pools (nonempty : 0 < r.pools.length) :
    1 ≤ unusedId 1 (r.pools.drop 1) ∧ unusedId 1 (r.pools.drop 1) ≤ r.pools.length ∧
      (unusedId 1 (r.pools.drop 1) < r.pools.length →
        r.pools[unusedId 1 (r.pools.drop 1)]? = some none) := by
  obtain ⟨n, within, found, unused⟩ := unusedId_spec 1 (r.pools.drop 1)
  rw [List.length_drop] at within unused
  rw [found]
  refine ⟨by omega, by omega, fun inside => ?_⟩
  have entry := unused (by omega)
  rwa [List.getElem?_drop] at entry

theorem Shape.nonempty (shape : r.Shape base) (init : r.basePoolInitialized = true) :
    0 < r.pools.length := by
  obtain ⟨k, _, length⟩ := shape.size init
  rw [length]
  exact Nat.mul_pos (by decide) (Nat.two_pow_pos k)

/-- Pools are registered only once the base pool is there. -/
theorem Shape.initialized (shape : r.Shape base) {i : Nat} {entry : Option Nat}
    (present : r.pools[i]? = some entry) : r.basePoolInitialized = true := by
  cases init : r.basePoolInitialized with
  | true => rfl
  | false =>
      rw [shape.empty init] at present
      cases present

/-- An entry other than the first is replaced. -/
theorem Shape.set (shape : r.Shape base) (init : r.basePoolInitialized = true)
    (positive : id ≠ 0) (entry : Option Nat) {count : Nat} {header : Nat → PoolHeader} {seqno : Nat}
    (counted : count = (r.pools.set id entry).countP Option.isSome) :
    (Registry.mk (r.pools.set id entry) count seqno r.basePoolInitialized header).Shape base := by
  refine ⟨fun absurd_ => ?_, fun _ => ?_, counted, fun _ => ?_⟩
  · rw [show r.basePoolInitialized = false from absurd_] at init
    cases init
  · show (r.pools.set id entry)[0]? = some (some base)
    rw [List.getElem?_set_ne positive]
    exact shape.first init
  · show ∃ k ≤ 11, (r.pools.set id entry).length = poolsMin * 2 ^ k
    rw [List.length_set]
    exact shape.size init

/-- A new pool gets a free entry. -/
theorem Shape.register (shape : r.Shape base) (init : r.basePoolInitialized = true)
    (unused : r.pools[id]? = some none) : (r.register p id).Shape base := by
  have inside : id < r.pools.length := (List.getElem?_eq_some_iff.mp unused).1
  have isNone : r.pools[id] = none := (List.getElem?_eq_some_iff.mp unused).2
  refine shape.set init ?_ (some p) ?_
  · rintro rfl
    rw [shape.first init] at unused
    cases unused
  · rw [List.countP_set inside, isNone, shape.count]
    rfl

/-- An entry other than the first is emptied. -/
theorem Shape.unregister (shape : r.Shape base) (positive : id ≠ 0)
    (entry : r.pools[id]? = some (some p)) :
    ({ r.setHeader p value with
      pools := r.pools.set id none, npoolsCnt := r.npoolsCnt - 1 } : Registry).Shape base := by
  have inside : id < r.pools.length := (List.getElem?_eq_some_iff.mp entry).1
  have isSome : r.pools[id] = some p := (List.getElem?_eq_some_iff.mp entry).2
  refine shape.set (shape.initialized entry) positive none ?_
  rw [List.countP_set inside, isSome, shape.count]
  rfl

/-- The array is doubled with empty entries. -/
theorem Shape.grow (shape : r.Shape base) (init : r.basePoolInitialized = true)
    (room : r.pools.length < poolsMax) :
    ({ r with pools := r.pools ++ List.replicate r.pools.length none } : Registry).Shape base := by
  have nonempty := shape.nonempty init
  refine ⟨fun absurd_ => ?_, fun _ => ?_, ?_, fun _ => ?_⟩
  · rw [show r.basePoolInitialized = false from absurd_] at init
    cases init
  · show (r.pools ++ _)[0]? = some (some base)
    rw [List.getElem?_append_left nonempty]
    exact shape.first init
  · show r.npoolsCnt = (r.pools ++ List.replicate r.pools.length none).countP Option.isSome
    rw [List.countP_append, List.countP_replicate, shape.count]
    rfl
  · obtain ⟨k, small, length⟩ := shape.size init
    refine ⟨k + 1, ?_, ?_⟩
    · -- sixteen times 2^11 is the limit
      by_contra large
      have full : k = 11 := by omega
      rw [length, full] at room
      exact absurd room (by decide)
    · show (r.pools ++ List.replicate r.pools.length none).length = poolsMin * 2 ^ (k + 1)
      rw [List.length_append, List.length_replicate, length, Nat.pow_succ, ← Nat.mul_assoc,
        Nat.mul_two]

theorem Shape.mallocInitBasePool (shape : r.Shape base) (fails : Bool) :
    (mallocInitBasePool base r fails).1.Shape base := by
  unfold Jemalloc.mallocInitBasePool
  by_cases init : r.basePoolInitialized = true
  · rw [if_pos init]
    exact shape
  · rw [if_neg init]
    have init : r.basePoolInitialized = false := by simpa using init
    split
    · exact shape
    · have count := shape.count
      rw [shape.empty init] at count
      refine ⟨fun absurd_ => ?_, fun _ => rfl, ?_, fun _ => ⟨0, by omega, rfl⟩⟩
      · cases absurd_
      · show r.npoolsCnt + 1 =
          (some base :: List.replicate (poolsMin - 1) none).countP Option.isSome
        rw [count, List.countP_cons, List.countP_replicate]
        rfl

/-- The only entry of the first array is that of the base pool. -/
theorem entry_mallocInitBasePool {i : Nat} (init : r.basePoolInitialized = false)
    (entry : (mallocInitBasePool base r false).1.pools[i]? = some (some p)) : i = 0 ∧ p = base := by
  unfold Jemalloc.mallocInitBasePool at entry
  rw [if_neg (by simp [init])] at entry
  cases i with
  | zero => exact ⟨rfl, by simpa using entry.symm⟩
  | succ i =>
      simp only [Bool.false_eq_true, if_false, List.getElem?_cons_succ,
        List.getElem?_replicate] at entry
      split at entry <;> simp at entry

theorem Ok.mallocInitBasePool (ok : r.Ok base) (fails : Bool) :
    (mallocInitBasePool base r fails).1.Ok base := by
  refine ⟨ok.toShape.mallocInitBasePool fails, fun i q entry => ?_⟩
  by_cases init : r.basePoolInitialized = true
  · unfold Jemalloc.mallocInitBasePool at entry ⊢
    rw [if_pos init] at entry ⊢
    exact ok.ids i q entry
  · have init : r.basePoolInitialized = false := by simpa using init
    cases fails with
    | true =>
        unfold Jemalloc.mallocInitBasePool at entry ⊢
        rw [if_neg (by simp [init])] at entry ⊢
        exact ok.ids i q entry
    | false =>
        obtain ⟨rfl, rfl⟩ := entry_mallocInitBasePool init entry
        unfold Jemalloc.mallocInitBasePool
        rw [if_neg (by simp [init])]
        show (Function.update r.header q _ q).poolId = 0
        rw [Function.update_self]

/-- The header of a pool that is not registered does not matter. -/
theorem Ok.setHeader (ok : r.Ok base) (absent : ¬r.Registered p) :
    (r.setHeader p value).Ok base := by
  refine ⟨⟨ok.empty, ok.first, ok.count, ok.size⟩, ?_⟩
  intro i q entry
  have different : q ≠ p := by
    rintro rfl
    exact absent ⟨i, entry⟩
  show (Function.update r.header p value q).poolId = i
  rw [Function.update_of_ne different]
  exact ok.ids i q entry

/-- A new pool carries its id. -/
theorem Ok.register (ok : r.Ok base) (init : r.basePoolInitialized = true)
    (unused : r.pools[id]? = some none) (absent : ¬r.Registered p)
    (booted : (r.header p).poolId = id) : (r.register p id).Ok base := by
  have inside : id < r.pools.length := (List.getElem?_eq_some_iff.mp unused).1
  refine ⟨ok.toShape.register init unused, ?_⟩
  intro i q entry
  show (Function.update r.header p { r.header p with seqno := r.poolSeqno } q).poolId = i
  have placed : (r.pools.set id (some p))[i]? = some (some q) := entry
  by_cases here : id = i
  · subst here
    rw [List.getElem?_set_self inside] at placed
    have same : p = q := by simpa using placed
    rw [← same, Function.update_self]
    exact booted
  · rw [List.getElem?_set_ne here] at placed
    have different : q ≠ p := by
      intro same
      exact absent ⟨i, same ▸ placed⟩
    rw [Function.update_of_ne different]
    exact ok.ids i q placed

/-- The registry before the new pool is set up: as it was, or with a larger array. -/
structure Grown (base : Nat) (r grown : Registry) : Prop where
  shape : grown.Shape base
  init : grown.basePoolInitialized = true
  header : grown.header = r.header
  seqno : grown.poolSeqno = r.poolSeqno
  count : grown.npoolsCnt = r.npoolsCnt
  pools : grown.pools = r.pools ∨ grown.pools = r.pools ++ List.replicate r.pools.length none

/-- How `je_pool_create` can end. -/
inductive CreateResult (grown : Registry) (addr : Nat) : Registry × Option Nat → Prop
  | refused : CreateResult grown addr (grown, none)
  | failed (value : PoolHeader) : CreateResult grown addr (grown.setHeader addr value, none)
  | created (id : Nat) (value : PoolHeader) (positive : 1 ≤ id)
      (unused : grown.pools[id]? = some none) (booted : value.poolId = id) :
      CreateResult grown addr ((grown.setHeader addr value).register addr id, some addr)

theorem Shape.grown (shape : r.Shape base) (init : r.basePoolInitialized = true) :
    Grown base r r :=
  ⟨shape, init, rfl, rfl, rfl, Or.inl rfl⟩

/-- There is room for the id that was found, unless it is beyond the limit. -/
theorem growPools_cases (shape : r.Shape base) (init : r.basePoolInitialized = true)
    (within : id ≤ r.pools.length)
    (unused : id < r.pools.length → r.pools[id]? = some none) (fails : Bool) :
    growPools r id fails = none ∨ ∃ grown, growPools r id fails = some grown ∧
      Grown base r grown ∧ (id = poolsMax ∨ grown.pools[id]? = some none) := by
  unfold growPools
  split
  case isTrue full =>
      obtain ⟨last, room⟩ := full
      split
      · exact Or.inl rfl
      · refine Or.inr ⟨_, rfl, ⟨shape.grow init room, init, rfl, rfl, rfl, Or.inr rfl⟩, Or.inr ?_⟩
        show (r.pools ++ List.replicate r.pools.length none)[id]? = some none
        rw [List.getElem?_append_right (by omega), List.getElem?_replicate, if_pos]
        have := shape.nonempty init
        omega
  case isFalse room =>
      refine Or.inr ⟨r, rfl, shape.grown init, ?_⟩
      by_cases last : id = r.pools.length
      · left
        obtain ⟨k, small, length⟩ := shape.size init
        have limit : r.pools.length ≤ poolsMax := by
          rw [length]
          exact Nat.mul_le_mul_left poolsMin (Nat.pow_le_pow_right (by decide) small)
        omega
      · exact Or.inr (unused (by omega))

theorem setHeader_self : r.setHeader p (r.header p) = r := by
  simp [setHeader]

theorem poolBoot_setHeader (r : Registry) (p id : Nat) (value : PoolHeader) :
    (r.setHeader p value).poolBoot p id = r.setHeader p { value with poolId := id } := by
  simp [poolBoot, setHeader]

/-- `pool_open` on an id that is free. -/
theorem poolOpen_result (positive : 1 ≤ id) (unused : r.pools[id]? = some none) (fails : Bool) :
    CreateResult r p (poolOpen r p id fails) := by
  have boot := poolBoot_setHeader r p id (r.header p)
  rw [setHeader_self] at boot
  unfold poolOpen
  dsimp only
  rw [boot]
  split
  · exact CreateResult.failed _
  · exact CreateResult.created id _ positive unused rfl

/-- `pool_create_empty` on an id that is free. -/
theorem poolCreateEmptyAt_result (positive : 1 ≤ id) (unused : r.pools[id]? = some none)
    (zeroed fails : Bool) : CreateResult r p (poolCreateEmptyAt r p id zeroed fails) := by
  cases zeroed with
  | true => exact poolOpen_result positive unused fails
  | false =>
      have boot := poolBoot_setHeader r p id ⟨0, 0⟩
      unfold poolCreateEmptyAt
      dsimp only
      simp only [Bool.false_eq_true, if_false]
      rw [boot]
      split
      · exact CreateResult.failed _
      · exact CreateResult.created id _ positive unused rfl

/-- Once the base pool is there, `je_pool_create` leaves nothing behind, a larger
array, or a header that is not registered; or it registers the pool under a free
id. -/
theorem create_result (c : Config) (shape : r.Shape base) (init : r.basePoolInitialized = true)
    (addr size : Nat) (zeroed empty : Bool) (faults : CreateFaults) :
    ∃ grown, Grown base r grown ∧
      CreateResult grown addr (jePoolCreate c base r addr size zeroed empty faults) := by
  have started : Jemalloc.mallocInitBasePool base r faults.basePool = (r, false) := by
    unfold Jemalloc.mallocInitBasePool
    rw [if_pos init]
  unfold jePoolCreate
  split
  case isTrue => exact ⟨r, shape.grown init, CreateResult.refused⟩
  case isFalse =>
  split
  case isTrue => exact ⟨r, shape.grown init, CreateResult.refused⟩
  case isFalse =>
  rw [started]
  dsimp only
  obtain ⟨positive, within, unused⟩ := unusedId_pools (shape.nonempty init)
  generalize unusedId 1 (r.pools.drop 1) = id at positive within unused
  obtain failed | ⟨grown, result, bigger, entry⟩ :=
    growPools_cases shape init within unused faults.grow
  · rw [failed]
    exact ⟨r, shape.grown init, CreateResult.refused⟩
  · rw [result]
    refine ⟨grown, bigger, ?_⟩
    dsimp only
    split
    case isTrue => exact CreateResult.refused
    case isFalse last =>
    have entry := entry.resolve_left last
    split
    · exact poolCreateEmptyAt_result positive entry zeroed faults.poolNew
    · exact poolOpen_result positive entry faults.poolNew

/-- Before the base pool is there, `je_pool_create` does nothing or sets it up and
goes on. -/
theorem create_uninitialized (c : Config) (base : Nat) (init : r.basePoolInitialized = false)
    (addr size : Nat) (zeroed empty : Bool) (faults : CreateFaults) :
    jePoolCreate c base r addr size zeroed empty faults = (r, none) ∨
      ((Jemalloc.mallocInitBasePool base r false).1.basePoolInitialized = true ∧
        jePoolCreate c base r addr size zeroed empty faults =
          jePoolCreate c base (Jemalloc.mallocInitBasePool base r false).1 addr size zeroed empty
            faults) := by
  have uninit : ¬r.basePoolInitialized = true := by simp [init]
  have first : (Jemalloc.mallocInitBasePool base r false).1.basePoolInitialized = true := by
    unfold Jemalloc.mallocInitBasePool
    rw [if_neg uninit]
    rfl
  have again : ∀ fails, Jemalloc.mallocInitBasePool base
      (Jemalloc.mallocInitBasePool base r false).1 fails =
        ((Jemalloc.mallocInitBasePool base r false).1, false) := by
    intro fails
    rw [Jemalloc.mallocInitBasePool, if_pos first]
  unfold jePoolCreate
  split
  case isTrue => exact Or.inl rfl
  case isFalse =>
  split
  case isTrue => exact Or.inl rfl
  case isFalse =>
  rw [again]
  cases fails : faults.basePool with
  | true =>
      left
      have failed : Jemalloc.mallocInitBasePool base r true = (r, true) := by
        unfold Jemalloc.mallocInitBasePool
        rw [if_neg uninit]
        rfl
      rw [failed]
  | false =>
      right
      refine ⟨first, ?_⟩
      have done : Jemalloc.mallocInitBasePool base r false =
          ((Jemalloc.mallocInitBasePool base r false).1, false) := by
        unfold Jemalloc.mallocInitBasePool
        rw [if_neg uninit]
        rfl
      rw [done]

/-- A larger array has the same pools at the same ids. -/
theorem Grown.entry_iff {grown : Registry} (bigger : Grown base r grown) {i : Nat} :
    grown.pools[i]? = some (some p) ↔ r.pools[i]? = some (some p) := by
  obtain same | doubled := bigger.pools
  · rw [same]
  · rw [doubled]
    by_cases old : i < r.pools.length
    · rw [List.getElem?_append_left old]
    · rw [List.getElem?_append_right (by omega), List.getElem?_replicate,
        List.getElem?_eq_none (by omega : r.pools.length ≤ i)]
      split <;> simp

theorem Grown.registered {grown : Registry} (bigger : Grown base r grown) :
    grown.Registered p ↔ r.Registered p :=
  exists_congr fun _ => bigger.entry_iff

theorem Grown.length_le {grown : Registry} (bigger : Grown base r grown) :
    r.pools.length ≤ grown.pools.length := by
  obtain same | doubled := bigger.pools
  · rw [same]
  · rw [doubled, List.length_append]
    omega

/-- Only the new pool is added. -/
theorem Grown.of_entry_register {grown : Registry} (bigger : Grown base r grown)
    {addr i : Nat} (inside : id < grown.pools.length)
    (entry : ((grown.setHeader addr value).register addr id).pools[i]? = some (some p)) :
    (i = id ∧ p = addr) ∨ r.pools[i]? = some (some p) := by
  have entry : (grown.pools.set id (some addr))[i]? = some (some p) := entry
  by_cases here : id = i
  · subst here
    rw [List.getElem?_set_self inside] at entry
    injection entry with entry
    injection entry with entry
    exact Or.inl ⟨rfl, entry.symm⟩
  · rw [List.getElem?_set_ne here] at entry
    exact Or.inr (bigger.entry_iff.mp entry)

theorem Grown.ok {grown : Registry} (bigger : Grown base r grown) (ok : r.Ok base) :
    grown.Ok base :=
  ⟨bigger.shape, fun i p entry => by
    rw [bigger.header]
    exact ok.ids i p (bigger.entry_iff.mp entry)⟩

theorem Shape.setHeader (shape : r.Shape base) : (r.setHeader p value).Shape base :=
  ⟨shape.empty, shape.first, shape.count, shape.size⟩

/-- Every way in which `je_pool_create` ends keeps the array in shape. -/
theorem CreateResult.shape {grown : Registry} (bigger : Grown base r grown)
    {result : Registry × Option Nat} (ends : CreateResult grown p result) :
    result.1.Shape base := by
  cases ends with
  | refused => exact bigger.shape
  | failed value => exact bigger.shape.setHeader
  | created id value positive unused booted =>
      exact bigger.shape.setHeader.register bigger.init unused

/-- Every way in which `je_pool_create` ends keeps the invariant. -/
theorem CreateResult.ok {grown : Registry} (ok : r.Ok base) (bigger : Grown base r grown)
    (absent : ¬r.Registered p)
    {result : Registry × Option Nat} (ends : CreateResult grown p result) : result.1.Ok base := by
  have absent : ¬grown.Registered p := fun registered => absent (bigger.registered.mp registered)
  cases ends with
  | refused => exact bigger.ok ok
  | failed value => exact (bigger.ok ok).setHeader absent
  | created id value positive unused booted =>
      refine ((bigger.ok ok).setHeader absent).register bigger.init unused absent ?_
      show (Function.update grown.header p value p).poolId = id
      rw [Function.update_self]
      exact booted

/-- The registry that `je_pool_create` goes on from once the base pool is there. -/
structure Started (base : Nat) (r first : Registry) : Prop where
  shape : first.Shape base
  init : first.basePoolInitialized = true
  cases_ : (r.basePoolInitialized = true ∧ first = r) ∨
    (r.basePoolInitialized = false ∧ first = (Jemalloc.mallocInitBasePool base r false).1)

/-- `je_pool_create` does nothing, or goes on from a registry that has the base pool. -/
theorem create_cases (c : Config) (shape : r.Shape base) (addr size : Nat) (zeroed empty : Bool)
    (faults : CreateFaults) :
    jePoolCreate c base r addr size zeroed empty faults = (r, none) ∨
      ∃ first grown, Started base r first ∧ Grown base first grown ∧
        CreateResult grown addr (jePoolCreate c base r addr size zeroed empty faults) := by
  cases init : r.basePoolInitialized with
  | true =>
      obtain ⟨grown, bigger, ends⟩ := create_result c shape init addr size zeroed empty faults
      exact Or.inr ⟨r, grown, ⟨shape, init, Or.inl ⟨init, rfl⟩⟩, bigger, ends⟩
  | false =>
      obtain nothing | ⟨first, same⟩ :=
        create_uninitialized c base init addr size zeroed empty faults
      · exact Or.inl nothing
      · have started := shape.mallocInitBasePool false
        obtain ⟨grown, bigger, ends⟩ := create_result c started first addr size zeroed empty faults
        rw [← same] at ends
        exact Or.inr ⟨_, grown, ⟨started, first, Or.inr ⟨init, rfl⟩⟩, bigger, ends⟩

/-- The base pool may have been added. -/
theorem Started.entry {first : Registry} (started : Started base r first) {i : Nat}
    (entry : first.pools[i]? = some (some p)) :
    r.pools[i]? = some (some p) ∨ (r.basePoolInitialized = false ∧ i = 0 ∧ p = base) := by
  obtain ⟨_, rfl⟩ | ⟨init, rfl⟩ := started.cases_
  · exact Or.inl entry
  · exact Or.inr ⟨init, entry_mallocInitBasePool init entry⟩

theorem Started.ok {first : Registry} (started : Started base r first) (ok : r.Ok base) :
    first.Ok base := by
  obtain ⟨_, rfl⟩ | ⟨_, rfl⟩ := started.cases_
  · exact ok
  · exact ok.mallocInitBasePool false

theorem Started.absent {first : Registry} (started : Started base r first) (foreign : p ≠ base)
    (absent : ¬r.Registered p) : ¬first.Registered p := by
  rintro ⟨i, entry⟩
  obtain before | ⟨_, _, same⟩ := started.entry entry
  · exact absent ⟨i, before⟩
  · exact foreign same

/-- `je_pool_delete` does nothing or empties the entry of the handle. -/
theorem delete_result (r : Registry) (p : Nat) :
    jePoolDelete r p = (r, -1) ∨
      ∃ id, (r.header p).poolId = id ∧ id ≠ 0 ∧ r.pools[id]? = some (some p) ∧
        jePoolDelete r p =
          ({ r.setHeader p { r.header p with poolId := uintMax } with
            pools := r.pools.set id none, npoolsCnt := r.npoolsCnt - 1 }, 0) := by
  unfold jePoolDelete
  dsimp only
  split
  case isTrue => exact Or.inl rfl
  case isFalse accepted =>
      simp only [not_or, not_not] at accepted
      exact Or.inr ⟨_, rfl, accepted.1, accepted.2.2, rfl⟩

/-- An entry that is left when one is emptied was there before. -/
theorem entry_of_set_none {pools : List (Option Nat)} {i : Nat}
    (entry : (pools.set id none)[i]? = some (some p)) : id ≠ i ∧ pools[i]? = some (some p) := by
  by_cases here : id = i
  · subst here
    rw [List.getElem?_set] at entry
    split at entry
    · split at entry <;> cases entry
    · exact absurd rfl ‹_›
  · rw [List.getElem?_set_ne here] at entry
    exact ⟨here, entry⟩

/-- Every call keeps the array in shape, whatever the headers contain. -/
theorem Shape.exec {c : Config} {op : RegistryOp} {r' : Registry} (shape : r.Shape base)
    (result : r.exec c base op = some r') : r'.Shape base := by
  cases op with
  | create addr size zeroed empty faults =>
      injection result with result
      subst result
      obtain nothing | ⟨first, grown, _, bigger, ends⟩ :=
        create_cases c shape addr size zeroed empty faults
      · rw [nothing]
        exact shape
      · exact ends.shape bigger
  | delete p =>
      injection result with result
      subst result
      obtain refused | ⟨id, _, positive, entry, deleted⟩ := delete_result r p
      · rw [refused]
        exact shape
      · rw [deleted]
        exact shape.unregister positive entry
  | scribble p value =>
      injection result with result
      subst result
      exact shape.setHeader

/-- No pool is in the array twice. -/
def Once (r : Registry) : Prop :=
  ∀ i j p : Nat, r.pools[i]? = some (some p) → r.pools[j]? = some (some p) → i = j

/-- Whatever the headers contain, no pool gets into the array twice unless it is created at
the address of a registered one. -/
theorem Once.exec {c : Config} {op : RegistryOp} {r' : Registry} (once : r.Once)
    (shape : r.Shape base) (permitted : r.Permitted base op)
    (result : r.exec c base op = some r') : r'.Once := by
  cases op with
  | create addr size zeroed empty faults =>
      injection result with result
      subst result
      obtain ⟨foreign, absent⟩ := permitted
      obtain nothing | ⟨first, grown, started, bigger, ends⟩ :=
        create_cases c shape addr size zeroed empty faults
      · rw [nothing]
        exact once
      have absent := started.absent foreign absent
      have firstOnce : first.Once := by
        intro i j p one other
        obtain one | ⟨init, rfl, rfl⟩ := started.entry one <;>
          obtain other | ⟨init', rfl, same⟩ := started.entry other
        · exact once i j p one other
        · rw [shape.empty init'] at one
          cases one
        · rw [shape.empty init] at other
          cases other
        · rfl
      generalize jePoolCreate c base r addr size zeroed empty faults = result at ends
      cases ends with
      | refused =>
          exact fun i j p one other =>
            firstOnce i j p (bigger.entry_iff.mp one) (bigger.entry_iff.mp other)
      | failed value =>
          exact fun i j p one other =>
            firstOnce i j p (bigger.entry_iff.mp one) (bigger.entry_iff.mp other)
      | created id value positive unused booted =>
          intro i j p one other
          have inside := (List.getElem?_eq_some_iff.mp unused).1
          obtain ⟨rfl, rfl⟩ | before := bigger.of_entry_register inside one <;>
            obtain ⟨rfl, same⟩ | earlier := bigger.of_entry_register inside other
          · rfl
          · exact absurd ⟨j, earlier⟩ absent
          · exact absurd ⟨i, same ▸ before⟩ absent
          · exact firstOnce i j p before earlier
  | delete p =>
      injection result with result
      subst result
      obtain refused | ⟨id, _, _, _, deleted⟩ := delete_result r p
      · rw [refused]
        exact once
      · rw [deleted]
        exact fun i j q one other =>
          once i j q (entry_of_set_none one).2 (entry_of_set_none other).2
  | scribble p value =>
      injection result with result
      subst result
      exact once

/-- Deleting a custom pool empties its entry. -/
theorem Ok.unregister (ok : r.Ok base) (positive : id ≠ 0)
    (entry : r.pools[id]? = some (some p)) :
    ({ r.setHeader p value with
      pools := r.pools.set id none, npoolsCnt := r.npoolsCnt - 1 } : Registry).Ok base := by
  refine ⟨ok.toShape.unregister positive entry, ?_⟩
  intro i q other
  obtain ⟨here, placed⟩ := entry_of_set_none other
  have different : q ≠ p := by
    intro same
    have first := ok.ids i q placed
    have second := ok.ids id p entry
    rw [same] at first
    exact here (second.symm.trans first)
  show (Function.update r.header p value q).poolId = i
  rw [Function.update_of_ne different]
  exact ok.ids i q placed

/-- A handle is accepted exactly if its pool is registered and not the base pool. -/
theorem Ok.handle_iff (ok : r.Ok base) :
    ¬((r.header p).poolId = 0 ∨ r.pools.length ≤ (r.header p).poolId ∨
        r.pools[(r.header p).poolId]? ≠ some (some p)) ↔
      r.Registered p ∧ p ≠ base := by
  constructor
  · intro accepted
    simp only [not_or, not_not] at accepted
    obtain ⟨positive, _, entry⟩ := accepted
    refine ⟨⟨_, entry⟩, ?_⟩
    rintro rfl
    have zero := ok.ids 0 p (ok.first (ok.initialized entry))
    exact positive zero
  · rintro ⟨⟨i, entry⟩, custom⟩
    have id := ok.ids i p entry
    have inside := (List.getElem?_eq_some_iff.mp entry).1
    simp only [not_or, not_not, id]
    refine ⟨?_, by omega, entry⟩
    rintro rfl
    rw [ok.first (ok.initialized entry)] at entry
    exact custom (by simpa using entry.symm)

/-- `je_pool_delete` refuses a handle and does nothing, or empties its entry. -/
theorem Ok.delete_cases (ok : r.Ok base) (p : Nat) :
    (¬(r.Registered p ∧ p ≠ base) ∧ jePoolDelete r p = (r, -1)) ∨
      (∃ id, id ≠ 0 ∧ r.pools[id]? = some (some p) ∧ p ≠ base ∧
        jePoolDelete r p =
          ({ r.setHeader p { r.header p with poolId := uintMax } with
            pools := r.pools.set id none, npoolsCnt := r.npoolsCnt - 1 }, 0)) := by
  have handle := ok.handle_iff (p := p)
  unfold jePoolDelete
  dsimp only
  split
  case isTrue refused => exact Or.inl ⟨fun live => handle.mpr live refused, rfl⟩
  case isFalse accepted =>
      have custom := (handle.mp accepted).2
      simp only [not_or, not_not] at accepted
      exact Or.inr ⟨_, accepted.1, accepted.2.2, custom, rfl⟩

/-- One call keeps the invariant. -/
theorem Ok.exec {c : Config} {op : RegistryOp} {r' : Registry} (ok : r.Ok base)
    (permitted : r.Permitted base op) (result : r.exec c base op = some r') : r'.Ok base := by
  cases op with
  | create addr size zeroed empty faults =>
      injection result with result
      subst result
      obtain ⟨foreign, absent⟩ := permitted
      obtain nothing | ⟨first, grown, started, bigger, ends⟩ :=
        create_cases c ok.toShape addr size zeroed empty faults
      · rw [nothing]
        exact ok
      · exact CreateResult.ok (started.ok ok) bigger (started.absent foreign absent) ends
  | delete p =>
      injection result with result
      subst result
      obtain ⟨_, refused⟩ | ⟨id, positive, entry, _, deleted⟩ := ok.delete_cases p
      · rw [refused]
        exact ok
      · rw [deleted]
        exact ok.unregister positive entry
  | scribble p value =>
      injection result with result
      subst result
      exact ok.setHeader permitted.2

theorem start_shape (base : Nat) (header : Nat → PoolHeader) : (start header).Shape base := by
  refine ⟨fun _ => rfl, fun absurd_ => ?_, rfl, fun absurd_ => ?_⟩ <;>
  · cases absurd_

theorem start_ok (base : Nat) (header : Nat → PoolHeader) : (start header).Ok base := by
  refine ⟨start_shape base header, ?_⟩
  intro i p entry
  cases entry

end Registry

end Jemalloc
end Vmem
