import Vmem.Jemalloc.RegistryRefines

/-!
# The registry over whole runs

Whatever is in memory, calls of `je_pool_create` and `je_pool_delete` keep the array and its
counters in order, and one that fails leaves the pools alone.  Where no pool is created over
another one, the ids in memory and the array agree too, so that a handle is recognised whatever
stale handles contain.  The base pool is registered but is never accepted as a handle.
-/

namespace Vmem
namespace Jemalloc
namespace RegistryMemory

/-! ## Promises of the registry -/

/-- What a creation that fails does to a registry that has the base pool: it may leave the array
larger by empty entries, if all were in use; memory outside the new pool is as before, but for
the base pool, which the larger array comes from. -/
structure FailedCreate (c : Config) (base : Nat) (r r' : RegistryMemory) (given : Span) :
    Prop where
  count : r'.npoolsCnt = r.npoolsCnt
  pools : r'.pools = r.pools ∨
    none ∉ r.pools ∧ r'.pools = r.pools ++ List.replicate r.pools.length none
  mem : ∀ x, ¬given.Has x → (none ∈ r.pools ∨ ¬(Span.mk base c.sizeofPool).Has x) →
    r'.mem x = r.mem x

/-- What holds of the registry whatever the memory contains. -/
structure Orderly (c : Config) (base : Nat) (r : RegistryMemory) : Prop where
  /-- The base pool has id 0. -/
  first : r.basePoolInitialized = true → r.pools[0]? = some (some base)
  /-- `npools_cnt` counts the registered pools. -/
  count : r.npoolsCnt = r.pools.countP Option.isSome
  /-- `npools` is sixteen times a power of two, up to `POOLS_MAX`. -/
  size : r.basePoolInitialized = true →
    ∃ k, r.pools.length = poolsMin * 2 ^ k ∧ r.pools.length ≤ poolsMax
  /-- A failed creation changes no pool. -/
  failedCreate : ∀ addr size zeroed empty faults contents r', r.basePoolInitialized = true →
    jePoolCreate c base r addr size zeroed empty faults contents = (r', none) →
    FailedCreate c base r r' ⟨addr, size⟩
  /-- Before the base pool is there, a failed creation may register it. -/
  failedFirst : ∀ addr size zeroed empty faults contents r', r.basePoolInitialized = false →
    jePoolCreate c base r addr size zeroed empty faults contents = (r', none) →
    (r'.npoolsCnt = 0 ∧ r'.pools = [] ∨
      r'.npoolsCnt = 1 ∧ r'.pools = some base :: List.replicate (poolsMin - 1) none) ∧
    ∀ x, ¬(Span.mk addr size).Has x → ¬(Span.mk base c.sizeofPool).Has x → r'.mem x = r.mem x
  /-- A failed deletion changes nothing. -/
  failedDelete : ∀ p r', jePoolDelete r p = (r', -1) → r' = r
  /-- `je_pool_delete` accepts registered pools only. -/
  delete_registered : ∀ p, (jePoolDelete r p).2 = 0 → r.Registered p
  /-- `je_pool_check` accepts registered pools only. -/
  check_registered : ∀ handle p others arenas, jePoolCheck c r handle p others arenas ≠ -1 →
    r.Registered handle

/-- What holds of the registry where the pools lie apart. -/
structure Recognised (c : Config) (base : Nat) (r : RegistryMemory) : Prop where
  /-- A registered pool carries its id. -/
  ids : ∀ i p : Nat, r.pools[i]? = some (some p) → (r.header p).poolId = i
  /-- `je_pool_delete` accepts the registered custom pools. -/
  delete_iff : ∀ p, (jePoolDelete r p).2 = 0 ↔ r.Registered p ∧ p ≠ base
  /-- `je_pool_check` accepts the registered custom pools. -/
  check_iff : ∀ handle p others arenas, jePoolCheck c r handle p others arenas ≠ -1 ↔
    r.Registered handle ∧ handle ≠ base

variable {c : Config} {base p id size : Nat} {r r' : RegistryMemory} {contents : Bytes}
  {addr : Nat} {zeroed empty : Bool} {faults : CreateFaults}

/-! ## Creations that fail -/

theorem poolOpen_failed {fails : Bool} (room : headerBytes ≤ size)
    (failed : poolOpen r p size id fails contents = (r', none)) : SameOutside ⟨p, size⟩ r r' := by
  unfold poolOpen at failed
  cases fails with
  | true =>
      injection failed with same
      exact same ▸ setUp_same r id room
  | false =>
      injection failed with _ absurd_
      cases absurd_

theorem poolCreateEmpty_failed {fails : Bool} (room : headerBytes ≤ size)
    (minimal : c.sizeofPool ≤ size)
    (failed : poolCreateEmpty c r p size zeroed id fails contents = (r', none)) :
    SameOutside ⟨p, size⟩ r r' :=
  (clear_same r zeroed minimal).trans (poolOpen_failed room failed)

theorem growPools_of_lt {fails : Bool} (lt : id < r.pools.length) :
    growPools c base r id fails contents = (r, false) :=
  if_neg fun full => absurd full.1 (Nat.ne_of_lt lt)

/-- If there is an empty entry the loop stops at one. -/
theorem unusedId_lt_of_mem {entries : List (Option Nat)} (member : none ∈ entries) (first : Nat) :
    unusedId first entries < first + entries.length := by
  induction entries generalizing first with
  | nil => cases member
  | cons entry rest inductionHypothesis =>
      cases entry with
      | none =>
          unfold unusedId
          simp
      | some p =>
          have later : none ∈ rest := by simpa using member
          have found := inductionHypothesis later (first + 1)
          unfold unusedId
          rw [List.length_cons]
          omega

theorem unusedId_inside (first : r.pools[0]? = some (some base)) (unused : none ∈ r.pools) :
    unusedId 1 (r.pools.drop 1) < r.pools.length := by
  cases pools : r.pools with
  | nil =>
      rw [pools] at unused
      cases unused
  | cons entry rest =>
      rw [pools] at first unused
      have entry : entry = some base := by simpa using first
      have later : none ∈ rest := by simpa [entry] using unused
      have found := unusedId_lt_of_mem later 1
      simp only [List.drop_succ_cons, List.drop_zero, List.length_cons]
      omega

/-- The rest of `je_pool_create`, once the array is large enough. -/
theorem creation_failed (room : headerBytes ≤ size) (minimal : c.sizeofPool ≤ size)
    (failed : (if id = poolsMax then (r, none)
      else if empty then poolCreateEmpty c r addr size zeroed id faults.poolNew contents
      else poolOpen r addr size id faults.poolNew contents) = (r', none)) :
    SameOutside ⟨addr, size⟩ r r' := by
  split at failed
  · injection failed with same
    exact same ▸ SameOutside.refl _ r
  · split at failed
    · exact poolCreateEmpty_failed room minimal failed
    · exact poolOpen_failed room failed

/-- What doubling the array does, also when `base_alloc` fails. -/
theorem growPools_effect (c : Config) (base : Nat) (r : RegistryMemory) (id : Nat) (fails : Bool)
    (contents : Bytes) :
    (growPools c base r id fails contents).1.npoolsCnt = r.npoolsCnt ∧
      ((growPools c base r id fails contents).1.pools = r.pools ∨
        (growPools c base r id fails contents).1.pools =
          r.pools ++ List.replicate r.pools.length none) ∧
      ∀ x, ¬(Span.mk base c.sizeofPool).Has x →
        (growPools c base r id fails contents).1.mem x = r.mem x := by
  unfold growPools
  split
  · cases fails with
    | true => exact ⟨rfl, Or.inl rfl, (fillRest_same r base c.sizeofPool contents).mem⟩
    | false => exact ⟨rfl, Or.inr rfl, (fillRest_same r base c.sizeofPool contents).mem⟩
  · exact ⟨rfl, Or.inl rfl, fun _ _ => rfl⟩

theorem FailedCreate.refl (r : RegistryMemory) (given : Span) : FailedCreate c base r r given :=
  ⟨rfl, Or.inl rfl, fun _ _ _ => rfl⟩

/-- A creation that fails once the base pool is there. -/
theorem failedCreate (shape : r.view.Shape base) (pool_t : headerBytes ≤ c.sizeofPool)
    (minimal : c.sizeofPool ≤ c.poolMinimalSize) (init : r.basePoolInitialized = true)
    (failed : jePoolCreate c base r addr size zeroed empty faults contents = (r', none)) :
    FailedCreate c base r r' ⟨addr, size⟩ := by
  unfold jePoolCreate at failed
  split at failed
  · injection failed with same
    exact same ▸ FailedCreate.refl r _
  split at failed
  · injection failed with same
    exact same ▸ FailedCreate.refl r _
  next accepted =>
  have room : c.sizeofPool ≤ size := by omega
  rw [show mallocInitBasePool c base r faults.basePool contents = (r, false) from if_pos init]
    at failed
  dsimp only at failed
  by_cases unused : none ∈ r.pools
  · rw [growPools_of_lt (unusedId_inside (shape.first init) unused)] at failed
    have same := creation_failed (pool_t.trans room) room failed
    exact ⟨same.count, Or.inl same.pools, fun x outside _ => same.mem x outside⟩
  · generalize unusedId 1 (r.pools.drop 1) = id at failed
    obtain ⟨count, pools, mem⟩ := growPools_effect c base r id faults.grow contents
    generalize growPools c base r id faults.grow contents = result at *
    obtain ⟨grown, noArray⟩ := result
    cases noArray with
    | true =>
        injection failed with same
        subst same
        exact ⟨count, pools.imp_right fun doubled => ⟨unused, doubled⟩, fun x _ outside =>
          mem x (outside.resolve_left unused)⟩
    | false =>
        have same := creation_failed (pool_t.trans room) room failed
        refine ⟨same.count.trans count, ?_, fun x outside elsewhere =>
          (same.mem x outside).trans (mem x (elsewhere.resolve_left unused))⟩
        rw [same.pools]
        exact pools.imp_right fun doubled => ⟨unused, doubled⟩

/-- What `malloc_init_base_pool` does when the base pool is not there. -/
theorem mallocInitBasePool_effect (r : RegistryMemory) (pool_t : headerBytes ≤ c.sizeofPool)
    (init : r.basePoolInitialized = false) (fails : Bool) (contents : Bytes) :
    (mallocInitBasePool c base r fails contents).2 = fails ∧
      (fails = true → (mallocInitBasePool c base r fails contents).1.pools = r.pools ∧
        (mallocInitBasePool c base r fails contents).1.npoolsCnt = r.npoolsCnt) ∧
      (fails = false → (mallocInitBasePool c base r fails contents).1.pools =
          some base :: List.replicate (poolsMin - 1) none ∧
        (mallocInitBasePool c base r fails contents).1.npoolsCnt = r.npoolsCnt + 1) ∧
      ∀ x, ¬(Span.mk base c.sizeofPool).Has x →
        (mallocInitBasePool c base r fails contents).1.mem x = r.mem x := by
  have setUp : SameOutside ⟨base, c.sizeofPool⟩ r
      ((r.poolBoot base 0).fillRest base c.sizeofPool contents) := setUp_same r 0 pool_t
  unfold mallocInitBasePool
  rw [if_neg (by simp [init])]
  cases fails with
  | true =>
      exact ⟨rfl, fun _ => ⟨rfl, rfl⟩, fun absurd_ => absurd absurd_ (by decide), setUp.mem⟩
  | false =>
      refine ⟨rfl, fun absurd_ => absurd absurd_ Bool.false_ne_true, fun _ => ⟨rfl, rfl⟩,
        fun x outside => ?_⟩
      refine (Bytes.store_outside fun stored => outside ?_).trans (setUp.mem x outside)
      unfold headerBytes at pool_t
      rw [Span.has_mk] at stored ⊢
      omega

/-- A creation that fails before the base pool is there. -/
theorem failedFirst (shape : r.view.Shape base) (pool_t : headerBytes ≤ c.sizeofPool)
    (minimal : c.sizeofPool ≤ c.poolMinimalSize) (init : r.basePoolInitialized = false)
    (failed : jePoolCreate c base r addr size zeroed empty faults contents = (r', none)) :
    (r'.npoolsCnt = 0 ∧ r'.pools = [] ∨
      r'.npoolsCnt = 1 ∧ r'.pools = some base :: List.replicate (poolsMin - 1) none) ∧
    ∀ x, ¬(Span.mk addr size).Has x → ¬(Span.mk base c.sizeofPool).Has x →
      r'.mem x = r.mem x := by
  have none_ : r.pools = [] := shape.empty init
  have zero : r.npoolsCnt = 0 := by
    have count := shape.count
    rw [show r.view.pools = [] from none_] at count
    exact count
  have nothing : r' = r → (r'.npoolsCnt = 0 ∧ r'.pools = [] ∨
      r'.npoolsCnt = 1 ∧ r'.pools = some base :: List.replicate (poolsMin - 1) none) ∧
    ∀ x, ¬(Span.mk addr size).Has x → ¬(Span.mk base c.sizeofPool).Has x →
      r'.mem x = r.mem x := by
    rintro rfl
    exact ⟨Or.inl ⟨zero, none_⟩, fun _ _ _ => rfl⟩
  unfold jePoolCreate at failed
  split at failed
  · injection failed with same
    exact nothing same.symm
  split at failed
  · injection failed with same
    exact nothing same.symm
  next accepted =>
  have room : c.sizeofPool ≤ size := by omega
  obtain ⟨answer, before, after, mem⟩ :=
    mallocInitBasePool_effect r pool_t init faults.basePool contents
  generalize mallocInitBasePool c base r faults.basePool contents = result at *
  obtain ⟨started, noBase⟩ := result
  cases noBase with
  | true =>
      injection failed with same
      subst same
      obtain ⟨pools, count⟩ := before answer.symm
      exact ⟨Or.inl ⟨count.trans zero, pools.trans none_⟩, fun x _ outside => mem x outside⟩
  | false =>
      obtain ⟨pools, count⟩ := after answer.symm
      have pools : started.pools = some base :: List.replicate (poolsMin - 1) none := pools
      have first : started.pools[0]? = some (some base) := by
        rw [pools]
        rfl
      have inside := unusedId_inside first (by rw [pools]; simp [poolsMin])
      dsimp only at failed
      rw [growPools_of_lt inside] at failed
      have same := creation_failed (pool_t.trans room) room failed
      refine ⟨Or.inr ⟨same.count.trans (count.trans ?_), same.pools.trans pools⟩, ?_⟩
      · rw [zero]
      · exact fun x outside elsewhere => (same.mem x outside).trans (mem x elsewhere)

/-! ## Handles -/

/-- `je_pool_check` answers -1 exactly if it refuses the handle. -/
theorem poolCheck_ne_iff {live : Bool} {p : Pool} {others : List (List MemoryRange)}
    {arenas : List (Option ArenaView)} : poolCheck c live p others arenas ≠ -1 ↔ live = true := by
  unfold poolCheck
  cases live with
  | false => simp
  | true =>
      simp only [Bool.not_true, Bool.false_eq_true, if_false, iff_true]
      split
      · decide
      · split
        · decide
        · split
          · decide
          · split <;> decide

theorem poolCheckHandle_iff {s : Registry} {handle : Nat} : poolCheckHandle s handle = true ↔
    ¬((s.header handle).poolId = 0 ∨ s.pools.length ≤ (s.header handle).poolId ∨
      s.pools[(s.header handle).poolId]? ≠ some (some handle)) := by
  unfold poolCheckHandle
  dsimp only
  split
  · simp only [Bool.false_eq_true, false_iff, not_not]
    tauto
  · split
    · simp only [Bool.false_eq_true, false_iff, not_not]
      tauto
    · simp only [true_iff]
      tauto

theorem check_ne_iff {handle : Nat} {p : Pool} {others : List (List MemoryRange)}
    {arenas : List (Option ArenaView)} : jePoolCheck c r handle p others arenas ≠ -1 ↔
      ¬((r.header handle).poolId = 0 ∨ r.pools.length ≤ (r.header handle).poolId ∨
        r.pools[(r.header handle).poolId]? ≠ some (some handle)) := by
  unfold jePoolCheck Jemalloc.jePoolCheck
  rw [poolCheck_ne_iff, poolCheckHandle_iff]
  rfl

theorem delete_eq_zero_iff : (jePoolDelete r p).2 = 0 ↔
    ¬((r.header p).poolId = 0 ∨ r.pools.length ≤ (r.header p).poolId ∨
      r.pools[(r.header p).poolId]? ≠ some (some p)) := by
  unfold jePoolDelete
  dsimp only
  split
  case isTrue refused => exact iff_of_false (show ¬(-1 : Int) = 0 by decide) (not_not.mpr refused)
  case isFalse accepted => exact iff_of_true rfl accepted

/-- The promises that hold whatever is in memory. -/
theorem orderly (shape : r.view.Shape base) (pool_t : headerBytes ≤ c.sizeofPool)
    (minimal : c.sizeofPool ≤ c.poolMinimalSize) : r.Orderly c base where
  first := shape.first
  count := shape.count
  size init := by
    obtain ⟨k, small, length⟩ := shape.size init
    have length : r.pools.length = poolsMin * 2 ^ k := length
    refine ⟨k, length, ?_⟩
    rw [length]
    exact Nat.mul_le_mul_left poolsMin (Nat.pow_le_pow_right (by decide) small)
  failedCreate _ _ _ _ _ _ _ init failed := failedCreate shape pool_t minimal init failed
  failedFirst _ _ _ _ _ _ _ init failed := failedFirst shape pool_t minimal init failed
  failedDelete p r' failed := by
    obtain ⟨refused, _⟩ | ⟨_, _, _, _, deleted, _⟩ := delete_seen r r.header p rfl
    · rw [refused] at failed
      injection failed with same
      exact same.symm
    · rw [deleted] at failed
      injection failed with _ absurd_
      cases absurd_
  delete_registered p accepted := by
    rw [delete_eq_zero_iff] at accepted
    simp only [not_or, not_not] at accepted
    exact ⟨_, accepted.2.2⟩
  check_registered handle p others arenas accepted := by
    rw [check_ne_iff] at accepted
    simp only [not_or, not_not] at accepted
    exact ⟨_, accepted.2.2⟩

/-- The promises that hold where the pools lie apart: the registry that the memory shows keeps
them. -/
theorem recognised {s : Registry} (shows : r.Shows c base s) (ok : s.Ok base) :
    r.Recognised c base := by
  obtain ⟨h, rfl, sees⟩ := shows
  have viewOk : r.view.Ok base := by
    refine ⟨shape_seen ok.toShape, fun i p entry => ?_⟩
    have same : r.header p = h p := sees.headers p ⟨i, entry⟩
    show (r.header p).poolId = i
    rw [same]
    exact ok.ids i p entry
  refine ⟨viewOk.ids, fun p => ?_, fun handle p others arenas => ?_⟩
  · rw [delete_eq_zero_iff]
    exact viewOk.handle_iff
  · rw [check_ne_iff]
    exact viewOk.handle_iff

end RegistryMemory

/-! ## Whole runs -/

/-- The registry in every state that is reached.  Which writes and creations the run may contain
decides how much holds: any at all, none at the address of a registered pool, or none that
overlaps a registered pool. -/
theorem registry_consistent (c : Config) (fits : c.Fits) (pool_t : headerBytes ≤ c.sizeofPool)
    (base : Nat) (mem : Bytes) (r : RegistryMemory) :
    (Reached (fun _ _ => True) (RegistryMemory.exec c base) (RegistryMemory.start mem) r →
      r.Orderly c base) ∧
    (Reached (RegistryMemory.NewAddress base) (RegistryMemory.exec c base)
        (RegistryMemory.start mem) r →
      ∀ i j p : Nat, r.pools[i]? = some (some p) → r.pools[j]? = some (some p) → i = j) ∧
    (Reached (RegistryMemory.ApartPermitted c base) (RegistryMemory.exec c base)
        (RegistryMemory.start mem) r →
      r.Recognised c base) := by
  have minimal : c.sizeofPool ≤ c.poolMinimalSize := by
    have := fits.metadata
    have := c.chunksize_pos
    unfold Config.poolMinimalSize
    omega
  have header : Nat → PoolHeader := fun _ => ⟨0, 0⟩
  have starts : (RegistryMemory.start mem).view.Shape base :=
    ⟨fun _ => rfl, fun absurd_ => absurd absurd_ Bool.false_ne_true, rfl,
      fun absurd_ => absurd absurd_ Bool.false_ne_true⟩
  refine ⟨fun reached => ?_, fun reached => ?_, fun reached => ?_⟩
  · have shape : r.view.Shape base := reached.invariant (fun r => r.view.Shape base) starts
      fun _ _ _ shape _ result => RegistryMemory.shape_exec shape result
    exact RegistryMemory.orderly shape pool_t minimal
  · have once : r.view.Shape base ∧ r.view.Once := by
      refine reached.invariant (fun r => r.view.Shape base ∧ r.view.Once) ⟨starts, ?_⟩ ?_
      · intro i j p entry
        cases entry
      · exact fun _ _ _ before permitted result =>
          ⟨RegistryMemory.shape_exec before.1 result,
            RegistryMemory.once_exec before.1 before.2 permitted result⟩
    exact once.2
  · obtain ⟨s, run, shows⟩ := RegistryMemory.registry_simulated fits pool_t header reached
    have ok : s.Ok base := run.invariant (Registry.Ok base) (Registry.start_ok base header)
      fun _ _ _ ok permitted result => ok.exec permitted result
    exact RegistryMemory.recognised shows ok

/-- Every step succeeds. -/
def noFaults : CreateFaults := ⟨false, false, false, false⟩

/-- A pool of twelve megabytes is created. -/
def createAt (addr : Nat) (byte : UInt8) : RegistryMemoryOp :=
  .create addr 0xc00000 false true noFaults fun _ => byte

/-- A pool is created and deleted, its stale handle is written to, and another pool
takes its id. -/
def reusedId : List RegistryMemoryOp :=
  [createAt 0x10000000 7, .delete 0x10000000, .write 0x10000000 1, .write 0x10000001 0,
    .write 0x10000002 0, .write 0x10000003 0, createAt 0x20000000 7]

/-- Calls that keep to all that callers are asked for. -/
abbrev Careful (r : RegistryMemory) (op : RegistryMemoryOp) : Prop :=
  r.NewAddress 0x1000 op ∧ r.ApartPermitted defaultConfig 0x1000 op

/-- The end of a careful run in memory that was all zeros. -/
abbrev carefulRun {α : Type} (ops : List RegistryMemoryOp) (value : RegistryMemory → α) :
    Option α :=
  (permittedRuns Careful (RegistryMemory.exec defaultConfig 0x1000)
    (RegistryMemory.start fun _ => 0) ops).map value

theorem registry_consistent_reusedId :
    ∃ r : RegistryMemory, r.Orderly defaultConfig 0x1000 ∧ r.Recognised defaultConfig 0x1000 ∧
      (∀ i j p : Nat, r.pools[i]? = some (some p) → r.pools[j]? = some (some p) → i = j) ∧
      (r.header 0x10000000).poolId = 1 ∧ r.pools[1]? = some (some 0x20000000) := by
  have evaluated : carefulRun reusedId (fun r => ((r.header 0x10000000).poolId, r.pools[1]?)) =
      some (1, some (some 0x20000000)) := by
    decide +kernel
  obtain ⟨r, careful, values⟩ := Reached.of_evaluated evaluated
  injection values with stale entry
  obtain ⟨orderly, once, recognised⟩ :=
    registry_consistent defaultConfig defaultConfig_fits (by decide) 0x1000 (fun _ => 0) r
  exact ⟨r, orderly (Reached.start.append careful fun _ _ _ => trivial),
    recognised (Reached.start.append careful fun _ _ both => both.2),
    once (Reached.start.append careful fun _ _ both => both.1), stale, entry⟩

/-- Sixteen pools, as many as the first array has entries with the base pool. -/
def fullArray : List RegistryMemoryOp :=
  (List.range 15).map fun i => createAt (0x10000000 * (i + 1)) 7

/-- The creation of another pool, which fails. -/
def failingCreate (r : RegistryMemory) : RegistryMemory × Option Nat :=
  r.jePoolCreate defaultConfig 0x1000 0x200000000 0xc00000 false true ⟨false, false, false, true⟩
    fun _ => 9

/-- The base pool is registered but not accepted as a handle, a creation that fails can leave a
larger array and a changed base pool, and a pool that is created over another one, at another
address, takes the other's id away, so that its handle is refused. -/
theorem registry_as_claimed_fails :
    (∃ r : RegistryMemory, Reached Careful (RegistryMemory.exec defaultConfig 0x1000)
        (RegistryMemory.start fun _ => 0) r ∧
        r.Registered 0x1000 ∧ (r.jePoolDelete 0x1000).2 = -1) ∧
      (∃ r : RegistryMemory, Reached Careful (RegistryMemory.exec defaultConfig 0x1000)
        (RegistryMemory.start fun _ => 0) r ∧ (failingCreate r).2 = none ∧
        (failingCreate r).1.pools ≠ r.pools ∧ r.Registered 0x1000 ∧
        (failingCreate r).1.mem 0x1008 ≠ r.mem 0x1008) ∧
      ∃ r : RegistryMemory, Reached (RegistryMemory.NewAddress 0x1000)
        (RegistryMemory.exec defaultConfig 0x1000) (RegistryMemory.start fun _ => 0) r ∧
        r.pools[1]? = some (some 0x10000000) ∧ (r.header 0x10000000).poolId ≠ 1 ∧
        (r.jePoolDelete 0x10000000).2 = -1 := by
  refine ⟨?_, ?_, ?_⟩
  · have evaluated : carefulRun [createAt 0x10000000 7]
        (fun r => (decide (r.Registered 0x1000), (r.jePoolDelete 0x1000).2)) =
          some (true, -1) := by
      decide +kernel
    obtain ⟨r, reached, values⟩ := Reached.of_evaluated evaluated
    injection values with registered refused
    exact ⟨r, reached, of_decide_eq_true registered, refused⟩
  · have evaluated : carefulRun fullArray (fun r =>
        ((failingCreate r).2, decide ((failingCreate r).1.pools = r.pools),
          decide (r.Registered 0x1000),
          decide ((failingCreate r).1.mem 0x1008 = r.mem 0x1008))) =
          some (none, false, true, false) := by
      decide +kernel
    obtain ⟨r, reached, values⟩ := Reached.of_evaluated evaluated
    injection values with failed rest
    injection rest with larger rest
    injection rest with registered changed
    exact ⟨r, reached, failed, of_decide_eq_false larger, of_decide_eq_true registered,
      of_decide_eq_false changed⟩
  · have evaluated : (permittedRuns (RegistryMemory.NewAddress 0x1000)
        (RegistryMemory.exec defaultConfig 0x1000) (RegistryMemory.start fun _ => 0)
        [createAt 0x10000000 7, createAt 0xf800000 7]).map
          (fun r => (r.pools[1]?, decide ((r.header 0x10000000).poolId = 1),
            (r.jePoolDelete 0x10000000).2)) = some (some (some 0x10000000), false, -1) := by
      decide +kernel
    obtain ⟨r, reached, values⟩ := Reached.of_evaluated evaluated
    injection values with entry rest
    injection rest with other refused
    exact ⟨r, reached, entry, of_decide_eq_false other, refused⟩

end Jemalloc
end Vmem
