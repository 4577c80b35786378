import Vmem.Jemalloc.RegistryMemory

/-!
# The memory shows the registry

The calls do to the array what the calls of `Registry` do, whatever the headers in memory are.
Where the pools lie apart, the headers of the registered pools are those of `Registry` too, so
that every run in memory is one of the registry.
-/

namespace Vmem
namespace Jemalloc
namespace RegistryMemory

variable {c : Config} {base p id size : Nat} {r : RegistryMemory} {contents : Bytes}
  {h : Nat → PoolHeader}

/-- The registry with headers that need not be those in memory. -/
def seen (r : RegistryMemory) (h : Nat → PoolHeader) : Registry := { r.view with header := h }

/-- The headers are those in memory as far as pools are registered, and these lie apart. -/
structure Sees (c : Config) (base : Nat) (r : RegistryMemory) (h : Nat → PoolHeader) : Prop where
  headers : ∀ p, r.Registered p → r.header p = h p
  apart : ∀ p, r.Registered p → ∀ q, r.Registered q ∨ q = base → p ≠ q →
    (Span.mk p c.sizeofPool).Apart ⟨q, c.sizeofPool⟩
  seqno : r.poolSeqno < 2 ^ 32

/-- The span lies apart from every pool in use. -/
def Unused (c : Config) (base : Nat) (r : RegistryMemory) (span : Span) : Prop :=
  ∀ q, r.Registered q ∨ q = base → span.Apart ⟨q, c.sizeofPool⟩

/-- Memory outside the headers of the registered pools does not matter. -/
theorem Sees.mem (sees : r.Sees c base h) {mem : Bytes}
    (same : ∀ p, r.Registered p → ∀ x, (Span.mk p headerBytes).Has x → mem x = r.mem x) :
    Sees c base { r with mem := mem } h := by
  refine ⟨fun p registered => ?_, sees.apart, sees.seqno⟩
  have kept : header { r with mem := mem } p = r.header p := header_congr (same p registered)
  exact kept.trans (sees.headers p registered)

theorem Sees.update (sees : r.Sees c base h) (absent : ¬r.Registered p) (value : PoolHeader) :
    r.Sees c base (Function.update h p value) := by
  refine ⟨fun q registered => ?_, sees.apart, sees.seqno⟩
  have different : q ≠ p := by
    rintro rfl
    exact absent registered
  rw [Function.update_of_ne different]
  exact sees.headers q registered

/-- Writing to unused memory. -/
theorem Sees.sameOutside (sees : r.Sees c base h) (pool_t : headerBytes ≤ c.sizeofPool)
    {span : Span} (unused : Unused c base r span) {mem : Bytes}
    (same : SameOutside span r { r with mem := mem }) : Sees c base { r with mem := mem } h := by
  refine sees.mem fun p registered x inside => same.mem x fun within => ?_
  exact (unused p (Or.inl registered)).disjoint x within (inside.lengthen pool_t)

/-- A span of at least a byte in unused memory does not start at a pool in use. -/
theorem Unused.absent (unused : Unused c base r ⟨p, size⟩) (positive : 0 < size)
    (pool_t : headerBytes ≤ c.sizeofPool) : ¬r.Registered p ∧ p ≠ base := by
  have differs : ∀ q, r.Registered q ∨ q = base → p ≠ q := by
    rintro q used rfl
    have bytes : 0 < headerBytes := by decide
    have first : (Span.mk p headerBytes).Has p := ⟨Nat.le_refl p, Nat.lt_add_of_pos_right bytes⟩
    exact (unused p used).disjoint p ⟨Nat.le_refl p, Nat.lt_add_of_pos_right positive⟩
      (first.lengthen pool_t)
  exact ⟨fun registered => differs p (Or.inl registered) rfl, differs base (Or.inr rfl)⟩

/-! ## The parts of `je_pool_create` -/

theorem mallocInitBasePool_seen (r : RegistryMemory) (h : Nat → PoolHeader) (fails : Bool)
    (contents : Bytes) :
    ∃ h', Jemalloc.mallocInitBasePool base (r.seen h) fails =
        ((mallocInitBasePool c base r fails contents).1.seen h',
          (mallocInitBasePool c base r fails contents).2) ∧
      (r.Sees c base h → (r.basePoolInitialized = false → r.pools = []) →
        (mallocInitBasePool c base r fails contents).1.Sees c base h') := by
  unfold Jemalloc.mallocInitBasePool mallocInitBasePool
  by_cases init : r.basePoolInitialized = true
  · rw [if_pos (show (r.seen h).basePoolInitialized = true from init), if_pos init]
    exact ⟨h, rfl, fun sees _ => sees⟩
  · rw [if_neg (show ¬(r.seen h).basePoolInitialized = true from init), if_neg init]
    have init : r.basePoolInitialized = false := by simpa using init
    cases fails with
    | true =>
        refine ⟨h, rfl, fun sees empty => ⟨fun p registered => ?_, sees.apart, sees.seqno⟩⟩
        obtain ⟨i, entry⟩ := registered
        have entry : r.pools[i]? = some (some p) := entry
        rw [empty init] at entry
        cases entry
    | false =>
        refine ⟨Function.update h base ⟨0, (r.poolSeqno + 1) % 2 ^ 32⟩, rfl, fun _ _ => ?_⟩
        have only : ∀ p, Registered
            { pools := some base :: List.replicate (poolsMin - 1) none
              npoolsCnt := 0, poolSeqno := 0, basePoolInitialized := true, mem := contents } p →
            p = base := by
          rintro p ⟨i, entry⟩
          exact (Registry.entry_mallocInitBasePool (r := Registry.start h) rfl entry).2
        have small : (r.poolSeqno + 1) % 2 ^ 32 < 2 ^ 32 := Nat.mod_lt _ (by decide)
        refine ⟨fun p registered => ?_, fun p registered q used different => ?_, small⟩
        · rw [only p registered, Function.update_self]
          exact header_setUp (r := { r with poolSeqno := (r.poolSeqno + 1) % 2 ^ 32 })
            (p := base) (by decide) small
        · have first := only p registered
          obtain other | rfl := used
          · exact absurd (first.trans (only q other).symm) different
          · exact absurd first different

/-- What `base_alloc` does to the base pool is behind its header. -/
theorem Sees.growBase (sees : r.Sees c base h) (pool_t : headerBytes ≤ c.sizeofPool)
    (contents : Bytes) :
    (r.fillRest base c.sizeofPool contents).Sees c base h := by
  refine sees.mem fun p registered x inside => Bytes.fill_outside fun filled => ?_
  by_cases same : p = base
  · rw [Span.has_mk] at inside filled
    omega
  · have apart := sees.apart p registered base (Or.inr rfl) same
    rw [Span.has_mk] at filled
    exact apart.disjoint x (inside.lengthen pool_t) ⟨by dsimp only; omega, by dsimp only; omega⟩

/-- The entries that doubling adds are empty. -/
theorem registered_of_doubled {pools : List (Option Nat)} {mem : Bytes}
    (registered : Registered { r with
      pools := pools ++ List.replicate pools.length none, mem := mem } p) :
    Registered { r with pools := pools } p := by
  obtain ⟨i, entry⟩ := registered
  have entry : (pools ++ List.replicate pools.length none)[i]? = some (some p) := entry
  refine ⟨i, ?_⟩
  show pools[i]? = some (some p)
  by_cases old : i < pools.length
  · rwa [List.getElem?_append_left old] at entry
  · rw [List.getElem?_append_right (by omega), List.getElem?_replicate] at entry
    split at entry <;> simp at entry

theorem registered_of_growPools {fails : Bool}
    (registered : (growPools c base r id fails contents).1.Registered p) : r.Registered p := by
  unfold growPools at registered
  split at registered
  · cases fails with
    | true => exact registered
    | false => exact registered_of_doubled registered
  · exact registered

theorem registered_of_mallocInitBasePool {fails : Bool}
    (registered : (mallocInitBasePool c base r fails contents).1.Registered p) :
    r.Registered p ∨ p = base := by
  unfold mallocInitBasePool at registered
  split at registered
  · exact Or.inl registered
  · cases fails with
    | true => exact Or.inl registered
    | false =>
        obtain ⟨i, entry⟩ := registered
        exact Or.inr (Registry.entry_mallocInitBasePool (i := i)
          (r := Registry.start fun _ => ⟨0, 0⟩) rfl entry).2

theorem growPools_seen (c : Config) (base : Nat) (r : RegistryMemory) (h : Nat → PoolHeader)
    (id : Nat) (fails : Bool) (contents : Bytes) :
    Jemalloc.growPools (r.seen h) id fails =
        (if (growPools c base r id fails contents).2 then none
          else some ((growPools c base r id fails contents).1.seen h)) ∧
      ((growPools c base r id fails contents).2 = true →
        (growPools c base r id fails contents).1.seen h = r.seen h) ∧
      (headerBytes ≤ c.sizeofPool → r.Sees c base h →
        (growPools c base r id fails contents).1.Sees c base h) := by
  unfold Jemalloc.growPools growPools
  by_cases full : id = r.pools.length ∧ r.pools.length < poolsMax
  · rw [if_pos (show id = (r.seen h).pools.length ∧ (r.seen h).pools.length < poolsMax from full),
      if_pos full]
    cases fails with
    | true => exact ⟨rfl, fun _ => rfl, fun pool_t sees => sees.growBase pool_t contents⟩
    | false =>
        refine ⟨rfl, fun absurd_ => absurd absurd_ Bool.false_ne_true, fun pool_t sees => ?_⟩
        have filled := sees.growBase pool_t contents
        refine ⟨fun p registered => filled.headers p (registered_of_doubled registered), ?_,
          filled.seqno⟩
        intro p registered q used
        exact filled.apart p (registered_of_doubled registered) q
          (used.imp_left registered_of_doubled)
  · rw [if_neg full,
      if_neg (show ¬(id = (r.seen h).pools.length ∧ (r.seen h).pools.length < poolsMax) from full)]
    exact ⟨rfl, fun _ => rfl, fun _ sees => sees⟩

/-- What is known where a pool is set up: its memory is unused, and the id is one of the array. -/
structure Room (c : Config) (base : Nat) (r : RegistryMemory) (p size id : Nat) : Prop where
  pool_t : headerBytes ≤ c.sizeofPool
  room : c.sizeofPool ≤ size
  unused : Unused c base r ⟨p, size⟩
  small : id < 2 ^ 32

theorem Room.absent (room : Room c base r p size id) : ¬r.Registered p := by
  have positive : 0 < headerBytes := by decide
  have := room.pool_t
  have := room.room
  exact (room.unused.absent (by omega) room.pool_t).1

/-- The pool has been set up, but is not registered. -/
theorem Sees.setUp (sees : r.Sees c base h) (room : Room c base r p size id) (contents : Bytes)
    (value : PoolHeader) :
    ((r.poolBoot p id).fillRest p size contents).Sees c base (Function.update h p value) := by
  have kept : ((r.poolBoot p id).fillRest p size contents).Sees c base h :=
    sees.sameOutside room.pool_t room.unused
      (setUp_same r id (Nat.le_trans room.pool_t room.room))
  exact kept.update room.absent value

/-- The pool is registered with its own header. -/
theorem Sees.register (sees : r.Sees c base h) (room : Room c base r p size id)
    (contents : Bytes) :
    (((r.poolBoot p id).fillRest p size contents).register p id).Sees c base
      (Function.update h p ⟨id, r.poolSeqno⟩) := by
  have setUp := sees.setUp room contents ⟨id, r.poolSeqno⟩
  have small : (r.poolSeqno + 1) % 2 ^ 32 < 2 ^ 32 := Nat.mod_lt _ (by decide)
  -- only the new pool is added
  have cases_ : ∀ q, (((r.poolBoot p id).fillRest p size contents).register p id).Registered q →
      q = p ∨ r.Registered q := by
    rintro q ⟨i, entry⟩
    have entry : (r.pools.set id (some p))[i]? = some (some q) := entry
    rw [List.getElem?_set] at entry
    split at entry
    · split at entry
      · injection entry with entry
        injection entry with entry
        exact Or.inl entry.symm
      · cases entry
    · exact Or.inr ⟨i, entry⟩
  have apartNew : ∀ q, r.Registered q ∨ q = base →
      (Span.mk p c.sizeofPool).Apart ⟨q, c.sizeofPool⟩ :=
    fun q used => (room.unused q used).shorten room.room
  refine ⟨fun q registered => ?_, fun q registered other used different => ?_, small⟩
  · by_cases same : q = p
    · subst same
      rw [Function.update_self]
      exact header_setUp room.small sees.seqno
    · have registered := (cases_ q registered).resolve_left same
      refine Eq.trans (header_congr fun x inside => Bytes.store_outside fun stored => ?_)
        (setUp.headers q registered)
      have written : (Span.mk p headerBytes).Has x :=
        ⟨Nat.le_trans (Nat.le_add_right p 4) stored.1, stored.2⟩
      exact (apartNew q (Or.inl registered)).disjoint x (written.lengthen room.pool_t)
        (inside.lengthen room.pool_t)
  · obtain rfl | before := cases_ q registered
    · obtain another | rfl := used
      · obtain rfl | another := cases_ other another
        · exact absurd rfl different
        · exact apartNew other (Or.inl another)
      · exact apartNew other (Or.inr rfl)
    · obtain another | rfl := used
      · obtain rfl | another := cases_ other another
        · exact Or.symm (apartNew q (Or.inl before))
        · exact sees.apart q before other (Or.inl another) different
      · exact sees.apart q before other (Or.inr rfl) different

theorem poolOpen_seen (c : Config) (base : Nat) (r : RegistryMemory) (h : Nat → PoolHeader)
    (p size id : Nat) (fails : Bool) (contents : Bytes) :
    ∃ h', Jemalloc.poolOpen (r.seen h) p id fails =
        ((poolOpen r p size id fails contents).1.seen h', (poolOpen r p size id fails contents).2) ∧
      (Room c base r p size id → r.Sees c base h →
        (poolOpen r p size id fails contents).1.Sees c base h') := by
  cases fails with
  | true =>
      exact ⟨Function.update h p { h p with poolId := id }, rfl, fun room sees =>
        sees.setUp room contents _⟩
  | false =>
      refine ⟨Function.update h p ⟨id, r.poolSeqno⟩, ?_, fun room sees =>
        sees.register room contents⟩
      unfold Jemalloc.poolOpen poolOpen
      simp [Registry.register, Registry.poolBoot, Registry.setHeader, register, seen, view,
        fillRest, poolBoot]

theorem poolCreateEmpty_seen (c : Config) (base : Nat) (r : RegistryMemory)
    (h : Nat → PoolHeader) (p size : Nat) (zeroed : Bool) (id : Nat) (fails : Bool)
    (contents : Bytes) :
    ∃ h', Jemalloc.poolCreateEmptyAt (r.seen h) p id zeroed fails =
        ((poolCreateEmpty c r p size zeroed id fails contents).1.seen h',
          (poolCreateEmpty c r p size zeroed id fails contents).2) ∧
      (Room c base r p size id → r.Sees c base h →
        (poolCreateEmpty c r p size zeroed id fails contents).1.Sees c base h') := by
  cases zeroed with
  | true => exact poolOpen_seen c base r h p size id fails contents
  | false =>
      obtain ⟨h', same, kept⟩ := poolOpen_seen c base
        { r with mem := Bytes.fill r.mem ⟨p, c.sizeofPool⟩ fun _ => 0 }
        (Function.update h p ⟨0, 0⟩) p size id fails contents
      refine ⟨h', same, fun room sees => kept ⟨room.pool_t, room.room, room.unused, room.small⟩ ?_⟩
      exact (sees.sameOutside room.pool_t room.unused
        (clear_same (c := c) r false room.room)).update room.absent _

/-- The array has at most `POOLS_MAX` entries, so that an id is an `unsigned`. -/
theorem unusedId_lt {s : Registry} (shape : s.Shape base) :
    unusedId 1 (s.pools.drop 1) < 2 ^ 32 := by
  obtain ⟨n, within, found, _⟩ := unusedId_spec 1 (s.pools.drop 1)
  have limit : s.pools.length ≤ poolsMax := by
    cases init : s.basePoolInitialized with
    | false => simp [shape.empty init]
    | true =>
        obtain ⟨k, small, length⟩ := shape.size init
        rw [length]
        exact Nat.mul_le_mul_left poolsMin (Nat.pow_le_pow_right (by decide) small)
  rw [List.length_drop] at within
  unfold poolsMax at limit
  omega

/-- `je_pool_create` does to the array what the registry's does, and to the headers too where
the memory is unused. -/
theorem jePoolCreate_seen (c : Config) (base : Nat) (r : RegistryMemory) (h : Nat → PoolHeader)
    (addr size : Nat) (zeroed empty : Bool) (faults : CreateFaults) (contents : Bytes) :
    ∃ h', Jemalloc.jePoolCreate c base (r.seen h) addr size zeroed empty faults =
        ((jePoolCreate c base r addr size zeroed empty faults contents).1.seen h',
          (jePoolCreate c base r addr size zeroed empty faults contents).2) ∧
      (headerBytes ≤ c.sizeofPool → c.sizeofPool ≤ c.poolMinimalSize →
        (r.seen h).Shape base → Unused c base r ⟨addr, size⟩ → r.Sees c base h →
        (jePoolCreate c base r addr size zeroed empty faults contents).1.Sees c base h') := by
  unfold Jemalloc.jePoolCreate jePoolCreate
  by_cases init : faults.init = true
  · rw [if_pos init, if_pos init]
    exact ⟨h, rfl, fun _ _ _ _ sees => sees⟩
  rw [if_neg init, if_neg init]
  by_cases refused : addr = 0 ∨ size < c.poolMinimalSize
  · rw [if_pos refused, if_pos refused]
    exact ⟨h, rfl, fun _ _ _ _ sees => sees⟩
  rw [if_neg refused, if_neg refused]
  obtain ⟨h₁, same₁, kept₁⟩ := mallocInitBasePool_seen (c := c) r h faults.basePool contents
  have shape₁ := fun shape : (r.seen h).Shape base => shape.mallocInitBasePool faults.basePool
  have unused₁ : Unused c base r ⟨addr, size⟩ →
      Unused c base (mallocInitBasePool c base r faults.basePool contents).1 ⟨addr, size⟩ :=
    fun unused q used =>
      unused q (used.elim (fun registered => registered_of_mallocInitBasePool registered) Or.inr)
  rw [same₁] at shape₁ ⊢
  generalize mallocInitBasePool c base r faults.basePool contents = first at *
  obtain ⟨r₁, failed⟩ := first
  cases failed with
  | true => exact ⟨h₁, rfl, fun _ _ shape _ sees => kept₁ sees shape.empty⟩
  | false =>
  dsimp only at kept₁ shape₁ unused₁ ⊢
  have small := fun shape => unusedId_lt (shape₁ shape)
  rw [show (r₁.seen h₁).pools = r₁.pools from rfl]
  have small : (r.seen h).Shape base → unusedId 1 (r₁.pools.drop 1) < 2 ^ 32 := small
  generalize unusedId 1 (r₁.pools.drop 1) = id at small ⊢
  obtain ⟨same₂, left₂, kept₂⟩ := growPools_seen c base r₁ h₁ id faults.grow contents
  have unused₂ : Unused c base r₁ ⟨addr, size⟩ →
      Unused c base (growPools c base r₁ id faults.grow contents).1 ⟨addr, size⟩ :=
    fun unused q used => unused q (used.imp_left registered_of_growPools)
  rw [same₂]
  generalize growPools c base r₁ id faults.grow contents = second at *
  obtain ⟨r₂, failed⟩ := second
  cases failed with
  | true =>
      refine ⟨h₁, ?_, fun pool_t _ shape _ sees => kept₂ pool_t (kept₁ sees shape.empty)⟩
      show (r₁.seen h₁, none) = (r₂.seen h₁, none)
      rw [left₂ rfl]
  | false =>
  dsimp only at kept₂ unused₂ ⊢
  rw [if_neg Bool.false_ne_true]
  dsimp only
  by_cases last : id = poolsMax
  · rw [if_pos last, if_pos last]
    exact ⟨h₁, rfl, fun pool_t _ shape _ sees => kept₂ pool_t (kept₁ sees shape.empty)⟩
  rw [if_neg last, if_neg last]
  have room : headerBytes ≤ c.sizeofPool → c.sizeofPool ≤ c.poolMinimalSize →
      (r.seen h).Shape base → Unused c base r ⟨addr, size⟩ → Room c base r₂ addr size id := by
    intro pool_t minimal shape unused
    exact ⟨pool_t, by omega, unused₂ (unused₁ unused), small shape⟩
  cases empty with
  | true =>
      obtain ⟨h₃, same₃, kept₃⟩ :=
        poolCreateEmpty_seen c base r₂ h₁ addr size zeroed id faults.poolNew contents
      exact ⟨h₃, same₃, fun pool_t minimal shape unused sees =>
        kept₃ (room pool_t minimal shape unused) (kept₂ pool_t (kept₁ sees shape.empty))⟩
  | false =>
      obtain ⟨h₃, same₃, kept₃⟩ := poolOpen_seen c base r₂ h₁ addr size id faults.poolNew contents
      exact ⟨h₃, same₃, fun pool_t minimal shape unused sees =>
        kept₃ (room pool_t minimal shape unused) (kept₂ pool_t (kept₁ sees shape.empty))⟩

/-- `je_pool_delete` refuses a handle or empties its entry, and the registry's does the same. -/
theorem delete_seen (r : RegistryMemory) (h : Nat → PoolHeader) (p : Nat)
    (same : (h p).poolId = (r.header p).poolId) :
    (jePoolDelete r p = (r, -1) ∧ Jemalloc.jePoolDelete (r.seen h) p = (r.seen h, -1)) ∨
      ∃ id, id ≠ 0 ∧ (h p).poolId = id ∧ r.pools[id]? = some (some p) ∧
        jePoolDelete r p =
          ({ r with
            mem := Bytes.store r.mem p uintMax 4
            pools := r.pools.set id none
            npoolsCnt := r.npoolsCnt - 1 }, 0) ∧
        Jemalloc.jePoolDelete (r.seen h) p =
          ((jePoolDelete r p).1.seen (Function.update h p { h p with poolId := uintMax }), 0) := by
  unfold Jemalloc.jePoolDelete jePoolDelete
  rw [show (r.seen h).header p = h p from rfl, show (r.seen h).pools = r.pools from rfl, same]
  dsimp only
  split
  case isTrue => exact Or.inl ⟨rfl, rfl⟩
  case isFalse accepted =>
      simp only [not_or, not_not] at accepted
      exact Or.inr ⟨_, accepted.1, rfl, accepted.2.2, rfl, rfl⟩

/-! ## Runs in memory and runs of the registry -/

/-- The shape of the array has nothing to do with the headers. -/
theorem shape_seen {g : Nat → PoolHeader} (shape : (r.seen h).Shape base) :
    (r.seen g).Shape base :=
  ⟨shape.empty, shape.first, shape.count, shape.size⟩

/-- Every call keeps the array in shape. -/
theorem shape_exec {op : RegistryMemoryOp} {r' : RegistryMemory} (shape : r.view.Shape base)
    (result : r.exec c base op = some r') : r'.view.Shape base := by
  cases op with
  | create addr size zeroed empty faults contents =>
      injection result with result
      subst result
      obtain ⟨h', same, _⟩ :=
        jePoolCreate_seen c base r r.header addr size zeroed empty faults contents
      have kept :
          (Jemalloc.jePoolCreate c base r.view addr size zeroed empty faults).1.Shape base :=
        shape.exec (show r.view.exec c base (.create addr size zeroed empty faults) = _ from rfl)
      rw [show r.view = r.seen r.header from rfl, same] at kept
      exact shape_seen kept
  | delete p =>
      injection result with result
      subst result
      obtain ⟨refused, _⟩ | ⟨id, positive, _, entry, deleted, _⟩ := delete_seen r r.header p rfl
      · rw [refused]
        exact shape
      · have kept : ({ r.view.setHeader p ⟨0, 0⟩ with
            pools := r.pools.set id none
            npoolsCnt := r.npoolsCnt - 1 } : Registry).Shape base :=
          shape.unregister positive entry
        rw [deleted]
        exact ⟨kept.empty, kept.first, kept.count, kept.size⟩
  | write x byte =>
      injection result with result
      subst result
      exact shape_seen (h := r.header) shape

/-- No pool gets into the array twice. -/
theorem once_exec {op : RegistryMemoryOp} {r' : RegistryMemory} (shape : r.view.Shape base)
    (once : r.view.Once) (permitted : r.NewAddress base op)
    (result : r.exec c base op = some r') : r'.view.Once := by
  cases op with
  | create addr size zeroed empty faults contents =>
      injection result with result
      subst result
      obtain ⟨h', same, _⟩ :=
        jePoolCreate_seen c base r r.header addr size zeroed empty faults contents
      have kept : (Jemalloc.jePoolCreate c base r.view addr size zeroed empty faults).1.Once :=
        once.exec shape
          (show r.view.Permitted base (.create addr size zeroed empty faults) from permitted) rfl
      rw [show r.view = r.seen r.header from rfl, same] at kept
      exact kept
  | delete p =>
      injection result with result
      subst result
      obtain ⟨refused, _⟩ | ⟨id, _, _, _, deleted, _⟩ := delete_seen r r.header p rfl
      · rw [refused]
        exact once
      · rw [deleted]
        exact fun i j q one other => once i j q (Registry.entry_of_set_none one).2
          (Registry.entry_of_set_none other).2
  | write x byte =>
      injection result with result
      subst result
      exact once

/-- The registry is what the memory shows. -/
def Shows (c : Config) (base : Nat) (r : RegistryMemory) (s : Registry) : Prop :=
  ∃ h, s = r.seen h ∧ r.Sees c base h

/-- A deleted pool leaves the headers of the others alone. -/
theorem Sees.delete (sees : r.Sees c base h) (ok : (r.seen h).Ok base)
    (pool_t : headerBytes ≤ c.sizeofPool) (entry : r.pools[id]? = some (some p))
    (value : PoolHeader) {count : Nat} :
    Sees c base
      { r with
        mem := Bytes.store r.mem p uintMax 4
        pools := r.pools.set id none
        npoolsCnt := count }
      (Function.update h p value) := by
  have cases_ : ∀ q, Registered { r with pools := r.pools.set id none } q →
      q ≠ p ∧ r.Registered q := by
    rintro q ⟨i, other⟩
    obtain ⟨here, placed⟩ := Registry.entry_of_set_none other
    refine ⟨?_, i, placed⟩
    rintro rfl
    exact here ((ok.ids id q entry).symm.trans (ok.ids i q placed))
  refine ⟨fun q registered => ?_, fun q registered other used different => ?_, sees.seqno⟩
  · obtain ⟨different, before⟩ := cases_ q registered
    rw [Function.update_of_ne different]
    refine Eq.trans (header_congr fun x inside => Bytes.store_outside fun stored => ?_)
      (sees.headers q before)
    have apart := sees.apart q before p (Or.inl ⟨id, entry⟩) different
    have written : (Span.mk p headerBytes).Has x := stored.lengthen (by decide)
    exact apart.disjoint x (inside.lengthen pool_t) (written.lengthen pool_t)
  · exact sees.apart q (cases_ q registered).2 other
      (used.imp_left fun used => (cases_ other used).2) different

/-- Every run in memory whose pools lie apart is a run of the registry. -/
theorem registry_simulated (fits : c.Fits) (pool_t : headerBytes ≤ c.sizeofPool) {mem : Bytes}
    (header : Nat → PoolHeader)
    (reached : Reached (ApartPermitted c base) (exec c base) (start mem) r) :
    ∃ s, Reached (Registry.Permitted base) (Registry.exec c base) (Registry.start header) s ∧
      r.Shows c base s := by
  refine reached.simulated (Shows c base) ⟨header, rfl, ?_, ?_, ?_⟩ ?_
  · rintro p ⟨i, entry⟩
    cases entry
  · rintro p ⟨i, entry⟩
    cases entry
  · exact Nat.two_pow_pos 32
  rintro before op after other run ⟨h, rfl, sees⟩ permitted result
  have ok : (before.seen h).Ok base := run.invariant (Registry.Ok base)
    (Registry.start_ok base header) fun _ _ _ ok permitted result => ok.exec permitted result
  have minimal : c.sizeofPool ≤ c.poolMinimalSize := by
    have := fits.metadata
    have := c.chunksize_pos
    unfold Config.poolMinimalSize
    omega
  cases op with
  | create addr size zeroed empty faults contents =>
      injection result with result
      subst result
      by_cases tiny : size < c.poolMinimalSize
      · have unchanged :
            (jePoolCreate c base before addr size zeroed empty faults contents).1 = before := by
          unfold jePoolCreate
          rw [if_pos (Or.inr tiny)]
          split <;> rfl
        rw [unchanged]
        exact ⟨_, Reached.start, h, rfl, sees⟩
      · have unused : Unused c base before ⟨addr, size⟩ := by
          rintro q (⟨i, entry⟩ | rfl)
          · exact permitted.2 (some q) (List.mem_of_getElem? entry) q rfl
          · exact permitted.1
        have positive : 0 < headerBytes := by decide
        obtain ⟨absent, foreign⟩ := unused.absent (by omega) pool_t
        obtain ⟨h', same, kept⟩ :=
          jePoolCreate_seen c base before h addr size zeroed empty faults contents
        have allowed : (before.seen h).Permitted base (.create addr size zeroed empty faults) :=
          ⟨foreign, absent⟩
        refine ⟨_, Reached.start.next allowed rfl, h', ?_,
          kept pool_t minimal ok.toShape unused sees⟩
        exact congrArg Prod.fst same
  | delete p =>
      injection result with result
      subst result
      by_cases same : (h p).poolId = (before.header p).poolId
      · obtain ⟨refused, _⟩ | ⟨id, _, _, entry, deleted, shown⟩ := delete_seen before h p same
        · rw [refused]
          exact ⟨_, Reached.start, h, rfl, sees⟩
        · have allowed : (before.seen h).Permitted base (.delete p) := trivial
          refine ⟨_, Reached.start.next allowed rfl, _, congrArg Prod.fst shown, ?_⟩
          rw [deleted]
          exact sees.delete ok pool_t entry _
      · -- the header of a registered pool is the one in memory
        obtain ⟨refused, _⟩ | ⟨id, _, _, entry, _⟩ := delete_seen before before.header p rfl
        · rw [refused]
          exact ⟨_, Reached.start, h, rfl, sees⟩
        · exact absurd (congrArg PoolHeader.poolId (sees.headers p ⟨id, entry⟩)).symm same
  | write x byte =>
      injection result with result
      subst result
      refine ⟨_, Reached.start, h, rfl, sees.mem fun p registered y inside => ?_⟩
      refine Function.update_of_ne ?_ _ _
      rintro rfl
      obtain ⟨i, entry⟩ := registered
      exact permitted (some p) (List.mem_of_getElem? entry) p rfl inside

end RegistryMemory
end Jemalloc
end Vmem
