import Vmem.Jemalloc.ThreadArraySteps

/-!
# Thread arrays over whole runs

Threads, creations and deletions interleave in any way.  What `choose_arena` and
`tcache_get` return belongs to the pool as it is now, even if the id was used by pools
that are gone, and the accesses to the arrays stay inside them, apart from those of
`arenas_cleanup` to `pools` when the array of the thread was extended for the last
pool id of all.
-/

namespace Vmem
namespace Jemalloc

/-! ## The invariant -/

/-- The creation that an entry is for. -/
def owner (i seqno : Nat) : Nat := if i = 0 then 0 else seqno

/-- The arena has been set up. -/
structure ArenaRef.Exists (s : Machine) (a : ArenaRef) : Prop where
  older : a.birth < s.births
  present : HasArena (s.arenas a.birth) a.index

/-- An arena of the pool as it is now. -/
structure ArenaRef.Of (s : Machine) (a : ArenaRef) (p : Nat) : Prop where
  pool : a.pool = p
  birth : a.birth = s.birth p
  exists_ : a.Exists s

/-- An entry of an array with an arena in it. -/
structure SlotOk (s : Machine) (i seqno : Nat) (a : ArenaRef) : Prop where
  birth : a.birth = owner i seqno
  site : s.site a.birth = a.pool
  exists_ : a.Exists s

/-- The id that a pool carries. -/
abbrev Machine.idOf (s : Machine) (p : Nat) : Nat := (s.registry.header p).poolId

/-- What holds where a thread stands, given the length of its array of arenas and its
array of caches. -/
def ThreadPc.Ok (s : Machine) (arenas : Nat) (tcaches : TsdArrays TcacheSlot) : ThreadPc → Prop
  | .idle => True
  | .arenaEnter p k => s.registry.Registered p ∧ (k = .tcacheCreate → s.idOf p < tcaches.npools)
  | .arenaCompare p k | .arenaHard p k =>
      s.registry.Registered p ∧ (k = .tcacheCreate → s.idOf p < tcaches.npools) ∧
        s.idOf p < arenas
  | .arenaStore p a k =>
      s.registry.Registered p ∧ (k = .tcacheCreate → s.idOf p < tcaches.npools) ∧
        s.idOf p < arenas ∧ a.Of s p
  | .arenaReturned p arena => s.registry.Registered p ∧ ∀ a, arena = some a → a.Of s p
  | .tcacheEnter p _ => s.registry.Registered p
  | .tcacheCompare p _ => s.registry.Registered p ∧ s.idOf p < tcaches.npools
  | .tcacheRead p _ =>
      s.registry.Registered p ∧ s.idOf p < tcaches.npools ∧
        -- a cache of another incarnation has been removed
        ∀ a, tcaches.slots[s.idOf p]? = some (.cache a) →
          tcaches.seqno[s.idOf p]? = some (s.registry.header p).seqno
  | .tcacheCreate p arena =>
      s.registry.Registered p ∧ s.idOf p < tcaches.npools ∧ ∀ a, arena = some a → a.Of s p
  | .tcacheStore p a => s.registry.Registered p ∧ s.idOf p < tcaches.npools ∧ a.Of s p
  | .tcacheReturned p cache => s.registry.Registered p ∧ ∀ a, cache = some a → a.Of s p

/-- The invariant of one thread. -/
structure Thread.Ok (s : Machine) (t : Thread) : Prop where
  arenas : t.arenas.Ok
  tcaches : t.tcaches.Ok
  arenaSlots : ∀ (i : Nat) (a : ArenaRef) (seqno : Nat), t.arenas.slots[i]? = some (some a) →
    t.arenas.seqno[i]? = some seqno → SlotOk s i seqno a
  tcacheSlots : ∀ (i : Nat) (a : ArenaRef) (seqno : Nat), t.tcaches.slots[i]? = some (.cache a) →
    t.tcaches.seqno[i]? = some seqno → SlotOk s i seqno a
  below : CachesBelow s.registry t.tcaches
  extended : t.arenas.npools = (t.extendedFor.map tsdExtendLength).getD 0
  extendedLive : ∀ id, t.extendedFor = some id → id < s.registry.pools.length
  pc : t.pc.Ok s t.arenas.npools t.tcaches

/-- The invariant of the machine. -/
structure Machine.Ok (base : Nat) (s : Machine) : Prop where
  registry : s.registry.Ok base
  init : s.registry.basePoolInitialized = true
  seqno : s.registry.poolSeqno = s.births % 2 ^ 32
  owners : ∀ i p : Nat, s.registry.pools[i]? = some (some p) →
    s.birth p = owner i (s.registry.header p).seqno ∧ s.birth p < s.births ∧
      s.site (s.birth p) = p
  first : ∀ p, s.registry.Registered p → HasArena (s.arenas (s.birth p)) 0
  threads : ∀ t ∈ s.threads, t.Ok s

/-! ## What a change elsewhere leaves alone -/

/-- The pools a thread may depend on are as they were, and nothing is forgotten. -/
structure Extends (s s' : Machine) : Prop where
  npools : s.registry.pools.length ≤ s'.registry.pools.length
  births : s.births ≤ s'.births
  site : ∀ b < s.births, s'.site b = s.site b
  arenas : ∀ b < s.births, ∀ i, HasArena (s.arenas b) i → HasArena (s'.arenas b) i

/-- A pool is registered as it was. -/
structure SamePool (s s' : Machine) (p : Nat) : Prop where
  registered : s'.registry.Registered p
  header : s'.registry.header p = s.registry.header p
  birth : s'.birth p = s.birth p

section

variable {s s' : Machine} {t : Thread} {p : Nat} {a : ArenaRef}

theorem ArenaRef.Exists.frame (ok : a.Exists s) (extends_ : Extends s s') : a.Exists s' :=
  ⟨Nat.lt_of_lt_of_le ok.older extends_.births, extends_.arenas _ ok.older _ ok.present⟩

theorem SlotOk.frame {i seqno : Nat} (ok : SlotOk s i seqno a) (extends_ : Extends s s') :
    SlotOk s' i seqno a :=
  ⟨ok.birth, (extends_.site _ ok.exists_.older).trans ok.site, ok.exists_.frame extends_⟩

theorem ArenaRef.Of.frame (of : a.Of s p) (extends_ : Extends s s') (same : SamePool s s' p) :
    a.Of s' p :=
  ⟨of.pool, of.birth.trans same.birth.symm, of.exists_.frame extends_⟩

theorem SamePool.idOf (same : SamePool s s' p) : s'.idOf p = s.idOf p := by
  unfold Machine.idOf
  rw [same.header]

theorem ThreadPc.Ok.frame {pc : ThreadPc} {arenas : Nat} {tcaches : TsdArrays TcacheSlot}
    (ok : pc.Ok s arenas tcaches) (extends_ : Extends s s')
    (same : ∀ p, pc.pool = some p → s.registry.Registered p → SamePool s s' p) :
    pc.Ok s' arenas tcaches := by
  cases pc with
  | idle => trivial
  | arenaEnter p k =>
      obtain ⟨registered, cache⟩ := ok
      have same := same p rfl registered
      exact ⟨same.registered, fun isCache => same.idOf ▸ cache isCache⟩
  | arenaCompare p k =>
      obtain ⟨registered, cache, inside⟩ := ok
      have same := same p rfl registered
      exact ⟨same.registered, fun isCache => same.idOf ▸ cache isCache, same.idOf ▸ inside⟩
  | arenaHard p k =>
      obtain ⟨registered, cache, inside⟩ := ok
      have same := same p rfl registered
      exact ⟨same.registered, fun isCache => same.idOf ▸ cache isCache, same.idOf ▸ inside⟩
  | arenaStore p a k =>
      obtain ⟨registered, cache, inside, of⟩ := ok
      have same := same p rfl registered
      exact ⟨same.registered, fun isCache => same.idOf ▸ cache isCache, same.idOf ▸ inside,
        of.frame extends_ same⟩
  | arenaReturned p arena =>
      obtain ⟨registered, of⟩ := ok
      have same := same p rfl registered
      exact ⟨same.registered, fun a isSome => (of a isSome).frame extends_ same⟩
  | tcacheEnter p create => exact (same p rfl ok).registered
  | tcacheCompare p create =>
      obtain ⟨registered, inside⟩ := ok
      have same := same p rfl registered
      exact ⟨same.registered, same.idOf ▸ inside⟩
  | tcacheRead p create =>
      obtain ⟨registered, inside, current⟩ := ok
      have same := same p rfl registered
      refine ⟨same.registered, same.idOf ▸ inside, ?_⟩
      rw [same.idOf, same.header]
      exact current
  | tcacheCreate p arena =>
      obtain ⟨registered, inside, of⟩ := ok
      have same := same p rfl registered
      exact ⟨same.registered, same.idOf ▸ inside, fun a isSome => (of a isSome).frame extends_ same⟩
  | tcacheStore p a =>
      obtain ⟨registered, inside, of⟩ := ok
      have same := same p rfl registered
      exact ⟨same.registered, same.idOf ▸ inside, of.frame extends_ same⟩
  | tcacheReturned p cache =>
      obtain ⟨registered, of⟩ := ok
      have same := same p rfl registered
      exact ⟨same.registered, fun a isSome => (of a isSome).frame extends_ same⟩

theorem Thread.Ok.frame (ok : t.Ok s) (extends_ : Extends s s')
    (same : ∀ p, t.pc.pool = some p → s.registry.Registered p → SamePool s s' p) : t.Ok s' where
  arenas := ok.arenas
  tcaches := ok.tcaches
  arenaSlots := fun i a seqno entry number => (ok.arenaSlots i a seqno entry number).frame extends_
  tcacheSlots := fun i a seqno entry number =>
    (ok.tcacheSlots i a seqno entry number).frame extends_
  below := fun i a entry => Nat.lt_of_lt_of_le (ok.below i a entry) extends_.npools
  extended := ok.extended
  extendedLive := fun id isSome => Nat.lt_of_lt_of_le (ok.extendedLive id isSome) extends_.npools
  pc := ok.pc.frame extends_ same

/-! ## Steps of a thread -/

variable {base : Nat}

/-- A registered pool carries the id under which it is registered. -/
theorem Machine.Ok.entry (ok : s.Ok base) (registered : s.registry.Registered p) :
    s.registry.pools[s.idOf p]? = some (some p) := by
  obtain ⟨i, entry⟩ := registered
  have id : s.idOf p = i := ok.registry.ids i p entry
  rw [id]
  exact entry

theorem Machine.Ok.id_lt (ok : s.Ok base) (registered : s.registry.Registered p) :
    s.idOf p < s.registry.pools.length :=
  (List.getElem?_eq_some_iff.mp (ok.entry registered)).1

/-- Ids are small. -/
theorem Machine.Ok.small (ok : s.Ok base) {id : Nat} (inside : id < s.registry.pools.length) :
    id + 1 < 2 ^ 32 := by
  obtain ⟨k, small, length⟩ := ok.registry.size ok.init
  have limit : s.registry.pools.length ≤ poolsMin * 2 ^ 11 := by
    rw [length]
    exact Nat.mul_le_mul_left poolsMin (Nat.pow_le_pow_right (by decide) small)
  have : poolsMin * 2 ^ 11 < 2 ^ 32 := by decide
  omega

/-- An arena of the pool as it is now may stand in its entry. -/
theorem ArenaRef.Of.slotOk (of : a.Of s p) (ok : s.Ok base) (registered : s.registry.Registered p) :
    SlotOk s (s.idOf p) (s.registry.header p).seqno a := by
  obtain ⟨birth, _, site⟩ := ok.owners _ p (ok.entry registered)
  refine ⟨of.birth.trans birth, ?_, of.exists_⟩
  rw [of.birth, of.pool]
  exact site

/-- An entry with the sequence number of the pool has an arena of the pool as it is
now. -/
theorem SlotOk.of {seqno : Nat} (slot : SlotOk s (s.idOf p) seqno a) (ok : s.Ok base)
    (registered : s.registry.Registered p) (same : seqno = (s.registry.header p).seqno) :
    a.Of s p := by
  obtain ⟨birth, _, site⟩ := ok.owners _ p (ok.entry registered)
  have equal : a.birth = s.birth p := by
    rw [slot.birth, same, birth]
  refine ⟨?_, equal, slot.exists_⟩
  rw [← slot.site, equal]
  exact site

namespace Thread

/-- A step that only moves on. -/
theorem Ok.goto (ok : t.Ok s) {pc : ThreadPc} (stands : pc.Ok s t.arenas.npools t.tcaches) :
    Ok s { t with pc := pc } :=
  ⟨ok.arenas, ok.tcaches, ok.arenaSlots, ok.tcacheSlots, ok.below, ok.extended, ok.extendedLive,
    stands⟩

/-- The array of arenas is extended. -/
theorem Ok.extendArenas (ok : t.Ok s) {id : Nat} {pc : ThreadPc} (small : id + 1 < 2 ^ 32)
    (short : t.arenas.npools ≤ id) (live : id < s.registry.pools.length)
    (stands : pc.Ok s (tsdExtendLength id) t.tcaches) :
    Ok s { t with arenas := t.arenas.extend id none, extendedFor := some id, pc := pc } := by
  refine ⟨ok.arenas.extended small short, ok.tcaches, ?_, ok.tcacheSlots, ok.below, rfl, ?_, stands⟩
  · intro i a seqno entry number
    obtain blank | ⟨oldEntry, oldNumber⟩ := ok.arenas.extended_slots entry number
    · cases blank
    · exact ok.arenaSlots i a seqno oldEntry oldNumber
  · intro other same
    injection same with same
    exact same ▸ live

/-- The array of caches is extended. -/
theorem Ok.extendTcaches (ok : t.Ok s) {id : Nat} {pc : ThreadPc} (small : id + 1 < 2 ^ 32)
    (short : t.tcaches.npools ≤ id) 
    (stands : pc.Ok s t.arenas.npools (t.tcaches.extend id .null)) :
    Ok s { t with tcaches := t.tcaches.extend id .null, pc := pc } := by
  have larger : (t.tcaches.extend id TcacheSlot.null).Ok := ok.tcaches.extended small short
  have old : ∀ (i : Nat) (a : ArenaRef),
      (t.tcaches.extend id TcacheSlot.null).slots[i]? = some (.cache a) →
      t.tcaches.slots[i]? = some (.cache a) ∧ ∀ seqno,
        (t.tcaches.extend id TcacheSlot.null).seqno[i]? = some seqno →
        t.tcaches.seqno[i]? = some seqno := by
    intro i a entry
    have inside : i < (t.tcaches.extend id TcacheSlot.null).seqno.length := by
      rw [larger.seqno, ← larger.slots]
      exact (List.getElem?_eq_some_iff.mp entry).1
    obtain blank | ⟨oldEntry, _⟩ :=
      ok.tcaches.extended_slots entry (List.getElem?_eq_getElem inside)
    · cases blank
    · refine ⟨oldEntry, fun seqno number => ?_⟩
      obtain blank | ⟨_, oldNumber⟩ := ok.tcaches.extended_slots entry number
      · cases blank
      · exact oldNumber
  refine ⟨ok.arenas, larger, ok.arenaSlots, ?_, ?_, ok.extended, ok.extendedLive, stands⟩
  · intro i a seqno entry number
    obtain ⟨oldEntry, oldNumber⟩ := old i a entry
    exact ok.tcacheSlots i a seqno oldEntry (oldNumber seqno number)
  · intro i a entry
    exact ok.below i a (old i a entry).1

/-- Entries lose their caches. -/
theorem Ok.dropCaches (ok : t.Ok s) {tsd : TsdArrays TcacheSlot} (fewer : Fewer t.tcaches tsd)
    {pc : ThreadPc} (stands : pc.Ok s t.arenas.npools tsd) (enabled : Option Bool) :
    Ok s { t with tcaches := tsd, tcacheEnabled := enabled, pc := pc } := by
  refine ⟨ok.arenas, fewer.ok, ok.arenaSlots, ?_, fewer.below ok.below, ok.extended,
    ok.extendedLive, stands⟩
  intro i a seqno entry number
  have number : tsd.seqno[i]? = some seqno := number
  rw [fewer.seqno] at number
  exact ok.tcacheSlots i a seqno (fewer.caches i a entry) number

/-- An arena is written to its entry. -/
theorem Ok.storeArena (ok : t.Ok s) {id seqno : Nat} {pc : ThreadPc} (slot : SlotOk s id seqno a)
    (stands : pc.Ok s t.arenas.npools t.tcaches) :
    Ok s { t with
      arenas := { t.arenas with
        seqno := t.arenas.seqno.set id seqno, slots := t.arenas.slots.set id (some a) }
      pc := pc } := by
  refine ⟨ok.arenas.stored seqno (some a), ok.tcaches, ?_, ok.tcacheSlots, ok.below, ok.extended,
    ok.extendedLive, stands⟩
  intro i b number entry read
  have entry : (t.arenas.slots.set id (some a))[i]? = some (some b) := entry
  have read : (t.arenas.seqno.set id seqno)[i]? = some number := read
  by_cases here : id = i
  · subst here
    rw [List.getElem?_set] at entry read
    simp only [if_true] at entry read
    split at entry
    · split at read
      · injection entry with entry
        injection entry with entry
        injection read with read
        rw [← entry, ← read]
        exact slot
      · cases read
    · cases entry
  · rw [List.getElem?_set_ne here] at entry read
    exact ok.arenaSlots i b number entry read

/-- An element other than a stale cache is written to its entry. -/
theorem Ok.storeTcache (ok : t.Ok s) {id seqno : Nat} {value : TcacheSlot} {pc : ThreadPc}
    (slot : ∀ a, value = .cache a → SlotOk s id seqno a ∧ id < s.registry.pools.length)
    (stands : pc.Ok s t.arenas.npools { t.tcaches with
      seqno := t.tcaches.seqno.set id seqno, slots := t.tcaches.slots.set id value }) :
    Ok s { t with
      tcaches := { t.tcaches with
        seqno := t.tcaches.seqno.set id seqno, slots := t.tcaches.slots.set id value }
      pc := pc } := by
  have place : ∀ (i : Nat) (b : ArenaRef), (t.tcaches.slots.set id value)[i]? = some (.cache b) →
      (id = i ∧ value = .cache b) ∨ (id ≠ i ∧ t.tcaches.slots[i]? = some (.cache b)) := by
    intro i b entry
    by_cases here : id = i
    · subst here
      rw [List.getElem?_set] at entry
      simp only [if_true] at entry
      split at entry
      · injection entry with entry
        exact Or.inl ⟨rfl, entry⟩
      · cases entry
    · rw [List.getElem?_set_ne here] at entry
      exact Or.inr ⟨here, entry⟩
  refine ⟨ok.arenas, ok.tcaches.stored seqno value, ok.arenaSlots, ?_, ?_, ok.extended,
    ok.extendedLive, stands⟩
  · intro i b number entry read
    have read : (t.tcaches.seqno.set id seqno)[i]? = some number := read
    obtain ⟨rfl, isCache⟩ | ⟨other, old⟩ := place i b entry
    · rw [List.getElem?_set] at read
      simp only [if_true] at read
      split at read
      · injection read with read
        exact read ▸ (slot b isCache).1
      · cases read
    · rw [List.getElem?_set_ne other] at read
      exact ok.tcacheSlots i b number old read
  · intro i b entry
    obtain ⟨rfl, isCache⟩ | ⟨_, old⟩ := place i b entry
    · exact (slot b isCache).2
    · exact ok.below i b old

end Thread

/-- `choose_arena` returns an arena of the pool as it is now. -/
theorem ArenaCont.resume_ok {k : ArenaCont} {arena : Option ArenaRef} {arenas : Nat}
    {tcaches : TsdArrays TcacheSlot} (registered : s.registry.Registered p)
    (cache : k = .tcacheCreate → s.idOf p < tcaches.npools)
    (of : ∀ a, arena = some a → a.Of s p) : (k.resume p arena).Ok s arenas tcaches := by
  cases k with
  | return_ => exact ⟨registered, of⟩
  | tcacheCreate => exact ⟨registered, cache rfl, of⟩

/-- The thread can take the step, no arena is lost, and the thread keeps its
invariant. -/
def Steps (s : Machine) (result : Option ((Nat → List (Option Nat)) × Thread)) : Prop :=
  ∃ arenas t, result = some (arenas, t) ∧ Extends s { s with arenas := arenas } ∧
    t.Ok { s with arenas := arenas }

theorem Extends.refl : Extends s s :=
  ⟨Nat.le_refl _, Nat.le_refl _, fun _ _ => rfl, fun _ _ _ => id⟩

/-- A step that changes no arena. -/
theorem Steps.stay {t' : Thread} (ok : t'.Ok s) : Steps s (some (s.arenas, t')) :=
  ⟨s.arenas, t', rfl, Extends.refl, ok⟩

theorem steps_tcacheGetHard (thread : t.Ok s) (registered : s.registry.Registered p)
    (inside : s.idOf p < t.tcaches.npools) (optTcache create : Bool) :
    ∃ t', tcacheGetHard optTcache s.registry t p create = some t' ∧ t'.Ok s := by
  have returns : ∀ tsd, ThreadPc.Ok s t.arenas.npools tsd (.tcacheReturned p none) :=
    fun _ => ⟨registered, fun _ absurd_ => by cases absurd_⟩
  unfold tcacheGetHard
  split
  · exact ⟨_, rfl, thread.goto (returns _)⟩
  · split
    · exact ⟨_, rfl, thread.dropCaches (Fewer.refl thread.tcaches)
        (show ThreadPc.Ok s _ _ (.arenaEnter p .tcacheCreate) from ⟨registered, fun _ => inside⟩)
        (some true)⟩
    · obtain ⟨tsd, loop, fewer⟩ := tcacheEnabledLoop_spec false t.tcaches.npools 0 t.tcaches
        thread.tcaches thread.below (Nat.zero_add _)
      unfold tcacheEnabledSet
      rw [loop]
      exact ⟨_, rfl, thread.dropCaches fewer (returns _) (some false)⟩

/-- An arena array may be replaced by one that has all its arenas. -/
theorem Extends.updateArenas {b : Nat} {arenas : List (Option Nat)}
    (keeps : ∀ i, HasArena (s.arenas b) i → HasArena arenas i) :
    Extends s { s with arenas := Function.update s.arenas b arenas } := by
  refine ⟨Nat.le_refl _, Nat.le_refl _, fun _ _ => rfl, fun other _ i has => ?_⟩
  show HasArena (Function.update s.arenas b arenas other) i
  by_cases same : other = b
  · subst same
    rw [Function.update_self]
    exact keeps i has
  · rw [Function.update_of_ne same]
    exact has

/-- An arena of the array that a pool has now. -/
theorem ArenaRef.of_updateArenas {arenas : List (Option Nat)} {index : Nat}
    (older : s.birth p < s.births) (has : HasArena arenas index) :
    (⟨p, s.birth p, index⟩ : ArenaRef).Of
      { s with arenas := Function.update s.arenas (s.birth p) arenas } p := by
  refine ⟨rfl, rfl, older, ?_⟩
  show HasArena (Function.update s.arenas (s.birth p) arenas (s.birth p)) index
  rw [Function.update_self]
  exact has

/-- A slot with a stale cache is cleared before it is read. -/
theorem steps_clearSlot (thread : t.Ok s) (registered : s.registry.Registered p)
    (within : s.idOf p < t.tcaches.npools) (create : Bool) :
    Steps s (some (s.arenas, { t with
      pc := .tcacheRead p create
      tcaches := { t.tcaches with slots := t.tcaches.slots.set (s.idOf p) .null } })) := by
  have fewer : Fewer t.tcaches
      { t.tcaches with slots := t.tcaches.slots.set (s.idOf p) .null } :=
    Fewer.set thread.tcaches _ fun _ absurd_ => by cases absurd_
  have stands : ThreadPc.Ok s t.arenas.npools
      { t.tcaches with slots := t.tcaches.slots.set (s.idOf p) .null }
      (.tcacheRead p create) := by
    refine ⟨registered, within, fun a entry => ?_⟩
    rw [List.getElem?_set] at entry
    simp only [if_true] at entry
    split at entry <;> cases entry
  exact Steps.stay (thread.dropCaches fewer stands t.tcacheEnabled)

/-! ### One stage of a call each -/

theorem steps_arenaEnter (ok : s.Ok base) (thread : t.Ok s) {k : ArenaCont}
    (stage : t.pc = .arenaEnter p k) (optTcache fails : Bool) :
    Steps s (advanceThread optTcache s.registry s.birth s.arenas t fails) := by
  have stands := thread.pc
  unfold advanceThread
  rw [stage] at stands ⊢
  obtain ⟨registered, cache⟩ := stands
  have live := ok.id_lt registered
  have small := ok.small live
  dsimp only
  split
  case isTrue short =>
      split
      · exact Steps.stay (thread.goto
          (ArenaCont.resume_ok registered cache fun _ absurd_ => by cases absurd_))
      · exact Steps.stay (thread.extendArenas small short live
          ⟨registered, cache, lt_tsdExtendLength small⟩)
  case isFalse long =>
      exact Steps.stay (thread.goto ⟨registered, cache, Nat.lt_of_not_le long⟩)

/-- An entry is used only if it has the sequence number of the pool. -/
theorem steps_arenaCompare (ok : s.Ok base) (thread : t.Ok s) {k : ArenaCont}
    (stage : t.pc = .arenaCompare p k) (optTcache fails : Bool) :
    Steps s (advanceThread optTcache s.registry s.birth s.arenas t fails) := by
  have stands := thread.pc
  unfold advanceThread
  rw [stage] at stands ⊢
  obtain ⟨registered, cache, within⟩ := stands
  obtain ⟨seqno, readSeqno, number⟩ := thread.arenas.seqnoAt within
  obtain ⟨slot, readSlot, entry⟩ := thread.arenas.slotAt within
  dsimp only
  rw [readSeqno, readSlot]
  dsimp only
  split
  case isTrue => exact Steps.stay (thread.goto ⟨registered, cache, within⟩)
  case isFalse same =>
      simp only [not_or, not_not] at same
      refine Steps.stay (thread.goto (ArenaCont.resume_ok registered cache ?_))
      intro a isSome
      subst isSome
      exact (thread.arenaSlots _ a seqno entry number).of ok registered same.1

/-- `choose_arena_hard` sets up arenas of the pool as it is now, and loses none. -/
theorem steps_arenaHard (ok : s.Ok base) (thread : t.Ok s) {k : ArenaCont}
    (stage : t.pc = .arenaHard p k) (optTcache fails : Bool) :
    Steps s (advanceThread optTcache s.registry s.birth s.arenas t fails) := by
  have stands := thread.pc
  unfold advanceThread
  rw [stage] at stands ⊢
  obtain ⟨registered, cache, within⟩ := stands
  obtain ⟨chosen, keeps⟩ := chooseArenaHard_spec (ok.first p registered) fails
  have older := (ok.owners _ p (ok.entry registered)).2.1
  generalize result : chooseArenaHard (s.arenas (s.birth p)) fails = pair at chosen keeps
  obtain ⟨arenas, index⟩ := pair
  have extends_ := Extends.updateArenas keeps
  have of := ArenaRef.of_updateArenas older chosen
  dsimp only
  rw [result]
  have kept := thread.frame extends_ fun _ _ registered => ⟨registered, rfl, rfl⟩
  exact ⟨_, _, rfl, extends_, kept.goto ⟨registered, cache, within, of⟩⟩

theorem steps_arenaStore (ok : s.Ok base) (thread : t.Ok s) {k : ArenaCont}
    (stage : t.pc = .arenaStore p a k) (optTcache fails : Bool) :
    Steps s (advanceThread optTcache s.registry s.birth s.arenas t fails) := by
  have stands := thread.pc
  unfold advanceThread
  rw [stage] at stands ⊢
  obtain ⟨registered, cache, within, of⟩ := stands
  dsimp only
  rw [TsdArrays.store_eq within]
  refine Steps.stay (thread.storeArena (of.slotOk ok registered) ?_)
  refine ArenaCont.resume_ok registered cache fun b same => ?_
  injection same with same
  exact same ▸ of

theorem steps_tcacheEnter (ok : s.Ok base) (thread : t.Ok s) {create : Bool}
    (stage : t.pc = .tcacheEnter p create) (optTcache fails : Bool) :
    Steps s (advanceThread optTcache s.registry s.birth s.arenas t fails) := by
  have stands := thread.pc
  unfold advanceThread
  rw [stage] at stands ⊢
  have registered : s.registry.Registered p := stands
  have small := ok.small (ok.id_lt registered)
  dsimp only
  split
  case isTrue short =>
      split
      · exact Steps.stay (thread.goto ⟨registered, fun _ absurd_ => by cases absurd_⟩)
      · exact Steps.stay (thread.extendTcaches small short
          ⟨registered, lt_tsdExtendLength small⟩)
  case isFalse long => exact Steps.stay (thread.goto ⟨registered, Nat.lt_of_not_le long⟩)

/-- A cache of another incarnation is removed. -/
theorem steps_tcacheCompare (thread : t.Ok s) {create : Bool}
    (stage : t.pc = .tcacheCompare p create) (optTcache fails : Bool) :
    Steps s (advanceThread optTcache s.registry s.birth s.arenas t fails) := by
  have stands := thread.pc
  unfold advanceThread
  rw [stage] at stands ⊢
  obtain ⟨registered, within⟩ := stands
  obtain ⟨seqno, readSeqno, number⟩ := thread.tcaches.seqnoAt within
  dsimp only
  rw [readSeqno]
  dsimp only
  split
  case isTrue =>
      rw [TsdArrays.setSlot_eq within]
      exact steps_clearSlot thread registered within create
  case isFalse same =>
      simp only [not_not] at same
      refine Steps.stay (thread.goto ⟨registered, within, fun _ _ => ?_⟩)
      rw [← same]
      exact number

/-- The cache that is found is one of the pool as it is now. -/
theorem steps_tcacheRead (ok : s.Ok base) (thread : t.Ok s) {create : Bool}
    (stage : t.pc = .tcacheRead p create) (optTcache fails : Bool) :
    Steps s (advanceThread optTcache s.registry s.birth s.arenas t fails) := by
  have stands := thread.pc
  unfold advanceThread
  rw [stage] at stands ⊢
  obtain ⟨registered, within, current⟩ := stands
  obtain ⟨slot, readSlot, entry⟩ := thread.tcaches.slotAt within
  have returns : ∀ tsd, ThreadPc.Ok s t.arenas.npools tsd (.tcacheReturned p none) :=
    fun _ => ⟨registered, fun _ absurd_ => by cases absurd_⟩
  dsimp only
  rw [readSlot]
  cases slot with
  | null =>
      obtain ⟨t', result, kept⟩ :=
        steps_tcacheGetHard thread registered within optTcache create
      dsimp only
      rw [result]
      exact Steps.stay kept
  | disabled | reincarnated => exact Steps.stay (thread.goto (returns _))
  | purgatory =>
      dsimp only
      rw [TsdArrays.store_eq within]
      exact Steps.stay (thread.storeTcache (fun _ absurd_ => by cases absurd_) (returns _))
  | cache a =>
      refine Steps.stay (thread.goto ⟨registered, fun b same => ?_⟩)
      injection same with same
      subst same
      exact (thread.tcacheSlots _ a _ entry (current a entry)).of ok registered rfl

theorem steps_tcacheCreate (thread : t.Ok s) {arena : Option ArenaRef}
    (stage : t.pc = .tcacheCreate p arena) (optTcache fails : Bool) :
    Steps s (advanceThread optTcache s.registry s.birth s.arenas t fails) := by
  have stands := thread.pc
  unfold advanceThread
  rw [stage] at stands ⊢
  obtain ⟨registered, within, of⟩ := stands
  have returns : ThreadPc.Ok s t.arenas.npools t.tcaches (.tcacheReturned p none) :=
    ⟨registered, fun _ absurd_ => by cases absurd_⟩
  cases arena with
  | none => exact Steps.stay (thread.goto returns)
  | some a =>
      dsimp only
      split
      · exact Steps.stay (thread.goto returns)
      · exact Steps.stay (thread.goto ⟨registered, within, of a rfl⟩)

theorem steps_tcacheStore (ok : s.Ok base) (thread : t.Ok s)
    (stage : t.pc = .tcacheStore p a) (optTcache fails : Bool) :
    Steps s (advanceThread optTcache s.registry s.birth s.arenas t fails) := by
  have stands := thread.pc
  unfold advanceThread
  rw [stage] at stands ⊢
  obtain ⟨registered, within, of⟩ := stands
  have slot := of.slotOk ok registered
  have live := ok.id_lt registered
  dsimp only
  rw [of.pool, TsdArrays.store_eq within]
  refine Steps.stay (thread.storeTcache ?_ ⟨registered, fun b same => ?_⟩)
  · intro b same
    injection same with same
    subst same
    exact ⟨slot, live⟩
  · injection same with same
    exact same ▸ of

/-- Every step of a call stays inside the arrays and keeps the invariant. -/
theorem steps_advance (ok : s.Ok base) (thread : t.Ok s) (running : t.pc ≠ .idle)
    (inside : t.pc.returned = false) (optTcache fails : Bool) :
    Steps s (advanceThread optTcache s.registry s.birth s.arenas t fails) := by
  cases stage : t.pc with
  | idle => exact absurd stage running
  | arenaReturned p arena | tcacheReturned p cache =>
      rw [stage] at inside
      cases inside
  | arenaEnter p k => exact steps_arenaEnter ok thread stage optTcache fails
  | arenaCompare p k => exact steps_arenaCompare ok thread stage optTcache fails
  | arenaHard p k => exact steps_arenaHard ok thread stage optTcache fails
  | arenaStore p a k => exact steps_arenaStore ok thread stage optTcache fails
  | tcacheEnter p create => exact steps_tcacheEnter ok thread stage optTcache fails
  | tcacheCompare p create => exact steps_tcacheCompare thread stage optTcache fails
  | tcacheRead p create => exact steps_tcacheRead ok thread stage optTcache fails
  | tcacheCreate p arena => exact steps_tcacheCreate thread stage optTcache fails
  | tcacheStore p a => exact steps_tcacheStore ok thread stage optTcache fails
end

end Jemalloc
end Vmem
