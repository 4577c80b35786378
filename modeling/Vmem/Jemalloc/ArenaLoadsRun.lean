import Vmem.Jemalloc.ArenaLoads

/-!
# Arena loads over whole runs

A step of a thread changes the counts of the arenas by what it changes in the entries of
the thread: counting comes with the step before the entry is written, and the destructor
takes away exactly what the current entries stand for.  Pools that come and go leave the
counts of the others alone.
-/

namespace Vmem
namespace Jemalloc

/-! ## What a step of a thread does to its arenas -/

/-- The pool whose entry the thread is about to write. -/
def ThreadPc.waits : ThreadPc → Option Nat
  | .arenaHard p _ | .arenaStore p _ _ => some p
  | _ => none

/-- What a step does to the arenas and to the entries of the thread. -/
inductive LoadChange (s : Machine) (t : Thread) : (Nat → List (Option Nat)) → Thread → Prop
  | quiet (t' : Thread) (arrays : t'.arenas = t.arenas) (joins : ∀ a, t'.joins a = t.joins a)
      (waits : t'.pc.waits = none) : LoadChange s t s.arenas t'
  | extend (p : Nat) (k : ArenaCont) (t' : Thread) (stage : t.pc = .arenaEnter p k)
      (short : t.arenas.npools ≤ s.idOf p)
      (arrays : t'.arenas = t.arenas.extend (s.idOf p) none) (after : t'.pc = .arenaCompare p k) :
      LoadChange s t s.arenas t'
  | compare (p : Nat) (k : ArenaCont) (stage : t.pc = .arenaCompare p k)
      (mismatch : ∀ a, ¬t.Points s.registry p a) :
      LoadChange s t s.arenas { t with pc := .arenaHard p k }
  | hard (p : Nat) (k : ArenaCont) (chosen : List (Option Nat)) (index : Nat) (fails : Bool)
      (stage : t.pc = .arenaHard p k)
      (result : chooseArenaHard (s.arenas (s.birth p)) fails = (chosen, index)) :
      LoadChange s t (Function.update s.arenas (s.birth p) chosen)
        { t with pc := .arenaStore p (s.arena p index) k }
  | store (p : Nat) (a : ArenaRef) (k : ArenaCont) (t' : Thread)
      (stage : t.pc = .arenaStore p a k) (within : s.idOf p < t.arenas.npools)
      (arrays : t'.arenas = { t.arenas with
        seqno := t.arenas.seqno.set (s.idOf p) (s.registry.header p).seqno
        slots := t.arenas.slots.set (s.idOf p) (some a) })
      (after : t'.pc = k.resume p (some a)) : LoadChange s t s.arenas t'

section

variable {s : Machine} {t t' : Thread} {arenas : Nat → List (Option Nat)} {p : Nat}

theorem joins_of_waits (none_ : t.pc.waits = none) (a : ArenaRef) : t.joins a = false := by
  unfold Thread.joins
  cases stage : t.pc with
  | arenaStore p b k =>
      rw [stage] at none_
      cases none_
  | _ => rfl

theorem resume_waits (p : Nat) (arena : Option ArenaRef) (k : ArenaCont) :
    (k.resume p arena).waits = none := by
  cases k with
  | return_ => rfl
  | tcacheCreate => rfl

/-- A step between two places where no entry is about to be written. -/
theorem LoadChange.of_arrays (arrays : t'.arenas = t.arenas) (before : t.pc.waits = none)
    (after : t'.pc.waits = none) : LoadChange s t s.arenas t' :=
  .quiet t' arrays (fun a => (joins_of_waits after a).trans (joins_of_waits before a).symm) after

theorem tcacheGetHard_arrays {optTcache create : Bool} {r : Registry}
    (result : tcacheGetHard optTcache r t p create = some t') :
    t'.arenas = t.arenas ∧ t'.pc.waits = none := by
  unfold tcacheGetHard at result
  split at result
  · injection result with result
    subst result
    exact ⟨rfl, rfl⟩
  split at result
  · injection result with result
    subst result
    exact ⟨rfl, rfl⟩
  unfold tcacheEnabledSet at result
  rw [Option.map_map] at result
  obtain ⟨tsd, -, rfl⟩ := Option.map_eq_some_iff.1 result
  exact ⟨rfl, rfl⟩

/-- Where the arenas stay, the step changes at most where the thread stands. -/
theorem LoadChange.of_moved {u : Thread} (same : some (s.arenas, u) = some (arenas, t'))
    (arrays : u.arenas = t.arenas) (before : t.pc.waits = none) (after : u.pc.waits = none) :
    LoadChange s t arenas t' := by
  obtain ⟨rfl, rfl⟩ := Prod.mk.inj (Option.some.inj same)
  exact LoadChange.of_arrays arrays before after

section Advance

variable {optTcache fails : Bool}

/-- The array of arenas is extended for a pool id behind its end. -/
theorem loadChange_arenaEnter {k : ArenaCont} (stage : t.pc = .arenaEnter p k)
    (result : advanceThread optTcache s.registry s.birth s.arenas t fails = some (arenas, t')) :
    LoadChange s t arenas t' := by
  unfold advanceThread at result
  rw [stage] at result
  have before : t.pc.waits = none := by rw [stage]; rfl
  dsimp only at result
  split at result
  next short =>
    split at result
    · exact .of_moved result rfl before (resume_waits p none k)
    · obtain ⟨rfl, rfl⟩ := Prod.mk.inj (Option.some.inj result)
      exact .extend p k _ stage short rfl rfl
  · exact .of_moved result rfl before rfl

/-- An entry that is used is one of the pool. -/
theorem loadChange_arenaCompare {k : ArenaCont} (stage : t.pc = .arenaCompare p k)
    (result : advanceThread optTcache s.registry s.birth s.arenas t fails = some (arenas, t')) :
    LoadChange s t arenas t' := by
  unfold advanceThread at result
  rw [stage] at result
  have before : t.pc.waits = none := by rw [stage]; rfl
  dsimp only at result
  cases seqnoAt : t.arenas.seqnoAt (s.registry.header p).poolId with
  | none => simp [seqnoAt] at result
  | some seqno =>
  cases slotAt : t.arenas.slotAt (s.registry.header p).poolId with
  | none => simp [seqnoAt, slotAt] at result
  | some slot =>
  rw [seqnoAt, slotAt] at result
  dsimp only at result
  split at result
  next stale =>
    obtain ⟨rfl, rfl⟩ := Prod.mk.inj (Option.some.inj result)
    refine .compare p k stage fun a points => ?_
    unfold Thread.Points at points
    rw [seqnoAt, slotAt] at points
    obtain ⟨seqnoEq, slotEq⟩ := points
    injection seqnoEq with seqnoEq
    injection slotEq with slotEq
    obtain stale | stale := stale
    · exact stale seqnoEq
    · rw [slotEq] at stale
      cases stale
  · exact .of_moved result rfl before (resume_waits p slot k)

/-- The entry of the pool is written. -/
theorem loadChange_arenaStore {a : ArenaRef} {k : ArenaCont} (stage : t.pc = .arenaStore p a k)
    (result : advanceThread optTcache s.registry s.birth s.arenas t fails = some (arenas, t')) :
    LoadChange s t arenas t' := by
  unfold advanceThread at result
  rw [stage] at result
  dsimp only at result
  rw [Option.map_map] at result
  obtain ⟨tsd, stored, same⟩ := Option.map_eq_some_iff.1 result
  obtain ⟨rfl, rfl⟩ := Prod.mk.inj same
  unfold TsdArrays.store at stored
  split at stored
  next within =>
    injection stored with stored
    exact .store p a k _ stage within stored.symm rfl
  · cases stored

theorem loadChange_tcacheEnter {create : Bool} (stage : t.pc = .tcacheEnter p create)
    (result : advanceThread optTcache s.registry s.birth s.arenas t fails = some (arenas, t')) :
    LoadChange s t arenas t' := by
  unfold advanceThread at result
  rw [stage] at result
  have before : t.pc.waits = none := by rw [stage]; rfl
  dsimp only at result
  split at result
  · split at result
    · exact .of_moved result rfl before rfl
    · exact .of_moved result rfl before rfl
  · exact .of_moved result rfl before rfl

theorem loadChange_tcacheCompare {create : Bool} (stage : t.pc = .tcacheCompare p create)
    (result : advanceThread optTcache s.registry s.birth s.arenas t fails = some (arenas, t')) :
    LoadChange s t arenas t' := by
  unfold advanceThread at result
  rw [stage] at result
  have before : t.pc.waits = none := by rw [stage]; rfl
  dsimp only at result
  split at result
  · cases result
  split at result
  · rw [Option.map_map] at result
    obtain ⟨tsd, -, same⟩ := Option.map_eq_some_iff.1 result
    exact .of_moved (congrArg some same) rfl before rfl
  · exact .of_moved result rfl before rfl

theorem loadChange_tcacheRead {create : Bool} (stage : t.pc = .tcacheRead p create)
    (result : advanceThread optTcache s.registry s.birth s.arenas t fails = some (arenas, t')) :
    LoadChange s t arenas t' := by
  unfold advanceThread at result
  rw [stage] at result
  have before : t.pc.waits = none := by rw [stage]; rfl
  dsimp only at result
  split at result
  · cases result
  · exact .of_moved result rfl before rfl
  · exact .of_moved result rfl before rfl
  · exact .of_moved result rfl before rfl
  · rw [Option.map_map] at result
    obtain ⟨tsd, -, same⟩ := Option.map_eq_some_iff.1 result
    exact .of_moved (congrArg some same) rfl before rfl
  · obtain ⟨u, hard, same⟩ := Option.map_eq_some_iff.1 result
    obtain ⟨arrays, after⟩ := tcacheGetHard_arrays hard
    exact .of_moved (congrArg some same) arrays before after

/-- What `advanceThread` does to the arenas. -/
theorem loadChange_advance
    (result : advanceThread optTcache s.registry s.birth s.arenas t fails = some (arenas, t')) :
    LoadChange s t arenas t' := by
  cases stage : t.pc with
  | idle | arenaReturned p arena | tcacheReturned p cache =>
      unfold advanceThread at result
      rw [stage] at result
      cases result
  | arenaEnter p k => exact loadChange_arenaEnter stage result
  | arenaCompare p k => exact loadChange_arenaCompare stage result
  | arenaHard p k =>
      unfold advanceThread at result
      rw [stage] at result
      dsimp only at result
      obtain ⟨rfl, rfl⟩ := Prod.mk.inj (Option.some.inj result)
      exact .hard p k _ _ fails stage rfl
  | arenaStore p a k => exact loadChange_arenaStore stage result
  | tcacheEnter p create => exact loadChange_tcacheEnter stage result
  | tcacheCompare p create => exact loadChange_tcacheCompare stage result
  | tcacheRead p create => exact loadChange_tcacheRead stage result
  | tcacheCreate p arena =>
      unfold advanceThread at result
      rw [stage] at result
      have before : t.pc.waits = none := by rw [stage]; rfl
      dsimp only at result
      split at result
      · exact .of_moved result rfl before rfl
      split at result
      · exact .of_moved result rfl before rfl
      · exact .of_moved result rfl before rfl
  | tcacheStore p a =>
      unfold advanceThread at result
      rw [stage] at result
      have before : t.pc.waits = none := by rw [stage]; rfl
      dsimp only at result
      rw [Option.map_map] at result
      obtain ⟨tsd, -, same⟩ := Option.map_eq_some_iff.1 result
      exact .of_moved (congrArg some same) rfl before rfl

end Advance

/-- What any step of a thread other than the destructor does to the arenas. -/
theorem loadChange_step {optTcache : Bool} {op : ThreadOp}
    (permitted : Machine.ThreadPermitted s.registry t op) (stays : op.exits = false)
    (result : threadStep optTcache s t op = some (arenas, t')) : LoadChange s t arenas t' := by
  have moved : ∀ {u : Thread}, (s.arenas, u) = (arenas, t') → u.arenas = t.arenas →
      t.pc.waits = none → u.pc.waits = none → LoadChange s t arenas t' := by
    intro u same arrays before after
    obtain ⟨rfl, rfl⟩ := Prod.mk.inj same
    exact LoadChange.of_arrays arrays before after
  have idle : t.pc = .idle → t.pc.waits = none := by
    intro stage
    rw [stage]
    rfl
  cases op with
  | chooseArena p => exact moved (Option.some.inj result) rfl (idle permitted.1) rfl
  | tcacheGet p create => exact moved (Option.some.inj result) rfl (idle permitted.1) rfl
  | advance fails => exact loadChange_advance result
  | leave =>
      have before : t.pc.waits = none := by
        have returned : t.pc.returned = true := permitted
        cases stage : t.pc with
        | arenaHard p k | arenaStore p a k =>
            rw [stage] at returned
            cases returned
        | _ => rfl
      exact moved (Option.some.inj result) rfl before rfl
  | tcacheEnabledSet enabled =>
      dsimp only [threadStep, tcacheEnabledSet] at result
      rw [Option.map_map] at result
      obtain ⟨tsd, -, same⟩ := Option.map_eq_some_iff.1 result
      exact moved same rfl (idle permitted) (idle permitted)
  | tcacheThreadCleanup =>
      obtain ⟨tsd, -, same⟩ := Option.map_eq_some_iff.1 result
      exact moved same rfl (idle permitted) (idle permitted)
  | arenasCleanup => cases stays

/-! ## Balance of a step -/

variable {base : Nat}

/-- A thread that is about to write an entry has no current one. -/
def Thread.Waiting (s : Machine) (t : Thread) : Prop :=
  ∀ p, t.pc.waits = some p → ∀ j, ¬t.Points s.registry p (s.arena p j)

/-- Registered pools are told apart by their last creation. -/
theorem Machine.Ok.birth_inj (ok : s.Ok base) {p q : Nat} (registered : s.registry.Registered p)
    (other : s.registry.Registered q) (same : s.birth p = s.birth q) : p = q := by
  rw [← (ok.owners _ p (ok.entry registered)).2.2, same]
  exact (ok.owners _ q (ok.entry other)).2.2

/-- Registered pools are told apart by their id. -/
theorem Machine.Ok.id_inj (ok : s.Ok base) {p q : Nat} (registered : s.registry.Registered p)
    (other : s.registry.Registered q) (same : s.idOf p = s.idOf q) : p = q := by
  have entry := ok.entry registered
  rw [same, ok.entry other] at entry
  injection entry with entry
  injection entry with entry
  exact entry.symm

theorem arena_inj {i j : Nat} : s.arena p i = s.arena p j ↔ i = j := by
  unfold Machine.arena
  simp

/-- New elements of the array are not current. -/
theorem points_extend {tsd : TsdArrays (Option ArenaRef)} (ok : t.arenas.Ok) {id : Nat}
    (longer : t.arenas.npools ≤ tsdExtendLength id) (extended : tsd = t.arenas.extend id none)
    (arrays : t'.arenas = tsd) (p : Nat) (a : ArenaRef) :
    t'.Points s.registry p a ↔ t.Points s.registry p a := by
  unfold Thread.Points TsdArrays.seqnoAt TsdArrays.slotAt
  rw [arrays, extended]
  show (if s.idOf p < tsdExtendLength id then
      (t.arenas.seqno ++ List.replicate (tsdExtendLength id - t.arenas.npools) 0)[s.idOf p]?
      else none) = _ ∧ (if s.idOf p < tsdExtendLength id then
      (t.arenas.slots ++ List.replicate (tsdExtendLength id - t.arenas.npools) none)[s.idOf p]?
      else none) = _ ↔ (if s.idOf p < t.arenas.npools then _ else none) = _ ∧
        (if s.idOf p < t.arenas.npools then _ else none) = _
  by_cases old : s.idOf p < t.arenas.npools
  · rw [if_pos old, if_pos old, if_pos (by omega), if_pos (by omega),
      List.getElem?_append_left (by rw [ok.seqno]; exact old),
      List.getElem?_append_left (by rw [ok.slots]; exact old)]
  · rw [if_neg old, if_neg old]
    refine ⟨fun points => ?_, fun absurd_ => by cases absurd_.1⟩
    have slot := points.2
    split at slot
    · rw [List.getElem?_append_right (by rw [ok.slots]; omega), List.getElem?_replicate] at slot
      split at slot
      · injection slot with slot
        cases slot
      · cases slot
    · cases slot

theorem weight_congr {r : Registry} {a : ArenaRef}
    (points : t'.Points r p a ↔ t.Points r p a) (joins : t'.joins a = t.joins a) :
    t'.weight r p a = t.weight r p a := by
  unfold Thread.weight
  rw [joins]
  simp only [points]

theorem weight_of_joins {r : Registry} {a : ArenaRef} {condition : Prop} [Decidable condition]
    (joins : t.joins a = decide condition) :
    t.weight r p a = (if t.Points r p a then 1 else 0) + if condition then 1 else 0 := by
  unfold Thread.weight
  rw [joins]
  simp only [decide_eq_true_eq]

theorem weight_of_joins_false {r : Registry} {a : ArenaRef} (joins : t.joins a = false) :
    t.weight r p a = if t.Points r p a then 1 else 0 := by
  unfold Thread.weight
  rw [joins, if_neg Bool.false_ne_true, Nat.add_zero]

/-- The entry that has been written is current. -/
theorem points_store_self {a b : ArenaRef} (ok : t.arenas.Ok) (within : s.idOf p < t.arenas.npools)
    (arrays : t'.arenas = { t.arenas with
      seqno := t.arenas.seqno.set (s.idOf p) (s.registry.header p).seqno
      slots := t.arenas.slots.set (s.idOf p) (some b) }) :
    t'.Points s.registry p a ↔ b = a := by
  unfold Thread.Points TsdArrays.seqnoAt TsdArrays.slotAt
  rw [arrays]
  have seqnoBound : s.idOf p < t.arenas.seqno.length := by
    rw [ok.seqno]
    exact within
  have slotBound : s.idOf p < t.arenas.slots.length := by
    rw [ok.slots]
    exact within
  show (if s.idOf p < t.arenas.npools then
      (t.arenas.seqno.set (s.idOf p) _)[s.idOf p]? else none) = _ ∧
    (if s.idOf p < t.arenas.npools then
      (t.arenas.slots.set (s.idOf p) (some b))[s.idOf p]? else none) = _ ↔ _
  rw [if_pos within, if_pos within, List.getElem?_set_self seqnoBound,
    List.getElem?_set_self slotBound]
  simp

/-- Other entries are as they were. -/
theorem points_store_other {a b : ArenaRef} {id seqno : Nat}
    (arrays : t'.arenas = { t.arenas with
      seqno := t.arenas.seqno.set id seqno, slots := t.arenas.slots.set id (some b) })
    (different : id ≠ s.idOf p) :
    t'.Points s.registry p a ↔ t.Points s.registry p a := by
  unfold Thread.Points TsdArrays.seqnoAt TsdArrays.slotAt
  rw [arrays]
  show (if s.idOf p < t.arenas.npools then (t.arenas.seqno.set id _)[s.idOf p]? else none) = _ ∧
    (if s.idOf p < t.arenas.npools then
      (t.arenas.slots.set id (some b))[s.idOf p]? else none) = _ ↔ _
  rw [List.getElem?_set_ne different, List.getElem?_set_ne different]

/-- The counts change by what the entries of the thread change. -/
theorem LoadChange.balance (change : LoadChange s t arenas t') (ok : s.Ok base) (thread : t.Ok s)
    (waiting : t.Waiting s) (registered : s.registry.Registered p) (j : Nat) :
    nthreadsAt (arenas (s.birth p)) j + t.weight s.registry p (s.arena p j) =
      nthreadsAt (s.arenas (s.birth p)) j + t'.weight s.registry p (s.arena p j) := by
  have stands := thread.pc
  cases change with
  | quiet _ arrays joins waits =>
      have points : t'.Points s.registry p (s.arena p j) ↔ t.Points s.registry p (s.arena p j) := by
        unfold Thread.Points
        rw [arrays]
      rw [weight_congr points (joins _)]
  | extend q k _ stage short arrays after =>
      rw [stage] at stands
      have small := ok.small (ok.id_lt stands.1)
      have longer := lt_tsdExtendLength small
      have joins : t'.joins (s.arena p j) = t.joins (s.arena p j) := by
        rw [joins_of_waits (by rw [after]; rfl), joins_of_waits (by rw [stage]; rfl)]
      rw [weight_congr (points_extend thread.arenas (by omega) rfl arrays p _) joins]
  | compare q k stage mismatch =>
      have joins : Thread.joins (s.arena p j) { t with pc := .arenaHard q k } =
          t.joins (s.arena p j) :=
        (joins_of_waits (by rw [stage]; rfl) _).symm
      have points : Thread.Points s.registry p (s.arena p j) { t with pc := .arenaHard q k } ↔
        t.Points s.registry p (s.arena p j) := Iff.rfl
      rw [weight_congr points joins]
  | hard q k chosen index fails stage result =>
      rw [stage] at stands
      obtain ⟨other, -, -⟩ := stands
      have counts := chooseArenaHard_counts (ok.first q other) result j
      have before : t.weight s.registry p (s.arena p j) =
          if t.Points s.registry p (s.arena p j) then 1 else 0 :=
        weight_of_joins_false (by unfold Thread.joins; rw [stage])
      have after : Thread.weight s.registry p (s.arena p j)
          { t with pc := .arenaStore q (s.arena q index) k } =
          (if t.Points s.registry p (s.arena p j) then 1 else 0) +
            if s.arena q index = s.arena p j then 1 else 0 :=
        weight_of_joins rfl
      rw [before, after]
      by_cases same : p = q
      · subst same
        rw [Function.update_self, counts]
        by_cases here : j = index
        · subst here
          rw [if_pos rfl, if_pos rfl]
          omega
        · rw [if_neg here, if_neg fun equal => here (arena_inj.1 equal).symm]
          omega
      · have apart : s.arena q index ≠ s.arena p j := fun equal =>
          same (congrArg ArenaRef.pool equal).symm
        rw [Function.update_of_ne (fun equal => same (ok.birth_inj registered other equal)),
          if_neg apart, Nat.add_zero]
  | store q a k _ stage within arrays after =>
      rw [stage] at stands
      obtain ⟨other, -, -, of⟩ := stands
      have before : t.weight s.registry p (s.arena p j) =
          (if t.Points s.registry p (s.arena p j) then 1 else 0) +
            if a = s.arena p j then 1 else 0 :=
        weight_of_joins (by unfold Thread.joins; rw [stage])
      have joined : t'.joins (s.arena p j) = false :=
        joins_of_waits (by rw [after]; exact resume_waits q (some a) k) _
      rw [before, weight_of_joins_false joined]
      by_cases same : p = q
      · subst same
        have stale : ¬t.Points s.registry p (s.arena p j) := waiting p (by rw [stage]; rfl) j
        have stored := points_store_self (a := s.arena p j) thread.arenas within arrays
        rw [if_neg stale]
        simp only [stored, Nat.zero_add]
      · have apart : a ≠ s.arena p j := by
          intro equal
          have pool := congrArg ArenaRef.pool equal
          rw [of.pool] at pool
          exact same pool.symm
        have kept := points_store_other (a := s.arena p j) arrays
          fun equal => same (ok.id_inj registered other equal.symm)
        rw [if_neg apart]
        simp only [kept, Nat.add_zero]

/-- A thread that is about to write an entry has found that it is not current. -/
theorem LoadChange.waiting (change : LoadChange s t arenas t') (waiting : t.Waiting s) :
    t'.Waiting { s with arenas := arenas } := by
  intro p waits j
  cases change with
  | quiet _ _ _ none_ =>
      rw [none_] at waits
      cases waits
  | extend q k _ _ _ _ after =>
      rw [after] at waits
      cases waits
  | compare q k stage mismatch =>
      injection waits with same
      subst same
      exact mismatch _
  | hard q k chosen index fails stage result =>
      injection waits with same
      subst same
      exact waiting q (by rw [stage]; rfl) j
  | store q a k _ _ _ _ after =>
      rw [after, resume_waits] at waits
      cases waits

/-- Arenas stand in entries of ids that `pools` has. -/
def Thread.Below (s : Machine) (t : Thread) : Prop :=
  ∀ (i : Nat) (a : ArenaRef), t.arenas.slots[i]? = some (some a) → i < s.registry.pools.length

theorem LoadChange.below (change : LoadChange s t arenas t') (ok : s.Ok base) (thread : t.Ok s)
    (below : t.Below s) : t'.Below { s with arenas := arenas } := by
  intro i a entry
  have stands := thread.pc
  cases change with
  | quiet _ arrays _ _ =>
      rw [arrays] at entry
      exact below i a entry
  | extend p k _ stage short arrays _ =>
      rw [stage] at stands
      rw [arrays] at entry
      have entry : (t.arenas.slots ++ List.replicate _ none)[i]? = some (some a) := entry
      by_cases old : i < t.arenas.slots.length
      · rw [List.getElem?_append_left old] at entry
        exact below i a entry
      · rw [List.getElem?_append_right (by omega), List.getElem?_replicate] at entry
        split at entry
        · injection entry with entry
          cases entry
        · cases entry
  | compare => exact below i a entry
  | hard => exact below i a entry
  | store p b k _ stage within arrays _ =>
      rw [stage] at stands
      rw [arrays] at entry
      have entry : (t.arenas.slots.set (s.idOf p) (some b))[i]? = some (some a) := entry
      by_cases here : s.idOf p = i
      · rw [← here]
        exact ok.id_lt stands.1
      · rw [List.getElem?_set_ne here] at entry
        exact below i a entry

/-! ## Exits -/

theorem slots_of_slotAt {α : Type} {tsd : TsdArrays α} {i : Nat} {slot : α}
    (read : tsd.slotAt i = some slot) : tsd.slots[i]? = some slot := by
  unfold TsdArrays.slotAt at read
  split at read
  · exact read
  · cases read

theorem seqno_of_seqnoAt {α : Type} {tsd : TsdArrays α} {i seqno : Nat}
    (read : tsd.seqnoAt i = some seqno) : tsd.seqno[i]? = some seqno := by
  unfold TsdArrays.seqnoAt at read
  split at read
  · exact read
  · cases read

theorem nthreadsAt_releaseArena {counts : Nat → List (Option Nat)} {a : ArenaRef}
    (has : HasArena (counts a.birth) a.index) (b j : Nat) :
    nthreadsAt (releaseArena counts a b) j =
      nthreadsAt (counts b) j - if b = a.birth ∧ j = a.index then 1 else 0 := by
  unfold releaseArena
  by_cases same : b = a.birth
  · subst same
    rw [Function.update_self, nthreadsAt_modify has]
    by_cases here : j = a.index
    · rw [if_pos here, if_pos ⟨rfl, here⟩, here]
    · rw [if_neg here, if_neg fun both => here both.2, Nat.sub_zero]
  · rw [Function.update_of_ne same, if_neg fun both => same both.1, Nat.sub_zero]

theorem hasArena_releaseArena {counts : Nat → List (Option Nat)} {a : ArenaRef} {b j : Nat}
    (has : HasArena (counts b) j) : HasArena (releaseArena counts a b) j := by
  unfold releaseArena
  by_cases same : b = a.birth
  · subst same
    rw [Function.update_self]
    exact has.modify _
  · rw [Function.update_of_ne same]
    exact has

/-- An entry that the loop finds current is one of a registered pool. -/
theorem current_entry (ok : s.Ok base) (thread : t.Ok s) (below : t.Below s)
    {beyond : Nat → Option Nat} {i found : Nat} {a : ArenaRef}
    (number : poolNumber s.registry beyond i = some found)
    (readSeqno : t.arenas.seqnoAt i = some found) (readSlot : t.arenas.slotAt i = some (some a)) :
    ∃ q, s.registry.Registered q ∧ s.idOf q = i ∧ a = s.arena q a.index ∧ a.Exists s ∧
      ∀ j, t.Points s.registry q (s.arena q j) ↔ j = a.index := by
  have entry := slots_of_slotAt readSlot
  have inside := below i a entry
  unfold poolNumber at number
  rw [List.getElem?_eq_getElem inside] at number
  obtain ⟨q, poolEq, found_⟩ := Option.map_eq_some_iff.1 number
  have pool : s.registry.pools[i]? = some (some q) := by
    rw [List.getElem?_eq_getElem inside, poolEq]
  have registered : s.registry.Registered q := ⟨i, pool⟩
  have id : s.idOf q = i := ok.registry.ids i q pool
  subst id
  have slot := thread.arenaSlots _ a found entry (seqno_of_seqnoAt readSeqno)
  have of := slot.of ok registered found_.symm
  have arena : a = s.arena q a.index := by
    unfold Machine.arena
    rw [← of.birth, ← of.pool]
  refine ⟨q, registered, rfl, arena, slot.exists_, fun j => ?_⟩
  unfold Thread.Points
  rw [readSeqno, readSlot]
  constructor
  · rintro ⟨-, same⟩
    injection same with same
    injection same with same
    rw [arena] at same
    exact (arena_inj.1 same).symm
  · rintro rfl
    exact ⟨congrArg some found_.symm, by rw [← arena]⟩

/-- From index `i` on, the loop takes the thread out of the arenas of its current entries,
and finds no count that is zero. -/
structure Exited (s : Machine) (t : Thread) (i : Nat) (counts : Nat → List (Option Nat))
    (result : (Nat → List (Option Nat)) × List Nat) : Prop where
  keeps : ∀ b j, HasArena (s.arenas b) j → HasArena (result.1 b) j
  counts : ∀ p, s.registry.Registered p → ∀ j, nthreadsAt (result.1 (s.birth p)) j =
    nthreadsAt (counts (s.birth p)) j -
      if i ≤ s.idOf p ∧ t.Points s.registry p (s.arena p j) then 1 else 0
  positive : ∀ n ∈ result.2, 0 < n

/-- No pool with the id `i` counts the thread. -/
theorem Exited.skip {i : Nat} {counts : Nat → List (Option Nat)}
    {result : (Nat → List (Option Nat)) × List Nat} (exited : Exited s t (i + 1) counts result)
    (stale : ∀ p, s.registry.Registered p → s.idOf p = i → ∀ j,
      ¬t.Points s.registry p (s.arena p j)) : Exited s t i counts result := by
  refine ⟨exited.keeps, fun p registered j => ?_, exited.positive⟩
  rw [exited.counts p registered j]
  have equivalent : (i + 1 ≤ s.idOf p ∧ t.Points s.registry p (s.arena p j)) ↔
      (i ≤ s.idOf p ∧ t.Points s.registry p (s.arena p j)) := by
    refine ⟨fun both => ⟨by omega, both.2⟩, fun both => ⟨?_, both.2⟩⟩
    have different : s.idOf p ≠ i := fun equal => stale p registered equal j both.2
    omega
  simp only [equivalent]

/-- The pool `q` with the id `i` counts the thread in the arena `a`. -/
theorem Exited.release (ok : s.Ok base) {i q : Nat} {counts : Nat → List (Option Nat)}
    {result : (Nat → List (Option Nat)) × List Nat} {a : ArenaRef}
    (exited : Exited s t (i + 1) (releaseArena counts a) result)
    (registered : s.registry.Registered q) (id : s.idOf q = i) (birth : a.birth = s.birth q)
    (points : ∀ j, t.Points s.registry q (s.arena q j) ↔ j = a.index)
    (has : HasArena (counts a.birth) a.index) (counted : 0 < nthreadsAt (counts a.birth) a.index) :
    Exited s t i counts (result.1, nthreadsAt (counts a.birth) a.index :: result.2) := by
  refine ⟨exited.keeps, fun p other j => ?_, ?_⟩
  · show nthreadsAt (result.1 (s.birth p)) j = _
    rw [exited.counts p other j, nthreadsAt_releaseArena has]
    by_cases same : p = q
    · subst same
      rw [if_neg (fun late => by omega : ¬(i + 1 ≤ s.idOf p ∧ _)), Nat.sub_zero]
      have equivalent : (s.birth p = a.birth ∧ j = a.index) ↔
          (i ≤ s.idOf p ∧ t.Points s.registry p (s.arena p j)) := by
        rw [points j]
        exact ⟨fun both => ⟨by omega, both.2⟩, fun both => ⟨birth.symm, both.2⟩⟩
      simp only [equivalent]
    · have births : s.birth p ≠ a.birth := fun equal =>
        same (ok.birth_inj other registered (equal.trans birth))
      have ids : s.idOf p ≠ i := fun equal =>
        same (ok.id_inj other registered (equal.trans id.symm))
      rw [if_neg fun both => births both.1, Nat.sub_zero]
      have equivalent : (i + 1 ≤ s.idOf p ∧ t.Points s.registry p (s.arena p j)) ↔
          (i ≤ s.idOf p ∧ t.Points s.registry p (s.arena p j)) :=
        ⟨fun both => ⟨by omega, both.2⟩, fun both => ⟨by omega, both.2⟩⟩
      simp only [equivalent]
  · intro n member
    obtain rfl | member := List.mem_cons.1 member
    · exact counted
    · exact exited.positive n member

/-- What the loop does from index `i` on, if nothing has been done yet for the pools from
there on. -/
theorem exitLoop_spec (ok : s.Ok base) (thread : t.Ok s) (below : t.Below s)
    (counted : ∀ p, s.registry.Registered p → ∀ j, t.Points s.registry p (s.arena p j) →
      0 < nthreadsAt (s.arenas (s.birth p)) j) (beyond : Nat → Option Nat) (remaining i : Nat)
    (counts : Nat → List (Option Nat))
    (keeps : ∀ b j, HasArena (s.arenas b) j → HasArena (counts b) j)
    (unvisited : ∀ p, s.registry.Registered p → i ≤ s.idOf p → ∀ j,
      nthreadsAt (counts (s.birth p)) j = nthreadsAt (s.arenas (s.birth p)) j)
    (length : i + remaining = t.arenas.npools) :
    Exited s t i counts
      (exitLoop (poolNumber s.registry beyond) t.arenas counts i remaining) := by
  induction remaining generalizing i counts with
  | zero =>
      refine ⟨keeps, fun p _ j => ?_, fun n member => by cases member⟩
      have outside : ¬(i ≤ s.idOf p ∧ t.Points s.registry p (s.arena p j)) := by
        rintro ⟨late, current, -⟩
        unfold TsdArrays.seqnoAt at current
        rw [if_neg (show ¬s.idOf p < t.arenas.npools by omega)] at current
        cases current
      rw [if_neg outside]
      rfl
  | succ remaining inductionHypothesis =>
      have next := inductionHypothesis (i + 1) counts keeps
        (fun p registered late j => unvisited p registered (by omega) j) (by omega)
      -- a pool with the id `i` that counts the thread makes the loop stop here
      have found : ∀ p, s.registry.Registered p → s.idOf p = i → ∀ j,
          t.Points s.registry p (s.arena p j) →
            poolNumber s.registry beyond i = some (s.registry.header p).seqno ∧
              t.arenas.seqnoAt i = some (s.registry.header p).seqno ∧
                t.arenas.slotAt i = some (some (s.arena p j)) := by
        rintro p registered rfl j ⟨seqno, slot⟩
        refine ⟨?_, seqno, slot⟩
        unfold poolNumber
        rw [ok.entry registered]
        rfl
      unfold exitLoop
      split
      case h_1 number seqno a numberEq readSeqno readSlot =>
          split
          case isFalse different =>
              refine next.skip fun p registered id j points => ?_
              obtain ⟨sameNumber, sameSeqno, -⟩ := found p registered id j points
              rw [numberEq] at sameNumber
              rw [readSeqno] at sameSeqno
              injection sameNumber with sameNumber
              injection sameSeqno with sameSeqno
              exact different (sameNumber.trans sameSeqno.symm)
          case isTrue same =>
              subst same
              obtain ⟨q, registered, id, arena, exists_, points⟩ :=
                current_entry ok thread below numberEq readSeqno readSlot
              have birth : a.birth = s.birth q := congrArg ArenaRef.birth arena
              have has : HasArena (counts a.birth) a.index := keeps _ _ exists_.present
              have positive : 0 < nthreadsAt (counts a.birth) a.index := by
                rw [birth, unvisited q registered (by omega)]
                exact counted q registered _ ((points _).2 rfl)
              refine Exited.release ok ?_ registered id birth points has positive
              refine inductionHypothesis (i + 1) (releaseArena counts a)
                (fun b j before => hasArena_releaseArena (keeps b j before)) ?_ (by omega)
              intro p other late j
              have different : s.birth p ≠ a.birth := by
                intro equal
                have same := ok.birth_inj other registered (equal.trans birth)
                subst same
                omega
              rw [nthreadsAt_releaseArena has, if_neg fun both => different both.1, Nat.sub_zero]
              exact unvisited p other (by omega) j
      case h_2 noEntry =>
          refine next.skip fun p registered id j points => ?_
          obtain ⟨sameNumber, sameSeqno, sameSlot⟩ := found p registered id j points
          exact noEntry _ _ _ sameNumber sameSeqno sameSlot

/-! ## The invariant -/

/-- The invariant of the machine, with the counts. -/
structure Machine.Loads (base : Nat) (s : Machine) : Prop where
  ok : s.Ok base
  waiting : ∀ t ∈ s.threads, t.Waiting s
  below : ∀ t ∈ s.threads, t.Below s
  counts : ∀ p, s.registry.Registered p → ∀ j,
    nthreadsAt (s.arenas (s.birth p)) j = loadOf s.registry p (s.arena p j) s.threads

/-- One thread takes a step. -/
theorem Machine.Loads.setThread (loads : s.Loads base) {i : Nat}
    (present : s.threads[i]? = some t)
    (ok : Machine.Ok base { s with arenas := arenas, threads := s.threads.set i t' })
    (waiting : t'.Waiting { s with arenas := arenas })
    (below : t'.Below { s with arenas := arenas })
    (balance : ∀ p, s.registry.Registered p → ∀ j,
      nthreadsAt (arenas (s.birth p)) j + t.weight s.registry p (s.arena p j) =
        nthreadsAt (s.arenas (s.birth p)) j + t'.weight s.registry p (s.arena p j)) :
    Machine.Loads base { s with arenas := arenas, threads := s.threads.set i t' } := by
  refine ⟨ok, ?_, ?_, ?_⟩
  · intro u member
    obtain old | new := List.mem_or_eq_of_mem_set member
    · exact loads.waiting u old
    · subst new
      exact waiting
  · intro u member
    obtain old | new := List.mem_or_eq_of_mem_set member
    · exact loads.below u old
    · subst new
      exact below
  · intro p registered j
    have changed := balance p registered j
    have before := loads.counts p registered j
    have load := loadOf_set (r := s.registry) (p := p) (a := s.arena p j) t' present
    show nthreadsAt (arenas (s.birth p)) j = loadOf s.registry p (s.arena p j) (s.threads.set i t')
    omega

/-- A step of a thread keeps the invariant. -/
theorem Machine.Loads.threadStep {optTcache : Bool} {i : Nat} {op : ThreadOp}
    (loads : s.Loads base) (present : s.threads[i]? = some t)
    (permitted : Machine.ThreadPermitted s.registry t op) (stays : op.exits = false)
    (result : Jemalloc.threadStep optTcache s t op = some (arenas, t')) :
    Machine.Loads base { s with arenas := arenas, threads := s.threads.set i t' } := by
  have member := List.mem_of_getElem? present
  have thread := loads.ok.threads t member
  have change := loadChange_step permitted stays result
  refine loads.setThread present ?_ (change.waiting (loads.waiting t member))
    (change.below loads.ok thread (loads.below t member))
    fun p registered j => change.balance loads.ok thread (loads.waiting t member) registered j
  obtain ⟨arenas₁, t₁, stepped, extends_, kept⟩ | ⟨-, outside⟩ :=
    steps_of_threadStep optTcache loads.ok thread permitted
  · rw [result] at stepped
    obtain ⟨rfl, rfl⟩ := Prod.mk.inj (Option.some.inj stepped)
    exact loads.ok.setThread extends_ kept i
  · rw [result] at outside
    cases outside

/-- A current entry of a thread is counted. -/
theorem Machine.Loads.counted (loads : s.Loads base) (member : t ∈ s.threads)
    (registered : s.registry.Registered p) {j : Nat}
    (points : t.Points s.registry p (s.arena p j)) :
    0 < nthreadsAt (s.arenas (s.birth p)) j := by
  have weight := weight_le_load (r := s.registry) (p := p) (a := s.arena p j) member
  rw [loads.counts p registered j]
  unfold Thread.weight at weight
  rw [if_pos points] at weight
  omega

/-- What an exit does. -/
theorem Machine.Loads.exited (loads : s.Loads base) (member : t ∈ s.threads)
    (beyond : Nat → Option Nat) : Exited s t 0 s.arenas (s.exitThread t beyond) :=
  exitLoop_spec loads.ok (loads.ok.threads t member) (loads.below t member)
    (fun _ registered _ points => loads.counted member registered points) beyond
    t.arenas.npools 0 s.arenas (fun _ _ has => has) (fun _ _ _ _ => rfl) (Nat.zero_add _)

theorem points_none {r : Registry} {a : ArenaRef} (arrays : t.arenas = TsdArrays.none_) :
    ¬t.Points r p a := by
  rintro ⟨seqno, -⟩
  rw [arrays] at seqno
  have absent :
      (TsdArrays.none_ : TsdArrays (Option ArenaRef)).seqnoAt (r.header p).poolId = none :=
    if_neg (Nat.not_lt_zero _)
  rw [absent] at seqno
  cases seqno

/-- The exit of a thread keeps the invariant. -/
theorem Machine.Loads.exit (loads : s.Loads base) {i : Nat} (present : s.threads[i]? = some t)
    (idle : t.pc = .idle) (beyond : Nat → Option Nat) :
    Machine.Loads base { s with
      arenas := (s.exitThread t beyond).1
      threads := s.threads.set i { t with arenas := TsdArrays.none_, extendedFor := none } } := by
  have member := List.mem_of_getElem? present
  have thread := loads.ok.threads t member
  have exited := loads.exited member beyond
  have waits : t.pc.waits = none := by
    rw [idle]
    rfl
  have extends_ : Extends s { s with arenas := (s.exitThread t beyond).1 } :=
    ⟨Nat.le_refl _, Nat.le_refl _, fun _ _ => rfl, fun b _ j has => exited.keeps b j has⟩
  have kept := thread.frame extends_ fun _ _ registered => ⟨registered, rfl, rfl⟩
  have after : Thread.Ok { s with arenas := (s.exitThread t beyond).1 }
      { t with arenas := TsdArrays.none_, extendedFor := none } := by
    refine ⟨TsdArrays.none_ok, kept.tcaches, ?_, kept.tcacheSlots, kept.below, rfl, ?_, ?_⟩
    · intro i a seqno entry
      cases entry
    · intro id absurd_
      cases absurd_
    · show ThreadPc.Ok _ _ _ t.pc
      rw [idle]
      trivial
  refine loads.setThread present (loads.ok.setThread extends_ after i) ?_ ?_ ?_
  · intro p waits_
    rw [show ({ t with arenas := TsdArrays.none_, extendedFor := none } : Thread).pc.waits = none
      from waits] at waits_
    cases waits_
  · intro i a entry
    cases entry
  · intro p registered j
    have before : t.weight s.registry p (s.arena p j) =
        if t.Points s.registry p (s.arena p j) then 1 else 0 :=
      weight_of_joins_false (joins_of_waits waits _)
    have gone : Thread.weight s.registry p (s.arena p j)
        { t with arenas := TsdArrays.none_, extendedFor := none } = 0 := by
      have joins : Thread.joins (s.arena p j)
          { t with arenas := TsdArrays.none_, extendedFor := none } = false :=
        joins_of_waits waits _
      rw [weight_of_joins_false joins, if_neg (points_none rfl)]
    rw [exited.counts p registered j, before, gone]
    simp only [Nat.zero_le, true_and]
    split
    next points =>
      have positive := loads.counted member registered points
      omega
    · rfl

/-! ## Calls on the registry -/

/-- The pools that were registered and still are have their arenas, and the others have no
threads. -/
structure KeptLoads (s s' : Machine) : Prop where
  threads : s'.threads = s.threads
  length : s.registry.pools.length ≤ s'.registry.pools.length
  old : ∀ p, s'.registry.Registered p → s.registry.Registered p →
    s'.registry.header p = s.registry.header p ∧ s'.birth p = s.birth p ∧
      s'.arenas (s'.birth p) = s.arenas (s.birth p)
  new : ∀ p, s'.registry.Registered p → ¬s.registry.Registered p →
    s.births ≤ s'.birth p ∧ ∀ j, nthreadsAt (s'.arenas (s'.birth p)) j = 0

theorem KeptLoads.points {s' : Machine} (kept : KeptLoads s s')
    (registered : s'.registry.Registered p)
    (before : s.registry.Registered p) (j : Nat) :
    t.Points s'.registry p (s'.arena p j) ↔ t.Points s.registry p (s.arena p j) := by
  obtain ⟨header, birth, -⟩ := kept.old p registered before
  unfold Thread.Points Machine.arena
  rw [header, birth]

/-- Nothing refers to a creation that is still to come. -/
theorem weight_later (thread : t.Ok s) {r : Registry} {a : ArenaRef} (later : s.births ≤ a.birth) :
    t.weight r p a = 0 := by
  have absent : ¬t.Points r p a := by
    rintro ⟨seqno, slot⟩
    have older := (thread.arenaSlots _ a _ (slots_of_slotAt slot)
      (seqno_of_seqnoAt seqno)).exists_.older
    omega
  have joins : t.joins a = false := by
    unfold Thread.joins
    have stands := thread.pc
    cases stage : t.pc with
    | arenaStore q b k =>
        rw [stage] at stands
        have older := stands.2.2.2.exists_.older
        refine decide_eq_false ?_
        rintro rfl
        omega
    | _ => rfl
  rw [weight_of_joins_false joins, if_neg absent]

theorem loadOf_eq_zero {r : Registry} {a : ArenaRef} {threads : List Thread}
    (none_ : ∀ t ∈ threads, t.weight r p a = 0) : loadOf r p a threads = 0 := by
  unfold loadOf
  have parts : ∀ t ∈ threads, ¬t.Points r p a ∧ t.joins a = false := by
    intro t member
    have zero := none_ t member
    unfold Thread.weight at zero
    refine ⟨fun points => ?_, ?_⟩
    · rw [if_pos points] at zero
      omega
    · cases joins : t.joins a with
      | false => rfl
      | true =>
          rw [joins, if_pos rfl] at zero
          omega
  rw [List.countP_eq_zero.2 fun t member => by simpa using (parts t member).1,
    List.countP_eq_zero.2 fun t member => by simpa using (parts t member).2]

theorem Machine.Loads.kept {s' : Machine} (loads : s.Loads base) (ok : s'.Ok base)
    (kept : KeptLoads s s') : s'.Loads base := by
  refine ⟨ok, ?_, ?_, ?_⟩
  · intro t member p waits j
    have thread' := (ok.threads t member).pc
    rw [kept.threads] at member
    have thread := (loads.ok.threads t member).pc
    have both : s'.registry.Registered p ∧ s.registry.Registered p := by
      cases stage : t.pc with
      | arenaHard q k | arenaStore q a k =>
          rw [stage] at waits thread thread'
          injection waits with same
          subst same
          exact ⟨thread'.1, thread.1⟩
      | _ =>
          rw [stage] at waits
          cases waits
    rw [kept.points both.1 both.2]
    exact loads.waiting t member p waits j
  · intro t member i a entry
    rw [kept.threads] at member
    exact Nat.lt_of_lt_of_le (loads.below t member i a entry) kept.length
  · intro p registered j
    rw [kept.threads]
    by_cases before : s.registry.Registered p
    · obtain ⟨header, birth, arenas⟩ := kept.old p registered before
      rw [arenas, loads.counts p before j]
      unfold loadOf
      simp only [kept.points registered before]
      unfold Machine.arena
      rw [birth]
    · obtain ⟨later, unloaded⟩ := kept.new p registered before
      rw [unloaded j, loadOf_eq_zero fun t member => ?_]
      exact weight_later (loads.ok.threads t member) later

theorem nthreadsAt_unloaded {counts : List (Option Nat)} (unloaded : ∀ n ∈ counts, n.getD 0 = 0)
    (j : Nat) : nthreadsAt counts j = 0 := by
  unfold nthreadsAt
  cases entry : counts[j]? with
  | none => rfl
  | some n => exact unloaded n (List.mem_of_getElem? entry)

/-- A registry with the same pools, of which none that is registered changes. -/
theorem kept_of_registry {r : Registry} (length : s.registry.pools.length ≤ r.pools.length)
    (entries : ∀ p, r.Registered p →
      s.registry.Registered p ∧ r.header p = s.registry.header p) :
    KeptLoads s { s with registry := r } where
  threads := rfl
  length := length
  old := fun p registered _ => ⟨(entries p registered).2, rfl, rfl⟩
  new := fun p registered absent => absurd (entries p registered).1 absent

theorem header_of_absent {r : Registry} {addr : Nat} {value : PoolHeader}
    (bigger : Registry.Grown base s.registry r) (absent : ¬s.registry.Registered addr)
    (registered : s.registry.Registered p) :
    (r.setHeader addr value).header p = s.registry.header p := by
  have different : p ≠ addr := by
    rintro rfl
    exact absent registered
  show Function.update r.header addr value p = s.registry.header p
  rw [Function.update_of_ne different, bigger.header]

/-- A pool that has just been created is the only one that was not registered before. -/
theorem kept_created {r : Registry} (ok : s.Ok base) (bigger : Registry.Grown base s.registry r)
    {addr id : Nat} {value : PoolHeader} {counts : List (Option Nat)}
    (absent : ¬s.registry.Registered addr) (unused : r.pools[id]? = some none)
    (unloaded : ∀ n ∈ counts, n.getD 0 = 0) :
    KeptLoads s
      { s with
        registry := (r.setHeader addr value).register addr id
        births := s.births + 1
        birth := Function.update s.birth addr s.births
        site := Function.update s.site s.births addr
        arenas := Function.update s.arenas s.births counts } := by
  have inside : id < r.pools.length := (List.getElem?_eq_some_iff.mp unused).1
  refine ⟨rfl, ?_, ?_, ?_⟩
  · show s.registry.pools.length ≤ (r.pools.set id (some addr)).length
    rw [List.length_set]
    exact bigger.length_le
  · intro p _ before
    have different : p ≠ addr := by
      rintro rfl
      exact absent before
    have older := (ok.owners _ p (ok.entry before)).2.1
    refine ⟨?_, Function.update_of_ne different _ _, ?_⟩
    · simp [Registry.register, Registry.setHeader, Function.update_of_ne different, bigger.header]
    · show Function.update s.arenas s.births counts (Function.update s.birth addr s.births p) = _
      rw [Function.update_of_ne different, Function.update_of_ne (Nat.ne_of_lt older)]
  · rintro p ⟨i, entry⟩ fresh
    have entry : (r.pools.set id (some addr))[i]? = some (some p) := entry
    have same : p = addr := by
      by_cases here : id = i
      · subst here
        rw [List.getElem?_set_self inside] at entry
        injection entry with entry
        injection entry with entry
        exact entry.symm
      · rw [List.getElem?_set_ne here] at entry
        exact absurd ⟨i, bigger.entry_iff.mp entry⟩ fresh
    subst same
    refine ⟨?_, fun j => ?_⟩
    · show s.births ≤ Function.update s.birth p s.births p
      rw [Function.update_self]
    · show nthreadsAt (Function.update s.arenas s.births counts
        (Function.update s.birth p s.births p)) j = 0
      rw [Function.update_self, Function.update_self]
      exact nthreadsAt_unloaded unloaded j

/-- What a call on the registry leaves of the counts. -/
theorem kept_registryStep {c : Config} (ok : s.Ok base) {op : RegistryOp}
    {counts : List (Option Nat)}
    (permitted : s.LoadPermitted base (.call (.registry op counts))) :
    KeptLoads s (s.registryStep c base op counts) := by
  cases op with
  | create addr size zeroed empty faults =>
      obtain ⟨⟨⟨-, absent⟩, -, -⟩, -, unloaded⟩ := permitted
      obtain ⟨grown, bigger, ends⟩ :=
        Registry.create_result c ok.registry.toShape ok.init addr size zeroed empty faults
      unfold Machine.registryStep
      dsimp only
      generalize jePoolCreate c base s.registry addr size zeroed empty faults = result at ends
      cases ends with
      | refused =>
          exact kept_of_registry bigger.length_le fun p registered =>
            ⟨bigger.registered.mp registered, congrFun bigger.header p⟩
      | failed value =>
          refine kept_of_registry bigger.length_le fun p registered => ?_
          have before := bigger.registered.mp registered
          exact ⟨before, header_of_absent bigger absent before⟩
      | created id value positive unused booted =>
        exact kept_created ok bigger absent unused unloaded
  | delete p =>
      unfold Machine.registryStep
      dsimp only
      obtain ⟨-, refused⟩ | ⟨id, -, entry, -, deleted⟩ := ok.registry.delete_cases p
      · rw [refused]
        exact kept_of_registry (Nat.le_refl _) fun q registered => ⟨registered, rfl⟩
      · rw [deleted]
        have inside := (List.getElem?_eq_some_iff.mp entry).1
        refine kept_of_registry (by simp) fun q registered => ?_
        obtain ⟨i, now⟩ := registered
        have placed : (s.registry.pools.set id none)[i]? = some (some q) := now
        have different : id ≠ i := by
          rintro rfl
          rw [List.getElem?_set_self inside] at placed
          cases placed
        rw [List.getElem?_set_ne different] at placed
        refine ⟨⟨i, placed⟩, Function.update_of_ne ?_ _ _⟩
        rintro rfl
        exact different ((ok.registry.ids id q entry).symm.trans (ok.registry.ids i q placed))
  | scribble p value =>
      have bigger := ok.registry.grown ok.init
      exact kept_of_registry (Nat.le_refl _) fun q registered =>
        ⟨registered, header_of_absent bigger permitted.2 registered⟩

/-! ## Whole runs -/

/-- Every step keeps the invariant. -/
theorem Machine.Loads.step {c : Config} {optTcache : Bool} (loads : s.Loads base) {op : LoadOp}
    {s' : Machine} (permitted : s.LoadPermitted base op)
    (result : s.loadStep c base optTcache op = some s') : s'.Loads base := by
  cases op with
  | call op =>
      cases op with
      | registry op counts =>
          injection result with result
          subst result
          have allowed : s.RegistryPermitted base counts op := by
            cases op with
            | create addr size zeroed empty faults => exact permitted.1
            | delete p => exact permitted
            | scribble p value => exact permitted
          exact loads.kept (loads.ok.registryStep allowed) (kept_registryStep loads.ok permitted)
      | thread i op =>
          obtain ⟨⟨t, present, allowed⟩, stays⟩ := permitted
          have present : s.threads[i]? = some t := present
          dsimp only [Machine.loadStep, Machine.step] at result
          rw [present, Option.bind_some] at result
          obtain ⟨⟨arenas, t'⟩, stepped, rfl⟩ := Option.map_eq_some_iff.1 result
          exact loads.threadStep present allowed stays stepped
  | exit i beyond =>
      obtain ⟨t, present, idle⟩ := permitted
      have present : s.threads[i]? = some t := present
      dsimp only [Machine.loadStep] at result
      rw [present] at result
      injection result with result
      subst result
      exact loads.exit present idle beyond

theorem Machine.start_loads (header : Nat → PoolHeader) {baseArenas : List (Option Nat)}
    (first : HasArena baseArenas 0) (unloaded : ∀ n ∈ baseArenas, n.getD 0 = 0) (threads : Nat) :
    (Machine.start base header baseArenas threads).Loads base := by
  have fresh : ∀ t ∈ (Machine.start base header baseArenas threads).threads, t = Thread.fresh :=
    fun t member => List.eq_of_mem_replicate member
  refine ⟨Machine.start_ok header first threads, ?_, ?_, ?_⟩
  · intro t member p waits
    rw [fresh t member] at waits
    cases waits
  · intro t member i a entry
    rw [fresh t member] at entry
    cases entry
  · intro p registered j
    show nthreadsAt baseArenas j = _
    rw [nthreadsAt_unloaded unloaded j, loadOf_eq_zero fun t member => ?_]
    rw [fresh t member, weight_of_joins_false rfl, if_neg (points_none rfl)]

end

/-- For every registered pool and every arena, `nthreads` is the number of threads whose
entry is current and points to the arena, besides those that are about to write it; and an
exit decrements no count that is zero. -/
theorem arena_loads_exact (c : Config) (base : Nat) (optTcache : Bool)
    (header : Nat → PoolHeader) (baseArenas : List (Option Nat)) (threads : Nat) (s : Machine)
    (first : HasArena baseArenas 0) (unloaded : ∀ n ∈ baseArenas, n.getD 0 = 0)
    (reached : Reached (Machine.LoadPermitted base) (Machine.loadStep c base optTcache)
      (Machine.start base header baseArenas threads) s) :
    (∀ p, s.registry.Registered p → ∀ j, nthreadsAt (s.arenas (s.birth p)) j =
      s.threads.countP (fun t => t.Points s.registry p ⟨p, s.birth p, j⟩) +
        s.threads.countP (fun t => t.joins ⟨p, s.birth p, j⟩)) ∧
    ((∀ t ∈ s.threads, ∀ p a k, t.pc ≠ .arenaStore p a k) →
      ∀ p, s.registry.Registered p → ∀ j, nthreadsAt (s.arenas (s.birth p)) j =
        s.threads.countP (fun t => t.Points s.registry p ⟨p, s.birth p, j⟩)) ∧
    ∀ t ∈ s.threads, ∀ beyond, ∀ n ∈ (s.exitThread t beyond).2, 0 < n := by
  have loads : s.Loads base := reached.invariant (Machine.Loads base)
    (Machine.start_loads header first unloaded threads)
    fun _ _ _ loads permitted result => loads.step permitted result
  refine ⟨loads.counts, fun rest p registered j => ?_,
    fun t member beyond => (loads.exited member beyond).positive⟩
  have noJoin : s.threads.countP (fun t => t.joins (s.arena p j)) = 0 := by
    refine List.countP_eq_zero.2 fun t member joins => ?_
    unfold Thread.joins at joins
    cases stage : t.pc with
    | arenaStore q a k => exact rest t member q a k stage
    | _ =>
        rw [stage] at joins
        cases joins
  have counts := loads.counts p registered j
  unfold loadOf at counts
  rw [noJoin] at counts
  exact counts

/-- Two threads use a pool; one of them exits, the pool is deleted and its id is used
again, and both use the new pool. -/
def loadRun : List LoadOp :=
  let use (i p : Nat) : List LoadOp :=
    .call (.thread i (.chooseArena p)) :: List.replicate 4 (.call (.thread i (.advance false))) ++
      [.call (.thread i .leave)]
  let create (p : Nat) : LoadOp :=
    .call (.registry (.create p 0xc00000 false true ⟨false, false, false, false⟩) [some 0, none])
  [create 0x10000000] ++ use 0 0x10000000 ++ use 1 0x10000000 ++ [.exit 0 fun _ => none] ++
    [.call (.registry (.delete 0x10000000) []), create 0x20000000] ++ use 1 0x20000000

theorem arena_loads_exact_run :
    ∃ s, Reached (Machine.LoadPermitted 0x1000) (Machine.loadStep defaultConfig 0x1000 true)
        (Machine.start 0x1000 (fun _ => ⟨0, 0⟩) [some 0] 2) s ∧
      s.registry.Registered 0x20000000 ∧ s.birth 0x20000000 = 2 ∧
      nthreadsAt (s.arenas 2) 0 = 1 ∧ s.arenas 1 = [some 0, some 1] ∧
      s.threads.countP (fun t => t.Points s.registry 0x20000000 ⟨0x20000000, 2, 0⟩) +
        s.threads.countP (fun t => t.joins ⟨0x20000000, 2, 0⟩) = 1 := by
  have evaluated : (permittedRuns (Machine.LoadPermitted 0x1000)
      (Machine.loadStep defaultConfig 0x1000 true)
      (Machine.start 0x1000 (fun _ => ⟨0, 0⟩) [some 0] 2) loadRun).map (fun s =>
        (decide (s.registry.Registered 0x20000000), s.birth 0x20000000,
          nthreadsAt (s.arenas 2) 0, s.arenas 1)) = some (true, 2, 1, [some 0, some 1]) := by
    decide +kernel
  obtain ⟨s, reached, values⟩ := Reached.of_evaluated evaluated
  simp only [Prod.mk.injEq, decide_eq_true_eq] at values
  obtain ⟨registered, birth, count, left⟩ := values
  have exact_ := (arena_loads_exact defaultConfig 0x1000 true (fun _ => ⟨0, 0⟩) [some 0] 2 s rfl
    (by decide) reached).1 0x20000000 registered 0
  rw [birth, count] at exact_
  exact ⟨s, reached, registered, birth, count, left, exact_.symm⟩

end Jemalloc
end Vmem
