import Vmem.Jemalloc.ThreadCaches

/-!
# Thread arrays over whole runs

The invariant holds in every state that calls on the registry and steps of threads
lead to.  From it follow what `choose_arena` and `tcache_get` may return, and which
accesses are inside the arrays.
-/

namespace Vmem
namespace Jemalloc

variable {c : Config} {base : Nat} {optTcache : Bool} {s : Machine} {t : Thread}

/-! ## Steps of threads -/

/-- `arenas_cleanup` loses no arena. -/
theorem arenasCleanupLoop_keeps {r : Registry} {tsd : TsdArrays (Option ArenaRef)}
    (remaining i : Nat) (arenas after : Nat → List (Option Nat))
    (result : arenasCleanupLoop r tsd arenas i remaining = some after) (b j : Nat)
    (has : HasArena (arenas b) j) : HasArena (after b) j := by
  induction remaining generalizing i arenas with
  | zero =>
      injection result with same
      exact same ▸ has
  | succ remaining inductionHypothesis =>
      unfold arenasCleanupLoop at result
      split at result
      case h_1 => cases result
      case h_2 => exact inductionHypothesis (i + 1) arenas result has
      case h_3 pool _ =>
      split at result
      case h_3 => cases result
      case h_2 => exact inductionHypothesis (i + 1) arenas result has
      case h_1 seqno a _ _ =>
      refine inductionHypothesis (i + 1) _ result ?_
      split
      case isFalse => exact has
      case isTrue =>
      unfold releaseArena
      by_cases same : b = a.birth
      · subst same
        rw [Function.update_self]
        exact has.modify _
      · rw [Function.update_of_ne same]
        exact has

/-- A step that is inside the arrays loses no arena and keeps the invariant of the
thread. -/
theorem steps_of_threadStep (optTcache : Bool) (ok : s.Ok base) (thread : t.Ok s) {op : ThreadOp}
    (permitted : Machine.ThreadPermitted s.registry t op) :
    Steps s (threadStep optTcache s t op) ∨
      (op = .arenasCleanup ∧ threadStep optTcache s t op = none) := by
  cases op with
  | chooseArena p =>
      refine Or.inl (Steps.stay (thread.goto ⟨permitted.2, fun absurd_ => ?_⟩))
      cases absurd_
  | tcacheGet p create => exact Or.inl (Steps.stay (thread.goto permitted.2))
  | advance fails => exact Or.inl (steps_advance ok thread permitted.1 permitted.2 optTcache fails)
  | leave => exact Or.inl (Steps.stay (thread.goto trivial))
  | tcacheEnabledSet enabled =>
      obtain ⟨tsd, loop, fewer⟩ := tcacheEnabledLoop_spec enabled t.tcaches.npools 0 t.tcaches
        thread.tcaches thread.below (Nat.zero_add _)
      have stands : t.pc.Ok s t.arenas.npools tsd := by
        rw [show t.pc = .idle from permitted]
        trivial
      left
      dsimp only [threadStep, tcacheEnabledSet]
      rw [loop]
      exact Steps.stay (thread.dropCaches fewer stands (some enabled))
  | tcacheThreadCleanup =>
      obtain ⟨tsd, loop, fewer⟩ := tcacheCleanupLoop_spec t.tcaches.npools 0 t.tcaches
        thread.tcaches thread.below (Nat.zero_add _)
      left
      dsimp only [threadStep]
      rw [loop]
      refine Steps.stay ⟨thread.arenas, TsdArrays.none_ok, thread.arenaSlots, ?_, ?_,
        thread.extended,
        thread.extendedLive, ?_⟩
      · intro i a seqno entry
        cases entry
      · intro i a entry
        cases entry
      · rw [show t.pc = .idle from permitted]
        trivial
  | arenasCleanup =>
      dsimp only [threadStep]
      cases loop : arenasCleanupLoop s.registry t.arenas s.arenas 0 t.arenas.npools with
      | none => exact Or.inr ⟨rfl, rfl⟩
      | some after =>
          have extends_ : Extends s { s with arenas := after } :=
            ⟨Nat.le_refl _, Nat.le_refl _, fun _ _ => rfl,
              fun b _ j has => arenasCleanupLoop_keeps _ _ _ _ loop b j has⟩
          have kept := thread.frame extends_ fun _ _ registered => ⟨registered, rfl, rfl⟩
          refine Or.inl ⟨after, _, rfl, extends_, TsdArrays.none_ok, kept.tcaches, ?_,
            kept.tcacheSlots, kept.below, rfl, ?_, ?_⟩
          · intro i a seqno entry
            cases entry
          · intro id absurd_
            cases absurd_
          · rw [show t.pc = .idle from permitted]
            trivial

/-- Which steps stay inside the arrays. -/
theorem threadStep_isSome_iff (optTcache : Bool) (ok : s.Ok base) (thread : t.Ok s) {op : ThreadOp}
    (permitted : Machine.ThreadPermitted s.registry t op) :
    (threadStep optTcache s t op).isSome ↔
      (op = .arenasCleanup → ∀ id, t.extendedFor = some id → id + 1 < s.registry.pools.length) := by
  by_cases cleanup : op = .arenasCleanup
  · subst cleanup
    have bounds := arenasCleanupLoop_isSome_iff (r := s.registry) thread.arenas t.arenas.npools 0
      s.arenas (Nat.zero_add _)
    dsimp only [threadStep]
    rw [Option.isSome_map, bounds, thread.extended]
    simp only [true_implies]
    cases last : t.extendedFor with
    | none => simp
    | some id =>
        obtain ⟨k, _, length⟩ := ok.registry.size ok.init
        have small := ok.small (thread.extendedLive id last)
        have positive := lt_tsdExtendLength small
        simp only [Option.map_some, Option.getD_some, Option.some.injEq, forall_eq']
        rw [length, tsdExtendLength_le_iff small]
        omega
  · obtain ⟨arenas, t', result, _⟩ | ⟨absurd_, _⟩ :=
      steps_of_threadStep optTcache ok thread permitted
    · rw [result]
      simp [cleanup]
    · exact absurd absurd_ cleanup

/-- The machine after a step of a thread. -/
theorem Machine.Ok.setThread (ok : s.Ok base) {arenas : Nat → List (Option Nat)} {t' : Thread}
    (extends_ : Extends s { s with arenas := arenas }) (thread : t'.Ok { s with arenas := arenas })
    (i : Nat) : Machine.Ok base { s with arenas := arenas, threads := s.threads.set i t' } := by
  have same : Extends { s with arenas := arenas }
      { s with arenas := arenas, threads := s.threads.set i t' } :=
    ⟨Nat.le_refl _, Nat.le_refl _, fun _ _ => rfl, fun _ _ _ => id⟩
  refine ⟨ok.registry, ok.init, ok.seqno, ok.owners, ?_, ?_⟩
  · intro p registered
    obtain ⟨j, entry⟩ := registered
    exact extends_.arenas _ (ok.owners j p entry).2.1 _ (ok.first p ⟨j, entry⟩)
  · intro u member
    obtain old | new := List.mem_or_eq_of_mem_set member
    · refine ((ok.threads u old).frame extends_ ?_).frame same ?_ <;>
        exact fun _ _ registered => ⟨registered, rfl, rfl⟩
    · subst new
      exact thread.frame same fun _ _ registered => ⟨registered, rfl, rfl⟩

/-! ## Calls on the registry -/

/-- The machine after a call that registers no pool. -/
theorem Machine.Ok.withRegistry (ok : s.Ok base) {r : Registry} (registryOk : r.Ok base)
    (init : r.basePoolInitialized = true) (seqno : r.poolSeqno = s.registry.poolSeqno)
    (length : s.registry.pools.length ≤ r.pools.length)
    (entries : ∀ i p : Nat, r.pools[i]? = some (some p) →
      s.registry.pools[i]? = some (some p) ∧ r.header p = s.registry.header p)
    (calls : ∀ t ∈ s.threads, ∀ p, t.pc.pool = some p → s.registry.Registered p →
      r.Registered p ∧ r.header p = s.registry.header p) :
    Machine.Ok base { s with registry := r } := by
  have extends_ : Extends s { s with registry := r } :=
    ⟨length, Nat.le_refl _, fun _ _ => rfl, fun _ _ _ => id⟩
  refine ⟨registryOk, init, seqno.trans ok.seqno, ?_, ?_, ?_⟩
  · intro i p entry
    obtain ⟨before, header⟩ := entries i p entry
    show s.birth p = owner i (r.header p).seqno ∧ _
    rw [header]
    exact ok.owners i p before
  · rintro p ⟨i, entry⟩
    exact ok.first p ⟨i, (entries i p entry).1⟩
  · intro t member
    refine (ok.threads t member).frame extends_ fun p inCall registered => ?_
    obtain ⟨stays, header⟩ := calls t member p inCall registered
    exact ⟨stays, header, rfl⟩

/-- Writing the header of a pool that is not registered. -/
theorem Machine.Ok.setHeader (ok : s.Ok base) {r : Registry}
    (bigger : Registry.Grown base s.registry r)
    {addr : Nat} (absent : ¬s.registry.Registered addr) (value : PoolHeader) :
    Machine.Ok base { s with registry := r.setHeader addr value } := by
  have header : ∀ p, s.registry.Registered p →
      (r.setHeader addr value).header p = s.registry.header p := by
    intro p registered
    have different : p ≠ addr := by
      rintro rfl
      exact absent registered
    show Function.update r.header addr value p = s.registry.header p
    rw [Function.update_of_ne different, bigger.header]
  refine ok.withRegistry ((bigger.ok ok.registry).setHeader fun registered =>
    absent (bigger.registered.mp registered)) bigger.init bigger.seqno bigger.length_le ?_ ?_
  · intro i p entry
    have before := bigger.entry_iff.mp entry
    exact ⟨before, header p ⟨i, before⟩⟩
  · intro t _ p _ registered
    exact ⟨bigger.registered.mpr registered, header p registered⟩

/-- The pools that were registered still are, under the same ids. -/
theorem Registry.Grown.entry_register {old r : Registry} (bigger : Registry.Grown base old r)
    {addr id i p : Nat} (absent : ¬old.Registered addr) (unused : r.pools[id]? = some none)
    (value : PoolHeader) (entry : old.pools[i]? = some (some p)) :
    p ≠ addr ∧ ((r.setHeader addr value).register addr id).pools[i]? = some (some p) := by
  refine ⟨?_, ?_⟩
  · rintro rfl
    exact absent ⟨i, entry⟩
  · have entry := bigger.entry_iff.mpr entry
    have different : id ≠ i := by
      rintro rfl
      rw [unused] at entry
      cases entry
    show (r.pools.set id (some addr))[i]? = some (some p)
    rw [List.getElem?_set_ne different]
    exact entry

/-- The machine after a call that creates a pool. -/
theorem Machine.Ok.created (ok : s.Ok base) {r : Registry}
    (bigger : Registry.Grown base s.registry r)
    {addr id : Nat} {value : PoolHeader} {arenas : List (Option Nat)}
    (absent : ¬s.registry.Registered addr) (positive : 1 ≤ id) (unused : r.pools[id]? = some none)
    (booted : value.poolId = id) (bound : s.births < 2 ^ 32) (first : HasArena arenas 0) :
    Machine.Ok base
      { s with
        registry := (r.setHeader addr value).register addr id
        births := s.births + 1
        birth := Function.update s.birth addr s.births
        site := Function.update s.site s.births addr
        arenas := Function.update s.arenas s.births arenas } := by
  have ends := Registry.CreateResult.ok ok.registry bigger absent
    (Registry.CreateResult.created id value positive unused booted)
  have inside : id < r.pools.length := (List.getElem?_eq_some_iff.mp unused).1
  -- the header of the new pool
  have fresh : ((r.setHeader addr value).register addr id).header addr =
      { value with seqno := s.births } := by
    have seqno : r.poolSeqno = s.births := by
      rw [bigger.seqno, ok.seqno, Nat.mod_eq_of_lt bound]
    simp [Registry.register, Registry.setHeader, seqno]
  have others : ∀ p, p ≠ addr → ((r.setHeader addr value).register addr id).header p =
      s.registry.header p := by
    intro p different
    simp [Registry.register, Registry.setHeader, Function.update_of_ne different, bigger.header]
  have old := fun i p (entry : s.registry.pools[i]? = some (some p)) =>
    bigger.entry_register absent unused value entry
  have entries := fun i p
    (entry : ((r.setHeader addr value).register addr id).pools[i]? = some (some p)) =>
      bigger.of_entry_register inside entry
  refine ⟨ends, bigger.init, ?_, ?_, ?_, ?_⟩
  · show (r.poolSeqno + 1) % 2 ^ 32 = (s.births + 1) % 2 ^ 32
    rw [bigger.seqno, ok.seqno, Nat.mod_add_mod]
  · intro i p entry
    obtain ⟨rfl, rfl⟩ | before := entries i p entry
    · show Function.update s.birth p s.births p = owner i _ ∧
        Function.update s.birth p s.births p < s.births + 1 ∧
        Function.update s.site s.births p (Function.update s.birth p s.births p) = p
      rw [fresh, Function.update_self, Function.update_self, owner, if_neg (by omega)]
      exact ⟨rfl, Nat.lt_succ_self _, rfl⟩
    · have different := (old i p before).1
      obtain ⟨birth, older, site⟩ := ok.owners i p before
      show Function.update s.birth addr s.births p = owner i _ ∧
        Function.update s.birth addr s.births p < s.births + 1 ∧
        Function.update s.site s.births addr (Function.update s.birth addr s.births p) = p
      rw [others p different, Function.update_of_ne different,
        Function.update_of_ne (Nat.ne_of_lt older)]
      exact ⟨birth, Nat.lt_succ_of_lt older, site⟩
  · rintro p ⟨i, entry⟩
    show HasArena (Function.update s.arenas s.births arenas
      (Function.update s.birth addr s.births p)) 0
    obtain ⟨_, rfl⟩ | before := entries i p entry
    · rw [Function.update_self, Function.update_self]
      exact first
    · have older := (ok.owners i p before).2.1
      rw [Function.update_of_ne (old i p before).1, Function.update_of_ne (Nat.ne_of_lt older)]
      exact ok.first p ⟨i, before⟩
  · intro t member
    refine (ok.threads t member).frame ⟨?_, Nat.le_succ _, ?_, ?_⟩ ?_
    · show s.registry.pools.length ≤ (r.pools.set id (some addr)).length
      rw [List.length_set]
      exact bigger.length_le
    · intro b older
      exact Function.update_of_ne (Nat.ne_of_lt older) _ _
    · intro b older i has
      show HasArena (Function.update s.arenas s.births arenas b) i
      rw [Function.update_of_ne (Nat.ne_of_lt older)]
      exact has
    · rintro p _ ⟨i, entry⟩
      obtain ⟨different, stays⟩ := old i p entry
      exact ⟨⟨i, stays⟩, others p different, Function.update_of_ne different _ _⟩

/-- Every call on the registry keeps the invariant. -/
theorem Machine.Ok.registryStep (ok : s.Ok base) {op : RegistryOp} {arenas : List (Option Nat)}
    (permitted : s.RegistryPermitted base arenas op) :
    (s.registryStep c base op arenas).Ok base := by
  cases op with
  | create addr size zeroed empty faults =>
      obtain ⟨⟨_, absent⟩, bound, first⟩ := permitted
      obtain ⟨grown, bigger, ends⟩ :=
        Registry.create_result c ok.registry.toShape ok.init addr size zeroed empty faults
      unfold Machine.registryStep
      dsimp only
      generalize jePoolCreate c base s.registry addr size zeroed empty faults = result at ends
      cases ends with
      | refused =>
          refine ok.withRegistry (bigger.ok ok.registry) bigger.init bigger.seqno
            bigger.length_le ?_ ?_
          · exact fun i p entry => ⟨bigger.entry_iff.mp entry, congrFun bigger.header p⟩
          · exact fun t _ p _ registered =>
              ⟨bigger.registered.mpr registered, congrFun bigger.header p⟩
      | failed value => exact ok.setHeader bigger absent value
      | created id value positive unused booted =>
          exact ok.created bigger absent positive unused booted bound first
  | delete p =>
      have result : s.registry.exec c base (.delete p) = some (jePoolDelete s.registry p).1 := rfl
      have registryOk := ok.registry.exec (show s.registry.Permitted base (.delete p) from trivial)
        result
      unfold Machine.registryStep
      dsimp only
      obtain ⟨_, refused⟩ | ⟨id, _, entry, _, deleted⟩ := ok.registry.delete_cases p
      · rw [refused]
        exact ok
      · rw [deleted] at registryOk ⊢
        have inside := (List.getElem?_eq_some_iff.mp entry).1
        have header : ∀ q, q ≠ p → Function.update s.registry.header p
            { s.registry.header p with poolId := uintMax } q = s.registry.header q :=
          fun q different => Function.update_of_ne different _ _
        refine ok.withRegistry registryOk ok.init rfl (by simp) ?_ ?_
        · intro i q other
          have placed : (s.registry.pools.set id none)[i]? = some (some q) := other
          have different : id ≠ i := by
            rintro rfl
            rw [List.getElem?_set_self inside] at placed
            cases placed
          rw [List.getElem?_set_ne different] at placed
          refine ⟨placed, header q ?_⟩
          rintro rfl
          exact different ((ok.registry.ids id q entry).symm.trans (ok.registry.ids i q placed))
        · rintro t member q inCall ⟨i, other⟩
          have distinct : q ≠ p := by
            rintro rfl
            exact permitted t member inCall
          refine ⟨⟨i, ?_⟩, header q distinct⟩
          show (s.registry.pools.set id none)[i]? = some (some q)
          rw [List.getElem?_set_ne, other]
          rintro rfl
          rw [entry] at other
          exact distinct (by simpa using other.symm)
  | scribble p value => exact ok.setHeader (ok.registry.grown ok.init) permitted.2 value

/-! ## Whole runs -/

/-- Every step keeps the invariant. -/
theorem Machine.Ok.step (ok : s.Ok base) {op : MachineOp} {s' : Machine}
    (permitted : s.Permitted base op) (result : s.step c base optTcache op = some s') :
    s'.Ok base := by
  cases op with
  | registry op arenas =>
      injection result with result
      subst result
      exact ok.registryStep permitted
  | thread i op =>
      obtain ⟨t, present, allowed⟩ := permitted
      have present : s.threads[i]? = some t := present
      have thread := ok.threads t (List.mem_of_getElem? present)
      dsimp only [Machine.step] at result
      rw [present, Option.bind_some] at result
      obtain ⟨arenas, t', stepped, extends_, kept⟩ | ⟨_, outside⟩ :=
        steps_of_threadStep optTcache ok thread allowed
      · rw [stepped] at result
        injection result with result
        subst result
        exact ok.setThread extends_ kept i
      · rw [outside] at result
        cases result

theorem Machine.start_ok (header : Nat → PoolHeader) {baseArenas : List (Option Nat)}
    (first : HasArena baseArenas 0) (threads : Nat) :
    (Machine.start base header baseArenas threads).Ok base := by
  have registryOk := (Registry.start_ok base header).mallocInitBasePool false
  have pools : (Machine.start base header baseArenas threads).registry.pools =
      some base :: List.replicate (poolsMin - 1) none := rfl
  refine ⟨registryOk, rfl, rfl, ?_, fun _ _ => first, ?_⟩
  · intro i p entry
    rw [pools] at entry
    cases i with
    | zero =>
        have same : base = p := by simpa using entry
        subst same
        exact ⟨rfl, Nat.zero_lt_one, rfl⟩
    | succ i =>
        rw [List.getElem?_cons_succ, List.getElem?_replicate] at entry
        split at entry <;> simp at entry
  · intro t member
    rw [show t = Thread.fresh from List.eq_of_mem_replicate member]
    refine ⟨TsdArrays.none_ok, TsdArrays.none_ok, ?_, ?_, ?_, rfl, ?_, trivial⟩
    · intro i a seqno entry
      cases entry
    · intro i a seqno entry
      cases entry
    · intro i a entry
      cases entry
    · intro id absurd_
      cases absurd_

/-- The states that calls on the registry and steps of threads lead to. -/
abbrev MachineReached (c : Config) (base : Nat) (optTcache : Bool) (header : Nat → PoolHeader)
    (baseArenas : List (Option Nat)) (threads : Nat) (s : Machine) : Prop :=
  Reached (Machine.Permitted base) (Machine.step c base optTcache)
    (Machine.start base header baseArenas threads) s

theorem ok_of_machineReached {header : Nat → PoolHeader} {baseArenas : List (Option Nat)}
    {threads : Nat} (first : HasArena baseArenas 0)
    (reached : MachineReached c base optTcache header baseArenas threads s) : s.Ok base :=
  reached.invariant (Machine.Ok base) (Machine.start_ok header first threads)
    fun _ _ _ ok permitted result => ok.step permitted result

/-- What `choose_arena` and `tcache_get` return belongs to the pool as it is now. -/
theorem stale_caches_unused (c : Config) (base : Nat) (optTcache : Bool)
    (header : Nat → PoolHeader) (baseArenas : List (Option Nat)) (threads : Nat) (s : Machine)
    (first : HasArena baseArenas 0)
    (reached : MachineReached c base optTcache header baseArenas threads s) :
    (∀ t ∈ s.threads, ∀ p a, t.pc = .arenaReturned p (some a) →
      s.registry.Registered p ∧ a.pool = p ∧ a.birth = s.birth p ∧
        HasArena (s.arenas (s.birth p)) a.index) ∧
      ∀ t ∈ s.threads, ∀ p a, t.pc = .tcacheReturned p (some a) →
        s.registry.Registered p ∧ a.pool = p ∧ a.birth = s.birth p ∧
          HasArena (s.arenas (s.birth p)) a.index := by
  have ok := ok_of_machineReached first reached
  have belongs : ∀ {a : ArenaRef} {p : Nat}, a.Of s p →
      a.pool = p ∧ a.birth = s.birth p ∧ HasArena (s.arenas (s.birth p)) a.index :=
    fun of => ⟨of.pool, of.birth, of.birth ▸ of.exists_.present⟩
  refine ⟨?_, ?_⟩
  · intro t member p a stands
    have pc := (ok.threads t member).pc
    rw [stands] at pc
    exact ⟨pc.1, belongs (pc.2 a rfl)⟩
  · intro t member p a stands
    have pc := (ok.threads t member).pc
    rw [stands] at pc
    exact ⟨pc.1, belongs (pc.2 a rfl)⟩

/-- A call of thread 0 that takes the given number of steps. -/
def callSteps (op : ThreadOp) (steps : Nat) : List MachineOp :=
  .thread 0 op :: List.replicate steps (.thread 0 (.advance false))

/-- A pool is created with all that can succeed. -/
def createPool (addr : Nat) : MachineOp :=
  .registry (.create addr 0xc00000 false true ⟨false, false, false, false⟩) [some 0]

/-- A thread uses a pool, which is deleted; another pool takes its id, and the thread
asks for an arena of that pool. -/
def reusedPoolId : List MachineOp :=
  [createPool 0x10000000] ++ callSteps (.chooseArena 0x10000000) 4 ++ [.thread 0 .leave] ++
    callSteps (.tcacheGet 0x10000000 true) 7 ++ [.thread 0 .leave] ++
    [.registry (.delete 0x10000000) [], createPool 0x20000000] ++
    callSteps (.chooseArena 0x20000000) 4

theorem stale_caches_unused_reused :
    ∃ (s : Machine) (t : Thread), t ∈ s.threads ∧
      t.pc = .arenaReturned 0x20000000 (some ⟨0x20000000, 2, 0⟩) ∧ s.birth 0x20000000 = 2 ∧
      t.tcaches.slots[1]? = some (.cache ⟨0x10000000, 1, 0⟩) := by
  have evaluated : (permittedRuns (Machine.Permitted 0x1000)
      (Machine.step defaultConfig 0x1000 true)
      (Machine.start 0x1000 (fun _ => ⟨0, 0⟩) [some 0] 2) reusedPoolId).bind
        (fun s => s.threads[0]?.map fun t => (t.pc, t.tcaches.slots[1]?)) =
      some (.arenaReturned 0x20000000 (some ⟨0x20000000, 2, 0⟩),
        some (.cache ⟨0x10000000, 1, 0⟩)) := by
    decide +kernel
  obtain ⟨s, run, rest⟩ := Option.bind_eq_some_iff.mp evaluated
  obtain ⟨t, present, values⟩ := Option.map_eq_some_iff.mp rest
  injection values with stands stale
  have member := List.mem_of_getElem? present
  have current := (stale_caches_unused defaultConfig 0x1000 true (fun _ => ⟨0, 0⟩) [some 0] 2 s rfl
    (Reached.start.of_permittedRuns run)).1 t member _ _ stands
  exact ⟨s, t, member, stands, current.2.2.1.symm, stale⟩

/-- Every access to the arrays of a thread and to `pools` is inside them, except those
of `arenas_cleanup` if the array of the thread was extended for the last id that
`pools` has. -/
theorem array_accesses_inside (c : Config) (base : Nat) (optTcache : Bool)
    (header : Nat → PoolHeader) (baseArenas : List (Option Nat)) (threads : Nat) (s : Machine)
    (first : HasArena baseArenas 0)
    (reached : MachineReached c base optTcache header baseArenas threads s) (op : MachineOp)
    (permitted : s.Permitted base op) :
    (s.step c base optTcache op).isSome ↔
      ∀ i t, op = .thread i .arenasCleanup → s.threads[i]? = some t →
        ∀ id, t.extendedFor = some id → id + 1 < s.registry.pools.length := by
  have ok := ok_of_machineReached first reached
  cases op with
  | registry op arenas =>
      simp only [Machine.step, Option.isSome_some, true_iff]
      intro i t absurd_
      cases absurd_
  | thread i op =>
      obtain ⟨t, present, allowed⟩ := permitted
      have present : s.threads[i]? = some t := present
      have thread := ok.threads t (List.mem_of_getElem? present)
      have inside := threadStep_isSome_iff optTcache ok thread allowed
      dsimp only [Machine.step]
      rw [present, Option.bind_some, Option.isSome_map, inside]
      constructor
      · intro holds j u same there
        injection same with same which
        subst same
        rw [present] at there
        injection there with there
        subst there
        exact holds which
      · intro holds which
        exact holds i t (by rw [which]) present

theorem array_accesses_inside_first :
    ∃ s, MachineReached defaultConfig 0x1000 true (fun _ => ⟨0, 0⟩) [some 0] 1 s ∧
      (s.step defaultConfig 0x1000 true (.thread 0 .arenasCleanup)).isSome := by
  have evaluated : (permittedRuns (Machine.Permitted 0x1000)
      (Machine.step defaultConfig 0x1000 true)
      (Machine.start 0x1000 (fun _ => ⟨0, 0⟩) [some 0] 1)
      ([createPool 0x10000000] ++ callSteps (.chooseArena 0x10000000) 4 ++
        [.thread 0 .leave])).map (fun s =>
          (decide (s.Permitted 0x1000 (.thread 0 .arenasCleanup)), s.registry.pools.length,
            s.threads.map Thread.extendedFor)) = some (true, 16, [some 1]) := by
    decide +kernel
  obtain ⟨s, run, values⟩ := Option.map_eq_some_iff.mp evaluated
  injection values with permitted rest
  injection rest with length last
  have reached := Reached.start.of_permittedRuns run
  refine ⟨s, reached, (array_accesses_inside defaultConfig 0x1000 true (fun _ => ⟨0, 0⟩) [some 0] 1
    s rfl reached _ (of_decide_eq_true permitted)).mpr ?_⟩
  intro i t _ present id isLast
  have member : t.extendedFor ∈ s.threads.map Thread.extendedFor :=
    List.mem_map_of_mem (List.mem_of_getElem? present)
  rw [last, isLast] at member
  have first : id = 1 := by simpa using member
  rw [length, first]
  decide

/-- Fifteen pools, the last of which has the last id. -/
def fifteenPools : List MachineOp := (List.range 15).map fun i => createPool (0x10000000 * (i + 1))

/-- A thread that has used the pool with the last id reads beyond `pools` when it
exits. -/
theorem arenasCleanup_outside :
    ∃ s, MachineReached defaultConfig 0x1000 true (fun _ => ⟨0, 0⟩) [some 0] 1 s ∧
      s.Permitted 0x1000 (.thread 0 .arenasCleanup) ∧
      s.step defaultConfig 0x1000 true (.thread 0 .arenasCleanup) = none := by
  have evaluated : (permittedRuns (Machine.Permitted 0x1000)
      (Machine.step defaultConfig 0x1000 true)
      (Machine.start 0x1000 (fun _ => ⟨0, 0⟩) [some 0] 1)
      (fifteenPools ++ callSteps (.chooseArena 0xf0000000) 4 ++ [.thread 0 .leave])).map
        (fun s => (decide (s.Permitted 0x1000 (.thread 0 .arenasCleanup)),
          (s.step defaultConfig 0x1000 true (.thread 0 .arenasCleanup)).isNone)) =
      some (true, true) := by
    decide +kernel
  obtain ⟨s, run, values⟩ := Option.map_eq_some_iff.mp evaluated
  injection values with permitted outside
  exact ⟨s, Reached.start.of_permittedRuns run, of_decide_eq_true permitted,
    Option.isNone_iff_eq_none.mp outside⟩

end Jemalloc
end Vmem
