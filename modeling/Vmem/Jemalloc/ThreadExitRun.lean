import Vmem.Jemalloc.ThreadExit

/-!
# Every array is released once

As long as no call after a destructor obtains new arrays, the memory in use is that of the
arrays whose destructor has not run, every array is released once and none is used after
its release.  A call that obtains arrays after the destructor releases the old ones a
second time, and finds an empty element where the destructor had left its mark, so that
it creates a cache for a thread that has given up its caches.
-/

namespace Vmem
namespace Jemalloc

/-! ## The arrays of a thread -/

namespace TsdOwned

variable {α : Type} {tsd : TsdOwned α} {cleaned : Bool}

/-- The arrays that the thread has to release. -/
def held (tsd : TsdOwned α) : List Nat :=
  if tsd.arrays.npools = 0 then [] else tsd.seqno.toList ++ tsd.slots.toList

/-- There are arrays exactly if `npools` is positive, and none after the destructor. -/
structure Ok (cleaned : Bool) (tsd : TsdOwned α) : Prop where
  arrays : tsd.arrays.Ok
  present : 0 < tsd.arrays.npools → cleaned = false ∧ tsd.seqno.isSome ∧ tsd.slots.isSome
  absent : tsd.arrays.npools = 0 → cleaned = false → tsd.seqno = none ∧ tsd.slots = none
  paired : tsd.seqno.isSome = tsd.slots.isSome

theorem Ok.cases (ok : tsd.Ok cleaned) (inside : 0 < tsd.arrays.npools) :
    ∃ seqno slots, tsd.seqno = some seqno ∧ tsd.slots = some slots ∧ cleaned = false ∧
      tsd.held = [seqno, slots] := by
  obtain ⟨unclean, seqnoSome, slotsSome⟩ := ok.present inside
  obtain ⟨seqno, seqnoEq⟩ := Option.isSome_iff_exists.1 seqnoSome
  obtain ⟨slots, slotsEq⟩ := Option.isSome_iff_exists.1 slotsSome
  refine ⟨seqno, slots, seqnoEq, slotsEq, unclean, ?_⟩
  unfold held
  rw [if_neg (by omega), seqnoEq, slotsEq]
  rfl

theorem held_of_zero (zero : tsd.arrays.npools = 0) : tsd.held = [] := if_pos zero

/-- The contents are replaced by others of the same length. -/
theorem Ok.withArrays (ok : tsd.Ok cleaned) {arrays : TsdArrays α} (arraysOk : arrays.Ok)
    (same : arrays.npools = tsd.arrays.npools) :
    ({ tsd with arrays := arrays } : TsdOwned α).Ok cleaned ∧
      ({ tsd with arrays := arrays } : TsdOwned α).held = tsd.held := by
  refine ⟨⟨arraysOk, fun inside => ?_, fun zero => ?_, ok.paired⟩, ?_⟩
  · rw [same] at inside
    exact ok.present inside
  · rw [same] at zero
    exact ok.absent zero
  · unfold held
    rw [same]

end TsdOwned

/-- The cells are sound, and those in use are the given ones. -/
structure Owns (cells : List Cell) (addresses : List Nat) : Prop where
  sound : Cell.Sound cells
  used : (Cell.inUse cells).Perm addresses

namespace Owns

variable {cells : List Cell} {first second : Nat} {rest addresses : List Nat}

theorem perm (owns : Owns cells addresses) {others : List Nat} (same : addresses.Perm others) :
    Owns cells others :=
  ⟨owns.sound, owns.used.trans same⟩

theorem touch (owns : Owns cells addresses) (member : first ∈ addresses) :
    touch cells (some first) = cells :=
  owns.sound.access (owns.used.mem_iff.2 member)

theorem obtain (owns : Owns cells addresses) (unused : first ∉ Cell.inUse cells) :
    Owns (Cell.obtain cells first) (first :: addresses) := by
  refine ⟨owns.sound.obtain unused, ?_⟩
  rw [Cell.inUse_obtain]
  exact owns.used.cons first

theorem release (owns : Owns cells (first :: addresses)) :
    Owns (baseFreeFn cells (some first)) addresses := by
  have member : first ∈ Cell.inUse cells := owns.used.mem_iff.2 List.mem_cons_self
  refine ⟨owns.sound.release member, ?_⟩
  show (Cell.inUse (Cell.release cells first)).Perm addresses
  rw [owns.sound.inUse_release member]
  simpa using owns.used.erase first

theorem malloc (owns : Owns cells addresses) {address result : Option Nat} {cells' : List Cell}
    (malloced : baseMallocFn cells address = some (cells', result)) :
    result = address ∧ ((address = none ∧ cells' = cells) ∨
      ∃ a, address = some a ∧ Owns cells' (a :: addresses)) := by
  unfold baseMallocFn at malloced
  cases address with
  | none =>
      obtain ⟨rfl, rfl⟩ := Prod.mk.inj (Option.some.inj malloced)
      exact ⟨rfl, Or.inl ⟨rfl, rfl⟩⟩
  | some a =>
      dsimp only at malloced
      split at malloced
      · cases malloced
      next unused =>
      obtain ⟨rfl, rfl⟩ := Prod.mk.inj (Option.some.inj malloced)
      exact ⟨rfl, Or.inr ⟨a, rfl, owns.obtain unused⟩⟩

end Owns

section

variable {α : Type} {tsd tsd' : TsdOwned α} {cleaned failed : Bool} {cells cells' : List Cell}
  {rest : List Nat}

/-- Arrays that the thread holds can be read. -/
theorem TsdOwned.Ok.touch (ok : tsd.Ok cleaned) (owns : Owns cells (tsd.held ++ rest))
    (inside : 0 < tsd.arrays.npools) :
    Jemalloc.touch cells tsd.seqno = cells ∧ Jemalloc.touch cells tsd.slots = cells := by
  obtain ⟨seqno, slots, seqnoEq, slotsEq, -, held⟩ := ok.cases inside
  rw [held] at owns
  rw [seqnoEq, slotsEq]
  exact ⟨owns.touch (by simp), owns.touch (by simp)⟩

/-- The old arrays are released when new ones take their place. -/
theorem TsdOwned.Ok.releaseOld (ok : tsd.Ok cleaned) (unclean : cleaned = false)
    (owns : Owns cells (tsd.held ++ rest)) :
    Owns (baseFreeFn (baseFreeFn cells tsd.seqno) tsd.slots) rest := by
  by_cases zero : tsd.arrays.npools = 0
  · obtain ⟨seqno, slots⟩ := ok.absent zero unclean
    rw [seqno, slots]
    rw [TsdOwned.held_of_zero zero] at owns
    exact owns
  · obtain ⟨seqno, slots, seqnoEq, slotsEq, -, held⟩ := ok.cases (by omega)
    rw [held] at owns
    rw [seqnoEq, slotsEq]
    have owns : Owns cells (seqno :: slots :: rest) := owns
    exact owns.release.release

theorem TsdOwned.Ok.memcpyFrom (ok : tsd.Ok cleaned) (owns : Owns cells (tsd.held ++ rest)) :
    memcpyFrom cells tsd.seqno tsd.arrays.npools = cells ∧
      memcpyFrom cells tsd.slots tsd.arrays.npools = cells := by
  unfold Jemalloc.memcpyFrom
  by_cases zero : tsd.arrays.npools = 0
  · rw [if_pos zero, if_pos zero]
    exact ⟨rfl, rfl⟩
  · rw [if_neg zero, if_neg zero]
    exact ok.touch owns (by omega)

/-- What an extension does: it fails and changes nothing, or new arrays are there and the
old ones are released. -/
theorem tsdExtend_spec {len : Nat} {blank : α} {mallocs : Mallocs} (ok : tsd.Ok cleaned)
    (owns : Owns cells (tsd.held ++ rest)) (small : len + 1 < 2 ^ 32)
    (short : tsd.arrays.npools ≤ len)
    (final : cleaned = true → mallocs.seqno = none ∨ mallocs.slots = none)
    (result : tsdExtend cells tsd len blank mallocs = some (cells', tsd', failed)) :
    tsd'.Ok cleaned ∧ Owns cells' (tsd'.held ++ rest) ∧
      (failed = false → len < tsd'.arrays.npools) := by
  unfold tsdExtend at result
  cases firstMalloc : baseMallocFn cells mallocs.seqno with
  | none => simp [firstMalloc] at result
  | some outcome =>
  obtain ⟨cells1, tseqno⟩ := outcome
  rw [firstMalloc] at result
  obtain ⟨rfl, ⟨seqnoNone, rfl⟩ | ⟨a, seqnoEq, owns1⟩⟩ := owns.malloc firstMalloc
  · rw [seqnoNone] at result
    injection result with result
    obtain ⟨rfl, rfl, rfl⟩ := result
    exact ⟨ok, owns, nofun⟩
  rw [seqnoEq] at result
  dsimp only at result
  have owns1 : Owns cells1 (tsd.held ++ (a :: rest)) := owns1.perm List.perm_middle.symm
  rw [(ok.memcpyFrom owns1).1] at result
  cases secondMalloc : baseMallocFn cells1 mallocs.slots with
  | none => simp [secondMalloc] at result
  | some outcome =>
  obtain ⟨cells2, tslots⟩ := outcome
  rw [secondMalloc] at result
  obtain ⟨rfl, ⟨slotsNone, rfl⟩ | ⟨b, slotsEq, owns2⟩⟩ := owns1.malloc secondMalloc
  · rw [slotsNone] at result
    injection result with result
    obtain ⟨rfl, rfl, rfl⟩ := result
    exact ⟨ok, (owns1.perm List.perm_middle).release, nofun⟩
  rw [slotsEq] at result
  dsimp only at result
  have unclean : cleaned = false := by
    cases cleaned with
    | false => rfl
    | true =>
        obtain absent | absent := final rfl
        · rw [absent] at seqnoEq
          cases seqnoEq
        · rw [absent] at slotsEq
          cases slotsEq
  have owns2 : Owns cells2 (tsd.held ++ (b :: a :: rest)) := owns2.perm List.perm_middle.symm
  rw [(ok.memcpyFrom owns2).2] at result
  injection result with result
  obtain ⟨rfl, rfl, rfl⟩ := result
  have longer : len < (tsd.arrays.extend len blank).npools := lt_tsdExtendLength small
  have newOk : (⟨tsd.arrays.extend len blank, some a, some b⟩ : TsdOwned α).Ok cleaned :=
    ⟨ok.arrays.extended small short, fun _ => ⟨unclean, rfl, rfl⟩, fun zero => by
      have zero : (tsd.arrays.extend len blank).npools = 0 := zero
      omega, rfl⟩
  refine ⟨newOk, ?_, fun _ => longer⟩
  obtain ⟨seqno, slots, seqnoSame, slotsSame, -, held⟩ := newOk.cases (by
    show 0 < (tsd.arrays.extend len blank).npools
    omega)
  rw [held]
  cases seqnoSame
  cases slotsSame
  exact (ok.releaseOld unclean owns2).perm (List.Perm.swap a b rest)

theorem tsdReach_spec {id : Nat} {blank : α} {mallocs : Mallocs} (ok : tsd.Ok cleaned)
    (owns : Owns cells (tsd.held ++ rest)) (small : id + 1 < 2 ^ 32)
    (final : cleaned = true → mallocs.seqno = none ∨ mallocs.slots = none)
    (result : tsdReach cells tsd id blank mallocs = some (cells', tsd', failed)) :
    tsd'.Ok cleaned ∧ Owns cells' (tsd'.held ++ rest) ∧
      (failed = false → id < tsd'.arrays.npools) := by
  unfold tsdReach at result
  split at result
  next short => exact tsdExtend_spec ok owns small short final result
  next long =>
    injection result with result
    obtain ⟨rfl, rfl, rfl⟩ := result
    exact ⟨ok, owns, fun _ => by omega⟩

/-- A destructor releases the arrays, if it has not done so before. -/
theorem tsdRelease_spec (ok : tsd.Ok cleaned) (owns : Owns cells (tsd.held ++ rest))
    (final : cleaned = true → tsd.seqno = none) :
    (tsdRelease cells tsd).2.Ok true ∧
      Owns (tsdRelease cells tsd).1 ((tsdRelease cells tsd).2.held ++ rest) := by
  have released : Owns (baseFreeFn (baseFreeFn cells tsd.seqno) tsd.slots) rest := by
    cases cleaned with
    | false => exact ok.releaseOld rfl owns
    | true =>
        have seqno := final rfl
        have slots : tsd.slots = none := by
          have paired := ok.paired
          rw [seqno] at paired
          exact Option.isSome_eq_false_iff.1 paired.symm |> Option.isNone_iff_eq_none.1
        have zero : tsd.arrays.npools = 0 := by
          by_contra positive
          cases (ok.present (by omega)).1
        rw [TsdOwned.held_of_zero zero] at owns
        rw [seqno, slots]
        exact owns
  exact ⟨⟨TsdArrays.none_ok, nofun, nofun, ok.paired⟩, released⟩

end

/-! ## Calls of a thread -/

namespace ExitThread

variable {optTcache : Bool} {t t' : ExitThread} {p : PoolView} {result : Option ArenaRef}

/-- What holds between the calls of a thread. -/
structure Ok (t : ExitThread) : Prop where
  arenas : t.arenas.Ok t.arenasCleaned
  tcaches : t.tcaches.Ok t.tcachesCleaned
  owns : Owns t.cells (t.arenas.held ++ t.tcaches.held)
  /-- No cache was created after the destructor. -/
  late : t.lateCaches = 0

theorem Ok.owns' (ok : t.Ok) : Owns t.cells (t.tcaches.held ++ t.arenas.held) :=
  ok.owns.perm List.perm_append_comm

/-- What a call leaves as it was. -/
structure Same (t t' : ExitThread) : Prop where
  arenasCleaned : t'.arenasCleaned = t.arenasCleaned
  tcachesCleaned : t'.tcachesCleaned = t.tcachesCleaned

theorem chooseArenaHard_spec {extendFails : Bool} (ok : t.Ok)
    (inside : p.poolId < t.arenas.arrays.npools)
    (called : t.chooseArenaHard p extendFails = some (t', result)) :
    t'.Ok ∧ Same t t' ∧ t'.tcaches = t.tcaches := by
  unfold chooseArenaHard at called
  dsimp only at called
  rw [TsdArrays.store_eq inside] at called
  obtain ⟨touchSeqno, touchSlots⟩ := ok.arenas.touch ok.owns (by omega)
  rw [touchSeqno, touchSlots] at called
  injection called with called
  obtain ⟨rfl, rfl⟩ := Prod.mk.inj called
  obtain ⟨arenas, held⟩ := ok.arenas.withArrays (ok.arenas.arrays.stored (i := p.poolId)
    p.seqno (some ⟨p.pool, p.birth, (Jemalloc.chooseArenaHard p.arenas extendFails).2⟩)) rfl
  refine ⟨⟨arenas, ok.tcaches, ?_, ok.late⟩, ⟨rfl, rfl⟩, rfl⟩
  show Owns t.cells (TsdOwned.held _ ++ t.tcaches.held)
  rw [held]
  exact ok.owns

theorem chooseArenaFrom_spec {extendFails : Bool} (ok : t.Ok)
    (inside : p.poolId < t.arenas.arrays.npools)
    (called : t.chooseArenaFrom p extendFails = some (t', result)) :
    t'.Ok ∧ Same t t' ∧ t'.tcaches = t.tcaches := by
  unfold chooseArenaFrom at called
  obtain ⟨touchSeqno, touchSlots⟩ := ok.arenas.touch ok.owns (by omega)
  obtain ⟨seqno, seqnoAt, -⟩ := ok.arenas.arrays.seqnoAt inside
  obtain ⟨slot, slotAt, -⟩ := ok.arenas.arrays.slotAt inside
  rw [seqnoAt] at called
  dsimp only at called
  rw [touchSeqno] at called
  split at called
  · exact chooseArenaHard_spec ok inside called
  rw [touchSlots, slotAt] at called
  cases slot with
  | none => exact chooseArenaHard_spec ok inside called
  | some arena =>
      injection called with called
      obtain ⟨rfl, rfl⟩ := Prod.mk.inj called
      exact ⟨ok, ⟨rfl, rfl⟩, rfl⟩

theorem chooseArena_spec {extendFails : Bool} {mallocs : Mallocs} (ok : t.Ok)
    (bound : p.poolId < poolsMax)
    (final : t.arenasCleaned = true → mallocs.seqno = none ∨ mallocs.slots = none)
    (called : t.chooseArena p extendFails mallocs = some (t', result)) :
    t'.Ok ∧ Same t t' ∧ t'.tcaches = t.tcaches := by
  have small : p.poolId + 1 < 2 ^ 32 := by
    unfold poolsMax at bound
    omega
  unfold chooseArena at called
  cases reach : tsdReach t.cells t.arenas p.poolId none mallocs with
  | none => simp [reach] at called
  | some outcome =>
  obtain ⟨cells, arenas, failed⟩ := outcome
  rw [reach] at called
  obtain ⟨arenasOk, owns, inside⟩ := tsdReach_spec ok.arenas ok.owns small final reach
  have extended : ({ t with cells := cells, arenas := arenas } : ExitThread).Ok :=
    ⟨arenasOk, ok.tcaches, owns, ok.late⟩
  cases failed with
  | true =>
      injection called with called
      obtain ⟨rfl, rfl⟩ := Prod.mk.inj called
      exact ⟨extended, ⟨rfl, rfl⟩, rfl⟩
  | false =>
      obtain ⟨after, same, tcaches⟩ := chooseArenaFrom_spec extended (inside rfl) called
      exact ⟨after, ⟨same.arenasCleaned, same.tcachesCleaned⟩, tcaches⟩

/-- Elements of the array of caches are written. -/
theorem Ok.withCaches (ok : t.Ok) {arrays : TsdArrays TcacheSlot} (arraysOk : arrays.Ok)
    (same : arrays.npools = t.tcaches.arrays.npools) :
    ({ t with tcaches := { t.tcaches with arrays := arrays } } : ExitThread).Ok := by
  obtain ⟨tcaches, held⟩ := ok.tcaches.withArrays arraysOk same
  refine ⟨ok.arenas, tcaches, ?_, ok.late⟩
  show Owns t.cells (t.arenas.held ++ TsdOwned.held _)
  rw [held]
  exact ok.owns

theorem storeCache_spec {slot : TcacheSlot} (ok : t.Ok)
    (inside : p.poolId < t.tcaches.arrays.npools)
    (stored : t.storeCache p slot = some t') : t'.Ok ∧ Same t t' := by
  unfold storeCache at stored
  rw [TsdArrays.store_eq inside] at stored
  obtain ⟨touchSeqno, touchSlots⟩ := ok.tcaches.touch ok.owns' (by omega)
  rw [touchSeqno, touchSlots] at stored
  injection stored with stored
  subst stored
  exact ⟨ok.withCaches (ok.tcaches.arrays.stored p.seqno slot) rfl, ⟨rfl, rfl⟩⟩

theorem tcacheEnabledLoop_spec {pools : Nat → Option Nat} {enabled : Bool}
    {tsd : TsdOwned TcacheSlot} {cells : List Cell}
    (touchSeqno : touch cells tsd.seqno = cells) (touchSlots : touch cells tsd.slots = cells)
    (entries : List (Nat × TcacheSlot)) (i : Nat) :
    (tcacheEnabledLoop pools enabled tsd cells i entries).1 = cells ∧
      (tcacheEnabledLoop pools enabled tsd cells i entries).2.1.length = entries.length := by
  induction entries generalizing i with
  | nil => exact ⟨rfl, rfl⟩
  | cons entry rest inductionHypothesis =>
      obtain ⟨seqno, slot⟩ := entry
      obtain ⟨cellsSame, length⟩ := inductionHypothesis (i + 1)
      have touched : (if (pools i).isSome then touch cells tsd.seqno else cells) = cells := by
        rw [touchSeqno, ite_self]
      unfold tcacheEnabledLoop
      cases slot <;> cases enabled <;>
        simp only [touchSlots, touched, cellsSame, length, List.length_cons, and_self]

theorem tcacheEnabledSet_spec (ok : t.Ok) (pools : Nat → Option Nat) (enabled : Bool) :
    (t.tcacheEnabledSet pools enabled).1.Ok ∧ Same t (t.tcacheEnabledSet pools enabled).1 := by
  have length : (t.tcaches.arrays.seqno.zip t.tcaches.arrays.slots).length =
      t.tcaches.arrays.npools := by
    rw [List.length_zip, ok.tcaches.arrays.seqno, ok.tcaches.arrays.slots, min_self]
  have loop : (tcacheEnabledLoop pools enabled t.tcaches t.cells 0
        (t.tcaches.arrays.seqno.zip t.tcaches.arrays.slots)).1 = t.cells ∧
      (tcacheEnabledLoop pools enabled t.tcaches t.cells 0
        (t.tcaches.arrays.seqno.zip t.tcaches.arrays.slots)).2.1.length =
          t.tcaches.arrays.npools := by
    by_cases zero : t.tcaches.arrays.npools = 0
    · rw [List.eq_nil_of_length_eq_zero (length.trans zero), zero]
      exact ⟨rfl, rfl⟩
    · obtain ⟨touchSeqno, touchSlots⟩ := ok.tcaches.touch ok.owns' (by omega)
      rw [← length]
      exact tcacheEnabledLoop_spec touchSeqno touchSlots _ 0
  unfold tcacheEnabledSet
  dsimp only
  rw [loop.1]
  have arraysOk : ({ t.tcaches.arrays with
      slots := (tcacheEnabledLoop pools enabled t.tcaches t.cells 0
        (t.tcaches.arrays.seqno.zip t.tcaches.arrays.slots)).2.1 } : TsdArrays TcacheSlot).Ok :=
    ⟨ok.tcaches.arrays.seqno, loop.2⟩
  have after := ok.withCaches arraysOk rfl
  exact ⟨⟨after.arenas, after.tcaches, after.owns, after.late⟩, ⟨rfl, rfl⟩⟩

theorem tcacheCreate_spec {arena : Option ArenaRef} {fails : Bool} (ok : t.Ok)
    (unclean : t.tcachesCleaned = false) (inside : p.poolId < t.tcaches.arrays.npools)
    (called : t.tcacheCreate p arena fails = some (t', result)) : t'.Ok ∧ Same t t' := by
  unfold tcacheCreate at called
  split at called
  · injection called with called
    obtain ⟨rfl, rfl⟩ := Prod.mk.inj called
    exact ⟨ok, rfl, rfl⟩
  · injection called with called
    obtain ⟨rfl, rfl⟩ := Prod.mk.inj called
    exact ⟨ok, rfl, rfl⟩
  next a =>
  cases stored : t.storeCache p (.cache a) with
  | none => simp [stored] at called
  | some after =>
  rw [stored] at called
  injection called with called
  obtain ⟨rfl, rfl⟩ := Prod.mk.inj called
  obtain ⟨afterOk, same⟩ := storeCache_spec ok inside stored
  refine ⟨⟨afterOk.arenas, afterOk.tcaches, afterOk.owns, ?_⟩, same.arenasCleaned,
    same.tcachesCleaned⟩
  show after.lateCaches + (if after.tcachesCleaned then 1 else 0) = 0
  rw [same.tcachesCleaned, unclean, afterOk.late]
  rfl

theorem tcacheGetHard_spec {slot : TcacheSlot} {create : Bool} {env : TcacheEnv} (ok : t.Ok)
    (bound : p.poolId < poolsMax) (unclean : t.tcachesCleaned = false)
    (inside : p.poolId < t.tcaches.arrays.npools)
    (final : t.arenasCleaned = true →
      env.arenaMallocs.seqno = none ∨ env.arenaMallocs.slots = none)
    (called : t.tcacheGetHard optTcache slot p create env = some (t', result)) :
    t'.Ok ∧ Same t t' := by
  unfold tcacheGetHard at called
  cases slot with
  | disabled | reincarnated | cache _ =>
      injection called with called
      obtain ⟨rfl, rfl⟩ := Prod.mk.inj called
      exact ⟨ok, rfl, rfl⟩
  | purgatory =>
      cases stored : t.storeCache p .reincarnated with
      | none => simp [stored] at called
      | some after =>
      simp only [stored, Option.map_some, Option.some.injEq, Prod.mk.injEq] at called
      obtain ⟨rfl, rfl⟩ := called
      exact storeCache_spec ok inside stored
  | null =>
      dsimp only at called
      split at called
      · injection called with called
        obtain ⟨rfl, rfl⟩ := Prod.mk.inj called
        exact ⟨ok, rfl, rfl⟩
      split at called
      · injection called with called
        obtain ⟨rfl, rfl⟩ := Prod.mk.inj called
        exact tcacheEnabledSet_spec ok env.pools false
      have memoized : ({ t with tcacheEnabled := some true } : ExitThread).Ok :=
        ⟨ok.arenas, ok.tcaches, ok.owns, ok.late⟩
      cases chosen : chooseArena { t with tcacheEnabled := some true } p env.extendFails
          env.arenaMallocs with
      | none => simp [chosen] at called
      | some outcome =>
      obtain ⟨after, arena⟩ := outcome
      rw [chosen] at called
      obtain ⟨afterOk, same, tcaches⟩ := chooseArena_spec memoized bound final chosen
      have afterInside : p.poolId < after.tcaches.arrays.npools := by
        rw [tcaches]
        exact inside
      obtain ⟨created, sameCreated⟩ :=
        tcacheCreate_spec afterOk (same.tcachesCleaned.trans unclean) afterInside called
      exact ⟨created, sameCreated.arenasCleaned.trans same.arenasCleaned,
        sameCreated.tcachesCleaned.trans same.tcachesCleaned⟩

theorem tcacheGetFrom_spec {create : Bool} {env : TcacheEnv} (ok : t.Ok)
    (bound : p.poolId < poolsMax) (inside : p.poolId < t.tcaches.arrays.npools)
    (final : t.arenasCleaned = true →
      env.arenaMallocs.seqno = none ∨ env.arenaMallocs.slots = none)
    (called : t.tcacheGetFrom optTcache p create env = some (t', result)) :
    t'.Ok ∧ Same t t' := by
  have unclean := (ok.tcaches.present (by omega)).1
  unfold tcacheGetFrom at called
  obtain ⟨touchSeqno, touchSlots⟩ := ok.tcaches.touch ok.owns' (by omega)
  obtain ⟨seqno, seqnoAt, -⟩ := ok.tcaches.arrays.seqnoAt inside
  obtain ⟨slot, slotAt, -⟩ := ok.tcaches.arrays.slotAt inside
  rw [seqnoAt, slotAt] at called
  dsimp only at called
  rw [touchSeqno, touchSlots] at called
  split at called
  · have dropped := ok.withCaches (ok.tcaches.arrays.set (i := p.poolId) .null) rfl
    obtain ⟨after, same⟩ := tcacheGetHard_spec dropped bound unclean inside final called
    exact ⟨after, same.arenasCleaned, same.tcachesCleaned⟩
  split at called
  · injection called with called
    obtain ⟨rfl, rfl⟩ := Prod.mk.inj called
    exact ⟨ok, rfl, rfl⟩
  · injection called with called
    obtain ⟨rfl, rfl⟩ := Prod.mk.inj called
    exact ⟨ok, rfl, rfl⟩
  · exact tcacheGetHard_spec ok bound unclean inside final called

/-- `tcache_get` keeps the invariant, and returns no cache after the destructor. -/
theorem tcacheGet_spec {create : Bool} {env : TcacheEnv} (ok : t.Ok)
    (bound : p.poolId < poolsMax)
    (final : t.Final (.tcacheGet p create env))
    (called : t.tcacheGet optTcache p create env = some (t', result)) :
    t'.Ok ∧ (t.tcachesCleaned = true → result = none) := by
  have small : p.poolId + 1 < 2 ^ 32 := by
    unfold poolsMax at bound
    omega
  have below : p.poolId ≠ uintMax := by
    unfold uintMax
    omega
  unfold tcacheGet at called
  rw [if_neg below] at called
  dsimp only at called
  cases reach : tsdReach t.cells t.tcaches p.poolId .null env.mallocs with
  | none => simp [reach] at called
  | some outcome =>
  obtain ⟨cells, tcaches, failed⟩ := outcome
  rw [reach] at called
  obtain ⟨tcachesOk, owns, inside⟩ := tsdReach_spec ok.tcaches ok.owns' small final.1 reach
  have extended : ({ t with cells := cells, tcaches := tcaches } : ExitThread).Ok :=
    ⟨ok.arenas, tcachesOk, owns.perm List.perm_append_comm, ok.late⟩
  cases failed with
  | true =>
      injection called with called
      obtain ⟨rfl, rfl⟩ := Prod.mk.inj called
      exact ⟨extended, fun _ => rfl⟩
  | false =>
      have inside := inside rfl
      have unclean := (tcachesOk.present (by omega)).1
      refine ⟨(tcacheGetFrom_spec extended bound inside final.2 called).1, fun cleaned => ?_⟩
      rw [unclean] at cleaned
      cases cleaned

theorem arenasCleanupLoop_cells {pools : Nat → Option Nat} {tsd : TsdOwned (Option ArenaRef)}
    {cells : List Cell} (touchSeqno : touch cells tsd.seqno = cells)
    (touchSlots : touch cells tsd.slots = cells) (entries : List (Nat × Option ArenaRef))
    (i : Nat) :
    (arenasCleanupLoop pools tsd cells i entries).1 = cells := by
  induction entries generalizing i with
  | nil => rfl
  | cons entry rest inductionHypothesis =>
      obtain ⟨seqno, slot⟩ := entry
      unfold arenasCleanupLoop
      cases pools i with
      | none => exact inductionHypothesis (i + 1)
      | some number =>
          dsimp only
          rw [touchSeqno, touchSlots]
          split
          · exact inductionHypothesis (i + 1)
          · exact inductionHypothesis (i + 1)

theorem tcacheCleanupLoop_cells {pools : Nat → Option Nat} {tsd : TsdOwned TcacheSlot}
    {cells : List Cell} (touchSeqno : touch cells tsd.seqno = cells)
    (touchSlots : touch cells tsd.slots = cells) (entries : List (Nat × TcacheSlot)) (i : Nat) :
    (tcacheCleanupLoop pools tsd cells i entries).1 = cells := by
  induction entries generalizing i with
  | nil => rfl
  | cons entry rest inductionHypothesis =>
      obtain ⟨seqno, slot⟩ := entry
      have next := inductionHypothesis (i + 1)
      unfold tcacheCleanupLoop
      cases slot with
      | null | disabled | purgatory | reincarnated =>
          dsimp only
          rw [touchSlots]
          exact next
      | cache a =>
          dsimp only
          rw [touchSlots, touchSeqno, ite_self]
          exact next

theorem entries_nil {α : Type} {cleaned : Bool} {tsd : TsdOwned α} (ok : tsd.Ok cleaned)
    (zero : tsd.arrays.npools = 0) : tsd.arrays.seqno.zip tsd.arrays.slots = [] := by
  have seqno := ok.arrays.seqno
  rw [zero] at seqno
  rw [List.eq_nil_of_length_eq_zero seqno, List.zip_nil_left]

theorem arenasCleanup_spec {pools : Nat → Option Nat} (ok : t.Ok)
    (final : t.arenasCleaned = true → t.arenas.seqno = none) :
    (t.arenasCleanup pools).1.Ok := by
  have loop : (arenasCleanupLoop pools t.arenas t.cells 0
      (t.arenas.arrays.seqno.zip t.arenas.arrays.slots)).1 = t.cells := by
    by_cases zero : t.arenas.arrays.npools = 0
    · rw [entries_nil ok.arenas zero]
      rfl
    · obtain ⟨touchSeqno, touchSlots⟩ := ok.arenas.touch ok.owns (by omega)
      exact arenasCleanupLoop_cells touchSeqno touchSlots _ 0
  obtain ⟨arenas, owns⟩ := tsdRelease_spec ok.arenas ok.owns final
  unfold arenasCleanup
  dsimp only
  rw [loop]
  exact ⟨arenas, ok.tcaches, owns, ok.late⟩

theorem tcacheThreadCleanup_spec {pools : Nat → Option Nat} (ok : t.Ok)
    (final : t.tcachesCleaned = true → t.tcaches.seqno = none) :
    (t.tcacheThreadCleanup pools).1.Ok := by
  have loop : (tcacheCleanupLoop pools t.tcaches t.cells 0
      (t.tcaches.arrays.seqno.zip t.tcaches.arrays.slots)).1 = t.cells := by
    by_cases zero : t.tcaches.arrays.npools = 0
    · rw [entries_nil ok.tcaches zero]
      rfl
    · obtain ⟨touchSeqno, touchSlots⟩ := ok.tcaches.touch ok.owns' (by omega)
      exact tcacheCleanupLoop_cells touchSeqno touchSlots _ 0
  obtain ⟨tcaches, owns⟩ := tsdRelease_spec ok.tcaches ok.owns' final
  unfold tcacheThreadCleanup
  dsimp only
  rw [loop]
  exact ⟨ok.arenas, tcaches, owns.perm List.perm_append_comm, ok.late⟩

/-! ## Runs -/

theorem Ok.step (ok : t.Ok) {op : ExitOp} (permitted : Permitted op) (final : t.Final op)
    (result : t.step optTcache op = some t') : t'.Ok := by
  cases op with
  | chooseArena p extendFails mallocs =>
      obtain ⟨⟨after, arena⟩, called, rfl⟩ := Option.map_eq_some_iff.1 result
      exact (chooseArena_spec ok permitted final called).1
  | tcacheGet p create env =>
      obtain ⟨⟨after, cache⟩, called, rfl⟩ := Option.map_eq_some_iff.1 result
      exact (tcacheGet_spec ok permitted final called).1
  | tcacheEnabledSet pools enabled =>
      injection result with result
      subst result
      exact (tcacheEnabledSet_spec ok pools enabled).1
  | arenasCleanup pools =>
      injection result with result
      subst result
      exact arenasCleanup_spec ok final
  | tcacheThreadCleanup pools =>
      injection result with result
      subst result
      exact tcacheThreadCleanup_spec ok final

theorem fresh_ok : fresh.Ok where
  arenas := ⟨TsdArrays.none_ok, nofun, fun _ _ => ⟨rfl, rfl⟩, rfl⟩
  tcaches := ⟨TsdArrays.none_ok, nofun, fun _ _ => ⟨rfl, rfl⟩, rfl⟩
  owns := ⟨Cell.sound_nil, List.Perm.refl []⟩
  late := rfl

/-- An array that was not released is one that the thread still has to release. -/
theorem Ok.unreleased (ok : t.Ok) {cell : Cell} (member : cell ∈ t.cells)
    (unreleased : cell.releases = 0) :
    (t.arenasCleaned = false ∧ (t.arenas.seqno = some cell.address ∨
        t.arenas.slots = some cell.address)) ∨
      (t.tcachesCleaned = false ∧ (t.tcaches.seqno = some cell.address ∨
        t.tcaches.slots = some cell.address)) := by
  have used : cell.address ∈ t.arenas.held ++ t.tcaches.held :=
    ok.owns.used.mem_iff.1 (Cell.mem_inUse.2 ⟨cell, member, unreleased, rfl⟩)
  obtain used | used := List.mem_append.1 used
  · left
    by_cases zero : t.arenas.arrays.npools = 0
    · rw [TsdOwned.held_of_zero zero] at used
      cases used
    obtain ⟨seqno, slots, seqnoEq, slotsEq, unclean, held⟩ := ok.arenas.cases (by omega)
    rw [held] at used
    rw [seqnoEq, slotsEq]
    refine ⟨unclean, ?_⟩
    simpa [eq_comm] using used
  · right
    by_cases zero : t.tcaches.arrays.npools = 0
    · rw [TsdOwned.held_of_zero zero] at used
      cases used
    obtain ⟨seqno, slots, seqnoEq, slotsEq, unclean, held⟩ := ok.tcaches.cases (by omega)
    rw [held] at used
    rw [seqnoEq, slotsEq]
    refine ⟨unclean, ?_⟩
    simpa [eq_comm] using used

/-- What the destructors promise. -/
structure Safe (t : ExitThread) : Prop where
  /-- No array is released twice or used after its release. -/
  once : ∀ cell ∈ t.cells, cell.releases ≤ 1 ∧ cell.late = 0
  /-- An array is not released only as long as its destructor has not run. -/
  released : ∀ cell ∈ t.cells, cell.releases = 0 →
    (t.arenasCleaned = false ∧ (t.arenas.seqno = some cell.address ∨
        t.arenas.slots = some cell.address)) ∨
      (t.tcachesCleaned = false ∧ (t.tcaches.seqno = some cell.address ∨
        t.tcaches.slots = some cell.address))
  /-- No cache was created after `tcache_thread_cleanup`. -/
  late : t.lateCaches = 0

end ExitThread

/-- In every run in which no call obtains arrays after their destructor and no destructor
releases twice, all arrays are released once and unused afterwards, and `tcache_get`
neither creates nor returns a cache after `tcache_thread_cleanup`. -/
theorem exit_releases_once (optTcache : Bool) (t : ExitThread)
    (reached : Reached (fun t op => ExitThread.Permitted op ∧ t.Final op)
      (ExitThread.step optTcache) ExitThread.fresh t) :
    t.Safe ∧
      ∀ p create env t' result, p.poolId < poolsMax → t.tcachesCleaned = true →
        t.Final (.tcacheGet p create env) →
        t.tcacheGet optTcache p create env = some (t', result) →
        result = none ∧ t'.lateCaches = 0 := by
  have ok : t.Ok := reached.invariant ExitThread.Ok ExitThread.fresh_ok
    (fun before op after ok allowed result => ok.step allowed.1 allowed.2 result)
  refine ⟨⟨ok.owns.sound.once, fun cell member unreleased => ok.unreleased member unreleased,
    ok.late⟩, ?_⟩
  intro p create env t' result bound cleaned final called
  obtain ⟨after, noCache⟩ := ExitThread.tcacheGet_spec ok bound final called
  exact ⟨noCache cleaned, after.late⟩

/-- The only pool besides the base pool. -/
def exitPool : PoolView := ⟨0x10000000, 1, 1, 1, [some 0]⟩

/-- The pools of the process. -/
def exitPools (i : Nat) : Option Nat := if i = 1 then some 1 else none

/-- `tcache_get` with arrays at the given addresses. -/
def exitTcacheGet (mallocs arenaMallocs : Mallocs) : ExitOp :=
  .tcacheGet exitPool true ⟨mallocs, arenaMallocs, false, false, exitPools⟩

/-- Both arrays are obtained and released, and calls that come later get no memory. -/
def exitInOrder : List ExitOp :=
  [exitTcacheGet ⟨some 0, some 1⟩ ⟨some 2, some 3⟩,
    .chooseArena exitPool false ⟨none, none⟩,
    .tcacheThreadCleanup exitPools,
    .arenasCleanup exitPools,
    .chooseArena exitPool false ⟨some 0, none⟩,
    exitTcacheGet ⟨none, none⟩ ⟨none, none⟩]

theorem exit_releases_once_in_order :
    ∃ t, Reached (fun t op => ExitThread.Permitted op ∧ t.Final op) (ExitThread.step true)
        ExitThread.fresh t ∧
      t.cells.map (·.releases) = [1, 1, 1, 1, 1] ∧ t.Safe := by
  have evaluated : (permittedRuns (fun t op => ExitThread.Permitted op ∧ t.Final op)
      (ExitThread.step true) ExitThread.fresh exitInOrder).map (fun t => t.cells.map (·.releases)) =
        some [1, 1, 1, 1, 1] := by decide +kernel
  obtain ⟨t, reached, released⟩ := Reached.of_evaluated evaluated
  exact ⟨t, reached, released, (exit_releases_once true t reached).1⟩

/-- An arena is chosen before and after `arenas_cleanup`. -/
def exitThenChoose : List ExitOp :=
  [.chooseArena exitPool false ⟨some 0, some 1⟩, .arenasCleanup exitPools,
    .chooseArena exitPool false ⟨some 2, some 3⟩]

/-- The first call of `tcache_get` comes after `tcache_thread_cleanup`. -/
def exitThenCache : List ExitOp :=
  [.tcacheThreadCleanup exitPools, exitTcacheGet ⟨some 0, some 1⟩ ⟨some 2, some 3⟩]

/-- The first arrays are released twice, and a cache is created after the destructor. -/
theorem exit_releases_twice :
    (∃ t, Reached (fun _ op => ExitThread.Permitted op) (ExitThread.step true) ExitThread.fresh t ∧
      t.cells.map (·.releases) = [0, 0, 2, 2] ∧ ¬t.Safe) ∧
    (∃ t, Reached (fun _ op => ExitThread.Permitted op) (ExitThread.step true) ExitThread.fresh t ∧
      t.tcachesCleaned = true ∧ t.lateCaches = 1 ∧ ¬t.Safe) := by
  constructor
  · have evaluated : (permittedRuns (fun _ op => ExitThread.Permitted op) (ExitThread.step true)
        ExitThread.fresh exitThenChoose).map (fun t => t.cells.map (·.releases)) =
          some [0, 0, 2, 2] := by decide +kernel
    obtain ⟨t, reached, released⟩ := Reached.of_evaluated evaluated
    refine ⟨t, reached, released, fun safe => ?_⟩
    have member : 2 ∈ t.cells.map (·.releases) := by
      rw [released]
      decide
    obtain ⟨cell, member, twice⟩ := List.mem_map.1 member
    have once := (safe.once cell member).1
    omega
  · have evaluated : (permittedRuns (fun _ op => ExitThread.Permitted op) (ExitThread.step true)
        ExitThread.fresh exitThenCache).map (fun t => (t.tcachesCleaned, t.lateCaches)) =
          some (true, 1) := by decide +kernel
    obtain ⟨t, reached, created⟩ := Reached.of_evaluated evaluated
    obtain ⟨cleaned, late⟩ := Prod.mk.inj created
    refine ⟨t, reached, cleaned, late, fun safe => ?_⟩
    rw [safe.late] at late
    cases late

end Jemalloc
end Vmem
