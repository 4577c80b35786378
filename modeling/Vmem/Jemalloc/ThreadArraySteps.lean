import Mathlib.Data.Nat.Log
import Vmem.Jemalloc.ThreadArrays

/-!
# Steps of threads over their arrays

An entry of a thread's array is for the incarnation of a pool that its index and its
sequence number determine: index 0 is for the base pool, any other index for the
creation with that number.  Every step keeps this, and every access it makes is within
the array, apart from those that `arenas_cleanup` makes to `pools`.
-/

namespace Vmem
namespace Jemalloc

/-! ## Lengths -/

theorem tsdExtendLength_eq {len : Nat} (small : len + 1 < 2 ^ 32) :
    tsdExtendLength len = max (2 ^ (Nat.log2 (len + 1) + 1)) poolsMin := by
  have bound : Nat.log2 (len + 1) < 32 := (Nat.log2_lt (by omega)).mpr small
  unfold tsdExtendLength builtinClz
  rw [show 32 - (31 - Nat.log2 (len + 1)) = Nat.log2 (len + 1) + 1 by omega]

/-- The new array has an element for the pool. -/
theorem lt_tsdExtendLength {len : Nat} (small : len + 1 < 2 ^ 32) : len < tsdExtendLength len := by
  rw [tsdExtendLength_eq small]
  have := @Nat.lt_log2_self (len + 1)
  omega

/-- The array of a thread is no longer than the array of pools exactly if the pool is
not the last one in it. -/
theorem tsdExtendLength_le_iff {len k : Nat} (small : len + 1 < 2 ^ 32) :
    tsdExtendLength len ≤ poolsMin * 2 ^ k ↔ len + 1 < poolsMin * 2 ^ k := by
  rw [tsdExtendLength_eq small]
  have power : poolsMin * 2 ^ k = 2 ^ (k + 4) := by
    rw [Nat.pow_add, Nat.mul_comm]
    rfl
  have least : poolsMin ≤ poolsMin * 2 ^ k := Nat.le_mul_of_pos_right _ (Nat.two_pow_pos k)
  rw [Nat.max_le, and_iff_left least, power, Nat.pow_le_pow_iff_right (by decide),
    Nat.succ_le_iff]
  exact Nat.log2_lt (by omega)

/-! ## Arrays -/

/-- Both arrays have the length that is noted. -/
structure TsdArrays.Ok {α : Type} (tsd : TsdArrays α) : Prop where
  seqno : tsd.seqno.length = tsd.npools
  slots : tsd.slots.length = tsd.npools

namespace TsdArrays

variable {α : Type} {tsd : TsdArrays α} {i : Nat} {blank : α}

theorem none_ok : (none_ : TsdArrays α).Ok := ⟨rfl, rfl⟩

theorem Ok.seqnoAt (ok : tsd.Ok) (inside : i < tsd.npools) :
    ∃ seqno, tsd.seqnoAt i = some seqno ∧ tsd.seqno[i]? = some seqno := by
  have bound : i < tsd.seqno.length := by rw [ok.seqno]; exact inside
  refine ⟨tsd.seqno[i], ?_, List.getElem?_eq_getElem bound⟩
  unfold TsdArrays.seqnoAt
  rw [if_pos inside, List.getElem?_eq_getElem bound]

theorem Ok.slotAt (ok : tsd.Ok) (inside : i < tsd.npools) :
    ∃ slot, tsd.slotAt i = some slot ∧ tsd.slots[i]? = some slot := by
  have bound : i < tsd.slots.length := by rw [ok.slots]; exact inside
  refine ⟨tsd.slots[i], ?_, List.getElem?_eq_getElem bound⟩
  unfold TsdArrays.slotAt
  rw [if_pos inside, List.getElem?_eq_getElem bound]

theorem setSlot_eq (inside : i < tsd.npools) (value : α) :
    tsd.setSlot i value = some { tsd with slots := tsd.slots.set i value } := by
  unfold TsdArrays.setSlot
  rw [if_pos inside]

theorem store_eq (inside : i < tsd.npools) (seqno : Nat) (value : α) :
    tsd.store i seqno value =
      some { tsd with seqno := tsd.seqno.set i seqno, slots := tsd.slots.set i value } := by
  unfold TsdArrays.store
  rw [if_pos inside]

theorem Ok.set (ok : tsd.Ok) (value : α) :
    ({ tsd with slots := tsd.slots.set i value } : TsdArrays α).Ok :=
  ⟨ok.seqno, by rw [List.length_set]; exact ok.slots⟩

theorem Ok.stored (ok : tsd.Ok) (seqno : Nat) (value : α) :
    ({ tsd with
      seqno := tsd.seqno.set i seqno, slots := tsd.slots.set i value } : TsdArrays α).Ok :=
  ⟨by rw [List.length_set]; exact ok.seqno, by rw [List.length_set]; exact ok.slots⟩

theorem Ok.extended (ok : tsd.Ok) {len : Nat} (small : len + 1 < 2 ^ 32)
    (short : tsd.npools ≤ len) : (tsd.extend len blank).Ok := by
  have longer := lt_tsdExtendLength small
  unfold TsdArrays.extend
  constructor
  · show (tsd.seqno ++ _).length = tsdExtendLength len
    rw [List.length_append, List.length_replicate, ok.seqno]
    omega
  · show (tsd.slots ++ _).length = tsdExtendLength len
    rw [List.length_append, List.length_replicate, ok.slots]
    omega

/-- An element of the new array is an old one or blank. -/
theorem Ok.extended_slots (ok : tsd.Ok) {len : Nat} {slot : α} {seqno : Nat}
    (entry : (tsd.extend len blank).slots[i]? = some slot)
    (number : (tsd.extend len blank).seqno[i]? = some seqno) :
    slot = blank ∨ (tsd.slots[i]? = some slot ∧ tsd.seqno[i]? = some seqno) := by
  have entry : (tsd.slots ++ List.replicate (tsdExtendLength len - tsd.npools) blank)[i]? =
    some slot := entry
  have number : (tsd.seqno ++ List.replicate (tsdExtendLength len - tsd.npools) 0)[i]? =
    some seqno := number
  by_cases old : i < tsd.npools
  · right
    rw [List.getElem?_append_left (by rw [ok.slots]; exact old)] at entry
    rw [List.getElem?_append_left (by rw [ok.seqno]; exact old)] at number
    exact ⟨entry, number⟩
  · left
    rw [List.getElem?_append_right (by rw [ok.slots]; omega), List.getElem?_replicate] at entry
    split at entry
    · injection entry with same
      exact same.symm
    · cases entry

end TsdArrays

/-! ## Loops -/

section

variable {r : Registry} {tsd : TsdArrays TcacheSlot}

/-- Caches are only in entries that the array of pools has. -/
def CachesBelow (r : Registry) (tsd : TsdArrays TcacheSlot) : Prop :=
  ∀ (i : Nat) (a : ArenaRef), tsd.slots[i]? = some (.cache a) → i < r.pools.length

theorem poolMatches_isSome (ok : tsd.Ok) {i : Nat} (inside : i < tsd.npools)
    (below : i < r.pools.length) : ∃ same, poolMatches r tsd i = some same := by
  obtain ⟨seqno, read, _⟩ := ok.seqnoAt inside
  unfold poolMatches
  rw [List.getElem?_eq_getElem below]
  cases r.pools[i] with
  | none => exact ⟨false, rfl⟩
  | some pool =>
      rw [read]
      exact ⟨_, rfl⟩

/-- Writing something other than a cache leaves only caches that were there. -/
theorem cache_of_set {slots : List TcacheSlot} {i j : Nat} {value : TcacheSlot} {a : ArenaRef}
    (other : ∀ b, value ≠ .cache b) (entry : (slots.set i value)[j]? = some (.cache a)) :
    slots[j]? = some (.cache a) := by
  by_cases here : i = j
  · subst here
    rw [List.getElem?_set] at entry
    simp only [if_true] at entry
    split at entry
    · injection entry with same
      exact absurd same (other a)
    · cases entry
  · rwa [List.getElem?_set_ne here] at entry

/-- What the loops do to the array: entries lose their caches. -/
structure Fewer (tsd tsd' : TsdArrays TcacheSlot) : Prop where
  ok : tsd'.Ok
  npools : tsd'.npools = tsd.npools
  seqno : tsd'.seqno = tsd.seqno
  caches : ∀ (i : Nat) (a : ArenaRef),
    tsd'.slots[i]? = some (.cache a) → tsd.slots[i]? = some (.cache a)

theorem Fewer.refl (ok : tsd.Ok) : Fewer tsd tsd := ⟨ok, rfl, rfl, fun _ _ => id⟩

theorem Fewer.trans {first second third : TsdArrays TcacheSlot} (before : Fewer first second)
    (after : Fewer second third) : Fewer first third :=
  ⟨after.ok, after.npools.trans before.npools, after.seqno.trans before.seqno,
    fun i a entry => before.caches i a (after.caches i a entry)⟩

theorem Fewer.below {tsd' : TsdArrays TcacheSlot} (fewer : Fewer tsd tsd')
    (below : CachesBelow r tsd) : CachesBelow r tsd' :=
  fun i a entry => below i a (fewer.caches i a entry)

theorem Fewer.set (ok : tsd.Ok) (i : Nat) {value : TcacheSlot} (other : ∀ b, value ≠ .cache b) :
    Fewer tsd { tsd with slots := tsd.slots.set i value } :=
  ⟨ok.set value, rfl, rfl, fun _ _ entry => cache_of_set other entry⟩

/-- `tcache_thread_cleanup` stays inside the arrays. -/
theorem tcacheCleanupLoop_spec (remaining i : Nat) (tsd : TsdArrays TcacheSlot) (ok : tsd.Ok)
    (below : CachesBelow r tsd) (length : i + remaining = tsd.npools) :
    ∃ tsd', tcacheCleanupLoop r tsd i remaining = some tsd' ∧ Fewer tsd tsd' := by
  induction remaining generalizing i tsd with
  | zero => exact ⟨tsd, rfl, Fewer.refl ok⟩
  | succ remaining inductionHypothesis =>
      have inside : i < tsd.npools := by omega
      obtain ⟨slot, read, entry⟩ := ok.slotAt inside
      have keep := inductionHypothesis (i + 1) tsd ok below (by omega)
      -- an entry is overwritten
      have overwrite : ∃ tsd', tcacheCleanupLoop r
          { tsd with slots := tsd.slots.set i .purgatory } (i + 1) remaining = some tsd' ∧
          Fewer tsd tsd' := by
        have fewer : Fewer tsd { tsd with slots := tsd.slots.set i .purgatory } :=
          Fewer.set ok i fun _ absurd_ => by cases absurd_
        obtain ⟨tsd', result, rest⟩ := inductionHypothesis (i + 1) _ fewer.ok
          (fewer.below below) (show i + 1 + remaining = tsd.npools by omega)
        exact ⟨tsd', result, fewer.trans rest⟩
      unfold tcacheCleanupLoop
      rw [read]
      cases slot with
      | null | disabled | purgatory => exact keep
      | reincarnated =>
          dsimp only
          rw [TsdArrays.setSlot_eq inside]
          exact overwrite
      | cache a =>
          obtain ⟨same, matched⟩ := poolMatches_isSome ok inside (below i a entry)
          dsimp only
          rw [matched, TsdArrays.setSlot_eq inside]
          exact overwrite

/-- `tcache_enabled_set` stays inside the arrays. -/
theorem tcacheEnabledLoop_spec (enabled : Bool) (remaining i : Nat) (tsd : TsdArrays TcacheSlot)
    (ok : tsd.Ok) (below : CachesBelow r tsd) (length : i + remaining = tsd.npools) :
    ∃ tsd', tcacheEnabledLoop r enabled tsd i remaining = some tsd' ∧ Fewer tsd tsd' := by
  induction remaining generalizing i tsd with
  | zero => exact ⟨tsd, rfl, Fewer.refl ok⟩
  | succ remaining inductionHypothesis =>
      have inside : i < tsd.npools := by omega
      obtain ⟨slot, read, entry⟩ := ok.slotAt inside
      have keep := inductionHypothesis (i + 1) tsd ok below (by omega)
      have overwrite : ∀ value : TcacheSlot, (∀ b, value ≠ .cache b) →
          ∃ tsd', tcacheEnabledLoop r enabled { tsd with slots := tsd.slots.set i value } (i + 1)
            remaining = some tsd' ∧ Fewer tsd tsd' := by
        intro value other
        have fewer := Fewer.set ok i other
        obtain ⟨tsd', result, rest⟩ := inductionHypothesis (i + 1) _ fewer.ok
          (fewer.below below) (show i + 1 + remaining = tsd.npools by omega)
        exact ⟨tsd', result, fewer.trans rest⟩
      unfold tcacheEnabledLoop
      rw [read]
      cases slot with
      | null | purgatory | reincarnated => exact keep
      | disabled =>
          dsimp only
          split
          · rw [TsdArrays.setSlot_eq inside]
            exact overwrite _ fun _ absurd_ => by cases absurd_
          · exact keep
      | cache a =>
          obtain ⟨same, matched⟩ := poolMatches_isSome ok inside (below i a entry)
          dsimp only
          split
          · exact keep
          · rw [matched, TsdArrays.setSlot_eq inside]
            exact overwrite _ fun _ absurd_ => by cases absurd_

end

/-- `arenas_cleanup` stays inside the arrays exactly if the array of pools is as long
as that of the thread. -/
theorem arenasCleanupLoop_isSome_iff {r : Registry} {tsd : TsdArrays (Option ArenaRef)}
    (ok : tsd.Ok) (remaining i : Nat) (arenas : Nat → List (Option Nat))
    (length : i + remaining = tsd.npools) :
    (arenasCleanupLoop r tsd arenas i remaining).isSome ↔
      (remaining = 0 ∨ tsd.npools ≤ r.pools.length) := by
  induction remaining generalizing i arenas with
  | zero => simp [arenasCleanupLoop]
  | succ remaining inductionHypothesis =>
      have inside : i < tsd.npools := by omega
      obtain ⟨seqno, readSeqno, _⟩ := ok.seqnoAt inside
      obtain ⟨slot, readSlot, _⟩ := ok.slotAt inside
      have next : ∀ arenas, (arenasCleanupLoop r tsd arenas (i + 1) remaining).isSome →
          i < r.pools.length → tsd.npools ≤ r.pools.length := by
        intro arenas finished within
        obtain last | longer := (inductionHypothesis (i + 1) arenas (by omega)).mp finished
        · omega
        · exact longer
      simp only [Nat.add_eq_zero_iff, Nat.one_ne_zero, and_false, false_or]
      unfold arenasCleanupLoop
      rw [readSeqno, readSlot]
      by_cases within : i < r.pools.length
      · have loop : ∀ arenas, (arenasCleanupLoop r tsd arenas (i + 1) remaining).isSome ↔
            tsd.npools ≤ r.pools.length := by
          intro arenas
          refine ⟨fun finished => next arenas finished within, fun longer => ?_⟩
          exact (inductionHypothesis (i + 1) arenas (by omega)).mpr (Or.inr longer)
        rw [List.getElem?_eq_getElem within]
        cases r.pools[i] with
        | none => exact loop arenas
        | some pool =>
            cases slot with
            | none => exact loop arenas
            | some a => exact loop _
      · rw [List.getElem?_eq_none (by omega)]
        simp only [Option.isSome_none, Bool.false_eq_true, false_iff]
        omega

/-! ## Arenas -/

/-- `arenas[i] != NULL`. -/
def HasArena (arenas : List (Option Nat)) (i : Nat) : Prop := arenas[i]?.join.isSome = true

theorem hasArena_iff {arenas : List (Option Nat)} {i : Nat} :
    HasArena arenas i ↔ ∃ nthreads, arenas[i]? = some (some nthreads) := by
  unfold HasArena
  cases entry : arenas[i]? with
  | none => simp
  | some arena => cases arena <;> simp

/-- Changing `nthreads` of an arena does not remove any. -/
theorem HasArena.modify {arenas : List (Option Nat)} {i j : Nat} (has : HasArena arenas i)
    (change : Nat → Nat) : HasArena (arenas.modify j (Option.map change)) i := by
  obtain ⟨nthreads, entry⟩ := hasArena_iff.mp has
  rw [hasArena_iff, List.getElem?_modify, entry]
  by_cases here : j = i
  · exact ⟨change nthreads, by simp [here]⟩
  · exact ⟨nthreads, by simp [here]⟩

theorem HasArena.set {arenas : List (Option Nat)} {i j : Nat} (has : HasArena arenas i) :
    HasArena (arenas.set j (some 0)) i := by
  obtain ⟨nthreads, entry⟩ := hasArena_iff.mp has
  have inside := (List.getElem?_eq_some_iff.mp entry).1
  rw [hasArena_iff, List.getElem?_set]
  by_cases here : j = i
  · exact ⟨0, by simp [here, inside]⟩
  · exact ⟨nthreads, by simp [here, entry]⟩

/-- The loop finds an arena, and an index that is free if it is not the end. -/
theorem scanArenas_spec {arenas : List (Option Nat)} (remaining i : Nat) (found : Nat × Nat)
    (within : i + remaining ≤ arenas.length) (chosen : HasArena arenas found.1)
    (last : found.2 ≤ arenas.length) :
    HasArena arenas (scanArenas arenas i remaining found).1 ∧
      (scanArenas arenas i remaining found).2 ≤ arenas.length := by
  induction remaining generalizing i found with
  | zero => exact ⟨chosen, last⟩
  | succ remaining inductionHypothesis =>
      obtain ⟨choose, firstNull⟩ := found
      unfold scanArenas
      split
      next nthreads entry =>
          refine inductionHypothesis (i + 1) _ (by omega) ?_ last
          have here : HasArena arenas i := by simp [HasArena, entry]
          dsimp only
          split
          · exact here
          · exact chosen
      next =>
          refine inductionHypothesis (i + 1) _ (by omega) chosen ?_
          dsimp only
          split
          · omega
          · exact last

/-- `choose_arena_hard` chooses an arena and loses none. -/
theorem chooseArenaHard_spec {arenas : List (Option Nat)} (first : HasArena arenas 0)
    (extendFails : Bool) :
    HasArena (chooseArenaHard arenas extendFails).1 (chooseArenaHard arenas extendFails).2 ∧
      ∀ i, HasArena arenas i → HasArena (chooseArenaHard arenas extendFails).1 i := by
  unfold chooseArenaHard
  have counted : ∀ (chosen : List (Option Nat)) (index : Nat), HasArena chosen index →
      (∀ i, HasArena arenas i → HasArena chosen i) →
      HasArena (chosen.modify index (Option.map (· + 1))) index ∧
        ∀ i, HasArena arenas i → HasArena (chosen.modify index (Option.map (· + 1))) i :=
    fun _ _ has keeps => ⟨has.modify _, fun i before => (keeps i before).modify _⟩
  by_cases several : arenas.length > 1
  · rw [if_pos several]
    have scanned := scanArenas_spec (arenas.length - 1) 1 (0, arenas.length) (by omega) first
      (Nat.le_refl _)
    generalize scanArenas arenas 1 (arenas.length - 1) (0, arenas.length) = found at scanned
    obtain ⟨choose, firstNull⟩ := found
    obtain ⟨chosen, last⟩ := scanned
    dsimp only at chosen last ⊢
    by_cases usable : nthreadsAt arenas choose = 0 ∨ firstNull = arenas.length
    · rw [if_pos usable]
      exact counted arenas choose chosen fun _ => id
    · rw [if_neg usable]
      simp only [not_or] at usable
      cases extendFails with
      | true => exact counted arenas 0 first fun _ => id
      | false =>
          refine counted (arenas.set firstNull (some 0)) firstNull ?_ fun _ has => has.set
          rw [hasArena_iff]
          refine ⟨0, ?_⟩
          rw [List.getElem?_set_self]
          have := usable.2
          omega
  · rw [if_neg several]
    exact counted arenas 0 first fun _ => id

end Jemalloc
end Vmem
