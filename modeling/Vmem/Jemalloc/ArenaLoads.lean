import Vmem.Jemalloc.ThreadCachesRun

/-!
# Arena loads

`choose_arena_hard` counts a thread in the arena that it chooses, and `arenas_cleanup`
takes the thread out of the arenas of all the pools that are still those of its entries.
The count of an arena is the number of threads whose entry for the pool is current and
points to the arena; a thread that has been counted but has not written its entry yet
is counted besides.

A thread exits by `arenas_cleanup`.  Where its array of arenas is longer than `pools`, the
loop reads beyond `pools`; what it finds there is left open.
-/

namespace Vmem
namespace Jemalloc

/-! ## The loads -/

/-- The entry of the thread for the pool is current and points to the arena. -/
def Thread.Points (r : Registry) (p : Nat) (a : ArenaRef) (t : Thread) : Prop :=
  t.arenas.seqnoAt (r.header p).poolId = some (r.header p).seqno ∧
    t.arenas.slotAt (r.header p).poolId = some (some a)

instance (r : Registry) (p : Nat) (a : ArenaRef) : DecidablePred (Thread.Points r p a) :=
  fun t => inferInstanceAs (Decidable (t.arenas.seqnoAt _ = some _ ∧ t.arenas.slotAt _ = some _))

/-- The thread has been counted in the arena, but its entry is not written yet. -/
def Thread.joins (a : ArenaRef) (t : Thread) : Bool :=
  match t.pc with
  | .arenaStore _ b _ => decide (b = a)
  | _ => false

/-- What a thread adds to the load of an arena. -/
def Thread.weight (r : Registry) (p : Nat) (a : ArenaRef) (t : Thread) : Nat :=
  (if t.Points r p a then 1 else 0) + (if t.joins a then 1 else 0)

/-- The load of an arena. -/
def loadOf (r : Registry) (p : Nat) (a : ArenaRef) (threads : List Thread) : Nat :=
  threads.countP (fun t => t.Points r p a) + threads.countP (fun t => t.joins a)

/-- An arena of the pool as it is now. -/
def Machine.arena (s : Machine) (p j : Nat) : ArenaRef := ⟨p, s.birth p, j⟩

/-! ## Exits -/

/-- `pools[i]->seqno`, with something beyond the end of `pools`. -/
def poolNumber (r : Registry) (beyond : Nat → Option Nat) (i : Nat) : Option Nat :=
  match r.pools[i]? with
  | some entry => entry.map fun p => (r.header p).seqno
  | none => beyond i

/-- The loop of `arenas_cleanup` from index `i` on, with the values of `nthreads` that it
finds before it decrements them. -/
def exitLoop (number : Nat → Option Nat) (tsd : TsdArrays (Option ArenaRef)) :
    (Nat → List (Option Nat)) → Nat → Nat → (Nat → List (Option Nat)) × List Nat
  | arenas, _, 0 => (arenas, [])
  | arenas, i, remaining + 1 =>
      match number i, tsd.seqnoAt i, tsd.slotAt i with
      | some found, some seqno, some (some a) =>
          if found = seqno then
            let (after, counts) := exitLoop number tsd (releaseArena arenas a) (i + 1) remaining
            (after, nthreadsAt (arenas a.birth) a.index :: counts)
          else exitLoop number tsd arenas (i + 1) remaining
      | _, _, _ => exitLoop number tsd arenas (i + 1) remaining

/-- A call, a step of a thread, or the exit of a thread. -/
inductive LoadOp
  | call (op : MachineOp)
  | exit (i : Nat) (beyond : Nat → Option Nat)

/-- `arenas_cleanup` of a thread. -/
def Machine.exitThread (s : Machine) (t : Thread) (beyond : Nat → Option Nat) :
    (Nat → List (Option Nat)) × List Nat :=
  exitLoop (poolNumber s.registry beyond) t.arenas s.arenas 0 t.arenas.npools

/-- One step. -/
def Machine.loadStep (c : Config) (base : Nat) (optTcache : Bool) (s : Machine) :
    LoadOp → Option Machine
  | .call op => s.step c base optTcache op
  | .exit i beyond =>
      s.threads[i]?.map fun t =>
        { s with
          arenas := (s.exitThread t beyond).1
          threads := s.threads.set i
            { t with arenas := TsdArrays.none_, extendedFor := none } }

/-- The step is the destructor. -/
def ThreadOp.exits : ThreadOp → Bool
  | .arenasCleanup => true
  | _ => false

/-- What may happen next.  A pool is created empty, with an arena that has no threads. -/
def Machine.LoadPermitted (base : Nat) (s : Machine) : LoadOp → Prop
  | .call (.registry (.create addr size zeroed empty faults) arenas) =>
      s.Permitted base (.registry (.create addr size zeroed empty faults) arenas) ∧
        empty = true ∧ ∀ n ∈ arenas, n.getD 0 = 0
  | .call (.registry op arenas) => s.Permitted base (.registry op arenas)
  | .call (.thread i op) => s.Permitted base (.thread i op) ∧ op.exits = false
  | .exit i _ => ∃ t ∈ s.threads[i]?, t.pc = .idle

instance (base : Nat) (s : Machine) (op : LoadOp) : Decidable (s.LoadPermitted base op) :=
  match op with
  | .call (.registry (.create addr size zeroed empty faults) arenas) =>
      inferInstanceAs (Decidable (s.Permitted base
        (.registry (.create addr size zeroed empty faults) arenas) ∧ empty = true ∧
          ∀ n ∈ arenas, n.getD 0 = 0))
  | .call (.registry (.delete p) arenas) =>
      inferInstanceAs (Decidable (s.Permitted base (.registry (.delete p) arenas)))
  | .call (.registry (.scribble p value) arenas) =>
      inferInstanceAs (Decidable (s.Permitted base (.registry (.scribble p value) arenas)))
  | .call (.thread i op) =>
      inferInstanceAs (Decidable (s.Permitted base (.thread i op) ∧ op.exits = false))
  | .exit i _ => inferInstanceAs (Decidable (∃ t ∈ s.threads[i]?, t.pc = .idle))

/-! ## Counting -/

section

variable {r : Registry} {p : Nat} {a : ArenaRef} {threads : List Thread} {t : Thread}

theorem countP_set_balance {α : Type} {entries : List α} {i : Nat} {before : α}
    (test : α → Bool) (after : α) (present : entries[i]? = some before) :
    (entries.set i after).countP test + (if test before then 1 else 0) =
      entries.countP test + (if test after then 1 else 0) := by
  obtain ⟨inside, same⟩ := List.getElem?_eq_some_iff.1 present
  have counted : (if test before then 1 else 0) ≤ entries.countP test := by
    split
    next holds =>
      exact List.countP_pos_iff.2 ⟨before, List.mem_of_getElem? present, holds⟩
    · exact Nat.zero_le _
  rw [List.countP_set inside, same]
  omega

/-- Replacing one thread changes the load by the difference of the weights. -/
theorem loadOf_set {i : Nat} (t' : Thread) (present : threads[i]? = some t) :
    loadOf r p a (threads.set i t') + t.weight r p a = loadOf r p a threads + t'.weight r p a := by
  have points := countP_set_balance (fun t => decide (t.Points r p a)) t' present
  have joins := countP_set_balance (fun t => t.joins a) t' present
  simp only [decide_eq_true_eq] at points
  unfold loadOf Thread.weight
  omega

theorem weight_le_load (member : t ∈ threads) : t.weight r p a ≤ loadOf r p a threads := by
  unfold Thread.weight loadOf
  refine Nat.add_le_add ?_ ?_
  · split
    next holds => exact List.countP_pos_iff.2 ⟨t, member, decide_eq_true holds⟩
    · exact Nat.zero_le _
  · split
    next holds => exact List.countP_pos_iff.2 ⟨t, member, holds⟩
    · exact Nat.zero_le _

end

/-! ## Counts of arenas -/

theorem nthreadsAt_eq {arenas : List (Option Nat)} {i n : Nat}
    (entry : arenas[i]? = some (some n)) :
    nthreadsAt arenas i = n := by
  unfold nthreadsAt
  rw [entry]
  rfl

theorem nthreadsAt_modify {arenas : List (Option Nat)} {i : Nat} (has : HasArena arenas i)
    (change : Nat → Nat) (j : Nat) :
    nthreadsAt (arenas.modify i (Option.map change)) j =
      if j = i then change (nthreadsAt arenas i) else nthreadsAt arenas j := by
  obtain ⟨n, entry⟩ := hasArena_iff.1 has
  by_cases here : j = i
  · subst here
    rw [if_pos rfl, nthreadsAt_eq entry]
    refine nthreadsAt_eq ?_
    rw [List.getElem?_modify, entry]
    simp
  · rw [if_neg here]
    unfold nthreadsAt
    rw [List.getElem?_modify]
    simp [Ne.symm here]

/-- A new arena has no threads, and neither had the place where it is. -/
theorem nthreadsAt_set {arenas : List (Option Nat)} {i : Nat} (free : ¬HasArena arenas i)
    (j : Nat) :
    nthreadsAt (arenas.set i (some 0)) j = nthreadsAt arenas j := by
  unfold nthreadsAt
  rw [List.getElem?_set]
  by_cases here : i = j
  · subst here
    have absent : arenas[i]?.join = none := by
      unfold HasArena at free
      simpa using free
    rw [if_pos rfl, absent]
    split
    · rfl
    · rfl
  · rw [if_neg here]

/-- The index that the loop has found has no arena, if it is not the end. -/
theorem scanArenas_free (arenas : List (Option Nat)) (remaining i : Nat) (found : Nat × Nat)
    (free : found.2 = arenas.length ∨ ¬HasArena arenas found.2) :
    (scanArenas arenas i remaining found).2 = arenas.length ∨
      ¬HasArena arenas (scanArenas arenas i remaining found).2 := by
  induction remaining generalizing i found with
  | zero => exact free
  | succ remaining inductionHypothesis =>
      obtain ⟨choose, firstNull⟩ := found
      unfold scanArenas
      split
      · exact inductionHypothesis (i + 1) _ free
      next entry =>
        refine inductionHypothesis (i + 1) _ ?_
        dsimp only
        split
        · right
          unfold HasArena
          rw [entry]
          decide
        · exact free

/-- `choose_arena_hard` counts the thread in the arena that it chooses. -/
theorem chooseArenaHard_counts {arenas after : List (Option Nat)} {index : Nat}
    (first : HasArena arenas 0) {extendFails : Bool}
    (result : chooseArenaHard arenas extendFails = (after, index)) (j : Nat) :
    nthreadsAt after j = nthreadsAt arenas j + if j = index then 1 else 0 := by
  have counted : ∀ (chosen : List (Option Nat)) (place : Nat), HasArena chosen place →
      (∀ j, nthreadsAt chosen j = nthreadsAt arenas j) →
      (chosen.modify place (Option.map (· + 1)), place) = (after, index) →
      nthreadsAt after j = nthreadsAt arenas j + if j = index then 1 else 0 := by
    intro chosen place has same result
    obtain ⟨rfl, rfl⟩ := Prod.mk.inj result
    rw [nthreadsAt_modify has]
    by_cases here : j = place
    · rw [if_pos here, if_pos here, same, here]
    · rw [if_neg here, if_neg here, same, Nat.add_zero]
  unfold chooseArenaHard at result
  by_cases several : arenas.length > 1
  · rw [if_pos several] at result
    have scanned := scanArenas_spec (arenas.length - 1) 1 (0, arenas.length) (by omega) first
      (Nat.le_refl _)
    have free := scanArenas_free arenas (arenas.length - 1) 1 (0, arenas.length)
      (Or.inl rfl)
    generalize scanArenas arenas 1 (arenas.length - 1) (0, arenas.length) = found
      at scanned free result
    obtain ⟨choose, firstNull⟩ := found
    obtain ⟨chosen, last⟩ := scanned
    dsimp only at chosen last free result
    by_cases usable : nthreadsAt arenas choose = 0 ∨ firstNull = arenas.length
    · rw [if_pos usable] at result
      exact counted arenas choose chosen (fun _ => rfl) result
    · rw [if_neg usable] at result
      simp only [not_or] at usable
      cases extendFails with
      | true => exact counted arenas 0 first (fun _ => rfl) result
      | false =>
          obtain atEnd | free := free
          · exact absurd atEnd usable.2
          refine counted (arenas.set firstNull (some 0)) firstNull ?_
            (fun j => nthreadsAt_set free j) result
          rw [hasArena_iff]
          refine ⟨0, ?_⟩
          rw [List.getElem?_set_self]
          have := usable.2
          omega
  · rw [if_neg several] at result
    exact counted arenas 0 first (fun _ => rfl) result

end Jemalloc
end Vmem
