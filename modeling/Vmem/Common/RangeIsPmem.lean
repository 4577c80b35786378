import Vmem.Common.MapTracker

/-!
# Whether a range is persistent memory

`util_range_is_pmem` searches for the tracker of the first byte that is left, and goes on
behind the end of that tracker.  The read lock is held all the while, so the list stays what
it is.
-/

namespace Vmem
namespace Common

/-- The loop of `util_range_is_pmem`; `none` when the fuel is not enough. -/
def isPmemLoop (list : List MapTracker) : Nat → Nat → Nat → Option Bool
  | 0, _, _ => none
  | fuel + 1, addr, len =>
      match utilRangeFindUnlocked addr len list with
      | none => some false -- address not found
      | some mt =>
          if mt.baseAddr > addr then some false -- base address doesn't match
          else
            let mapLen := Word.sub mt.endAddr addr
            let mapLen := if mapLen > len then len else mapLen
            let len := len - mapLen
            let addr := Word.add addr mapLen
            if len > 0 then isPmemLoop list fuel addr len else some true

/-- `util_range_is_pmem`; `true` when it returns 1. -/
def utilRangeIsPmem (list : List MapTracker) (addr len fuel : Nat) : Option Bool :=
  isPmemLoop list fuel addr len

/-- Every byte of a range belongs to a tracker. -/
def Covered (list : List MapTracker) (addr len : Nat) : Prop :=
  ∀ x, addr ≤ x → x < addr + len → ∃ mt ∈ list, mt.baseAddr ≤ x ∧ x < mt.endAddr

/-- The ends of the trackers are words. -/
def EndsFit (list : List MapTracker) : Prop := ∀ mt ∈ list, mt.endAddr < Word.modulus

variable {list : List MapTracker} {mt : MapTracker} {addr len fuel : Nat}

/-- The search finds the tracker of the first byte. -/
theorem find_of_holds (inOrder : RangeQueue.InOrder MapTracker.baseAddr MapTracker.endAddr list)
    (member : mt ∈ list) (lower : mt.baseAddr ≤ addr) (upper : addr < mt.endAddr) :
    utilRangeFindUnlocked addr len list = some mt := by
  induction list with
  | nil => exact absurd member List.not_mem_nil
  | cons first rest inductionHypothesis =>
      unfold utilRangeFindUnlocked
      rcases List.mem_cons.mp member with rfl | inRest
      · rw [if_pos ⟨upper, Or.inl lower⟩]
      · -- the first tracker ends before this one begins
        have before := inOrder.head_le inRest
        have long := inOrder.nonempty first List.mem_cons_self
        rw [if_neg (by omega), if_neg (by omega)]
        exact inductionHypothesis inOrder.tail inRest

/-- A range whose first byte is the first of a hole, or whose search finds nothing, is not
covered. -/
theorem not_covered_of_find (inOrder : RangeQueue.InOrder MapTracker.baseAddr MapTracker.endAddr
    list) (nonempty : 0 < len)
    (fails : ∀ mt, utilRangeFindUnlocked addr len list = some mt → addr < mt.baseAddr) :
    ¬Covered list addr len := by
  intro covered
  obtain ⟨mt, member, lower, upper⟩ := covered addr le_rfl (by omega)
  have := fails mt (find_of_holds inOrder member lower upper)
  omega

/-- Behind the end of the tracker of its first byte, the rest of a range decides. -/
theorem covered_iff_rest {step : Nat} (member : mt ∈ list) (lower : mt.baseAddr ≤ addr)
    (step_le : addr + step ≤ mt.endAddr) (le : step ≤ len) :
    Covered list addr len ↔ Covered list (addr + step) (len - step) := by
  constructor
  · intro covered x fromStep below
    exact covered x (by omega) (by omega)
  · intro covered x fromAddr below
    rcases Nat.lt_or_ge x (addr + step) with here | later
    · exact ⟨mt, member, by omega, by omega⟩
    · exact covered x later (by omega)

/-- Behind the end of a tracker fewer trackers are left. -/
theorem countP_behind_lt (member : mt ∈ list) (upper : addr < mt.endAddr) :
    list.countP (fun t => mt.endAddr < t.endAddr) < list.countP (fun t => addr < t.endAddr) := by
  have counted : (mt :: list.erase mt).countP (fun t => addr < t.endAddr) =
      (list.erase mt).countP (fun t => addr < t.endAddr) + 1 :=
    List.countP_cons_of_pos (decide_eq_true upper)
  have rest : (list.erase mt).countP (fun t => mt.endAddr < t.endAddr) ≤
      (list.erase mt).countP (fun t => addr < t.endAddr) := by
    refine List.countP_mono_left fun t _ behind => ?_
    have := of_decide_eq_true behind
    exact decide_eq_true (by omega)
  rw [(List.perm_cons_erase member).countP_eq, List.countP_cons_of_neg (by simp),
    (List.perm_cons_erase member).countP_eq, counted]
  omega

/-- The loop takes a round for each tracker that ends behind the first byte, and one more. -/
theorem isPmemLoop_exact (inOrder : RangeQueue.InOrder MapTracker.baseAddr MapTracker.endAddr
    list) (endsFit : EndsFit list) (nonempty : 0 < len) (fits : addr + len < Word.modulus)
    (enough : list.countP (fun t => addr < t.endAddr) < fuel) :
    ∃ result, isPmemLoop list fuel addr len = some result ∧
      (result = true ↔ Covered list addr len) := by
  induction fuel generalizing addr len with
  | zero => exact absurd enough (Nat.not_lt_zero _)
  | succ fuel inductionHypothesis =>
      unfold isPmemLoop
      cases found : utilRangeFindUnlocked addr len list with
      | none =>
          have uncovered := not_covered_of_find inOrder nonempty
            fun mt same => by rw [found] at same; cases same
          exact ⟨false, rfl, fun never => Bool.noConfusion never,
            fun covered => absurd covered uncovered⟩
      | some mt =>
          obtain ⟨member, upper, _⟩ := find_some found
          have endFits := endsFit mt member
          dsimp only
          split
          · rename_i later
            have uncovered := not_covered_of_find inOrder nonempty
              fun u same => by rw [found] at same; cases same; exact later
            exact ⟨false, rfl, fun never => Bool.noConfusion never,
              fun covered => absurd covered uncovered⟩
          · rename_i begun
            have lower : mt.baseAddr ≤ addr := by omega
            rw [Word.sub_eq upper.le endFits]
            by_cases longer : mt.endAddr - addr > len
            · -- the tracker ends behind the range
              rw [if_pos longer, Nat.sub_self, if_neg (lt_irrefl 0)]
              refine ⟨true, rfl, fun _ x fromAddr below => ?_, fun _ => rfl⟩
              exact ⟨mt, member, by omega, by omega⟩
            · have sum : Word.add addr (mt.endAddr - addr) = addr + (mt.endAddr - addr) :=
                Word.add_eq (by omega)
              have rest := covered_iff_rest member lower (by omega)
                (show mt.endAddr - addr ≤ len by omega)
              rw [if_neg longer, sum]
              split
              · rename_i left
                have fewer := countP_behind_lt member upper
                have next : addr + (mt.endAddr - addr) = mt.endAddr := by omega
                rw [next] at rest ⊢
                obtain ⟨result, returned, covers⟩ := inductionHypothesis left
                  (show mt.endAddr + (len - (mt.endAddr - addr)) < _ by omega)
                  (show list.countP (fun t => mt.endAddr < t.endAddr) < fuel by omega)
                exact ⟨result, returned, covers.trans rest.symm⟩
              · refine ⟨true, rfl, fun _ => rest.mpr fun x fromEnd below => ?_, fun _ => rfl⟩
                omega

/-- `util_range_is_pmem` returns, and returns 1 exactly for the ranges every byte of which is
tracked. -/
theorem range_is_pmem_exact
    (inOrder : RangeQueue.InOrder MapTracker.baseAddr MapTracker.endAddr list)
    (endsFit : EndsFit list) (nonempty : 0 < len) (fits : addr + len < Word.modulus)
    (enough : list.length < fuel) :
    ∃ result, utilRangeIsPmem list addr len fuel = some result ∧
      (result = true ↔ Covered list addr len) := by
  have counted := List.countP_le_length (l := list) (p := fun t => addr < t.endAddr)
  exact isPmemLoop_exact inOrder endsFit nonempty fits (by omega)

/-- A range over two adjacent trackers, the first of which begins before it. -/
theorem range_is_pmem_exact_adjacent :
    utilRangeIsPmem [⟨4096, 8192, 0, .mapSync⟩, ⟨8192, 16384, 1, .devDax⟩] 5000 9000 3 =
        some true ∧
      Covered [⟨4096, 8192, 0, .mapSync⟩, ⟨8192, 16384, 1, .devDax⟩] 5000 9000 := by
  have run : utilRangeIsPmem [⟨4096, 8192, 0, .mapSync⟩, ⟨8192, 16384, 1, .devDax⟩] 5000 9000 3 =
      some true := by decide +kernel
  have inOrder : RangeQueue.InOrder MapTracker.baseAddr MapTracker.endAddr
      [⟨4096, 8192, 0, .mapSync⟩, ⟨8192, 16384, 1, .devDax⟩] := ⟨by decide, by decide⟩
  have endsFit : EndsFit [⟨4096, 8192, 0, .mapSync⟩, ⟨8192, 16384, 1, .devDax⟩] := by
    show ∀ mt ∈ _, _
    decide +kernel
  have few : [MapTracker.mk 4096 8192 0 .mapSync, ⟨8192, 16384, 1, .devDax⟩].length < 3 := by decide
  obtain ⟨result, returned, covers⟩ := range_is_pmem_exact inOrder endsFit (show 0 < 9000 by decide)
    (show 5000 + 9000 < Word.modulus by decide +kernel) few
  rw [run] at returned
  cases returned
  exact ⟨run, covers.mp rfl⟩

end Common
end Vmem
