import Vmem.Library.RangeQueue
import Vmem.Library.Run

/-!
# The list of tracked mappings

`mmap.c` keeps a list of the ranges that are mapped from persistent memory.  A range is
registered if no part of it is tracked yet; unregistering removes whole pages and may cut
trackers.  The list is sorted by a comparison of addresses as signed words, and the search for
a range relies on the order.

This is the build for POSIX, where `Mmap_align` is `Pagesize`.
-/

namespace Vmem
namespace Common

/-- `enum pmem_map_type`. -/
inductive PmemMapType
  | devDax
  | mapSync
  deriving DecidableEq, Repr

/-- `struct map_tracker`. -/
structure MapTracker where
  baseAddr : Nat
  endAddr : Nat
  regionId : Int
  type : PmemMapType
  deriving DecidableEq, Repr

/-- `util_range_comparer`. -/
def utilRangeComparer (a b : MapTracker) : Int := Word.signedSub a.baseAddr b.baseAddr

/-- `PMDK_SORTEDQ_INSERT` into `Mmap_list`. -/
def sortedqInsert (elm : MapTracker) (list : List MapTracker) : List MapTracker :=
  RangeQueue.insertBefore (fun it => utilRangeComparer it elm < 0) elm list

/-- `util_range_find_unlocked`. -/
def utilRangeFindUnlocked (addr len : Nat) : List MapTracker → Option MapTracker
  | [] => none
  | mt :: rest =>
      if addr < mt.endAddr ∧ (addr ≥ mt.baseAddr ∨ Word.add addr len > mt.baseAddr) then some mt
      else if addr < mt.baseAddr then none
      else utilRangeFindUnlocked addr len rest

/-- The tracker `util_range_register` makes.  `region_id` is set only for device DAX; otherwise
it keeps what the memory held. -/
def newTracker (addr len : Nat) (type : PmemMapType) (region leftover : Int) : MapTracker where
  baseAddr := addr
  endAddr := Word.add addr len
  regionId := if type = .devDax then region else leftover
  type := type

/-- `util_range_register`; `true` when it returns 0. -/
def utilRangeRegister (list : List MapTracker) (addr len : Nat) (type : PmemMapType)
    (region leftover : Int) (mallocFails : Bool) : List MapTracker × Bool :=
  match utilRangeFindUnlocked addr len list with
  | some _ => (list, false)
  | none =>
      if mallocFails then (list, false)
      else (sortedqInsert (newTracker addr len type region leftover) list, true)

/-- `mtb` of `util_range_split`: what is left at the beginning. -/
def trackerBefore (mt : MapTracker) (addr : Nat) : Option MapTracker :=
  if addr > mt.baseAddr then some { mt with endAddr := addr } else none

/-- `mte` of `util_range_split`: what is left at the end. -/
def trackerAfter (mt : MapTracker) (stop : Nat) : Option MapTracker :=
  if stop < mt.endAddr then some { mt with baseAddr := stop } else none

/-- Insert a tracker, if there is one. -/
def insertSome (elm : Option MapTracker) (list : List MapTracker) : List MapTracker :=
  match elm with
  | none => list
  | some elm => sortedqInsert elm list

/-- `util_range_split` with the outcomes of its two calls of `Malloc`; `true` when it
returns 0. -/
def utilRangeSplit (pagesize : Nat) (list : List MapTracker) (mt : MapTracker) (addr stop : Nat)
    (mtbFails mteFails : Bool) : List MapTracker × Bool :=
  if addr = stop ∨ addr % pagesize ≠ 0 ∨ stop % pagesize ≠ 0 then (list, false)
  else if (trackerBefore mt addr).isSome ∧ mtbFails then (list, false)
  else if (trackerAfter mt stop).isSome ∧ mteFails then (list, false)
  else (insertSome (trackerAfter mt stop) (insertSome (trackerBefore mt addr) (list.erase mt)),
    true)

/-- The loop of `util_range_unregister`; `none` when the fuel is not enough. -/
def unregisterLoop (pagesize addr len stop : Nat) (mallocs : Nat → Bool × Bool) :
    Nat → List MapTracker → Option (List MapTracker × Bool)
  | 0, _ => none
  | fuel + 1, list =>
      match utilRangeFindUnlocked addr len list with
      | none => some (list, true)
      | some mt =>
          match utilRangeSplit pagesize list mt addr stop (mallocs fuel).1 (mallocs fuel).2 with
          | (list, false) => some (list, false)
          | (list, true) => unregisterLoop pagesize addr len stop mallocs fuel list

/-- `util_range_unregister`. -/
def utilRangeUnregister (pagesize : Nat) (list : List MapTracker) (addr len : Nat)
    (mallocs : Nat → Bool × Bool) (fuel : Nat) : Option (List MapTracker × Bool) :=
  let len := Word.ceil len pagesize -- PAGE_ALIGNED_UP_SIZE
  unregisterLoop pagesize addr len (Word.add addr len) mallocs fuel list

/-! ## What the list represents -/

/-- What is known of the mapping an address belongs to. -/
def trackedAt (list : List MapTracker) (x : Nat) : Option (PmemMapType × Int) :=
  (RangeQueue.holder MapTracker.baseAddr MapTracker.endAddr list x).map fun mt =>
    (mt.type, mt.regionId)

/-- The list is in order, and its addresses compare alike as signed and as unsigned words. -/
structure Tracking (list : List MapTracker) : Prop where
  inOrder : RangeQueue.InOrder MapTracker.baseAddr MapTracker.endAddr list
  below : ∀ mt ∈ list, mt.endAddr ≤ 2 ^ 63

/-- The part of a tracker's range that lies in `[addr, stop)` is not empty. -/
def Overlaps (addr stop : Nat) (mt : MapTracker) : Prop := addr < mt.endAddr ∧ mt.baseAddr < stop

instance (addr stop : Nat) (mt : MapTracker) : Decidable (Overlaps addr stop mt) :=
  inferInstanceAs (Decidable (_ ∧ _))

variable {list list' : List MapTracker} {mt : MapTracker} {addr len stop x : Nat}

theorem Tracking.nil : Tracking [] :=
  ⟨RangeQueue.InOrder.nil, fun _ member => absurd member List.not_mem_nil⟩

theorem Tracking.tail (tracking : Tracking (mt :: list)) : Tracking list :=
  ⟨tracking.inOrder.tail, fun u member => tracking.below u (List.mem_cons_of_mem mt member)⟩

theorem Tracking.trackedAt_eq_some_iff (tracking : Tracking list) {attributes : PmemMapType × Int} :
    trackedAt list x = some attributes ↔ ∃ mt ∈ list, mt.baseAddr ≤ x ∧ x < mt.endAddr ∧
      (mt.type, mt.regionId) = attributes := by
  unfold trackedAt
  rw [Option.map_eq_some_iff]
  constructor
  · rintro ⟨mt, found, rfl⟩
    obtain ⟨member, lower, upper⟩ := tracking.inOrder.holder_eq_some_iff.mp found
    exact ⟨mt, member, lower, upper, rfl⟩
  · rintro ⟨mt, member, lower, upper, rfl⟩
    exact ⟨mt, tracking.inOrder.holder_eq_some_iff.mpr ⟨member, lower, upper⟩, rfl⟩

theorem trackedAt_eq_none_iff :
    trackedAt list x = none ↔ ∀ mt ∈ list, ¬(mt.baseAddr ≤ x ∧ x < mt.endAddr) := by
  unfold trackedAt
  rw [Option.map_eq_none_iff, RangeQueue.holder_eq_none_iff]
  rfl

/-! ## The search -/

theorem find_some (found : utilRangeFindUnlocked addr len list = some mt) :
    mt ∈ list ∧ addr < mt.endAddr ∧ (mt.baseAddr ≤ addr ∨ mt.baseAddr < Word.add addr len) := by
  induction list with
  | nil => cases found
  | cons first rest inductionHypothesis =>
      unfold utilRangeFindUnlocked at found
      split at found
      · rename_i overlaps
        cases found
        exact ⟨List.mem_cons_self, overlaps⟩
      · split at found
        · cases found
        · obtain ⟨member, overlaps⟩ := inductionHypothesis found
          exact ⟨List.mem_cons_of_mem first member, overlaps⟩

/-- Where the search stops early, the ranges behind begin too late. -/
theorem find_none (inOrder : RangeQueue.InOrder MapTracker.baseAddr MapTracker.endAddr list)
    (missing : utilRangeFindUnlocked addr len list = none) :
    ∀ mt ∈ list, ¬Overlaps addr (Word.add addr len) mt := by
  induction list with
  | nil => exact fun _ member => absurd member List.not_mem_nil
  | cons first rest inductionHypothesis =>
      unfold utilRangeFindUnlocked at missing
      split at missing
      · cases missing
      · rename_i outside
        have firstLong := inOrder.nonempty first List.mem_cons_self
        rintro mt member ⟨begins, ends⟩
        split at missing
        · rename_i early
          rcases List.mem_cons.mp member with rfl | member
          · exact outside ⟨begins, Or.inr ends⟩
          · have := inOrder.head_le member
            exact outside ⟨by omega, Or.inr (by omega)⟩
        · rcases List.mem_cons.mp member with rfl | member
          · exact outside ⟨begins, Or.inr ends⟩
          · exact inductionHypothesis inOrder.tail missing mt member ⟨begins, ends⟩

/-! ## Insertion and cutting -/

theorem mem_sortedqInsert {elm : MapTracker} :
    mt ∈ sortedqInsert elm list ↔ mt = elm ∨ mt ∈ list := RangeQueue.mem_insertBefore

/-- A range of its own is inserted in its place. -/
theorem Tracking.sortedqInsert {elm : MapTracker} (tracking : Tracking list)
    (nonempty : elm.baseAddr < elm.endAddr) (below : elm.endAddr ≤ 2 ^ 63)
    (free : ∀ mt ∈ list, mt.endAddr ≤ elm.baseAddr ∨ elm.endAddr ≤ mt.baseAddr) :
    Tracking (sortedqInsert elm list) where
  inOrder := by
    refine tracking.inOrder.insertSigned nonempty free fun mt member => ?_
    have mtBelow := tracking.below mt member
    have mtLong := tracking.inOrder.nonempty mt member
    exact ⟨by omega, by omega⟩
  below := by
    intro mt member
    rcases mem_sortedqInsert.mp member with rfl | member
    · exact below
    · exact tracking.below mt member

theorem mem_trackerBefore {piece : MapTracker} : piece ∈ trackerBefore mt addr ↔
    mt.baseAddr < addr ∧ piece = { mt with endAddr := addr } := by
  unfold trackerBefore
  rw [Option.mem_def, Option.ite_none_right_eq_some, Option.some.injEq]
  exact and_congr_right fun _ => eq_comm

theorem mem_trackerAfter {piece : MapTracker} : piece ∈ trackerAfter mt stop ↔
    stop < mt.endAddr ∧ piece = { mt with baseAddr := stop } := by
  unfold trackerAfter
  rw [Option.mem_def, Option.ite_none_right_eq_some, Option.some.injEq]
  exact and_congr_right fun _ => eq_comm

theorem insertSome_perm (elm : Option MapTracker) (list : List MapTracker) :
    (insertSome elm list).Perm (elm.toList ++ list) := by
  cases elm with
  | none => exact List.Perm.refl _
  | some elm => exact RangeQueue.insertBefore_perm ..

theorem Tracking.insertSome {elm : Option MapTracker} (tracking : Tracking list)
    (valid : ∀ t ∈ elm, t.baseAddr < t.endAddr ∧ t.endAddr ≤ 2 ^ 63 ∧
      ∀ mt ∈ list, mt.endAddr ≤ t.baseAddr ∨ t.endAddr ≤ mt.baseAddr) :
    Tracking (insertSome elm list) := by
  cases elm with
  | none => exact tracking
  | some t =>
      obtain ⟨nonempty, below, free⟩ := valid t rfl
      exact tracking.sortedqInsert nonempty below free

/-- What `util_range_split` leaves of a tracker. -/
def remainders (mt : MapTracker) (addr stop : Nat) : List MapTracker :=
  (trackerAfter mt stop).toList ++ (trackerBefore mt addr).toList

theorem remainders_within {piece : MapTracker} (member : piece ∈ remainders mt addr stop)
    (overlaps : Overlaps addr stop mt) (holds : piece.baseAddr ≤ x ∧ x < piece.endAddr) :
    mt.baseAddr ≤ x ∧ x < mt.endAddr := by
  obtain ⟨begins, ends⟩ := overlaps
  rcases List.mem_append.mp member with isAfter | isBefore
  · obtain ⟨_, rfl⟩ := mem_trackerAfter.mp (Option.mem_toList.mp isAfter)
    dsimp only at holds
    omega
  · obtain ⟨_, rfl⟩ := mem_trackerBefore.mp (Option.mem_toList.mp isBefore)
    dsimp only at holds
    omega

/-- A tracker was cut. -/
structure Cut (list list' : List MapTracker) (mt : MapTracker) (addr stop : Nat) : Prop where
  tracking : Tracking list'
  perm : list'.Perm (remainders mt addr stop ++ list.erase mt)

/-- `util_range_split` on a tracker that overlaps the range. -/
theorem split_cut {pagesize : Nat} {mtbFails mteFails : Bool} (tracking : Tracking list)
    (member : mt ∈ list) (nonempty : addr < stop) (overlaps : Overlaps addr stop mt)
    (cut : utilRangeSplit pagesize list mt addr stop mtbFails mteFails = (list', true)) :
    Cut list list' mt addr stop := by
  obtain ⟨begins, ends⟩ := overlaps
  have long := tracking.inOrder.nonempty mt member
  have below := tracking.below mt member
  have erased : Tracking (list.erase mt) :=
    ⟨tracking.inOrder.sublist List.erase_sublist,
      fun u inRest => tracking.below u (List.mem_of_mem_erase inRest)⟩
  have others : ∀ u ∈ list.erase mt, u.endAddr ≤ mt.baseAddr ∨ mt.endAddr ≤ u.baseAddr := by
    intro u inRest
    have different := (tracking.inOrder.nodup.mem_erase_iff.mp inRest).1
    exact tracking.inOrder.apart (List.mem_of_mem_erase inRest) member different
  have first : Tracking (insertSome (trackerBefore mt addr) (list.erase mt)) := by
    refine erased.insertSome fun t isBefore => ?_
    obtain ⟨leaves, rfl⟩ := mem_trackerBefore.mp isBefore
    dsimp only
    refine ⟨by omega, by omega, fun u inRest => ?_⟩
    have := others u inRest
    omega
  have second : Tracking (insertSome (trackerAfter mt stop)
      (insertSome (trackerBefore mt addr) (list.erase mt))) := by
    refine first.insertSome fun t isAfter => ?_
    obtain ⟨leaves, rfl⟩ := mem_trackerAfter.mp isAfter
    dsimp only
    refine ⟨by omega, by omega, fun u inRest => ?_⟩
    rcases List.mem_append.mp ((insertSome_perm _ _).mem_iff.mp inRest) with isBefore | inRest
    · obtain ⟨_, rfl⟩ := mem_trackerBefore.mp (Option.mem_toList.mp isBefore)
      dsimp only
      omega
    · have := others u inRest
      omega
  unfold utilRangeSplit at cut
  split at cut
  · cases cut
  split at cut
  · cases cut
  split at cut
  · cases cut
  cases cut
  refine ⟨second, ?_⟩
  unfold remainders
  rw [List.append_assoc]
  exact (insertSome_perm _ _).trans ((insertSome_perm _ _).append_left _)

/-- With memory for the new trackers, aligned ranges are cut. -/
theorem split_succeeds {pagesize : Nat} (nonempty : addr < stop) (aligned : pagesize ∣ addr)
    (stopAligned : pagesize ∣ stop) (list : List MapTracker) (mt : MapTracker) :
    (utilRangeSplit pagesize list mt addr stop false false).2 = true := by
  unfold utilRangeSplit
  rw [if_neg, if_neg, if_neg]
  · exact fun fails => Bool.noConfusion fails.2
  · exact fun fails => Bool.noConfusion fails.2
  · rintro (empty | misaligned | misaligned)
    · omega
    · exact misaligned (Nat.mod_eq_zero_of_dvd aligned)
    · exact misaligned (Nat.mod_eq_zero_of_dvd stopAligned)

theorem split_fails {pagesize : Nat} {mtbFails mteFails : Bool}
    (fails : utilRangeSplit pagesize list mt addr stop mtbFails mteFails = (list', false)) :
    list' = list := by
  unfold utilRangeSplit at fails
  split at fails
  · cases fails
    rfl
  split at fails
  · cases fails
    rfl
  split at fails
  · cases fails
    rfl
  cases fails

namespace Cut

variable (cut : Cut list list' mt addr stop)

include cut

theorem members (tracking : Tracking list) (u : MapTracker) :
    u ∈ list' ↔ (u ∈ list ∧ u ≠ mt) ∨ u ∈ remainders mt addr stop := by
  rw [cut.perm.mem_iff, List.mem_append, tracking.inOrder.nodup.mem_erase_iff, or_comm,
    and_comm]

/-- Bytes outside of the range keep what is known of them. -/
theorem trackedAt_outside (tracking : Tracking list) (member : mt ∈ list)
    (overlaps : Overlaps addr stop mt) (outside : ¬(addr ≤ x ∧ x < stop)) :
    trackedAt list' x = trackedAt list x := by
  obtain ⟨begins, ends⟩ := overlaps
  by_cases holds : mt.baseAddr ≤ x ∧ x < mt.endAddr
  · have before : trackedAt list x = some (mt.type, mt.regionId) :=
      tracking.trackedAt_eq_some_iff.mpr ⟨mt, member, holds.1, holds.2, rfl⟩
    rw [before]
    apply cut.tracking.trackedAt_eq_some_iff.mpr
    by_cases early : x < addr
    · have piece : { mt with endAddr := addr } ∈ remainders mt addr stop :=
        List.mem_append_right _
          (Option.mem_toList.mpr (mem_trackerBefore.mpr ⟨by omega, rfl⟩))
      exact ⟨_, (cut.members tracking _).mpr (Or.inr piece), holds.1, early, rfl⟩
    · have piece : { mt with baseAddr := stop } ∈ remainders mt addr stop :=
        List.mem_append_left _
          (Option.mem_toList.mpr (mem_trackerAfter.mpr ⟨by omega, rfl⟩))
      exact ⟨_, (cut.members tracking _).mpr (Or.inr piece), by dsimp only; omega, holds.2, rfl⟩
  · refine congrArg (Option.map _) (RangeQueue.holder_replaced tracking.inOrder
      cut.tracking.inOrder (cut.members tracking) (fun u piece held => ?_) holds)
    exact remainders_within piece ⟨begins, ends⟩ held

/-- Bytes that were not tracked are not tracked now. -/
theorem trackedAt_none (tracking : Tracking list) (member : mt ∈ list)
    (overlaps : Overlaps addr stop mt) (free : trackedAt list x = none) :
    trackedAt list' x = none := by
  rw [trackedAt_eq_none_iff] at free ⊢
  intro u uMember holds
  rcases (cut.members tracking u).mp uMember with ⟨old, _⟩ | piece
  · exact free u old holds
  · exact free mt member (remainders_within piece overlaps holds)

omit cut in
/-- The remainders do not overlap the range. -/
theorem not_overlaps_remainders {piece : MapTracker} (member : piece ∈ remainders mt addr stop) :
    ¬Overlaps addr stop piece := by
  rintro ⟨begins, ends⟩
  rcases List.mem_append.mp member with isAfter | isBefore
  · obtain ⟨_, rfl⟩ := mem_trackerAfter.mp (Option.mem_toList.mp isAfter)
    exact absurd ends (lt_irrefl _)
  · obtain ⟨_, rfl⟩ := mem_trackerBefore.mp (Option.mem_toList.mp isBefore)
    exact absurd begins (lt_irrefl _)

/-- One overlapping tracker less. -/
theorem countP_lt (member : mt ∈ list) (overlaps : Overlaps addr stop mt) :
    list'.countP (fun t => Overlaps addr stop t) < list.countP (fun t => Overlaps addr stop t) := by
  have none : (remainders mt addr stop).countP (fun t => Overlaps addr stop t) = 0 := by
    rw [List.countP_eq_zero]
    intro piece isPiece overlapping
    exact not_overlaps_remainders isPiece (of_decide_eq_true overlapping)
  have counted : (mt :: list.erase mt).countP (fun t => Overlaps addr stop t) =
      (list.erase mt).countP (fun t => Overlaps addr stop t) + 1 :=
    List.countP_cons_of_pos (decide_eq_true overlaps)
  rw [cut.perm.countP_eq, (List.perm_cons_erase member).countP_eq, List.countP_append, none,
    counted]
  omega

end Cut

/-! ## Unregistering -/

/-- A round of the loop that goes on has cut a tracker. -/
theorem round_cut {pagesize : Nat} {mtbFails mteFails : Bool} (tracking : Tracking list)
    (le : addr ≤ Word.add addr len) (found : utilRangeFindUnlocked addr len list = some mt)
    (split : utilRangeSplit pagesize list mt addr (Word.add addr len) mtbFails mteFails =
      (list', true)) :
    mt ∈ list ∧ Overlaps addr (Word.add addr len) mt ∧
      Cut list list' mt addr (Word.add addr len) := by
  obtain ⟨member, begins, starts⟩ := find_some found
  have nonempty : addr ≠ Word.add addr len := by
    intro empty
    unfold utilRangeSplit at split
    rw [if_pos (Or.inl empty)] at split
    cases split
  have overlaps : Overlaps addr (Word.add addr len) mt := ⟨begins, by omega⟩
  exact ⟨member, overlaps, split_cut tracking member (by omega) overlaps split⟩

/-- What the loop of `util_range_unregister` leaves, however it ends. -/
structure Unregistered (list list' : List MapTracker) (addr stop : Nat) (done : Bool) :
    Prop where
  tracking : Tracking list'
  fewer : ∀ x, trackedAt list x = none → trackedAt list' x = none
  outside : ∀ x, ¬(addr ≤ x ∧ x < stop) → trackedAt list' x = trackedAt list x
  inside : done = true → ∀ x, addr ≤ x ∧ x < stop → trackedAt list' x = none

theorem unregisterLoop_unregistered {pagesize fuel : Nat} {mallocs : Nat → Bool × Bool}
    {done : Bool} (tracking : Tracking list) (le : addr ≤ Word.add addr len)
    (result : unregisterLoop pagesize addr len (Word.add addr len) mallocs fuel list =
      some (list', done)) :
    Unregistered list list' addr (Word.add addr len) done := by
  induction fuel generalizing list with
  | zero => cases result
  | succ fuel inductionHypothesis =>
      unfold unregisterLoop at result
      cases found : utilRangeFindUnlocked addr len list with
      | none =>
          rw [found] at result
          cases result
          refine ⟨tracking, fun _ free => free, fun _ _ => rfl, fun _ x inside => ?_⟩
          rw [trackedAt_eq_none_iff]
          intro mt member holds
          exact find_none tracking.inOrder found mt member ⟨by omega, by omega⟩
      | some mt =>
          rw [found] at result
          cases split : utilRangeSplit pagesize list mt addr (Word.add addr len) (mallocs fuel).1
              (mallocs fuel).2 with
          | mk list₁ goes =>
              simp only [split] at result
              cases goes with
              | false =>
                  cases result
                  rw [split_fails split]
                  exact ⟨tracking, fun _ free => free, fun _ _ => rfl,
                    fun never => Bool.noConfusion never⟩
              | true =>
                  obtain ⟨member, overlaps, cut⟩ := round_cut tracking le found split
                  have rest := inductionHypothesis cut.tracking result
                  exact ⟨rest.tracking,
                    fun x free => rest.fewer x (cut.trackedAt_none tracking member overlaps free),
                    fun x outside => (rest.outside x outside).trans
                      (cut.trackedAt_outside tracking member overlaps outside), rest.inside⟩

/-- The loop takes one round for each tracker that overlaps the range, and one more. -/
theorem unregisterLoop_terminates {pagesize fuel : Nat} {mallocs : Nat → Bool × Bool}
    (tracking : Tracking list) (le : addr ≤ Word.add addr len)
    (enough : list.countP (fun t => Overlaps addr (Word.add addr len) t) < fuel) :
    ∃ result, unregisterLoop pagesize addr len (Word.add addr len) mallocs fuel list =
      some result := by
  induction fuel generalizing list with
  | zero => exact absurd enough (Nat.not_lt_zero _)
  | succ fuel inductionHypothesis =>
      unfold unregisterLoop
      cases found : utilRangeFindUnlocked addr len list with
      | none => exact ⟨_, rfl⟩
      | some mt =>
          cases split : utilRangeSplit pagesize list mt addr (Word.add addr len) (mallocs fuel).1
              (mallocs fuel).2 with
          | mk list₁ goes =>
              simp only [split]
              cases goes with
              | false => exact ⟨_, rfl⟩
              | true =>
                  obtain ⟨member, overlaps, cut⟩ := round_cut tracking le found split
                  have := cut.countP_lt member overlaps
                  exact inductionHypothesis cut.tracking (by omega)

/-- With memory and an aligned range the loop returns 0. -/
theorem unregisterLoop_done {pagesize fuel : Nat} {mallocs : Nat → Bool × Bool} {done : Bool}
    (memory : ∀ n, mallocs n = (false, false)) (nonempty : addr < stop)
    (aligned : pagesize ∣ addr) (stopAligned : pagesize ∣ stop)
    (result : unregisterLoop pagesize addr len stop mallocs fuel list = some (list', done)) :
    done = true := by
  induction fuel generalizing list with
  | zero => cases result
  | succ fuel inductionHypothesis =>
      unfold unregisterLoop at result
      cases found : utilRangeFindUnlocked addr len list with
      | none =>
          rw [found] at result
          cases result
          rfl
      | some mt =>
          rw [found, memory] at result
          have goes := split_succeeds nonempty aligned stopAligned list mt
          cases split : utilRangeSplit pagesize list mt addr stop false false with
          | mk list₁ going =>
              rw [split] at goes
              dsimp only at goes
              subst goes
              simp only [split] at result
              exact inductionHypothesis result

/-- `PAGE_ALIGNED_UP_SIZE` without bounds. -/
def pageAlignedUp (pagesize len : Nat) : Nat := Word.floor (len + (pagesize - 1)) pagesize

theorem pageAlignedUp_eq {pagesize : Nat} (divides : pagesize ∣ Word.modulus)
    (fits : pageAlignedUp pagesize len < Word.modulus) :
    Word.ceil len pagesize = pageAlignedUp pagesize len := by
  unfold Word.ceil Word.add
  rw [Word.floor_mod divides]
  exact Nat.mod_eq_of_lt fits

/-- A call of `util_range_unregister` whose range does not wrap. -/
theorem unregister_eq {pagesize : Nat} (divides : pagesize ∣ Word.modulus)
    (fits : addr + pageAlignedUp pagesize len < Word.modulus) (list : List MapTracker)
    (mallocs : Nat → Bool × Bool) (fuel : Nat) :
    utilRangeUnregister pagesize list addr len mallocs fuel =
        unregisterLoop pagesize addr (pageAlignedUp pagesize len)
          (Word.add addr (pageAlignedUp pagesize len)) mallocs fuel list ∧
      Word.add addr (pageAlignedUp pagesize len) = addr + pageAlignedUp pagesize len := by
  refine ⟨?_, Word.add_eq fits⟩
  unfold utilRangeUnregister
  rw [pageAlignedUp_eq divides (show pageAlignedUp pagesize len < _ by omega)]

theorem unregister_unregistered {pagesize fuel : Nat} {mallocs : Nat → Bool × Bool} {done : Bool}
    (tracking : Tracking list) (divides : pagesize ∣ Word.modulus)
    (fits : addr + pageAlignedUp pagesize len < Word.modulus)
    (result : utilRangeUnregister pagesize list addr len mallocs fuel = some (list', done)) :
    Unregistered list list' addr (addr + pageAlignedUp pagesize len) done := by
  obtain ⟨same, sum⟩ := unregister_eq divides fits list mallocs fuel
  rw [same] at result
  have unregistered := unregisterLoop_unregistered tracking (by omega) result
  rw [sum] at unregistered
  exact unregistered

/-- It returns. -/
theorem unregister_terminates {pagesize fuel : Nat} (mallocs : Nat → Bool × Bool)
    (tracking : Tracking list) (divides : pagesize ∣ Word.modulus)
    (fits : addr + pageAlignedUp pagesize len < Word.modulus) (enough : list.length < fuel) :
    ∃ result, utilRangeUnregister pagesize list addr len mallocs fuel = some result := by
  obtain ⟨same, sum⟩ := unregister_eq divides fits list mallocs fuel
  have counted := List.countP_le_length (l := list)
    (p := fun t => Overlaps addr (Word.add addr (pageAlignedUp pagesize len)) t)
  rw [same]
  exact unregisterLoop_terminates tracking (by omega) (by omega)

/-- Given memory and an aligned nonempty range, it returns 0. -/
theorem unregister_done {pagesize fuel : Nat} {mallocs : Nat → Bool × Bool} {done : Bool}
    (divides : pagesize ∣ Word.modulus) (memory : ∀ n, mallocs n = (false, false))
    (aligned : pagesize ∣ addr) (nonempty : 0 < len)
    (fits : addr + pageAlignedUp pagesize len < Word.modulus)
    (result : utilRangeUnregister pagesize list addr len mallocs fuel = some (list', done)) :
    done = true := by
  obtain ⟨same, sum⟩ := unregister_eq divides fits list mallocs fuel
  have positive : 0 < pagesize := Nat.pos_of_dvd_of_pos divides (by decide)
  have whole := Word.lt_floor_add (len + (pagesize - 1)) positive
  have stopAligned : pagesize ∣ addr + pageAlignedUp pagesize len :=
    Nat.dvd_add aligned (Word.dvd_floor _ _)
  have longer : addr < addr + pageAlignedUp pagesize len := by
    unfold pageAlignedUp
    omega
  rw [same, sum] at result
  exact unregisterLoop_done memory longer aligned stopAligned result

/-! ## Registering -/

/-- `util_range_register` refuses exactly the ranges of which a byte is tracked. -/
theorem find_none_iff (tracking : Tracking list) (nonempty : 0 < len)
    (below : addr + len ≤ 2 ^ 63) : utilRangeFindUnlocked addr len list = none ↔
      ∀ x, addr ≤ x → x < addr + len → trackedAt list x = none := by
  have := Word.modulus_eq
  have sum : Word.add addr len = addr + len := Word.add_eq (by omega)
  constructor
  · intro missing x lower upper
    rw [trackedAt_eq_none_iff]
    intro mt member holds
    exact find_none tracking.inOrder missing mt member ⟨by omega, by omega⟩
  · intro free
    cases found : utilRangeFindUnlocked addr len list with
    | none => rfl
    | some mt =>
        obtain ⟨member, begins, starts⟩ := find_some found
        have long := tracking.inOrder.nonempty mt member
        -- the first common address
        have here := free (max addr mt.baseAddr) (by omega) (by omega)
        exact absurd ⟨by omega, by omega⟩ (trackedAt_eq_none_iff.mp here mt member)

/-- Inserting a range of untracked bytes tracks exactly these in addition. -/
theorem insert_registered (type : PmemMapType) (region leftover : Int) (tracking : Tracking list)
    (nonempty : 0 < len) (below : addr + len ≤ 2 ^ 63)
    (free : ∀ x, addr ≤ x → x < addr + len → trackedAt list x = none) :
    Tracking (sortedqInsert (newTracker addr len type region leftover) list) ∧
      ∀ x, trackedAt (sortedqInsert (newTracker addr len type region leftover) list) x =
        if addr ≤ x ∧ x < addr + len then
          some (type, if type = .devDax then region else leftover)
        else trackedAt list x := by
  have := Word.modulus_eq
  have sum : Word.add addr len = addr + len := Word.add_eq (by omega)
  have apart : ∀ mt ∈ list, mt.endAddr ≤ addr ∨ addr + len ≤ mt.baseAddr := by
    intro mt member
    by_contra overlaps
    have long := tracking.inOrder.nonempty mt member
    have here := free (max addr mt.baseAddr) (by omega) (by omega)
    exact absurd ⟨by omega, by omega⟩ (trackedAt_eq_none_iff.mp here mt member)
  have after : Tracking (sortedqInsert (newTracker addr len type region leftover) list) := by
    refine tracking.sortedqInsert ?_ ?_ ?_
    · change addr < Word.add addr len
      omega
    · change Word.add addr len ≤ 2 ^ 63
      omega
    · change ∀ mt ∈ list, mt.endAddr ≤ addr ∨ Word.add addr len ≤ mt.baseAddr
      rw [sum]
      exact apart
  refine ⟨after, fun x => ?_⟩
  split
  · rename_i inside
    refine after.trackedAt_eq_some_iff.mpr ⟨newTracker addr len type region leftover,
      mem_sortedqInsert.mpr (Or.inl rfl), inside.1, ?_, rfl⟩
    change x < Word.add addr len
    omega
  · rename_i outside
    refine Option.ext fun attributes => ?_
    rw [after.trackedAt_eq_some_iff, tracking.trackedAt_eq_some_iff]
    constructor
    · rintro ⟨mt, member, lower, upper, same⟩
      rcases mem_sortedqInsert.mp member with rfl | member
      · change addr ≤ x at lower
        change x < Word.add addr len at upper
        omega
      · exact ⟨mt, member, lower, upper, same⟩
    · rintro ⟨mt, member, holds⟩
      exact ⟨mt, mem_sortedqInsert.mpr (Or.inr member), holds⟩

/-! ## Sequences of calls -/

/-- Every `Malloc` succeeds. -/
def allocated : Nat → Bool × Bool := fun _ => (false, false)

/-- A call that changes the list. -/
inductive TrackerCall
  | register (addr len : Nat) (type : PmemMapType) (region leftover : Int)
  | unregister (addr len fuel : Nat)

/-- Execute one call; a call that does not return within its fuel is not executed. -/
def TrackerCall.exec (pagesize : Nat) (list : List MapTracker) :
    TrackerCall → Option (List MapTracker)
  | .register addr len type region leftover =>
      some (utilRangeRegister list addr len type region leftover false).1
  | .unregister addr len fuel =>
      (utilRangeUnregister pagesize list addr len allocated fuel).map Prod.fst

/-- Nonempty ranges below 2^63 are registered, and what is unregistered does not wrap. -/
def TrackerCall.Permitted (pagesize : Nat) (_ : List MapTracker) : TrackerCall → Prop
  | .register addr len _ _ _ => 0 < len ∧ addr + len ≤ 2 ^ 63
  | .unregister addr len _ => addr + pageAlignedUp pagesize len < Word.modulus

/-- A call of `util_range_register`. -/
theorem register_registered (type : PmemMapType) (region leftover : Int) (tracking : Tracking list)
    (nonempty : 0 < len) (below : addr + len ≤ 2 ^ 63) :
    Tracking (utilRangeRegister list addr len type region leftover false).1 ∧
      ((utilRangeRegister list addr len type region leftover false).2 = true ↔
        ∀ x, addr ≤ x → x < addr + len → trackedAt list x = none) ∧
      ((utilRangeRegister list addr len type region leftover false).2 = true →
        ∀ x, trackedAt (utilRangeRegister list addr len type region leftover false).1 x =
          if addr ≤ x ∧ x < addr + len then
            some (type, if type = .devDax then region else leftover)
          else trackedAt list x) ∧
      ((utilRangeRegister list addr len type region leftover false).2 = false →
        (utilRangeRegister list addr len type region leftover false).1 = list) := by
  have free := find_none_iff tracking nonempty below
  unfold utilRangeRegister
  cases found : utilRangeFindUnlocked addr len list with
  | none =>
      have untracked := free.mp found
      obtain ⟨after, adds⟩ := insert_registered type region leftover tracking nonempty below
        untracked
      exact ⟨after, ⟨fun _ => untracked, fun _ => rfl⟩, fun _ => adds,
        fun never => Bool.noConfusion never⟩
  | some mt =>
      refine ⟨tracking, ⟨fun never => Bool.noConfusion never, fun untracked => ?_⟩,
        fun never => Bool.noConfusion never, fun _ => rfl⟩
      rw [free.mpr untracked] at found
      cases found

/-- The list that every permitted sequence of calls leads to is a set of bytes with their types
and regions: it is strictly sorted, its ranges are nonempty and disjoint; registering succeeds
exactly for ranges of untracked bytes, and adds them; unregistering an aligned range returns 0
after at most one round more than there are trackers, and removes whole pages. -/
theorem tracker_list_represents_set {lgPagesize : Nat} {list : List MapTracker}
    (small : lgPagesize ≤ 63)
    (reached : Reached (TrackerCall.Permitted (2 ^ lgPagesize))
      (TrackerCall.exec (2 ^ lgPagesize)) [] list) :
    (list.Pairwise fun a b => a.baseAddr < b.baseAddr) ∧
      (∀ mt ∈ list, mt.baseAddr < mt.endAddr) ∧
      (list.Pairwise fun a b => a.endAddr ≤ b.baseAddr ∨ b.endAddr ≤ a.baseAddr) ∧
      (∀ addr len type region leftover, 0 < len → addr + len ≤ 2 ^ 63 →
        ∃ list' done, utilRangeRegister list addr len type region leftover false = (list', done) ∧
          (done = true ↔ ∀ x, addr ≤ x → x < addr + len → trackedAt list x = none) ∧
          (done = true → ∀ x, trackedAt list' x =
            if addr ≤ x ∧ x < addr + len then
              some (type, if type = .devDax then region else leftover)
            else trackedAt list x) ∧
          (done = false → list' = list)) ∧
      ∀ addr len, 2 ^ lgPagesize ∣ addr → 0 < len →
        addr + pageAlignedUp (2 ^ lgPagesize) len < Word.modulus →
        ∀ fuel, list.length < fuel → ∃ list',
          utilRangeUnregister (2 ^ lgPagesize) list addr len allocated fuel =
            some (list', true) ∧
          ∀ x, trackedAt list' x =
            if addr ≤ x ∧ x < addr + pageAlignedUp (2 ^ lgPagesize) len then none
            else trackedAt list x := by
  have divides : 2 ^ lgPagesize ∣ Word.modulus := Nat.pow_dvd_pow 2 (by omega)
  have tracking : Tracking list := by
    refine reached.invariant Tracking Tracking.nil ?_
    intro before call after tracking allowed result
    cases call with
    | register addr len type region leftover =>
        cases result
        exact (register_registered type region leftover tracking allowed.1 allowed.2).1
    | unregister addr len fuel =>
        obtain ⟨⟨list', done⟩, returned, rfl⟩ := Option.map_eq_some_iff.mp result
        exact (unregister_unregistered tracking divides allowed returned).tracking
  have inOrder := tracking.inOrder
  refine ⟨?_, inOrder.nonempty, ?_, ?_, ?_⟩
  · refine inOrder.ordered.imp_of_mem fun member _ le => ?_
    exact lt_of_lt_of_le (inOrder.nonempty _ member) le
  · exact inOrder.ordered.imp Or.inl
  · intro addr len type region leftover nonempty below
    obtain ⟨_, exact_, adds, refuses⟩ := register_registered type region leftover tracking
      nonempty below
    exact ⟨_, _, rfl, exact_, adds, refuses⟩
  · intro addr len aligned nonempty fits fuel enough
    obtain ⟨⟨list', done⟩, returned⟩ :=
      unregister_terminates allocated tracking divides fits enough
    have done_eq := unregister_done divides (fun _ => rfl) aligned nonempty fits returned
    subst done_eq
    have unregistered := unregister_unregistered tracking divides fits returned
    refine ⟨list', returned, fun x => ?_⟩
    split
    · rename_i inside
      exact unregistered.inside rfl x inside
    · rename_i outside
      exact unregistered.outside x outside

/-- Two pages are cut out of five; only the rest stays tracked. -/
theorem tracker_list_cut :
    ∃ list, runs (TrackerCall.exec (2 ^ 12)) []
        [.register 4096 20480 .mapSync 0 7, .unregister 8192 4097 2] = some list ∧
      list = [⟨4096, 8192, 7, .mapSync⟩, ⟨16384, 24576, 7, .mapSync⟩] ∧
      (list.Pairwise fun a b => a.baseAddr < b.baseAddr) := by
  have run : runs (TrackerCall.exec (2 ^ 12)) []
      [.register 4096 20480 .mapSync 0 7, .unregister 8192 4097 2] =
        some [⟨4096, 8192, 7, .mapSync⟩, ⟨16384, 24576, 7, .mapSync⟩] := by
    decide +kernel
  have permitted : ∀ (list : List MapTracker), ∀ call ∈
      [TrackerCall.register 4096 20480 .mapSync 0 7, .unregister 8192 4097 2],
      call.Permitted (2 ^ 12) list := by
    intro list call member
    rcases List.mem_cons.mp member with rfl | member
    · exact ⟨by decide, by decide⟩
    · cases List.mem_singleton.mp member
      exact show 8192 + pageAlignedUp (2 ^ 12) 4097 < Word.modulus by decide +kernel
  have sorted := (tracker_list_represents_set (show 12 ≤ 63 by decide)
    (Reached.of_runs permitted run)).1
  exact ⟨_, run, rfl, sorted⟩

/-- A tracker is inserted before all that begin where it begins. -/
theorem sortedqInsert_replicate (elm other : MapTracker) (same : other.baseAddr = elm.baseAddr)
    (copies : Nat) :
    sortedqInsert elm (List.replicate copies other) = elm :: List.replicate copies other := by
  have equal : ¬utilRangeComparer other elm < 0 := by
    unfold utilRangeComparer
    rw [same, Word.signedSub, Int.sub_self]
    decide
  cases copies with
  | zero => rfl
  | succ copies =>
      rw [List.replicate_succ, sortedqInsert, RangeQueue.insertBefore, decide_eq_false equal]
      rfl

/-- What is left of a range whose end wraps begins before it, and is found again: each round
adds a tracker. -/
theorem unregisterLoop_wrapped (fuel copies : Nat) :
    unregisterLoop 4096 8192 (2 ^ 64 - 4096) 4096 allocated fuel
      (⟨4096, 12288, 0, .mapSync⟩ :: List.replicate copies ⟨4096, 8192, 0, .mapSync⟩) = none := by
  induction fuel generalizing copies with
  | zero => rfl
  | succ fuel inductionHypothesis =>
      have found : utilRangeFindUnlocked 8192 (2 ^ 64 - 4096) (⟨4096, 12288, 0, .mapSync⟩ ::
          List.replicate copies ⟨4096, 8192, 0, .mapSync⟩) =
            some ⟨4096, 12288, 0, .mapSync⟩ := if_pos ⟨by decide, Or.inl (by decide)⟩
      have split : utilRangeSplit 4096 (⟨4096, 12288, 0, .mapSync⟩ ::
          List.replicate copies ⟨4096, 8192, 0, .mapSync⟩) ⟨4096, 12288, 0, .mapSync⟩ 8192 4096
            false false =
          (⟨4096, 12288, 0, .mapSync⟩ ::
            List.replicate (copies + 1) ⟨4096, 8192, 0, .mapSync⟩, true) := by
        have before : trackerBefore ⟨4096, 12288, 0, .mapSync⟩ 8192 =
            some ⟨4096, 8192, 0, .mapSync⟩ := rfl
        have after : trackerAfter ⟨4096, 12288, 0, .mapSync⟩ 4096 =
            some ⟨4096, 12288, 0, .mapSync⟩ := rfl
        unfold utilRangeSplit
        rw [if_neg (by decide), if_neg (by simp), if_neg (by simp), List.erase_cons_head, before,
          after, insertSome, insertSome, sortedqInsert_replicate _ _ rfl, ← List.replicate_succ,
          sortedqInsert_replicate ⟨4096, 12288, 0, .mapSync⟩ ⟨4096, 8192, 0, .mapSync⟩ rfl]
      unfold unregisterLoop
      rw [found]
      dsimp only [allocated]
      rw [split]
      exact inductionHypothesis (copies + 1)

/-- A call of `util_range_unregister` whose range wraps does not return. -/
theorem unregister_wrapped_runs_forever :
    ∃ list, runs (TrackerCall.exec 4096) [] [.register 4096 8192 .mapSync 0 0] = some list ∧
      4096 ∣ 8192 ∧ 0 < 2 ^ 64 - 4096 ∧
      ∀ fuel, utilRangeUnregister 4096 list 8192 (2 ^ 64 - 4096) allocated fuel = none := by
  refine ⟨[⟨4096, 12288, 0, .mapSync⟩], by decide +kernel, by decide, by decide, fun fuel => ?_⟩
  have rounded : Word.ceil (2 ^ 64 - 4096) 4096 = 2 ^ 64 - 4096 := by decide +kernel
  have stop : Word.add 8192 (2 ^ 64 - 4096) = 4096 := by decide +kernel
  unfold utilRangeUnregister
  dsimp only
  rw [rounded, stop]
  exact unregisterLoop_wrapped fuel 0

end Common
end Vmem
