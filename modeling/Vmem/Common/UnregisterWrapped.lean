import Mathlib.Algebra.Order.BigOperators.Group.List
import Mathlib.Data.List.TakeWhile
import Vmem.Common.RangeIsPmem
import Vmem.Common.UnregisterFailures

/-!
# Unregistering a range that wraps

The tracker in which such a range begins is found; what is left of it at the end begins at the
wrapped end of the range, and may be found in turn.  Then the loop cuts it again and again until
`Malloc` fails.
-/

namespace Vmem
namespace Common

/-- The comparison of `PMDK_SORTEDQ_INSERT` with a tracker that begins at an address. -/
def beginsBelow (base : Nat) (it : TrackerNode) : Bool := Word.signedSub it.mt.baseAddr base < 0

variable {memory : TrackerMemory} {s s' : TrackerHeap} {node n : TrackerNode}
  {list before : List TrackerNode} {addr len stop pagesize fuel x : Nat} {m : MapTracker}
  {attributes : PmemMapType × Int}

theorem insertNode_eq (elm : TrackerNode) (list : List TrackerNode) :
    insertNode (some elm) list = list.takeWhile (beginsBelow elm.mt.baseAddr) ++
      elm :: list.dropWhile (beginsBelow elm.mt.baseAddr) := RangeQueue.insertBefore_eq ..

/-- The search passes what ends before the range. -/
theorem findNode_append
    (past : ∀ e ∈ before, e.mt.baseAddr < e.mt.endAddr ∧ e.mt.endAddr ≤ addr)
    (list : List TrackerNode) : findNode addr len (before ++ list) = findNode addr len list := by
  induction before with
  | nil => rfl
  | cons first rest inductionHypothesis =>
      have firstPast := past first List.mem_cons_self
      rw [List.cons_append]
      conv_lhs => unfold findNode
      rw [if_neg (by omega), if_neg (by omega)]
      exact inductionHypothesis fun e member => past e (List.mem_cons_of_mem first member)

/-- A tracker stands where a comparison with its begin puts it, and all before it end before the
range. -/
def Wrapped (addr : Nat) (m : MapTracker) (s : TrackerHeap) : Prop :=
  ∃ left n, n.mt = m ∧ s.list = insertNode (some n) left ∧
    ∀ e ∈ left.takeWhile (beginsBelow m.baseAddr),
      e.mt.baseAddr < e.mt.endAddr ∧ e.mt.endAddr ≤ addr

namespace Wrapped

variable (wrapped : Wrapped addr m s) (starts : m.baseAddr < addr) (ends : addr < m.endAddr)

include wrapped starts ends

theorem found (len : Nat) : ∃ n, findNode addr len s.list = some n ∧ n.mt = m := by
  obtain ⟨left, n, same, list, past⟩ := wrapped
  refine ⟨n, ?_, same⟩
  rw [list, insertNode_eq, same, findNode_append past]
  unfold findNode
  rw [same, if_pos ⟨ends, Or.inl starts.le⟩]

/-- What is cut off is the tracker itself again. -/
theorem round (search : findNode addr len s.list = some node)
    (cut : NodeCut memory pagesize s s' node addr m.baseAddr) :
    Wrapped addr m s' ∧ memory.fails s.calls = false ∧ memory.fails (s.calls + 1) = false ∧
      s'.calls = s.calls + 2 ∧
      ∀ x attributes, Tracks s'.trackers x attributes ↔ Tracks s.trackers x attributes := by
  obtain ⟨n, isFound, same⟩ := wrapped.found starts ends len
  rw [search] at isFound
  cases isFound
  have isBefore : trackerBefore node.mt addr = some { m with endAddr := addr } := by
    rw [same]
    exact if_pos starts
  have isAfter : trackerAfter node.mt m.baseAddr = some m := by
    rw [same]
    exact if_pos (starts.trans ends)
  have inList := findNode_mem search
  have firstGranted := cut.beforeGranted (by rw [isBefore]; rfl)
  have secondGranted := cut.afterGranted (by rw [isAfter]; rfl)
  have calls := cut.calls
  rw [isBefore] at secondGranted
  rw [isBefore, isAfter] at calls
  refine ⟨?_, firstGranted, secondGranted, calls, fun x attributes => ?_⟩
  · obtain ⟨left, first, firstSame, list, past⟩ := wrapped
    obtain ⟨mtb, mte, mtbSame, mteSame, list'⟩ := cut.list
    rw [isBefore, Option.map_eq_some_iff] at mtbSame
    rw [isAfter, Option.map_eq_some_iff] at mteSame
    obtain ⟨b, rfl, bSame⟩ := mtbSame
    obtain ⟨e, rfl, eSame⟩ := mteSame
    have isFirst : first = node := by
      rw [list, insertNode_eq, firstSame, findNode_append past] at search
      unfold findNode at search
      rw [firstSame, if_pos ⟨ends, Or.inl starts.le⟩] at search
      cases search
      rfl
    rw [isFirst] at list
    have bBase : b.mt.baseAddr = m.baseAddr := by rw [bSame]
    have erased : s.list.erase node = left := by
      have ahead : node ∉ left.takeWhile (beginsBelow m.baseAddr) := by
        intro member
        have := past node member
        rw [same] at this
        omega
      rw [list, insertNode_eq, same, List.erase_append_right _ ahead, List.erase_cons_head,
        List.takeWhile_append_dropWhile]
    refine ⟨insertNode (some b) left, e, eSame, by rw [list', erased], fun u member => ?_⟩
    have stops : beginsBelow m.baseAddr b = false := by
      unfold beginsBelow
      rw [bBase, Word.signedSub, Int.sub_self]
      decide
    rw [insertNode_eq, bBase, List.takeWhile_append_of_pos fun u member =>
        List.mem_takeWhile_imp member,
      List.takeWhile_cons_of_neg (by rw [stops]; exact Bool.false_ne_true),
      List.append_nil] at member
    exact past u member
  · rw [cut.tracks_iff]
    unfold remainders
    rw [isBefore, isAfter]
    have split := (List.perm_cons_erase inList).map (·.mt)
    unfold TrackerHeap.trackers Tracks
    simp only [split.mem_iff, List.map_cons, same, List.mem_cons]
    constructor
    · rintro (⟨mt, member, holds⟩ | ⟨mt, piece, lower, upper, holds⟩)
      · exact ⟨mt, Or.inr member, holds⟩
      · simp only [Option.toList_some, List.cons_append, List.nil_append, List.mem_cons,
          List.not_mem_nil, or_false] at piece
        rcases piece with rfl | rfl
        · exact ⟨mt, Or.inl rfl, lower, upper, holds⟩
        · dsimp only at lower upper holds
          exact ⟨m, Or.inl rfl, lower, by omega, holds⟩
    · rintro ⟨mt, rfl | member, holds⟩
      · exact Or.inr ⟨mt, by simp, holds⟩
      · exact Or.inl ⟨mt, member, holds⟩

/-- While the tracker is found again and again, what is tracked stays the same. -/
theorem of_failed (accepted : ¬Refused pagesize addr m.baseAddr)
    (result : unregisterNodesLoop memory pagesize addr len m.baseAddr fuel s = some (s', false)) :
    (∀ x attributes, Tracks s'.trackers x attributes ↔ Tracks s.trackers x attributes) ∧
      ∃ n, s.calls ≤ n ∧ memory.fails n = true := by
  induction fuel generalizing s with
  | zero => cases result
  | succ fuel inductionHypothesis =>
      obtain ⟨node, search, same⟩ := wrapped.found starts ends len
      unfold unregisterNodesLoop at result
      rw [search] at result
      cases split : splitNode memory pagesize s node addr m.baseAddr with
      | mk s₁ done =>
          simp only [split] at result
          cases done with
          | false =>
              cases result
              obtain ⟨list, refused | ⟨_, failing⟩ | ⟨_, failing⟩⟩ := splitNode_failed split
              · exact absurd refused accepted
              · unfold TrackerHeap.trackers
                rw [list]
                exact ⟨fun _ _ => Iff.rfl, _, le_rfl, failing⟩
              · unfold TrackerHeap.trackers
                rw [list]
                exact ⟨fun _ _ => Iff.rfl, _, Nat.le_add_right .., failing⟩
          | true =>
              obtain ⟨again, _, _, calls, tracks⟩ :=
                wrapped.round starts ends search (splitNode_done split)
              obtain ⟨rest, n, later, failing⟩ := inductionHypothesis again result
              exact ⟨fun x attributes => (rest x attributes).trans (tracks x attributes), n,
                by omega, failing⟩

/-- The loop ends with the first `Malloc` that fails. -/
theorem fails (len pagesize : Nat) {n : Nat} (later : s.calls ≤ n)
    (failing : memory.fails n = true) :
    ∃ fuel s', unregisterNodesLoop memory pagesize addr len m.baseAddr fuel s =
      some (s', false) := by
  induction distance : n - s.calls using Nat.strong_induction_on generalizing s with
  | h distance inductionHypothesis =>
      obtain ⟨node, search, same⟩ := wrapped.found starts ends len
      cases split : splitNode memory pagesize s node addr m.baseAddr with
      | mk s₁ done =>
          cases done with
          | false =>
              refine ⟨1, s₁, ?_⟩
              unfold unregisterNodesLoop
              simp only [search, split]
          | true =>
              obtain ⟨again, first, second, calls, _⟩ :=
                wrapped.round starts ends search (splitNode_done split)
              have notFirst : n ≠ s.calls := by
                rintro rfl
                rw [first] at failing
                cases failing
              have notSecond : n ≠ s.calls + 1 := by
                rintro rfl
                rw [second] at failing
                cases failing
              obtain ⟨fuel, s', result⟩ := inductionHypothesis (n - s₁.calls) (by omega) again
                (by omega) rfl
              refine ⟨fuel + 1, s', ?_⟩
              unfold unregisterNodesLoop
              simp only [search, split]
              exact result

end Wrapped

/-! ## The first round -/

/-- A tracker that a wrapped range finds holds its first byte. -/
theorem holds_of_found (wraps : Word.add addr len < addr)
    (search : findNode addr len s.list = some node) :
    node.mt.baseAddr ≤ addr ∧ addr < node.mt.endAddr := by
  obtain ⟨late, hits⟩ := findNode_hits search
  exact ⟨by omega, late⟩

section FirstRound

variable (inOrder : RangeQueue.InOrder MapTracker.baseAddr MapTracker.endAddr s.trackers)
  (wraps : Word.add addr len < addr) (search : findNode addr len s.list = some node)
  (cut : NodeCut memory pagesize s s' node addr (Word.add addr len))

include wraps search cut

theorem first_calls :
    memory.fails (s.calls + (trackerBefore node.mt addr).toList.length) = false ∧
      s'.calls = s.calls + (trackerBefore node.mt addr).toList.length + 1 := by
  have holds := holds_of_found wraps search
  have isAfter : trackerAfter node.mt (Word.add addr len) =
      some { node.mt with baseAddr := Word.add addr len } := if_pos (by omega)
  have calls := cut.calls
  rw [isAfter] at calls
  exact ⟨cut.afterGranted (by rw [isAfter]; rfl), calls⟩

/-- What is tracked in addition lies behind the wrapped end of the range. -/
theorem first_tracks : Tracks s'.trackers x attributes ↔ Tracks s.trackers x attributes ∨
    (Word.add addr len ≤ x ∧ x < node.mt.endAddr ∧
      (node.mt.type, node.mt.regionId) = attributes) := by
  have holds := holds_of_found wraps search
  have split := (List.perm_cons_erase (findNode_mem search)).map (·.mt)
  have isAfter : { node.mt with baseAddr := Word.add addr len } ∈
      remainders node.mt addr (Word.add addr len) :=
    List.mem_append_left _ (Option.mem_toList.mpr (mem_trackerAfter.mpr ⟨by omega, rfl⟩))
  rw [cut.tracks_iff]
  unfold TrackerHeap.trackers Tracks
  simp only [split.mem_iff, List.map_cons, List.mem_cons]
  constructor
  · rintro (⟨mt, member, tracked⟩ | ⟨mt, piece, lower, upper, same⟩)
    · exact Or.inl ⟨mt, Or.inr member, tracked⟩
    · rcases List.mem_append.mp piece with after | before
      · obtain ⟨_, rfl⟩ := mem_trackerAfter.mp (Option.mem_toList.mp after)
        exact Or.inr ⟨lower, upper, same⟩
      · obtain ⟨_, rfl⟩ := mem_trackerBefore.mp (Option.mem_toList.mp before)
        dsimp only at upper
        exact Or.inl ⟨node.mt, Or.inl rfl, lower, by omega, same⟩
  · rintro (⟨mt, rfl | member, lower, upper, same⟩ | ⟨lower, upper, same⟩)
    · rcases Nat.lt_or_ge x addr with early | late
      · refine Or.inr ⟨{ node.mt with endAddr := addr }, List.mem_append_right _ ?_, lower, early,
          same⟩
        exact Option.mem_toList.mpr (mem_trackerBefore.mpr ⟨by omega, rfl⟩)
      · exact Or.inr ⟨_, isAfter, by dsimp only; omega, upper, same⟩
    · exact Or.inl ⟨mt, member, lower, upper, same⟩
    · exact Or.inr ⟨_, isAfter, lower, upper, same⟩

include inOrder

/-- The list after the first round. -/
theorem first_list : ∃ left n, n.mt = { node.mt with baseAddr := Word.add addr len } ∧
    s'.list = insertNode (some n) left ∧
    left.map (·.mt) = insertSome (trackerBefore node.mt addr) (s.trackers.erase node.mt) ∧
    ∀ e ∈ left, e.mt.baseAddr < e.mt.endAddr ∧ (addr < e.mt.endAddr → addr < e.mt.baseAddr) := by
  have holds := holds_of_found wraps search
  have ordered := nodesInOrder inOrder
  obtain ⟨mtb, mte, isBefore, isAfter, list⟩ := cut.list
  rw [show trackerAfter node.mt (Word.add addr len) =
    some { node.mt with baseAddr := Word.add addr len } from if_pos (by omega),
    Option.map_eq_some_iff] at isAfter
  obtain ⟨n, rfl, same⟩ := isAfter
  refine ⟨insertNode mtb (s.list.erase node), n, same, list, ?_, fun e member => ?_⟩
  · rw [insertNode_map, isBefore, map_erase_found search]
    rfl
  · rcases List.mem_append.mp ((insertNode_perm _ _).mem_iff.mp member) with piece | old
    · have before : e.mt ∈ trackerBefore node.mt addr := by
        rw [← isBefore]
        exact Option.mem_map_of_mem _ (Option.mem_toList.mp piece)
      obtain ⟨begins, eSame⟩ := mem_trackerBefore.mp before
      rw [eSame]
      dsimp only
      exact ⟨begins, fun late => absurd late (lt_irrefl _)⟩
    · obtain ⟨different, inList⟩ := ordered.nodup.mem_erase_iff.mp old
      have eLong := ordered.nonempty e inList
      have apart := ordered.apart inList (findNode_mem search) different
      exact ⟨eLong, fun late => by omega⟩

end FirstRound

/-- A remainder that is inserted behind a tracker that ends and begins behind the range is not
found again. -/
theorem missing_of_ahead {left : List TrackerNode} {e : TrackerNode}
    (wraps : Word.add addr len < addr) (begins : n.mt.baseAddr < n.mt.endAddr)
    (others : ∀ e ∈ left,
      e.mt.baseAddr < e.mt.endAddr ∧ (addr < e.mt.endAddr → addr < e.mt.baseAddr))
    (member : e ∈ left.takeWhile (beginsBelow n.mt.baseAddr)) (late : addr < e.mt.endAddr) :
    findNode addr len (insertNode (some n) left) = none := by
  have long : Long (insertNode (some n) left) := by
    intro u inList
    rcases List.mem_append.mp ((insertNode_perm _ _).mem_iff.mp inList) with isNew | old
    · cases List.mem_singleton.mp isNew
      exact begins
    · exact (others u old).1
  have inAhead : e ∈ ahead addr (left.takeWhile (beginsBelow n.mt.baseAddr)) :=
    mem_ahead.mpr ⟨member, late⟩
  rw [findNode_eq long, insertNode_eq]
  unfold ahead at inAhead ⊢
  rw [List.filter_append, List.head?_append_of_ne_nil _ (List.ne_nil_of_mem inAhead)]
  cases first : ((left.takeWhile (beginsBelow n.mt.baseAddr)).filter
      fun u => addr < u.mt.endAddr).head? with
  | none => rfl
  | some u =>
      obtain ⟨inTake, ends⟩ := mem_ahead.mp (List.mem_of_head? first)
      have behind := (others u (List.takeWhile_subset _ inTake)).2 ends
      rw [Option.filter_some, if_neg (by simp; omega)]

/-- A range that wraps: a failure leaves alone what is tracked unless the remainder reaches below
its tracker and is found again. -/
theorem tracks_of_failed_wrapped
    (inOrder : RangeQueue.InOrder MapTracker.baseAddr MapTracker.endAddr s.trackers)
    (accepted : ¬Refused pagesize addr (Word.add addr len)) (wraps : Word.add addr len < addr)
    (result : unregisterNodesLoop memory pagesize addr len (Word.add addr len) fuel s =
      some (s', false))
    (enough : ¬FailsWrapped memory s addr (Word.add addr len)) (x : Nat)
    (attributes : PmemMapType × Int) :
    Tracks s'.trackers x attributes ↔ Tracks s.trackers x attributes := by
  cases fuel with
  | zero => cases result
  | succ fuel =>
      unfold unregisterNodesLoop at result
      cases search : findNode addr len s.list with
      | none =>
          rw [search] at result
          cases result
      | some node =>
          rw [search] at result
          have holds := holds_of_found wraps search
          cases split : splitNode memory pagesize s node addr (Word.add addr len) with
          | mk s₁ done =>
              simp only [split] at result
              cases done with
              | false =>
                  cases result
                  unfold TrackerHeap.trackers
                  rw [(splitNode_failed split).1]
              | true =>
                  have cut := splitNode_done split
                  obtain ⟨left, n, same, list, trackers, others⟩ :=
                    first_list inOrder wraps search cut
                  have base : n.mt.baseAddr = Word.add addr len := by rw [same]
                  by_cases again : ∀ e ∈ left.takeWhile (beginsBelow n.mt.baseAddr),
                      e.mt.endAddr ≤ addr
                  · have wrapped : Wrapped addr n.mt s₁ := ⟨left, n, rfl, list, fun e member =>
                      ⟨(others e (List.takeWhile_subset _ member)).1, again e member⟩⟩
                    rw [← base] at result accepted
                    obtain ⟨kept, later, after, failing⟩ := wrapped.of_failed (by omega)
                      (by rw [same]; exact holds.2) accepted result
                    obtain ⟨granted, calls⟩ := first_calls wraps search cut
                    rw [kept, first_tracks wraps search cut]
                    refine ⟨?_, Or.inl⟩
                    rintro (tracked | ⟨lower, upper, rfl⟩)
                    · exact tracked
                    · by_contra untracked
                      have member := List.mem_map_of_mem (f := (·.mt)) (findNode_mem search)
                      refine enough ⟨node.mt, member, holds.1, holds.2, fun begins => ?_, granted,
                        ⟨later, by omega, failing⟩, ⟨x, lower, ?_, untracked⟩, ?_⟩
                      · refine cut.beforeGranted ?_
                        unfold trackerBefore
                        rw [if_pos begins]
                        rfl
                      · by_contra inside
                        exact untracked ⟨node.mt, member, by omega, upper, rfl⟩
                      · rw [← trackers, List.takeWhile_map]
                        intro u inTake
                        obtain ⟨e, inLeft, rfl⟩ := List.mem_map.mp inTake
                        rw [base] at again
                        exact again e inLeft
                  · push Not at again
                    obtain ⟨e, member, late⟩ := again
                    have missing := missing_of_ahead wraps (by rw [same]; dsimp only; omega)
                      others member late
                    rw [← list] at missing
                    exact absurd result (not_failed_of_missing missing)

/-- And then it does not. -/
theorem FailsWrapped.changes
    (inOrder : RangeQueue.InOrder MapTracker.baseAddr MapTracker.endAddr s.trackers)
    (accepted : ¬Refused pagesize addr (Word.add addr len)) (wraps : Word.add addr len < addr)
    (fails : FailsWrapped memory s addr (Word.add addr len)) :
    ∃ fuel s', unregisterNodesLoop memory pagesize addr len (Word.add addr len) fuel s =
        some (s', false) ∧
      ∃ x attributes, Tracks s'.trackers x attributes ∧ ¬Tracks s.trackers x attributes := by
  obtain ⟨t, member, lower, upper, beforeGranted, afterGranted, ⟨later, after, failing⟩,
    ⟨x, fromStop, below, untracked⟩, again⟩ := fails
  obtain ⟨node, search, rfl⟩ : ∃ node, findNode addr len s.list = some node ∧ node.mt = t := by
    have found := findNode_map addr len s.list
    rw [show s.list.map (·.mt) = s.trackers from rfl,
      find_of_holds inOrder member lower upper] at found
    exact Option.map_eq_some_iff.mp found
  cases split : splitNode memory pagesize s node addr (Word.add addr len) with
  | mk s₁ done =>
      cases done with
      | false =>
          obtain ⟨_, refused | ⟨left, refusal⟩ | ⟨_, refusal⟩⟩ := splitNode_failed split
          · exact absurd refused accepted
          · obtain ⟨piece, isPiece⟩ := Option.isSome_iff_exists.mp left
            rw [beforeGranted (mem_trackerBefore.mp isPiece).1] at refusal
            cases refusal
          · rw [afterGranted] at refusal
            cases refusal
      | true =>
          have cut := splitNode_done split
          obtain ⟨left, n, same, list, trackers, others⟩ := first_list inOrder wraps search cut
          obtain ⟨_, calls⟩ := first_calls wraps search cut
          have base : n.mt.baseAddr = Word.add addr len := by rw [same]
          have wrapped : Wrapped addr n.mt s₁ := by
            refine ⟨left, n, rfl, list, fun e inTake =>
              ⟨(others e (List.takeWhile_subset _ inTake)).1, ?_⟩⟩
            rw [← trackers, List.takeWhile_map] at again
            rw [base] at inTake
            exact again e.mt (List.mem_map_of_mem inTake)
          have starts : n.mt.baseAddr < addr := by omega
          have ends : addr < n.mt.endAddr := by
            rw [same]
            exact upper
          obtain ⟨fuel, s', result⟩ := wrapped.fails starts ends len pagesize
            (show s₁.calls ≤ later by omega) failing
          have kept := (wrapped.of_failed starts ends (base ▸ accepted) result).1
          rw [base] at result
          refine ⟨fuel + 1, s', ?_, x, (node.mt.type, node.mt.regionId), ?_, untracked⟩
          · unfold unregisterNodesLoop
            simp only [search, split]
            exact result
          · rw [kept, first_tracks wraps search cut]
            exact Or.inr ⟨fromStop, by omega, rfl⟩

/-! ## Every call -/

/-- A range that is refused is refused in the first round. -/
theorem list_eq_of_refused (refused : Refused pagesize addr stop)
    (result : unregisterNodesLoop memory pagesize addr len stop fuel s = some (s', false)) :
    s'.list = s.list := by
  cases fuel with
  | zero => cases result
  | succ fuel =>
      unfold unregisterNodesLoop at result
      cases search : findNode addr len s.list with
      | none =>
          rw [search] at result
          cases result
      | some node =>
          rw [search] at result
          unfold splitNode at result
          simp only [if_pos refused] at result
          cases result
          rfl

/-- `util_range_unregister` keeps account of the memory of the trackers, and a call that returns
-1 leaves alone what is tracked, exactly if it is not one that fails after its first round and has
changed something by then. -/
theorem unregister_failure_keeps_iff {others : List Nat}
    (inOrder : RangeQueue.InOrder MapTracker.baseAddr MapTracker.endAddr s.trackers)
    (accounts : Accounts others s) :
    (∀ fuel s', unregisterNodes memory pagesize s addr len fuel = some (s', false) →
      (∀ x attributes, Tracks s'.trackers x attributes ↔ Tracks s.trackers x attributes) ∧
        Accounts others s') ↔
      ¬LateFailure memory s pagesize addr (Word.add addr (Word.ceil len pagesize)) := by
  unfold unregisterNodes LateFailure
  dsimp only
  generalize Word.ceil len pagesize = len
  constructor
  · rintro keeps ⟨accepted, ⟨less, fails⟩ | ⟨wraps, fails⟩⟩
    · obtain ⟨fuel, s', result, x, attributes, before, after⟩ :=
        fails.changes inOrder accepted less
      exact after (((keeps fuel s' result).1 x attributes).mpr before)
    · obtain ⟨fuel, s', result, x, attributes, after, before⟩ :=
        fails.changes inOrder accepted wraps
      exact before (((keeps fuel s' result).1 x attributes).mp after)
  · intro enough fuel s' result
    refine ⟨fun x attributes => ?_, unregisterNodesLoop_accounts accounts result⟩
    by_cases refused : Refused pagesize addr (Word.add addr len)
    · unfold TrackerHeap.trackers
      rw [list_eq_of_refused refused result]
    · rcases Nat.lt_trichotomy addr (Word.add addr len) with less | empty | wraps
      · unfold TrackerHeap.trackers
        rw [list_eq_of_failed inOrder refused less result
          fun fails => enough ⟨refused, Or.inl ⟨less, fails⟩⟩]
      · exact absurd (Or.inl empty) refused
      · exact tracks_of_failed_wrapped inOrder refused wraps result
          (fun fails => enough ⟨refused, Or.inr ⟨wraps, fails⟩⟩) x attributes

/-- A heap that never hands out an address again. -/
def ascendingHeap (fails : Nat → Bool) : TrackerMemory where
  fails := fails
  fresh := fun cells => (cells.map (·.address)).sum + 1
  unused := by
    intro cells used
    obtain ⟨cell, member, _, same⟩ := Cell.mem_inUse.mp used
    have := List.le_sum_of_mem (List.mem_map_of_mem (f := (·.address)) member)
    omega

/-- Two trackers that lie side by side. -/
def adjacentTrackers : TrackerHeap where
  list := [⟨1, ⟨4096, 8192, 0, .mapSync⟩⟩, ⟨2, ⟨8192, 16384, 1, .devDax⟩⟩]
  cells := [⟨2, 0, 0⟩, ⟨1, 0, 0⟩]
  calls := 0

theorem adjacentTrackers_inOrder :
    RangeQueue.InOrder MapTracker.baseAddr MapTracker.endAddr adjacentTrackers.trackers :=
  ⟨by decide, by decide⟩

theorem adjacentTrackers_accounts : Accounts [] adjacentTrackers := by
  refine ⟨⟨by decide, by decide⟩, ?_⟩
  exact List.Perm.swap 1 2 []

/-- There is no memory for the beginning of the tracker in which a range begins. -/
theorem unregister_failure_keeps_beginning :
    ∃ s', unregisterNodes (ascendingHeap fun n => n = 0) 4096 adjacentTrackers 12288 4096 1 =
        some (s', false) ∧
      (∀ x attributes, Tracks s'.trackers x attributes ↔
        Tracks adjacentTrackers.trackers x attributes) ∧ Accounts [] s' := by
  have result : unregisterNodes (ascendingHeap fun n => n = 0) 4096 adjacentTrackers 12288 4096 1 =
      some ({ adjacentTrackers with calls := 1 }, false) := by decide +kernel
  have stop : Word.add 12288 (Word.ceil 4096 4096) = 16384 := by decide +kernel
  have early : ¬LateFailure (ascendingHeap fun n => n = 0) adjacentTrackers 4096 12288
      (Word.add 12288 (Word.ceil 4096 4096)) := by
    rw [stop]
    rintro ⟨_, ⟨_, fails⟩ | ⟨wraps, _⟩⟩
    · revert fails
      unfold FailsAtEnd
      decide
    · omega
  exact ⟨_, result, (unregister_failure_keeps_iff adjacentTrackers_inOrder
    adjacentTrackers_accounts).mpr early 1 _ result⟩

/-- There is no memory for the end of the second tracker of a range, when the first one has been
removed. -/
theorem unregister_failure_changes :
    RangeQueue.InOrder MapTracker.baseAddr MapTracker.endAddr adjacentTrackers.trackers ∧
    Accounts [] adjacentTrackers ∧
    ∃ s', unregisterNodes (ascendingHeap fun n => n = 0) 4096 adjacentTrackers 4096 8192 2 =
        some (s', false) ∧
      ¬∀ x attributes, Tracks s'.trackers x attributes ↔
        Tracks adjacentTrackers.trackers x attributes := by
  refine ⟨adjacentTrackers_inOrder, adjacentTrackers_accounts,
    ⟨[⟨2, ⟨8192, 16384, 1, .devDax⟩⟩], [⟨2, 0, 0⟩, ⟨1, 1, 0⟩], 1⟩, by decide +kernel,
    fun same => ?_⟩
  have tracked : Tracks adjacentTrackers.trackers 4096 (.mapSync, 0) :=
    ⟨⟨4096, 8192, 0, .mapSync⟩, List.mem_cons_self, by decide, by decide, rfl⟩
  obtain ⟨mt, member, lower, _⟩ := (same _ _).mpr tracked
  cases List.mem_singleton.mp member
  exact absurd lower (by decide)

end Common
end Vmem
