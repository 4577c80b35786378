import Vmem.Common.TrackerHeap

/-!
# When unregistering fails too late

`util_range_unregister` cuts one tracker in a round.  If a round has no memory for what is left of
a tracker, the call fails, but the rounds before it are not undone.  For a range that does not
wrap this is the tracker in which the range ends.  A range that wraps finds what it has left
itself again and again, and needs memory in each of its rounds.
-/

namespace Vmem
namespace Common

/-- A byte is tracked with a type and a region. -/
def Tracks (list : List MapTracker) (x : Nat) (attributes : PmemMapType × Int) : Prop :=
  ∃ mt ∈ list, mt.baseAddr ≤ x ∧ x < mt.endAddr ∧ (mt.type, mt.regionId) = attributes

/-- A range ends inside of a tracker that is not the first one it overlaps, and there is no
memory for what is left of that tracker.  The first `Malloc` may be for the beginning of another
one. -/
def FailsAtEnd (memory : TrackerMemory) (s : TrackerHeap) (addr stop : Nat) : Prop :=
  ∃ t ∈ s.trackers, ∃ v ∈ s.trackers, Overlaps addr stop t ∧ Overlaps addr stop v ∧
    t.endAddr ≤ v.baseAddr ∧ stop < v.endAddr ∧
    if ∃ u ∈ s.trackers, u.baseAddr < addr ∧ addr < u.endAddr then
      memory.fails s.calls = false ∧ memory.fails (s.calls + 1) = true
    else memory.fails s.calls = true

/-- A range that wraps begins in a tracker, some `Malloc` behind those for its remainders fails,
the remainder at the end reaches below the tracker, and it is found again: what stands before
it in the list ends before the range. -/
def FailsWrapped (memory : TrackerMemory) (s : TrackerHeap) (addr stop : Nat) : Prop :=
  ∃ t ∈ s.trackers, t.baseAddr ≤ addr ∧ addr < t.endAddr ∧
    (t.baseAddr < addr → memory.fails s.calls = false) ∧
    memory.fails (s.calls + (trackerBefore t addr).toList.length) = false ∧
    (∃ n, s.calls + (trackerBefore t addr).toList.length < n ∧ memory.fails n = true) ∧
    (∃ x, stop ≤ x ∧ x < t.baseAddr ∧ ¬Tracks s.trackers x (t.type, t.regionId)) ∧
    ∀ u ∈ (insertSome (trackerBefore t addr) (s.trackers.erase t)).takeWhile
      (fun u => Word.signedSub u.baseAddr stop < 0), u.endAddr ≤ addr

/-- A call of `util_range_unregister` fails after it has changed what is tracked. -/
def LateFailure (memory : TrackerMemory) (s : TrackerHeap) (pagesize addr stop : Nat) : Prop :=
  ¬Refused pagesize addr stop ∧
    ((addr < stop ∧ FailsAtEnd memory s addr stop) ∨
      (stop < addr ∧ FailsWrapped memory s addr stop))

/-- No tracker of the list is empty. -/
def Long (list : List TrackerNode) : Prop := ∀ n ∈ list, n.mt.baseAddr < n.mt.endAddr

/-- The trackers of a list are in order. -/
def NodesInOrder (list : List TrackerNode) : Prop :=
  RangeQueue.InOrder (fun n : TrackerNode => n.mt.baseAddr) (fun n => n.mt.endAddr) list

/-- The trackers that end behind an address. -/
def ahead (addr : Nat) (list : List TrackerNode) : List TrackerNode :=
  list.filter fun n => addr < n.mt.endAddr

variable {memory : TrackerMemory} {s s' : TrackerHeap} {node n : TrackerNode}
  {list rest : List TrackerNode} {addr len stop pagesize fuel x : Nat} {others : List Nat}
  {attributes : PmemMapType × Int}

theorem mem_ahead : n ∈ ahead addr list ↔ n ∈ list ∧ addr < n.mt.endAddr := by
  unfold ahead
  rw [List.mem_filter, decide_eq_true_eq]

theorem nodesInOrder
    (inOrder : RangeQueue.InOrder MapTracker.baseAddr MapTracker.endAddr s.trackers) :
    NodesInOrder s.list where
  nonempty := fun n member => inOrder.nonempty n.mt (List.mem_map_of_mem member)
  ordered := List.pairwise_map.mp inOrder.ordered

/-- The search looks at the first tracker that ends behind the address. -/
theorem findNode_eq (long : Long list) : findNode addr len list =
    (ahead addr list).head?.filter fun n =>
      n.mt.baseAddr ≤ addr ∨ n.mt.baseAddr < Word.add addr len := by
  induction list with
  | nil => rfl
  | cons first rest inductionHypothesis =>
      have firstLong := long first List.mem_cons_self
      have later := inductionHypothesis fun n member => long n (List.mem_cons_of_mem first member)
      unfold findNode ahead
      by_cases ends : addr < first.mt.endAddr
      · rw [List.filter_cons_of_pos (by simpa using ends), List.head?_cons, Option.filter_some]
        by_cases hits : first.mt.baseAddr ≤ addr ∨ first.mt.baseAddr < Word.add addr len
        · rw [if_pos ⟨ends, hits⟩, if_pos (decide_eq_true hits)]
        · rw [if_neg fun both => hits both.2, if_pos (by omega),
            if_neg (by simpa using hits)]
      · rw [List.filter_cons_of_neg (by simpa using ends), if_neg fun both => ends both.1,
          if_neg (by omega)]
        exact later

theorem findNode_eq_none (long : Long list) (wrong : ∀ n ∈ ahead addr list,
    addr < n.mt.baseAddr ∧ Word.add addr len ≤ n.mt.baseAddr) :
    findNode addr len list = none := by
  rw [findNode_eq long]
  cases first : (ahead addr list).head? with
  | none => rfl
  | some n =>
      have := wrong n (List.mem_of_head? first)
      rw [Option.filter_some, if_neg (by simp; omega)]

/-! ## What a cut leaves -/

namespace NodeCut

variable (cut : NodeCut memory pagesize s s' node addr stop)

include cut

theorem trackers_perm : s'.trackers.Perm
    (remainders node.mt addr stop ++ (s.list.erase node).map (·.mt)) := by
  obtain ⟨mtb, mte, isBefore, isAfter, list⟩ := cut.list
  unfold TrackerHeap.trackers remainders
  rw [list, insertNode_map, insertNode_map, isBefore, isAfter, List.append_assoc]
  exact (insertSome_perm _ _).trans ((insertSome_perm _ _).append_left _)

/-- A tracker that is there afterwards was there or is a remainder. -/
theorem cases_mem (member : n ∈ s'.list) :
    n ∈ s.list.erase node ∨ n.mt ∈ remainders node.mt addr stop := by
  obtain ⟨mtb, mte, isBefore, isAfter, list⟩ := cut.list
  rw [list] at member
  rcases List.mem_append.mp ((insertNode_perm _ _).mem_iff.mp member) with piece | member
  · refine Or.inr (List.mem_append_left _ (Option.mem_toList.mpr ?_))
    rw [← isAfter]
    exact Option.mem_map_of_mem _ (Option.mem_toList.mp piece)
  · rcases List.mem_append.mp ((insertNode_perm _ _).mem_iff.mp member) with piece | member
    · refine Or.inr (List.mem_append_right _ (Option.mem_toList.mpr ?_))
      rw [← isBefore]
      exact Option.mem_map_of_mem _ (Option.mem_toList.mp piece)
    · exact Or.inl member

theorem long (before : Long s.list) : Long s'.list := by
  intro n member
  rcases cut.cases_mem member with old | piece
  · exact before n (List.mem_of_mem_erase old)
  · rcases List.mem_append.mp piece with isAfter | isBefore
    · obtain ⟨less, same⟩ := mem_trackerAfter.mp (Option.mem_toList.mp isAfter)
      rw [same]
      exact less
    · obtain ⟨less, same⟩ := mem_trackerBefore.mp (Option.mem_toList.mp isBefore)
      rw [same]
      exact less

/-- Nothing else is tracked afterwards than before and in the remainders. -/
theorem tracks_iff : Tracks s'.trackers x attributes ↔
    Tracks ((s.list.erase node).map (·.mt)) x attributes ∨
      Tracks (remainders node.mt addr stop) x attributes := by
  unfold Tracks
  simp only [cut.trackers_perm.mem_iff, List.mem_append, or_and_right, exists_or]
  exact or_comm

end NodeCut

/-- Inserting an element that a filter rejects does not change what it selects. -/
theorem ahead_insertNode_mtb {mtb : Option TrackerNode}
    (ends : ∀ b ∈ mtb, b.mt.endAddr ≤ addr) (list : List TrackerNode) :
    ahead addr (insertNode mtb list) = ahead addr list := by
  cases mtb with
  | none => rfl
  | some b =>
      have rejected : ¬addr < b.mt.endAddr := Nat.not_lt.mpr (ends b rfl)
      unfold insertNode ahead
      induction list with
      | nil => exact List.filter_cons_of_neg (by simpa using rejected)
      | cons first rest inductionHypothesis =>
          dsimp only at inductionHypothesis ⊢
          unfold RangeQueue.insertBefore
          split
          · rw [List.filter_cons, List.filter_cons, inductionHypothesis]
          · rw [List.filter_cons_of_neg (by simpa using rejected)]

/-- The first tracker that ends behind the address is removed. -/
theorem ahead_erase (first : ahead addr list = node :: rest) :
    ahead addr (list.erase node) = rest := by
  induction list with
  | nil => cases first
  | cons other list inductionHypothesis =>
      by_cases ends : addr < other.mt.endAddr
      · rw [ahead, List.filter_cons_of_pos (by simpa using ends)] at first
        cases first
        rw [List.erase_cons_head]
        rfl
      · have late := (mem_ahead.mp (first ▸ List.mem_cons_self : node ∈ ahead addr _)).2
        have different : other ≠ node := fun same => ends (same ▸ late)
        rw [ahead, List.filter_cons_of_neg (by simpa using ends)] at first
        rw [List.erase_cons_tail (by simpa using different), ahead,
          List.filter_cons_of_neg (by simpa using ends)]
        exact inductionHypothesis first

/-! ## Ranges that do not wrap -/

/-- A round leaves either nothing to be found, or what it found is gone and the rest stays. -/
theorem round_ahead (long : Long s.list) (inOrder : NodesInOrder (ahead addr s.list))
    (less : addr < Word.add addr len) (found : findNode addr len s.list = some node)
    (cut : NodeCut memory pagesize s s' node addr (Word.add addr len)) :
    ∃ rest, ahead addr s.list = node :: rest ∧
      ((Word.add addr len < node.mt.endAddr ∧ findNode addr len s'.list = none) ∨
        (node.mt.endAddr ≤ Word.add addr len ∧ ahead addr s'.list = rest ∧
          s'.calls = s.calls + (trackerBefore node.mt addr).toList.length)) := by
  have mapped : findNode addr len s.list = _ := findNode_eq long
  rw [found] at mapped
  cases first : ahead addr s.list with
  | nil =>
      rw [first] at mapped
      cases mapped
  | cons head rest =>
      rw [first, List.head?_cons, Option.filter_some] at mapped
      split at mapped
      · cases mapped
        refine ⟨rest, rfl, ?_⟩
        obtain ⟨mtb, mte, isBefore, isAfter, list⟩ := cut.list
        have mtbEnds : ∀ b ∈ mtb, b.mt.endAddr ≤ addr := by
          intro b isSome
          have piece : b.mt ∈ trackerBefore node.mt addr := by
            rw [← isBefore]
            exact Option.mem_map_of_mem _ isSome
          obtain ⟨_, same⟩ := mem_trackerBefore.mp piece
          rw [same]
        have left : ahead addr (insertNode mtb (s.list.erase node)) = rest :=
          (ahead_insertNode_mtb mtbEnds _).trans (ahead_erase first)
        rcases Nat.lt_or_ge (Word.add addr len) node.mt.endAddr with ends | ends
        · refine Or.inl ⟨ends, findNode_eq_none (cut.long long) fun n member => ?_⟩
          obtain ⟨inList, late⟩ := mem_ahead.mp member
          rw [list] at inList
          rcases List.mem_append.mp ((insertNode_perm _ _).mem_iff.mp inList) with piece | old
          · have isPiece : n.mt ∈ trackerAfter node.mt (Word.add addr len) := by
              rw [← isAfter]
              exact Option.mem_map_of_mem _ (Option.mem_toList.mp piece)
            obtain ⟨_, same⟩ := mem_trackerAfter.mp isPiece
            rw [same]
            exact ⟨less, le_rfl⟩
          · have inRest : n ∈ rest := left ▸ mem_ahead.mpr ⟨old, late⟩
            have behind := (first ▸ inOrder : NodesInOrder (node :: rest)).head_le inRest
            omega
        · have noAfter : trackerAfter node.mt (Word.add addr len) = none :=
            if_neg (Nat.not_lt.mpr ends)
          have noMte : mte = none := by
            rw [noAfter] at isAfter
            exact Option.map_eq_none_iff.mp isAfter
          refine Or.inr ⟨ends, ?_, ?_⟩
          · rw [list, noMte]
            exact left
          · rw [cut.calls, noAfter]
            rfl
      · cases mapped

/-- The loop does not fail when nothing is found. -/
theorem not_failed_of_missing (missing : findNode addr len s.list = none) :
    unregisterNodesLoop memory pagesize addr len stop fuel s ≠ some (s', false) := by
  intro result
  cases fuel with
  | zero => cases result
  | succ fuel =>
      unfold unregisterNodesLoop at result
      rw [missing] at result
      cases result

/-- All trackers that end behind the address begin behind it. -/
structure Behind (addr : Nat) (list : List TrackerNode) : Prop where
  long : Long list
  inOrder : NodesInOrder (ahead addr list)
  behind : ∀ n ∈ ahead addr list, addr < n.mt.baseAddr

/-- It is so after a round. -/
theorem behind_of_ahead (long : Long s'.list) (inOrder : NodesInOrder (ahead addr s.list))
    (first : ahead addr s.list = node :: rest) (left : ahead addr s'.list = rest) :
    Behind addr s'.list := by
  have ordered : NodesInOrder (node :: rest) := first ▸ inOrder
  refine ⟨long, left ▸ ordered.tail, fun n member => ?_⟩
  have late := (mem_ahead.mp (first ▸ List.mem_cons_self : node ∈ ahead addr s.list)).2
  have := ordered.head_le (left ▸ member : n ∈ rest)
  omega

namespace Behind

variable (behind : Behind addr s.list)

include behind

theorem trackerBefore_eq (found : findNode addr len s.list = some node) :
    trackerBefore node.mt addr = none := by
  have := behind.behind node (mem_ahead.mpr ⟨findNode_mem found, (findNode_hits found).1⟩)
  exact if_neg (by omega)

/-- A later round fails only for the end of the tracker in which the range ends. -/
theorem of_failed (accepted : ¬Refused pagesize addr (Word.add addr len))
    (less : addr < Word.add addr len)
    (result : unregisterNodesLoop memory pagesize addr len (Word.add addr len) fuel s =
      some (s', false)) :
    ∃ v ∈ ahead addr s.list, v.mt.baseAddr < Word.add addr len ∧
      Word.add addr len < v.mt.endAddr ∧ memory.fails s.calls = true := by
  induction fuel generalizing s with
  | zero => cases result
  | succ fuel inductionHypothesis =>
      unfold unregisterNodesLoop at result
      cases found : findNode addr len s.list with
      | none =>
          rw [found] at result
          cases result
      | some node =>
          have hits := findNode_hits found
          have member := mem_ahead.mpr ⟨findNode_mem found, hits.1⟩
          have begins := behind.behind node member
          have noBefore := behind.trackerBefore_eq found
          rw [found] at result
          cases split : splitNode memory pagesize s node addr (Word.add addr len) with
          | mk s₁ done =>
              simp only [split] at result
              cases done with
              | false =>
                  obtain ⟨_, refused | ⟨left, _⟩ | ⟨left, failing⟩⟩ := splitNode_failed split
                  · exact absurd refused accepted
                  · rw [noBefore] at left
                    cases left
                  · obtain ⟨piece, isPiece⟩ := Option.isSome_iff_exists.mp left
                    rw [noBefore] at failing
                    exact ⟨node, member, by omega, (mem_trackerAfter.mp isPiece).1, failing⟩
              | true =>
                  have cut := splitNode_done split
                  obtain ⟨rest, first, ⟨_, missing⟩ | ⟨_, left, calls⟩⟩ :=
                    round_ahead behind.long behind.inOrder less found cut
                  · exact absurd result (not_failed_of_missing missing)
                  · obtain ⟨v, inRest, found⟩ := inductionHypothesis
                      (behind_of_ahead (cut.long behind.long) behind.inOrder first left) result
                    rw [calls, noBefore] at found
                    rw [left] at inRest
                    exact ⟨v, first ▸ List.mem_cons_of_mem node inRest, found⟩

/-- Where there is no memory for it, the loop fails. -/
theorem fails (less : addr < Word.add addr len) {v : TrackerNode}
    (member : v ∈ ahead addr s.list) (begins : v.mt.baseAddr < Word.add addr len)
    (ends : Word.add addr len < v.mt.endAddr)
    (failing : memory.fails s.calls = true) :
    ∃ fuel s', unregisterNodesLoop memory pagesize addr len (Word.add addr len) fuel s =
      some (s', false) ∧ ∀ n ∈ ahead addr s'.list, n ∈ ahead addr s.list := by
  induction found : ahead addr s.list generalizing s with
  | nil =>
      rw [found] at member
      cases member
  | cons head rest inductionHypothesis =>
      have ordered : NodesInOrder (head :: rest) := found ▸ behind.inOrder
      have headBegins : head.mt.baseAddr < Word.add addr len := by
        rcases List.mem_cons.mp (found ▸ member) with rfl | inRest
        · exact begins
        · have headLong := ordered.nonempty head List.mem_cons_self
          have := ordered.head_le inRest
          omega
      have search : findNode addr len s.list = some head := by
        rw [findNode_eq behind.long, found, List.head?_cons, Option.filter_some,
          if_pos (by simpa using Or.inr headBegins)]
      have noBefore := behind.trackerBefore_eq search
      cases split : splitNode memory pagesize s head addr (Word.add addr len) with
      | mk s₁ done =>
          cases done with
          | false =>
              refine ⟨1, s₁, ?_, fun n inAhead => ?_⟩
              · unfold unregisterNodesLoop
                simp only [search, split]
              · rw [(splitNode_failed split).1, found] at inAhead
                exact inAhead
          | true =>
              have cut := splitNode_done split
              obtain ⟨rest', first, ⟨past, _⟩ | ⟨within, left, calls⟩⟩ :=
                round_ahead behind.long behind.inOrder less search cut
              · -- the tracker in which the range ends could not have been cut
                have granted := cut.afterGranted (by
                  unfold trackerAfter
                  rw [if_pos past]
                  rfl)
                rw [noBefore] at granted
                exact absurd failing (by simpa using granted)
              · have sameRest : rest' = rest := by
                  rw [found] at first
                  cases first
                  rfl
                rw [sameRest] at left
                have inRest : v ∈ ahead addr s₁.list := by
                  rw [left]
                  rcases List.mem_cons.mp (found ▸ member) with rfl | inRest
                  · omega
                  · exact inRest
                rw [noBefore] at calls
                obtain ⟨fuel, s', result, kept⟩ := inductionHypothesis
                  (behind_of_ahead (cut.long behind.long) behind.inOrder found left) inRest
                  (by rw [calls]; exact failing) left
                refine ⟨fuel + 1, s', ?_, fun n inAhead => List.mem_cons_of_mem _ (kept n inAhead)⟩
                unfold unregisterNodesLoop
                simp only [search, split]
                exact result

end Behind

theorem Long.of_inOrder
    (inOrder : RangeQueue.InOrder MapTracker.baseAddr MapTracker.endAddr s.trackers) :
    Long s.list := (nodesInOrder inOrder).nonempty

theorem ahead_inOrder (addr : Nat)
    (inOrder : RangeQueue.InOrder MapTracker.baseAddr MapTracker.endAddr s.trackers) :
    NodesInOrder (ahead addr s.list) := (nodesInOrder inOrder).sublist List.filter_sublist

theorem toList_length_trackerBefore (mt : MapTracker) (addr : Nat) :
    (trackerBefore mt addr).toList.length = if mt.baseAddr < addr then 1 else 0 := by
  unfold trackerBefore
  split <;> rfl

/-- Only the first tracker that ends behind the address can begin before it. -/
theorem begins_before_iff (inOrder : NodesInOrder (ahead addr s.list))
    (first : ahead addr s.list = node :: rest) :
    (∃ u ∈ s.trackers, u.baseAddr < addr ∧ addr < u.endAddr) ↔ node.mt.baseAddr < addr := by
  have ordered : NodesInOrder (node :: rest) := first ▸ inOrder
  obtain ⟨inList, late⟩ := mem_ahead.mp (first ▸ List.mem_cons_self : node ∈ ahead addr s.list)
  constructor
  · rintro ⟨u, member, begins, ends⟩
    obtain ⟨n, inTrackers, rfl⟩ := List.mem_map.mp member
    have inAhead : n ∈ node :: rest := first ▸ mem_ahead.mpr ⟨inTrackers, ends⟩
    rcases List.mem_cons.mp inAhead with rfl | inRest
    · exact begins
    · have := ordered.head_le inRest
      omega
  · intro begins
    exact ⟨node.mt, List.mem_map_of_mem inList, begins, late⟩

/-- A range that does not wrap: unless the end of a later tracker lacks memory, a call that fails
does so in its first round. -/
theorem list_eq_of_failed
    (inOrder : RangeQueue.InOrder MapTracker.baseAddr MapTracker.endAddr s.trackers)
    (accepted : ¬Refused pagesize addr (Word.add addr len)) (less : addr < Word.add addr len)
    (result : unregisterNodesLoop memory pagesize addr len (Word.add addr len) fuel s =
      some (s', false))
    (enough : ¬FailsAtEnd memory s addr (Word.add addr len)) : s'.list = s.list := by
  have long := Long.of_inOrder inOrder
  have ordered := ahead_inOrder addr inOrder
  cases fuel with
  | zero => cases result
  | succ fuel =>
      unfold unregisterNodesLoop at result
      cases found : findNode addr len s.list with
      | none =>
          rw [found] at result
          cases result
      | some node =>
          rw [found] at result
          cases split : splitNode memory pagesize s node addr (Word.add addr len) with
          | mk s₁ done =>
              simp only [split] at result
              cases done with
              | false =>
                  cases result
                  exact (splitNode_failed split).1
              | true =>
                  have cut := splitNode_done split
                  obtain ⟨rest, first, ⟨_, missing⟩ | ⟨within, left, calls⟩⟩ :=
                    round_ahead long ordered less found cut
                  · exact absurd result (not_failed_of_missing missing)
                  · obtain ⟨v, inRest, begins, ends, failing⟩ :=
                      (behind_of_ahead (cut.long long) ordered first left).of_failed accepted less
                        result
                    rw [left] at inRest
                    obtain ⟨vMember, vLate⟩ := mem_ahead.mp
                      (first ▸ List.mem_cons_of_mem node inRest : v ∈ ahead addr s.list)
                    have nodeOrder : NodesInOrder (node :: rest) := first ▸ ordered
                    have nodeLong := long node (findNode_mem found)
                    have apart := nodeOrder.head_le inRest
                    rw [calls, toList_length_trackerBefore] at failing
                    refine absurd ⟨node.mt, List.mem_map_of_mem (findNode_mem found), v.mt,
                      List.mem_map_of_mem vMember, ⟨(findNode_hits found).1, by omega⟩,
                      ⟨vLate, begins⟩, apart, ends, ?_⟩ enough
                    by_cases before : node.mt.baseAddr < addr
                    · rw [if_pos before] at failing
                      rw [if_pos ((begins_before_iff ordered first).mpr before)]
                      refine ⟨cut.beforeGranted ?_, failing⟩
                      unfold trackerBefore
                      rw [if_pos before]
                      rfl
                    · rw [if_neg before] at failing
                      rw [if_neg fun some => before ((begins_before_iff ordered first).mp some)]
                      exact failing

/-- The tracker in which the range ends is behind the first one that ends behind its beginning. -/
theorem FailsAtEnd.first {stop : Nat}
    (inOrder : RangeQueue.InOrder MapTracker.baseAddr MapTracker.endAddr s.trackers)
    (fails : FailsAtEnd memory s addr stop) :
    ∃ node rest v, ahead addr s.list = node :: rest ∧ v ∈ rest ∧ v.mt.baseAddr < stop ∧
      stop < v.mt.endAddr ∧
      if node.mt.baseAddr < addr then
        memory.fails s.calls = false ∧ memory.fails (s.calls + 1) = true
      else memory.fails s.calls = true := by
  have long := Long.of_inOrder inOrder
  have ordered := ahead_inOrder addr inOrder
  obtain ⟨t, tMember, v, vMember, tOverlaps, ⟨vLate, vBegins⟩, apart, past, failing⟩ := fails
  obtain ⟨t, tList, rfl⟩ := List.mem_map.mp tMember
  obtain ⟨v, vList, rfl⟩ := List.mem_map.mp vMember
  have tAhead : t ∈ ahead addr s.list := mem_ahead.mpr ⟨tList, tOverlaps.1⟩
  have vAhead : v ∈ ahead addr s.list := mem_ahead.mpr ⟨vList, vLate⟩
  cases first : ahead addr s.list with
  | nil =>
      rw [first] at tAhead
      cases tAhead
  | cons node rest =>
      rw [first] at tAhead vAhead
      have nodeOrder : NodesInOrder (node :: rest) := first ▸ ordered
      have tLong := long t tList
      have vLong := long v vList
      simp only [begins_before_iff ordered first] at failing
      refine ⟨node, rest, v, rfl, ?_, vBegins, past, failing⟩
      rcases List.mem_cons.mp vAhead with rfl | inRest
      · rcases List.mem_cons.mp tAhead with rfl | tRest
        · omega
        · have := nodeOrder.head_le tRest
          omega
      · exact inRest

/-- And where it lacks memory, the call fails, and the first tracker that was overlapped is cut. -/
theorem FailsAtEnd.changes
    (inOrder : RangeQueue.InOrder MapTracker.baseAddr MapTracker.endAddr s.trackers)
    (accepted : ¬Refused pagesize addr (Word.add addr len)) (less : addr < Word.add addr len)
    (fails : FailsAtEnd memory s addr (Word.add addr len)) :
    ∃ fuel s', unregisterNodesLoop memory pagesize addr len (Word.add addr len) fuel s =
        some (s', false) ∧
      ∃ x attributes, Tracks s.trackers x attributes ∧ ¬Tracks s'.trackers x attributes := by
  have long := Long.of_inOrder inOrder
  have ordered := ahead_inOrder addr inOrder
  obtain ⟨node, rest, v, first, vRest, vBegins, past, failing⟩ := fails.first inOrder
  have nodeOrder : NodesInOrder (node :: rest) := first ▸ ordered
  obtain ⟨nodeMember, nodeLate⟩ :=
    mem_ahead.mp (first ▸ List.mem_cons_self : node ∈ ahead addr s.list)
  have nodeLong := long node nodeMember
  have vBehind := nodeOrder.head_le vRest
  have nodeBegins : node.mt.baseAddr < Word.add addr len := by omega
  have search : findNode addr len s.list = some node := by
    rw [findNode_eq long, first, List.head?_cons, Option.filter_some,
      if_pos (by simpa using Or.inr nodeBegins)]
  have noAfter : trackerAfter node.mt (Word.add addr len) = none := if_neg (by omega)
  cases split : splitNode memory pagesize s node addr (Word.add addr len) with
  | mk s₁ done =>
      cases done with
      | false =>
          obtain ⟨_, refused | ⟨left, refusal⟩ | ⟨left, _⟩⟩ := splitNode_failed split
          · exact absurd refused accepted
          · obtain ⟨piece, isPiece⟩ := Option.isSome_iff_exists.mp left
            rw [if_pos (mem_trackerBefore.mp isPiece).1, refusal] at failing
            cases failing.1
          · rw [noAfter] at left
            cases left
      | true =>
          have cut := splitNode_done split
          obtain ⟨rest', first', ⟨outside, _⟩ | ⟨_, left, calls⟩⟩ :=
            round_ahead long ordered less search cut
          · omega
          · have sameRest : rest' = rest := by
              rw [first] at first'
              cases first'
              rfl
            rw [sameRest] at left
            have later : memory.fails s₁.calls = true := by
              rw [calls, toList_length_trackerBefore]
              split at failing
              · rename_i before
                rw [if_pos before]
                exact failing.2
              · rename_i notBefore
                rw [if_neg notBefore]
                exact failing
            obtain ⟨fuel, s', result, kept⟩ :=
              (behind_of_ahead (cut.long long) ordered first left).fails less
                (left ▸ vRest) vBegins past later
            refine ⟨fuel + 1, s', ?_, max node.mt.baseAddr addr,
              (node.mt.type, node.mt.regionId), ?_, ?_⟩
            · unfold unregisterNodesLoop
              simp only [search, split]
              exact result
            · exact ⟨node.mt, List.mem_map_of_mem nodeMember, by omega, by omega, rfl⟩
            · rintro ⟨mt, member, lower, upper, _⟩
              obtain ⟨n, inList, rfl⟩ := List.mem_map.mp member
              have inRest : n ∈ rest :=
                left ▸ kept n (mem_ahead.mpr ⟨inList, by omega⟩)
              have := nodeOrder.head_le inRest
              omega

end Common
end Vmem
