import Vmem.Library.Cells
import Vmem.Common.MapTracker

/-!
# Trackers in memory

The elements of `Mmap_list` are obtained with `Malloc`, which may fail, and given back with
`Free`.  Here an element is a tracker with its address, and the calls of `Malloc` are counted.
What becomes of the trackers themselves is as in `MapTracker`.
-/

namespace Vmem
namespace Common

/-- An element of `Mmap_list`. -/
structure TrackerNode where
  ptr : Nat
  mt : MapTracker
  deriving DecidableEq

/-- The allocator behind `Malloc`: which calls fail, and where it finds memory that is not in
use. -/
structure TrackerMemory where
  fails : Nat → Bool
  fresh : List Cell → Nat
  unused : ∀ cells, fresh cells ∉ Cell.inUse cells

/-- The list and the heap. -/
structure TrackerHeap where
  /-- `Mmap_list`. -/
  list : List TrackerNode
  cells : List Cell
  /-- The number of calls of `Malloc` so far. -/
  calls : Nat
  deriving DecidableEq

variable (memory : TrackerMemory)

/-- `Malloc(sizeof(struct map_tracker))`. -/
def malloc (s : TrackerHeap) : Option Nat × TrackerHeap :=
  if memory.fails s.calls then (none, { s with calls := s.calls + 1 })
  else
    (some (memory.fresh s.cells),
      { s with cells := Cell.obtain s.cells (memory.fresh s.cells), calls := s.calls + 1 })

/-- `Free`. -/
def free (s : TrackerHeap) : Option Nat → TrackerHeap
  | none => s
  | some ptr => { s with cells := Cell.release s.cells ptr }

/-- `util_range_find_unlocked`. -/
def findNode (addr len : Nat) : List TrackerNode → Option TrackerNode
  | [] => none
  | node :: rest =>
      if addr < node.mt.endAddr ∧
          (addr ≥ node.mt.baseAddr ∨ Word.add addr len > node.mt.baseAddr) then some node
      else if addr < node.mt.baseAddr then none
      else findNode addr len rest

/-- `PMDK_SORTEDQ_INSERT` of a tracker, if there is one. -/
def insertNode (elm : Option TrackerNode) (list : List TrackerNode) : List TrackerNode :=
  match elm with
  | none => list
  | some elm => RangeQueue.insertBefore (fun it => utilRangeComparer it.mt elm.mt < 0) elm list

/-- Allocate a tracker for what is left of one, if something is left; `none` when `Malloc`
fails. -/
def makeRemainder (s : TrackerHeap) :
    Option MapTracker → Option (Option TrackerNode) × TrackerHeap
  | none => (some none, s)
  | some mt =>
      match malloc memory s with
      | (none, s) => (none, s)
      | (some ptr, s) => (some (some ⟨ptr, mt⟩), s)

/-- `addr` and `end` are refused by `util_range_split`. -/
def Refused (pagesize addr stop : Nat) : Prop :=
  addr = stop ∨ addr % pagesize ≠ 0 ∨ stop % pagesize ≠ 0

instance (pagesize addr stop : Nat) : Decidable (Refused pagesize addr stop) :=
  inferInstanceAs (Decidable (_ ∨ _ ∨ _))

/-- `util_range_split`; `true` when it returns 0. -/
def splitNode (pagesize : Nat) (s : TrackerHeap) (node : TrackerNode) (addr stop : Nat) :
    TrackerHeap × Bool :=
  if Refused pagesize addr stop then (s, false)
  else
    match makeRemainder memory s (trackerBefore node.mt addr) with
    | (none, s) => (s, false) -- both pointers are still NULL
    | (some mtb, s) =>
        match makeRemainder memory s (trackerAfter node.mt stop) with
        | (none, s) => (free s (mtb.map (·.ptr)), false)
        | (some mte, s) =>
            (free { s with list := insertNode mte (insertNode mtb (s.list.erase node)) }
              (some node.ptr), true)

/-- The loop of `util_range_unregister`; `none` when the fuel is not enough. -/
def unregisterNodesLoop (pagesize addr len stop : Nat) :
    Nat → TrackerHeap → Option (TrackerHeap × Bool)
  | 0, _ => none
  | fuel + 1, s =>
      match findNode addr len s.list with
      | none => some (s, true)
      | some node =>
          match splitNode memory pagesize s node addr stop with
          | (s, false) => some (s, false)
          | (s, true) => unregisterNodesLoop pagesize addr len stop fuel s

/-- `util_range_unregister`; `true` when it returns 0. -/
def unregisterNodes (pagesize : Nat) (s : TrackerHeap) (addr len fuel : Nat) :
    Option (TrackerHeap × Bool) :=
  let len := Word.ceil len pagesize -- PAGE_ALIGNED_UP_SIZE
  unregisterNodesLoop memory pagesize addr len (Word.add addr len) fuel s

/-- The trackers of the list. -/
def TrackerHeap.trackers (s : TrackerHeap) : List MapTracker := s.list.map (·.mt)

/-- The memory in use is that of the list and of `others`, and nothing was freed twice. -/
structure Accounts (others : List Nat) (s : TrackerHeap) : Prop where
  sound : Cell.Sound s.cells
  inUse : (Cell.inUse s.cells).Perm (s.list.map (·.ptr) ++ others)

variable {memory} {s s' : TrackerHeap} {node : TrackerNode} {list : List TrackerNode}
  {addr len stop pagesize : Nat} {others : List Nat}

/-! ## What a round does -/

theorem findNode_map (addr len : Nat) (list : List TrackerNode) :
    (findNode addr len list).map (·.mt) = utilRangeFindUnlocked addr len (list.map (·.mt)) := by
  induction list with
  | nil => rfl
  | cons first rest inductionHypothesis =>
      rw [List.map_cons]
      unfold findNode utilRangeFindUnlocked
      split_ifs
      · rfl
      · rfl
      · exact inductionHypothesis

theorem findNode_mem (found : findNode addr len list = some node) : node ∈ list := by
  induction list with
  | nil => cases found
  | cons first rest inductionHypothesis =>
      unfold findNode at found
      split at found
      · cases found
        exact List.mem_cons_self
      · split at found
        · cases found
        · exact List.mem_cons_of_mem first (inductionHypothesis found)

theorem insertNode_perm (elm : Option TrackerNode) (list : List TrackerNode) :
    (insertNode elm list).Perm (elm.toList ++ list) := by
  cases elm with
  | none => exact List.Perm.refl _
  | some elm => exact RangeQueue.insertBefore_perm ..

/-- A remainder was allocated, or nothing was left. -/
structure Made (memory : TrackerMemory) (s s' : TrackerHeap) (piece : Option MapTracker)
    (made : Option TrackerNode) : Prop where
  tracker : made.map (·.mt) = piece
  list : s'.list = s.list
  calls : s'.calls = s.calls + piece.toList.length
  granted : piece.isSome = true → memory.fails s.calls = false
  sound : Cell.Sound s.cells → Cell.Sound s'.cells
  inUse : Cell.inUse s'.cells = made.toList.map (·.ptr) ++ Cell.inUse s.cells

theorem makeRemainder_some {piece : Option MapTracker} {made : Option TrackerNode}
    (makes : makeRemainder memory s piece = (some made, s')) : Made memory s s' piece made := by
  cases piece with
  | none =>
      cases makes
      exact ⟨rfl, rfl, rfl, fun never => Bool.noConfusion never, id, rfl⟩
  | some mt =>
      dsimp only [makeRemainder, malloc] at makes
      by_cases failing : memory.fails s.calls = true
      · rw [if_pos failing] at makes
        cases makes
      · rw [if_neg failing] at makes
        cases makes
        exact ⟨rfl, rfl, rfl, fun _ => Bool.eq_false_of_not_eq_true failing,
          fun sound => sound.obtain (memory.unused _), Cell.inUse_obtain⟩

theorem makeRemainder_none {piece : Option MapTracker}
    (fails : makeRemainder memory s piece = (none, s')) :
    s'.list = s.list ∧ s'.cells = s.cells ∧ piece.isSome = true ∧
      memory.fails s.calls = true := by
  cases piece with
  | none => cases fails
  | some mt =>
      dsimp only [makeRemainder, malloc] at fails
      by_cases failing : memory.fails s.calls = true
      · rw [if_pos failing] at fails
        cases fails
        exact ⟨rfl, rfl, rfl, failing⟩
      · rw [if_neg failing] at fails
        cases fails

/-- `util_range_split` has cut a tracker. -/
structure NodeCut (memory : TrackerMemory) (pagesize : Nat) (s s' : TrackerHeap)
    (node : TrackerNode) (addr stop : Nat) : Prop where
  accepted : ¬Refused pagesize addr stop
  beforeGranted : (trackerBefore node.mt addr).isSome = true → memory.fails s.calls = false
  afterGranted : (trackerAfter node.mt stop).isSome = true →
    memory.fails (s.calls + (trackerBefore node.mt addr).toList.length) = false
  calls : s'.calls = s.calls + (trackerBefore node.mt addr).toList.length +
    (trackerAfter node.mt stop).toList.length
  list : ∃ mtb mte, mtb.map (·.mt) = trackerBefore node.mt addr ∧
    mte.map (·.mt) = trackerAfter node.mt stop ∧
    s'.list = insertNode mte (insertNode mtb (s.list.erase node))

theorem splitNode_done (split : splitNode memory pagesize s node addr stop = (s', true)) :
    NodeCut memory pagesize s s' node addr stop := by
  unfold splitNode at split
  split at split
  · cases split
  · rename_i accepted
    split at split
    · cases split
    · rename_i mtb s₁ makesBefore
      have before := makeRemainder_some makesBefore
      split at split
      · cases split
      · rename_i mte s₂ makesAfter
        have after := makeRemainder_some makesAfter
        cases split
        refine ⟨accepted, before.granted, ?_, ?_, mtb, mte, before.tracker, after.tracker, ?_⟩
        · rw [← before.calls]
          exact after.granted
        · exact after.calls.trans (congrArg (· + _) before.calls)
        · change insertNode mte (insertNode mtb (s₂.list.erase node)) = _
          rw [after.list, before.list]

/-- A round in which nothing changes, and why. -/
theorem splitNode_failed (split : splitNode memory pagesize s node addr stop = (s', false)) :
    s'.list = s.list ∧ (Refused pagesize addr stop ∨
      ((trackerBefore node.mt addr).isSome = true ∧ memory.fails s.calls = true) ∨
      ((trackerAfter node.mt stop).isSome = true ∧
        memory.fails (s.calls + (trackerBefore node.mt addr).toList.length) = true)) := by
  unfold splitNode at split
  split at split
  · rename_i refused
    cases split
    exact ⟨rfl, Or.inl refused⟩
  · split at split
    · rename_i s₁ makesBefore
      obtain ⟨same, _, left, failing⟩ := makeRemainder_none makesBefore
      cases split
      exact ⟨same, Or.inr (Or.inl ⟨left, failing⟩)⟩
    · rename_i mtb s₁ makesBefore
      have before := makeRemainder_some makesBefore
      split at split
      · rename_i s₂ makesAfter
        obtain ⟨same, _, left, failing⟩ := makeRemainder_none makesAfter
        cases split
        rw [before.calls] at failing
        refine ⟨?_, Or.inr (Or.inr ⟨left, failing⟩)⟩
        cases mtb with
        | none => exact same.trans before.list
        | some made => exact same.trans before.list
      · cases split

/-- Giving back what was made for a remainder leaves the heap in use as it was. -/
theorem Made.free_accounts {piece : Option MapTracker} {made : Option TrackerNode}
    {s₁ s₂ : TrackerHeap} (makes : Made memory s s₁ piece made) (list : s₂.list = s₁.list)
    (cells : s₂.cells = s₁.cells) (accounts : Accounts others s) :
    Accounts others (free s₂ (made.map (·.ptr))) := by
  have sound := makes.sound accounts.sound
  have used := makes.inUse
  cases made with
  | none =>
      refine ⟨cells ▸ sound, ?_⟩
      change (Cell.inUse s₂.cells).Perm (s₂.list.map _ ++ others)
      rw [cells, list, used, makes.list]
      exact accounts.inUse
  | some made =>
      have inUse : made.ptr ∈ Cell.inUse s₁.cells := by
        rw [used]
        exact List.mem_cons_self
      constructor
      · change Cell.Sound (Cell.release s₂.cells made.ptr)
        rw [cells]
        exact sound.release inUse
      · change (Cell.inUse (Cell.release s₂.cells made.ptr)).Perm (s₂.list.map _ ++ others)
        rw [cells, list, makes.list, sound.inUse_release inUse, used]
        change ((made.ptr :: Cell.inUse s.cells).erase made.ptr).Perm _
        rw [List.erase_cons_head]
        exact accounts.inUse

/-- A round keeps account of the memory. -/
theorem splitNode_accounts (accounts : Accounts others s) (member : node ∈ s.list) {done : Bool}
    (split : splitNode memory pagesize s node addr stop = (s', done)) : Accounts others s' := by
  unfold splitNode at split
  split at split
  · cases split
    exact accounts
  · split at split
    · rename_i s₁ makesBefore
      obtain ⟨list, cells, _⟩ := makeRemainder_none makesBefore
      cases split
      exact ⟨cells ▸ accounts.sound, by rw [cells, list]; exact accounts.inUse⟩
    · rename_i mtb s₁ makesBefore
      have before := makeRemainder_some makesBefore
      split at split
      · rename_i s₂ makesAfter
        obtain ⟨list, cells, _⟩ := makeRemainder_none makesAfter
        cases split
        exact before.free_accounts list cells accounts
      · rename_i mte s₂ makesAfter
        have after := makeRemainder_some makesAfter
        cases split
        have sound := after.sound (before.sound accounts.sound)
        have used : (Cell.inUse s₂.cells).Perm (node.ptr ::
            (mte.toList ++ (mtb.toList ++ s.list.erase node)).map (·.ptr) ++ others) := by
          have old := ((List.perm_cons_erase member).map (·.ptr)).append_right others
          rw [after.inUse, before.inUse, List.map_append, List.map_append, List.cons_append]
          refine ((accounts.inUse.trans old).append_left _ |>.append_left _).trans ?_
          rw [List.map_cons, List.cons_append, List.append_assoc, List.append_assoc]
          exact (List.perm_middle.append_left _).trans List.perm_middle
        have inUse : node.ptr ∈ Cell.inUse s₂.cells := used.mem_iff.mpr List.mem_cons_self
        constructor
        · exact sound.release inUse
        · change (Cell.inUse (Cell.release s₂.cells node.ptr)).Perm
            ((insertNode mte (insertNode mtb (s₂.list.erase node))).map (·.ptr) ++ others)
          rw [sound.inUse_release inUse, after.list, before.list]
          refine (used.erase node.ptr).trans ?_
          rw [List.cons_append, List.erase_cons_head]
          refine List.Perm.append_right others (List.Perm.map _ ?_)
          exact ((insertNode_perm mtb _).append_left _).symm.trans (insertNode_perm mte _).symm

/-- So does the whole call. -/
theorem unregisterNodesLoop_accounts {fuel : Nat} {done : Bool} (accounts : Accounts others s)
    (result : unregisterNodesLoop memory pagesize addr len stop fuel s = some (s', done)) :
    Accounts others s' := by
  induction fuel generalizing s with
  | zero => cases result
  | succ fuel inductionHypothesis =>
      unfold unregisterNodesLoop at result
      split at result
      · cases result
        exact accounts
      · rename_i node found
        split at result
        · rename_i s₁ split
          cases result
          exact splitNode_accounts accounts (findNode_mem found) split
        · rename_i s₁ split
          exact inductionHypothesis (splitNode_accounts accounts (findNode_mem found) split) result

/-! ## The trackers alone -/

theorem findNode_hits (found : findNode addr len list = some node) : addr < node.mt.endAddr ∧
    (addr ≥ node.mt.baseAddr ∨ Word.add addr len > node.mt.baseAddr) := by
  have mapped := findNode_map addr len list
  rw [found] at mapped
  exact (find_some mapped.symm).2

/-- The tracker that is found is the first of its kind. -/
theorem map_erase_found (found : findNode addr len list = some node) :
    (list.erase node).map (·.mt) = (list.map (·.mt)).erase node.mt := by
  have hits := findNode_hits found
  induction list with
  | nil => rfl
  | cons first rest inductionHypothesis =>
      unfold findNode at found
      split at found
      · cases found
        rw [List.erase_cons_head, List.map_cons, List.erase_cons_head]
      · rename_i misses
        have other : first.mt ≠ node.mt := fun same => misses (same ▸ hits)
        split at found
        · cases found
        · rw [List.erase_cons_tail (by simpa using fun same => other (congrArg _ same)),
            List.map_cons, List.map_cons, List.erase_cons_tail (by simpa using other),
            inductionHypothesis found]

theorem insertNode_map (elm : Option TrackerNode) (list : List TrackerNode) :
    (insertNode elm list).map (·.mt) = insertSome (elm.map (·.mt)) (list.map (·.mt)) := by
  cases elm with
  | none => rfl
  | some elm =>
      exact RangeQueue.map_insertBefore (·.mt) (fun it => utilRangeComparer it elm.mt < 0) elm list

/-- A round on the heap is a round on the trackers. -/
theorem splitNode_refines {done : Bool} (found : findNode addr len s.list = some node)
    (split : splitNode memory pagesize s node addr stop = (s', done)) :
    utilRangeSplit pagesize s.trackers node.mt addr stop (memory.fails s.calls)
      (memory.fails (s.calls + (trackerBefore node.mt addr).toList.length)) =
        (s'.trackers, done) := by
  unfold utilRangeSplit
  cases done with
  | false =>
      obtain ⟨same, reason⟩ := splitNode_failed split
      have trackers : s'.trackers = s.trackers :=
        congrArg (List.map fun n : TrackerNode => n.mt) same
      rw [trackers]
      rcases reason with refused | noBefore | noAfter
      · exact if_pos refused
      · split_ifs <;> rfl
      · split_ifs <;> rfl
  | true =>
      obtain ⟨accepted, beforeGranted, afterGranted, _, mtb, mte, isBefore, isAfter, list⟩ :=
        splitNode_done split
      unfold Refused at accepted
      rw [if_neg accepted, if_neg, if_neg]
      · unfold TrackerHeap.trackers
        rw [list, insertNode_map, insertNode_map, isBefore, isAfter, map_erase_found found]
      · rintro ⟨left, failing⟩
        rw [afterGranted left] at failing
        cases failing
      · rintro ⟨left, failing⟩
        rw [beforeGranted left] at failing
        cases failing

/-- What happens to a loop is decided by the outcomes for the fuel that it can use. -/
theorem unregisterLoop_congr {mallocs mallocs' : Nat → Bool × Bool} {fuel : Nat}
    (same : ∀ n < fuel, mallocs n = mallocs' n) (trackers : List MapTracker) :
    unregisterLoop pagesize addr len stop mallocs fuel trackers =
      unregisterLoop pagesize addr len stop mallocs' fuel trackers := by
  induction fuel generalizing trackers with
  | zero => rfl
  | succ fuel inductionHypothesis =>
      have rest := inductionHypothesis fun n less => same n (by omega)
      unfold unregisterLoop
      rw [same fuel (Nat.lt_succ_self fuel)]
      simp only [rest]

/-- `util_range_unregister` on the heap does to the trackers what it does to a list of
trackers. -/
theorem unregisterNodes_refines (memory : TrackerMemory) (pagesize addr len fuel : Nat)
    (s : TrackerHeap) : ∃ mallocs, utilRangeUnregister pagesize s.trackers addr len mallocs fuel =
      (unregisterNodes memory pagesize s addr len fuel).map fun r => (r.1.trackers, r.2) := by
  unfold utilRangeUnregister unregisterNodes
  dsimp only
  generalize Word.ceil len pagesize = len
  generalize Word.add addr len = stop
  induction fuel generalizing s with
  | zero => exact ⟨allocated, rfl⟩
  | succ fuel inductionHypothesis =>
      unfold unregisterLoop unregisterNodesLoop
      have mapped := findNode_map addr len s.list
      cases found : findNode addr len s.list with
      | none =>
          rw [found] at mapped
          change none = utilRangeFindUnlocked addr len s.trackers at mapped
          rw [← mapped]
          exact ⟨allocated, rfl⟩
      | some node =>
          rw [found] at mapped
          change some node.mt = utilRangeFindUnlocked addr len s.trackers at mapped
          rw [← mapped]
          cases split : splitNode memory pagesize s node addr stop with
          | mk s₁ done =>
              have round := splitNode_refines found split
              obtain ⟨mallocs, rest⟩ := inductionHypothesis s₁
              -- the outcomes of this round are put before those of the rest
              refine ⟨fun n => if n = fuel then (memory.fails s.calls, memory.fails (s.calls +
                (trackerBefore node.mt addr).toList.length)) else mallocs n, ?_⟩
              dsimp only
              rw [if_pos rfl, round]
              cases done with
              | false =>
                  rw [split]
                  rfl
              | true =>
                  dsimp only
                  rw [split, ← rest]
                  exact unregisterLoop_congr (fun n less => if_neg (Nat.ne_of_lt less)) _

end Common
end Vmem
