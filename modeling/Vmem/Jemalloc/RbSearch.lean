import Vmem.Jemalloc.RbHeap

/-!
# Searching a linked tree

The loops that walk down the links find what a scan of the ordered list of nodes finds.
-/

namespace Vmem
namespace Jemalloc
namespace Rb

open LeftLeaning (BinTree Frame Fits plug probeFor)
open OrderedTree (Sorted)

variable {nil : Ptr} {links : Links} {κ : Type} [LinearOrder κ] {key : Ptr → κ}

/-! ## Scans of ordered lists -/

/-- A scan from the right. -/
def findLast (accept : Ptr → Bool) (nodes : List Ptr) : Option Ptr := nodes.reverse.find? accept

theorem findLast_append (accept : Ptr → Bool) (before after : List Ptr) :
    findLast accept (before ++ after) = (findLast accept after).or (findLast accept before) := by
  rw [findLast, List.reverse_append, List.find?_append]
  rfl

theorem findLast_cons (accept : Ptr → Bool) (node : Ptr) (after : List Ptr) :
    findLast accept (node :: after) =
      (findLast accept after).or (if accept node then some node else none) := by
  rw [findLast, List.reverse_cons, List.find?_append, List.find?_singleton]
  rfl

theorem findLast_eq_none {accept : Ptr → Bool} {nodes : List Ptr}
    (refused : ∀ node ∈ nodes, accept node = false) : findLast accept nodes = none := by
  rw [findLast, List.find?_eq_none]
  intro node member
  rw [refused node (List.mem_reverse.mp member)]
  simp

theorem find?_eq_none_of {accept : Ptr → Bool} {nodes : List Ptr}
    (refused : ∀ node ∈ nodes, accept node = false) : nodes.find? accept = none := by
  rw [List.find?_eq_none]
  intro node member
  rw [refused node member]
  simp

/-- What an ordered tree says about its root. -/
theorem sorted_node {left right : BinTree Ptr} {root : Ptr} {red : Bool}
    (sorted : Sorted key (BinTree.node left root red right).nodes) :
    Sorted key left.nodes ∧ Sorted key right.nodes ∧
      (∀ node ∈ left.nodes, key node < key root) ∧ ∀ node ∈ right.nodes, key root < key node := by
  obtain ⟨leftSorted, rootSorted, leftSmaller⟩ := List.pairwise_append.mp sorted
  obtain ⟨rightLarger, rightSorted⟩ := List.pairwise_cons.mp rootSorted
  exact ⟨leftSorted, rightSorted, fun node member =>
    leftSmaller node member root List.mem_cons_self, rightLarger⟩

/-! ## The loops -/

theorem searchLoop_holds {wanted : κ} {node : Ptr} {tree : BinTree Ptr} {passes : Nat}
    (holds : Holds nil links tree node) (sorted : Sorted key tree.nodes)
    (enough : tree.depth < passes) :
    searchLoop nil (probeFor key wanted) links passes node =
      some ((OrderedTree.search key wanted tree.nodes).getD nil) := by
  induction tree generalizing node passes with
  | nil =>
      cases passes with
      | zero => exact absurd enough (by omega)
      | succ passes =>
          rw [holds_nil] at holds
          rw [searchLoop, if_pos holds]
          rfl
  | node left root red right leftHypothesis rightHypothesis =>
      obtain ⟨rfl, notNil, _, leftHolds, rightHolds⟩ := holds
      obtain ⟨leftSorted, rightSorted, leftSmaller, rightLarger⟩ := sorted_node sorted
      rw [BinTree.depth] at enough
      cases passes with
      | zero => exact absurd enough (by omega)
      | succ passes =>
          rw [searchLoop, if_neg notNil, probeFor]
          unfold OrderedTree.search at leftHypothesis rightHypothesis ⊢
          rw [BinTree.nodes_node, List.find?_append, List.find?_cons]
          rcases lt_trichotomy wanted (key node) with less | same | greater
          · have rightNone : right.nodes.find? (fun other => decide (key other = wanted)) = none :=
              find?_eq_none_of fun other member =>
                decide_eq_false (ne_of_gt (less.trans (rightLarger other member)))
            rw [compare_lt_iff_lt.mpr less, decide_eq_false (ne_of_gt less), rightNone,
              Option.or_none]
            exact leftHypothesis leftHolds leftSorted (by omega)
          · have leftNone : left.nodes.find? (fun other => decide (key other = wanted)) = none :=
              find?_eq_none_of fun other member =>
                decide_eq_false (by rw [same]; exact ne_of_lt (leftSmaller other member))
            rw [compare_eq_iff_eq.mpr same, decide_eq_true same.symm, leftNone]
            rfl
          · have leftNone : left.nodes.find? (fun other => decide (key other = wanted)) = none :=
              find?_eq_none_of fun other member =>
                decide_eq_false (ne_of_lt ((leftSmaller other member).trans greater))
            rw [compare_gt_iff_gt.mpr greater, decide_eq_false (ne_of_lt greater), leftNone,
              Option.none_or]
            exact rightHypothesis rightHolds rightSorted (by omega)

theorem nsearchLoop_holds {wanted : κ} {node ret : Ptr} {tree : BinTree Ptr} {passes : Nat}
    (holds : Holds nil links tree node) (sorted : Sorted key tree.nodes)
    (enough : tree.depth < passes) :
    nsearchLoop nil (probeFor key wanted) links passes node ret =
      some ((OrderedTree.nsearch key wanted tree.nodes).getD ret) := by
  induction tree generalizing node ret passes with
  | nil =>
      cases passes with
      | zero => exact absurd enough (by omega)
      | succ passes =>
          rw [holds_nil] at holds
          rw [nsearchLoop, if_pos holds]
          rfl
  | node left root red right leftHypothesis rightHypothesis =>
      obtain ⟨rfl, notNil, _, leftHolds, rightHolds⟩ := holds
      obtain ⟨leftSorted, rightSorted, leftSmaller, _⟩ := sorted_node sorted
      rw [BinTree.depth] at enough
      cases passes with
      | zero => exact absurd enough (by omega)
      | succ passes =>
          rw [nsearchLoop, if_neg notNil, probeFor]
          unfold OrderedTree.nsearch at leftHypothesis rightHypothesis ⊢
          rw [BinTree.nodes_node, List.find?_append, List.find?_cons]
          rcases lt_trichotomy wanted (key node) with less | same | greater
          · rw [compare_lt_iff_lt.mpr less, decide_eq_true less.le, Option.getD_or]
            exact leftHypothesis leftHolds leftSorted (by omega)
          · have leftNone : left.nodes.find? (fun other => decide (wanted ≤ key other)) = none :=
              find?_eq_none_of fun other member =>
                decide_eq_false (by rw [same]; exact not_le.mpr (leftSmaller other member))
            rw [compare_eq_iff_eq.mpr same, decide_eq_true same.le, leftNone]
            rfl
          · have leftNone : left.nodes.find? (fun other => decide (wanted ≤ key other)) = none :=
              find?_eq_none_of fun other member =>
                decide_eq_false (not_le.mpr ((leftSmaller other member).trans greater))
            rw [compare_gt_iff_gt.mpr greater, decide_eq_false (not_le.mpr greater), leftNone,
              Option.none_or]
            exact rightHypothesis rightHolds rightSorted (by omega)

theorem psearchLoop_holds {wanted : κ} {node ret : Ptr} {tree : BinTree Ptr} {passes : Nat}
    (holds : Holds nil links tree node) (sorted : Sorted key tree.nodes)
    (enough : tree.depth < passes) :
    psearchLoop nil (probeFor key wanted) links passes node ret =
      some ((findLast (fun other => key other ≤ wanted) tree.nodes).getD ret) := by
  induction tree generalizing node ret passes with
  | nil =>
      cases passes with
      | zero => exact absurd enough (by omega)
      | succ passes =>
          rw [holds_nil] at holds
          rw [psearchLoop, if_pos holds]
          rfl
  | node left root red right leftHypothesis rightHypothesis =>
      obtain ⟨rfl, notNil, _, leftHolds, rightHolds⟩ := holds
      obtain ⟨leftSorted, rightSorted, _, rightLarger⟩ := sorted_node sorted
      rw [BinTree.depth] at enough
      cases passes with
      | zero => exact absurd enough (by omega)
      | succ passes =>
          rw [psearchLoop, if_neg notNil, probeFor, BinTree.nodes_node, findLast_append,
            findLast_cons]
          rcases lt_trichotomy wanted (key node) with less | same | greater
          · have rightNone : findLast (fun other => decide (key other ≤ wanted)) right.nodes =
                none := findLast_eq_none fun other member =>
              decide_eq_false (not_le.mpr (less.trans (rightLarger other member)))
            rw [compare_lt_iff_lt.mpr less, decide_eq_false (not_le.mpr less), rightNone]
            exact leftHypothesis leftHolds leftSorted (by omega)
          · have rightNone : findLast (fun other => decide (key other ≤ wanted)) right.nodes =
                none := findLast_eq_none fun other member =>
              decide_eq_false (by rw [same]; exact not_le.mpr (rightLarger other member))
            rw [compare_eq_iff_eq.mpr same, decide_eq_true same.ge, rightNone]
            rfl
          · rw [compare_gt_iff_gt.mpr greater, decide_eq_true greater.le, if_pos rfl,
              Option.getD_or, Option.getD_or]
            exact rightHypothesis rightHolds rightSorted (by omega)

theorem rbtnFirst_holds {node : Ptr} {tree : BinTree Ptr} {passes : Nat}
    (holds : Holds nil links tree node) (enough : tree.depth < passes) :
    rbtnFirst nil links passes node = some (tree.nodes.head?.getD nil) := by
  induction tree generalizing node passes with
  | nil =>
      cases passes with
      | zero => exact absurd enough (by omega)
      | succ passes =>
          rw [holds_nil] at holds
          rw [rbtnFirst, if_pos holds]
          rfl
  | node left root red right leftHypothesis _ =>
      obtain ⟨rfl, notNil, _, leftHolds, _⟩ := holds
      rw [BinTree.depth] at enough
      cases passes with
      | zero => exact absurd enough (by omega)
      | succ passes =>
          rw [rbtnFirst, if_neg notNil]
          split
          · next ends =>
              rw [leftHolds.eq_nil_iff.mp ends]
              rfl
          · next goesOn =>
              rw [leftHypothesis leftHolds (by omega)]
              cases left with
              | nil => exact absurd leftHolds goesOn
              | node =>
                  rw [BinTree.nodes_node, List.head?_append]
                  simp

theorem rbtnLast_holds {node : Ptr} {tree : BinTree Ptr} {passes : Nat}
    (holds : Holds nil links tree node) (enough : tree.depth < passes) :
    rbtnLast nil links passes node = some (tree.nodes.getLast?.getD nil) := by
  induction tree generalizing node passes with
  | nil =>
      cases passes with
      | zero => exact absurd enough (by omega)
      | succ passes =>
          rw [holds_nil] at holds
          rw [rbtnLast, if_pos holds]
          rfl
  | node left root red right _ rightHypothesis =>
      obtain ⟨rfl, notNil, _, _, rightHolds⟩ := holds
      rw [BinTree.depth] at enough
      cases passes with
      | zero => exact absurd enough (by omega)
      | succ passes =>
          rw [rbtnLast, if_neg notNil]
          split
          · next ends =>
              rw [rightHolds.eq_nil_iff.mp ends]
              simp
          · next goesOn =>
              rw [rightHypothesis rightHolds (by omega)]
              cases right with
              | nil => exact absurd rightHolds goesOn
              | node below middle colour above =>
                  have notEmpty : (BinTree.node below middle colour above).nodes ≠ [] := by simp
                  rw [BinTree.nodes_node left, List.append_cons, List.getLast?_append,
                    List.getLast?_eq_some_getLast notEmpty]
                  rfl

/-- The links at a node of a held tree. -/
theorem Holds.subtree {tree : BinTree Ptr} {top node : Ptr} (holds : Holds nil links tree top)
    (member : node ∈ tree.nodes) :
    ∃ before left red right after,
      tree.nodes = before ++ (left.nodes ++ node :: right.nodes) ++ after ∧
        Holds nil links (.node left node red right) node ∧
        left.depth < tree.depth ∧ right.depth < tree.depth := by
  induction tree generalizing top with
  | nil => simp at member
  | node below root red above belowHypothesis aboveHypothesis =>
      obtain ⟨rfl, notNil, colour, belowHolds, aboveHolds⟩ := holds
      rcases List.mem_append.mp member with inBelow | rest
      · obtain ⟨before, left, red', right, after, split, subHolds, leftDepth, rightDepth⟩ :=
          belowHypothesis belowHolds inBelow
        refine ⟨before, left, red', right, after ++ top :: above.nodes, ?_, subHolds, ?_, ?_⟩
        · rw [BinTree.nodes_node, split, List.append_assoc _ after]
        · rw [BinTree.depth]
          omega
        · rw [BinTree.depth]
          omega
      · rcases List.mem_cons.mp rest with rfl | inAbove
        · refine ⟨[], below, red, above, [], by simp,
            ⟨rfl, notNil, colour, belowHolds, aboveHolds⟩, ?_, ?_⟩
          · rw [BinTree.depth]
            omega
          · rw [BinTree.depth]
            omega
        · obtain ⟨before, left, red', right, after, split, subHolds, leftDepth, rightDepth⟩ :=
            aboveHypothesis aboveHolds inAbove
          refine ⟨below.nodes ++ top :: before, left, red', right, after, ?_, subHolds, ?_, ?_⟩
          · rw [BinTree.nodes_node, split]
            simp
          · rw [BinTree.depth]
            omega
          · rw [BinTree.depth]
            omega

theorem nextLoop_holds {node tnode ret : Ptr} {tree : BinTree Ptr} {passes : Nat}
    (holds : Holds nil links tree tnode) (sorted : Sorted key tree.nodes)
    (member : node ∈ tree.nodes) (noRight : links.rightGet node = nil)
    (enough : tree.depth < passes) :
    nextLoop nil (probeFor key (key node)) links passes tnode ret =
      some ((tree.nodes.find? fun other => key node < key other).getD ret) := by
  induction tree generalizing tnode ret passes with
  | nil => simp at member
  | node left root red right leftHypothesis rightHypothesis =>
      obtain ⟨rfl, notNil, _, leftHolds, rightHolds⟩ := holds
      obtain ⟨leftSorted, rightSorted, leftSmaller, rightLarger⟩ := sorted_node sorted
      rw [BinTree.depth] at enough
      cases passes with
      | zero => exact absurd enough (by omega)
      | succ passes =>
          rw [nextLoop, if_neg notNil, probeFor, BinTree.nodes_node, List.find?_append,
            List.find?_cons]
          rcases List.mem_append.mp member with inLeft | rest
          · have less := leftSmaller node inLeft
            rw [compare_lt_iff_lt.mpr less, decide_eq_true less, Option.getD_or]
            exact leftHypothesis leftHolds leftSorted inLeft (by omega)
          · have leftNone : key tnode ≤ key node →
                left.nodes.find? (fun other => decide (key node < key other)) = none :=
              fun reaches => find?_eq_none_of fun other inLeft =>
                decide_eq_false (not_lt.mpr ((leftSmaller other inLeft).trans_le reaches).le)
            rcases List.mem_cons.mp rest with rfl | inRight
            · rw [noRight] at rightHolds
              rw [compare_eq_iff_eq.mpr rfl, decide_eq_false (lt_irrefl _), leftNone le_rfl,
                rightHolds.eq_nil_iff.mp rfl]
              rfl
            · have greater := rightLarger node inRight
              rw [compare_gt_iff_gt.mpr greater, decide_eq_false (not_lt.mpr greater.le),
                leftNone greater.le, Option.none_or]
              exact rightHypothesis rightHolds rightSorted inRight (by omega)

theorem prevLoop_holds {node tnode ret : Ptr} {tree : BinTree Ptr} {passes : Nat}
    (holds : Holds nil links tree tnode) (sorted : Sorted key tree.nodes)
    (member : node ∈ tree.nodes) (noLeft : links.leftGet node = nil)
    (enough : tree.depth < passes) :
    prevLoop nil (probeFor key (key node)) links passes tnode ret =
      some ((findLast (fun other => key other < key node) tree.nodes).getD ret) := by
  induction tree generalizing tnode ret passes with
  | nil => simp at member
  | node left root red right leftHypothesis rightHypothesis =>
      obtain ⟨rfl, notNil, _, leftHolds, rightHolds⟩ := holds
      obtain ⟨leftSorted, rightSorted, leftSmaller, rightLarger⟩ := sorted_node sorted
      rw [BinTree.depth] at enough
      cases passes with
      | zero => exact absurd enough (by omega)
      | succ passes =>
          rw [prevLoop, if_neg notNil, probeFor, BinTree.nodes_node, findLast_append, findLast_cons]
          have rightNone : key node ≤ key tnode →
              findLast (fun other => decide (key other < key node)) right.nodes = none :=
            fun reaches => findLast_eq_none fun other inRight =>
              decide_eq_false (not_lt.mpr (reaches.trans_lt (rightLarger other inRight)).le)
          rcases List.mem_append.mp member with inLeft | rest
          · have less := leftSmaller node inLeft
            rw [compare_lt_iff_lt.mpr less, decide_eq_false (not_lt.mpr less.le),
              rightNone less.le]
            exact leftHypothesis leftHolds leftSorted inLeft (by omega)
          · rcases List.mem_cons.mp rest with rfl | inRight
            · rw [noLeft] at leftHolds
              rw [compare_eq_iff_eq.mpr rfl, decide_eq_false (lt_irrefl _), rightNone le_rfl,
                leftHolds.eq_nil_iff.mp rfl]
              rfl
            · have greater := rightLarger node inRight
              rw [compare_gt_iff_gt.mpr greater, decide_eq_true greater, if_pos rfl,
                Option.getD_or, Option.getD_or]
              exact rightHypothesis rightHolds rightSorted inRight (by omega)

/-! ## Iteration -/

section Iteration

variable {σ : Type} {cb : Ptr → σ → Option Ptr × σ}

/-- Call back for each node in turn until a call returns a pointer. -/
def visit (cb : Ptr → σ → Option Ptr × σ) : List Ptr → σ → Option Ptr × σ
  | [], state => (none, state)
  | node :: rest, state =>
      match cb node state with
      | (some ret, state) => (some ret, state)
      | (none, state) => visit cb rest state

theorem visit_append (before after : List Ptr) (state : σ) :
    visit cb (before ++ after) state =
      match visit cb before state with
      | (some ret, state) => (some ret, state)
      | (none, state) => visit cb after state := by
  induction before generalizing state with
  | nil => rfl
  | cons node rest inductionHypothesis =>
      rw [List.cons_append, visit, visit]
      generalize cb node state = result
      obtain ⟨ret, state⟩ := result
      cases ret with
      | none => exact inductionHypothesis state
      | some ret => rfl

theorem visit_ne_nil (notNil : ∀ node state, (cb node state).1 ≠ some nil) (nodes : List Ptr)
    (state : σ) : (visit cb nodes state).1 ≠ some nil := by
  induction nodes generalizing state with
  | nil => simp [visit]
  | cons node rest inductionHypothesis =>
      rw [visit]
      have first := notNil node state
      generalize cb node state = result at first ⊢
      obtain ⟨ret, state⟩ := result
      cases ret with
      | none => exact inductionHypothesis state
      | some ret => exact first

/-- What the recursive functions return for a result of the visits. -/
def sentinel (nil : Ptr) (result : Option Ptr × σ) : Ptr × σ := (result.1.getD nil, result.2)

/-- A node and then the nodes on one side of it. -/
theorem visit_root (after : List Ptr) (node : Ptr) (state : σ) (rest : σ → Option (Ptr × σ))
    (restVisits : ∀ state, rest state = some (sentinel nil (visit cb after state))) :
    (match cb node state with
      | (some ret, state) => some (ret, state)
      | (none, state) => rest state) =
      some (sentinel nil (visit cb (node :: after) state)) := by
  rw [visit]
  generalize cb node state = result
  obtain ⟨ret, state⟩ := result
  cases ret with
  | none => exact restVisits state
  | some ret => rfl

/-- The recursion over a node: first one side, then the node, then the other side. -/
theorem visit_node (notNil : ∀ node state, (cb node state).1 ≠ some nil) (before after : List Ptr)
    (node : Ptr) (state : σ) (rest : σ → Option (Ptr × σ))
    (restVisits : ∀ state, rest state = some (sentinel nil (visit cb after state))) :
    ((some (sentinel nil (visit cb before state))).bind fun (ret, state) =>
        if ret ≠ nil then some (ret, state)
        else match cb node state with
          | (some ret, state) => some (ret, state)
          | (none, state) => rest state) =
      some (sentinel nil (visit cb (before ++ node :: after) state)) := by
  rw [visit_append, Option.bind_some]
  have first := visit_ne_nil notNil before state
  generalize visit cb before state = result at first ⊢
  obtain ⟨ret, state⟩ := result
  cases ret with
  | some ret =>
      have notSentinel : ret ≠ nil := fun same => first (by rw [same])
      simp [sentinel, notSentinel]
  | none =>
      dsimp only [sentinel, Option.getD_none]
      rw [if_neg (not_not.mpr rfl)]
      exact visit_root after node state rest restVisits

theorem iterRecurse_holds {node : Ptr} {tree : BinTree Ptr} {passes : Nat} {state : σ}
    (notNil : ∀ node state, (cb node state).1 ≠ some nil) (holds : Holds nil links tree node)
    (enough : tree.depth < passes) :
    iterRecurse nil cb links passes node state =
      some (sentinel nil (visit cb tree.nodes state)) := by
  induction tree generalizing node passes state with
  | nil =>
      cases passes with
      | zero => exact absurd enough (by omega)
      | succ passes =>
          rw [holds_nil] at holds
          rw [iterRecurse, if_pos holds]
          rfl
  | node left root red right leftHypothesis rightHypothesis =>
      obtain ⟨rfl, rootNotNil, _, leftHolds, rightHolds⟩ := holds
      rw [BinTree.depth] at enough
      cases passes with
      | zero => exact absurd enough (by omega)
      | succ passes =>
          rw [iterRecurse, if_neg rootNotNil, leftHypothesis leftHolds (by omega)]
          exact visit_node notNil left.nodes right.nodes node state _
            fun state => rightHypothesis rightHolds (by omega)

theorem reverseIterRecurse_holds {node : Ptr} {tree : BinTree Ptr} {passes : Nat} {state : σ}
    (notNil : ∀ node state, (cb node state).1 ≠ some nil) (holds : Holds nil links tree node)
    (enough : tree.depth < passes) :
    reverseIterRecurse nil cb links passes node state =
      some (sentinel nil (visit cb tree.nodes.reverse state)) := by
  induction tree generalizing node passes state with
  | nil =>
      cases passes with
      | zero => exact absurd enough (by omega)
      | succ passes =>
          rw [holds_nil] at holds
          rw [reverseIterRecurse, if_pos holds]
          rfl
  | node left root red right leftHypothesis rightHypothesis =>
      obtain ⟨rfl, rootNotNil, _, leftHolds, rightHolds⟩ := holds
      rw [BinTree.depth] at enough
      cases passes with
      | zero => exact absurd enough (by omega)
      | succ passes =>
          rw [reverseIterRecurse, if_neg rootNotNil, rightHypothesis rightHolds (by omega),
            BinTree.nodes_node, List.reverse_append, List.reverse_cons, List.append_assoc]
          exact visit_node notNil right.nodes.reverse left.nodes.reverse node state _
            fun state => leftHypothesis leftHolds (by omega)

theorem iterStart_holds {node start : Ptr} {tree : BinTree Ptr} {passes : Nat} {state : σ}
    (notNil : ∀ node state, (cb node state).1 ≠ some nil) (holds : Holds nil links tree node)
    (sorted : Sorted key tree.nodes) (member : start ∈ tree.nodes)
    (enough : tree.depth < passes) :
    iterStart nil (probeFor key (key start)) cb links passes node state =
      some (sentinel nil
        (visit cb (tree.nodes.filter fun other => key start ≤ key other) state)) := by
  induction tree generalizing node passes state with
  | nil => simp at member
  | node left root red right leftHypothesis rightHypothesis =>
      obtain ⟨rfl, rootNotNil, _, leftHolds, rightHolds⟩ := holds
      obtain ⟨leftSorted, rightSorted, leftSmaller, rightLarger⟩ := sorted_node sorted
      rw [BinTree.depth] at enough
      cases passes with
      | zero => exact absurd enough (by omega)
      | succ passes =>
          rw [iterStart, probeFor, BinTree.nodes_node, List.filter_append]
          have rightAll : key start ≤ key node →
              (node :: right.nodes).filter (fun other => decide (key start ≤ key other)) =
                node :: right.nodes := fun reaches =>
            List.filter_eq_self.mpr fun other otherMember => by
              rcases List.mem_cons.mp otherMember with rfl | inRight
              · exact decide_eq_true reaches
              · exact decide_eq_true (reaches.trans (rightLarger other inRight).le)
          have leftNone : key node ≤ key start →
              left.nodes.filter (fun other => decide (key start ≤ key other)) = [] :=
            fun reaches => List.filter_eq_nil_iff.mpr fun other inLeft => by
              simpa using (leftSmaller other inLeft).trans_le reaches
          rcases List.mem_append.mp member with inLeft | rest
          · have less := leftSmaller start inLeft
            rw [compare_lt_iff_lt.mpr less, rightAll less.le]
            dsimp only
            rw [leftHypothesis leftHolds leftSorted inLeft (by omega)]
            exact visit_node notNil _ right.nodes node state _
              fun state => iterRecurse_holds notNil rightHolds (by omega)
          · rcases List.mem_cons.mp rest with rfl | inRight
            · rw [compare_eq_iff_eq.mpr rfl, rightAll le_rfl, leftNone le_rfl]
              exact visit_root right.nodes start state
                (iterRecurse nil cb links passes (links.rightGet start)) fun state =>
                  iterRecurse_holds notNil rightHolds (by omega)
            · have greater := rightLarger start inRight
              rw [compare_gt_iff_gt.mpr greater, leftNone greater.le, List.nil_append,
                List.filter_cons, decide_eq_false (not_le.mpr greater)]
              exact rightHypothesis rightHolds rightSorted inRight (by omega)

theorem reverseIterStart_holds {node start : Ptr} {tree : BinTree Ptr} {passes : Nat} {state : σ}
    (notNil : ∀ node state, (cb node state).1 ≠ some nil) (holds : Holds nil links tree node)
    (sorted : Sorted key tree.nodes) (member : start ∈ tree.nodes)
    (enough : tree.depth < passes) :
    reverseIterStart nil (probeFor key (key start)) cb links passes node state =
      some (sentinel nil
        (visit cb (tree.nodes.filter fun other => key other ≤ key start).reverse state)) := by
  induction tree generalizing node passes state with
  | nil => simp at member
  | node left root red right leftHypothesis rightHypothesis =>
      obtain ⟨rfl, rootNotNil, _, leftHolds, rightHolds⟩ := holds
      obtain ⟨leftSorted, rightSorted, leftSmaller, rightLarger⟩ := sorted_node sorted
      rw [BinTree.depth] at enough
      cases passes with
      | zero => exact absurd enough (by omega)
      | succ passes =>
          rw [reverseIterStart, probeFor, BinTree.nodes_node, List.append_cons, List.filter_append,
            List.filter_append, List.reverse_append, List.reverse_append]
          have leftAll : key node ≤ key start →
              left.nodes.filter (fun other => decide (key other ≤ key start)) = left.nodes :=
            fun reaches => List.filter_eq_self.mpr fun other inLeft =>
              decide_eq_true ((leftSmaller other inLeft).le.trans reaches)
          have rightNone : key start ≤ key node →
              right.nodes.filter (fun other => decide (key other ≤ key start)) = [] :=
            fun reaches => List.filter_eq_nil_iff.mpr fun other inRight => by
              simpa using reaches.trans_lt (rightLarger other inRight)
          rcases List.mem_append.mp member with inLeft | rest
          · have less := leftSmaller start inLeft
            rw [compare_lt_iff_lt.mpr less, rightNone less.le, List.filter_singleton,
              decide_eq_false (not_le.mpr less)]
            exact leftHypothesis leftHolds leftSorted inLeft (by omega)
          · rcases List.mem_cons.mp rest with rfl | inRight
            · rw [compare_eq_iff_eq.mpr rfl, rightNone le_rfl, leftAll le_rfl,
                List.filter_singleton, decide_eq_true le_rfl]
              exact visit_root left.nodes.reverse start state
                (reverseIterRecurse nil cb links passes (links.leftGet start)) fun state =>
                  reverseIterRecurse_holds notNil leftHolds (by omega)
            · have greater := rightLarger start inRight
              rw [compare_gt_iff_gt.mpr greater, leftAll greater.le, List.filter_singleton,
                decide_eq_true greater.le]
              dsimp only
              rw [rightHypothesis rightHolds rightSorted inRight (by omega)]
              exact visit_node notNil _ left.nodes.reverse node state _
                fun state => reverseIterRecurse_holds notNil leftHolds (by omega)

end Iteration

end Rb
end Jemalloc
end Vmem
