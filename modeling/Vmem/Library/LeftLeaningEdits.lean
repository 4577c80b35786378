import Vmem.Library.LeftLeaning
import Vmem.Library.OrderedTree

/-!
# Insertion and removal in left-leaning red-black trees

Both edits are a walk down that collects frames, a change at the bottom and a walk
up that repairs one frame at a time and stops as soon as nothing is wrong any more.
The results: an edit keeps the balance, and on the nodes from left to right it is
the edit of an ordered list.
-/

namespace Vmem
namespace LeftLeaning

open BinTree

variable {ν : Type}

/-! ## Insertion -/

/-- Repair one frame after its subtree has grown.  The second component tells
whether the subtree above has to be looked at as well. -/
def insertStep (frame : Frame ν) (tree : BinTree ν) : BinTree ν × Bool :=
  if frame.goesLeft then
    match tree with
    | .node (.node a x true b) y true c =>
        (.node (.node a x false b) y true (.node c frame.node frame.red frame.sibling), true)
    | _ => (frame.fill tree, tree.isRed)
  else
    match tree with
    | .node a y true b =>
        if frame.sibling.isRed then
          (.node frame.sibling.blacken frame.node true (.node a y false b), true)
        else (.node (.node frame.sibling frame.node true a) y frame.red b, true)
    | _ => (frame.fill tree, false)

/-- Repair the frames from the inside to the root. -/
def insertUnwind : List (Frame ν) → BinTree ν → BinTree ν
  | [], tree => tree.blacken
  | frame :: rest, tree =>
      if (insertStep frame tree).2 then insertUnwind rest (insertStep frame tree).1
      else plug rest (insertStep frame tree).1

/-- The way down to the place of a new node. -/
def insertWind (probe : ν → Ordering) : BinTree ν → List (Frame ν) → List (Frame ν)
  | .nil, frames => frames
  | .node left root red right, frames =>
      if probe root = .lt then insertWind probe left (⟨root, red, true, right⟩ :: frames)
      else insertWind probe right (⟨root, red, false, left⟩ :: frames)

/-- Link a new node as a red leaf and repair the tree. -/
def insert (probe : ν → Ordering) (node : ν) (tree : BinTree ν) : BinTree ν :=
  insertUnwind (insertWind probe tree []) (.node .nil node true .nil)

theorem nodes_insertStep (frame : Frame ν) (tree : BinTree ν) :
    (insertStep frame tree).1.nodes = (frame.fill tree).nodes := by
  unfold insertStep Frame.fill
  split
  · split <;> simp
  · split
    · split <;> simp
    · rfl

theorem nodes_insertUnwind (frames : List (Frame ν)) (tree : BinTree ν) :
    (insertUnwind frames tree).nodes = (plug frames tree).nodes := by
  induction frames generalizing tree with
  | nil => simp [insertUnwind]
  | cons frame rest inductionHypothesis =>
      rw [insertUnwind, plug_cons, ← nodes_plug_congr rest (nodes_insertStep frame tree)]
      split
      · exact inductionHypothesis _
      · rfl

/-- What a subtree becomes on the way up: balanced again or, where the root was red
before, a red root with a red left child. -/
def Grown (hole : Bool) (tree : BinTree ν) (height : Nat) : Prop :=
  BinTree.Balanced tree height ∨
    hole = true ∧ ∃ left node right, tree = .node left node true right ∧
      BinTree.Balanced left height ∧ left.isRed = true ∧
      BinTree.Balanced right height ∧ right.isRed = false

/-- One repair: if it goes on, the subtree above has grown; if it stops, the subtree
fits its place. -/
theorem insertStep_grown {frame : Frame ν} {rest : List (Frame ν)} {hole : Bool} {height : Nat}
    {tree : BinTree ν} (fits : Fits (frame :: rest) hole height) (grown : Grown hole tree height) :
    Fits rest frame.red (weight frame.red height) ∧
      if (insertStep frame tree).2 then
        Grown frame.red (insertStep frame tree).1 (weight frame.red height)
      else BinTree.Balanced (insertStep frame tree).1 (weight frame.red height) ∧
        (insertStep frame tree).1.isRed = frame.red := by
  cases fits with
  | @left node red sibling _ _ _ siblingBalanced siblingBlack alternates restFits =>
      refine ⟨restFits, ?_⟩
      rcases grown with balanced | ⟨holeRed, below, root, right, rfl, belowBalanced, belowRed,
        rightBalanced, rightBlack⟩
      · have step : insertStep ⟨node, red, true, sibling⟩ tree =
            (.node tree node red sibling, tree.isRed) := by
          cases balanced with
          | nil => rfl
          | black => simp [insertStep, Frame.fill]
          | @red left _ _ _ _ _ leftBlack _ =>
              cases left with
              | nil => rfl
              | node => simp_all [insertStep, Frame.fill]
        rw [step]
        cases treeRed : tree.isRed with
        | false =>
            exact ⟨balanced.node siblingBalanced siblingBlack fun _ => treeRed, rfl⟩
        | true =>
            cases red with
            | false =>
                exact .inl (balanced.node siblingBalanced siblingBlack (by simp))
            | true =>
                exact .inr ⟨rfl, _, _, _, rfl, balanced, treeRed, siblingBalanced, siblingBlack⟩
      · -- the left child and its left child are both red: a 4-node
        have black : red = false := by
          cases red with
          | false => rfl
          | true => rw [alternates rfl] at holeRed; exact absurd holeRed (by simp)
        subst black
        obtain ⟨a, x, b, rfl, aBalanced, bBalanced, _, bBlack⟩ := belowBalanced.eq_red belowRed
        refine .inl (.red (.black aBalanced bBalanced bBlack)
          (.black rightBalanced siblingBalanced siblingBlack) rfl rfl)
  | @right node red sibling _ _ siblingBalanced alternates restFits =>
      refine ⟨restFits, ?_⟩
      rcases grown with balanced | ⟨holeRed, _⟩
      · cases treeRed : tree.isRed with
        | false =>
            have step : insertStep ⟨node, red, false, sibling⟩ tree =
                (.node sibling node red tree, false) := by
              cases balanced with
              | nil => rfl
              | black => rfl
              | red => simp at treeRed
            rw [step]
            exact ⟨siblingBalanced.node balanced treeRed alternates, rfl⟩
        | true =>
            obtain ⟨a, x, b, rfl, aBalanced, bBalanced, aBlack, bBlack⟩ := balanced.eq_red treeRed
            cases siblingRed : sibling.isRed with
            | true =>
                have black : red = false := by
                  cases red with
                  | false => rfl
                  | true => rw [alternates rfl] at siblingRed; exact absurd siblingRed (by simp)
                subst black
                simp only [insertStep, siblingRed]
                exact .inl (.red (siblingBalanced.blacken siblingRed)
                  (.black aBalanced bBalanced bBlack) (by simp) rfl)
            | false =>
                have leaning : BinTree.Balanced (BinTree.node sibling node true a) height :=
                  .red siblingBalanced aBalanced siblingRed aBlack
                simp only [insertStep, siblingRed]
                cases red with
                | false => exact .inl (.black leaning bBalanced bBlack)
                | true =>
                    exact .inr ⟨rfl, _, _, _, rfl, leaning, rfl, bBalanced, bBlack⟩
      · exact absurd holeRed (by simp)

theorem insertUnwind_balanced {frames : List (Frame ν)} {hole : Bool} {height : Nat}
    {tree : BinTree ν} (fits : Fits frames hole height) (grown : Grown hole tree height) :
    (∃ whole, BinTree.Balanced (insertUnwind frames tree) whole) ∧
      (insertUnwind frames tree).isRed = false := by
  induction frames generalizing hole height tree with
  | nil =>
      cases fits
      refine ⟨?_, isRed_blacken tree⟩
      rcases grown with balanced | ⟨holeRed, _⟩
      · cases balanced with
        | nil => exact ⟨_, .nil⟩
        | black left right black => exact ⟨_, .black left right black⟩
        | red left right _ black => exact ⟨_, .black left right black⟩
      · exact absurd holeRed (by simp)
  | cons frame rest inductionHypothesis =>
      obtain ⟨restFits, step⟩ := insertStep_grown fits grown
      rw [insertUnwind]
      split at step
      · next goesOn =>
          rw [if_pos goesOn]
          exact inductionHypothesis restFits step
      · next stops =>
          rw [if_neg stops]
          exact restFits.plug step.1 fun isRed => step.2.symm.trans isRed

theorem plug_insertWind (probe : ν → Ordering) (tree : BinTree ν) (frames : List (Frame ν)) :
    plug (insertWind probe tree frames) .nil = plug frames tree := by
  induction tree generalizing frames with
  | nil => rfl
  | node left root red right leftHypothesis rightHypothesis =>
      rw [insertWind]
      split
      · exact leftHypothesis _
      · exact rightHypothesis _

theorem fits_insertWind (probe : ν → Ordering) {tree : BinTree ν} {frames : List (Frame ν)}
    {height : Nat} (fits : Fits frames tree.isRed height) (balanced : tree.Balanced height) :
    Fits (insertWind probe tree frames) false 0 := by
  induction tree generalizing frames height with
  | nil =>
      cases balanced
      exact fits
  | node left root red right leftHypothesis rightHypothesis =>
      obtain ⟨below, _, leftBalanced, rightBalanced, leftFits, rightFits⟩ := fits.down balanced
      rw [insertWind]
      split
      · exact leftHypothesis leftFits leftBalanced
      · exact rightHypothesis rightFits rightBalanced

/-- An insertion keeps the balance. -/
theorem insert_balanced (probe : ν → Ordering) (node : ν) {tree : BinTree ν} {height : Nat}
    (balanced : BinTree.Balanced tree height) (black : tree.isRed = false) :
    (∃ whole, BinTree.Balanced (insert probe node tree) whole) ∧
      (insert probe node tree).isRed = false := by
  have fits : Fits ([] : List (Frame ν)) tree.isRed height := by
    rw [black]
    exact .root height
  exact insertUnwind_balanced (fits_insertWind probe fits balanced)
    (.inl (.red .nil .nil rfl rfl))

/-! ## Removal -/

/-- Repair one frame whose left subtree has lost a black node. -/
def removeStepLeft (frame : Frame ν) (tree : BinTree ν) : BinTree ν × Bool :=
  match frame.sibling with
  | .node (.node a x true b) y red c =>
      (.node (.node tree frame.node false a) x frame.red (.node b y red c), false)
  | .node a y red b => (.node (.node tree frame.node true a) y red b, !frame.red)
  | .nil => (.node tree frame.node frame.red .nil, false)

/-- Repair one frame whose right subtree has lost a black node. -/
def removeStepRight (frame : Frame ν) (tree : BinTree ν) : BinTree ν × Bool :=
  match frame.sibling with
  | .node a x true (.node (.node b w true c) y red d) =>
      (.node (.node a x true (.node b w false c)) y red (.node d frame.node frame.red tree), false)
  | .node a x true (.node b y _ c) =>
      (.node a x false (.node (.node b y true c) frame.node frame.red tree), false)
  | .node (.node a w true b) x _ c =>
      (.node (.node a w false b) x frame.red (.node c frame.node false tree), false)
  | .node a x _ b => (.node (.node a x true b) frame.node false tree, !frame.red)
  | .nil => (.node .nil frame.node frame.red tree, false)

/-- Repair one frame whose subtree has lost a black node.  The second component
tells whether the subtree above has lost one as well. -/
def removeStep (frame : Frame ν) (tree : BinTree ν) : BinTree ν × Bool :=
  if frame.goesLeft then removeStepLeft frame tree else removeStepRight frame tree

/-- Repair the frames from the inside to the root. -/
def removeUnwind : List (Frame ν) → BinTree ν → BinTree ν
  | [], tree => tree
  | frame :: rest, tree =>
      if (removeStep frame tree).2 then removeUnwind rest (removeStep frame tree).1
      else plug rest (removeStep frame tree).1

/-- Take a leaf of the given colour off its place. -/
def prune (frames : List (Frame ν)) (red : Bool) : BinTree ν :=
  if red then plug frames .nil else removeUnwind frames .nil

/-- The way down to the leftmost node, that node and its colour. -/
def leftmost (node : ν) (red : Bool) (right : BinTree ν) :
    BinTree ν → List (Frame ν) → List (Frame ν) × ν × Bool
  | .nil, frames => (frames, node, red)
  | .node left root colour below, frames =>
      leftmost root colour below left (⟨node, red, true, right⟩ :: frames)

/-- Remove the root of a subtree: a node without a right child is replaced by its
left one, any other changes its place with its successor first. -/
def removeRoot (frames : List (Frame ν)) (left : BinTree ν) (red : Bool) : BinTree ν → BinTree ν
  | .nil =>
      match left with
      | .nil => prune frames red
      | .node .. => plug frames left.blacken
  | .node below root colour right =>
      let (inner, successor, successorRed) := leftmost root colour right below []
      prune (inner ++ ⟨successor, red, false, left⟩ :: frames) successorRed

/-- Walk down to the subtree whose root is looked for. -/
def locate (probe : ν → Ordering) : BinTree ν → List (Frame ν) → List (Frame ν) × BinTree ν
  | .nil, frames => (frames, .nil)
  | .node left root red right, frames =>
      match probe root with
      | .lt => locate probe left (⟨root, red, true, right⟩ :: frames)
      | .gt => locate probe right (⟨root, red, false, left⟩ :: frames)
      | .eq => (frames, .node left root red right)

/-- Unlink a node and repair the tree. -/
def remove (probe : ν → Ordering) (tree : BinTree ν) : BinTree ν :=
  match locate probe tree [] with
  | (_, .nil) => tree
  | (frames, .node left _ red right) => removeRoot frames left red right

theorem nodes_removeStep (frame : Frame ν) (tree : BinTree ν) :
    (removeStep frame tree).1.nodes = (frame.fill tree).nodes := by
  obtain ⟨node, red, goesLeft, sibling⟩ := frame
  cases goesLeft with
  | true =>
      simp only [removeStep, removeStepLeft, Frame.fill, if_true]
      split <;> simp
  | false =>
      simp only [removeStep, removeStepRight, Frame.fill, Bool.false_eq_true, if_false]
      split <;> simp

theorem nodes_removeUnwind (frames : List (Frame ν)) (tree : BinTree ν) :
    (removeUnwind frames tree).nodes = (plug frames tree).nodes := by
  induction frames generalizing tree with
  | nil => rfl
  | cons frame rest inductionHypothesis =>
      rw [removeUnwind, plug_cons, ← nodes_plug_congr rest (nodes_removeStep frame tree)]
      split
      · exact inductionHypothesis _
      · rfl

theorem nodes_prune (frames : List (Frame ν)) (red : Bool) :
    (prune frames red).nodes = (plug frames .nil).nodes := by
  unfold prune
  split
  · rfl
  · exact nodes_removeUnwind frames .nil

/-- One repair: if it goes on, the subtree above is black and has lost a black node
too; if it stops, the subtree fits its place again. -/
theorem removeStep_balanced {frame : Frame ν} {rest : List (Frame ν)} {height : Nat}
    {tree : BinTree ν} (fits : Fits (frame :: rest) false (height + 1))
    (balanced : BinTree.Balanced tree height) (black : tree.isRed = false) :
    Fits rest frame.red (weight frame.red (height + 1)) ∧
      if (removeStep frame tree).2 then
        frame.red = false ∧ BinTree.Balanced (removeStep frame tree).1 (height + 1) ∧
          (removeStep frame tree).1.isRed = false
      else BinTree.Balanced (removeStep frame tree).1 (weight frame.red (height + 1)) ∧
        ((removeStep frame tree).1.isRed = true → frame.red = true) := by
  cases fits with
  | @left node red sibling _ _ _ siblingBalanced siblingBlack _ restFits =>
      refine ⟨restFits, ?_⟩
      obtain ⟨below, y, c, rfl, belowBalanced, cBalanced, cBlack⟩ :=
        siblingBalanced.eq_black siblingBlack
      cases belowRed : below.isRed with
      | true =>
          obtain ⟨a, x, b, rfl, aBalanced, bBalanced, aBlack, bBlack⟩ :=
            belowBalanced.eq_red belowRed
          exact ⟨.node (.black balanced aBalanced aBlack) (.black bBalanced cBalanced cBlack)
            rfl fun _ => rfl, id⟩
      | false =>
          have step : removeStep ⟨node, red, true, .node below y false c⟩ tree =
              (.node (.node tree node true below) y false c, !red) := by
            cases below with
            | nil => rfl
            | node _ _ colour _ =>
                rw [isRed_node] at belowRed
                rw [belowRed]
                rfl
          have joined :
              BinTree.Balanced (.node (.node tree node true below) y false c) (height + 1) :=
            .black (.red balanced belowBalanced black belowRed) cBalanced cBlack
          rw [step]
          cases red with
          | false => exact ⟨rfl, joined, rfl⟩
          | true => exact ⟨joined, by simp⟩
  | @right node red sibling _ _ siblingBalanced alternates restFits =>
      refine ⟨restFits, ?_⟩
      cases siblingRed : sibling.isRed with
      | true =>
          have isBlack : red = false := by
            cases red with
            | false => rfl
            | true => exact absurd ((alternates rfl).symm.trans siblingRed) (by simp)
          subst isBlack
          obtain ⟨a, x, inner, rfl, aBalanced, innerBalanced, aBlack, innerBlack⟩ :=
            siblingBalanced.eq_red siblingRed
          obtain ⟨below, y, d, rfl, belowBalanced, dBalanced, dBlack⟩ :=
            innerBalanced.eq_black innerBlack
          cases belowRed : below.isRed with
          | true =>
              obtain ⟨b, w, c, rfl, bBalanced, cBalanced, bBlack, cBlack⟩ :=
                belowBalanced.eq_red belowRed
              exact ⟨.black (.red aBalanced (.black bBalanced cBalanced cBlack) aBlack rfl)
                (.black dBalanced balanced black) rfl, by simp [removeStep, removeStepRight]⟩
          | false =>
              have step : removeStep ⟨node, false, false, .node a x true (.node below y false d)⟩
                  tree = (.node a x false (.node (.node below y true d) node false tree),
                    false) := by
                cases below with
                | nil => rfl
                | node _ _ colour _ =>
                    rw [isRed_node] at belowRed
                    rw [belowRed]
                    rfl
              rw [step]
              exact ⟨.black aBalanced
                (.black (.red belowBalanced dBalanced belowRed dBlack) balanced black) rfl,
                by simp⟩
      | false =>
          obtain ⟨below, x, b, rfl, belowBalanced, bBalanced, bBlack⟩ :=
            siblingBalanced.eq_black siblingRed
          cases belowRed : below.isRed with
          | true =>
              obtain ⟨a, w, c, rfl, aBalanced, cBalanced, aBlack, cBlack⟩ :=
                belowBalanced.eq_red belowRed
              exact ⟨.node (.black aBalanced cBalanced cBlack) (.black bBalanced balanced black)
                rfl fun _ => rfl, id⟩
          | false =>
              have step : removeStep ⟨node, red, false, .node below x false b⟩ tree =
                  (.node (.node below x true b) node false tree, !red) := by
                cases below with
                | nil => rfl
                | node _ _ colour _ =>
                    rw [isRed_node] at belowRed
                    rw [belowRed]
                    rfl
              have joined :
                  BinTree.Balanced (.node (.node below x true b) node false tree) (height + 1) :=
                .black (.red belowBalanced bBalanced belowRed bBlack) balanced black
              rw [step]
              cases red with
              | false => exact ⟨rfl, joined, rfl⟩
              | true => exact ⟨joined, by simp⟩

theorem removeUnwind_balanced {frames : List (Frame ν)} {height : Nat} {tree : BinTree ν}
    (fits : Fits frames false (height + 1)) (balanced : BinTree.Balanced tree height)
    (black : tree.isRed = false) :
    (∃ whole, BinTree.Balanced (removeUnwind frames tree) whole) ∧
      (removeUnwind frames tree).isRed = false := by
  induction frames generalizing height tree with
  | nil => exact ⟨⟨height, balanced⟩, black⟩
  | cons frame rest inductionHypothesis =>
      obtain ⟨restFits, step⟩ := removeStep_balanced fits balanced black
      rw [removeUnwind]
      split at step
      · next goesOn =>
          obtain ⟨frameBlack, stepBalanced, stepBlack⟩ := step
          rw [frameBlack] at restFits
          rw [if_pos goesOn]
          exact inductionHypothesis restFits stepBalanced stepBlack
      · next stops =>
          rw [if_neg stops]
          exact restFits.plug step.1 step.2

/-- Taking off a leaf keeps the balance. -/
theorem prune_balanced {frames : List (Frame ν)} {red : Bool}
    (fits : Fits frames red (weight red 0)) :
    (∃ whole, BinTree.Balanced (prune frames red) whole) ∧ (prune frames red).isRed = false := by
  cases red with
  | true => exact fits.plug .nil (by simp)
  | false => exact removeUnwind_balanced fits .nil rfl

/-- The leftmost node of a balanced subtree is a leaf. -/
theorem leftmost_spec {left right : BinTree ν} {node : ν} {red : Bool} {frames : List (Frame ν)}
    {height : Nat} (fits : Fits frames red height)
    (balanced : BinTree.Balanced (.node left node red right) height) :
    let (inner, last, lastRed) := leftmost node red right left frames
    plug inner (.node .nil last lastRed .nil) = plug frames (.node left node red right) ∧
      Fits inner lastRed (weight lastRed 0) ∧ nodesBefore inner = nodesBefore frames := by
  induction left generalizing node red right frames height with
  | nil =>
      obtain ⟨below, rfl, leftBalanced, rightBalanced, rightBlack, _⟩ := balanced.children
      cases leftBalanced
      rw [rightBalanced.eq_nil rightBlack]
      exact ⟨rfl, fits, rfl⟩
  | node below root colour inner belowHypothesis _ =>
      obtain ⟨height, rfl, leftBalanced, _, leftFits, _⟩ := fits.down balanced
      obtain ⟨same, innerFits, before⟩ := belowHypothesis leftFits leftBalanced
      refine ⟨same, innerFits, before.trans ?_⟩
      simp [nodesBefore]

theorem leftmost_append (left right : BinTree ν) (node : ν) (red : Bool)
    (inner frames : List (Frame ν)) :
    leftmost node red right left (inner ++ frames) =
      ((leftmost node red right left inner).1 ++ frames,
        (leftmost node red right left inner).2) := by
  induction left generalizing node red right inner with
  | nil => rfl
  | node below root colour right' belowHypothesis _ =>
      exact belowHypothesis right' root colour (⟨node, red, true, right⟩ :: inner)

/-- The place of the successor of a root: it is a leaf right behind the left subtree. -/
theorem successor_spec {left below right : BinTree ν} {root : ν} {red colour : Bool}
    {frames : List (Frame ν)} {height : Nat} (leftBalanced : BinTree.Balanced left height)
    (alternates : red = true → left.isRed = false)
    (balanced : BinTree.Balanced (.node below root colour right) height) (black : colour = false)
    (fits : Fits frames red (weight red height)) :
    let (inner, successor, successorRed) := leftmost root colour right below []
    let path := inner ++ ⟨successor, red, false, left⟩ :: frames
    Fits path successorRed (weight successorRed 0) ∧
      nodesBefore path = nodesBefore frames ++ left.nodes ++ [successor] ∧
      successor :: nodesAfter path =
        (BinTree.node below root colour right).nodes ++ nodesAfter frames := by
  subst black
  generalize place : leftmost root false right below [] = found
  obtain ⟨inner, successor, successorRed⟩ := found
  have rightFits : Fits (⟨successor, red, false, left⟩ :: frames) false height :=
    .right leftBalanced alternates fits
  have spec := leftmost_spec rightFits balanced
  have whole := leftmost_append below right root false [] (⟨successor, red, false, left⟩ :: frames)
  rw [List.nil_append, place] at whole
  rw [whole] at spec
  obtain ⟨same, pathFits, before⟩ := spec
  have nodes := congrArg BinTree.nodes same
  rw [nodes_plug, nodes_plug, before] at nodes
  refine ⟨pathFits, ?_, ?_⟩
  · rw [before]
    simp [nodesBefore]
  · simpa [nodesAfter] using nodes

/-- Removing the root of a subtree keeps the balance and every other node. -/
theorem removeRoot_spec {left right : BinTree ν} {root : ν} {red : Bool} {frames : List (Frame ν)}
    {height : Nat} (fits : Fits frames red height)
    (balanced : BinTree.Balanced (.node left root red right) height) :
    (∃ whole, BinTree.Balanced (removeRoot frames left red right) whole) ∧
      (removeRoot frames left red right).isRed = false ∧
      (removeRoot frames left red right).nodes =
        nodesBefore frames ++ (left.nodes ++ right.nodes) ++ nodesAfter frames := by
  obtain ⟨below, rfl, leftBalanced, rightBalanced, rightBlack, alternates⟩ := balanced.children
  cases right with
  | nil =>
      cases rightBalanced
      cases left with
      | nil =>
          obtain ⟨pruned, black⟩ := prune_balanced fits
          exact ⟨pruned, black, by simp [removeRoot, nodes_prune, nodes_plug]⟩
      | node =>
          -- a left child of a node without a right one is red
          obtain ⟨_, _, _, shape, inner⟩ := leftBalanced.eq_red (by
            by_contra leftBlack
            exact absurd (leftBalanced.eq_nil (by simpa using leftBlack)) (by simp))
          have isBlack : red = false := by
            cases red with
            | false => rfl
            | true => exact absurd (alternates rfl) (by rw [shape]; simp)
          subst isBlack
          obtain ⟨plugged, black⟩ := fits.plug (leftBalanced.blacken (by rw [shape]; rfl))
            (by simp)
          exact ⟨plugged, black, by simp [removeRoot, nodes_plug]⟩
  | node inner middle colour outer =>
      have spec := successor_spec leftBalanced alternates rightBalanced rightBlack fits
      generalize place : leftmost middle colour outer inner [] = found at spec
      obtain ⟨path, successor, successorRed⟩ := found
      obtain ⟨pathFits, before, after⟩ := spec
      obtain ⟨pruned, black⟩ := prune_balanced pathFits
      have edit : removeRoot frames left red (.node inner middle colour outer) =
          prune (path ++ ⟨successor, red, false, left⟩ :: frames) successorRed := by
        rw [removeRoot, place]
      rw [edit]
      refine ⟨pruned, black, ?_⟩
      rw [nodes_prune, nodes_plug, before, nodes_nil, List.append_nil, List.append_assoc,
        List.singleton_append, after]
      simp

/-- Where the located subtree lies. -/
theorem locate_spec (probe : ν → Ordering) {tree : BinTree ν} {frames : List (Frame ν)}
    {height : Nat} (fits : Fits frames tree.isRed height) (balanced : tree.Balanced height) :
    let (path, found) := locate probe tree frames
    plug path found = plug frames tree ∧
      ∃ below, Fits path found.isRed below ∧ BinTree.Balanced found below := by
  induction tree generalizing frames height with
  | nil => exact ⟨rfl, height, fits, balanced⟩
  | node left root red right leftHypothesis rightHypothesis =>
      obtain ⟨below, _, leftBalanced, rightBalanced, leftFits, rightFits⟩ := fits.down balanced
      rw [locate]
      cases probe root with
      | lt => exact leftHypothesis leftFits leftBalanced
      | gt => exact rightHypothesis rightFits rightBalanced
      | eq => exact ⟨rfl, height, fits, balanced⟩

/-- A removal keeps the balance, whether the node is found or not. -/
theorem remove_balanced (probe : ν → Ordering) {tree : BinTree ν} {height : Nat}
    (balanced : BinTree.Balanced tree height) (black : tree.isRed = false) :
    (∃ whole, BinTree.Balanced (remove probe tree) whole) ∧ (remove probe tree).isRed = false := by
  have fits : Fits ([] : List (Frame ν)) tree.isRed height := by
    rw [black]
    exact .root height
  have spec := locate_spec probe fits balanced
  unfold remove
  generalize locate probe tree [] = place at spec ⊢
  obtain ⟨path, found⟩ := place
  obtain ⟨_, below, foundFits, foundBalanced⟩ := spec
  cases found with
  | nil => exact ⟨⟨height, balanced⟩, black⟩
  | node left root red right =>
      obtain ⟨whole, wholeBlack, _⟩ := removeRoot_spec foundFits foundBalanced
      exact ⟨whole, wholeBlack⟩

/-! ## Edits of ordered trees -/

section Ordered

variable {κ : Type} [LinearOrder κ] {key : ν → κ}

open OrderedTree (Sorted)

/-- The comparisons a search for a key makes. -/
def probeFor (key : ν → κ) (wanted : κ) (node : ν) : Ordering := compare wanted (key node)

/-- Linking a node between smaller and larger ones. -/
theorem orderedInsert_append {node : ν} {before after : List ν}
    (smaller : ∀ other ∈ before, key other < key node)
    (larger : ∀ other ∈ after, key node < key other) :
    OrderedTree.insert key node (before ++ after) = before ++ node :: after := by
  induction before with
  | nil => exact OrderedTree.insert_of_le fun other member => le_of_lt (larger other member)
  | cons head tail inductionHypothesis =>
      have headSmaller := smaller head List.mem_cons_self
      have rest := inductionHypothesis fun other member =>
        smaller other (List.mem_cons_of_mem head member)
      unfold OrderedTree.insert at rest ⊢
      rw [List.cons_append, List.orderedInsert_cons, if_neg (not_le.mpr headSmaller), rest,
        List.cons_append]

/-- The way down separates the smaller nodes from the larger ones. -/
theorem insertWind_separates {wanted : κ} {tree : BinTree ν} {frames : List (Frame ν)}
    (sorted : Sorted key tree.nodes) (fresh : ∀ other ∈ tree.nodes, key other ≠ wanted)
    (smaller : ∀ other ∈ nodesBefore frames, key other < wanted)
    (larger : ∀ other ∈ nodesAfter frames, wanted < key other) :
    (∀ other ∈ nodesBefore (insertWind (probeFor key wanted) tree frames),
        key other < wanted) ∧
      ∀ other ∈ nodesAfter (insertWind (probeFor key wanted) tree frames),
        wanted < key other := by
  induction tree generalizing frames with
  | nil => exact ⟨smaller, larger⟩
  | node left root red right leftHypothesis rightHypothesis =>
      obtain ⟨leftSorted, rootSorted, leftSmaller⟩ := List.pairwise_append.mp sorted
      obtain ⟨rightLarger, rightSorted⟩ := List.pairwise_cons.mp rootSorted
      rw [insertWind]
      split
      · next isLess =>
          have less : wanted < key root := compare_lt_iff_lt.mp isLess
          refine leftHypothesis leftSorted (fun other member => fresh other (by simp [member]))
            (by simpa [nodesBefore] using smaller) ?_
          intro other member
          simp only [nodesAfter, if_true, List.cons_append, List.mem_cons,
            List.mem_append] at member
          rcases member with rfl | inRight | above
          · exact less
          · exact less.trans (rightLarger other inRight)
          · exact larger other above
      · next notLess =>
          have rootFresh : key root ≠ wanted := fresh root (by simp)
          have greater : key root < wanted :=
            lt_of_le_of_ne (not_lt.mp fun less => notLess (compare_lt_iff_lt.mpr less)) rootFresh
          refine rightHypothesis rightSorted (fun other member => fresh other (by simp [member]))
            ?_ (by simpa [nodesAfter] using larger)
          intro other member
          simp only [nodesBefore, Bool.false_eq_true, if_false, List.mem_append,
            List.mem_singleton] at member
          rcases member with above | inLeft | rfl
          · exact smaller other above
          · exact (leftSmaller other inLeft root List.mem_cons_self).trans greater
          · exact greater

/-- Linking a node is linking it into the ordered list of nodes. -/
theorem nodes_insert {tree : BinTree ν} {node : ν} (sorted : Sorted key tree.nodes)
    (fresh : ∀ other ∈ tree.nodes, key other ≠ key node) :
    (insert (probeFor key (key node)) node tree).nodes =
      OrderedTree.insert key node tree.nodes := by
  obtain ⟨smaller, larger⟩ := insertWind_separates sorted fresh
    (show ∀ other ∈ nodesBefore [], key other < key node by simp [nodesBefore])
    (by simp [nodesAfter])
  have whole := congrArg BinTree.nodes (plug_insertWind (probeFor key (key node)) tree [])
  rw [nodes_plug, nodes_nil, List.append_nil, plug_nil] at whole
  rw [insert, nodes_insertUnwind, nodes_plug, ← whole, orderedInsert_append smaller larger]
  simp

/-- In an ordered tree the walk down to the key of a linked node ends at this node. -/
theorem locate_node {tree : BinTree ν} {node : ν} (frames : List (Frame ν))
    (sorted : Sorted key tree.nodes) (member : node ∈ tree.nodes) :
    ∃ path left red right,
      locate (probeFor key (key node)) tree frames = (path, .node left node red right) := by
  induction tree generalizing frames with
  | nil => simp at member
  | node left root red right leftHypothesis rightHypothesis =>
      obtain ⟨leftSorted, rootSorted, leftSmaller⟩ := List.pairwise_append.mp sorted
      obtain ⟨rightLarger, rightSorted⟩ := List.pairwise_cons.mp rootSorted
      rw [locate, probeFor]
      rcases List.mem_append.mp member with inLeft | rest
      · rw [compare_lt_iff_lt.mpr (leftSmaller node inLeft root List.mem_cons_self)]
        exact leftHypothesis _ leftSorted inLeft
      · rcases List.mem_cons.mp rest with rfl | inRight
        · rw [compare_eq_iff_eq.mpr rfl]
          exact ⟨frames, left, red, right, rfl⟩
        · rw [compare_gt_iff_gt.mpr (rightLarger node inRight)]
          exact rightHypothesis _ rightSorted inRight

/-- Unlinking a node is unlinking it from the ordered list of nodes. -/
theorem nodes_remove {tree : BinTree ν} {node : ν} {height : Nat} [DecidableEq ν]
    (balanced : BinTree.Balanced tree height) (black : tree.isRed = false)
    (sorted : Sorted key tree.nodes) (member : node ∈ tree.nodes) :
    (remove (probeFor key (key node)) tree).nodes = OrderedTree.remove node tree.nodes := by
  have fits : Fits ([] : List (Frame ν)) tree.isRed height := by
    rw [black]
    exact .root height
  have spec := locate_spec (probeFor key (key node)) fits balanced
  obtain ⟨path, left, red, right, found⟩ := locate_node [] sorted member
  rw [found] at spec
  obtain ⟨same, below, foundFits, foundBalanced⟩ := spec
  rw [isRed_node] at foundFits
  have whole : tree.nodes = nodesBefore path ++ (left.nodes ++ node :: right.nodes) ++
      nodesAfter path := by
    rw [← plug_nil tree, ← same, nodes_plug, nodes_node]
  have nodup := sorted.nodup
  rw [whole, List.append_assoc, List.append_assoc, List.cons_append, ← List.append_assoc] at nodup
  have absent : node ∉ nodesBefore path ++ left.nodes := by
    intro twice
    exact (List.nodup_append.mp nodup).2.2 node twice node List.mem_cons_self rfl
  have split : tree.nodes = (nodesBefore path ++ left.nodes) ++
      node :: (right.nodes ++ nodesAfter path) := by
    rw [whole]
    simp
  rw [remove, found]
  dsimp only
  rw [(removeRoot_spec foundFits foundBalanced).2.2, OrderedTree.remove, split,
    List.erase_append_right _ absent, List.erase_cons_head]
  simp

end Ordered

end LeftLeaning
end Vmem
