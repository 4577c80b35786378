import Mathlib.Algebra.Order.Ring.Nat
import Mathlib.Data.List.Basic
import Mathlib.Tactic.Cases

/-!
# Left-leaning 2-3 red-black trees

A tree whose nodes are red or black stands for a 2-3 tree: a red left child and
its parent form a 3-node.  Edits walk down from the root, remember the way back
as a list of frames, and repair the tree frame by frame on the way up until
nothing is left to repair.
-/

namespace Vmem
namespace LeftLeaning

variable {ν : Type}

/-- A binary tree with coloured nodes. -/
inductive BinTree (ν : Type)
  | nil
  | node (left : BinTree ν) (root : ν) (red : Bool) (right : BinTree ν)

namespace BinTree

/-- The nodes from left to right. -/
def nodes : BinTree ν → List ν
  | nil => []
  | node left root _ right => left.nodes ++ root :: right.nodes

/-- The colour of the root; an empty tree counts as black. -/
def isRed : BinTree ν → Bool
  | nil => false
  | node _ _ red _ => red

/-- Give the root the colour black. -/
def blacken : BinTree ν → BinTree ν
  | nil => nil
  | node left root _ right => node left root false right

/-- The number of nodes on a longest way down. -/
def depth : BinTree ν → Nat
  | nil => 0
  | node left _ _ right => max left.depth right.depth + 1

@[simp] theorem nodes_nil : (nil : BinTree ν).nodes = [] := rfl

@[simp] theorem nodes_node (left right : BinTree ν) (root : ν) (red : Bool) :
    (node left root red right).nodes = left.nodes ++ root :: right.nodes := rfl

@[simp] theorem isRed_nil : (nil : BinTree ν).isRed = false := rfl

@[simp] theorem isRed_node (left right : BinTree ν) (root : ν) (red : Bool) :
    (node left root red right).isRed = red := rfl

@[simp] theorem blacken_nil : (nil : BinTree ν).blacken = nil := rfl

@[simp] theorem blacken_node (left right : BinTree ν) (root : ν) (red : Bool) :
    (node left root red right).blacken = node left root false right := rfl

@[simp] theorem nodes_blacken (tree : BinTree ν) : tree.blacken.nodes = tree.nodes := by
  cases tree <;> rfl

@[simp] theorem isRed_blacken (tree : BinTree ν) : tree.blacken.isRed = false := by
  cases tree <;> rfl

theorem eq_node_of_isRed {tree : BinTree ν} (red : tree.isRed = true) :
    ∃ left root right, tree = node left root true right := by
  cases tree with
  | nil => simp at red
  | node left root colour right =>
      rw [isRed_node] at red
      exact ⟨left, root, right, by rw [red]⟩

/-- The invariant: every way down meets the same number of black nodes, red nodes
are left children, and no red node has a red child. -/
inductive Balanced : BinTree ν → Nat → Prop
  | nil : Balanced nil 0
  | black {left right : BinTree ν} {root : ν} {height : Nat}
      (leftBalanced : Balanced left height) (rightBalanced : Balanced right height)
      (rightBlack : right.isRed = false) :
      Balanced (node left root false right) (height + 1)
  | red {left right : BinTree ν} {root : ν} {height : Nat}
      (leftBalanced : Balanced left height) (rightBalanced : Balanced right height)
      (leftBlack : left.isRed = false) (rightBlack : right.isRed = false) :
      Balanced (node left root true right) height

/-- The number of black nodes on a way down through a root of this colour. -/
def weight (red : Bool) (height : Nat) : Nat := if red then height else height + 1

@[simp] theorem weight_red (height : Nat) : weight true height = height := rfl

@[simp] theorem weight_black (height : Nat) : weight false height = height + 1 := rfl

/-- Both subtrees of a balanced tree are balanced, and its right child is black. -/
theorem Balanced.children {left right : BinTree ν} {root : ν} {red : Bool} {height : Nat}
    (balanced : Balanced (node left root red right) height) :
    ∃ below, height = weight red below ∧ Balanced left below ∧ Balanced right below ∧
      right.isRed = false ∧ (red = true → left.isRed = false) := by
  cases balanced with
  | black leftBalanced rightBalanced rightBlack =>
      exact ⟨_, rfl, leftBalanced, rightBalanced, rightBlack, by simp⟩
  | red leftBalanced rightBalanced leftBlack rightBlack =>
      exact ⟨_, rfl, leftBalanced, rightBalanced, rightBlack, fun _ => leftBlack⟩

/-- A node over balanced subtrees. -/
theorem Balanced.node {left right : BinTree ν} {root : ν} {red : Bool} {height : Nat}
    (leftBalanced : Balanced left height) (rightBalanced : Balanced right height)
    (rightBlack : right.isRed = false) (leftBlack : red = true → left.isRed = false) :
    Balanced (.node left root red right) (weight red height) := by
  cases red with
  | false => exact .black leftBalanced rightBalanced rightBlack
  | true => exact .red leftBalanced rightBalanced (leftBlack rfl) rightBlack

theorem Balanced.eq_nil {tree : BinTree ν} (balanced : Balanced tree 0)
    (black : tree.isRed = false) : tree = BinTree.nil := by
  cases balanced with
  | nil => rfl
  | red => simp at black

/-- A black root of positive height. -/
theorem Balanced.eq_black {tree : BinTree ν} {height : Nat} (balanced : Balanced tree (height + 1))
    (black : tree.isRed = false) :
    ∃ left root right, tree = .node left root false right ∧ Balanced left height ∧
      Balanced right height ∧ right.isRed = false := by
  cases balanced with
  | black leftBalanced rightBalanced rightBlack =>
      exact ⟨_, _, _, rfl, leftBalanced, rightBalanced, rightBlack⟩
  | red => simp at black

theorem Balanced.eq_red {tree : BinTree ν} {height : Nat} (balanced : Balanced tree height)
    (red : tree.isRed = true) :
    ∃ left root right, tree = .node left root true right ∧ Balanced left height ∧
      Balanced right height ∧ left.isRed = false ∧ right.isRed = false := by
  cases balanced with
  | nil => simp at red
  | black => simp at red
  | red leftBalanced rightBalanced leftBlack rightBlack =>
      exact ⟨_, _, _, rfl, leftBalanced, rightBalanced, leftBlack, rightBlack⟩

/-- Giving a red root the colour black adds one black node to every way down. -/
theorem Balanced.blacken {tree : BinTree ν} {height : Nat} (balanced : Balanced tree height)
    (red : tree.isRed = true) : Balanced tree.blacken (height + 1) := by
  obtain ⟨left, root, right, rfl, leftBalanced, rightBalanced, _, rightBlack⟩ :=
    balanced.eq_red red
  exact .black leftBalanced rightBalanced rightBlack

/-- A balanced tree is filled at least as densely as a complete one of its height. -/
theorem Balanced.two_pow_le {tree : BinTree ν} {height : Nat} (balanced : Balanced tree height) :
    2 ^ height ≤ tree.nodes.length + 1 := by
  induction balanced with
  | nil => simp
  | black _ _ _ leftHypothesis rightHypothesis =>
      rw [Nat.pow_succ, nodes_node, List.length_append, List.length_cons]
      omega
  | red _ _ _ _ leftHypothesis rightHypothesis =>
      rw [nodes_node, List.length_append, List.length_cons]
      omega

/-- A way down has at most as many red nodes as black ones, and one more if the
root is red. -/
theorem Balanced.depth_le {tree : BinTree ν} {height : Nat} (balanced : Balanced tree height) :
    tree.depth ≤ 2 * height + if tree.isRed then 1 else 0 := by
  induction balanced with
  | nil => simp [depth]
  | @black left right root height _ _ rightBlack leftHypothesis rightHypothesis =>
      rw [rightBlack] at rightHypothesis
      simp only [depth, isRed_node]
      split at leftHypothesis <;> simp at rightHypothesis ⊢ <;> omega
  | red _ _ leftBlack rightBlack leftHypothesis rightHypothesis =>
      rw [leftBlack] at leftHypothesis
      rw [rightBlack] at rightHypothesis
      simp only [depth, isRed_node]
      simp at leftHypothesis rightHypothesis ⊢
      omega

end BinTree

open BinTree

/-! ## The way back to the root -/

/-- One node on a way down: its colour, the side that the way takes and the subtree
on the other side. -/
structure Frame (ν : Type) where
  node : ν
  red : Bool
  goesLeft : Bool
  sibling : BinTree ν

/-- Put a subtree back below its parent. -/
def Frame.fill (frame : Frame ν) (tree : BinTree ν) : BinTree ν :=
  if frame.goesLeft then .node tree frame.node frame.red frame.sibling
  else .node frame.sibling frame.node frame.red tree

/-- The whole tree around a subtree; the innermost frame comes first. -/
def plug : List (Frame ν) → BinTree ν → BinTree ν
  | [], tree => tree
  | frame :: rest, tree => plug rest (frame.fill tree)

/-- The nodes left of a subtree. -/
def nodesBefore : List (Frame ν) → List ν
  | [] => []
  | frame :: rest =>
      nodesBefore rest ++ if frame.goesLeft then [] else frame.sibling.nodes ++ [frame.node]

/-- The nodes right of a subtree. -/
def nodesAfter : List (Frame ν) → List ν
  | [] => []
  | frame :: rest =>
      (if frame.goesLeft then frame.node :: frame.sibling.nodes else []) ++ nodesAfter rest

@[simp] theorem plug_nil (tree : BinTree ν) : plug [] tree = tree := rfl

@[simp] theorem plug_cons (frame : Frame ν) (rest : List (Frame ν)) (tree : BinTree ν) :
    plug (frame :: rest) tree = plug rest (frame.fill tree) := rfl

theorem nodes_plug (frames : List (Frame ν)) (tree : BinTree ν) :
    (plug frames tree).nodes = nodesBefore frames ++ tree.nodes ++ nodesAfter frames := by
  induction frames generalizing tree with
  | nil => simp [nodesBefore, nodesAfter]
  | cons frame rest inductionHypothesis =>
      rw [plug_cons, inductionHypothesis, nodesBefore, nodesAfter, Frame.fill]
      cases frame.goesLeft with
      | false => simp
      | true => simp

/-- What happens to a subtree's nodes happens to the whole tree. -/
theorem nodes_plug_congr (frames : List (Frame ν)) {tree other : BinTree ν}
    (same : tree.nodes = other.nodes) : (plug frames tree).nodes = (plug frames other).nodes := by
  rw [nodes_plug, nodes_plug, same]

/-- A place for a balanced subtree of the given height whose root may be red only if
`red` holds: with it the whole tree is balanced and its root is black. -/
inductive Fits : List (Frame ν) → Bool → Nat → Prop
  | root (height : Nat) : Fits [] false height
  | left {node : ν} {red : Bool} {sibling : BinTree ν} {rest : List (Frame ν)} {height : Nat}
      {hole : Bool} (siblingBalanced : BinTree.Balanced sibling height)
      (siblingBlack : sibling.isRed = false) (alternates : red = true → hole = false)
      (restFits : Fits rest red (weight red height)) :
      Fits (⟨node, red, true, sibling⟩ :: rest) hole height
  | right {node : ν} {red : Bool} {sibling : BinTree ν} {rest : List (Frame ν)} {height : Nat}
      (siblingBalanced : BinTree.Balanced sibling height)
      (alternates : red = true → sibling.isRed = false)
      (restFits : Fits rest red (weight red height)) :
      Fits (⟨node, red, false, sibling⟩ :: rest) false height

/-- Where a red root fits a black one fits. -/
theorem Fits.black {frames : List (Frame ν)} {hole : Bool} {height : Nat}
    (fits : Fits frames hole height) : Fits frames false height := by
  cases fits with
  | root => exact .root height
  | left siblingBalanced siblingBlack _ restFits =>
      exact .left siblingBalanced siblingBlack (fun _ => rfl) restFits
  | right siblingBalanced alternates restFits =>
      exact .right siblingBalanced alternates restFits

/-- Filling a place with what fits gives a balanced tree with a black root. -/
theorem Fits.plug {frames : List (Frame ν)} {hole : Bool} {height : Nat} {tree : BinTree ν}
    (fits : Fits frames hole height) (balanced : BinTree.Balanced tree height)
    (colour : tree.isRed = true → hole = true) :
    (∃ whole, BinTree.Balanced (LeftLeaning.plug frames tree) whole) ∧
      (LeftLeaning.plug frames tree).isRed = false := by
  induction fits generalizing tree with
  | root height =>
      refine ⟨⟨_, balanced⟩, ?_⟩
      cases red : tree.isRed with
      | false => exact red
      | true => exact absurd (colour red) (by simp)
  | left siblingBalanced siblingBlack alternates _ inductionHypothesis =>
      refine inductionHypothesis ?_ (by simp [Frame.fill])
      refine balanced.node siblingBalanced siblingBlack fun isRed => ?_
      cases red : tree.isRed with
      | false => rfl
      | true => exact absurd ((colour red).symm.trans (alternates isRed)) (by simp)
  | right siblingBalanced alternates _ inductionHypothesis =>
      refine inductionHypothesis ?_ (by simp [Frame.fill])
      refine siblingBalanced.node balanced ?_ alternates
      cases red : tree.isRed with
      | false => rfl
      | true => exact absurd (colour red) (by simp)

/-- The place of a subtree of a balanced node, on either side. -/
theorem Fits.down {left right : BinTree ν} {root : ν} {red : Bool} {height : Nat}
    {frames : List (Frame ν)} (fits : Fits frames red height)
    (balanced : BinTree.Balanced (.node left root red right) height) :
    ∃ below, height = weight red below ∧ left.Balanced below ∧ right.Balanced below ∧
      Fits (⟨root, red, true, right⟩ :: frames) left.isRed below ∧
      Fits (⟨root, red, false, left⟩ :: frames) right.isRed below := by
  obtain ⟨below, rfl, leftBalanced, rightBalanced, rightBlack, alternates⟩ := balanced.children
  refine ⟨below, rfl, leftBalanced, rightBalanced, ?_, ?_⟩
  · exact .left rightBalanced rightBlack alternates fits
  · rw [rightBlack]
    exact .right leftBalanced alternates fits

end LeftLeaning
end Vmem
