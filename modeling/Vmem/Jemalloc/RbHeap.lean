import Vmem.Library.LeftLeaningEdits
import Vmem.Jemalloc.RbTree
import Mathlib.Data.List.Perm.Subperm

/-!
# Linked nodes hold a tree

The links of the nodes below a pointer hold a tree of colours and nodes, and the links
of the nodes above it hold the frames of the way back to the root.  Every edit of the
links is an edit of the held tree.
-/

namespace Vmem
namespace Jemalloc
namespace Rb

open LeftLeaning (BinTree Frame Fits plug)

/-- The links below a pointer hold a tree. -/
def Holds (nil : Ptr) (links : Links) : BinTree Ptr → Ptr → Prop
  | .nil, node => node = nil
  | .node left root red right, node =>
      node = root ∧ root ≠ nil ∧ links.redGet root = red ∧
        Holds nil links left (links.leftGet root) ∧ Holds nil links right (links.rightGet root)

/-- The links of a node hold a frame above a subtree. -/
def HoldsFrame (nil : Ptr) (links : Links) (frame : Frame Ptr) (hole : Ptr) : Prop :=
  frame.node ≠ nil ∧ links.redGet frame.node = frame.red ∧
    if frame.goesLeft then
      links.leftGet frame.node = hole ∧ Holds nil links frame.sibling (links.rightGet frame.node)
    else
      links.rightGet frame.node = hole ∧ Holds nil links frame.sibling (links.leftGet frame.node)

/-- The links above a subtree hold the way back to the root. -/
def HoldsPath (nil : Ptr) (links : Links) (root : Ptr) : List (Frame Ptr) → Ptr → Prop
  | [], hole => root = hole
  | frame :: rest, hole =>
      HoldsFrame nil links frame hole ∧ HoldsPath nil links root rest frame.node

/-- The slot of a frame. -/
def entryOf (frame : Frame Ptr) : PathEntry :=
  ⟨frame.node, if frame.goesLeft then .lt else .gt⟩

/-- The nodes of a frame and its sibling. -/
def frameNodes (frame : Frame Ptr) : List Ptr := frame.node :: frame.sibling.nodes

variable {nil : Ptr} {links other : Links}

@[simp] theorem holds_nil {node : Ptr} : Holds nil links .nil node ↔ node = nil := Iff.rfl

@[simp] theorem holds_node {left right : BinTree Ptr} {root node : Ptr} {red : Bool} :
    Holds nil links (.node left root red right) node ↔
      node = root ∧ root ≠ nil ∧ links.redGet root = red ∧
        Holds nil links left (links.leftGet root) ∧
        Holds nil links right (links.rightGet root) := Iff.rfl

/-- What a held tree says about its pointer. -/
theorem Holds.eq_nil_iff {tree : BinTree Ptr} {node : Ptr} (holds : Holds nil links tree node) :
    node = nil ↔ tree = .nil := by
  cases tree with
  | nil => exact ⟨fun _ => rfl, fun _ => holds⟩
  | node left root red right =>
      obtain ⟨rfl, notNil, _⟩ := holds
      exact ⟨fun isNil => absurd isNil notNil, fun shape => by cases shape⟩

/-- The colour that is read at a held tree. -/
theorem Holds.redGet {tree : BinTree Ptr} {node : Ptr} (nilBlack : links.redGet nil = false)
    (holds : Holds nil links tree node) : links.redGet node = tree.isRed := by
  cases tree with
  | nil =>
      rw [holds_nil] at holds
      rw [holds, nilBlack]
      rfl
  | node left root red right =>
      obtain ⟨rfl, _, colour, _⟩ := holds
      exact colour

theorem holds_congr {tree : BinTree Ptr} {node : Ptr}
    (same : ∀ linked ∈ tree.nodes, other linked = links linked) :
    Holds nil other tree node ↔ Holds nil links tree node := by
  induction tree generalizing node with
  | nil => rfl
  | node left root red right leftHypothesis rightHypothesis =>
      have atRoot := same root (by simp)
      rw [holds_node, holds_node,
        leftHypothesis fun linked member => same linked (by simp [member]),
        rightHypothesis fun linked member => same linked (by simp [member])]
      simp only [Links.redGet, Links.leftGet, Links.rightGet, atRoot]

theorem holdsFrame_congr {frame : Frame Ptr} {hole : Ptr}
    (same : ∀ linked ∈ frameNodes frame, other linked = links linked) :
    HoldsFrame nil other frame hole ↔ HoldsFrame nil links frame hole := by
  have atNode := same frame.node (by simp [frameNodes])
  unfold HoldsFrame
  rw [holds_congr fun linked member => same linked (by simp [frameNodes, member]),
    holds_congr fun linked member => same linked (by simp [frameNodes, member])]
  simp only [Links.redGet, Links.leftGet, Links.rightGet, atNode]

/-- The nodes above a subtree. -/
def pathNodes (frames : List (Frame Ptr)) : List Ptr := frames.flatMap frameNodes

theorem holdsPath_congr {root : Ptr} {frames : List (Frame Ptr)} {hole : Ptr}
    (same : ∀ linked ∈ pathNodes frames, other linked = links linked) :
    HoldsPath nil other root frames hole ↔ HoldsPath nil links root frames hole := by
  induction frames generalizing hole with
  | nil => rfl
  | cons frame rest inductionHypothesis =>
      unfold HoldsPath
      rw [inductionHypothesis fun linked member => same linked (by simp_all [pathNodes]),
        holdsFrame_congr fun linked member => same linked (by simp_all [pathNodes])]

/-- A frame over a held subtree is a held tree. -/
theorem HoldsFrame.fill {frame : Frame Ptr} {hole : Ptr} {tree : BinTree Ptr}
    (frameHolds : HoldsFrame nil links frame hole) (holds : Holds nil links tree hole) :
    Holds nil links (frame.fill tree) frame.node := by
  obtain ⟨notNil, colour, sides⟩ := frameHolds
  unfold Frame.fill
  split
  · next left =>
      rw [if_pos left] at sides
      exact ⟨rfl, notNil, colour, by rw [sides.1]; exact holds, sides.2⟩
  · next right =>
      rw [if_neg right] at sides
      exact ⟨rfl, notNil, colour, sides.2, by rw [sides.1]; exact holds⟩

theorem HoldsPath.plug {root : Ptr} {frames : List (Frame Ptr)} {hole : Ptr} {tree : BinTree Ptr}
    (pathHolds : HoldsPath nil links root frames hole) (holds : Holds nil links tree hole) :
    Holds nil links (plug frames tree) root := by
  induction frames generalizing hole tree with
  | nil =>
      rw [show root = hole from pathHolds]
      exact holds
  | cons frame rest inductionHypothesis =>
      exact inductionHypothesis pathHolds.2 (pathHolds.1.fill holds)

/-! ## Separate nodes -/

theorem notMem_cons {α : Type} {left right : α} {rest : List α} :
    left ∉ right :: rest ↔ left ≠ right ∧ right ≠ left ∧ left ∉ rest := by
  rw [List.mem_cons, not_or, ne_comm (a := right)]
  tauto

theorem notMem_append {α : Type} {member : α} {first second : List α} :
    member ∉ first ++ second ↔ member ∉ first ∧ member ∉ second := by
  rw [List.mem_append, not_or]

/-- The nodes of a tree are separate if those of its parts are. -/
theorem nodup_nodes {left right : BinTree Ptr} {root : Ptr} {red : Bool} :
    (BinTree.node left root red right).nodes.Nodup ↔
      left.nodes.Nodup ∧ right.nodes.Nodup ∧ root ∉ left.nodes ∧ root ∉ right.nodes ∧
        left.nodes.Disjoint right.nodes := by
  rw [BinTree.nodes_node, List.nodup_append', List.nodup_cons, List.disjoint_cons_right]
  tauto

theorem disjoint_node_left {left right : BinTree Ptr} {root : Ptr} {red : Bool} {rest : List Ptr} :
    (BinTree.node left root red right).nodes.Disjoint rest ↔
      left.nodes.Disjoint rest ∧ root ∉ rest ∧ right.nodes.Disjoint rest := by
  rw [BinTree.nodes_node, List.disjoint_append_left, List.disjoint_cons_left]

theorem disjoint_node_right {left right : BinTree Ptr} {root : Ptr} {red : Bool} {rest : List Ptr} :
    rest.Disjoint (BinTree.node left root red right).nodes ↔
      rest.Disjoint left.nodes ∧ root ∉ rest ∧ rest.Disjoint right.nodes := by
  rw [BinTree.nodes_node, List.disjoint_append_right, List.disjoint_cons_right]

theorem notMem_node {left right : BinTree Ptr} {root node : Ptr} {red : Bool} :
    node ∉ (BinTree.node left root red right).nodes ↔
      node ∉ left.nodes ∧ node ≠ root ∧ root ≠ node ∧ node ∉ right.nodes := by
  rw [BinTree.nodes_node, notMem_append, notMem_cons]

/-- A frame and a subtree below it. -/
theorem fill_perm (frame : Frame Ptr) (tree : BinTree Ptr) :
    (frame.fill tree).nodes.Perm (frameNodes frame ++ tree.nodes) := by
  unfold Frame.fill frameNodes
  split
  · exact List.perm_middle.trans (List.Perm.cons _ List.perm_append_comm)
  · exact List.perm_middle

@[simp] theorem pathNodes_nil : pathNodes [] = [] := rfl

@[simp] theorem pathNodes_cons (frame : Frame Ptr) (rest : List (Frame Ptr)) :
    pathNodes (frame :: rest) = frameNodes frame ++ pathNodes rest := rfl

/-- A subtree below its frame takes the place of both. -/
theorem pathNodes_perm (frame : Frame Ptr) (rest : List (Frame Ptr)) (tree : BinTree Ptr) :
    (pathNodes rest ++ (frame.fill tree).nodes).Perm (pathNodes (frame :: rest) ++ tree.nodes) := by
  refine (List.Perm.append_left (pathNodes rest) (fill_perm frame tree)).trans ?_
  rw [pathNodes_cons, ← List.append_assoc]
  exact List.Perm.append_right _ List.perm_append_comm

/-- The whole tree consists of the nodes above a subtree and those in it. -/
theorem plug_perm (frames : List (Frame Ptr)) (tree : BinTree Ptr) :
    (plug frames tree).nodes.Perm (pathNodes frames ++ tree.nodes) := by
  induction frames generalizing tree with
  | nil => exact List.Perm.refl _
  | cons frame rest inductionHypothesis =>
      exact (inductionHypothesis (frame.fill tree)).trans (pathNodes_perm frame rest tree)

/-- The sentinel is not a node. -/
theorem Holds.notMem {tree : BinTree Ptr} {node : Ptr} (holds : Holds nil links tree node) :
    nil ∉ tree.nodes := by
  induction tree generalizing node with
  | nil => simp
  | node left root red right leftHypothesis rightHypothesis =>
      obtain ⟨_, notNil, _, leftHolds, rightHolds⟩ := holds
      exact notMem_node.mpr
        ⟨leftHypothesis leftHolds, notNil.symm, notNil, rightHypothesis rightHolds⟩

theorem HoldsPath.notMem {root : Ptr} {frames : List (Frame Ptr)} {hole : Ptr}
    (pathHolds : HoldsPath nil links root frames hole) : nil ∉ pathNodes frames := by
  induction frames generalizing hole with
  | nil => simp
  | cons frame rest inductionHypothesis =>
      obtain ⟨⟨notNil, _, sides⟩, restHolds⟩ := pathHolds
      have siblingOut : nil ∉ frame.sibling.nodes := by
        split at sides
        · exact sides.2.notMem
        · exact sides.2.notMem
      rw [pathNodes_cons, notMem_append, frameNodes, notMem_cons]
      exact ⟨⟨notNil.symm, notNil, siblingOut⟩, inductionHypothesis restHolds⟩

/-- An edit of a frame and its subtree leaves the way above it. -/
theorem HoldsPath.above {root old : Ptr} {frame : Frame Ptr} {rest : List (Frame Ptr)}
    {tree : BinTree Ptr} (pathHolds : HoldsPath nil links root (frame :: rest) old)
    (nodup : (pathNodes (frame :: rest) ++ tree.nodes).Nodup)
    (same : ∀ node, node ∉ frameNodes frame ++ tree.nodes → other node = links node) :
    HoldsPath nil other root rest frame.node := by
  refine (holdsPath_congr fun linked member => same linked fun inside => ?_).mpr pathHolds.2
  have whole := ((List.Perm.append_left (pathNodes rest) (fill_perm frame tree)).symm.trans
    (pathNodes_perm frame rest tree)).nodup_iff.mpr nodup
  exact (List.nodup_append'.mp whole).2.2 member inside

/-! ## Writes outside a tree -/

@[simp] theorem holds_leftSet {tree : BinTree Ptr} {node written left : Ptr}
    (outside : written ∉ tree.nodes) :
    Holds nil (links.leftSet written left) tree node ↔ Holds nil links tree node :=
  holds_congr fun _ member => links.leftSet_of_ne fun same => outside (same ▸ member)

@[simp] theorem holds_rightSet {tree : BinTree Ptr} {node written right : Ptr}
    (outside : written ∉ tree.nodes) :
    Holds nil (links.rightSet written right) tree node ↔ Holds nil links tree node :=
  holds_congr fun _ member => links.rightSet_of_ne fun same => outside (same ▸ member)

@[simp] theorem holds_colorSet {tree : BinTree Ptr} {node written : Ptr} {red : Bool}
    (outside : written ∉ tree.nodes) :
    Holds nil (links.colorSet written red) tree node ↔ Holds nil links tree node :=
  holds_congr fun _ member => links.colorSet_of_ne fun same => outside (same ▸ member)

/-- Links agree outside some nodes. -/
def SameOutside (edited : List Ptr) (links other : Links) : Prop :=
  ∀ node, node ∉ edited → other node = links node

theorem SameOutside.trans {first second : List Ptr} {third : Links}
    (before : SameOutside first links other) (after : SameOutside second other third)
    (sub : ∀ node ∈ second, node ∈ first) : SameOutside first links third := by
  intro node outside
  rw [after node fun member => outside (sub node member), before node outside]

/-! ## Insertion -/

/-- One repair of an insertion below the left side of a frame. -/
theorem insertFix_left {node old child : Ptr} {red : Bool} {sibling tree : BinTree Ptr}
    (nilBlack : links.redGet nil = false)
    (frameHolds : HoldsFrame nil links ⟨node, red, true, sibling⟩ old)
    (holds : Holds nil links tree child)
    (nodup : (BinTree.node tree node red sibling).nodes.Nodup) :
    let frame : Frame Ptr := ⟨node, red, true, sibling⟩
    let fix := insertFix links (entryOf frame) child
    Holds nil fix.1 (LeftLeaning.insertStep frame tree).1 (fix.2.getD node) ∧
      fix.2.isSome = (LeftLeaning.insertStep frame tree).2 ∧
      SameOutside (frameNodes frame ++ tree.nodes) links fix.1 := by
  obtain ⟨nodeNil, nodeRed, _, siblingHolds⟩ := frameHolds
  dsimp only at nodeNil nodeRed siblingHolds
  have childRed := holds.redGet nilBlack
  by_cases fourNode : ∃ a x b y c, tree = .node (.node a x true b) y true c
  · obtain ⟨a, x, b, y, c, rfl⟩ := fourNode
    simp only [holds_node] at holds
    obtain ⟨rfl, yNil, yRed, ⟨xLinked, xNil, xRed, aHolds, bHolds⟩, cHolds⟩ := holds
    simp only [nodup_nodes, disjoint_node_left, notMem_node, and_assoc] at nodup
    refine ⟨?_, ?_, ?_⟩
    · simp [*, insertFix, entryOf, LeftLeaning.insertStep]
    · simp [*, insertFix, entryOf, LeftLeaning.insertStep]
    · intro other outside
      simp only [frameNodes, List.cons_append, notMem_cons, notMem_append, notMem_node] at outside
      simp [*, insertFix, entryOf]
  · have step : LeftLeaning.insertStep ⟨node, red, true, sibling⟩ tree =
        (.node tree node red sibling, tree.isRed) := by
      unfold LeftLeaning.insertStep
      rw [if_pos rfl]
      split
      · next a x b y c => exact absurd ⟨a, x, b, y, c, rfl⟩ fourNode
      · rfl
    have fix : insertFix links (entryOf ⟨node, red, true, sibling⟩) child =
        (links.leftSet node child, if tree.isRed then some node else none) := by
      cases treeRed : tree.isRed with
      | false =>
          rw [treeRed] at childRed
          simp [insertFix, entryOf, childRed]
      | true =>
          obtain ⟨left, root, right, rfl⟩ := BinTree.eq_node_of_isRed treeRed
          obtain ⟨rfl, _, rootRed, leftHolds, _⟩ := holds
          have leftBlack : left.isRed = false := by
            by_contra leftRed
            obtain ⟨a, x, b, rfl⟩ := BinTree.eq_node_of_isRed (by simpa using leftRed)
            exact fourNode ⟨a, x, b, child, right, rfl⟩
          have leftRed := leftHolds.redGet nilBlack
          rw [leftBlack] at leftRed
          have apart : child ≠ node := fun same => by
            rw [nodup_nodes] at nodup
            exact nodup.2.2.1 (by simp [same])
          simp [insertFix, entryOf, rootRed, leftRed, apart]
    simp only [nodup_nodes] at nodup
    dsimp only
    rw [step, fix]
    refine ⟨?_, ?_, ?_⟩
    · cases tree.isRed with
      | true => simp [*]
      | false => simp [*]
    · cases tree.isRed <;> rfl
    · intro other outside
      simp only [frameNodes, List.cons_append, notMem_cons] at outside
      simp [outside]

/-- One repair of an insertion below the right side of a frame. -/
theorem insertFix_right {node old child : Ptr} {red : Bool} {sibling tree : BinTree Ptr}
    (nilBlack : links.redGet nil = false)
    (frameHolds : HoldsFrame nil links ⟨node, red, false, sibling⟩ old)
    (holds : Holds nil links tree child)
    (nodup : (BinTree.node sibling node red tree).nodes.Nodup) :
    let frame : Frame Ptr := ⟨node, red, false, sibling⟩
    let fix := insertFix links (entryOf frame) child
    Holds nil fix.1 (LeftLeaning.insertStep frame tree).1 (fix.2.getD node) ∧
      fix.2.isSome = (LeftLeaning.insertStep frame tree).2 ∧
      SameOutside (frameNodes frame ++ tree.nodes) links fix.1 := by
  obtain ⟨nodeNil, nodeRed, _, siblingHolds⟩ := frameHolds
  dsimp only at nodeNil nodeRed siblingHolds
  have childRed := holds.redGet nilBlack
  have siblingRed := siblingHolds.redGet nilBlack
  cases treeRed : tree.isRed with
  | false =>
      have step : LeftLeaning.insertStep ⟨node, red, false, sibling⟩ tree =
          (.node sibling node red tree, false) := by
        cases tree with
        | nil => rfl
        | node _ _ colour _ =>
            rw [BinTree.isRed_node] at treeRed
            rw [treeRed]
            rfl
      have fix : insertFix links (entryOf ⟨node, red, false, sibling⟩) child =
          (links.rightSet node child, none) := by
        rw [treeRed] at childRed
        simp [insertFix, entryOf, childRed]
      simp only [nodup_nodes] at nodup
      dsimp only
      rw [step, fix]
      refine ⟨?_, rfl, ?_⟩
      · simp [*]
      · intro other outside
        simp only [frameNodes, List.cons_append, notMem_cons] at outside
        simp [outside]
  | true =>
      obtain ⟨a, y, b, rfl⟩ := BinTree.eq_node_of_isRed treeRed
      simp only [holds_node] at holds
      obtain ⟨rfl, yNil, yRed, aHolds, bHolds⟩ := holds
      cases isRed : sibling.isRed with
      | true =>
          obtain ⟨c, x, d, rfl⟩ := BinTree.eq_node_of_isRed isRed
          simp only [holds_node] at siblingHolds
          obtain ⟨xLinked, xNil, xRed, cHolds, dHolds⟩ := siblingHolds
          simp only [nodup_nodes, disjoint_node_left, disjoint_node_right, notMem_node,
            and_assoc] at nodup
          refine ⟨?_, ?_, ?_⟩
          · simp [*, insertFix, entryOf, LeftLeaning.insertStep]
          · simp [*, insertFix, entryOf, LeftLeaning.insertStep]
          · intro other outside
            simp only [frameNodes, List.cons_append, notMem_cons, notMem_append,
              notMem_node] at outside
            simp [*, insertFix, entryOf]
      | false =>
          rw [isRed] at siblingRed
          simp only [nodup_nodes, disjoint_node_right, notMem_node, and_assoc] at nodup
          refine ⟨?_, ?_, ?_⟩
          · simp [*, insertFix, entryOf, LeftLeaning.insertStep]
          · simp [*, insertFix, entryOf, LeftLeaning.insertStep]
          · intro other outside
            simp only [frameNodes, List.cons_append, notMem_cons, notMem_append,
              notMem_node] at outside
            simp [*, insertFix, entryOf]

/-- One repair of an insertion is one of the held tree. -/
theorem insertFix_spec {frame : Frame Ptr} {old child : Ptr} {tree : BinTree Ptr}
    (nilBlack : links.redGet nil = false) (frameHolds : HoldsFrame nil links frame old)
    (holds : Holds nil links tree child) (nodup : (frame.fill tree).nodes.Nodup) :
    let fix := insertFix links (entryOf frame) child
    Holds nil fix.1 (LeftLeaning.insertStep frame tree).1 (fix.2.getD frame.node) ∧
      fix.2.isSome = (LeftLeaning.insertStep frame tree).2 ∧
      SameOutside (frameNodes frame ++ tree.nodes) links fix.1 := by
  obtain ⟨node, red, goesLeft, sibling⟩ := frame
  cases goesLeft with
  | true => exact insertFix_left nilBlack frameHolds holds nodup
  | false => exact insertFix_right nilBlack frameHolds holds nodup

theorem ne_nil_of_insertStep (frame : Frame Ptr) (tree : BinTree Ptr) :
    (LeftLeaning.insertStep frame tree).1 ≠ .nil := by
  intro empty
  have nodes := LeftLeaning.nodes_insertStep frame tree
  rw [empty] at nodes
  have := (fill_perm frame tree).length_eq
  rw [← nodes] at this
  simp [frameNodes] at this

/-- The loop that unwinds an insertion repairs the held tree. -/
theorem insertUnwind_holds {root old child : Ptr} {frames : List (Frame Ptr)} {tree : BinTree Ptr}
    (nilBlack : links.redGet nil = false) (pathHolds : HoldsPath nil links root frames old)
    (holds : Holds nil links tree child) (notEmpty : tree ≠ .nil)
    (nodup : (pathNodes frames ++ tree.nodes).Nodup) :
    let out := insertUnwind root links (frames.map entryOf) child
    Holds nil out.links (LeftLeaning.insertUnwind frames tree) out.root ∧
      SameOutside (pathNodes frames ++ tree.nodes) links out.links := by
  induction frames generalizing links tree child old with
  | nil =>
      cases tree with
      | nil => exact absurd rfl notEmpty
      | node left node red right =>
          obtain ⟨rfl, notNil, _, leftHolds, rightHolds⟩ := holds
          simp only [pathNodes_nil, List.nil_append, nodup_nodes] at nodup
          obtain ⟨_, _, inLeft, inRight, _⟩ := nodup
          refine ⟨?_, ?_⟩
          · simp [insertUnwind, LeftLeaning.insertUnwind, *]
          · intro other outside
            simp only [pathNodes_nil, List.nil_append, notMem_node] at outside
            simp [insertUnwind, outside]
  | cons frame rest inductionHypothesis =>
      have whole := (pathNodes_perm frame rest tree).nodup_iff.mpr nodup
      have spec := insertFix_spec nilBlack pathHolds.1 holds (List.nodup_append'.mp whole).2.1
      rw [List.map_cons]
      unfold insertUnwind LeftLeaning.insertUnwind
      generalize insertFix links (entryOf frame) child = fix at spec
      obtain ⟨after, next⟩ := fix
      obtain ⟨stepHolds, goesOn, same⟩ := spec
      have above := pathHolds.above nodup same
      have sameAll : SameOutside (pathNodes (frame :: rest) ++ tree.nodes) links after :=
        fun node outside => same node fun inside => outside (by
          rcases List.mem_append.mp inside with inFrame | inTree
          · simp [inFrame]
          · simp [inTree])
      cases next with
      | none =>
          have stops : (LeftLeaning.insertStep frame tree).2 = false := goesOn.symm
          rw [stops]
          exact ⟨above.plug stepHolds, sameAll⟩
      | some cnode =>
          have continues : (LeftLeaning.insertStep frame tree).2 = true := goesOn.symm
          rw [continues]
          have nodes := LeftLeaning.nodes_insertStep frame tree
          have outNil : nil ∉ frameNodes frame ++ tree.nodes := by
            have pathOut := pathHolds.notMem
            rw [pathNodes_cons, notMem_append] at pathOut
            exact notMem_append.mpr ⟨pathOut.1, holds.notMem⟩
          have agrees : after nil = links nil := same nil outNil
          have black : after.redGet nil = false := (Links.redGet_congr agrees).trans nilBlack
          obtain ⟨outHolds, outSame⟩ := inductionHypothesis black above stepHolds
            (ne_nil_of_insertStep frame tree) (by rw [nodes]; exact whole)
          refine ⟨outHolds, sameAll.trans outSame fun node member => ?_⟩
          rw [nodes] at member
          exact (pathNodes_perm frame rest tree).mem_iff.mp member

/-- The way down of an insertion is the one in the held tree. -/
theorem insertWind_holds {cmp : Ptr → Ordering} {root node : Ptr} {frames : List (Frame Ptr)}
    {tree : BinTree Ptr} {room : Nat} (pathHolds : HoldsPath nil links root frames node)
    (holds : Holds nil links tree node) (differs : ∀ linked ∈ tree.nodes, cmp linked ≠ .eq)
    (enough : tree.depth ≤ room) :
    insertWind nil cmp links room node (frames.map entryOf) =
        some ((LeftLeaning.insertWind cmp tree frames).map entryOf) ∧
      HoldsPath nil links root (LeftLeaning.insertWind cmp tree frames) nil := by
  induction tree generalizing node frames room with
  | nil =>
      rw [holds_nil] at holds
      subst holds
      refine ⟨?_, pathHolds⟩
      unfold insertWind
      rw [if_pos rfl]
      rfl
  | node left root' red right leftHypothesis rightHypothesis =>
      obtain ⟨rfl, notNil, colour, leftHolds, rightHolds⟩ := holds
      unfold insertWind LeftLeaning.insertWind
      rw [if_neg notNil]
      rw [BinTree.depth] at enough
      cases room with
      | zero => exact absurd enough (by omega)
      | succ room =>
          have rootDiffers := differs node (by simp)
          dsimp only
          cases isCmp : cmp node with
          | eq => exact absurd isCmp rootDiffers
          | lt =>
              have leftPath : HoldsPath nil links root (⟨node, red, true, right⟩ :: frames)
                  (links.leftGet node) := ⟨⟨notNil, colour, rfl, rightHolds⟩, pathHolds⟩
              exact leftHypothesis leftPath leftHolds
                (fun linked member => differs linked (by simp [member])) (by omega)
          | gt =>
              have rightPath : HoldsPath nil links root (⟨node, red, false, left⟩ :: frames)
                  (links.rightGet node) := ⟨⟨notNil, colour, rfl, leftHolds⟩, pathHolds⟩
              exact rightHypothesis rightPath rightHolds
                (fun linked member => differs linked (by simp [member])) (by omega)

/-! ## Trees that fit the path array -/

/-- The links from the root hold a tree, and its nodes are separate. -/
structure Represents (nil : Ptr) (rbt : Rbt) (tree : BinTree Ptr) : Prop where
  holds : Holds nil rbt.links tree rbt.root
  nodup : tree.nodes.Nodup
  nilBlack : rbt.links.redGet nil = false

theorem Ptr.toNat_even (node : Ptr) : node.addr.toNat % 2 = 0 := by
  have bit : node.addr.toNat.testBit 0 = false := node.even
  rw [Nat.testBit_zero, decide_eq_false_iff_not] at bit
  omega

/-- There are at most half as many nodes as addresses. -/
theorem length_le_of_nodup {nodes : List Ptr} (nodup : nodes.Nodup) :
    nodes.length ≤ 2 ^ 63 := by
  have injective : Function.Injective fun node : Ptr => node.addr.toNat / 2 := by
    intro left right same
    have leftEven := Ptr.toNat_even left
    have rightEven := Ptr.toNat_even right
    exact Ptr.ext_addr (BitVec.eq_of_toNat_eq (by dsimp only at same; omega))
  have separate := nodup.map injective
  have inRange : nodes.map (fun node : Ptr => node.addr.toNat / 2) ⊆ List.range (2 ^ 63) := by
    intro half member
    obtain ⟨node, _, rfl⟩ := List.mem_map.mp member
    have := node.addr.isLt
    rw [List.mem_range]
    omega
  have := (separate.subperm inRange).length_le
  rwa [List.length_map, List.length_range] at this

/-- A balanced tree of linked nodes is less deep than the path array is long. -/
theorem Represents.depth_le {rbt : Rbt} {tree : BinTree Ptr} {height : Nat}
    (represents : Represents nil rbt tree) (balanced : BinTree.Balanced tree height)
    (black : tree.isRed = false) : tree.depth ≤ pathSlots - 2 := by
  have separate : (nil :: tree.nodes).Nodup :=
    List.nodup_cons.mpr ⟨represents.holds.notMem, represents.nodup⟩
  have few := length_le_of_nodup separate
  rw [List.length_cons] at few
  have dense := balanced.two_pow_le.trans few
  have low : height ≤ 63 := (Nat.pow_le_pow_iff_right (by norm_num)).mp dense
  have deep := balanced.depth_le
  rw [black] at deep
  have slots : pathSlots = 128 := rfl
  simp at deep
  omega

/-- Inserting a new node into a represented tree: the path fits its array, no assertion
fails, the links hold the tree after the insertion, and no other node is written. -/
theorem insert_represents {cmp : Ptr → Ptr → Ordering} {rbt : Rbt} {tree : BinTree Ptr}
    {height : Nat} {node : Ptr} (represents : Represents nil rbt tree)
    (balanced : BinTree.Balanced tree height) (black : tree.isRed = false)
    (notNil : node ≠ nil) (new : node ∉ tree.nodes)
    (differs : ∀ linked ∈ tree.nodes, cmp node linked ≠ .eq) :
    ∃ after, insert nil cmp rbt node = some after ∧
      Represents nil after (LeftLeaning.insert (cmp node) node tree) ∧
      SameOutside (node :: tree.nodes) rbt.links after.links := by
  have deep := represents.depth_le balanced black
  obtain ⟨holds, nodup, nilBlack⟩ := represents
  have started : Holds nil (rbtNodeNew nil rbt.links node) tree rbt.root := by
    simp [rbtNodeNew, new, holds]
  have stillBlack : (rbtNodeNew nil rbt.links node).redGet nil = false := by
    simp [rbtNodeNew, nilBlack, notNil.symm]
  have leaf : Holds nil (rbtNodeNew nil rbt.links node) (.node .nil node true .nil) node := by
    simp [rbtNodeNew, notNil]
  have newSame : SameOutside (node :: tree.nodes) rbt.links (rbtNodeNew nil rbt.links node) := by
    intro other outside
    rw [notMem_cons] at outside
    simp [rbtNodeNew, outside]
  obtain ⟨wound, pathHolds⟩ := insertWind_holds
    (show HoldsPath nil (rbtNodeNew nil rbt.links node) rbt.root [] rbt.root from rfl) started
    differs (show _ ≤ pathSlots - 1 by omega)
  have plugged := LeftLeaning.plug_insertWind (cmp node) tree []
  have pathPerm := plug_perm (LeftLeaning.insertWind (cmp node) tree []) .nil
  rw [plugged, LeftLeaning.plug_nil, BinTree.nodes_nil, List.append_nil] at pathPerm
  have separate : (pathNodes (LeftLeaning.insertWind (cmp node) tree []) ++
      (BinTree.node .nil node true .nil).nodes).Nodup := by
    rw [List.nodup_append_comm]
    exact List.nodup_cons.mpr ⟨fun member => new (pathPerm.mem_iff.mpr member),
      pathPerm.nodup_iff.mp nodup⟩
  obtain ⟨outHolds, outSame⟩ := insertUnwind_holds stillBlack pathHolds leaf (by simp) separate
  have members : ∀ other,
      other ∈ pathNodes (LeftLeaning.insertWind (cmp node) tree []) ++
        (BinTree.node .nil node true .nil).nodes → other ∈ node :: tree.nodes := by
    intro other member
    rcases List.mem_append.mp member with inPath | isNode
    · exact List.mem_cons_of_mem _ (pathPerm.mem_iff.mpr inPath)
    · simpa using Or.inl isNode
  refine ⟨_, ?_, ⟨outHolds, ?_, ?_⟩, newSame.trans outSame members⟩
  · rw [List.map_nil] at wound
    simp only [insert, wound, Option.map_some]
  · have nodes := LeftLeaning.nodes_insertUnwind (LeftLeaning.insertWind (cmp node) tree [])
      (.node .nil node true .nil)
    rw [LeftLeaning.insert, nodes]
    exact (plug_perm _ _).nodup_iff.mpr separate
  · have agrees := outSame nil fun member =>
      (List.mem_cons.mp (members nil member)).elim (fun same => notNil same.symm) holds.notMem
    exact (Links.redGet_congr agrees).trans stillBlack

end Rb
end Jemalloc
end Vmem
