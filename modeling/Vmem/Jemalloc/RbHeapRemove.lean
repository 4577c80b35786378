import Vmem.Jemalloc.RbHeap

/-!
# Removal from a linked tree

The repairs of a removal on the links of the nodes are the repairs of the held tree.
-/

namespace Vmem
namespace Jemalloc
namespace Rb

open LeftLeaning (BinTree Frame Fits plug)

variable {nil : Ptr} {links other : Links}

/-- What a repair leaves behind, compared with the repair of the held tree. -/
def Repaired (nil : Ptr) (links : Links) (frame : Frame Ptr) (tree : BinTree Ptr) : Repair → Prop
  | .goesOn after root =>
      (LeftLeaning.removeStep frame tree).2 = true ∧
        Holds nil after (LeftLeaning.removeStep frame tree).1 root ∧
        SameOutside (frameNodes frame ++ tree.nodes) links after
  | .rotated after root inner =>
      (LeftLeaning.removeStep frame tree).2 = false ∧
        Holds nil after (LeftLeaning.removeStep frame tree).1 root ∧
        SameOutside (frameNodes frame ++ tree.nodes) links after ∧
        (inner = true → frame.red = true)
  | .restored after =>
      (LeftLeaning.removeStep frame tree).2 = false ∧
        Holds nil after (LeftLeaning.removeStep frame tree).1 frame.node ∧
        SameOutside (frameNodes frame ++ tree.nodes) links after

/-- One repair below the left side of a frame. -/
theorem removeFix_left {node old child y : Ptr} {red : Bool} {below c tree : BinTree Ptr}
    (nilBlack : links.redGet nil = false)
    (frameHolds : HoldsFrame nil links ⟨node, red, true, .node below y false c⟩ old)
    (holds : Holds nil links tree child) (black : tree.isRed = false)
    (nodup : (BinTree.node tree node red (.node below y false c)).nodes.Nodup) :
    ∃ repair, removeFixLeft links node child = some repair ∧
      Repaired nil links ⟨node, red, true, .node below y false c⟩ tree repair := by
  obtain ⟨nodeNil, nodeRed, _, siblingHolds⟩ := frameHolds
  dsimp only at nodeNil nodeRed siblingHolds
  have childBlack := holds.redGet nilBlack
  rw [black] at childBlack
  simp only [holds_node] at siblingHolds
  obtain ⟨yLinked, yNil, yBlack, belowHolds, cHolds⟩ := siblingHolds
  have belowRed := belowHolds.redGet nilBlack
  cases isRed : below.isRed with
  | true =>
      obtain ⟨a, x, b, rfl⟩ := BinTree.eq_node_of_isRed isRed
      simp only [holds_node] at belowHolds
      obtain ⟨xLinked, xNil, xRed, aHolds, bHolds⟩ := belowHolds
      simp only [nodup_nodes, disjoint_node_right, disjoint_node_left, notMem_node,
        and_assoc] at nodup
      cases red with
      | true =>
          simp +contextual [*, removeFixLeft, Repaired, LeftLeaning.removeStep,
            LeftLeaning.removeStepLeft, SameOutside, frameNodes]
      | false =>
          simp +contextual [*, removeFixLeft, Repaired, LeftLeaning.removeStep,
            LeftLeaning.removeStepLeft, SameOutside, frameNodes]
  | false =>
      rw [isRed] at belowRed
      have step : LeftLeaning.removeStep ⟨node, red, true, .node below y false c⟩ tree =
          (.node (.node tree node true below) y false c, !red) := by
        cases below with
        | nil => rfl
        | node _ _ colour _ =>
            rw [BinTree.isRed_node] at isRed
            rw [isRed]
            rfl
      simp only [nodup_nodes, disjoint_node_right, notMem_node, and_assoc] at nodup
      cases red with
      | true => simp +contextual [*, removeFixLeft, Repaired, SameOutside, frameNodes]
      | false => simp +contextual [*, removeFixLeft, Repaired, SameOutside, frameNodes]

/-- One repair below the right side of a frame with a red left child. -/
theorem removeFix_right_red {node old child x y : Ptr} {a below d tree : BinTree Ptr}
    (nilBlack : links.redGet nil = false)
    (frameHolds : HoldsFrame nil links
      ⟨node, false, false, .node a x true (.node below y false d)⟩ old)
    (holds : Holds nil links tree child)
    (nodup : (BinTree.node (.node a x true (.node below y false d)) node false tree).nodes.Nodup) :
    ∃ repair, removeFixRight nil links node child = some repair ∧
      Repaired nil links ⟨node, false, false, .node a x true (.node below y false d)⟩ tree
        repair := by
  obtain ⟨nodeNil, nodeRed, _, siblingHolds⟩ := frameHolds
  dsimp only at nodeNil nodeRed siblingHolds
  simp only [holds_node] at siblingHolds
  obtain ⟨xLinked, xNil, xRed, aHolds, yLinked, yNil, yBlack, belowHolds, dHolds⟩ := siblingHolds
  have belowRed := belowHolds.redGet nilBlack
  cases isRed : below.isRed with
  | true =>
      obtain ⟨b, w, c, rfl⟩ := BinTree.eq_node_of_isRed isRed
      simp only [holds_node] at belowHolds
      obtain ⟨wLinked, wNil, wRed, bHolds, cHolds⟩ := belowHolds
      simp only [nodup_nodes, disjoint_node_right, disjoint_node_left, notMem_node,
        and_assoc] at nodup
      simp +contextual [*, removeFixRight, Repaired, LeftLeaning.removeStep,
        LeftLeaning.removeStepRight, SameOutside, frameNodes]
  | false =>
      rw [isRed] at belowRed
      have step : LeftLeaning.removeStep
          ⟨node, false, false, .node a x true (.node below y false d)⟩ tree =
            (.node a x false (.node (.node below y true d) node false tree), false) := by
        cases below with
        | nil => rfl
        | node _ _ colour _ =>
            rw [BinTree.isRed_node] at isRed
            rw [isRed]
            rfl
      simp only [nodup_nodes, disjoint_node_right, disjoint_node_left, notMem_node,
        and_assoc] at nodup
      simp +contextual [*, removeFixRight, Repaired, SameOutside, frameNodes]

/-- One repair below the right side of a frame with a black left child. -/
theorem removeFix_right_black {node old child x : Ptr} {red : Bool} {below b tree : BinTree Ptr}
    (nilBlack : links.redGet nil = false)
    (frameHolds : HoldsFrame nil links ⟨node, red, false, .node below x false b⟩ old)
    (holds : Holds nil links tree child)
    (nodup : (BinTree.node (.node below x false b) node red tree).nodes.Nodup) :
    ∃ repair, removeFixRight nil links node child = some repair ∧
      Repaired nil links ⟨node, red, false, .node below x false b⟩ tree repair := by
  obtain ⟨nodeNil, nodeRed, _, siblingHolds⟩ := frameHolds
  dsimp only at nodeNil nodeRed siblingHolds
  simp only [holds_node] at siblingHolds
  obtain ⟨xLinked, xNil, xBlack, belowHolds, bHolds⟩ := siblingHolds
  have belowRed := belowHolds.redGet nilBlack
  cases isRed : below.isRed with
  | true =>
      obtain ⟨a, w, c, rfl⟩ := BinTree.eq_node_of_isRed isRed
      simp only [holds_node] at belowHolds
      obtain ⟨wLinked, wNil, wRed, aHolds, cHolds⟩ := belowHolds
      simp only [nodup_nodes, disjoint_node_left, notMem_node, and_assoc] at nodup
      cases red with
      | true =>
          simp +contextual [*, removeFixRight, Repaired, LeftLeaning.removeStep,
            LeftLeaning.removeStepRight, SameOutside, frameNodes]
      | false =>
          simp +contextual [*, removeFixRight, Repaired, LeftLeaning.removeStep,
            LeftLeaning.removeStepRight, SameOutside, frameNodes]
  | false =>
      rw [isRed] at belowRed
      have step : LeftLeaning.removeStep ⟨node, red, false, .node below x false b⟩ tree =
          (.node (.node below x true b) node false tree, !red) := by
        cases below with
        | nil => rfl
        | node _ _ colour _ =>
            rw [BinTree.isRed_node] at isRed
            rw [isRed]
            rfl
      simp only [nodup_nodes, disjoint_node_left, notMem_node, and_assoc] at nodup
      cases red with
      | true => simp +contextual [*, removeFixRight, Repaired, SameOutside, frameNodes]
      | false => simp +contextual [*, removeFixRight, Repaired, SameOutside, frameNodes]

/-- One repair of a removal is one of the held tree, and no assertion fails. -/
theorem removeFix_spec {frame : Frame Ptr} {rest : List (Frame Ptr)} {old child : Ptr}
    {height : Nat} {tree : BinTree Ptr} (nilBlack : links.redGet nil = false)
    (frameHolds : HoldsFrame nil links frame old) (holds : Holds nil links tree child)
    (fits : Fits (frame :: rest) false (height + 1)) (black : tree.isRed = false)
    (nodup : (frame.fill tree).nodes.Nodup) :
    ∃ repair, removeFix nil links (entryOf frame) child = some repair ∧
      Repaired nil links frame tree repair := by
  cases fits with
  | left siblingBalanced siblingBlack _ _ =>
      obtain ⟨below, y, c, rfl, _⟩ := siblingBalanced.eq_black siblingBlack
      exact removeFix_left nilBlack frameHolds holds black nodup
  | @right node red sibling _ _ siblingBalanced alternates _ =>
      cases siblingRed : sibling.isRed with
      | true =>
          have isBlack : red = false := by
            cases red with
            | false => rfl
            | true => exact absurd ((alternates rfl).symm.trans siblingRed) (by simp)
          subst isBlack
          obtain ⟨a, x, inner, rfl, _, innerBalanced, _, innerBlack⟩ :=
            siblingBalanced.eq_red siblingRed
          obtain ⟨below, y, d, rfl, _⟩ := innerBalanced.eq_black innerBlack
          exact removeFix_right_red nilBlack frameHolds holds nodup
      | false =>
          obtain ⟨below, x, b, rfl, _⟩ := siblingBalanced.eq_black siblingRed
          exact removeFix_right_black nilBlack frameHolds holds nodup

/-! ## The way up -/

theorem holdsPath_append {root hole : Ptr} {inner outer : List (Frame Ptr)} :
    HoldsPath nil links root (inner ++ outer) hole ↔
      ∃ middle, HoldsPath nil links middle inner hole ∧
        HoldsPath nil links root outer middle := by
  induction inner generalizing hole with
  | nil =>
      constructor
      · intro holds
        exact ⟨hole, rfl, holds⟩
      · rintro ⟨middle, same, holds⟩
        rw [List.nil_append, ← show middle = hole from same]
        exact holds
  | cons frame inner inductionHypothesis =>
      constructor
      · rintro ⟨frameHolds, restHolds⟩
        obtain ⟨middle, innerHolds, outerHolds⟩ := inductionHypothesis.mp restHolds
        exact ⟨middle, ⟨frameHolds, innerHolds⟩, outerHolds⟩
      · rintro ⟨middle, ⟨frameHolds, innerHolds⟩, outerHolds⟩
        exact ⟨frameHolds, inductionHypothesis.mpr ⟨middle, innerHolds, outerHolds⟩⟩

/-- Linking a subtree to its parent, or making it the root. -/
theorem relink_path (new : Ptr) {root old : Ptr} {frames : List (Frame Ptr)}
    (pathHolds : HoldsPath nil links root frames old) (nodup : (pathNodes frames).Nodup) :
    let out := relink ⟨links, root⟩ (frames.map entryOf) new
    HoldsPath nil out.links out.root frames new ∧
      SameOutside (pathNodes frames) links out.links := by
  cases frames with
  | nil => exact ⟨rfl, fun _ _ => rfl⟩
  | cons frame rest =>
      obtain ⟨⟨notNil, colour, sides⟩, restHolds⟩ := pathHolds
      rw [pathNodes_cons, List.nodup_append'] at nodup
      obtain ⟨frameNodup, _, apart⟩ := nodup
      have inSibling : frame.node ∉ frame.sibling.nodes := (List.nodup_cons.mp frameNodup).1
      have inRest : frame.node ∉ pathNodes rest := fun member =>
        apart (by simp [frameNodes]) member
      obtain ⟨node, red, goesLeft, sibling⟩ := frame
      have restSame : ∀ after : Links, (∀ other, other ≠ node → after other = links other) →
          HoldsPath nil after root rest node := fun after same =>
        (holdsPath_congr fun linked member => same linked fun isNode =>
          inRest (isNode ▸ member)).mpr restHolds
      cases goesLeft with
      | true =>
          refine ⟨⟨⟨notNil, ?_, ?_⟩, restSame _ ?_⟩, ?_⟩
          · simpa [relink, setChild, entryOf] using colour
          · simp [relink, setChild, entryOf, inSibling, sides.2]
          · intro other different
            simp [relink, setChild, entryOf, different]
          · intro other outside
            simp only [pathNodes_cons, frameNodes, List.cons_append, notMem_cons] at outside
            simp [relink, setChild, entryOf, outside]
      | false =>
          refine ⟨⟨⟨notNil, ?_, ?_⟩, restSame _ ?_⟩, ?_⟩
          · simpa [relink, setChild, entryOf] using colour
          · simp [relink, setChild, entryOf, inSibling, sides.2]
          · intro other different
            simp [relink, setChild, entryOf, different]
          · intro other outside
            simp only [pathNodes_cons, frameNodes, List.cons_append, notMem_cons] at outside
            simp [relink, setChild, entryOf, outside]

/-- A relinked subtree is part of the whole tree. -/
theorem relink_holds {root old node : Ptr} {frames : List (Frame Ptr)} {tree : BinTree Ptr}
    (pathHolds : HoldsPath nil links root frames old) (holds : Holds nil links tree node)
    (nodup : (pathNodes frames ++ tree.nodes).Nodup) :
    let out := relink ⟨links, root⟩ (frames.map entryOf) node
    Holds nil out.links (plug frames tree) out.root ∧
      SameOutside (pathNodes frames) links out.links := by
  obtain ⟨pathNodup, _, apart⟩ := List.nodup_append'.mp nodup
  obtain ⟨outPath, same⟩ := relink_path node pathHolds pathNodup
  exact ⟨outPath.plug ((holds_congr fun linked member => same linked fun inPath =>
    apart inPath member).mpr holds), same⟩

/-- The loop that unwinds a removal repairs the held tree, and no assertion fails. -/
theorem removeUnwind_holds {root old child : Ptr} {frames : List (Frame Ptr)} {height : Nat}
    {tree : BinTree Ptr} (nilBlack : links.redGet nil = false)
    (pathHolds : HoldsPath nil links root frames old) (holds : Holds nil links tree child)
    (fits : Fits frames false (height + 1)) (balanced : BinTree.Balanced tree height)
    (black : tree.isRed = false) (nodup : (pathNodes frames ++ tree.nodes).Nodup) :
    ∃ out, removeUnwind nil root links (frames.map entryOf) child = some out ∧
      Holds nil out.links (LeftLeaning.removeUnwind frames tree) out.root ∧
      SameOutside (pathNodes frames ++ tree.nodes) links out.links := by
  induction frames generalizing links tree child old height with
  | nil =>
      refine ⟨⟨links, child⟩, ?_, holds, fun _ _ => rfl⟩
      rw [List.map_nil, removeUnwind, holds.redGet nilBlack, black]
      rfl
  | cons frame rest inductionHypothesis =>
      have whole := (pathNodes_perm frame rest tree).nodup_iff.mpr nodup
      obtain ⟨repair, fixed, repaired⟩ := removeFix_spec nilBlack pathHolds.1 holds fits black
        (List.nodup_append'.mp whole).2.1
      obtain ⟨restFits, step⟩ := LeftLeaning.removeStep_balanced fits balanced black
      have nodes := LeftLeaning.nodes_removeStep frame tree
      have stepNodup : (pathNodes rest ++ (LeftLeaning.removeStep frame tree).1.nodes).Nodup := by
        rw [nodes]
        exact whole
      have outer : ∀ after, SameOutside (frameNodes frame ++ tree.nodes) links after →
          SameOutside (pathNodes (frame :: rest) ++ tree.nodes) links after :=
        fun after same node outside => same node fun inside => outside (by
          rcases List.mem_append.mp inside with inFrame | inTree
          · simp [inFrame]
          · simp [inTree])
      rw [List.map_cons, removeUnwind, LeftLeaning.removeUnwind, fixed]
      cases repair with
      | goesOn after node =>
          obtain ⟨goesOn, stepHolds, same⟩ := repaired
          rw [if_pos goesOn] at step
          obtain ⟨frameBlack, stepBalanced, stepBlack⟩ := step
          rw [frameBlack] at restFits
          have outNil : nil ∉ frameNodes frame ++ tree.nodes := by
            have pathOut := pathHolds.notMem
            rw [pathNodes_cons, notMem_append] at pathOut
            exact notMem_append.mpr ⟨pathOut.1, holds.notMem⟩
          have agrees : after nil = links nil := same nil outNil
          have afterBlack : after.redGet nil = false := (Links.redGet_congr agrees).trans nilBlack
          obtain ⟨out, result, outHolds, outSame⟩ := inductionHypothesis afterBlack
            (pathHolds.above nodup same) stepHolds restFits stepBalanced stepBlack stepNodup
          rw [if_pos goesOn]
          refine ⟨out, result, outHolds, (outer after same).trans outSame fun node member => ?_⟩
          rw [nodes] at member
          exact (pathNodes_perm frame rest tree).mem_iff.mp member
      | rotated after node inner =>
          obtain ⟨stops, stepHolds, same, below⟩ := repaired
          have notRoot : ¬(inner = true ∧ (rest.map entryOf).isEmpty = true) := by
            rintro ⟨isInner, isEmpty⟩
            rw [List.isEmpty_iff, List.map_eq_nil_iff] at isEmpty
            subst isEmpty
            rw [below isInner] at restFits
            cases restFits
          obtain ⟨outHolds, outSame⟩ := relink_holds (pathHolds.above nodup same) stepHolds
            stepNodup
          dsimp only
          rw [if_neg notRoot, stops]
          exact ⟨_, rfl, outHolds, (outer after same).trans outSame fun node member => by
            simp [member]⟩
      | restored after =>
          obtain ⟨stops, stepHolds, same⟩ := repaired
          rw [stops]
          exact ⟨_, rfl, (pathHolds.above nodup same).plug stepHolds, outer after same⟩

/-! ## The removed node -/

/-- Pruning a leaf from its place. -/
theorem removeLeaf_holds {root old node : Ptr} {red : Bool} {frames : List (Frame Ptr)}
    (nilBlack : links.redGet nil = false) (pathHolds : HoldsPath nil links root frames old)
    (colour : links.redGet node = red) (fits : Fits frames red (BinTree.weight red 0))
    (nodup : (pathNodes frames).Nodup) :
    ∃ out, removeLeaf nil ⟨links, root⟩ node (frames.map entryOf) = some out ∧
      Holds nil out.links (LeftLeaning.prune frames red) out.root ∧
      SameOutside (pathNodes frames) links out.links := by
  have separate : (pathNodes frames ++ (BinTree.nil : BinTree Ptr).nodes).Nodup := by
    rwa [BinTree.nodes_nil, List.append_nil]
  unfold removeLeaf
  dsimp only
  rw [colour]
  cases red with
  | true =>
      rw [if_pos rfl]
      cases fits with
      | @left parent red sibling _ rest _ _ _ _ _ =>
          obtain ⟨outHolds, outSame⟩ := relink_holds pathHolds
            (show Holds nil links .nil nil from rfl) separate
          exact ⟨_, rfl, outHolds, outSame⟩
  | false =>
      obtain ⟨out, result, outHolds, outSame⟩ := removeUnwind_holds nilBlack pathHolds
        (show Holds nil links .nil nil from rfl) fits .nil rfl separate
      rw [BinTree.nodes_nil, List.append_nil] at outSame
      exact ⟨out, result, outHolds, outSame⟩

/-- The way down to the successor is the one in the held tree. -/
theorem successorWind_holds {root node : Ptr} {red : Bool} {left right : BinTree Ptr}
    {frames : List (Frame Ptr)} {room : Nat}
    (pathHolds : HoldsPath nil links root frames node)
    (holds : Holds nil links (.node left node red right) node)
    (enough : (BinTree.node left node red right).depth ≤ room) :
    let (inner, last, lastRed) := LeftLeaning.leftmost node red right left frames
    successorWind nil links room node (frames.map entryOf) =
        some (⟨last, .lt⟩ :: inner.map entryOf) ∧
      HoldsPath nil links root inner last ∧ links.redGet last = lastRed := by
  induction left generalizing node red right frames room with
  | nil =>
      obtain ⟨_, notNil, colour, leftNil, _⟩ := holds
      rw [BinTree.depth] at enough
      cases room with
      | zero => exact absurd enough (by omega)
      | succ room =>
          refine ⟨?_, pathHolds, colour⟩
          unfold successorWind
          rw [if_neg notNil]
          dsimp only
          unfold successorWind
          rw [show links.leftGet node = nil from leftNil, if_pos rfl]
  | node below inner colour outer belowHypothesis _ =>
      obtain ⟨_, notNil, isRed, leftHolds, rightHolds⟩ := holds
      rw [BinTree.depth] at enough
      cases room with
      | zero => exact absurd enough (by omega)
      | succ room =>
          have linked : links.leftGet node = inner := leftHolds.1
          rw [linked] at leftHolds
          have belowPath : HoldsPath nil links root (⟨node, red, true, right⟩ :: frames) inner :=
            ⟨⟨notNil, isRed, linked, rightHolds⟩, pathHolds⟩
          have step := belowHypothesis belowPath leftHolds (show _ ≤ room by omega)
          unfold successorWind
          rw [if_neg notNil]
          dsimp only
          rw [linked]
          exact step

/-- The way down to a node is the one in the held tree; from there on the loop looks for
the successor. -/
theorem removeWind_holds {cmp : Ptr → Ordering} {root node : Ptr} {frames path : List (Frame Ptr)}
    {tree left right : BinTree Ptr} {found : Ptr} {red : Bool} {room : Nat}
    (pathHolds : HoldsPath nil links root frames node) (holds : Holds nil links tree node)
    (located : LeftLeaning.locate cmp tree frames = (path, .node left found red right))
    (enough : tree.depth ≤ room) :
    HoldsPath nil links root path found ∧
      Holds nil links (.node left found red right) found ∧
      ∃ rest, right.depth ≤ rest ∧
        removeWind nil cmp links room node (frames.map entryOf) =
          (successorWind nil links rest (links.rightGet found) []).map fun inner =>
            ⟨inner, found, path.map entryOf⟩ := by
  induction tree generalizing node frames room with
  | nil =>
      rw [LeftLeaning.locate] at located
      simp at located
  | node below root' colour above leftHypothesis rightHypothesis =>
      have wholeHolds := holds
      obtain ⟨rfl, notNil, isRed, leftHolds, rightHolds⟩ := holds
      rw [BinTree.depth] at enough
      rw [LeftLeaning.locate] at located
      cases room with
      | zero => exact absurd enough (by omega)
      | succ room =>
          unfold removeWind
          rw [if_neg notNil]
          dsimp only
          cases isCmp : cmp node with
          | lt =>
              rw [isCmp] at located
              have leftPath : HoldsPath nil links root (⟨node, colour, true, above⟩ :: frames)
                  (links.leftGet node) := ⟨⟨notNil, isRed, rfl, rightHolds⟩, pathHolds⟩
              exact leftHypothesis leftPath leftHolds located (by omega)
          | gt =>
              rw [isCmp] at located
              have rightPath : HoldsPath nil links root (⟨node, colour, false, below⟩ :: frames)
                  (links.rightGet node) := ⟨⟨notNil, isRed, rfl, leftHolds⟩, pathHolds⟩
              exact rightHypothesis rightPath rightHolds located (by omega)
          | eq =>
              rw [isCmp] at located
              obtain ⟨rfl, same⟩ := Prod.mk.inj located
              injection same with sameLeft sameRoot sameRed sameRight
              subst sameLeft sameRoot sameRed sameRight
              exact ⟨pathHolds, wholeHolds, room, by omega, rfl⟩

/-- Removing a node without a right child. -/
theorem removeLast_holds {root node : Ptr} {red : Bool} {left : BinTree Ptr}
    {frames : List (Frame Ptr)} {height : Nat} (nilBlack : links.redGet nil = false)
    (pathHolds : HoldsPath nil links root frames node)
    (holds : Holds nil links (.node left node red .nil) node)
    (fits : Fits frames red height) (balanced : BinTree.Balanced (.node left node red .nil) height)
    (nodup : (pathNodes frames ++ (BinTree.node left node red .nil).nodes).Nodup) :
    ∃ out, removeLast nil ⟨links, root⟩ node (frames.map entryOf) = some out ∧
      Holds nil out.links (LeftLeaning.removeRoot frames left red .nil) out.root ∧
      SameOutside (pathNodes frames ++ (BinTree.node left node red .nil).nodes) links
        out.links := by
  obtain ⟨_, notNil, colour, leftHolds, _⟩ := holds
  obtain ⟨below, rfl, leftBalanced, rightBalanced, _, alternates⟩ := balanced.children
  cases rightBalanced
  have pathNodup := (List.nodup_append'.mp nodup).1
  unfold removeLast
  dsimp only
  cases left with
  | nil =>
      rw [holds_nil] at leftHolds
      rw [if_neg (not_not.mpr leftHolds)]
      cases frames with
      | nil =>
          cases fits
          exact ⟨_, rfl, rfl, fun _ _ => rfl⟩
      | cons frame rest =>
          obtain ⟨out, result, outHolds, outSame⟩ := removeLeaf_holds nilBlack pathHolds colour
            fits pathNodup
          exact ⟨out, result, outHolds, fun other outside =>
            outSame other (notMem_append.mp outside).1⟩
  | node inner x leftRed outer =>
      have isRed : leftRed = true := by
        cases leftRed with
        | true => rfl
        | false => cases leftBalanced
      subst isRed
      have black : red = false := by
        cases red with
        | false => rfl
        | true => exact absurd (alternates rfl) (by simp)
      subst black
      simp only [nodup_nodes, List.nodup_append', disjoint_node_right, and_assoc] at nodup
      obtain ⟨_, ⟨_, _, xInner, xOuter, _, _, _, _, _, apartInner, xPath, apartOuter, _⟩⟩ := nodup
      obtain ⟨linked, xNil, xRed, innerHolds, outerHolds⟩ := leftHolds
      have leftColour :
          ¬(links.redGet node = true ∨ links.redGet (links.leftGet node) = false) := by
        rw [linked, xRed, colour]
        simp
      rw [if_pos (linked ▸ xNil), if_neg leftColour, linked]
      have newPath : HoldsPath nil (links.blackSet x) root frames node :=
        (holdsPath_congr fun other member => by
          rw [Links.blackSet_eq, Links.colorSet_of_ne]
          exact fun same => xPath (same ▸ member)).mpr pathHolds
      have newLeft : Holds nil (links.blackSet x) (.node inner x false outer) x := by
        simp [*]
      obtain ⟨outHolds, outSame⟩ := relink_holds newPath newLeft (by
        simp only [nodup_nodes, List.nodup_append', disjoint_node_right]
        simp [*])
      refine ⟨_, rfl, outHolds, ?_⟩
      intro other outside
      simp only [notMem_append, notMem_node] at outside
      have agrees := outSame other outside.1
      rw [agrees]
      simp [outside]

/-- After the swap the successor stands in the place of the node to remove, and the
node is where the successor was. -/
theorem swapSuccessor_holds {root node last : Ptr} {red lastRed : Bool} {left : BinTree Ptr}
    {inner path : List (Frame Ptr)} (pathHolds : HoldsPath nil links root path node)
    (leftHolds : Holds nil links left (links.leftGet node)) (colour : links.redGet node = red)
    (innerHolds : HoldsPath nil links (links.rightGet node) inner last)
    (lastColour : links.redGet last = lastRed) (lastNotNil : last ≠ nil)
    (nodePath : node ∉ pathNodes path) (nodeLeft : node ∉ left.nodes) (different : node ≠ last)
    (nodeInner : node ∉ pathNodes inner)
    (nodup : (pathNodes (inner ++ ⟨last, red, false, left⟩ :: path)).Nodup) :
    let out := swapSuccessor ⟨links, root⟩ node last (path.map entryOf)
    HoldsPath nil out.links out.root (inner ++ ⟨last, red, false, left⟩ :: path) last ∧
      out.links.redGet node = lastRed ∧
      SameOutside (node :: last :: pathNodes path) links out.links := by
  have split : pathNodes (inner ++ ⟨last, red, false, left⟩ :: path) =
      pathNodes inner ++ (last :: left.nodes ++ pathNodes path) := by
    simp [pathNodes, frameNodes]
  rw [split] at nodup
  simp only [List.nodup_append', List.disjoint_append_right, List.cons_append,
    List.disjoint_cons_right, List.nodup_cons, notMem_append] at nodup
  obtain ⟨_, ⟨⟨lastLeft, lastPath⟩, _, pathNodup, leftPath⟩, lastInner, innerLeft, innerPath⟩ :=
    nodup
  -- the links after the four writes to the two nodes
  generalize swapped : ((((links.colorSet last (links.redGet node)).leftSet last
    (links.leftGet node)).rightSet last (links.rightGet node)).colorSet node lastRed) = after
  have same : ∀ other, other ≠ node → other ≠ last → after other = links other := by
    intro other notNode notLast
    rw [← swapped]
    simp [notNode, notLast]
  have afterPath : HoldsPath nil after root path node :=
    (holdsPath_congr fun other member => same other (fun isNode => nodePath (isNode ▸ member))
      fun isLast => lastPath (isLast ▸ member)).mpr pathHolds
  obtain ⟨newPath, outSame⟩ := relink_path last afterPath pathNodup
  have edit : swapSuccessor ⟨links, root⟩ node last (path.map entryOf) =
      relink ⟨after, root⟩ (path.map entryOf) last := by
    rw [← swapped]
    simp [swapSuccessor, lastColour]
  rw [edit]
  generalize relink ⟨after, root⟩ (path.map entryOf) last = out at newPath outSame
  have outLinks : ∀ other, other ∉ pathNodes path → out.links other = after other := outSame
  have lastAgrees := outLinks last lastPath
  have nodeAgrees := outLinks node nodePath
  have untouched : ∀ other, other ≠ node → other ≠ last → other ∉ pathNodes path →
      out.links other = links other := fun other notNode notLast outside =>
    (outLinks other outside).trans (same other notNode notLast)
  refine ⟨holdsPath_append.mpr ⟨links.rightGet node, ?_, ⟨lastNotNil, ?_, ?_, ?_⟩, newPath⟩,
    ?_, ?_⟩
  · refine (holdsPath_congr fun other member => untouched other
      (fun isNode => nodeInner (isNode ▸ member)) (fun isLast => lastInner (isLast ▸ member))
      fun inPath => innerPath member inPath).mpr innerHolds
  · dsimp only
    rw [Links.redGet_congr lastAgrees, ← swapped]
    simp [different.symm, colour]
  · dsimp only
    rw [Links.rightGet_congr lastAgrees, ← swapped]
    simp
  · have leftLinked : out.links.leftGet last = links.leftGet node := by
      rw [Links.leftGet_congr lastAgrees, ← swapped]
      simp
    dsimp only
    rw [leftLinked]
    exact (holds_congr fun other member => untouched other
      (fun isNode => nodeLeft (isNode ▸ member)) (fun isLast => lastLeft (isLast ▸ member))
      fun inPath => leftPath member inPath).mpr leftHolds
  · rw [Links.redGet_congr nodeAgrees, ← swapped]
    simp
  · intro other outside
    simp only [notMem_cons] at outside
    exact untouched other outside.1 outside.2.2.1 outside.2.2.2.2

/-- A tree consists of its first node and the nodes above it. -/
theorem nodes_perm_leftmost {inside outside : BinTree Ptr} {middle last : Ptr}
    {middleRed lastRed : Bool} {inner : List (Frame Ptr)} {height : Nat}
    (balanced : BinTree.Balanced (.node inside middle middleRed outside) height)
    (black : middleRed = false)
    (place : LeftLeaning.leftmost middle middleRed outside inside [] = (inner, last, lastRed)) :
    (BinTree.node inside middle middleRed outside).nodes.Perm (pathNodes inner ++ [last]) := by
  have top : Fits ([] : List (Frame Ptr)) middleRed height := by
    rw [black]
    exact .root height
  have spec := LeftLeaning.leftmost_spec top balanced
  rw [place] at spec
  have perm := plug_perm inner (.node .nil last lastRed .nil)
  rw [spec.1] at perm
  exact perm

/-- Removing a node with a right child: its successor takes its place, and a leaf is removed. -/
theorem removeInner_holds {root node middle : Ptr} {red middleRed : Bool}
    {left inside outside : BinTree Ptr} {path : List (Frame Ptr)} {height room : Nat}
    (nilBlack : links.redGet nil = false) (pathHolds : HoldsPath nil links root path node)
    (holds : Holds nil links (.node left node red (.node inside middle middleRed outside)) node)
    (fits : Fits path red height)
    (balanced : BinTree.Balanced (.node left node red (.node inside middle middleRed outside))
      height)
    (nodup : (pathNodes path ++
      (BinTree.node left node red (.node inside middle middleRed outside)).nodes).Nodup)
    (nilOutside : nil ∉ pathNodes path ++
      (BinTree.node left node red (.node inside middle middleRed outside)).nodes)
    (enough : (BinTree.node inside middle middleRed outside).depth ≤ room) :
    ∃ successor inner out,
      successorWind nil links room (links.rightGet node) [] = some (successor :: inner) ∧
      removeLeaf nil (swapSuccessor ⟨links, root⟩ node successor.node (path.map entryOf)) node
        (inner ++ ⟨successor.node, .gt⟩ :: path.map entryOf) = some out ∧
      Holds nil out.links
        (LeftLeaning.removeRoot path left red (.node inside middle middleRed outside)) out.root ∧
      SameOutside (pathNodes path ++
        (BinTree.node left node red (.node inside middle middleRed outside)).nodes) links
        out.links := by
  obtain ⟨_, notNil, colour, leftHolds, rightHolds⟩ := holds
  obtain ⟨base, rfl, leftBalanced, rightBalanced, rightBlack, alternates⟩ := balanced.children
  have spec := LeftLeaning.successor_spec leftBalanced alternates rightBalanced rightBlack fits
  have linked : links.rightGet node = middle := rightHolds.1
  have wind := successorWind_holds
    (show HoldsPath nil links (links.rightGet node) [] middle from linked) (linked ▸ rightHolds)
    enough
  generalize place : LeftLeaning.leftmost middle middleRed outside inside [] = found
    at spec wind
  obtain ⟨inner, last, lastRed⟩ := found
  obtain ⟨leafFits, _, after⟩ := spec
  obtain ⟨innerWound, innerHolds, lastColour⟩ := wind
  rw [List.map_nil, ← linked] at innerWound
  have rightPerm := nodes_perm_leftmost rightBalanced rightBlack place
  have lastNotNil : last ≠ nil := fun same =>
    rightHolds.notMem (rightPerm.mem_iff.mpr (by simp [same]))
  have parts : (pathNodes path ++ (left.nodes ++ node :: (pathNodes inner ++ [last]))).Nodup :=
    ((List.Perm.append_left (pathNodes path) (List.Perm.append_left left.nodes
      (List.Perm.cons node rightPerm))).nodup_iff).mp nodup
  have framesPerm : (pathNodes (inner ++ ⟨last, red, false, left⟩ :: path)).Perm
      (pathNodes path ++ (left.nodes ++ (pathNodes inner ++ [last]))) := by
    rw [List.perm_iff_count]
    intro other
    simp [pathNodes, frameNodes, List.count_cons]
    omega
  have framesNodup := framesPerm.nodup_iff.mpr (parts.sublist
    (((List.sublist_cons_self node _).append_left left.nodes).append_left (pathNodes path)))
  simp only [List.nodup_append', List.disjoint_append_right, List.nodup_cons,
    List.disjoint_cons_right, notMem_append, List.mem_singleton] at parts
  obtain ⟨_, ⟨_, ⟨⟨nodeInner, nodeLast⟩, _⟩, nodeLeft, _⟩, _, nodePath, _⟩ := parts
  obtain ⟨outPath, outColour, outSame⟩ := swapSuccessor_holds pathHolds leftHolds
    colour innerHolds lastColour lastNotNil nodePath nodeLeft nodeLast nodeInner framesNodup
  have outerNodes : ∀ other, other ∈ node :: last :: pathNodes path → other ∈ pathNodes path ++
      (BinTree.node left node red (.node inside middle middleRed outside)).nodes := by
    intro other member
    rcases List.mem_cons.mp member with rfl | rest
    · simp
    · rcases List.mem_cons.mp rest with rfl | inPath
      · have inRight := rightPerm.mem_iff.mpr (show other ∈ pathNodes inner ++ [other] by simp)
        exact List.mem_append_right _ (List.mem_append_right _ (List.mem_cons_of_mem _ inRight))
      · exact List.mem_append_left _ inPath
  have nilSame := outSame nil fun member => nilOutside (outerNodes nil member)
  obtain ⟨out, result, outHolds, leafSame⟩ := removeLeaf_holds
    ((Links.redGet_congr nilSame).trans nilBlack) outPath outColour leafFits framesNodup
  rw [List.map_append, List.map_cons] at result
  have edit : LeftLeaning.removeRoot path left red (.node inside middle middleRed outside) =
      LeftLeaning.prune (inner ++ ⟨last, red, false, left⟩ :: path) lastRed := by
    rw [LeftLeaning.removeRoot, place]
  refine ⟨_, _, out, innerWound, result, edit ▸ outHolds, fun other outside => ?_⟩
  rw [leafSame other fun member => outside ?_, outSame other fun member =>
    outside (outerNodes other member)]
  rw [framesPerm.mem_iff] at member
  rw [BinTree.nodes_node]
  simp only [List.mem_append, List.mem_cons] at member ⊢
  rcases member with inPath | inLeft | inRight
  · exact .inl inPath
  · exact .inr (.inl inLeft)
  · exact .inr (.inr (.inr (rightPerm.mem_iff.mpr (by simpa using inRight))))

/-- Removing a node from a represented tree: the path fits its array, no assertion fails,
the links hold the tree after the removal, and no other node is written. -/
theorem remove_represents {cmp : Ptr → Ptr → Ordering} {rbt : Rbt} {tree left right : BinTree Ptr}
    {height : Nat} {node : Ptr} {red : Bool} {path : List (Frame Ptr)}
    (represents : Represents nil rbt tree)
    (balanced : BinTree.Balanced tree height) (black : tree.isRed = false)
    (located : LeftLeaning.locate (cmp node) tree [] = (path, .node left node red right)) :
    ∃ after, remove nil cmp rbt node = some after ∧
      Represents nil after (LeftLeaning.remove (cmp node) tree) ∧
      SameOutside tree.nodes rbt.links after.links := by
  have deep := represents.depth_le balanced black
  obtain ⟨holds, nodup, nilBlack⟩ := represents
  obtain ⟨links, root⟩ := rbt
  dsimp only at holds nilBlack
  have topFits : Fits ([] : List (Frame Ptr)) tree.isRed height := by
    rw [black]
    exact .root height
  have spec := LeftLeaning.locate_spec (cmp node) topFits balanced
  rw [located] at spec
  obtain ⟨plugged, below, fits, subBalanced⟩ := spec
  rw [BinTree.isRed_node] at fits
  have perm := plug_perm path (.node left node red right)
  rw [plugged, LeftLeaning.plug_nil] at perm
  have separate := perm.nodup_iff.mp nodup
  have nilOutside := fun member => holds.notMem (perm.mem_iff.mpr member)
  obtain ⟨pathHolds, subHolds, room, enough, wound⟩ := removeWind_holds
    (show HoldsPath nil links root [] root from rfl) holds located
    (show _ ≤ pathSlots - 1 by omega)
  rw [List.map_nil] at wound
  obtain ⟨whole, wholeBlack, nodes⟩ := LeftLeaning.removeRoot_spec fits subBalanced
  have outNodup : (LeftLeaning.removeRoot path left red right).nodes.Nodup := by
    rw [nodes]
    have before := LeftLeaning.nodes_plug path (.node left node red right)
    rw [plugged, LeftLeaning.plug_nil] at before
    rw [before, BinTree.nodes_node] at nodup
    refine nodup.sublist ?_
    exact ((((List.sublist_cons_self node right.nodes).append_left left.nodes).append_left
      (LeftLeaning.nodesBefore path)).append_right (LeftLeaning.nodesAfter path))
  have pure : LeftLeaning.remove (cmp node) tree = LeftLeaning.removeRoot path left red right := by
    rw [LeftLeaning.remove, located]
  -- what is left is the edit at the node
  suffices edit : ∃ after, remove nil cmp ⟨links, root⟩ node = some after ∧
      Holds nil after.links (LeftLeaning.removeRoot path left red right) after.root ∧
      SameOutside (pathNodes path ++ (BinTree.node left node red right).nodes) links
        after.links by
    obtain ⟨after, result, outHolds, outSame⟩ := edit
    refine ⟨after, result, ?_, fun other outside =>
      outSame other fun inside => outside (perm.mem_iff.mpr inside)⟩
    rw [pure]
    exact ⟨outHolds, outNodup, (Links.redGet_congr (outSame nil nilOutside)).trans nilBlack⟩
  unfold remove
  dsimp only
  rw [wound]
  cases right with
  | nil =>
      have noSuccessor : successorWind nil links room (links.rightGet node) [] = some [] := by
        unfold successorWind
        rw [show links.rightGet node = nil from subHolds.2.2.2.2, if_pos rfl]
      rw [noSuccessor, Option.map_some]
      dsimp only
      rw [if_neg (not_not.mpr rfl)]
      exact removeLast_holds nilBlack pathHolds subHolds fits subBalanced separate
  | node inside middle middleRed outside =>
      obtain ⟨successor, inner, out, found, result, outHolds, outSame⟩ := removeInner_holds
        nilBlack pathHolds subHolds fits subBalanced separate nilOutside enough
      rw [found, Option.map_some]
      dsimp only
      rw [if_neg (not_not.mpr rfl)]
      exact ⟨out, result, outHolds, outSame⟩

end Rb
end Jemalloc
end Vmem
