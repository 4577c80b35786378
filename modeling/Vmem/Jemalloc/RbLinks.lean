import Mathlib.Logic.Function.Basic
import Mathlib.Tactic.NormNum.Basic

/-!
# The linkage of red-black tree nodes

`RB_COMPACT` keeps the colour of a node in the least significant bit of the pointer
to its right child.  Nodes are aligned, so that the bit of a pointer is free; reading
the pointer masks the colour and writing it keeps the colour.
-/

namespace Vmem
namespace Jemalloc

/-- The address of a node, with a free least significant bit. -/
structure Ptr where
  addr : BitVec 64
  even : addr.getLsbD 0 = false
  deriving DecidableEq

@[ext] theorem Ptr.ext_addr {left right : Ptr} (same : left.addr = right.addr) :
    left = right := by
  cases left
  cases right
  cases same
  rfl

/-- `rb_node`: the links of one node. -/
structure RbNode where
  rbnLeft : Ptr
  rbnRightRed : BitVec 64

namespace RbNode

/-- `rbtn_right_get`. -/
def right (node : RbNode) : Ptr :=
  ⟨node.rbnRightRed &&& ~~~1#64, by simp⟩

/-- `rbtn_red_get`. -/
def red (node : RbNode) : Bool := node.rbnRightRed &&& 1#64 ≠ 0#64

/-- `rbtn_left_set`. -/
def setLeft (node : RbNode) (left : Ptr) : RbNode := { node with rbnLeft := left }

/-- `rbtn_right_set`. -/
def setRight (node : RbNode) (right : Ptr) : RbNode :=
  { node with rbnRightRed := right.addr ||| (node.rbnRightRed &&& 1#64) }

/-- `rbtn_color_set`. -/
def setColor (node : RbNode) (red : Bool) : RbNode :=
  { node with rbnRightRed := (node.rbnRightRed &&& ~~~1#64) ||| (if red then 1#64 else 0#64) }

/-- `rbtn_red_set`. -/
def setRed (node : RbNode) : RbNode := { node with rbnRightRed := node.rbnRightRed ||| 1#64 }

/-- `rbtn_black_set`. -/
def setBlack (node : RbNode) : RbNode :=
  { node with rbnRightRed := node.rbnRightRed &&& ~~~1#64 }

/-- The bits of a masked word. -/
theorem getLsbD_mask (word : BitVec 64) {position : Nat} (below : position < 64) :
    (word &&& ~~~1#64).getLsbD position = (word.getLsbD position && decide (position ≠ 0)) := by
  simp only [BitVec.getLsbD_and, BitVec.getLsbD_not, BitVec.getLsbD_one, below]
  cases word.getLsbD position <;> simp

/-- The bits of the part of a word that holds the colour. -/
theorem getLsbD_colour (word : BitVec 64) (position : Nat) :
    (word &&& 1#64).getLsbD position = (word.getLsbD position && decide (position = 0)) := by
  simp only [BitVec.getLsbD_and, BitVec.getLsbD_one]
  cases word.getLsbD position <;> simp

/-- The colour is the least significant bit. -/
theorem red_eq (node : RbNode) : node.red = node.rbnRightRed.getLsbD 0 := by
  unfold red
  by_cases bit : node.rbnRightRed.getLsbD 0 = true
  · rw [bit, decide_eq_true_iff]
    intro zero
    have first := getLsbD_colour node.rbnRightRed 0
    rw [zero, bit] at first
    simp at first
  · rw [Bool.not_eq_true] at bit
    rw [bit, decide_eq_false_iff_not, not_not]
    apply BitVec.eq_of_getLsbD_eq
    intro position below
    rw [getLsbD_colour]
    by_cases first : position = 0
    · subst first
      rw [bit]
      simp
    · simp [first]

@[simp] theorem right_setLeft (node : RbNode) (left : Ptr) :
    (node.setLeft left).right = node.right := rfl

@[simp] theorem red_setLeft (node : RbNode) (left : Ptr) : (node.setLeft left).red = node.red :=
  rfl

@[simp] theorem rbnLeft_setLeft (node : RbNode) (left : Ptr) :
    (node.setLeft left).rbnLeft = left := rfl

@[simp] theorem rbnLeft_setRight (node : RbNode) (right : Ptr) :
    (node.setRight right).rbnLeft = node.rbnLeft := rfl

@[simp] theorem right_setRight (node : RbNode) (right : Ptr) :
    (node.setRight right).right = right := by
  apply Ptr.ext_addr
  apply BitVec.eq_of_getLsbD_eq
  intro position below
  simp only [RbNode.right, setRight, getLsbD_mask _ below, BitVec.getLsbD_or, getLsbD_colour]
  by_cases first : position = 0
  · subst first
    rw [right.even]
    simp
  · simp [first]

@[simp] theorem red_setRight (node : RbNode) (right : Ptr) :
    (node.setRight right).red = node.red := by
  rw [red_eq, red_eq, setRight, BitVec.getLsbD_or, right.even, getLsbD_colour]
  simp

@[simp] theorem rbnLeft_setColor (node : RbNode) (red : Bool) :
    (node.setColor red).rbnLeft = node.rbnLeft := rfl

@[simp] theorem right_setColor (node : RbNode) (red : Bool) :
    (node.setColor red).right = node.right := by
  apply Ptr.ext_addr
  apply BitVec.eq_of_getLsbD_eq
  intro position below
  simp only [RbNode.right, setColor, getLsbD_mask _ below, BitVec.getLsbD_or]
  by_cases first : position = 0
  · simp [first]
  · cases red with
    | false => simp
    | true => simp [first]

@[simp] theorem red_setColor (node : RbNode) (red : Bool) : (node.setColor red).red = red := by
  rw [red_eq, setColor, BitVec.getLsbD_or, getLsbD_mask _ (by norm_num)]
  cases red with
  | false => simp
  | true => simp

/-- The two short forms set the colour. -/
theorem setRed_eq (node : RbNode) : node.setRed = node.setColor true := by
  unfold setRed setColor
  congr 1
  apply BitVec.eq_of_getLsbD_eq
  intro position below
  simp only [BitVec.getLsbD_or, getLsbD_mask _ below, if_true]
  by_cases first : position = 0
  · subst first
    simp
  · simp [first]

theorem setBlack_eq (node : RbNode) : node.setBlack = node.setColor false := by
  simp [setBlack, setColor]

end RbNode

/-- The links of all nodes. -/
abbrev Links := Ptr → RbNode

namespace Links

/-- Change the links of one node. -/
def update (links : Links) (node : Ptr) (edit : RbNode → RbNode) : Links :=
  Function.update links node (edit (links node))

/-- `rbtn_left_get`. -/
def leftGet (links : Links) (node : Ptr) : Ptr := (links node).rbnLeft

/-- `rbtn_right_get`. -/
def rightGet (links : Links) (node : Ptr) : Ptr := (links node).right

/-- `rbtn_red_get`. -/
def redGet (links : Links) (node : Ptr) : Bool := (links node).red

/-- `rbtn_left_set`. -/
def leftSet (links : Links) (node left : Ptr) : Links := links.update node (·.setLeft left)

/-- `rbtn_right_set`. -/
def rightSet (links : Links) (node right : Ptr) : Links := links.update node (·.setRight right)

/-- `rbtn_color_set`. -/
def colorSet (links : Links) (node : Ptr) (red : Bool) : Links :=
  links.update node (·.setColor red)

/-- `rbtn_red_set`. -/
def redSet (links : Links) (node : Ptr) : Links := links.update node (·.setRed)

/-- `rbtn_black_set`. -/
def blackSet (links : Links) (node : Ptr) : Links := links.update node (·.setBlack)

theorem leftGet_congr {links other : Links} {node : Ptr} (same : other node = links node) :
    other.leftGet node = links.leftGet node := by
  rw [leftGet, leftGet, same]

theorem rightGet_congr {links other : Links} {node : Ptr} (same : other node = links node) :
    other.rightGet node = links.rightGet node := by
  rw [rightGet, rightGet, same]

theorem redGet_congr {links other : Links} {node : Ptr} (same : other node = links node) :
    other.redGet node = links.redGet node := by
  rw [redGet, redGet, same]

@[simp] theorem redSet_eq (links : Links) (node : Ptr) :
    links.redSet node = links.colorSet node true := by
  simp only [redSet, colorSet, update, RbNode.setRed_eq]

@[simp] theorem blackSet_eq (links : Links) (node : Ptr) :
    links.blackSet node = links.colorSet node false := by
  simp only [blackSet, colorSet, update, RbNode.setBlack_eq]

theorem update_of_ne (links : Links) {node other : Ptr} (edit : RbNode → RbNode)
    (different : other ≠ node) : links.update node edit other = links other :=
  Function.update_of_ne different _ _

@[simp] theorem leftSet_of_ne (links : Links) {node left other : Ptr} (different : other ≠ node) :
    links.leftSet node left other = links other :=
  links.update_of_ne _ different

@[simp] theorem rightSet_of_ne (links : Links) {node right other : Ptr}
    (different : other ≠ node) : links.rightSet node right other = links other :=
  links.update_of_ne _ different

@[simp] theorem colorSet_of_ne (links : Links) {node other : Ptr} {red : Bool}
    (different : other ≠ node) : links.colorSet node red other = links other :=
  links.update_of_ne _ different

@[simp] theorem leftGet_leftSet (links : Links) (node left other : Ptr) :
    (links.leftSet node left).leftGet other =
      if other = node then left else links.leftGet other := by
  unfold leftGet leftSet update
  by_cases same : other = node
  · subst same
    simp
  · simp [same]

@[simp] theorem rightGet_leftSet (links : Links) (node left other : Ptr) :
    (links.leftSet node left).rightGet other = links.rightGet other := by
  unfold rightGet leftSet update
  by_cases same : other = node
  · subst same
    simp
  · simp [same]

@[simp] theorem redGet_leftSet (links : Links) (node left other : Ptr) :
    (links.leftSet node left).redGet other = links.redGet other := by
  unfold redGet leftSet update
  by_cases same : other = node
  · subst same
    simp
  · simp [same]

@[simp] theorem leftGet_rightSet (links : Links) (node right other : Ptr) :
    (links.rightSet node right).leftGet other = links.leftGet other := by
  unfold leftGet rightSet update
  by_cases same : other = node
  · subst same
    simp
  · simp [same]

@[simp] theorem rightGet_rightSet (links : Links) (node right other : Ptr) :
    (links.rightSet node right).rightGet other =
      if other = node then right else links.rightGet other := by
  unfold rightGet rightSet update
  by_cases same : other = node
  · subst same
    simp
  · simp [same]

@[simp] theorem redGet_rightSet (links : Links) (node right other : Ptr) :
    (links.rightSet node right).redGet other = links.redGet other := by
  unfold redGet rightSet update
  by_cases same : other = node
  · subst same
    simp
  · simp [same]

@[simp] theorem leftGet_colorSet (links : Links) (node other : Ptr) (red : Bool) :
    (links.colorSet node red).leftGet other = links.leftGet other := by
  unfold leftGet colorSet update
  by_cases same : other = node
  · subst same
    simp
  · simp [same]

@[simp] theorem rightGet_colorSet (links : Links) (node other : Ptr) (red : Bool) :
    (links.colorSet node red).rightGet other = links.rightGet other := by
  unfold rightGet colorSet update
  by_cases same : other = node
  · subst same
    simp
  · simp [same]

@[simp] theorem redGet_colorSet (links : Links) (node other : Ptr) (red : Bool) :
    (links.colorSet node red).redGet other = if other = node then red else links.redGet other := by
  unfold redGet colorSet update
  by_cases same : other = node
  · subst same
    simp
  · simp [same]

/-- `rbtn_rotate_left`: the links and the new root of the subtree. -/
def rotateLeft (links : Links) (node : Ptr) : Links × Ptr :=
  let root := links.rightGet node
  let links := links.rightSet node (links.leftGet root)
  (links.leftSet root node, root)

/-- `rbtn_rotate_right`: the links and the new root of the subtree. -/
def rotateRight (links : Links) (node : Ptr) : Links × Ptr :=
  let root := links.leftGet node
  let links := links.leftSet node (links.rightGet root)
  (links.rightSet root node, root)

@[simp] theorem rotateLeft_eq (links : Links) (node : Ptr) :
    links.rotateLeft node =
      ((links.rightSet node (links.leftGet (links.rightGet node))).leftSet
        (links.rightGet node) node, links.rightGet node) := rfl

@[simp] theorem rotateRight_eq (links : Links) (node : Ptr) :
    links.rotateRight node =
      ((links.leftSet node (links.rightGet (links.leftGet node))).rightSet
        (links.leftGet node) node, links.leftGet node) := rfl

end Links

end Jemalloc
end Vmem
