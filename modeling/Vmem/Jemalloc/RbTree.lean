import Vmem.Jemalloc.RbLinks

/-!
# The functions of a red-black tree

What `rb_gen` generates, over the links of the nodes.  The `path` array of an edit is
the list of its used slots, the innermost one first, so that `pathp[-1]` is the head of
the rest.  An edit has no result where the C code writes behind the array, follows a
null pointer or fails an assertion.
-/

namespace Vmem
namespace Jemalloc
namespace Rb

/-- `rb_tree`: the links of all nodes and the root; the sentinel `rbt_nil` never changes
its address and is a parameter of the functions. -/
structure Rbt where
  links : Links
  root : Ptr

/-- A slot of the `path` array. -/
structure PathEntry where
  node : Ptr
  cmp : Ordering

/-- `sizeof(void *) << 4`, the number of slots. -/
def pathSlots : Nat := 8 <<< 4

/-- Write the child of the node in a slot on the side that the way takes. -/
def setChild (links : Links) (entry : PathEntry) (child : Ptr) : Links :=
  if entry.cmp = .lt then links.leftSet entry.node child else links.rightSet entry.node child

section

variable (nil : Ptr)

/-- `rbt_node_new`. -/
def rbtNodeNew (links : Links) (node : Ptr) : Links :=
  ((links.leftSet node nil).rightSet node nil).redSet node

/-- `rb_new`. -/
def rbNew (links : Links) : Rbt :=
  ⟨(rbtNodeNew nil links nil).blackSet nil, nil⟩

/-! ## Insertion -/

/-- The loop that winds the path of a new node; `room` slots are left. -/
def insertWind (cmp : Ptr → Ordering) (links : Links) :
    Nat → Ptr → List PathEntry → Option (List PathEntry)
  | room, node, path =>
      if node = nil then some path
      else match room with
        | 0 => none
        | room + 1 =>
            match cmp node with
            | .eq => none -- assert(cmp != 0)
            | .lt => insertWind cmp links room (links.leftGet node) (⟨node, .lt⟩ :: path)
            | .gt => insertWind cmp links room (links.rightGet node) (⟨node, .gt⟩ :: path)

/-- The body of the loop that unwinds the path of a new node: the links and, unless the
function returns, the root of the subtree. -/
def insertFix (links : Links) (entry : PathEntry) (child : Ptr) : Links × Option Ptr :=
  let cnode := entry.node
  if entry.cmp = .lt then
    let left := child
    let links := links.leftSet cnode left
    if links.redGet left then
      let leftleft := links.leftGet left
      if links.redGet leftleft then
        -- fix up 4-node
        let links := links.blackSet leftleft
        let (links, tnode) := links.rotateRight cnode
        (links, some tnode)
      else (links, some cnode)
    else (links, none)
  else
    let right := child
    let links := links.rightSet cnode right
    if links.redGet right then
      let left := links.leftGet cnode
      if links.redGet left then
        -- split 4-node
        let links := links.blackSet left
        let links := links.blackSet right
        let links := links.redSet cnode
        (links, some cnode)
      else
        -- lean left
        let tred := links.redGet cnode
        let (links, tnode) := links.rotateLeft cnode
        let links := links.colorSet tnode tred
        let links := links.redSet cnode
        (links, some tnode)
    else (links, none)

/-- The loop that unwinds the path of a new node. -/
def insertUnwind (root : Ptr) : Links → List PathEntry → Ptr → Rbt
  | links, [], child => ⟨links.blackSet child, child⟩
  | links, entry :: rest, child =>
      match insertFix links entry child with
      | (links, some cnode) => insertUnwind root links rest cnode
      | (links, none) => ⟨links, root⟩

/-- `insert`. -/
def insert (cmp : Ptr → Ptr → Ordering) (tree : Rbt) (node : Ptr) : Option Rbt :=
  let links := rbtNodeNew nil tree.links node
  (insertWind nil (cmp node) links (pathSlots - 1) tree.root []).map fun path =>
    insertUnwind tree.root links path node

/-! ## Removal -/

/-- The loop that finds the successor of a node. -/
def successorWind (links : Links) :
    Nat → Ptr → List PathEntry → Option (List PathEntry)
  | room, node, path =>
      if node = nil then some path
      else match room with
        | 0 => none
        | room + 1 => successorWind links room (links.leftGet node) (⟨node, .lt⟩ :: path)

/-- The path of a removal, split at `nodep`: the slots behind it, its node, and the slots
before it. -/
structure RemovePath where
  inner : List PathEntry
  found : Ptr
  outer : List PathEntry

/-- The loop that winds the path of a node to remove. -/
def removeWind (cmp : Ptr → Ordering) (links : Links) :
    Nat → Ptr → List PathEntry → Option RemovePath
  | room, node, path =>
      if node = nil then none -- nodep is null
      else match room with
        | 0 => none
        | room + 1 =>
            match cmp node with
            | .lt => removeWind cmp links room (links.leftGet node) (⟨node, .lt⟩ :: path)
            | .gt => removeWind cmp links room (links.rightGet node) (⟨node, .gt⟩ :: path)
            | .eq =>
                (successorWind nil links room (links.rightGet node) []).map fun inner =>
                  ⟨inner, node, path⟩

/-- What one repair of a removal leaves behind. -/
inductive Repair
  /-- The subtree with this root still misses a black node. -/
  | goesOn (links : Links) (node : Ptr)
  /-- The balance is restored, with a new root of the subtree, which is below another
  node if `inner` holds. -/
  | rotated (links : Links) (node : Ptr) (inner : Bool)
  /-- The balance is restored. -/
  | restored (links : Links)

/-- The body of the loop that unwinds the path of a removed node, below whose left side
a black node is missing. -/
def removeFixLeft (links : Links) (node child : Ptr) : Option Repair :=
  let links := links.leftSet node child
  if links.redGet child then none -- assert(red == false)
  else
    let right := links.rightGet node
    let rightleft := links.leftGet right
    if links.redGet node then
      if links.redGet rightleft then
        let links := links.blackSet node
        let (links, tnode) := links.rotateRight right
        let links := links.rightSet node tnode
        let (links, tnode) := links.rotateLeft node
        some (.rotated links tnode true)
      else
        let (links, tnode) := links.rotateLeft node
        some (.rotated links tnode true)
    else
      if links.redGet rightleft then
        let links := links.blackSet rightleft
        let (links, tnode) := links.rotateRight right
        let links := links.rightSet node tnode
        let (links, tnode) := links.rotateLeft node
        some (.rotated links tnode false)
      else
        let links := links.redSet node
        let (links, tnode) := links.rotateLeft node
        some (.goesOn links tnode)

/-- The same below the right side. -/
def removeFixRight (links : Links) (node child : Ptr) : Option Repair :=
  let links := links.rightSet node child
  let left := links.leftGet node
  if links.redGet left then
    let leftright := links.rightGet left
    let leftrightleft := links.leftGet leftright
    if links.redGet leftrightleft then
      let links := links.blackSet leftrightleft
      let (links, unode) := links.rotateRight node
      let (links, tnode) := links.rotateRight node
      let links := links.rightSet unode tnode
      let (links, tnode) := links.rotateLeft unode
      some (.rotated links tnode false)
    else if leftright = nil then none -- assert(leftright != nil)
    else
      let links := links.redSet leftright
      let (links, tnode) := links.rotateRight node
      let links := links.blackSet tnode
      some (.rotated links tnode false)
  else if links.redGet node then
    let leftleft := links.leftGet left
    if links.redGet leftleft then
      let links := links.blackSet node
      let links := links.redSet left
      let links := links.blackSet leftleft
      let (links, tnode) := links.rotateRight node
      some (.rotated links tnode true)
    else
      let links := links.redSet left
      let links := links.blackSet node
      some (.restored links)
  else
    let leftleft := links.leftGet left
    if links.redGet leftleft then
      let links := links.blackSet leftleft
      let (links, tnode) := links.rotateRight node
      some (.rotated links tnode false)
    else
      let links := links.redSet left
      some (.goesOn links node)

/-- The body of the loop that unwinds the path of a removed node. -/
def removeFix (links : Links) (entry : PathEntry) (child : Ptr) : Option Repair :=
  if entry.cmp = .lt then removeFixLeft links entry.node child
  else removeFixRight nil links entry.node child

/-- Write the new root of a subtree to its parent, or to the tree if there is none. -/
def relink (tree : Rbt) : List PathEntry → Ptr → Rbt
  | [], node => { tree with root := node }
  | parent :: _, node => { tree with links := setChild tree.links parent node }

/-- The loop that unwinds the path of a removed node. -/
def removeUnwind (root : Ptr) : Links → List PathEntry → Ptr → Option Rbt
  | links, [], child => if links.redGet child then none else some ⟨links, child⟩
  | links, entry :: rest, child =>
      match removeFix nil links entry child with
      | none => none
      | some (.goesOn links node) => removeUnwind root links rest node
      | some (.rotated links node inner) =>
          if inner = true ∧ rest.isEmpty = true then none -- assert(pathp > path)
          else some (relink ⟨links, root⟩ rest node)
      | some (.restored links) => some ⟨links, root⟩

/-- Prune a node that is a leaf by now; `path` holds the slots before its own. -/
def removeLeaf (tree : Rbt) (node : Ptr) (path : List PathEntry) : Option Rbt :=
  if tree.links.redGet node then
    match path with
    | [] => none
    | parent :: _ =>
        if parent.cmp = .lt then
          some { tree with links := tree.links.leftSet parent.node nil }
        else none -- assert(pathp[-1].cmp < 0)
  else removeUnwind nil tree.root tree.links path nil

/-- Swap a node with its successor, whose slot is the last of the path. -/
def swapSuccessor (tree : Rbt) (node successor : Ptr) (outer : List PathEntry) : Rbt :=
  let links := tree.links
  let tred := links.redGet successor
  let links := links.colorSet successor (links.redGet node)
  let links := links.leftSet successor (links.leftGet node)
  let links := links.rightSet successor (links.rightGet node)
  let links := links.colorSet node tred
  relink { tree with links } outer successor

/-- Remove a node that has no successor below it. -/
def removeLast (tree : Rbt) (node : Ptr) (outer : List PathEntry) : Option Rbt :=
  let left := tree.links.leftGet node
  if left ≠ nil then
    if tree.links.redGet node = true ∨ tree.links.redGet left = false then none
    else some (relink { tree with links := tree.links.blackSet left } outer left)
  else
    match outer with
    | [] => some { tree with root := nil } -- the tree only contained one node
    | _ => removeLeaf nil tree node outer

/-- `remove`. -/
def remove (cmp : Ptr → Ptr → Ordering) (tree : Rbt) (node : Ptr) : Option Rbt :=
  match removeWind nil (cmp node) tree.links (pathSlots - 1) tree.root [] with
  | none => none
  | some ⟨inner, found, outer⟩ =>
      if found ≠ node then none -- assert(nodep->node == node)
      else
        match inner with
        | [] => removeLast nil tree node outer
        | successor :: inner =>
            removeLeaf nil (swapSuccessor tree node successor.node outer) node
              (inner ++ ⟨successor.node, .gt⟩ :: outer)

/-! ## Searching

The loops get the number of passes that they may take; without a result they did not
end. -/

/-- A found node; the sentinel stands for none. -/
def orNull (ret : Ptr) : Option Ptr := if ret = nil then none else some ret

/-- `rbtn_first`. -/
def rbtnFirst (links : Links) : Nat → Ptr → Option Ptr
  | 0, _ => none
  | passes + 1, node =>
      if node = nil then some nil
      else if links.leftGet node = nil then some node
      else rbtnFirst links passes (links.leftGet node)

/-- `rbtn_last`. -/
def rbtnLast (links : Links) : Nat → Ptr → Option Ptr
  | 0, _ => none
  | passes + 1, node =>
      if node = nil then some nil
      else if links.rightGet node = nil then some node
      else rbtnLast links passes (links.rightGet node)

/-- `first`. -/
def first (tree : Rbt) (passes : Nat) : Option (Option Ptr) :=
  (rbtnFirst nil tree.links passes tree.root).map (orNull nil)

/-- `last`. -/
def last (tree : Rbt) (passes : Nat) : Option (Option Ptr) :=
  (rbtnLast nil tree.links passes tree.root).map (orNull nil)

/-- The loop of `search`. -/
def searchLoop (cmp : Ptr → Ordering) (links : Links) : Nat → Ptr → Option Ptr
  | 0, _ => none
  | passes + 1, ret =>
      if ret = nil then some nil
      else match cmp ret with
        | .eq => some ret
        | .lt => searchLoop cmp links passes (links.leftGet ret)
        | .gt => searchLoop cmp links passes (links.rightGet ret)

/-- The loop of `nsearch`. -/
def nsearchLoop (cmp : Ptr → Ordering) (links : Links) : Nat → Ptr → Ptr → Option Ptr
  | 0, _, _ => none
  | passes + 1, tnode, ret =>
      if tnode = nil then some ret
      else match cmp tnode with
        | .lt => nsearchLoop cmp links passes (links.leftGet tnode) tnode
        | .gt => nsearchLoop cmp links passes (links.rightGet tnode) ret
        | .eq => some tnode

/-- The loop of `psearch`. -/
def psearchLoop (cmp : Ptr → Ordering) (links : Links) : Nat → Ptr → Ptr → Option Ptr
  | 0, _, _ => none
  | passes + 1, tnode, ret =>
      if tnode = nil then some ret
      else match cmp tnode with
        | .lt => psearchLoop cmp links passes (links.leftGet tnode) ret
        | .gt => psearchLoop cmp links passes (links.rightGet tnode) tnode
        | .eq => some tnode

/-- `search`, with the comparisons of the key. -/
def search (cmp : Ptr → Ordering) (tree : Rbt) (passes : Nat) : Option (Option Ptr) :=
  (searchLoop nil cmp tree.links passes tree.root).map (orNull nil)

/-- `nsearch`. -/
def nsearch (cmp : Ptr → Ordering) (tree : Rbt) (passes : Nat) : Option (Option Ptr) :=
  (nsearchLoop nil cmp tree.links passes tree.root nil).map (orNull nil)

/-- `psearch`. -/
def psearch (cmp : Ptr → Ordering) (tree : Rbt) (passes : Nat) : Option (Option Ptr) :=
  (psearchLoop nil cmp tree.links passes tree.root nil).map (orNull nil)

/-- The loop of `next` from the root down. -/
def nextLoop (cmp : Ptr → Ordering) (links : Links) : Nat → Ptr → Ptr → Option Ptr
  | 0, _, _ => none
  | passes + 1, tnode, ret =>
      if tnode = nil then none -- assert(tnode != nil)
      else match cmp tnode with
        | .lt => nextLoop cmp links passes (links.leftGet tnode) tnode
        | .gt => nextLoop cmp links passes (links.rightGet tnode) ret
        | .eq => some ret

/-- The loop of `prev` from the root down. -/
def prevLoop (cmp : Ptr → Ordering) (links : Links) : Nat → Ptr → Ptr → Option Ptr
  | 0, _, _ => none
  | passes + 1, tnode, ret =>
      if tnode = nil then none -- assert(tnode != nil)
      else match cmp tnode with
        | .lt => prevLoop cmp links passes (links.leftGet tnode) ret
        | .gt => prevLoop cmp links passes (links.rightGet tnode) tnode
        | .eq => some ret

/-- `next`. -/
def next (cmp : Ptr → Ptr → Ordering) (tree : Rbt) (passes : Nat) (node : Ptr) :
    Option (Option Ptr) :=
  (if tree.links.rightGet node ≠ nil then
      rbtnFirst nil tree.links passes (tree.links.rightGet node)
    else nextLoop nil (cmp node) tree.links passes tree.root nil).map (orNull nil)

/-- `prev`. -/
def prev (cmp : Ptr → Ptr → Ordering) (tree : Rbt) (passes : Nat) (node : Ptr) :
    Option (Option Ptr) :=
  (if tree.links.leftGet node ≠ nil then
      rbtnLast nil tree.links passes (tree.links.leftGet node)
    else prevLoop nil (cmp node) tree.links passes tree.root nil).map (orNull nil)

/-! ## Iteration -/

variable {σ : Type}

/-- `iter_recurse`: the returned pointer, the sentinel if every node was visited, and the
state of the callback. -/
def iterRecurse (cb : Ptr → σ → Option Ptr × σ) (links : Links) :
    Nat → Ptr → σ → Option (Ptr × σ)
  | 0, _, _ => none
  | passes + 1, node, state =>
      if node = nil then some (nil, state)
      else (iterRecurse cb links passes (links.leftGet node) state).bind fun (ret, state) =>
        if ret ≠ nil then some (ret, state)
        else match cb node state with
          | (some ret, state) => some (ret, state)
          | (none, state) => iterRecurse cb links passes (links.rightGet node) state

/-- `iter_start`. -/
def iterStart (cmp : Ptr → Ordering) (cb : Ptr → σ → Option Ptr × σ) (links : Links) :
    Nat → Ptr → σ → Option (Ptr × σ)
  | 0, _, _ => none
  | passes + 1, node, state =>
      match cmp node with
      | .lt =>
          (iterStart cmp cb links passes (links.leftGet node) state).bind fun (ret, state) =>
            if ret ≠ nil then some (ret, state)
            else match cb node state with
              | (some ret, state) => some (ret, state)
              | (none, state) => iterRecurse nil cb links passes (links.rightGet node) state
      | .gt => iterStart cmp cb links passes (links.rightGet node) state
      | .eq =>
          match cb node state with
          | (some ret, state) => some (ret, state)
          | (none, state) => iterRecurse nil cb links passes (links.rightGet node) state

/-- `iter`. -/
def iter (cmp : Ptr → Ptr → Ordering) (cb : Ptr → σ → Option Ptr × σ) (tree : Rbt)
    (passes : Nat) (start : Option Ptr) (state : σ) : Option (Option Ptr × σ) :=
  (match start with
    | some node => iterStart nil (cmp node) cb tree.links passes tree.root state
    | none => iterRecurse nil cb tree.links passes tree.root state).map fun (ret, state) =>
      (orNull nil ret, state)

/-- `reverse_iter_recurse`. -/
def reverseIterRecurse (cb : Ptr → σ → Option Ptr × σ) (links : Links) :
    Nat → Ptr → σ → Option (Ptr × σ)
  | 0, _, _ => none
  | passes + 1, node, state =>
      if node = nil then some (nil, state)
      else (reverseIterRecurse cb links passes (links.rightGet node) state).bind
        fun (ret, state) =>
          if ret ≠ nil then some (ret, state)
          else match cb node state with
            | (some ret, state) => some (ret, state)
            | (none, state) => reverseIterRecurse cb links passes (links.leftGet node) state

/-- `reverse_iter_start`. -/
def reverseIterStart (cmp : Ptr → Ordering) (cb : Ptr → σ → Option Ptr × σ) (links : Links) :
    Nat → Ptr → σ → Option (Ptr × σ)
  | 0, _, _ => none
  | passes + 1, node, state =>
      match cmp node with
      | .gt =>
          (reverseIterStart cmp cb links passes (links.rightGet node) state).bind
            fun (ret, state) =>
              if ret ≠ nil then some (ret, state)
              else match cb node state with
                | (some ret, state) => some (ret, state)
                | (none, state) =>
                    reverseIterRecurse nil cb links passes (links.leftGet node) state
      | .lt => reverseIterStart cmp cb links passes (links.leftGet node) state
      | .eq =>
          match cb node state with
          | (some ret, state) => some (ret, state)
          | (none, state) => reverseIterRecurse nil cb links passes (links.leftGet node) state

/-- `reverse_iter`. -/
def reverseIter (cmp : Ptr → Ptr → Ordering) (cb : Ptr → σ → Option Ptr × σ) (tree : Rbt)
    (passes : Nat) (start : Option Ptr) (state : σ) : Option (Option Ptr × σ) :=
  (match start with
    | some node => reverseIterStart nil (cmp node) cb tree.links passes tree.root state
    | none => reverseIterRecurse nil cb tree.links passes tree.root state).map fun (ret, state) =>
      (orNull nil ret, state)

end

end Rb
end Jemalloc
end Vmem
