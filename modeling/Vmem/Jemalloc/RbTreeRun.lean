import Vmem.Jemalloc.RbHeapRemove
import Vmem.Jemalloc.RbSearch

/-!
# Runs over a red-black tree

Callers link new nodes, unlink linked ones and edit the keys of nodes that are not
linked.  In every such run the generated functions keep a balanced tree over the links
and do what the ordered list of the linked nodes does.
-/

namespace Vmem
namespace Jemalloc
namespace Rb

open LeftLeaning (BinTree probeFor)
open OrderedTree (Sorted)

variable {κ : Type} [LinearOrder κ]

/-- The comparison function of a tree whose nodes carry keys. -/
def compareKeys (key : Ptr → κ) (node other : Ptr) : Ordering := compare (key node) (key other)

/-- What a caller of the functions does next. -/
inductive Action (κ : Type)
  | insert (node : Ptr)
  | remove (node : Ptr)
  /-- Edit the memory that the comparison function reads. -/
  | rekey (key : Ptr → κ)

/-- The purpose of a tree: the linked nodes, ordered by their keys. -/
structure Ordered (κ : Type) where
  key : Ptr → κ
  nodes : List Ptr

/-- A step of the ordered list, for callers that only link new nodes, only unlink linked
ones and leave the keys of linked nodes alone. -/
def Ordered.step (nil : Ptr) (state : Ordered κ) : Action κ → Option (Ordered κ)
  | .insert node =>
      if node ≠ nil ∧ ∀ other ∈ state.nodes, state.key other ≠ state.key node then
        some { state with nodes := OrderedTree.insert state.key node state.nodes }
      else none
  | .remove node =>
      if node ∈ state.nodes then
        some { state with nodes := OrderedTree.remove node state.nodes }
      else none
  | .rekey key =>
      if ∀ node ∈ state.nodes, key node = state.key node then some { state with key := key }
      else none

/-- The memory of a tree: the keys and the links of all nodes and the root. -/
structure Linked (κ : Type) where
  key : Ptr → κ
  rbt : Rbt

/-- A step of the generated functions. -/
def Linked.step (nil : Ptr) (state : Linked κ) : Action κ → Option (Linked κ)
  | .insert node =>
      (insert nil (compareKeys state.key) state.rbt node).map fun rbt => { state with rbt }
  | .remove node =>
      (remove nil (compareKeys state.key) state.rbt node).map fun rbt => { state with rbt }
  | .rekey key => some { state with key := key }

/-- The links hold a balanced tree of the ordered nodes. -/
structure Refines (nil : Ptr) (linked : Linked κ) (ordered : Ordered κ) : Prop where
  key_eq : linked.key = ordered.key
  sorted : Sorted ordered.key ordered.nodes
  tree : ∃ tree height, Represents nil linked.rbt tree ∧ BinTree.Balanced tree height ∧
    tree.isRed = false ∧ tree.nodes = ordered.nodes

theorem refines_rbNew (nil : Ptr) (links : Links) (key : Ptr → κ) :
    Refines nil ⟨key, rbNew nil links⟩ ⟨key, []⟩ where
  key_eq := rfl
  sorted := OrderedTree.Sorted.nil key
  tree := ⟨.nil, 0, ⟨rfl, List.nodup_nil, by simp [rbNew]⟩, .nil, rfl, rfl⟩

/-- The nodes that an action links. -/
def Action.links : Action κ → List Ptr
  | .insert node => [node]
  | _ => []

/-- One step of a careful caller: the functions succeed, and they write the links of the
linked nodes only. -/
theorem Refines.step {nil : Ptr} {linked : Linked κ} {before after : Ordered κ}
    {action : Action κ} (refines : Refines nil linked before)
    (result : before.step nil action = some after) :
    ∃ next, linked.step nil action = some next ∧ Refines nil next after ∧
      SameOutside (action.links ++ before.nodes) linked.rbt.links next.rbt.links ∧
      ∀ node ∈ after.nodes, node ∈ action.links ++ before.nodes := by
  obtain ⟨keyEq, sorted, tree, height, represents, balanced, black, nodes⟩ := refines
  rw [← nodes] at sorted
  cases action with
  | insert node =>
      simp only [Ordered.step, Option.ite_none_right_eq_some, Option.some.injEq] at result
      obtain ⟨⟨notNil, fresh⟩, rfl⟩ := result
      rw [← nodes] at fresh
      have new : node ∉ tree.nodes := fun member => fresh node member rfl
      obtain ⟨rbt, inserted, outRepresents, same⟩ :=
        insert_represents represents balanced black notNil new
          (show ∀ other ∈ tree.nodes, compareKeys linked.key node other ≠ .eq from
            fun other member equal => fresh other member (by
              rw [← keyEq]
              exact (compare_eq_iff_eq.mp equal).symm))
      obtain ⟨⟨outHeight, outBalanced⟩, outBlack⟩ :=
        LeftLeaning.insert_balanced (compareKeys linked.key node) node balanced black
      have outNodes : (LeftLeaning.insert (compareKeys linked.key node) node tree).nodes =
          OrderedTree.insert before.key node before.nodes := by
        rw [← nodes, ← LeftLeaning.nodes_insert sorted fresh, keyEq]
        rfl
      refine ⟨⟨linked.key, rbt⟩, by rw [Linked.step, inserted]; rfl, ⟨keyEq, ?_, _, outHeight,
        outRepresents, outBalanced, outBlack, outNodes⟩, ?_, ?_⟩
      · rw [← nodes]
        exact sorted.insert fresh
      · rw [← nodes]
        exact same
      · intro other member
        simpa [Action.links] using OrderedTree.mem_insert.mp member
  | remove node =>
      simp only [Ordered.step, Option.ite_none_right_eq_some, Option.some.injEq] at result
      obtain ⟨member, rfl⟩ := result
      rw [← nodes] at member
      obtain ⟨path, left, red, right, located⟩ := LeftLeaning.locate_node [] sorted member
      rw [← keyEq] at located
      obtain ⟨rbt, removed, outRepresents, same⟩ :=
        remove_represents represents balanced black
          (show LeftLeaning.locate (compareKeys linked.key node) tree [] = _ from located)
      obtain ⟨⟨outHeight, outBalanced⟩, outBlack⟩ :=
        LeftLeaning.remove_balanced (compareKeys linked.key node) balanced black
      have outNodes : (LeftLeaning.remove (compareKeys linked.key node) tree).nodes =
          OrderedTree.remove node before.nodes := by
        rw [← nodes, ← LeftLeaning.nodes_remove balanced black sorted member, keyEq]
        rfl
      refine ⟨⟨linked.key, rbt⟩, by rw [Linked.step, removed]; rfl, ⟨keyEq, ?_, _, outHeight,
        outRepresents, outBalanced, outBlack, outNodes⟩, ?_, ?_⟩
      · rw [← nodes]
        exact sorted.remove node
      · rw [← nodes]
        exact same
      · intro other inRest
        exact OrderedTree.mem_of_mem_remove inRest
  | rekey key =>
      simp only [Ordered.step, Option.ite_none_right_eq_some, Option.some.injEq] at result
      obtain ⟨agrees, rfl⟩ := result
      rw [nodes] at sorted
      exact ⟨⟨key, linked.rbt⟩, rfl, ⟨rfl, sorted.congr agrees, tree, height, represents,
        balanced, black, nodes⟩, fun _ _ => rfl, fun _ member => member⟩

/-- A run of a careful caller. -/
theorem Refines.run {nil : Ptr} {linked : Linked κ} {before after : Ordered κ}
    {actions : List (Action κ)} (refines : Refines nil linked before)
    (result : actions.foldlM (Ordered.step nil) before = some after) :
    ∃ final, actions.foldlM (Linked.step nil) linked = some final ∧ Refines nil final after ∧
      SameOutside (actions.flatMap Action.links ++ before.nodes)
        linked.rbt.links final.rbt.links := by
  induction actions generalizing linked before with
  | nil =>
      rw [List.foldlM_nil] at result
      cases result
      exact ⟨linked, rfl, refines, fun _ _ => rfl⟩
  | cons action rest inductionHypothesis =>
      rw [List.foldlM_cons] at result
      obtain ⟨middle, first, remaining⟩ := Option.bind_eq_some_iff.mp result
      obtain ⟨next, stepped, nextRefines, same, members⟩ := refines.step first
      obtain ⟨final, ran, finalRefines, restSame⟩ := inductionHypothesis nextRefines remaining
      refine ⟨final, ?_, finalRefines, ?_⟩
      · rw [List.foldlM_cons, stepped]
        exact ran
      · intro node outside
        rw [List.flatMap_cons, List.append_assoc, notMem_append, notMem_append] at outside
        obtain ⟨notNow, notLater, notBefore⟩ := outside
        rw [restSame node ?_, same node (notMem_append.mpr ⟨notNow, notBefore⟩)]
        exact notMem_append.mpr ⟨notLater, fun member =>
          (notMem_append.mpr ⟨notNow, notBefore⟩) (members node member)⟩

/-! ## Edits -/

/-- In every run of a careful caller the generated functions stay within their path
array, fail no assertion, keep a balanced tree whose nodes are those of the ordered list,
and write no node that was not linked. -/
theorem rb_edits_refine (nil : Ptr) (links : Links) (key : Ptr → κ) (actions : List (Action κ))
    (ordered : Ordered κ)
    (careful : actions.foldlM (Ordered.step nil) ⟨key, []⟩ = some ordered) :
    ∃ linked, actions.foldlM (Linked.step nil) ⟨key, rbNew nil links⟩ = some linked ∧
      Refines nil linked ordered ∧
      ∀ node, node ≠ nil → (∀ action ∈ actions, node ∉ action.links) →
        linked.rbt.links node = links node := by
  obtain ⟨linked, ran, refines, same⟩ := (refines_rbNew nil links key).run careful
  refine ⟨linked, ran, refines, fun node notNil notLinked => ?_⟩
  have agrees : linked.rbt.links node = (rbNew nil links).links node := by
    apply same
    rw [List.append_nil, List.mem_flatMap]
    rintro ⟨action, member, links⟩
    exact notLinked action member links
  rw [agrees]
  simp [rbNew, rbtNodeNew, notNil]

/-- A node at a small even address. -/
def nodeAt (index : Nat) : Ptr :=
  ⟨BitVec.ofNat 64 (16 * index), by
    rw [BitVec.getLsbD_ofNat, show 16 * index = 2 * (8 * index) by omega]
    simp⟩

/-- Three nodes are linked and one is unlinked again. -/
theorem rb_edits_refine_example :
    ∃ linked, [Action.insert (nodeAt 2), .insert (nodeAt 1), .insert (nodeAt 3),
        .remove (nodeAt 2)].foldlM (Linked.step (nodeAt 0))
          ⟨fun node => node.addr.toNat, rbNew (nodeAt 0) fun _ => ⟨nodeAt 0, 0⟩⟩ = some linked ∧
      Refines (nodeAt 0) linked ⟨fun node => node.addr.toNat, [nodeAt 1, nodeAt 3]⟩ :=
  (rb_edits_refine (nodeAt 0) (fun _ => ⟨nodeAt 0, 0⟩) (fun node => node.addr.toNat)
    [.insert (nodeAt 2), .insert (nodeAt 1), .insert (nodeAt 3), .remove (nodeAt 2)]
    ⟨fun node => node.addr.toNat, [nodeAt 1, nodeAt 3]⟩ rfl).imp
      fun _ result => ⟨result.1, result.2.1⟩

/-! ## Searches -/

theorem orNull_getD {nil : Ptr} {found : Option Ptr} (notNil : ∀ node ∈ found, node ≠ nil) :
    orNull nil (found.getD nil) = found := by
  unfold orNull
  cases found with
  | none => exact if_pos rfl
  | some node => exact if_neg (notNil node rfl)

/-- The nodes around a linked one. -/
theorem find_next {key : Ptr → κ} {before after : List Ptr} {node : Ptr}
    (sorted : Sorted key (before ++ node :: after)) :
    (before ++ node :: after).find? (fun other => key node < key other) = after.head? := by
  obtain ⟨_, nodeSorted, smaller⟩ := List.pairwise_append.mp sorted
  have larger := (List.pairwise_cons.mp nodeSorted).1
  rw [List.find?_append, find?_eq_none_of fun other member =>
    decide_eq_false (not_lt.mpr (smaller other member node List.mem_cons_self).le),
    Option.none_or, List.find?_cons, decide_eq_false (lt_irrefl _)]
  cases after with
  | nil => rfl
  | cons first rest =>
      rw [List.find?_cons, decide_eq_true (larger first List.mem_cons_self)]
      rfl

theorem find_prev {key : Ptr → κ} {before after : List Ptr} {node : Ptr}
    (sorted : Sorted key (before ++ node :: after)) :
    findLast (fun other => key other < key node) (before ++ node :: after) = before.getLast? := by
  obtain ⟨_, nodeSorted, smaller⟩ := List.pairwise_append.mp sorted
  have larger := (List.pairwise_cons.mp nodeSorted).1
  rw [findLast_append, findLast_cons, findLast_eq_none fun other member =>
    decide_eq_false (not_lt.mpr (larger other member).le), decide_eq_false (lt_irrefl _),
    findLast, List.getLast?_eq_head?_reverse]
  cases reversed : before.reverse with
  | nil => rfl
  | cons first rest =>
      have member : first ∈ before := List.mem_reverse.mp (reversed ▸ List.mem_cons_self)
      rw [List.find?_cons, decide_eq_true (smaller first member node List.mem_cons_self)]
      rfl

theorem prev_eq_getLast? {before after : List Ptr} {node : Ptr}
    (nodup : (before ++ node :: after).Nodup) :
    OrderedTree.prev node (before ++ node :: after) = before.getLast? := by
  induction before with
  | nil =>
      cases after with
      | nil => rfl
      | cons first rest =>
          -- the node does not come again
          have absent : ∀ (left : Ptr) (others : List Ptr), node ∉ others →
              OrderedTree.prev node (left :: others) = none := by
            intro left others outside
            induction others generalizing left with
            | nil => rfl
            | cons second others inductionHypothesis =>
                rw [notMem_cons] at outside
                rw [OrderedTree.prev, if_neg outside.2.1]
                exact inductionHypothesis second outside.2.2
          exact absent node (first :: rest) (List.nodup_cons.mp nodup).1
  | cons first rest inductionHypothesis =>
      have restPrev := inductionHypothesis (List.nodup_cons.mp nodup).2
      cases rest with
      | nil => simp [OrderedTree.prev]
      | cons second rest =>
          have different : second ≠ node := by
            rintro rfl
            simp at nodup
          rw [List.cons_append, List.cons_append, OrderedTree.prev, if_neg different]
          rw [List.cons_append] at restPrev
          rw [restPrev, List.getLast?_cons_cons]

/-- In every run of a careful caller each search of the tree ends within as many passes
as the path array has slots, and finds what the ordered list says. -/
theorem rb_searches_refine (nil : Ptr) (links : Links) (key : Ptr → κ)
    (actions : List (Action κ)) (ordered : Ordered κ) (linked : Linked κ)
    (careful : actions.foldlM (Ordered.step nil) ⟨key, []⟩ = some ordered)
    (ran : actions.foldlM (Linked.step nil) ⟨key, rbNew nil links⟩ = some linked)
    (passes : Nat) (enough : pathSlots ≤ passes) :
    (∀ wanted, search nil (probeFor ordered.key wanted) linked.rbt passes =
      some (OrderedTree.search ordered.key wanted ordered.nodes)) ∧
    (∀ wanted, nsearch nil (probeFor ordered.key wanted) linked.rbt passes =
      some (OrderedTree.nsearch ordered.key wanted ordered.nodes)) ∧
    (∀ wanted, psearch nil (probeFor ordered.key wanted) linked.rbt passes =
      some (findLast (fun node => ordered.key node ≤ wanted) ordered.nodes)) ∧
    first nil linked.rbt passes = some ordered.nodes.head? ∧
    last nil linked.rbt passes = some ordered.nodes.getLast? ∧
    (∀ node ∈ ordered.nodes, next nil (compareKeys ordered.key) linked.rbt passes node =
      some (ordered.nodes.find? fun other => ordered.key node < ordered.key other)) ∧
    (∀ node ∈ ordered.nodes, prev nil (compareKeys ordered.key) linked.rbt passes node =
      some (OrderedTree.prev node ordered.nodes)) := by
  obtain ⟨final, finalRan, refines, _⟩ := (refines_rbNew nil links key).run careful
  obtain rfl : final = linked := Option.some.inj (finalRan.symm.trans ran)
  obtain ⟨_, sorted, tree, height, represents, balanced, black, nodes⟩ := refines
  have deep := represents.depth_le balanced black
  have shallow : tree.depth < passes := by
    have slots : pathSlots = 128 := rfl
    omega
  obtain ⟨holds, nodup, _⟩ := represents
  rw [← nodes] at sorted ⊢
  have isNode : ∀ node ∈ tree.nodes, node ≠ nil := fun node member same =>
    holds.notMem (same ▸ member)
  refine ⟨fun wanted => ?_, fun wanted => ?_, fun wanted => ?_, ?_, ?_, fun node member => ?_,
    fun node member => ?_⟩
  · rw [search, searchLoop_holds holds sorted shallow, Option.map_some, orNull_getD]
    exact fun node found => isNode node (List.mem_of_find?_eq_some found)
  · rw [nsearch, nsearchLoop_holds holds sorted shallow, Option.map_some, orNull_getD]
    exact fun node found => isNode node (List.mem_of_find?_eq_some found)
  · rw [psearch, psearchLoop_holds holds sorted shallow, Option.map_some, orNull_getD]
    exact fun node found =>
      isNode node (List.mem_reverse.mp (List.mem_of_find?_eq_some found))
  · rw [first, rbtnFirst_holds holds shallow, Option.map_some, orNull_getD]
    exact fun node found => isNode node (List.mem_of_mem_head? found)
  · rw [last, rbtnLast_holds holds shallow, Option.map_some, orNull_getD]
    exact fun node found => isNode node (List.mem_of_mem_getLast? found)
  · obtain ⟨before, left, red, right, after, split, subHolds, _, rightDepth⟩ :=
      holds.subtree member
    obtain ⟨_, _, _, _, rightHolds⟩ := subHolds
    have found : orNull nil ((tree.nodes.find? fun other =>
        ordered.key node < ordered.key other).getD nil) =
        tree.nodes.find? fun other => ordered.key node < ordered.key other :=
      orNull_getD fun node found => isNode node (List.mem_of_find?_eq_some found)
    rw [next]
    split
    · next hasRight =>
        have regroup : tree.nodes = (before ++ left.nodes) ++ node :: (right.nodes ++ after) := by
          rw [split]
          simp
        have isHead : right.nodes.head? =
            tree.nodes.find? fun other => ordered.key node < ordered.key other := by
          rw [regroup] at sorted ⊢
          rw [find_next sorted, List.head?_append]
          cases right with
          | nil => exact absurd rightHolds hasRight
          | node => simp [List.head?_append]
        rw [rbtnFirst_holds rightHolds (by omega), isHead, Option.map_some, found]
    · next noRight =>
        rw [not_not] at noRight
        exact (congrArg _ (nextLoop_holds holds sorted member noRight shallow)).trans
          (by rw [Option.map_some, found])
  · obtain ⟨before, left, red, right, after, split, subHolds, leftDepth, _⟩ :=
      holds.subtree member
    obtain ⟨_, _, _, leftHolds, _⟩ := subHolds
    have regroup : tree.nodes = (before ++ left.nodes) ++ node :: (right.nodes ++ after) := by
      rw [split]
      simp
    have isPrev : OrderedTree.prev node tree.nodes =
        findLast (fun other => ordered.key other < ordered.key node) tree.nodes := by
      rw [regroup] at sorted nodup ⊢
      rw [prev_eq_getLast? nodup, find_prev sorted]
    have found : orNull nil ((findLast (fun other => ordered.key other < ordered.key node)
        tree.nodes).getD nil) =
          findLast (fun other => ordered.key other < ordered.key node) tree.nodes :=
      orNull_getD fun node found =>
        isNode node (List.mem_reverse.mp (List.mem_of_find?_eq_some found))
    rw [prev, isPrev]
    split
    · next hasLeft =>
        have isLast : left.nodes.getLast? =
            findLast (fun other => ordered.key other < ordered.key node) tree.nodes := by
          rw [regroup] at sorted ⊢
          rw [find_prev sorted, List.getLast?_append]
          cases left with
          | nil => exact absurd leftHolds hasLeft
          | node below middle colour above =>
              have notEmpty : (BinTree.node below middle colour above).nodes ≠ [] := by simp
              rw [List.getLast?_eq_some_getLast notEmpty]
              rfl
        rw [rbtnLast_holds leftHolds (by omega), isLast, Option.map_some, found]
    · next noLeft =>
        rw [not_not] at noLeft
        exact (congrArg _ (prevLoop_holds holds sorted member noLeft shallow)).trans
          (by rw [Option.map_some, found])

/-- Searches of a tree of two nodes. -/
theorem rb_searches_refine_example :
    ∃ linked, nsearch (nodeAt 0) (probeFor (fun node => node.addr.toNat) 17) linked pathSlots =
        some (some (nodeAt 2)) ∧
      prev (nodeAt 0) (compareKeys fun node => node.addr.toNat) linked pathSlots (nodeAt 2) =
        some (some (nodeAt 1)) := by
  obtain ⟨linked, ran, _⟩ := (refines_rbNew (nodeAt 0) (fun _ => ⟨nodeAt 0, 0⟩)
    (fun node => node.addr.toNat)).run
      (show [Action.insert (nodeAt 2), .insert (nodeAt 1)].foldlM (Ordered.step (nodeAt 0)) _ =
        some ⟨fun node => node.addr.toNat, [nodeAt 1, nodeAt 2]⟩ from rfl)
  obtain ⟨_, nsearched, _, _, _, _, previous⟩ := rb_searches_refine (nodeAt 0)
    (fun _ => ⟨nodeAt 0, 0⟩) (fun node => node.addr.toNat)
    [.insert (nodeAt 2), .insert (nodeAt 1)] ⟨fun node => node.addr.toNat, [nodeAt 1, nodeAt 2]⟩
    linked rfl ran pathSlots le_rfl
  exact ⟨linked.rbt, nsearched 17, previous (nodeAt 2) (by simp)⟩

/-! ## Iteration -/

/-- In every run of a careful caller an iteration calls back for the linked nodes in their
order, from the start node on, until a call returns a pointer, which is then its result. -/
theorem rb_iterations_visit {σ : Type} (nil : Ptr) (links : Links) (key : Ptr → κ)
    (actions : List (Action κ)) (ordered : Ordered κ) (linked : Linked κ)
    (careful : actions.foldlM (Ordered.step nil) ⟨key, []⟩ = some ordered)
    (ran : actions.foldlM (Linked.step nil) ⟨key, rbNew nil links⟩ = some linked)
    (passes : Nat) (enough : pathSlots ≤ passes)
    (cb : Ptr → σ → Option Ptr × σ) (notNil : ∀ node state, (cb node state).1 ≠ some nil)
    (state : σ) :
    iter nil (compareKeys ordered.key) cb linked.rbt passes none state =
        some (visit cb ordered.nodes state) ∧
      reverseIter nil (compareKeys ordered.key) cb linked.rbt passes none state =
        some (visit cb ordered.nodes.reverse state) ∧
      ∀ start ∈ ordered.nodes,
        iter nil (compareKeys ordered.key) cb linked.rbt passes (some start) state =
          some (visit cb (ordered.nodes.filter fun node => ordered.key start ≤ ordered.key node)
            state) ∧
        reverseIter nil (compareKeys ordered.key) cb linked.rbt passes (some start) state =
          some (visit cb (ordered.nodes.filter fun node =>
            ordered.key node ≤ ordered.key start).reverse state) := by
  obtain ⟨final, finalRan, refines, _⟩ := (refines_rbNew nil links key).run careful
  obtain rfl : final = linked := Option.some.inj (finalRan.symm.trans ran)
  obtain ⟨_, sorted, tree, height, represents, balanced, black, nodes⟩ := refines
  have deep := represents.depth_le balanced black
  have shallow : tree.depth < passes := by
    have slots : pathSlots = 128 := rfl
    omega
  have holds := represents.holds
  rw [← nodes] at sorted ⊢
  have returned : ∀ visited : List Ptr, (some (sentinel nil (visit cb visited state))).map
      (fun result : Ptr × σ => (orNull nil result.1, result.2)) =
        some (visit cb visited state) := by
    intro visited
    rw [Option.map_some, sentinel]
    dsimp only
    rw [orNull_getD fun node found same =>
      visit_ne_nil notNil visited state (by rw [← same]; exact found)]
  refine ⟨?_, ?_, fun start member => ⟨?_, ?_⟩⟩
  · exact (congrArg _ (iterRecurse_holds notNil holds shallow)).trans (returned _)
  · exact (congrArg _ (reverseIterRecurse_holds notNil holds shallow)).trans (returned _)
  · exact (congrArg _ (iterStart_holds notNil holds sorted member shallow)).trans (returned _)
  · exact (congrArg _ (reverseIterStart_holds notNil holds sorted member shallow)).trans
      (returned _)

/-- An iteration that collects the nodes it meets. -/
theorem rb_iterations_visit_example :
    ∃ linked, iter (nodeAt 0) (compareKeys fun node => node.addr.toNat)
      (fun node met => (none, met ++ [node])) linked pathSlots none [] =
        some (none, [nodeAt 1, nodeAt 2]) := by
  obtain ⟨linked, ran, _⟩ := (refines_rbNew (nodeAt 0) (fun _ => ⟨nodeAt 0, 0⟩)
    (fun node => node.addr.toNat)).run
      (show [Action.insert (nodeAt 2), .insert (nodeAt 1)].foldlM (Ordered.step (nodeAt 0)) _ =
        some ⟨fun node => node.addr.toNat, [nodeAt 1, nodeAt 2]⟩ from rfl)
  exact ⟨linked.rbt, (rb_iterations_visit (nodeAt 0) (fun _ => ⟨nodeAt 0, 0⟩)
    (fun node => node.addr.toNat) [.insert (nodeAt 2), .insert (nodeAt 1)]
    ⟨fun node => node.addr.toNat, [nodeAt 1, nodeAt 2]⟩ linked rfl ran pathSlots le_rfl
    (fun node met => (none, met ++ [node])) (by simp) []).1⟩

end Rb
end Jemalloc
end Vmem
