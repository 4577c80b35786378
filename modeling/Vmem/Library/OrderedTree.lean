import Mathlib.Data.List.Sort
import Mathlib.Data.Prod.Lex

/-!
# Search trees over shared mutable nodes

An intrusive search tree is represented by the list of its node pointers in
order.  The key of a node is read through a function, because the nodes live in
a heap and are edited while they are linked: every operation therefore takes
the current key function, and the lemmas say which edits keep a tree sorted.
-/

namespace Vmem
namespace OrderedTree

variable {ν κ : Type} [LinearOrder κ]

/-- The nodes of a tree are strictly increasing in their keys. -/
def Sorted (key : ν → κ) (tree : List ν) : Prop :=
  tree.Pairwise fun left right => key left < key right

/-- Link a node at the place its key belongs to. -/
def insert (key : ν → κ) (node : ν) (tree : List ν) : List ν :=
  tree.orderedInsert (fun left right => key left ≤ key right) node

/-- Unlink a node. -/
def remove [DecidableEq ν] (node : ν) (tree : List ν) : List ν :=
  tree.erase node

/-- First node whose key is the given one. -/
def search (key : ν → κ) (wanted : κ) (tree : List ν) : Option ν :=
  tree.find? fun node => key node = wanted

/-- First node whose key is at least the given one. -/
def nsearch (key : ν → κ) (wanted : κ) (tree : List ν) : Option ν :=
  tree.find? fun node => wanted ≤ key node

/-- The node linked directly before the given one. -/
def prev [DecidableEq ν] (node : ν) : List ν → Option ν
  | left :: right :: rest =>
      if right = node then some left else prev node (right :: rest)
  | _ => none

/-! ## Membership and permutation -/

theorem insert_perm (key : ν → κ) (node : ν) (tree : List ν) :
    (insert key node tree).Perm (node :: tree) :=
  List.perm_orderedInsert _ node tree

@[simp] theorem mem_insert {key : ν → κ} {node other : ν} {tree : List ν} :
    other ∈ insert key node tree ↔ other = node ∨ other ∈ tree :=
  List.mem_orderedInsert _

theorem remove_perm [DecidableEq ν] {node : ν} {tree : List ν} (member : node ∈ tree) :
    tree.Perm (node :: remove node tree) :=
  List.perm_cons_erase member

theorem mem_of_mem_remove [DecidableEq ν] {node other : ν} {tree : List ν}
    (member : other ∈ remove node tree) : other ∈ tree :=
  List.mem_of_mem_erase member

theorem mem_remove [DecidableEq ν] {node other : ν} {tree : List ν}
    (nodup : tree.Nodup) :
    other ∈ remove node tree ↔ other ≠ node ∧ other ∈ tree :=
  nodup.mem_erase_iff

/-- A node with the smallest key is linked in front. -/
theorem insert_of_le {key : ν → κ} {node : ν} {tree : List ν}
    (least : ∀ other ∈ tree, key node ≤ key other) : insert key node tree = node :: tree := by
  cases tree with
  | nil => rfl
  | cons head tail =>
      unfold insert
      rw [List.orderedInsert_cons, if_pos (least head List.mem_cons_self)]

/-! ## Sortedness -/

namespace Sorted

theorem nil (key : ν → κ) : Sorted key ([] : List ν) := List.Pairwise.nil

theorem nodup {key : ν → κ} {tree : List ν} (sorted : Sorted key tree) : tree.Nodup :=
  sorted.imp fun {_ _} less equal => absurd (congrArg key equal) (ne_of_lt less)

/-- Distinct linked nodes have distinct keys. -/
theorem key_injective {key : ν → κ} {tree : List ν} (sorted : Sorted key tree)
    {left right : ν} (leftMember : left ∈ tree) (rightMember : right ∈ tree)
    (equal : key left = key right) : left = right := by
  induction tree with
  | nil => simp at leftMember
  | cons head tail inductionHypothesis =>
      obtain ⟨headLess, tailSorted⟩ := List.pairwise_cons.mp sorted
      rcases List.mem_cons.mp leftMember with rfl | leftTail
      · rcases List.mem_cons.mp rightMember with rfl | rightTail
        · rfl
        · exact absurd equal (ne_of_lt (headLess right rightTail))
      · rcases List.mem_cons.mp rightMember with rfl | rightTail
        · exact absurd equal.symm (ne_of_lt (headLess left leftTail))
        · exact inductionHypothesis tailSorted leftTail rightTail

theorem remove [DecidableEq ν] {key : ν → κ} {tree : List ν}
    (sorted : Sorted key tree) (node : ν) :
    Sorted key (OrderedTree.remove node tree) :=
  List.Pairwise.sublist List.erase_sublist sorted

/-- Linking a node whose key is new keeps a tree sorted. -/
theorem insert {key : ν → κ} {tree : List ν} {node : ν}
    (sorted : Sorted key tree)
    (fresh : ∀ other ∈ tree, key other ≠ key node) :
    Sorted key (OrderedTree.insert key node tree) := by
  induction tree with
  | nil => simp [Sorted, OrderedTree.insert]
  | cons head tail inductionHypothesis =>
      obtain ⟨headLess, tailSorted⟩ := List.pairwise_cons.mp sorted
      have headFresh := fresh head List.mem_cons_self
      have tailInserted := inductionHypothesis tailSorted fun other member =>
        fresh other (List.mem_cons_of_mem head member)
      unfold OrderedTree.insert at tailInserted ⊢
      rw [List.orderedInsert_cons]
      split
      · next before =>
          have nodeLess : key node < key head := lt_of_le_of_ne before headFresh.symm
          refine List.pairwise_cons.mpr ⟨?_, sorted⟩
          intro other member
          rcases List.mem_cons.mp member with rfl | inTail
          · exact nodeLess
          · exact nodeLess.trans (headLess other inTail)
      · next after =>
          refine List.pairwise_cons.mpr ⟨?_, tailInserted⟩
          intro other member
          rcases (List.mem_orderedInsert _).mp member with rfl | inTail
          · exact lt_of_not_ge after
          · exact headLess other inTail

/-- A tree stays sorted when the keys change without changing any comparison
between its nodes. -/
theorem of_keys {key newKey : ν → κ} {tree : List ν}
    (sorted : Sorted key tree)
    (same : ∀ left ∈ tree, ∀ right ∈ tree, left ≠ right →
      key left < key right → newKey left < newKey right) :
    Sorted newKey tree := by
  have distinct := sorted.nodup
  exact (List.Pairwise.and sorted distinct).imp_of_mem
    fun {left right} leftMember rightMember both =>
      same left leftMember right rightMember both.2 both.1

/-- Editing nodes outside a tree keeps it sorted. -/
theorem congr {key newKey : ν → κ} {tree : List ν}
    (sorted : Sorted key tree)
    (same : ∀ node ∈ tree, newKey node = key node) :
    Sorted newKey tree :=
  sorted.of_keys fun left leftMember right rightMember _ less => by
    rwa [same left leftMember, same right rightMember]

end Sorted

/-! ## Searching -/

theorem nsearch_some {key : ν → κ} {wanted : κ} {tree : List ν} {node : ν}
    (found : nsearch key wanted tree = some node) :
    node ∈ tree ∧ wanted ≤ key node :=
  ⟨List.mem_of_find?_eq_some found, by simpa using List.find?_some found⟩

theorem nsearch_none {key : ν → κ} {wanted : κ} {tree : List ν}
    (missing : nsearch key wanted tree = none) :
    ∀ node ∈ tree, key node < wanted := by
  intro node member
  have := List.find?_eq_none.mp missing node member
  simpa using this

/-- The found node is the first one at or behind the wanted key. -/
theorem nsearch_le {key : ν → κ} {wanted : κ} {tree : List ν} {node : ν}
    (sorted : Sorted key tree)
    (found : nsearch key wanted tree = some node) :
    ∀ other ∈ tree, wanted ≤ key other → key node ≤ key other := by
  obtain ⟨_, before, after, split, skipped⟩ := List.find?_eq_some_iff_append.mp found
  intro other member reaches
  rw [split] at member sorted
  rcases List.mem_append.mp member with inBefore | inAfter
  · have := skipped other inBefore
    simp only [Bool.not_eq_true', decide_eq_false_iff_not] at this
    exact absurd reaches this
  · rcases List.mem_cons.mp inAfter with rfl | inAfter
    · exact le_rfl
    · have tailSorted := (List.pairwise_append.mp sorted).2.1
      exact le_of_lt ((List.pairwise_cons.mp tailSorted).1 other inAfter)

/-- The search finds the node with the smallest key at or behind the wanted one. -/
theorem nsearch_eq_some_iff {key : ν → κ} {wanted : κ} {tree : List ν} {node : ν}
    (sorted : Sorted key tree) :
    nsearch key wanted tree = some node ↔
      node ∈ tree ∧ wanted ≤ key node ∧
        ∀ other ∈ tree, wanted ≤ key other → key node ≤ key other := by
  constructor
  · intro found
    obtain ⟨member, reaches⟩ := nsearch_some found
    exact ⟨member, reaches, nsearch_le sorted found⟩
  · rintro ⟨member, reaches, least⟩
    cases found : nsearch key wanted tree with
    | none => exact absurd reaches (not_le.mpr (nsearch_none found node member))
    | some other =>
        obtain ⟨otherMember, otherReaches⟩ := nsearch_some found
        have equal : key other = key node := le_antisymm
          (nsearch_le sorted found node member reaches) (least other otherMember otherReaches)
        rw [sorted.key_injective otherMember member equal]

/-- A node that carries the wanted key is the one that is found. -/
theorem nsearch_eq_some_of_key {key : ν → κ} {wanted : κ} {tree : List ν} {node : ν}
    (sorted : Sorted key tree) (member : node ∈ tree) (carries : key node = wanted) :
    nsearch key wanted tree = some node := by
  cases found : nsearch key wanted tree with
  | none => exact absurd (nsearch_none found node member) (by simp [carries])
  | some other =>
      obtain ⟨otherMember, reaches⟩ := nsearch_some found
      have first := nsearch_le sorted found node member (le_of_eq carries.symm)
      have equal : key other = key node := le_antisymm first (by rwa [carries])
      rw [sorted.key_injective otherMember member equal]

theorem search_some {key : ν → κ} {wanted : κ} {tree : List ν} {node : ν}
    (found : search key wanted tree = some node) :
    node ∈ tree ∧ key node = wanted :=
  ⟨List.mem_of_find?_eq_some found, by simpa using List.find?_some found⟩

theorem search_eq_some_of_key {key : ν → κ} {wanted : κ} {tree : List ν} {node : ν}
    (sorted : Sorted key tree) (member : node ∈ tree) (carries : key node = wanted) :
    search key wanted tree = some node := by
  cases found : search key wanted tree with
  | none =>
      have := List.find?_eq_none.mp found node member
      simp [carries] at this
  | some other =>
      obtain ⟨otherMember, otherCarries⟩ := search_some found
      rw [sorted.key_injective otherMember member (otherCarries.trans carries.symm)]

/-! ## Predecessors -/

/-- The predecessor is linked, lies before the node, and nothing lies between
the two. -/
theorem prev_some [DecidableEq ν] {key : ν → κ} {tree : List ν} {node before : ν}
    (sorted : Sorted key tree)
    (found : prev node tree = some before) :
    before ∈ tree ∧ node ∈ tree ∧ key before < key node ∧
      ∀ other ∈ tree, key other < key node → key other ≤ key before := by
  induction tree with
  | nil => simp [prev] at found
  | cons head tail inductionHypothesis =>
      cases tail with
      | nil => simp [prev] at found
      | cons second rest =>
          obtain ⟨headLess, tailSorted⟩ := List.pairwise_cons.mp sorted
          unfold prev at found
          split at found
          · next isNode =>
              injection found with isBefore
              subst isBefore isNode
              refine ⟨by simp, by simp, headLess second (by simp), ?_⟩
              intro other member less
              rcases List.mem_cons.mp member with rfl | inTail
              · exact le_rfl
              · rcases List.mem_cons.mp inTail with rfl | inRest
                · exact absurd less (lt_irrefl _)
                · exact absurd less
                    (not_lt_of_gt ((List.pairwise_cons.mp tailSorted).1 other inRest))
          · obtain ⟨beforeMember, nodeMember, less, nothingBetween⟩ :=
              inductionHypothesis tailSorted found
            refine ⟨List.mem_cons_of_mem head beforeMember,
              List.mem_cons_of_mem head nodeMember, less, ?_⟩
            intro other member otherLess
            rcases List.mem_cons.mp member with rfl | inTail
            · exact le_of_lt (headLess before beforeMember)
            · exact nothingBetween other inTail otherLess

/-- A linked node without a predecessor is the first one. -/
theorem prev_none [DecidableEq ν] {key : ν → κ} {tree : List ν} {node : ν}
    (sorted : Sorted key tree)
    (member : node ∈ tree)
    (missing : prev node tree = none) :
    ∀ other ∈ tree, ¬key other < key node := by
  induction tree with
  | nil => simp at member
  | cons head tail inductionHypothesis =>
      obtain ⟨headLess, tailSorted⟩ := List.pairwise_cons.mp sorted
      cases tail with
      | nil =>
          intro other otherMember
          simp only [List.mem_singleton] at member otherMember
          subst member otherMember
          exact lt_irrefl _
      | cons second rest =>
          unfold prev at missing
          split at missing
          · simp at missing
          · next notSecond =>
              rcases List.mem_cons.mp member with rfl | inTail
              · intro other otherMember
                rcases List.mem_cons.mp otherMember with rfl | otherTail
                · exact lt_irrefl _
                · exact not_lt_of_gt (headLess other otherTail)
              · -- the node sits behind `second`, so the recursive call finds one
                have first := inductionHypothesis tailSorted inTail missing second (by simp)
                rcases List.mem_cons.mp inTail with rfl | inRest
                · exact absurd rfl notSecond
                · exact absurd ((List.pairwise_cons.mp tailSorted).1 node inRest) first

end OrderedTree
end Vmem
