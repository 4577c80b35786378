import Vmem.Jemalloc.FreeTrees

/-!
# Linking, unlinking and editing extents

Every locked section of `chunk.c` is a sequence of three primitive actions on
the pair of free trees: take a node out of both, put a node into both, or edit a
node that is linked in both while relinking it in the size order.  A section is
described by the node pointers it is given and leaves over and by the spans the
free set gains and loses; sections compose.
-/

namespace Vmem
namespace Jemalloc

/-- What a locked section does to the free trees: it is given node pointers and
leaves some over, and the free set gains and loses spans. -/
structure TreeSection (c : Config) (p p' : Pool)
    (given left : List Nat) (gain loss : List Span) : Prop where
  trees : FreeTrees c p'
  nodes : (p'.chunksAd ++ left).Perm (p.chunksAd ++ given)
  covers : ∀ x, cover p'.freeSpans x + cover loss x = cover p.freeSpans x + cover gain x
  heap : ∀ n, n ∉ p.chunksAd → n ∉ given → p'.node n = p.node n
  edit : TreeEdit p p'

namespace TreeSection

variable {c : Config} {p p' p'' : Pool}

theorem mem_of_mem
    {given left : List Nat} {gain loss : List Span}
    (first : TreeSection c p p' given left gain loss)
    {n : Nat} (member : n ∈ p'.chunksAd) : n ∈ p.chunksAd ∨ n ∈ given := by
  have : n ∈ p.chunksAd ++ given :=
    first.nodes.mem_iff.mp (List.mem_append_left left member)
  exact List.mem_append.mp this

/-- Sections compose. -/
theorem trans
    {given left given' left' : List Nat} {gain loss gain' loss' : List Span}
    (first : TreeSection c p p' given left gain loss)
    (second : TreeSection c p' p'' given' left' gain' loss') :
    TreeSection c p p'' (given ++ given') (left ++ left')
      (gain ++ gain') (loss ++ loss') where
  trees := second.trees
  nodes := by
    have step : (p''.chunksAd ++ left' ++ left).Perm (p'.chunksAd ++ given' ++ left) :=
      second.nodes.append_right left
    have reorder : (p'.chunksAd ++ given' ++ left).Perm
        (p'.chunksAd ++ left ++ given') := by
      rw [List.append_assoc, List.append_assoc]
      exact (List.perm_append_comm).append_left p'.chunksAd
    have start : (p''.chunksAd ++ (left ++ left')).Perm (p''.chunksAd ++ left' ++ left) := by
      rw [List.append_assoc]
      exact (List.perm_append_comm).append_left p''.chunksAd
    have finish : (p'.chunksAd ++ left ++ given').Perm
        (p.chunksAd ++ (given ++ given')) := by
      rw [← List.append_assoc]
      exact first.nodes.append_right given'
    exact start.trans (step.trans (reorder.trans finish))
  covers := by
    intro x
    have one := first.covers x
    have two := second.covers x
    rw [cover_append, cover_append]
    omega
  heap := by
    intro n absent notGiven
    have notFirst : n ∉ given := fun inGiven =>
      notGiven (List.mem_append_left given' inGiven)
    have notSecond : n ∉ given' := fun inGiven =>
      notGiven (List.mem_append_right given inGiven)
    have absentNext : n ∉ p'.chunksAd := by
      intro member
      rcases first.mem_of_mem member with old | handed
      · exact absent old
      · exact notFirst handed
    rw [second.heap n absentNext notSecond, first.heap n absent notFirst]
  edit := first.edit.trans second.edit

/-- Gains and losses only matter through their cover numbers. -/
theorem change_spans
    {given left : List Nat} {gain loss gain' loss' : List Span}
    (first : TreeSection c p p' given left gain loss)
    (same : ∀ x, cover gain x + cover loss' x = cover gain' x + cover loss x) :
    TreeSection c p p' given left gain' loss' where
  trees := first.trees
  nodes := first.nodes
  covers := by
    intro x
    have one := first.covers x
    have two := same x
    omega
  heap := first.heap
  edit := first.edit

/-- A linked node that is handed out and comes back need not be mentioned. -/
theorem return_node {n : Nat} {gain loss : List Span}
    (change : TreeSection c p p' [n] [n] gain loss) (member : n ∈ p.chunksAd) :
    TreeSection c p p' [] [] gain loss where
  trees := change.trees
  nodes := by
    rw [List.append_nil, List.append_nil]
    exact (List.perm_append_right_iff [n]).mp change.nodes
  covers := change.covers
  heap := by
    intro m absent _
    apply change.heap m absent
    intro handed
    exact absent (List.mem_singleton.mp handed ▸ member)
  edit := change.edit

/-- Contents of memory and unused nodes play no part in a section. -/
theorem frame {given left : List Nat} {gain loss : List Span}
    (change : TreeSection c p p' given left gain loss)
    (mem : Nat → UInt8) (rest : List Nat) :
    TreeSection c { p with mem := mem, baseNodes := rest }
      { p' with mem := mem, baseNodes := rest } given left gain loss where
  trees := change.trees.of_edit rfl rfl fun _ _ => rfl
  nodes := change.nodes
  covers := change.covers
  heap := change.heap
  edit := {
    huge := change.edit.huge
    baseNodes := rfl
    nodeCount := change.edit.nodeCount
    baseNextAddr := change.edit.baseNextAddr
    basePastAddr := change.edit.basePastAddr
    memoryRanges := change.edit.memoryRanges
    nchunks := change.edit.nchunks
    curchunks := change.edit.curchunks
    highchunks := change.edit.highchunks
    mem := rfl
    baseChunks := change.edit.baseChunks
    leaked := change.edit.leaked }

theorem refl (trees : FreeTrees c p) : TreeSection c p p [] [] [] [] where
  trees := trees
  nodes := List.Perm.refl _
  covers := fun _ => rfl
  heap := fun _ _ _ => rfl
  edit := TreeEdit.refl p

end TreeSection

/-! ## The three primitive actions -/

/-- Take a node out of both trees. -/
def unlink (p : Pool) (n : Nat) : Pool := (p.szadRemove n).adRemove n

/-- Put a node with the given contents into both trees. -/
def link (p : Pool) (n : Nat) (value : ExtentNode) : Pool :=
  ((p.setNode n value).adInsert n).szadInsert n

/-- Edit a linked node, moving it in the size order only. -/
def relink (p : Pool) (n : Nat) (value : ExtentNode) : Pool :=
  ((p.szadRemove n).setNode n value).szadInsert n

theorem link_node_self (p : Pool) (n : Nat) (value : ExtentNode) :
    (link p n value).node n = value := Function.update_self ..

theorem link_node_of_ne (p : Pool) {n m : Nat} (value : ExtentNode) (different : m ≠ n) :
    (link p n value).node m = p.node m := Function.update_of_ne different ..

theorem relink_node_self (p : Pool) (n : Nat) (value : ExtentNode) :
    (relink p n value).node n = value := Function.update_self ..

theorem relink_node_of_ne (p : Pool) {n m : Nat} (value : ExtentNode) (different : m ≠ n) :
    (relink p n value).node m = p.node m := Function.update_of_ne different ..

theorem szadKey_ne_of_addr_ne {e e' : ExtentNode} (different : e.addr ≠ e'.addr) :
    e.szadKey ≠ e'.szadKey := by
  intro equal
  unfold ExtentNode.szadKey at equal
  exact different (congrArg (fun key => (ofLex key).2) equal)

variable {c : Config} {p : Pool}

theorem unlink_section {n : Nat} (trees : FreeTrees c p) (member : n ∈ p.chunksAd) :
    TreeSection c p (unlink p n) [] [n] [] [(p.node n).span] where
  trees := {
    sortedAd := trees.sortedAd.remove n
    sortedSzad := trees.sortedSzad.remove n
    same := trees.same.erase n
    extent := fun m inRest => trees.extent m (OrderedTree.mem_of_mem_remove inRest)
    disjoint := fun a aMember b bMember =>
      trees.disjoint a (OrderedTree.mem_of_mem_remove aMember)
        b (OrderedTree.mem_of_mem_remove bMember) }
  nodes := by
    rw [List.append_nil]
    exact (List.perm_append_comm).trans (OrderedTree.remove_perm member).symm
  covers := by
    intro x
    have perm := (OrderedTree.remove_perm member).map fun m => (p.node m).span
    have split := cover_perm perm x
    rw [List.map_cons, cover_cons] at split
    change cover ((OrderedTree.remove n p.chunksAd).map fun m => (p.node m).span) x +
      cover [(p.node n).span] x =
        cover (p.chunksAd.map fun m => (p.node m).span) x + cover [] x
    rw [split, cover_cons, cover_nil]
    omega
  heap := fun _ _ _ => rfl
  edit := by constructor <;> rfl

/-- Linking a fresh node: its span must lie before or behind every free extent. -/
theorem link_section {n : Nat} {value : ExtentNode}
    (trees : FreeTrees c p)
    (fresh : n ∉ p.chunksAd)
    (valid : ExtentValid c value)
    (apart : ∀ m ∈ p.chunksAd,
      (p.node m).addr + (p.node m).size ≤ value.addr ∨
        value.addr + value.size ≤ (p.node m).addr) :
    TreeSection c p (link p n value) [n] [] [value.span] [] := by
  have atNode := link_node_self p n value
  have elsewhere : ∀ m ∈ p.chunksAd, (link p n value).node m = p.node m := by
    intro m member
    exact link_node_of_ne p value fun equal => fresh (equal ▸ member)
  have addrFresh : ∀ m ∈ p.chunksAd, (p.node m).addr ≠ value.addr := by
    intro m member
    have mNonempty := (trees.extent m member).nonempty
    have nonempty := valid.nonempty
    have := apart m member
    omega
  refine {
    trees := {
      sortedAd := ?_
      sortedSzad := ?_
      same := ?_
      extent := ?_
      disjoint := ?_ }
    nodes := ?_
    covers := ?_
    heap := ?_
    edit := by constructor <;> rfl }
  · apply OrderedTree.Sorted.insert
    · exact trees.sortedAd.congr fun m member => by
        rw [elsewhere m member]
    · intro m member
      rw [elsewhere m member, atNode]
      exact addrFresh m member
  · apply OrderedTree.Sorted.insert
    · exact trees.sortedSzad.congr fun m member => by
        rw [elsewhere m (trees.mem_szad.mp member)]
    · intro m member
      rw [elsewhere m (trees.mem_szad.mp member), atNode]
      exact szadKey_ne_of_addr_ne (addrFresh m (trees.mem_szad.mp member))
  · exact (OrderedTree.insert_perm ..).trans
      ((trees.same.cons n).trans (OrderedTree.insert_perm ..).symm)
  · intro m member
    rcases OrderedTree.mem_insert.mp member with rfl | old
    · rw [atNode]
      exact valid
    · rw [elsewhere m old]
      exact trees.extent m old
  · intro a aMember b bMember
    rcases OrderedTree.mem_insert.mp aMember with rfl | aOld
    · rcases OrderedTree.mem_insert.mp bMember with rfl | bOld
      · intro less
        exact absurd less (lt_irrefl _)
      · rw [atNode, elsewhere b bOld]
        have bNonempty := (trees.extent b bOld).nonempty
        have := apart b bOld
        omega
    · rcases OrderedTree.mem_insert.mp bMember with rfl | bOld
      · rw [atNode, elsewhere a aOld]
        have nonempty := valid.nonempty
        have := apart a aOld
        omega
      · rw [elsewhere a aOld, elsewhere b bOld]
        exact trees.disjoint a aOld b bOld
  · rw [List.append_nil]
    exact (OrderedTree.insert_perm ..).trans (List.perm_append_singleton n _).symm
  · intro x
    have perm : ((link p n value).chunksAd.map fun m => ((link p n value).node m).span).Perm
        (((n :: p.chunksAd).map fun m => ((link p n value).node m).span)) :=
      (OrderedTree.insert_perm ..).map _
    have counted := cover_perm perm x
    rw [List.map_cons, cover_cons, atNode] at counted
    have old : cover (p.chunksAd.map fun m => ((link p n value).node m).span) x =
        cover p.freeSpans x := cover_map_update_of_notMem p.node fresh value x
    change cover ((link p n value).chunksAd.map fun m =>
      ((link p n value).node m).span) x + cover [] x = _
    rw [counted, old, cover_cons, cover_nil]
    omega
  · intro m absent notGiven
    exact link_node_of_ne p value fun equal =>
      notGiven (equal ▸ List.mem_singleton_self n)

/-- Editing a linked node: extents before it stay before its new span, extents
behind it stay behind. -/
theorem relink_section {n : Nat} {value : ExtentNode}
    (trees : FreeTrees c p)
    (member : n ∈ p.chunksAd)
    (valid : ExtentValid c value)
    (before : ∀ m ∈ p.chunksAd, (p.node m).addr < (p.node n).addr →
      (p.node m).addr + (p.node m).size ≤ value.addr)
    (behind : ∀ m ∈ p.chunksAd, (p.node n).addr < (p.node m).addr →
      value.addr + value.size ≤ (p.node m).addr) :
    TreeSection c p (relink p n value) [] [] [value.span] [(p.node n).span] := by
  have atNode := relink_node_self p n value
  have elsewhere : ∀ m, m ≠ n → (relink p n value).node m = p.node m :=
    fun m different => relink_node_of_ne p value different
  -- every other node is on one side of the edited one
  have apart : ∀ m ∈ p.chunksAd, m ≠ n →
      (p.node m).addr + (p.node m).size ≤ value.addr ∨
        value.addr + value.size ≤ (p.node m).addr := by
    intro m inTree different
    rcases Nat.lt_trichotomy (p.node m).addr (p.node n).addr with less | equal | greater
    · exact Or.inl (before m inTree less)
    · exact absurd (trees.eq_of_addr inTree member equal) different
    · exact Or.inr (behind m inTree greater)
  have nonempty := valid.nonempty
  refine {
    trees := {
      sortedAd := ?_
      sortedSzad := ?_
      same := ?_
      extent := ?_
      disjoint := ?_ }
    nodes := List.Perm.refl _
    covers := ?_
    heap := ?_
    edit := by constructor <;> rfl }
  · apply trees.sortedAd.of_keys
    intro left leftMember right rightMember different less
    by_cases leftIs : left = n
    · subst leftIs
      rw [atNode, elsewhere right different.symm]
      have := behind right rightMember less
      omega
    · by_cases rightIs : right = n
      · subst rightIs
        rw [atNode, elsewhere left different]
        have leftNonempty := (trees.extent left leftMember).nonempty
        have := before left leftMember less
        omega
      · rw [elsewhere left leftIs, elsewhere right rightIs]
        exact less
  · apply OrderedTree.Sorted.insert
    · apply (trees.sortedSzad.remove n).congr
      intro m inRest
      have different := ((OrderedTree.mem_remove trees.nodupSzad).mp inRest).1
      change ((relink p n value).node m).szadKey = _
      rw [elsewhere m different]
    · intro m inRest
      obtain ⟨different, inSzad⟩ := (OrderedTree.mem_remove trees.nodupSzad).mp inRest
      have inTree := trees.mem_szad.mp inSzad
      change ((relink p n value).node m).szadKey ≠ ((relink p n value).node n).szadKey
      rw [elsewhere m different, atNode]
      apply szadKey_ne_of_addr_ne
      have mNonempty := (trees.extent m inTree).nonempty
      have beside := apart m inTree different
      omega
  · exact (OrderedTree.insert_perm ..).trans
      ((OrderedTree.remove_perm (trees.mem_szad.mpr member)).symm.trans trees.same)
  · intro m inTree
    by_cases isNode : m = n
    · subst isNode
      rw [atNode]
      exact valid
    · rw [elsewhere m isNode]
      exact trees.extent m inTree
  · intro a aMember b bMember
    by_cases aIs : a = n
    · subst aIs
      by_cases bIs : b = a
      · subst bIs
        intro less
        exact absurd less (lt_irrefl _)
      · rw [atNode, elsewhere b bIs]
        have bNonempty := (trees.extent b bMember).nonempty
        have beside := apart b bMember bIs
        omega
    · by_cases bIs : b = n
      · subst bIs
        rw [atNode, elsewhere a aIs]
        have beside := apart a aMember aIs
        omega
      · rw [elsewhere a aIs, elsewhere b bIs]
        exact trees.disjoint a aMember b bMember
  · intro x
    rw [cover_cons, cover_nil, cover_cons, cover_nil]
    exact cover_map_update p.node trees.nodupAd member value x
  · intro m absent _
    have different : m ≠ n := fun equal => absent (equal ▸ member)
    exact elsewhere m different

end Jemalloc
end Vmem
