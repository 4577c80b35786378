import Vmem.Jemalloc.TreeSections

/-!
# Returning chunks

`chunk_record` adds exactly its range to the free set, keeps the trees valid and
keeps coalescing complete; the only exception is its leak branch, taken when no
extent follows the range and no node is available.
-/

namespace Vmem
namespace Jemalloc

variable {c : Config} {p : Pool}

theorem recordForward_eq_relink (p : Pool) (n chunk size : Nat) (zeroed : Bool) :
    recordForward p n chunk size zeroed =
      relink p n
        { p.node n with
          addr := chunk
          size := (p.node n).size + size
          zeroed := (p.node n).zeroed && zeroed } := rfl

theorem recordInsert_eq_link (p : Pool) (n chunk size : Nat) (zeroed : Bool) :
    recordInsert p n chunk size zeroed =
      link p n { p.node n with addr := chunk, size := size, zeroed := zeroed } := rfl

theorem recordForward_addr (p : Pool) (n chunk size : Nat) (zeroed : Bool) :
    ((recordForward p n chunk size zeroed).node n).addr = chunk := by
  rw [recordForward_eq_relink, relink_node_self]

theorem recordInsert_addr (p : Pool) (n chunk size : Nat) (zeroed : Bool) :
    ((recordInsert p n chunk size zeroed).node n).addr = chunk := by
  rw [recordInsert_eq_link, link_node_self]

/-- The node `forwardNode` finds is linked and starts at the given address. -/
theorem forwardNode_some {n chunkEnd : Nat} (found : forwardNode p chunkEnd = some n) :
    n ∈ p.chunksAd ∧ (p.node n).addr = chunkEnd := by
  unfold forwardNode at found
  cases searched : OrderedTree.nsearch (fun m => (p.node m).addr) chunkEnd p.chunksAd with
  | none => simp [searched] at found
  | some m =>
      simp only [searched] at found
      split at found
      · next starts =>
          injection found with same
          subst same
          exact ⟨(OrderedTree.nsearch_some searched).1, starts⟩
      · simp at found

/-- When `forwardNode` finds nothing, no free extent starts there. -/
theorem forwardNode_none (trees : FreeTrees c p) {chunkEnd : Nat}
    (missing : forwardNode p chunkEnd = none) :
    ∀ n ∈ p.chunksAd, (p.node n).addr ≠ chunkEnd := by
  intro n member starts
  unfold forwardNode at missing
  rw [OrderedTree.nsearch_eq_some_of_key trees.sortedAd member starts] at missing
  simp [starts] at missing

/-! ## Coalescing forward and inserting -/

section Adding

variable {n chunk size : Nat}

theorem recordForward_section (trees : FreeTrees c p) (zeroed : Bool)
    (range : Recordable c p chunk size)
    (found : forwardNode p (chunk + size) = some n) :
    TreeSection c p (recordForward p n chunk size zeroed) [] []
      [⟨chunk, size⟩] [] := by
  obtain ⟨member, starts⟩ := forwardNode_some found
  have extent := trees.extent n member
  have nonempty := range.nonempty
  rw [recordForward_eq_relink]
  apply (relink_section trees member _ _ _).change_spans
  · intro x
    have joined := Span.ind_add chunk size (p.node n).size x
    simp only [ExtentNode.span, cover_cons, cover_nil]
    rw [Nat.add_comm (p.node n).size size, joined, starts]
    omega
  · have below := extent.below
    exact {
      nonempty := by
        dsimp only
        omega
      size_dvd := Nat.dvd_add extent.size_dvd range.size_dvd
      addr_dvd := range.addr_dvd
      below := by
        dsimp only
        omega }
  · intro m inTree less
    have mNonempty := (trees.extent m inTree).nonempty
    have := range.apart m inTree
    dsimp only
    omega
  · intro m inTree greater
    have := trees.disjoint n member m inTree greater
    dsimp only
    omega

theorem recordForward_coalescedBut (zeroed : Bool)
    (coalesced : Coalesced p)
    (found : forwardNode p (chunk + size) = some n) :
    CoalescedBut (recordForward p n chunk size zeroed) n := by
  obtain ⟨member, starts⟩ := forwardNode_some found
  intro a aMember b bMember different
  rw [recordForward_eq_relink, relink_node_of_ne p _ different]
  by_cases aIs : a = n
  · subst aIs
    rw [relink_node_self]
    have := coalesced a aMember b bMember
    dsimp only
    omega
  · rw [relink_node_of_ne p _ aIs]
    exact coalesced a aMember b bMember

theorem recordInsert_section (trees : FreeTrees c p) (zeroed : Bool)
    (range : Recordable c p chunk size)
    (fresh : n ∉ p.chunksAd) :
    TreeSection c p (recordInsert p n chunk size zeroed) [n] []
      [⟨chunk, size⟩] [] := by
  rw [recordInsert_eq_link]
  exact link_section trees fresh
    { nonempty := range.nonempty
      size_dvd := range.size_dvd
      addr_dvd := range.addr_dvd
      below := range.below }
    range.apart

theorem recordInsert_coalescedBut (trees : FreeTrees c p) (zeroed : Bool)
    (fresh : n ∉ p.chunksAd)
    (coalesced : Coalesced p)
    (missing : forwardNode p (chunk + size) = none) :
    CoalescedBut (recordInsert p n chunk size zeroed) n := by
  intro a aMember b bMember different
  have bOld : b ∈ p.chunksAd := (OrderedTree.mem_insert.mp bMember).resolve_left different
  rw [recordInsert_eq_link, link_node_of_ne p _ different]
  rcases OrderedTree.mem_insert.mp aMember with rfl | aOld
  · rw [link_node_self]
    exact (forwardNode_none trees missing b bOld).symm
  · have aIs : a ≠ n := fun equal => fresh (equal ▸ aOld)
    rw [link_node_of_ne p _ aIs]
    exact coalesced a aOld b bOld

end Adding

/-! ## Coalescing backward -/

/-- Contents of a node that has taken in the extent in front of it. -/
def backwardMerge (node prev : ExtentNode) : ExtentNode :=
  { node with
    addr := prev.addr
    size := node.size + prev.size
    zeroed := node.zeroed && prev.zeroed }

/-- The two outcomes of `coalesceBackward`: the extent that ends at the chunk is
merged into the node, or there is no such extent. -/
theorem coalesceBackward_cases (trees : FreeTrees c p) {n chunk : Nat}
    (member : n ∈ p.chunksAd) (starts : (p.node n).addr = chunk) :
    (∃ prev ∈ p.chunksAd, prev ≠ n ∧
        (p.node prev).addr + (p.node prev).size = chunk ∧
        coalesceBackward p n chunk =
          (relink (unlink p prev) n (backwardMerge (p.node n) (p.node prev)),
            some prev)) ∨
      (coalesceBackward p n chunk = (p, none) ∧
        ∀ m ∈ p.chunksAd, (p.node m).addr + (p.node m).size ≠ chunk) := by
  cases found : OrderedTree.prev n p.chunksAd with
  | none =>
      refine Or.inr ⟨by simp [coalesceBackward, found], ?_⟩
      intro m inTree ends
      have mNonempty := (trees.extent m inTree).nonempty
      have := OrderedTree.prev_none trees.sortedAd member found m inTree
      omega
  | some prev =>
      obtain ⟨prevMember, _, less, nothingBetween⟩ :=
        OrderedTree.prev_some trees.sortedAd found
      by_cases ends : (p.node prev).addr + (p.node prev).size = chunk
      · refine Or.inl ⟨prev, prevMember, ?_, ends, ?_⟩
        · intro equal
          subst equal
          exact lt_irrefl _ less
        · simp only [coalesceBackward, found, if_pos ends]
          rfl
      · refine Or.inr ⟨by simp [coalesceBackward, found, ends], ?_⟩
        intro m inTree mEnds
        have mNonempty := (trees.extent m inTree).nonempty
        have atMost := nothingBetween m inTree (by omega)
        -- an extent between the predecessor and the node would overlap it
        rcases Nat.lt_or_eq_of_le atMost with between | same
        · have := trees.disjoint m inTree prev prevMember between
          have prevNonempty := (trees.extent prev prevMember).nonempty
          omega
        · have equal := trees.eq_of_addr inTree prevMember same
          subst equal
          exact ends mEnds

theorem coalesceBackward_section (trees : FreeTrees c p) {n chunk : Nat}
    (member : n ∈ p.chunksAd) (starts : (p.node n).addr = chunk) :
    TreeSection c p (coalesceBackward p n chunk).1 []
      (coalesceBackward p n chunk).2.toList [] [] := by
  rcases coalesceBackward_cases trees member starts with
    ⟨prev, prevMember, different, ends, result⟩ | ⟨result, _⟩
  · rw [result]
    have first := unlink_section trees prevMember
    have nodeLinked : n ∈ (unlink p prev).chunksAd :=
      (OrderedTree.mem_remove trees.nodupAd).mpr ⟨different.symm, member⟩
    have extent := trees.extent n member
    have prevExtent := trees.extent prev prevMember
    have valid : ExtentValid c (backwardMerge (p.node n) (p.node prev)) := {
      nonempty := Nat.add_pos_left extent.nonempty _
      size_dvd := Nat.dvd_add extent.size_dvd prevExtent.size_dvd
      addr_dvd := prevExtent.addr_dvd
      below := by
        have := extent.below
        simp only [backwardMerge]
        omega }
    have second := relink_section first.trees nodeLinked valid
      (by
        intro m inRest less
        obtain ⟨notPrev, inTree⟩ := (OrderedTree.mem_remove trees.nodupAd).mp inRest
        change (p.node m).addr < (p.node n).addr at less
        change (p.node m).addr + (p.node m).size ≤ (p.node prev).addr
        have mNonempty := (trees.extent m inTree).nonempty
        have prevNonempty := prevExtent.nonempty
        have first := trees.disjoint m inTree n member less
        rcases Nat.lt_trichotomy (p.node m).addr (p.node prev).addr with
          lower | equal | higher
        · exact trees.disjoint m inTree prev prevMember lower
        · exact absurd (trees.eq_of_addr inTree prevMember equal) notPrev
        · have := trees.disjoint prev prevMember m inTree higher
          omega)
      (by
        intro m inRest greater
        have inTree := OrderedTree.mem_of_mem_remove inRest
        change (p.node n).addr < (p.node m).addr at greater
        have := trees.disjoint n member m inTree greater
        change (p.node prev).addr + ((p.node n).size + (p.node prev).size) ≤
          (p.node m).addr
        omega)
    apply (first.trans second).change_spans
    intro x
    have joined := Span.ind_add (p.node prev).addr (p.node prev).size (p.node n).size x
    rw [ends, ← starts] at joined
    have sameNode : (unlink p prev).node n = p.node n := rfl
    simp only [backwardMerge, ExtentNode.span, cover_cons, cover_nil, cover_append,
      sameNode] at joined ⊢
    rw [Nat.add_comm (p.node n).size (p.node prev).size, joined]
    omega
  · rw [result]
    exact TreeSection.refl trees

theorem coalesceBackward_coalesced (trees : FreeTrees c p) {n chunk : Nat}
    (member : n ∈ p.chunksAd) (starts : (p.node n).addr = chunk)
    (coalesced : CoalescedBut p n) :
    Coalesced (coalesceBackward p n chunk).1 := by
  rcases coalesceBackward_cases trees member starts with
    ⟨prev, prevMember, different, ends, result⟩ | ⟨result, nothingEnds⟩
  · rw [result]
    intro a aMember b bMember
    obtain ⟨aNotPrev, aOld⟩ := (OrderedTree.mem_remove trees.nodupAd).mp aMember
    obtain ⟨bNotPrev, bOld⟩ := (OrderedTree.mem_remove trees.nodupAd).mp bMember
    have elsewhere : ∀ m, m ≠ n → (relink (unlink p prev) n
        (backwardMerge (p.node n) (p.node prev))).node m = p.node m :=
      fun m notNode => relink_node_of_ne (unlink p prev) _ notNode
    have atNode := relink_node_self (unlink p prev) n
      (backwardMerge (p.node n) (p.node prev))
    by_cases aIs : a = n
    · subst aIs
      by_cases bIs : b = a
      · subst bIs
        rw [atNode]
        have := (trees.extent b bOld).nonempty
        simp only [backwardMerge]
        omega
      · rw [atNode, elsewhere b bIs]
        have := coalesced a aOld b bOld bIs
        simp only [backwardMerge]
        omega
    · by_cases bIs : b = n
      · subst bIs
        rw [atNode, elsewhere a aIs]
        exact coalesced a aOld prev prevMember different
      · rw [elsewhere a aIs, elsewhere b bIs]
        exact coalesced a aOld b bOld bIs
  · rw [result]
    intro a aMember b bMember
    by_cases bIs : b = n
    · subst bIs
      rw [starts]
      exact nothingEnds a aMember
    · exact coalesced a aMember b bMember bIs

/-! ## The locked section of `chunk_record` -/

section Locked

variable {xnode : Option Nat} {chunk size : Nat} (zeroed : Bool)

/-- Outside its leak branch, the locked section adds exactly the range and
leaves over the nodes it does not need. -/
theorem chunkRecordLocked_section (trees : FreeTrees c p)
    (fresh : ∀ n ∈ xnode, n ∉ p.chunksAd)
    (range : Recordable c p chunk size)
    (noLeak : forwardNode p (chunk + size) = none → xnode ≠ none) :
    TreeSection c p (chunkRecordLocked p xnode chunk size zeroed).pool xnode.toList
      ((chunkRecordLocked p xnode chunk size zeroed).xnode.toList ++
        (chunkRecordLocked p xnode chunk size zeroed).xprev.toList)
      [⟨chunk, size⟩] [] := by
  cases found : forwardNode p (chunk + size) with
  | some n =>
      have first := recordForward_section trees zeroed range found
      have linked : n ∈ (recordForward p n chunk size zeroed).chunksAd :=
        (forwardNode_some found).1
      have starts := recordForward_addr p n chunk size zeroed
      have second := coalesceBackward_section first.trees linked starts
      have both := first.trans second
      simp only [chunkRecordLocked, found]
      exact {
        trees := both.trees
        nodes := by
          -- the spare node passes through untouched
          have := both.nodes.append_right xnode.toList
          simp only [List.nil_append, List.append_nil] at this
          refine List.Perm.trans ?_ this
          rw [List.append_assoc]
          exact List.perm_append_comm.append_left _
        covers := both.covers
        heap := fun m absent _ => both.heap m absent (by simp)
        edit := both.edit }
  | none =>
      cases xnode with
      | none => exact absurd rfl (noLeak found)
      | some n =>
          have absent := fresh n rfl
          have first := recordInsert_section trees zeroed range absent
          have linked : n ∈ (recordInsert p n chunk size zeroed).chunksAd :=
            OrderedTree.mem_insert.mpr (Or.inl rfl)
          have starts := recordInsert_addr p n chunk size zeroed
          have second := coalesceBackward_section first.trees linked starts
          simp only [chunkRecordLocked, found]
          exact first.trans second

/-- In its leak branch the locked section drops the range and nothing else. -/
theorem chunkRecordLocked_leak
    (missing : forwardNode p (chunk + size) = none) :
    chunkRecordLocked p none chunk size zeroed =
      ⟨{ p with leaked := ⟨chunk, size⟩ :: p.leaked }, none, none⟩ := by
  simp [chunkRecordLocked, missing]

/-- The locked section keeps coalescing complete. -/
theorem chunkRecordLocked_coalesced (trees : FreeTrees c p)
    (fresh : ∀ n ∈ xnode, n ∉ p.chunksAd)
    (range : Recordable c p chunk size)
    (coalesced : Coalesced p) :
    Coalesced (chunkRecordLocked p xnode chunk size zeroed).pool := by
  cases found : forwardNode p (chunk + size) with
  | some n =>
      have first := recordForward_section trees zeroed range found
      have linked : n ∈ (recordForward p n chunk size zeroed).chunksAd :=
        (forwardNode_some found).1
      have starts := recordForward_addr p n chunk size zeroed
      simp only [chunkRecordLocked, found]
      exact coalesceBackward_coalesced first.trees linked starts
        (recordForward_coalescedBut zeroed coalesced found)
  | none =>
      cases xnode with
      | none =>
          rw [chunkRecordLocked_leak zeroed found]
          exact coalesced
      | some n =>
          have absent := fresh n rfl
          have first := recordInsert_section trees zeroed range absent
          have linked : n ∈ (recordInsert p n chunk size zeroed).chunksAd :=
            OrderedTree.mem_insert.mpr (Or.inl rfl)
          have starts := recordInsert_addr p n chunk size zeroed
          simp only [chunkRecordLocked, found]
          exact coalesceBackward_coalesced first.trees linked starts
            (recordInsert_coalescedBut trees zeroed absent coalesced found)

end Locked

end Jemalloc
end Vmem
