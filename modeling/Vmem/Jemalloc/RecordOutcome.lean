import Vmem.Jemalloc.PoolSections

/-!
# What `chunk_record` leaves free

A range that is recorded becomes free, unless there is neither a spare node nor an
extent right behind it.  So it is known when no extent, and when a single chunk, is
free afterwards.
-/

namespace Vmem
namespace Jemalloc

/-- When coalescing is complete, the free extents do not even touch. -/
theorem freeSpans_separated {c : Config} {p : Pool} (trees : FreeTrees c p)
    (coalesced : Coalesced p) : Separated p.freeSpans where
  nonempty := by
    intro span member
    obtain ⟨n, inTree, rfl⟩ := List.mem_map.mp member
    exact (trees.extent n inTree).nonempty
  gaps := by
    unfold Pool.freeSpans
    rw [List.pairwise_map]
    refine trees.sortedAd.imp_of_mem fun {a b} aMember bMember less => ?_
    exact lt_of_le_of_ne (trees.disjoint a aMember b bMember less)
      (coalesced a aMember b bMember)

/-- When the free set is one whole range and coalescing is complete,
there is exactly one extent. -/
theorem single_extent {c : Config} {usable : Span} {p : Pool} (trees : FreeTrees c p)
    (coalesced : Coalesced p) (nonempty : 0 < usable.len)
    (free : ∀ x, cover p.freeSpans x = usable.ind x) :
    ∃ n, p.chunksAd = [n] ∧ (p.node n).addr = usable.lo ∧ (p.node n).size = usable.len := by
  have whole : Separated [usable] :=
    ⟨by simpa using nonempty, List.pairwise_singleton ..⟩
  have single : p.freeSpans = [usable] := by
    apply (freeSpans_separated trees coalesced).eq_of_cover whole
    intro x
    rw [free x, cover_cons, cover_nil, Nat.add_zero]
  obtain ⟨n, tree, span⟩ := List.map_eq_singleton_iff.mp single
  exact ⟨n, tree, by rw [← span]; rfl, by rw [← span]; rfl⟩

variable {c : Config} {p : Pool} {chunk size : Nat}

/-- `chunk_record` drops the range: no node is spare and no extent begins behind it. -/
def RecordLeaks (p : Pool) (chunk size : Nat) : Prop :=
  p.baseNodes = [] ∧ forwardNode p (chunk + size) = none

/-- When the range is dropped, the extents stay. -/
theorem chunkRecord_of_leak (zeroed : Bool) (leaks : RecordLeaks p chunk size) :
    (chunkRecord c p chunk size zeroed).chunksSzad = p.chunksSzad ∧
      (chunkRecord c p chunk size zeroed).chunksAd = p.chunksAd ∧
      (chunkRecord c p chunk size zeroed).node = p.node := by
  obtain ⟨nodes, missing⟩ := leaks
  have entry : forwardNode (recordEntry c p chunk size) (chunk + size) = none := missing
  rw [chunkRecord_eq, nodes]
  simp only [List.head?_nil, chunkRecordLocked_leak zeroed entry]
  exact ⟨rfl, rfl, rfl⟩

/-- When the range is not dropped, it is free. -/
theorem chunkRecord_covers (zeroed : Bool) (trees : FreeTrees c p) (apart : NodesApart p)
    (range : Recordable c p chunk size) (keeps : ¬RecordLeaks p chunk size) (x : Nat) :
    cover (chunkRecord c p chunk size zeroed).freeSpans x =
      cover p.freeSpans x + (Span.mk chunk size).ind x := by
  have changed := chunkRecord_section zeroed trees apart range
  have kept : (chunkRecord c p chunk size zeroed).leaked = p.leaked := by
    rw [chunkRecord_eq]
    have change := chunkRecordLocked_section zeroed (recordEntry_trees trees)
      (recordEntry_fresh apart) (recordEntry_recordable range)
      (fun missing nodes => keeps ⟨List.head?_eq_none_iff.mp nodes, missing⟩)
    exact change.edit.leaked
  have counted := changed.cover_free_eq kept x
  rw [cover_cons, cover_nil] at counted
  omega

/-- No extent in one order means none in the other. -/
theorem FreeTrees.ad_eq_nil (trees : FreeTrees c p) (empty : p.chunksSzad = []) :
    p.chunksAd = [] := by
  have same := trees.same
  rw [empty] at same
  exact same.nil_eq.symm

/-- A single extent in one order is the single one in the other. -/
theorem FreeTrees.ad_eq_single {n : Nat} (trees : FreeTrees c p) (one : p.chunksSzad = [n]) :
    p.chunksAd = [n] := by
  have same := trees.same
  rw [one] at same
  exact List.perm_singleton.mp same.symm

theorem freeSpans_single {n : Nat} (trees : FreeTrees c p) (one : p.chunksSzad = [n]) (x : Nat) :
    cover p.freeSpans x = (p.node n).span.ind x := by
  unfold Pool.freeSpans
  rw [trees.ad_eq_single one, List.map_singleton, cover_cons, cover_nil, Nat.add_zero]

theorem forwardNode_nil (empty : p.chunksAd = []) (chunkEnd : Nat) :
    forwardNode p chunkEnd = none := by
  unfold forwardNode
  rw [empty]
  rfl

/-- No extent is free after recording exactly if none was and the range was dropped. -/
theorem chunkRecord_empty_iff (zeroed : Bool) (trees : FreeTrees c p) (apart : NodesApart p)
    (range : Recordable c p chunk size) :
    (chunkRecord c p chunk size zeroed).chunksSzad = [] ↔
      p.chunksSzad = [] ∧ p.baseNodes = [] := by
  constructor
  · intro empty
    by_cases leaks : RecordLeaks p chunk size
    · rw [(chunkRecord_of_leak zeroed leaks).1] at empty
      exact ⟨empty, leaks.1⟩
    · have nonempty := range.nonempty
      have counted := chunkRecord_covers zeroed trees apart range leaks chunk
      have inside : (Span.mk chunk size).Has chunk := by
        rw [Span.has_mk]
        omega
      have after := (chunkRecord_section zeroed trees apart range).trees
      unfold Pool.freeSpans at counted
      rw [after.ad_eq_nil empty, Span.ind_eq_one_iff.mpr inside, List.map_nil, cover_nil] at counted
      omega
  · rintro ⟨empty, nodes⟩
    rw [(chunkRecord_of_leak zeroed ⟨nodes, forwardNode_nil (trees.ad_eq_nil empty) _⟩).1]
    exact empty

/-- The only free extent is one chunk long. -/
def OneChunk (c : Config) (p : Pool) : Prop :=
  ∃ n, p.chunksSzad = [n] ∧ (p.node n).size = c.chunksize

/-- A single chunk is free after recording the range. -/
def LeavesOneChunk (c : Config) (p : Pool) (chunk size : Nat) : Prop :=
  (p.chunksSzad = [] ∧ p.baseNodes ≠ [] ∧ size = c.chunksize) ∨
    (OneChunk c p ∧ p.baseNodes = [] ∧ ∀ n ∈ p.chunksSzad, (p.node n).addr ≠ chunk + size)

/-- A free range lies in the single extent. -/
theorem within_single {n : Nat} {span : Span} (trees : FreeTrees c p) (one : p.chunksSzad = [n])
    (nonempty : 0 < span.len) (free : ∀ x, span.ind x ≤ cover p.freeSpans x) :
    (p.node n).addr ≤ span.lo ∧ span.lo + span.len ≤ (p.node n).addr + (p.node n).size := by
  have holds : ∀ x, span.Has x → (p.node n).span.Has x := by
    intro x inside
    have counted := free x
    rw [Span.ind_eq_one_iff.mpr inside, freeSpans_single trees one] at counted
    exact Span.ind_pos_iff.mp counted
  have first := holds span.lo ⟨le_rfl, by omega⟩
  have last := holds (span.lo + span.len - 1) ⟨by omega, by omega⟩
  rw [ExtentNode.has_span] at first last
  omega

theorem chunkRecord_oneChunk_iff (zeroed : Bool) (trees : FreeTrees c p) (apart : NodesApart p)
    (range : Recordable c p chunk size) :
    OneChunk c (chunkRecord c p chunk size zeroed) ↔ LeavesOneChunk c p chunk size := by
  have after := (chunkRecord_section zeroed trees apart range).trees
  have nonempty := range.nonempty
  constructor
  · rintro ⟨m, one, short⟩
    by_cases leaks : RecordLeaks p chunk size
    · obtain ⟨order, _, heap⟩ := chunkRecord_of_leak (c := c) zeroed leaks
      rw [order] at one
      rw [heap] at short
      refine Or.inr ⟨⟨m, one, short⟩, leaks.1, fun n member => ?_⟩
      exact forwardNode_none trees leaks.2 n (trees.mem_szad.mp member)
    · have covers := chunkRecord_covers zeroed trees apart range leaks
      have taken : ∀ x, (Span.mk chunk size).ind x ≤
          cover (chunkRecord c p chunk size zeroed).freeSpans x := by
        intro x
        rw [covers x]
        exact Nat.le_add_left ..
      have whole := within_single after one nonempty taken
      dsimp only at whole
      have atLeast := Nat.le_of_dvd nonempty range.size_dvd
      cases order : p.chunksSzad with
      | nil =>
          refine Or.inl ⟨order, fun nodes => leaks ?_, by omega⟩
          exact ⟨nodes, forwardNode_nil (trees.ad_eq_nil order) _⟩
      | cons n rest =>
          -- the extent and the range would be the same chunk
          have member : n ∈ p.chunksAd := trees.mem_szad.mp (order ▸ List.mem_cons_self)
          have extent := trees.extent n member
          have long := Nat.le_of_dvd extent.nonempty extent.size_dvd
          have free : ∀ x, (p.node n).span.ind x ≤
              cover (chunkRecord c p chunk size zeroed).freeSpans x := by
            intro x
            rw [covers x]
            exact (Pool.ind_le_cover_free member x).trans (Nat.le_add_right ..)
          have inside := within_single after one extent.nonempty free
          unfold ExtentNode.span at inside
          dsimp only at inside
          have := range.apart n member
          omega
  · rintro (⟨empty, nodes, rfl⟩ | ⟨⟨n, one, short⟩, nodes, behind⟩)
    · have none := trees.ad_eq_nil empty
      have keeps : ¬RecordLeaks p chunk c.chunksize := fun leaks => nodes leaks.1
      have covers := chunkRecord_covers zeroed trees apart range keeps
      have coalesced : Coalesced p := by
        intro a member
        rw [none] at member
        exact absurd member List.not_mem_nil
      have free : ∀ x, cover (chunkRecord c p chunk c.chunksize zeroed).freeSpans x =
          (Span.mk chunk c.chunksize).ind x := by
        intro x
        rw [covers x]
        unfold Pool.freeSpans
        rw [none, List.map_nil, cover_nil, Nat.zero_add]
      obtain ⟨m, single, _, length⟩ := single_extent after
        (chunkRecord_coalesced zeroed trees apart range coalesced) nonempty free
      refine ⟨m, ?_, length⟩
      have same := after.same
      rw [single] at same
      exact List.perm_singleton.mp same
    · have missing : forwardNode p (chunk + size) = none := by
        cases found : forwardNode p (chunk + size) with
        | none => rfl
        | some m =>
            obtain ⟨member, starts⟩ := forwardNode_some found
            exact absurd starts (behind m (trees.mem_szad.mpr member))
      obtain ⟨order, _, heap⟩ := chunkRecord_of_leak (c := c) zeroed ⟨nodes, missing⟩
      exact ⟨n, order.trans one, by rw [heap]; exact short⟩

end Jemalloc
end Vmem
