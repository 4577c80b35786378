import Vmem.Jemalloc.PoolCreation
import Vmem.Jemalloc.Huge

/-!
# Who owns which address

The ledger of a pool states that every address of its usable memory is in
exactly as many places as it should be: in a free extent, in a huge block, with
somebody else (an arena, or a thread in the middle of a call), with the base
allocator, or dropped.  Every action of the allocator moves addresses between
these places and node pointers between the trees, the list of unused nodes and
the hands of threads.
-/

namespace Vmem
namespace Jemalloc

theorem hugeFill_eq (c : Config) (p : Pool) (addr length : Nat) (zero isZeroed : Bool) :
    hugeFill c p addr length zero isZeroed =
      { p with mem := (hugeFill c p addr length zero isZeroed).mem } := by
  unfold hugeFill
  split
  · rfl
  · split
    · rfl
    · split <;> rfl

theorem hugeDallocJunk_eq (c : Config) (p : Pool) (addr length : Nat) :
    hugeDallocJunk c p addr length =
      { p with mem := (hugeDallocJunk c p addr length).mem } := by
  unfold hugeDallocJunk
  split <;> rfl

theorem hugeSearch_some {p : Pool} {ptr n : Nat} (found : p.hugeSearch ptr = some n) :
    n ∈ p.huge ∧ (p.node n).addr = ptr := OrderedTree.search_some found

/-- The huge blocks are the same, with the same contents of their nodes. -/
structure HugeSame (p p' : Pool) : Prop where
  huge : p'.huge = p.huge
  node : ∀ n ∈ p.huge, p'.node n = p.node n

/-- The accounts of a pool.  `bound` is how often an address may be owned,
`held` are the nodes in the hands of threads, and `others` counts the owners
that are not in the pool's own structures. -/
structure Ledger (c : Config) (bound : Nat → Nat) (p : Pool) (held : List Nat)
    (others : Nat → Nat) : Prop where
  trees : FreeTrees c p
  sortedHuge : OrderedTree.Sorted (fun n => (p.node n).addr) p.huge
  hugeExtent : ∀ n ∈ p.huge, ExtentValid c (p.node n)
  numbered : NodesNumbered p (p.huge ++ held)
  covers : ∀ x, cover p.freeSpans x + cover p.hugeSpans x + others x +
    cover p.baseChunks x + cover p.leaked x = bound x

/-- What there is to own is owned once, and ends below the end of the address
space. -/
structure Bounded (bound : Nat → Nat) : Prop where
  once : ∀ x, bound x ≤ 1
  below : ∀ x, 0 < bound x → x + 1 < Word.modulus

/-- The usable range of a new pool is bounded. -/
theorem bounded_usable {c : Config} {addr size : Nat} (fits : c.Fits)
    (region : Region c addr size) :
    Bounded (Span.mk (usableAddr c addr size) (usableSize c addr size)).ind where
  once := Span.ind_le_one _
  below := by
    obtain ⟨_, inside⟩ := usable_spec fits region
    intro x positive
    have has := Span.ind_pos_iff.mp positive
    rw [Span.has_mk] at has
    have := inside.upper
    have := region.below
    omega

/-- One of the ranges in flight is owned. -/
theorem ind_le_flight {others : Nat → Nat} {span : Span} {spans : List Span}
    (member : span ∈ spans) (x : Nat) : span.ind x ≤ cover spans x + others x :=
  (ind_le_cover member x).trans (Nat.le_add_right ..)

namespace Ledger

variable {c : Config} {bound : Nat → Nat} {p p' : Pool} {held : List Nat}
  {others others' : Nat → Nat}

theorem apart (ledger : Ledger c bound p held others) : NodesApart p :=
  ledger.numbered.apart

theorem cover_free_le (ledger : Ledger c bound p held others) (x : Nat) :
    cover p.freeSpans x + others x ≤ bound x := by
  have := ledger.covers x
  omega

/-- A range of others ends below the end of the address space. -/
theorem span_below {span : Span} (ledger : Ledger c bound p held others)
    (bounded : Bounded bound) (nonempty : 0 < span.len)
    (owned : ∀ x, span.ind x ≤ others x) : span.lo + span.len < Word.modulus := by
  have last : span.Has (span.lo + span.len - 1) := by
    unfold Span.Has
    omega
  have counted := owned (span.lo + span.len - 1)
  rw [Span.ind_eq_one_iff.mpr last] at counted
  have := ledger.cover_free_le (span.lo + span.len - 1)
  have := bounded.below (span.lo + span.len - 1) (by omega)
  omega

/-- A range of others can be recorded. -/
theorem recordable {span : Span} (ledger : Ledger c bound p held others)
    (bounded : Bounded bound) (valid : ChunkSpan c span)
    (owned : ∀ x, span.ind x ≤ others x) : Recordable c p span.lo span.len := by
  apply Recordable.of_cover ledger.trees valid.nonempty valid.len_dvd valid.lo_dvd
    (ledger.span_below bounded valid.nonempty owned)
  intro x inside
  have counted := owned x
  rw [Span.ind_eq_one_iff.mpr inside] at counted
  have := ledger.cover_free_le x
  have := bounded.once x
  omega

/-- A huge block is covered by the huge spans. -/
theorem ind_le_cover_huge {n : Nat} (member : n ∈ p.huge) (x : Nat) :
    (p.node n).span.ind x ≤ cover p.hugeSpans x :=
  ind_le_cover (List.mem_map_of_mem (f := fun m => (p.node m).span) member) x

/-- Looking up the address of a huge block finds its node. -/
theorem hugeSearch_eq (ledger : Ledger c bound p held others) {ptr n : Nat}
    (member : n ∈ p.huge) (starts : (p.node n).addr = ptr) : p.hugeSearch ptr = some n :=
  OrderedTree.search_eq_some_of_key ledger.sortedHuge member starts

/-- Spans of unchanged nodes are unchanged. -/
theorem hugeSpans_eq (huge : p'.huge = p.huge)
    (node : ∀ n ∈ p.huge, p'.node n = p.node n) : p'.hugeSpans = p.hugeSpans := by
  unfold Pool.hugeSpans
  rw [huge]
  exact List.map_congr_left fun n member => by rw [node n member]

/-- A change of the pool that leaves the huge blocks alone. -/
theorem of_huge_eq {bound' : Nat → Nat} (ledger : Ledger c bound p held others)
    {held' : List Nat}
    (trees : FreeTrees c p') (huge : p'.huge = p.huge)
    (node : ∀ n ∈ p.huge, p'.node n = p.node n)
    (numbered : NodesNumbered p' (p'.huge ++ held'))
    (balance : ∀ x, cover p'.freeSpans x + others' x + cover p'.baseChunks x +
      cover p'.leaked x + bound x =
        cover p.freeSpans x + others x + cover p.baseChunks x + cover p.leaked x + bound' x) :
    Ledger c bound' p' held' others' where
  trees := trees
  sortedHuge := by
    rw [huge]
    exact ledger.sortedHuge.congr fun n member => by rw [node n member]
  hugeExtent := by
    rw [huge]
    intro n member
    rw [node n member]
    exact ledger.hugeExtent n member
  numbered := numbered
  covers := by
    intro x
    rw [hugeSpans_eq huge node]
    have one := ledger.covers x
    have two := balance x
    omega

/-- Whole operations: the others or the bound pay for the gain, and the others
receive the loss. -/
theorem extend {bound' : Nat → Nat} {gain loss : List Span}
    (ledger : Ledger c bound p held others)
    (changed : PoolChange c p p' gain loss)
    (balance : ∀ x, others' x + cover gain x + bound x =
      others x + cover loss x + bound' x) :
    Ledger c bound' p' held others' := by
  have numbered := ledger.numbered.change changed
  apply ledger.of_huge_eq changed.trees changed.huge
  · intro n member
    exact ledger.numbered.heap_eq changed (List.mem_append_left held member)
  · rw [changed.huge]
    exact numbered
  · intro x
    obtain ⟨extra, handed, leaked, chunks, covers⟩ := changed.dropped
    have one := covers x
    have two := balance x
    rw [leaked, chunks, cover_append, cover_append]
    omega

/-- Whole operations that do not change what there is to own. -/
theorem change {gain loss : List Span} (ledger : Ledger c bound p held others)
    (changed : PoolChange c p p' gain loss)
    (balance : ∀ x, others' x + cover gain x = others x + cover loss x) :
    Ledger c bound p' held others' :=
  ledger.extend changed fun x => by rw [balance x]

/-- Held nodes are no huge blocks, and held once. -/
theorem nodup_held (ledger : Ledger c bound p held others) : (p.huge ++ held).Nodup := by
  have := ledger.numbered.nodup_iff.mpr List.nodup_range
  exact (List.nodup_append.mp this).2.1

/-- Locked sections leave the huge blocks alone. -/
theorem hugeSame {given left : List Nat} {gain loss : List Span}
    (ledger : Ledger c bound p (given ++ held) others)
    (section_ : TreeSection c p p' given left gain loss) : HugeSame p p' where
  huge := section_.edit.huge
  node := by
    intro n member
    obtain ⟨absent, _, _⟩ := ledger.numbered.of_held (List.mem_append_left _ member)
    apply section_.heap n absent
    intro inGiven
    exact (List.nodup_append.mp ledger.nodup_held).2.2 n member n
      (List.mem_append_left held inGiven) rfl

/-- Locked sections: nodes pass between the trees and a thread's hands. -/
theorem treeSection {given left : List Nat} {gain loss : List Span}
    (ledger : Ledger c bound p (given ++ held) others)
    (section_ : TreeSection c p p' given left gain loss)
    (balance : ∀ x, others' x + cover gain x = others x + cover loss x) :
    Ledger c bound p' (left ++ held) others' := by
  have edit := section_.edit
  apply ledger.of_huge_eq section_.trees edit.huge (ledger.hugeSame section_).node
  · unfold NodesNumbered
    rw [edit.huge, edit.baseNodes, edit.nodeCount]
    -- bring the nodes the section touches to the front
    have regroup : ∀ tree nodes : List Nat,
        (tree ++ p.baseNodes ++ (p.huge ++ (nodes ++ held))).Perm
          (tree ++ nodes ++ (p.baseNodes ++ p.huge ++ held)) := by
      intro tree nodes
      simp only [List.append_assoc]
      refine List.Perm.append_left tree ?_
      rw [← List.append_assoc p.baseNodes, ← List.append_assoc (p.baseNodes ++ p.huge),
        ← List.append_assoc p.baseNodes, ← List.append_assoc nodes]
      exact (List.perm_append_comm).append_right held
    exact (regroup _ left).trans ((section_.nodes.append_right _).trans
      ((regroup _ given).symm.trans ledger.numbered))
  · intro x
    have one := section_.covers x
    have two := balance x
    rw [edit.baseChunks, edit.leaked]
    omega

/-! ## Nodes in hand -/

/-- The first unused node may as well be counted among the held ones. -/
theorem unused_perm_held (n : Nat) (tree rest huge held : List Nat) :
    (tree ++ (n :: rest) ++ (huge ++ held)).Perm (tree ++ rest ++ (huge ++ n :: held)) := by
  have first : (tree ++ (n :: rest) ++ (huge ++ held)).Perm
      (n :: (tree ++ rest ++ (huge ++ held))) := by
    rw [List.append_assoc, List.append_assoc, List.cons_append]
    exact List.perm_middle
  have second : (tree ++ rest ++ (huge ++ n :: held)).Perm
      (n :: (tree ++ rest ++ (huge ++ held))) := by
    rw [← List.append_assoc, ← List.append_assoc (tree ++ rest)]
    exact List.perm_middle
  exact first.trans second.symm

/-- A thread takes an unused node. -/
theorem takeNode {n : Nat} {rest : List Nat} (ledger : Ledger c bound p held others)
    (nodes : p.baseNodes = n :: rest) :
    Ledger c bound { p with baseNodes := rest } (n :: held) others := by
  refine Ledger.of_huge_eq ledger (ledger.trees.of_edit rfl rfl fun _ _ => rfl) rfl
    (fun _ _ => rfl) ?_ fun _ => rfl
  have numbered := ledger.numbered
  unfold NodesNumbered at numbered ⊢
  rw [nodes] at numbered
  exact (unused_perm_held n p.chunksAd rest p.huge held).symm.trans numbered

/-- A thread gives a node back. -/
theorem giveNode {n : Nat} (ledger : Ledger c bound p (n :: held) others) :
    Ledger c bound (baseNodeDalloc p n) held others := by
  refine Ledger.of_huge_eq ledger (ledger.trees.of_edit rfl rfl fun _ _ => rfl) rfl
    (fun _ _ => rfl) ?_ fun _ => rfl
  exact (unused_perm_held n p.chunksAd p.baseNodes p.huge held).trans ledger.numbered

/-- Only the values of the count of others matter. -/
theorem of_others (ledger : Ledger c bound p held others)
    (same : ∀ x, others' x = others x) : Ledger c bound p held others' :=
  (funext same : others' = others) ▸ ledger

/-- The order in which nodes are held does not matter. -/
theorem of_held_perm {held' : List Nat} (ledger : Ledger c bound p held others)
    (perm : held'.Perm held) : Ledger c bound p held' others where
  trees := ledger.trees
  sortedHuge := ledger.sortedHuge
  hugeExtent := ledger.hugeExtent
  numbered := ((perm.append_left p.huge).append_left (p.chunksAd ++ p.baseNodes)).trans
    ledger.numbered
  covers := ledger.covers

/-- A node in hand is neither free, unused nor huge. -/
theorem fresh {n : Nat} (ledger : Ledger c bound p (n :: held) others) :
    n ∉ p.chunksAd ∧ n ∉ p.baseNodes ∧ n ∉ p.huge := by
  have member : n ∈ p.huge ++ n :: held := List.mem_append_right _ List.mem_cons_self
  obtain ⟨absent, unused, _⟩ := ledger.numbered.of_held member
  refine ⟨absent, unused, ?_⟩
  intro inHuge
  exact (List.nodup_append.mp ledger.nodup_held).2.2 n inHuge n List.mem_cons_self rfl

/-- A thread writes a node in its hand. -/
theorem editNode {n : Nat} (ledger : Ledger c bound p (n :: held) others)
    (value : ExtentNode) : Ledger c bound (p.setNode n value) (n :: held) others := by
  obtain ⟨absent, _, notHuge⟩ := ledger.fresh
  have elsewhere : ∀ m, m ≠ n → (p.setNode n value).node m = p.node m :=
    fun m different => Function.update_of_ne different ..
  refine ledger.of_huge_eq (ledger.trees.of_edit rfl rfl ?_) rfl ?_ ledger.numbered ?_
  · intro m member
    exact elsewhere m fun equal => absent (equal ▸ member)
  · intro m member
    exact elsewhere m fun equal => notHuge (equal ▸ member)
  · intro x
    have unchanged := cover_map_update_of_notMem p.node absent value x
    change cover (p.chunksAd.map fun m => (Function.update p.node n value m).span) x +
      _ + _ + _ + _ = _
    rw [unchanged]
    rfl

/-- Only contents of memory, counters and pointers of the base allocator
differ. -/
theorem of_contents {mem : Nat → UInt8} {nchunks curchunks highchunks next past : Nat}
    (ledger : Ledger c bound p held others) :
    Ledger c bound { p with
      mem := mem
      nchunks := nchunks
      curchunks := curchunks
      highchunks := highchunks
      baseNextAddr := next
      basePastAddr := past } held others :=
  ledger.of_huge_eq (ledger.trees.of_edit rfl rfl fun _ _ => rfl) rfl (fun _ _ => rfl)
    ledger.numbered fun _ => rfl

/-- A range in flight is dropped. -/
theorem leak {span : Span} (ledger : Ledger c bound p held others)
    (balance : ∀ x, others x = span.ind x + others' x) :
    Ledger c bound { p with leaked := span :: p.leaked } held others' := by
  refine ledger.of_huge_eq (ledger.trees.of_edit rfl rfl fun _ _ => rfl) rfl (fun _ _ => rfl)
    ledger.numbered ?_
  intro x
  have := balance x
  change cover p.freeSpans x + others' x + cover p.baseChunks x +
    cover (span :: p.leaked) x + bound x = _
  rw [cover_cons]
  omega

/-! ## The tree of huge blocks -/

/-- No huge block starts at an address that others own. -/
theorem huge_apart (ledger : Ledger c bound p held others) {value : ExtentNode}
    (once : bound value.addr ≤ 1)
    (owned : 0 < others value.addr) :
    ∀ n ∈ p.huge, (p.node n).addr ≠ value.addr := by
  intro n member equal
  have counted := ind_le_cover_huge member value.addr
  have starts : (p.node n).span.ind value.addr = 1 := by
    rw [← equal]
    exact Span.ind_lo (ledger.hugeExtent n member).nonempty
  have := ledger.covers value.addr
  omega

/-- A thread turns a range of its own and a node in hand into a huge block. -/
theorem hugeLink {n : Nat} {value : ExtentNode}
    (ledger : Ledger c bound p (n :: held) others)
    (valid : ExtentValid c value)
    (once : bound value.addr ≤ 1)
    (balance : ∀ x, others x = others' x + value.span.ind x) :
    Ledger c bound ((p.setNode n value).hugeInsert n) held others' := by
  obtain ⟨absent, unused, notHuge⟩ := ledger.fresh
  have elsewhere : ∀ m, m ≠ n → ((p.setNode n value).hugeInsert n).node m = p.node m :=
    fun m different => Function.update_of_ne different ..
  have atNode : ((p.setNode n value).hugeInsert n).node n = value := Function.update_self ..
  have owned : 0 < others value.addr := by
    have start : value.span.ind value.addr = 1 :=
      Span.ind_lo valid.nonempty
    rw [balance value.addr, start]
    omega
  have addrFresh := ledger.huge_apart once owned
  have ne_of_mem : ∀ {m}, m ∈ p.huge → m ≠ n := fun member equal => notHuge (equal ▸ member)
  have perm : ((p.setNode n value).hugeInsert n).huge.Perm (n :: p.huge) :=
    OrderedTree.insert_perm ..
  exact {
    trees := ledger.trees.of_edit rfl rfl fun m member =>
      elsewhere m fun equal => absent (equal ▸ member)
    sortedHuge := by
      apply OrderedTree.Sorted.insert
      · exact ledger.sortedHuge.congr fun m member => by
          rw [elsewhere m (ne_of_mem member)]
      · intro m member
        rw [elsewhere m (ne_of_mem member), atNode]
        exact addrFresh m member
    hugeExtent := by
      intro m inTree
      rcases List.mem_cons.mp (perm.mem_iff.mp inTree) with isNode | old
      · rw [isNode, atNode]
        exact valid
      · rw [elsewhere m (ne_of_mem old)]
        exact ledger.hugeExtent m old
    numbered := by
      have numbered := ledger.numbered
      unfold NodesNumbered at numbered ⊢
      refine List.Perm.trans ?_ numbered
      apply List.Perm.append_left (p.chunksAd ++ p.baseNodes)
      exact (perm.append_right held).trans List.perm_middle.symm
    covers := by
      intro x
      have counted := cover_perm (perm.map fun m =>
        (((p.setNode n value).hugeInsert n).node m).span) x
      rw [List.map_cons, cover_cons, atNode] at counted
      have old := cover_map_update_of_notMem p.node notHuge value x
      have free := cover_map_update_of_notMem p.node absent value x
      have one := ledger.covers x
      have two := balance x
      change cover (p.chunksAd.map fun m => (Function.update p.node n value m).span) x +
        cover (((p.setNode n value).hugeInsert n).huge.map fun m =>
          (((p.setNode n value).hugeInsert n).node m).span) x + others' x +
          cover p.baseChunks x + cover p.leaked x = bound x
      rw [counted, free]
      change cover (p.chunksAd.map fun m => (p.node m).span) x +
        (value.span.ind x + cover (p.huge.map fun m =>
          (Function.update p.node n value m).span) x) + others' x +
          cover p.baseChunks x + cover p.leaked x = bound x
      rw [old]
      change cover p.freeSpans x + (value.span.ind x + cover p.hugeSpans x) + others' x +
        cover p.baseChunks x + cover p.leaked x = bound x
      omega }

/-- A thread takes a huge block out of the tree. -/
theorem hugeUnlink {n : Nat} (ledger : Ledger c bound p held others) (member : n ∈ p.huge)
    (balance : ∀ x, others' x = others x + (p.node n).span.ind x) :
    Ledger c bound (p.hugeRemove n) (n :: held) others' := by
  have perm := OrderedTree.remove_perm member
  exact {
    trees := ledger.trees.of_edit rfl rfl fun _ _ => rfl
    sortedHuge := ledger.sortedHuge.remove n
    hugeExtent := fun m inRest => ledger.hugeExtent m (OrderedTree.mem_of_mem_remove inRest)
    numbered := by
      have numbered := ledger.numbered
      unfold NodesNumbered at numbered ⊢
      refine List.Perm.trans ?_ numbered
      apply List.Perm.append_left (p.chunksAd ++ p.baseNodes)
      exact List.perm_middle.trans (perm.symm.append_right held)
    covers := by
      intro x
      have counted := cover_perm (perm.map fun m => (p.node m).span) x
      rw [List.map_cons, cover_cons] at counted
      have one := ledger.covers x
      have two := balance x
      change cover p.freeSpans x +
        cover ((OrderedTree.remove n p.huge).map fun m => (p.node m).span) x + others' x +
          cover p.baseChunks x + cover p.leaked x = bound x
      change cover p.freeSpans x + cover (p.huge.map fun m => (p.node m).span) x +
        others x + cover p.baseChunks x + cover p.leaked x = bound x at one
      omega }

/-- A thread changes the size of a huge block in place. -/
theorem hugeResize {n newSize : Nat} (ledger : Ledger c bound p held others)
    (member : n ∈ p.huge)
    (valid : ExtentValid c { p.node n with size := newSize })
    (balance : ∀ x, others' x + (Span.mk (p.node n).addr newSize).ind x =
      others x + (p.node n).span.ind x) :
    Ledger c bound (p.setNode n { p.node n with size := newSize }) held others' := by
  obtain ⟨absent, unused, _⟩ := ledger.numbered.of_held (List.mem_append_left held member)
  have elsewhere : ∀ m, m ≠ n →
      (p.setNode n { p.node n with size := newSize }).node m = p.node m :=
    fun m different => Function.update_of_ne different ..
  have atNode : (p.setNode n { p.node n with size := newSize }).node n =
      { p.node n with size := newSize } := Function.update_self ..
  exact {
    trees := ledger.trees.of_edit rfl rfl fun m inTree =>
      elsewhere m fun equal => absent (equal ▸ inTree)
    sortedHuge := by
      apply ledger.sortedHuge.congr
      intro m _
      by_cases isNode : m = n
      · rw [isNode, atNode]
      · rw [elsewhere m isNode]
    hugeExtent := by
      intro m inTree
      by_cases isNode : m = n
      · rw [isNode, atNode]
        exact valid
      · rw [elsewhere m isNode]
        exact ledger.hugeExtent m inTree
    numbered := ledger.numbered
    covers := by
      intro x
      have changed := cover_map_update p.node ledger.sortedHuge.nodup member
        { p.node n with size := newSize } x
      have free := cover_map_update_of_notMem p.node absent
        { p.node n with size := newSize } x
      have one := ledger.covers x
      have two := balance x
      change cover (p.chunksAd.map fun m =>
          (Function.update p.node n { p.node n with size := newSize } m).span) x +
        cover (p.huge.map fun m =>
          (Function.update p.node n { p.node n with size := newSize } m).span) x +
        others' x + cover p.baseChunks x + cover p.leaked x = bound x
      rw [free]
      change cover p.freeSpans x + _ + others' x + _ + _ = bound x
      change _ + _ = cover p.hugeSpans x + _ at changed
      change _ + (Span.mk (p.node n).addr newSize).ind x = _ at two
      simp only [ExtentNode.span] at changed two ⊢
      omega }

end Ledger

/-- The ledger of a new pool: everything usable is free. -/
theorem FreshPool.ledger {c : Config} {addr size : Nat} {p : Pool}
    (fresh : FreshPool c addr size p) :
    Ledger c (Span.mk (usableAddr c addr size) (usableSize c addr size)).ind p []
      fun _ => 0 where
  trees := fresh.trees
  sortedHuge := by
    rw [fresh.huge]
    exact OrderedTree.Sorted.nil _
  hugeExtent := by
    rw [fresh.huge]
    exact fun _ member => absurd member List.not_mem_nil
  numbered := by
    rw [fresh.huge]
    exact fresh.numbered
  covers := by
    intro x
    have hugeSpans : p.hugeSpans = [] := by
      unfold Pool.hugeSpans
      rw [fresh.huge, List.map_nil]
    rw [fresh.free x, hugeSpans, fresh.baseChunks, fresh.leaked]
    rfl

end Jemalloc
end Vmem
