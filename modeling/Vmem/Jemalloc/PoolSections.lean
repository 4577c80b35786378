import Vmem.Jemalloc.ChunkRecord
import Vmem.Jemalloc.ChunkRecycle

/-!
# Whole chunk operations

Between calls, an extent node is linked in both free trees, linked in the tree
of huge blocks, or waiting in `base_nodes`.  A whole chunk operation moves nodes
only between the free trees and that list.  It is described by the spans it
adds to the free set and the spans it takes out; what it drops is recorded in
`leaked`.
-/

namespace Vmem
namespace Jemalloc

/-- What a whole chunk operation does to a pool. -/
structure PoolSection (c : Config) (p p' : Pool) (gain loss : List Span) : Prop where
  trees : FreeTrees c p'
  nodes : (p'.chunksAd ++ p'.baseNodes).Perm (p.chunksAd ++ p.baseNodes)
  dropped : ∃ extra, p'.leaked = extra ++ p.leaked ∧ ∀ x,
    cover p'.freeSpans x + cover extra x + cover loss x =
      cover p.freeSpans x + cover gain x
  heap : ∀ n, n ∉ p.chunksAd → n ∉ p.baseNodes → p'.node n = p.node n
  mem : ∀ x, cover p.freeSpans x = 0 → cover gain x = 0 → p'.mem x = p.mem x
  huge : p'.huge = p.huge
  nodeCount : p'.nodeCount = p.nodeCount
  baseNextAddr : p'.baseNextAddr = p.baseNextAddr
  basePastAddr : p'.basePastAddr = p.basePastAddr
  memoryRanges : p'.memoryRanges = p.memoryRanges
  baseChunks : p'.baseChunks = p.baseChunks

namespace PoolSection

variable {c : Config} {p p' p'' : Pool} {gain loss gain' loss' : List Span}

theorem refl (trees : FreeTrees c p) : PoolSection c p p [] [] where
  trees := trees
  nodes := List.Perm.refl _
  dropped := ⟨[], rfl, fun _ => rfl⟩
  heap := fun _ _ _ => rfl
  mem := fun _ _ _ => rfl
  huge := rfl
  nodeCount := rfl
  baseNextAddr := rfl
  basePastAddr := rfl
  memoryRanges := rfl
  baseChunks := rfl

/-- Operations compose. -/
theorem trans (first : PoolSection c p p' gain loss)
    (second : PoolSection c p' p'' gain' loss') :
    PoolSection c p p'' (gain ++ gain') (loss ++ loss') where
  trees := second.trees
  nodes := second.nodes.trans first.nodes
  dropped := by
    obtain ⟨extra, leaked, covers⟩ := first.dropped
    obtain ⟨extra', leaked', covers'⟩ := second.dropped
    refine ⟨extra' ++ extra, by rw [leaked', leaked, List.append_assoc], ?_⟩
    intro x
    have one := covers x
    have two := covers' x
    simp only [cover_append]
    omega
  heap := by
    intro n absent unused
    have outside : n ∉ p'.chunksAd ++ p'.baseNodes := by
      intro member
      rcases List.mem_append.mp (first.nodes.mem_iff.mp member) with old | old
      · exact absent old
      · exact unused old
    rw [second.heap n (fun member => outside (List.mem_append_left _ member))
      (fun member => outside (List.mem_append_right _ member)),
      first.heap n absent unused]
  mem := by
    intro x free notGained
    obtain ⟨extra, leaked, covers⟩ := first.dropped
    have one := covers x
    rw [cover_append] at notGained
    rw [second.mem x (by omega) (by omega), first.mem x free (by omega)]
  huge := second.huge.trans first.huge
  nodeCount := second.nodeCount.trans first.nodeCount
  baseNextAddr := second.baseNextAddr.trans first.baseNextAddr
  basePastAddr := second.basePastAddr.trans first.basePastAddr
  memoryRanges := second.memoryRanges.trans first.memoryRanges
  baseChunks := second.baseChunks.trans first.baseChunks

/-- A span that is taken and given back leaves no trace. -/
theorem cancel {span : Span} (change : PoolSection c p p' [span] [span])
    (wasFree : ∀ x, span.ind x ≤ cover p.freeSpans x) : PoolSection c p p' [] [] where
  trees := change.trees
  nodes := change.nodes
  dropped := by
    obtain ⟨extra, leaked, covers⟩ := change.dropped
    refine ⟨extra, leaked, ?_⟩
    intro x
    have := covers x
    simp only [cover_nil]
    omega
  heap := change.heap
  mem := by
    intro x free _
    apply change.mem x free
    have := wasFree x
    simp only [cover_cons, cover_nil]
    omega
  huge := change.huge
  nodeCount := change.nodeCount
  baseNextAddr := change.baseNextAddr
  basePastAddr := change.basePastAddr
  memoryRanges := change.memoryRanges
  baseChunks := change.baseChunks

/-- Counters do not matter. -/
theorem of_stats {nchunks curchunks highchunks nchunks' curchunks' highchunks' : Nat}
    (change : PoolSection c
      { p with nchunks := nchunks, curchunks := curchunks, highchunks := highchunks }
      { p' with nchunks := nchunks', curchunks := curchunks', highchunks := highchunks' }
      gain loss) :
    PoolSection c p p' gain loss where
  trees := change.trees.of_edit rfl rfl fun _ _ => rfl
  nodes := change.nodes
  dropped := change.dropped
  heap := change.heap
  mem := change.mem
  huge := change.huge
  nodeCount := change.nodeCount
  baseNextAddr := change.baseNextAddr
  basePastAddr := change.basePastAddr
  memoryRanges := change.memoryRanges
  baseChunks := change.baseChunks

/-- What an operation frees or drops lies in what was free or given to it. -/
theorem cover_free_le (change : PoolSection c p p' gain loss) (x : Nat) :
    cover p'.freeSpans x + cover loss x ≤ cover p.freeSpans x + cover gain x := by
  obtain ⟨extra, leaked, covers⟩ := change.dropped
  have := covers x
  omega

/-- With nothing dropped, the free set changes by exactly the gain and loss. -/
theorem cover_free_eq (change : PoolSection c p p' gain loss)
    (kept : p'.leaked = p.leaked) (x : Nat) :
    cover p'.freeSpans x + cover loss x = cover p.freeSpans x + cover gain x := by
  obtain ⟨extra, leaked, covers⟩ := change.dropped
  have nothing : extra = [] := by
    rw [kept] at leaked
    exact List.self_eq_append_left.mp leaked
  have := covers x
  rw [nothing, cover_nil] at this
  omega

/-- A locked section whose nodes come from `base_nodes` and go back there. -/
theorem of_tree {q : Pool} {mem : Nat → UInt8} {rest nodes given left : List Nat}
    (change : TreeSection c { p with mem := mem, baseNodes := rest } q given left gain loss)
    (taken : p.baseNodes.Perm (given ++ rest))
    (returned : nodes.Perm (left ++ rest))
    (outside : ∀ x, cover p.freeSpans x = 0 → cover gain x = 0 → mem x = p.mem x) :
    PoolSection c p { q with baseNodes := nodes } gain loss where
  trees := change.trees.of_edit rfl rfl fun _ _ => rfl
  nodes := by
    have first : (q.chunksAd ++ nodes).Perm (q.chunksAd ++ left ++ rest) := by
      rw [List.append_assoc]
      exact returned.append_left q.chunksAd
    have second : (p.chunksAd ++ given ++ rest).Perm (p.chunksAd ++ p.baseNodes) := by
      rw [List.append_assoc]
      exact taken.symm.append_left p.chunksAd
    exact first.trans ((change.nodes.append_right rest).trans second)
  dropped := ⟨[], change.edit.leaked, fun x => change.covers x⟩
  heap := by
    intro n absent unused
    apply change.heap n absent
    intro inGiven
    exact unused (taken.mem_iff.mpr (List.mem_append_left rest inGiven))
  mem := by
    intro x free notGained
    rw [← outside x free notGained]
    exact congrFun change.edit.mem x
  huge := change.edit.huge
  nodeCount := change.edit.nodeCount
  baseNextAddr := change.edit.baseNextAddr
  basePastAddr := change.edit.basePastAddr
  memoryRanges := change.edit.memoryRanges
  baseChunks := change.edit.baseChunks

/-- A locked section that uses no nodes. -/
theorem of_tree_nil {q : Pool} (change : TreeSection c p q [] [] gain loss) :
    PoolSection c p q gain loss where
  trees := change.trees
  nodes := by
    have := change.nodes
    rw [List.append_nil, List.append_nil] at this
    rw [change.edit.baseNodes]
    exact this.append_right p.baseNodes
  dropped := ⟨[], change.edit.leaked, fun x => change.covers x⟩
  heap := fun n absent _ => change.heap n absent (by simp)
  mem := fun x _ _ => congrFun change.edit.mem x
  huge := change.edit.huge
  nodeCount := change.edit.nodeCount
  baseNextAddr := change.edit.baseNextAddr
  basePastAddr := change.edit.basePastAddr
  memoryRanges := change.edit.memoryRanges
  baseChunks := change.edit.baseChunks

end PoolSection

/-- The nodes in the free trees and in `base_nodes` are all different. -/
def NodesApart (p : Pool) : Prop := (p.chunksAd ++ p.baseNodes).Nodup

theorem NodesApart.notMem {p : Pool} (apart : NodesApart p) {n : Nat}
    (unused : n ∈ p.baseNodes) : n ∉ p.chunksAd := fun linked =>
  (List.nodup_append.mp apart).2.2 n linked n unused rfl

theorem PoolSection.nodesApart {c : Config} {p p' : Pool} {gain loss : List Span}
    (change : PoolSection c p p' gain loss) (apart : NodesApart p) : NodesApart p' :=
  change.nodes.nodup_iff.mpr apart

theorem baseNodeAlloc_eq (p : Pool) :
    baseNodeAlloc p = ({ p with baseNodes := p.baseNodes.tail }, p.baseNodes.head?) := by
  unfold baseNodeAlloc
  cases nodes : p.baseNodes with
  | nil =>
      have : p = { p with baseNodes := [] } := by rw [← nodes]
      simp only [List.tail_nil, List.head?_nil]
      rw [← this]
  | cons n rest => rfl

theorem baseNodeDallocIf_eq (p : Pool) (n : Option Nat) :
    baseNodeDallocIf p n = { p with baseNodes := n.toList ++ p.baseNodes } := by
  cases n <;> rfl

variable {c : Config} {p : Pool}

/-! ## `chunk_record` -/

section Record

variable {chunk size : Nat} (zeroed : Bool)

/-- The state in which `chunk_record` enters its locked section. -/
def recordEntry (c : Config) (p : Pool) (chunk size : Nat) : Pool :=
  { p with mem := c.madvise p.mem chunk size, baseNodes := p.baseNodes.tail }

theorem chunkRecord_eq (c : Config) (p : Pool) (chunk size : Nat) (zeroed : Bool) :
    chunkRecord c p chunk size zeroed =
      let recorded := chunkRecordLocked (recordEntry c p chunk size) p.baseNodes.head?
        chunk size zeroed
      { recorded.pool with
        baseNodes := recorded.xprev.toList ++
          (recorded.xnode.toList ++ recorded.pool.baseNodes) } := by
  unfold chunkRecord pagesPurge
  simp only [Bool.not_true, Bool.or_false, baseNodeAlloc_eq, baseNodeDallocIf_eq]
  rfl

theorem recordEntry_trees (trees : FreeTrees c p) : FreeTrees c (recordEntry c p chunk size) :=
  trees.of_edit rfl rfl fun _ _ => rfl

theorem recordEntry_recordable (range : Recordable c p chunk size) :
    Recordable c (recordEntry c p chunk size) chunk size where
  nonempty := range.nonempty
  size_dvd := range.size_dvd
  addr_dvd := range.addr_dvd
  below := range.below
  apart := range.apart

theorem recordEntry_fresh (apart : NodesApart p) :
    ∀ n ∈ p.baseNodes.head?, n ∉ (recordEntry c p chunk size).chunksAd := by
  intro n first
  exact apart.notMem (List.mem_of_mem_head? first)

/-- The bytes outside the range survive the purge. -/
theorem madvise_eq_of_cover_eq_zero {x : Nat} (outside : cover [⟨chunk, size⟩] x = 0) :
    c.madvise p.mem chunk size x = p.mem x := by
  apply c.madvise_outside
  have := Span.ind_spec ⟨chunk, size⟩ x
  simp only [cover_cons, cover_nil] at this outside
  omega

/-- `chunk_record` adds its range to the free set or drops it. -/
theorem chunkRecord_section (trees : FreeTrees c p) (apart : NodesApart p)
    (range : Recordable c p chunk size) :
    PoolSection c p (chunkRecord c p chunk size zeroed) [⟨chunk, size⟩] [] := by
  rw [chunkRecord_eq]
  by_cases leaks : forwardNode (recordEntry c p chunk size) (chunk + size) = none ∧
      p.baseNodes.head? = none
  · obtain ⟨missing, nodes⟩ := leaks
    rw [nodes]
    simp only [chunkRecordLocked_leak zeroed missing, Option.toList_none, List.nil_append]
    have empty : p.baseNodes = [] := List.head?_eq_none_iff.mp nodes
    exact {
      trees := trees.of_edit rfl rfl fun _ _ => rfl
      nodes := by simp [recordEntry, empty]
      dropped := ⟨[⟨chunk, size⟩], rfl, fun x => rfl⟩
      heap := fun _ _ _ => rfl
      mem := fun x _ outside => madvise_eq_of_cover_eq_zero outside
      huge := rfl
      nodeCount := rfl
      baseNextAddr := rfl
      basePastAddr := rfl
      memoryRanges := rfl
      baseChunks := rfl }
  · have change := chunkRecordLocked_section zeroed (recordEntry_trees trees)
      (recordEntry_fresh apart) (recordEntry_recordable range)
      (fun missing nodes => leaks ⟨missing, nodes⟩)
    apply PoolSection.of_tree change
    · cases p.baseNodes <;> simp
    · rw [change.edit.baseNodes, List.append_assoc]
      exact List.perm_append_comm_assoc ..
    · intro x _ outside
      exact madvise_eq_of_cover_eq_zero outside

/-- With a node at hand `chunk_record` drops nothing. -/
theorem chunkRecord_leaked (trees : FreeTrees c p) (apart : NodesApart p)
    (range : Recordable c p chunk size) (available : p.baseNodes ≠ []) :
    (chunkRecord c p chunk size zeroed).leaked = p.leaked := by
  rw [chunkRecord_eq]
  have change := chunkRecordLocked_section zeroed (recordEntry_trees trees)
    (recordEntry_fresh apart) (recordEntry_recordable range)
    (fun _ nodes => available (List.head?_eq_none_iff.mp nodes))
  exact change.edit.leaked

/-- `chunk_record` keeps coalescing complete. -/
theorem chunkRecord_coalesced (trees : FreeTrees c p) (apart : NodesApart p)
    (range : Recordable c p chunk size) (coalesced : Coalesced p) :
    Coalesced (chunkRecord c p chunk size zeroed) := by
  rw [chunkRecord_eq]
  exact chunkRecordLocked_coalesced zeroed (recordEntry_trees trees)
    (recordEntry_fresh apart) (recordEntry_recordable range) coalesced

end Record

end Jemalloc
end Vmem
