import Vmem.Jemalloc.Chunk

/-!
# Validity of the two free trees

Both trees hold the same nodes, each sorted by its own key, and the extents are
nonempty, chunk aligned and disjoint.  Coalescing is complete when no extent
ends where another begins; that is a separate predicate, because it can fail
between two locked sections while validity never does.

The lemmas describe each locked section by what it does to validity, to the
node pointers in hand and to the cover number of the free extents.
-/

namespace Vmem
namespace Jemalloc

/-- A free extent: nonempty, a multiple of the chunk size on a chunk boundary,
and below the end of the address space. -/
structure ExtentValid (c : Config) (e : ExtentNode) : Prop where
  nonempty : 0 < e.size
  size_dvd : c.chunksize ∣ e.size
  addr_dvd : c.chunksize ∣ e.addr
  below : e.addr + e.size < Word.modulus

/-- A span of whole chunks. -/
structure ChunkSpan (c : Config) (span : Span) : Prop where
  nonempty : 0 < span.len
  len_dvd : c.chunksize ∣ span.len
  lo_dvd : c.chunksize ∣ span.lo

theorem ExtentValid.chunkSpan {c : Config} {node : ExtentNode} (valid : ExtentValid c node) :
    ChunkSpan c node.span where
  nonempty := valid.nonempty
  len_dvd := valid.size_dvd
  lo_dvd := valid.addr_dvd

/-- Cutting an extent in two. -/
theorem ExtentValid.cut {c : Config} {node : ExtentNode} {newSize : Nat}
    (valid : ExtentValid c node) (positive : newSize ≠ 0) (divides : c.chunksize ∣ newSize)
    (smaller : newSize < node.size) :
    ExtentValid c { node with size := newSize } ∧
      ChunkSpan c ⟨node.addr + newSize, node.size - newSize⟩ ∧
      ∀ x, node.span.ind x = (Span.mk node.addr newSize).ind x +
        (Span.mk (node.addr + newSize) (node.size - newSize)).ind x := by
  have below := valid.below
  refine ⟨⟨Nat.pos_of_ne_zero positive, divides, valid.addr_dvd, ?_⟩,
    ⟨Nat.sub_pos_of_lt smaller, Nat.dvd_sub valid.size_dvd divides,
      Nat.dvd_add valid.addr_dvd divides⟩, ?_⟩
  · dsimp only
    omega
  · intro x
    rw [← Span.ind_add, Nat.add_sub_cancel' (le_of_lt smaller)]
    rfl

/-- The two free trees are search trees over the same disjoint extents. -/
structure FreeTrees (c : Config) (p : Pool) : Prop where
  sortedAd : OrderedTree.Sorted (fun n => (p.node n).addr) p.chunksAd
  sortedSzad : OrderedTree.Sorted (fun n => (p.node n).szadKey) p.chunksSzad
  same : p.chunksSzad.Perm p.chunksAd
  extent : ∀ n ∈ p.chunksAd, ExtentValid c (p.node n)
  disjoint : ∀ a ∈ p.chunksAd, ∀ b ∈ p.chunksAd,
    (p.node a).addr < (p.node b).addr →
      (p.node a).addr + (p.node a).size ≤ (p.node b).addr

/-- Coalescing is complete: no free extent ends where another begins. -/
def Coalesced (p : Pool) : Prop :=
  ∀ a ∈ p.chunksAd, ∀ b ∈ p.chunksAd,
    (p.node a).addr + (p.node a).size ≠ (p.node b).addr

/-- Coalescing is complete except possibly in front of one node. -/
def CoalescedBut (p : Pool) (n : Nat) : Prop :=
  ∀ a ∈ p.chunksAd, ∀ b ∈ p.chunksAd, b ≠ n →
    (p.node a).addr + (p.node a).size ≠ (p.node b).addr

theorem Coalesced.of_edit {p p' : Pool} (coalesced : Coalesced p)
    (ad : p'.chunksAd = p.chunksAd)
    (node : ∀ n ∈ p.chunksAd, p'.node n = p.node n) : Coalesced p' := by
  unfold Coalesced
  rw [ad]
  intro a aMember b bMember
  rw [node a aMember, node b bMember]
  exact coalesced a aMember b bMember

/-- Writing a node that is not in the free trees leaves their nodes alone. -/
theorem Pool.setNode_of_mem {p : Pool} {n m : Nat} (absent : n ∉ p.chunksAd)
    (member : m ∈ p.chunksAd) (value : ExtentNode) : (p.setNode n value).node m = p.node m := by
  have different : m ≠ n := fun equal => absent (equal ▸ member)
  exact Function.update_of_ne different ..

theorem Coalesced.setNode {p : Pool} {n : Nat} (coalesced : Coalesced p)
    (absent : n ∉ p.chunksAd) (value : ExtentNode) : Coalesced (p.setNode n value) :=
  coalesced.of_edit rfl fun _ member => Pool.setNode_of_mem absent member value

namespace Pool

/-- The free extents of a pool as spans, in address order. -/
def freeSpans (p : Pool) : List Span := p.chunksAd.map fun n => (p.node n).span

/-- A free extent is covered by the free set. -/
theorem ind_le_cover_free {p : Pool} {n : Nat} (member : n ∈ p.chunksAd) (x : Nat) :
    (p.node n).span.ind x ≤ cover p.freeSpans x :=
  ind_le_cover (List.mem_map_of_mem (f := fun m => (p.node m).span) member) x

/-- The huge blocks of a pool as spans, in address order. -/
def hugeSpans (p : Pool) : List Span := p.huge.map fun n => (p.node n).span

end Pool

/-- Two states that differ only in the free trees and the node heap. -/
structure TreeEdit (p p' : Pool) : Prop where
  huge : p'.huge = p.huge
  baseNodes : p'.baseNodes = p.baseNodes
  nodeCount : p'.nodeCount = p.nodeCount
  baseNextAddr : p'.baseNextAddr = p.baseNextAddr
  basePastAddr : p'.basePastAddr = p.basePastAddr
  memoryRanges : p'.memoryRanges = p.memoryRanges
  nchunks : p'.nchunks = p.nchunks
  curchunks : p'.curchunks = p.curchunks
  highchunks : p'.highchunks = p.highchunks
  mem : p'.mem = p.mem
  baseChunks : p'.baseChunks = p.baseChunks
  leaked : p'.leaked = p.leaked

namespace TreeEdit

theorem refl (p : Pool) : TreeEdit p p := by
  constructor <;> rfl

theorem trans {p p' p'' : Pool}
    (first : TreeEdit p p') (second : TreeEdit p' p'') : TreeEdit p p'' where
  huge := second.huge.trans first.huge
  baseNodes := second.baseNodes.trans first.baseNodes
  nodeCount := second.nodeCount.trans first.nodeCount
  baseNextAddr := second.baseNextAddr.trans first.baseNextAddr
  basePastAddr := second.basePastAddr.trans first.basePastAddr
  memoryRanges := second.memoryRanges.trans first.memoryRanges
  nchunks := second.nchunks.trans first.nchunks
  curchunks := second.curchunks.trans first.curchunks
  highchunks := second.highchunks.trans first.highchunks
  mem := second.mem.trans first.mem
  baseChunks := second.baseChunks.trans first.baseChunks
  leaked := second.leaked.trans first.leaked

end TreeEdit

/-! ## Cover numbers and node edits -/

/-- Editing one linked node exchanges its span in the cover number. -/
theorem cover_map_update
    (heap : Nat → ExtentNode)
    {tree : List Nat}
    {n : Nat}
    (nodup : tree.Nodup)
    (member : n ∈ tree)
    (value : ExtentNode)
    (x : Nat) :
    cover (tree.map fun m => (Function.update heap n value m).span) x +
        (heap n).span.ind x =
      cover (tree.map fun m => (heap m).span) x + value.span.ind x := by
  have perm := List.perm_cons_erase member
  have absent : n ∉ tree.erase n := fun inErase => (nodup.mem_erase_iff.mp inErase).1 rfl
  have unchanged :
      (tree.erase n).map (fun m => (Function.update heap n value m).span) =
        (tree.erase n).map fun m => (heap m).span := by
    apply List.map_congr_left
    intro m inErase
    have different : m ≠ n := fun equal => absent (equal ▸ inErase)
    rw [Function.update_of_ne different]
  rw [cover_perm (perm.map fun m => (Function.update heap n value m).span),
    cover_perm (perm.map fun m => (heap m).span), List.map_cons, List.map_cons,
    cover_cons, cover_cons, unchanged, Function.update_self]
  omega

/-- Editing a node outside a tree leaves its cover number alone. -/
theorem cover_map_update_of_notMem
    (heap : Nat → ExtentNode)
    {tree : List Nat}
    {n : Nat}
    (absent : n ∉ tree)
    (value : ExtentNode)
    (x : Nat) :
    cover (tree.map fun m => (Function.update heap n value m).span) x =
      cover (tree.map fun m => (heap m).span) x := by
  have unchanged :
      tree.map (fun m => (Function.update heap n value m).span) =
        tree.map fun m => (heap m).span := by
    apply List.map_congr_left
    intro m member
    have different : m ≠ n := fun equal => absent (equal ▸ member)
    rw [Function.update_of_ne different]
  rw [unchanged]

namespace FreeTrees

variable {c : Config} {p : Pool}

theorem nodupAd (trees : FreeTrees c p) : p.chunksAd.Nodup := trees.sortedAd.nodup

theorem nodupSzad (trees : FreeTrees c p) : p.chunksSzad.Nodup := trees.sortedSzad.nodup

theorem mem_szad (trees : FreeTrees c p) {n : Nat} :
    n ∈ p.chunksSzad ↔ n ∈ p.chunksAd :=
  trees.same.mem_iff

/-- Linked nodes with the same address are the same node. -/
theorem eq_of_addr (trees : FreeTrees c p) {a b : Nat}
    (aMember : a ∈ p.chunksAd) (bMember : b ∈ p.chunksAd)
    (equal : (p.node a).addr = (p.node b).addr) : a = b :=
  trees.sortedAd.key_injective aMember bMember equal

/-- Free extents cover no address twice. -/
theorem cover_le_one (trees : FreeTrees c p) (x : Nat) : cover p.freeSpans x ≤ 1 := by
  apply cover_le_one_of_apart
  unfold Pool.freeSpans
  rw [List.pairwise_map]
  exact trees.sortedAd.imp_of_mem fun {a b} aMember bMember less =>
    Or.inl (trees.disjoint a aMember b bMember less)

/-- The trees only look at linked nodes. -/
theorem of_edit {p' : Pool}
    (trees : FreeTrees c p)
    (ad : p'.chunksAd = p.chunksAd)
    (szad : p'.chunksSzad = p.chunksSzad)
    (node : ∀ n ∈ p.chunksAd, p'.node n = p.node n) :
    FreeTrees c p' where
  sortedAd := by
    rw [ad]
    exact trees.sortedAd.congr fun n member => by rw [node n member]
  sortedSzad := by
    rw [szad]
    exact trees.sortedSzad.congr fun n member => by
      rw [node n (trees.mem_szad.mp member)]
  same := by
    rw [ad, szad]
    exact trees.same
  extent := by
    rw [ad]
    intro n member
    rw [node n member]
    exact trees.extent n member
  disjoint := by
    rw [ad]
    intro a aMember b bMember
    rw [node a aMember, node b bMember]
    exact trees.disjoint a aMember b bMember

end FreeTrees

/-- A span that meets no free extent lies before or behind each of them. -/
theorem apart_of_cover_eq_zero
    {p : Pool}
    {chunk size : Nat}
    (nonempty : 0 < size)
    (valid : ∀ n ∈ p.chunksAd, 0 < (p.node n).size)
    (free : ∀ x, (Span.mk chunk size).Has x → cover p.freeSpans x = 0) :
    ∀ n ∈ p.chunksAd,
      (p.node n).addr + (p.node n).size ≤ chunk ∨ chunk + size ≤ (p.node n).addr := by
  intro n member
  by_contra overlap
  have positive := valid n member
  -- the larger of the two starts would be a common point
  obtain ⟨x, x_eq⟩ : ∃ x, x = max chunk (p.node n).addr := ⟨_, rfl⟩
  have inChunk : (Span.mk chunk size).Has x := by
    rw [Span.has_mk]
    omega
  have inNode : (p.node n).span.Has x := by
    rw [ExtentNode.has_span]
    omega
  have counted := Pool.ind_le_cover_free member x
  rw [Span.ind_eq_one_iff.mpr inNode] at counted
  have := free x inChunk
  omega

/-- A range that can be handed to `chunk_record`: nonempty, chunk aligned, and
apart from every free extent. -/
structure Recordable (c : Config) (p : Pool) (chunk size : Nat) : Prop where
  nonempty : 0 < size
  size_dvd : c.chunksize ∣ size
  addr_dvd : c.chunksize ∣ chunk
  below : chunk + size < Word.modulus
  apart : ∀ m ∈ p.chunksAd,
    (p.node m).addr + (p.node m).size ≤ chunk ∨ chunk + size ≤ (p.node m).addr

/-- Being apart is having cover number zero on the range. -/
theorem Recordable.of_cover {c : Config} {p : Pool} {chunk size : Nat}
    (trees : FreeTrees c p)
    (nonempty : 0 < size)
    (size_dvd : c.chunksize ∣ size)
    (addr_dvd : c.chunksize ∣ chunk)
    (below : chunk + size < Word.modulus)
    (free : ∀ x, (Span.mk chunk size).Has x → cover p.freeSpans x = 0) :
    Recordable c p chunk size where
  nonempty := nonempty
  size_dvd := size_dvd
  addr_dvd := addr_dvd
  below := below
  apart := apart_of_cover_eq_zero nonempty
    (fun n member => (trees.extent n member).nonempty) free

end Jemalloc
end Vmem
