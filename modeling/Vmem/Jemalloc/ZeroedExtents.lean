import Vmem.Jemalloc.PoolSections

/-!
# Zeroed flags

An extent whose `zeroed` flag is set holds only zero bytes.  Recording with the
flag clear and recycling keep this; recording with the flag set keeps it when
the range really is zero.
-/

namespace Vmem
namespace Jemalloc

/-- Free extents that are marked as zeroed hold only zero bytes. -/
def ZeroedSound (p : Pool) : Prop :=
  ∀ n ∈ p.chunksAd, (p.node n).zeroed = true →
    ∀ x, (p.node n).span.Has x → p.mem x = 0

namespace ZeroedSound

variable {p : Pool}

theorem unlink (sound : ZeroedSound p) (n : Nat) : ZeroedSound (unlink p n) :=
  fun m inRest => sound m (OrderedTree.mem_of_mem_remove inRest)

theorem link {n : Nat} {value : ExtentNode} (sound : ZeroedSound p)
    (zero : value.zeroed = true → ∀ x, value.span.Has x → p.mem x = 0) :
    ZeroedSound (link p n value) := by
  intro m inTree
  by_cases isNode : m = n
  · rw [isNode, link_node_self]
    exact zero
  · rw [link_node_of_ne p value isNode]
    exact sound m ((OrderedTree.mem_insert.mp inTree).resolve_left isNode)

theorem relink {n : Nat} {value : ExtentNode} (sound : ZeroedSound p)
    (zero : value.zeroed = true → ∀ x, value.span.Has x → p.mem x = 0) :
    ZeroedSound (relink p n value) := by
  intro m inTree
  by_cases isNode : m = n
  · rw [isNode, relink_node_self]
    exact zero
  · rw [relink_node_of_ne p value isNode]
    exact sound m inTree

/-- Memory may change outside the free extents, and go to zero inside them. -/
theorem of_mem {p' : Pool} (sound : ZeroedSound p)
    (ad : p'.chunksAd = p.chunksAd) (node : p'.node = p.node)
    (mem : ∀ x, 0 < cover p.freeSpans x → p'.mem x = p.mem x ∨ p'.mem x = 0) :
    ZeroedSound p' := by
  intro n inTree marked x inside
  rw [ad] at inTree
  rw [node] at marked inside
  have counted := Pool.ind_le_cover_free inTree x
  rw [Span.ind_eq_one_iff.mpr inside] at counted
  rcases mem x (by omega) with same | zero
  · rw [same]
    exact sound n inTree marked x inside
  · exact zero

end ZeroedSound

variable {c : Config} {p : Pool} {chunk size : Nat} {zeroed : Bool}

theorem coalesceBackward_zeroed (trees : FreeTrees c p) {n : Nat}
    (member : n ∈ p.chunksAd) (starts : (p.node n).addr = chunk) (sound : ZeroedSound p) :
    ZeroedSound (coalesceBackward p n chunk).1 := by
  rcases coalesceBackward_cases trees member starts with
    ⟨prev, prevMember, _, ends, result⟩ | ⟨result, _⟩
  · rw [result]
    apply (sound.unlink prev).relink
    intro marked x inside
    unfold backwardMerge at marked inside
    rw [ExtentNode.has_span] at inside
    simp only [Bool.and_eq_true] at marked inside
    -- the merged span is the previous one followed by the node's
    rcases Nat.lt_or_ge x chunk with before | behind
    · apply sound prev prevMember marked.2 x
      rw [ExtentNode.has_span]
      omega
    · apply sound n member marked.1 x
      rw [ExtentNode.has_span]
      omega
  · rw [result]
    exact sound

theorem chunkRecordLocked_zeroed {xnode : Option Nat} (trees : FreeTrees c p)
    (fresh : ∀ n ∈ xnode, n ∉ p.chunksAd)
    (range : Recordable c p chunk size)
    (zero : zeroed = true → ∀ x, (Span.mk chunk size).Has x → p.mem x = 0)
    (sound : ZeroedSound p) :
    ZeroedSound (chunkRecordLocked p xnode chunk size zeroed).pool := by
  cases found : forwardNode p (chunk + size) with
  | some n =>
      obtain ⟨member, starts⟩ := forwardNode_some found
      have first := recordForward_section trees zeroed range found
      have merged : ZeroedSound (recordForward p n chunk size zeroed) := by
        rw [recordForward_eq_relink]
        apply sound.relink
        intro marked x inside
        rw [ExtentNode.has_span] at inside
        simp only [Bool.and_eq_true] at marked inside
        rcases Nat.lt_or_ge x (chunk + size) with before | behind
        · exact zero marked.2 x ⟨inside.1, before⟩
        · apply sound n member marked.1 x
          rw [ExtentNode.has_span]
          omega
      simp only [chunkRecordLocked, found]
      exact coalesceBackward_zeroed first.trees member
        (recordForward_addr p n chunk size zeroed) merged
  | none =>
      cases xnode with
      | none =>
          rw [chunkRecordLocked_leak zeroed found]
          exact sound
      | some n =>
          have first := recordInsert_section trees zeroed range (fresh n rfl)
          have linked : n ∈ (recordInsert p n chunk size zeroed).chunksAd :=
            OrderedTree.mem_insert.mpr (Or.inl rfl)
          simp only [chunkRecordLocked, found]
          apply coalesceBackward_zeroed first.trees linked
            (recordInsert_addr p n chunk size zeroed)
          rw [recordInsert_eq_link]
          exact sound.link zero

/-- `chunk_record` keeps the flags sound when its own flag is truthful. -/
theorem chunkRecord_zeroed (trees : FreeTrees c p) (apart : NodesApart p)
    (range : Recordable c p chunk size)
    (zero : zeroed = true → ∀ x, (Span.mk chunk size).Has x → p.mem x = 0)
    (sound : ZeroedSound p) :
    ZeroedSound (chunkRecord c p chunk size zeroed) := by
  have purged : ∀ x, (recordEntry c p chunk size).mem x = p.mem x ∨
      (recordEntry c p chunk size).mem x = 0 := fun x => c.madvise_inside ..
  rw [chunkRecord_eq]
  apply chunkRecordLocked_zeroed (recordEntry_trees trees) (recordEntry_fresh apart)
    (recordEntry_recordable range)
  · intro marked x inside
    rcases purged x with same | isZero
    · rw [same]
      exact zero marked x inside
    · exact isZero
  · exact sound.of_mem rfl rfl fun x _ => purged x

end Jemalloc
end Vmem
