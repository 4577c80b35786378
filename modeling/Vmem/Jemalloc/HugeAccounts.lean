import Vmem.Jemalloc.Ownership

/-!
# Huge blocks and the account of a pool

Each of the functions on huge blocks, run to its end, keeps the account: what it
takes from the free set ends up in a huge block, and what it takes from a huge
block ends up in the free set.
-/

namespace Vmem
namespace Jemalloc

variable {c : Config} {usable : Span} {p : Pool} {others : Nat → Nat}

namespace Account

variable {held : List Nat}

theorem fill (account : Account c usable p held others) (addr length : Nat)
    (zero isZeroed : Bool) :
    Account c usable (hugeFill c p addr length zero isZeroed) held others := by
  rw [hugeFill_eq]
  exact account.of_contents

theorem junk (account : Account c usable p held others) (addr length : Nat) :
    Account c usable (hugeDallocJunk c p addr length) held others := by
  rw [hugeDallocJunk_eq]
  exact account.of_contents

theorem takeNode {n : Nat} {rest : List Nat} (account : Account c usable p held others)
    (nodes : p.baseNodes = n :: rest) :
    Account c usable { p with baseNodes := rest } (n :: held) others :=
  account.update (account.ledger.takeNode nodes) account.coalesced rfl le_rfl

theorem giveNode {n : Nat} (account : Account c usable p (n :: held) others) :
    Account c usable (baseNodeDalloc p n) held others :=
  account.update account.ledger.giveNode account.coalesced rfl le_rfl

/-- A range of others lies below the end of the address space. -/
theorem extentValid {node : ExtentNode} (account : Account c usable p held others)
    (valid : ChunkSpan c node.span) (owned : ∀ x, node.span.ind x ≤ others x) :
    ExtentValid c node where
  nonempty := valid.nonempty
  size_dvd := valid.len_dvd
  addr_dvd := valid.lo_dvd
  below := (account.recordable valid owned).below

/-- Enter a range that is in flight as a huge block. -/
theorem hugeLink {n : Nat} {value : ExtentNode}
    (account : Account c usable p (n :: held) fun x => others x + value.span.ind x)
    (valid : ChunkSpan c value.span) :
    Account c usable ((p.setNode n value).hugeInsert n) held others := by
  have extent := account.extentValid valid fun _ => Nat.le_add_left ..
  have absent := account.ledger.fresh.1
  apply account.update (account.ledger.hugeLink extent (Span.ind_le_one usable _)
    fun _ => rfl)
  · exact account.coalesced.setNode absent value
  · rfl
  · exact le_rfl

/-- Change the size of a huge block; the difference goes to or comes from the
others. -/
theorem hugeResize {n newSize : Nat} {others' : Nat → Nat}
    (account : Account c usable p held others) (member : n ∈ p.huge)
    (valid : ExtentValid c { p.node n with size := newSize })
    (balance : ∀ x, others' x + (Span.mk (p.node n).addr newSize).ind x =
      others x + (p.node n).span.ind x) :
    Account c usable (p.setNode n { p.node n with size := newSize }) held others' := by
  have absent := (account.ledger.numbered.of_held (List.mem_append_left held member)).1
  apply account.update (account.ledger.hugeResize member valid balance)
  · exact account.coalesced.setNode absent _
  · rfl
  · exact le_rfl

/-! ## The functions on huge blocks -/

/-- `huge_palloc` keeps the account. -/
theorem palloc {dss : Dss} {alignment : Nat} (outside : Outside c dss usable)
    (account : Account c usable p [] others)
    (power : ∃ k, c.lgChunk ≤ k ∧ k < 64 ∧ alignment = 2 ^ k)
    (arena : Option Nat) (size : Nat) (zero rtreeFails : Bool) :
    Account c usable (hugePalloc c p arena size alignment zero rtreeFails dss).1 [] others := by
  unfold hugePalloc
  by_cases wraps : c.chunkCeiling size = 0
  · simp only [if_pos wraps]
    exact account
  simp only [if_neg wraps]
  have request : Request c (c.chunkCeiling size) alignment := {
    nonempty := Nat.pos_of_ne_zero wraps
    size_dvd := c.dvd_chunkCeiling size
    size_lt := c.chunkCeiling_lt size
    power := power }
  cases arena with
  | none => exact account
  | some arena =>
      cases nodes : p.baseNodes with
      | nil =>
          simp only [baseNodeAlloc, nodes]
          exact account
      | cons n rest =>
          simp only [baseNodeAlloc, nodes, arenaChunkAllocHuge]
          rcases (account.takeNode nodes).allocArena outside request (by simp) 0 zero rtreeFails
            with
            ⟨p', ret, isZeroed, result, allocated⟩ | ⟨p', result, returned, _⟩
          · simp only [result]
            exact (hugeLink allocated.account allocated.valid).fill ..
          · simp only [result]
            exact returned.giveNode

/-- `huge_dalloc` of a live block keeps the account. -/
theorem hugeDalloc {dss : Dss} {ptr n : Nat} (outside : Outside c dss usable)
    (account : Account c usable p [] others) (found : p.hugeSearch ptr = some n) :
    Account c usable (hugeDalloc c p ptr dss) [] others := by
  obtain ⟨member, _⟩ := hugeSearch_some found
  have extent := account.ledger.hugeExtent n member
  have unlinked : Account c usable (p.hugeRemove n) [n]
      fun x => others x + (p.node n).span.ind x :=
    account.update (account.ledger.hugeUnlink member fun _ => rfl) account.coalesced rfl le_rfl
  have junked := unlinked.junk (p.node n).addr (p.node n).size
  obtain ⟨returned, _⟩ := junked.dalloc outside extent.chunkSpan (by simp)
  simp only [Jemalloc.hugeDalloc, found]
  have sameNode : (hugeDallocJunk c (p.hugeRemove n) (p.node n).addr
      (p.node n).size).node = p.node := by
    rw [hugeDallocJunk_eq]
    rfl
  change Account c usable (baseNodeDalloc (arenaChunkDallocHuge c
    (hugeDallocJunk c (p.hugeRemove n) (p.node n).addr (p.node n).size)
    ((hugeDallocJunk c (p.hugeRemove n) (p.node n).addr (p.node n).size).node n).addr
    ((hugeDallocJunk c (p.hugeRemove n) (p.node n).addr (p.node n).size).node n).size dss) n)
    [] others
  rw [sameNode]
  exact returned.giveNode

/-- Shrinking in place gives the excess back. -/
theorem shrink {dss : Dss} {ptr n size : Nat} (outside : Outside c dss usable)
    (account : Account c usable p [] others) (found : p.hugeSearch ptr = some n)
    (positive : c.chunkCeiling size ≠ 0)
    (smaller : c.chunkCeiling size < (p.node n).size) :
    Account c usable (hugeRallocNoMoveShrink c p ptr (p.node n).size size dss).1 [] others := by
  obtain ⟨member, _⟩ := hugeSearch_some found
  have extent := account.ledger.hugeExtent n member
  have below := extent.below
  have newDvd := c.dvd_chunkCeiling size
  generalize newSize_eq : c.chunkCeiling size = newSize at *
  obtain ⟨valid, excess, cut⟩ := extent.cut positive newDvd smaller
  have resized : Account c usable (p.setNode n { p.node n with size := newSize }) []
      fun x => others x +
        (Span.mk ((p.node n).addr + newSize) ((p.node n).size - newSize)).ind x := by
    apply account.hugeResize member valid
    intro x
    have := cut x
    omega
  have oldCeiling : c.chunkCeiling (p.node n).size = (p.node n).size :=
    c.chunkCeiling_eq extent.size_dvd (by omega)
  have addrEq : Word.add (p.node n).addr newSize = (p.node n).addr + newSize :=
    Word.add_eq (by omega)
  have sizeEq : Word.sub (p.node n).size newSize = (p.node n).size - newSize :=
    Word.sub_eq (by omega) (by omega)
  have node : (p.setNode n { p.node n with size := newSize }).node n =
      { p.node n with size := newSize } := Function.update_self ..
  simp only [hugeRallocNoMoveShrink, found, newSize_eq, oldCeiling, node, addrEq, sizeEq]
  exact ((resized.junk _ _).dalloc outside excess (by simp)).1

/-- Growing in place either does nothing to the huge blocks or moves exactly the
new part from the free set into the block. -/
theorem expand {dss : Dss} {ptr n size : Nat} (outside : Outside c dss usable)
    (account : Account c usable p [] others) (found : p.hugeSearch ptr = some n)
    (larger : c.chunkCeiling size ≠ 0 → (p.node n).size < c.chunkCeiling size)
    (zero rtreeFails : Bool) :
    (∃ p', hugeRallocNoMoveExpand c p ptr (p.node n).size size zero rtreeFails dss =
          (p', false) ∧ Account c usable p' [] others) ∨
      ∃ p', hugeRallocNoMoveExpand c p ptr (p.node n).size size zero rtreeFails dss =
          (p', true) ∧ Account c usable p' [] others ∧ HugeSame p p' := by
  obtain ⟨member, starts⟩ := hugeSearch_some found
  have extent := account.ledger.hugeExtent n member
  have below := extent.below
  have nonempty := extent.nonempty
  unfold hugeRallocNoMoveExpand
  by_cases wraps : c.chunkCeiling size = 0
  · exact Or.inr ⟨p, by simp only [if_pos wraps], account, rfl, fun _ _ => rfl⟩
  have grows := larger wraps
  have newDvd := c.dvd_chunkCeiling size
  have newLt := c.chunkCeiling_lt size
  simp only [if_neg wraps, found, arenaChunkAllocHuge]
  generalize c.chunkCeiling size = newSize at *
  have addrEq : Word.add ptr (p.node n).size = ptr + (p.node n).size :=
    Word.add_eq (by omega)
  have sizeEq : Word.sub newSize (p.node n).size = newSize - (p.node n).size :=
    Word.sub_eq (by omega) newLt
  have request : Request c (newSize - (p.node n).size) c.chunksize :=
    Request.of_chunksize (by omega) (Nat.dvd_sub newDvd extent.size_dvd) (by omega)
  rw [addrEq, sizeEq]
  rcases account.allocArena outside request (by simp) (ptr + (p.node n).size) zero rtreeFails with
    ⟨p', ret, isZeroed, result, allocated⟩ | ⟨p', result, returned, same⟩
  · simp only [result]
    refine Or.inl ⟨_, rfl, ?_⟩
    have ret_eq : ret = ptr + (p.node n).size := allocated.wanted (by omega) rfl
    have node := allocated.same.node n member
    have linked : n ∈ p'.huge := allocated.same.huge ▸ member
    have flight := (allocated.account.recordable allocated.valid
      fun _ => Nat.le_add_left ..).below
    have resized : Account c usable (p'.setNode n { p'.node n with size := newSize }) []
        others := by
      apply allocated.account.hugeResize linked
      · rw [node]
        exact {
          nonempty := by
            dsimp only
            omega
          size_dvd := newDvd
          addr_dvd := extent.addr_dvd
          below := by
            dsimp only at flight ⊢
            omega }
      · intro x
        have joined := Span.ind_add (p.node n).addr (p.node n).size
          (newSize - (p.node n).size) x
        have total : (p.node n).size + (newSize - (p.node n).size) = newSize := by omega
        rw [total] at joined
        rw [node, ret_eq, joined, starts, ← starts]
        simp only [ExtentNode.span]
        omega
    exact resized.fill ..
  · simp only [result]
    exact Or.inr ⟨p', rfl, returned, same⟩

/-- `huge_ralloc_no_move` of a live block keeps the account. -/
theorem rallocNoMove {dss : Dss} {ptr n size extra : Nat} (outside : Outside c dss usable)
    (account : Account c usable p [] others) (found : p.hugeSearch ptr = some n)
    (sizeLt : size < Word.modulus)
    (noWrap : extra ≠ 0 → size + extra + c.chunksize ≤ Word.modulus)
    (zero rtreeFails rtreeFailsAgain : Bool) :
    Account c usable (hugeRallocNoMove c p ptr (p.node n).size size extra zero
      rtreeFails rtreeFailsAgain dss).1 [] others := by
  obtain ⟨member, starts⟩ := hugeSearch_some found
  have extent := account.ledger.hugeExtent n member
  have below := extent.below
  have positive := c.chunksize_pos
  have oldCeiling : c.chunkCeiling (p.node n).size = (p.node n).size :=
    c.chunkCeiling_eq extent.size_dvd (by omega)
  unfold hugeRallocNoMove
  rw [oldCeiling]
  split
  · exact account
  split
  · exact account
  next different =>
  split
  · exact account
  next fits =>
  split
  · next smaller => exact account.shrink outside found fits smaller
  next notSmaller =>
  -- neither attempt asks for less than the block has
  have mono := c.chunkCeiling_extra sizeLt noWrap
  generalize Word.add size extra = most at *
  have grows : (p.node n).size < c.chunkCeiling size := by
    by_contra atMost
    exact different ⟨by omega, by omega⟩
  have growsMore : c.chunkCeiling most ≠ 0 →
      (p.node n).size < c.chunkCeiling most := fun _ => by omega
  rcases account.expand outside found growsMore zero rtreeFails with
    ⟨p', result, done⟩ | ⟨p', result, failed, same⟩
  · rw [result]
    exact done
  · rw [result]
    simp only
    split
    · exact failed
    · have node := same.node n member
      have linked : n ∈ p'.huge := same.huge ▸ member
      have startsAgain : (p'.node n).addr = ptr := by rw [node, starts]
      have foundAgain := failed.ledger.hugeSearch_eq linked startsAgain
      have growsAgain : c.chunkCeiling size ≠ 0 →
          (p'.node n).size < c.chunkCeiling size := fun _ => by rw [node]; exact grows
      rw [← node]
      rcases failed.expand outside foundAgain growsAgain zero rtreeFailsAgain with
        ⟨p'', again, done⟩ | ⟨p'', again, done, _⟩
      · rw [again]
        exact done
      · rw [again]
        exact done

end Account

end Jemalloc
end Vmem
