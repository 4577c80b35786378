import Vmem.Jemalloc.HugeThreads

/-!
# What one step of a thread does to the accounts

A thread holds nodes and a range of addresses while it stands in the middle of a
call, and it relies on the node of a block it is about to expand.  One step
moves these between the thread and the pool, and leaves the blocks of other
threads alone.
-/

namespace Vmem
namespace Jemalloc

/-! ## What a thread has -/

namespace AllocCont

/-- Nodes in hand while chunks are allocated. -/
def held : AllocCont → List Nat
  | .palloc n _ _ _ => [n]
  | .expand .. => []

/-- Addresses of the blocks a thread works on. -/
def busy : AllocCont → List Nat
  | .palloc .. => []
  | .expand _ ptr _ _ _ _ => [ptr]

end AllocCont

namespace DallocCont

def held : DallocCont → List Nat
  | .allocFailed k => k.held
  | .hugeDalloc n => [n]
  | .shrink => []

def busy : DallocCont → List Nat
  | .allocFailed k => k.busy
  | .hugeDalloc _ => []
  | .shrink => []

end DallocCont

namespace Pc

/-- Nodes in the hands of a thread. -/
def held : Pc → List Nat
  | .idle => []
  | .pallocNode .. => []
  | .expandSearch .. => []
  | .recycle _ _ _ _ k => k.held
  | .recycleNode _ _ _ _ _ k => k.held
  | .recycleTrail n _ _ _ _ _ k => n :: k.held
  | .recycleDalloc n _ _ _ _ k => n :: k.held
  | .register _ _ _ k => k.held
  | .link n .. => [n]
  | .resize .. => []
  | .dalloc _ _ k => k.held
  | .recordNode _ _ k => k.held
  | .record xnode _ _ _ k => xnode.toList ++ k.held
  | .recordDone nodes k => nodes ++ k.held
  | .giveNode n => [n]

/-- The private range of a thread. -/
def flight : Pc → List Span
  | .recycleNode ret size trailsize _ _ _ => [⟨ret, size⟩, ⟨ret + size, trailsize⟩]
  | .recycleTrail _ ret size trailsize _ _ _ => [⟨ret, size⟩, ⟨ret + size, trailsize⟩]
  | .recycleDalloc _ ret size _ _ _ => [⟨ret, size⟩]
  | .register ret size _ _ => [⟨ret, size⟩]
  | .link _ _ ret csize _ _ => [⟨ret, csize⟩]
  | .resize _ ptr oldsize csize _ _ => [⟨ptr + oldsize, csize - oldsize⟩]
  | .dalloc chunk size _ => [⟨chunk, size⟩]
  | .recordNode chunk size _ => [⟨chunk, size⟩]
  | .record _ chunk size _ _ => [⟨chunk, size⟩]
  | _ => []

/-- Addresses of the blocks a thread works on. -/
def busy : Pc → List Nat
  | .expandSearch ptr .. => [ptr]
  | .recycle _ _ _ _ k => k.busy
  | .recycleNode _ _ _ _ _ k => k.busy
  | .recycleTrail _ _ _ _ _ _ k => k.busy
  | .recycleDalloc _ _ _ _ _ k => k.busy
  | .register _ _ _ k => k.busy
  | .resize _ ptr .. => [ptr]
  | .dalloc _ _ k => k.busy
  | .recordNode _ _ k => k.busy
  | .record _ _ _ _ k => k.busy
  | .recordDone _ k => k.busy
  | _ => []

end Pc

/-! ## What a thread relies on -/

/-- A node of the tree of huge blocks with its address and size. -/
structure Block (p : Pool) (n ptr size : Nat) : Prop where
  member : n ∈ p.huge
  addr : (p.node n).addr = ptr
  size : (p.node n).size = size

/-- A larger size, unless it wraps. -/
def Grows (c : Config) (oldsize size : Nat) : Prop :=
  c.chunkCeiling size = 0 ∨ oldsize < c.chunkCeiling size

/-- What an allocation in progress relies on. -/
def AllocCont.Valid (c : Config) (p : Pool) (size : Nat) : AllocCont → Prop
  | .palloc _ _ csize _ => size = csize
  | .expand n ptr oldsize csize _ retry =>
      Block p n ptr oldsize ∧ oldsize < csize ∧ c.chunksize ∣ csize ∧ csize < Word.modulus ∧
        size = csize - oldsize ∧ ∀ other ∈ retry, Grows c oldsize other

/-- Where the chunks have to be. -/
def AllocCont.At (ret : Nat) : AllocCont → Prop
  | .palloc .. => True
  | .expand _ ptr oldsize _ _ _ => ret = ptr + oldsize

def DallocCont.Valid (c : Config) (p : Pool) : DallocCont → Prop
  | .allocFailed k => ∃ size, k.Valid c p size
  | .hugeDalloc _ => True
  | .shrink => True

/-- What a thread relies on. -/
def Pc.Valid (c : Config) (p : Pool) : Pc → Prop
  | .idle => True
  | .pallocNode _ csize alignment _ => Request c csize alignment
  | .expandSearch ptr oldsize size _ retry =>
      (∃ n, Block p n ptr oldsize) ∧ Grows c oldsize size ∧
        ∀ other ∈ retry, Grows c oldsize other
  | .recycle newAddr size alignment _ k =>
      Request c size alignment ∧ k.Valid c p size ∧
        (k.busy ≠ [] → newAddr ≠ 0 ∧ alignment = c.chunksize ∧ k.At newAddr)
  | .recycleNode ret size trailsize _ _ k =>
      ChunkSpan c ⟨ret, size⟩ ∧ ChunkSpan c ⟨ret + size, trailsize⟩ ∧ k.Valid c p size ∧
        k.At ret
  | .recycleTrail _ ret size trailsize _ _ k =>
      ChunkSpan c ⟨ret, size⟩ ∧ ChunkSpan c ⟨ret + size, trailsize⟩ ∧ k.Valid c p size ∧
        k.At ret
  | .recycleDalloc _ ret size _ _ k => ChunkSpan c ⟨ret, size⟩ ∧ k.Valid c p size ∧ k.At ret
  | .register ret size _ k => ChunkSpan c ⟨ret, size⟩ ∧ k.Valid c p size ∧ k.At ret
  | .link _ _ ret csize _ _ => ChunkSpan c ⟨ret, csize⟩
  | .resize n ptr oldsize csize _ _ =>
      Block p n ptr oldsize ∧ oldsize < csize ∧ c.chunksize ∣ csize
  | .dalloc chunk size k => ChunkSpan c ⟨chunk, size⟩ ∧ k.Valid c p
  | .recordNode chunk size k => ChunkSpan c ⟨chunk, size⟩ ∧ k.Valid c p
  | .record _ chunk size _ k => ChunkSpan c ⟨chunk, size⟩ ∧ k.Valid c p
  | .recordDone _ k => k.Valid c p
  | .giveNode _ => True

section Kept

variable {c : Config} {p p' : Pool}

/-- The blocks at some addresses are still there. -/
def Kept (p p' : Pool) (busy : List Nat) : Prop :=
  ∀ n ∈ p.huge, (p.node n).addr ∈ busy → n ∈ p'.huge ∧ p'.node n = p.node n

theorem HugeSame.kept (same : HugeSame p p') (busy : List Nat) : Kept p p' busy := by
  intro n member _
  exact ⟨same.huge ▸ member, same.node n member⟩

theorem Block.of_kept {n ptr size : Nat} {busy : List Nat} (block : Block p n ptr size)
    (kept : Kept p p' busy) (works : ptr ∈ busy) : Block p' n ptr size := by
  obtain ⟨member, same⟩ := kept n block.member (block.addr ▸ works)
  exact ⟨member, by rw [same, block.addr], by rw [same, block.size]⟩

theorem AllocCont.Valid.of_kept {size : Nat} {k : AllocCont} (valid : k.Valid c p size)
    (kept : Kept p p' k.busy) : k.Valid c p' size := by
  cases k with
  | palloc n arena csize zero => exact valid
  | expand n ptr oldsize csize zero retry =>
      obtain ⟨block, rest⟩ := valid
      exact ⟨block.of_kept kept List.mem_cons_self, rest⟩

theorem DallocCont.Valid.of_kept {k : DallocCont} (valid : k.Valid c p)
    (kept : Kept p p' k.busy) : k.Valid c p' := by
  cases k with
  | allocFailed k =>
      obtain ⟨size, valid⟩ := valid
      exact ⟨size, valid.of_kept kept⟩
  | hugeDalloc n => trivial
  | shrink => trivial

/-- What a thread relies on stays true while its blocks are left alone. -/
theorem Pc.Valid.of_kept {pc : Pc} (valid : pc.Valid c p) (kept : Kept p p' pc.busy) :
    pc.Valid c p' := by
  cases pc with
  | idle => trivial
  | pallocNode arena csize alignment zero => exact valid
  | expandSearch ptr oldsize size zero retry =>
      obtain ⟨⟨n, block⟩, rest⟩ := valid
      exact ⟨⟨n, block.of_kept kept List.mem_cons_self⟩, rest⟩
  | recycle newAddr size alignment zero k =>
      exact ⟨valid.1, valid.2.1.of_kept kept, valid.2.2⟩
  | recycleNode ret size trailsize zero zeroed k =>
      exact ⟨valid.1, valid.2.1, valid.2.2.1.of_kept kept, valid.2.2.2⟩
  | recycleTrail n ret size trailsize zero zeroed k =>
      exact ⟨valid.1, valid.2.1, valid.2.2.1.of_kept kept, valid.2.2.2⟩
  | recycleDalloc n ret size zero zeroed k =>
      exact ⟨valid.1, valid.2.1.of_kept kept, valid.2.2⟩
  | register ret size isZeroed k => exact ⟨valid.1, valid.2.1.of_kept kept, valid.2.2⟩
  | link n arena ret csize zero isZeroed => exact valid
  | resize n ptr oldsize csize zero isZeroed =>
      exact ⟨valid.1.of_kept kept List.mem_cons_self, valid.2⟩
  | dalloc chunk size k => exact ⟨valid.1, valid.2.of_kept kept⟩
  | recordNode chunk size k => exact ⟨valid.1, valid.2.of_kept kept⟩
  | record xnode chunk size zeroed k => exact ⟨valid.1, valid.2.of_kept kept⟩
  | recordDone nodes k => exact DallocCont.Valid.of_kept valid kept
  | giveNode n => trivial

end Kept

/-! ## One step -/

/-- The accounts of a pool while one thread stands at `pc`; `held` and `others`
belong to the other threads. -/
def Owned (c : Config) (bound : Nat → Nat) (held : List Nat) (others : Nat → Nat)
    (p : Pool) (pc : Pc) : Prop :=
  Ledger c bound p (pc.held ++ held) fun x => cover pc.flight x + others x

/-- What one step of a thread that works on the given blocks does. -/
structure Moved (c : Config) (bound : Nat → Nat) (held : List Nat) (others : Nat → Nat)
    (p : Pool) (works : List Nat) (next : Pool × Pc) : Prop where
  owned : Owned c bound held others next.1 next.2
  valid : next.2.Valid c next.1
  busy : next.2.busy = works ∨ next.2.busy = []
  frame : ∀ n ∈ p.huge, (p.node n).addr ∉ works →
    n ∈ next.1.huge ∧ next.1.node n = p.node n

section Steps

variable {c : Config} {bound : Nat → Nat} {held : List Nat} {others : Nat → Nat}
  {p p' : Pool} {pc pc' : Pc} {works : List Nat}

/-- A step that leaves all huge blocks alone. -/
theorem Moved.of_same (owned : Owned c bound held others p' pc') (same : HugeSame p p')
    (valid : pc'.Valid c p) (busy : pc'.busy = works ∨ pc'.busy = []) :
    Moved c bound held others p works (p', pc') where
  owned := owned
  valid := valid.of_kept (same.kept _)
  busy := busy
  frame := fun n member _ => ⟨same.huge ▸ member, same.node n member⟩

theorem HugeSame.refl (p : Pool) : HugeSame p p := ⟨rfl, fun _ _ => rfl⟩

theorem nodeAlloc_cases (p : Pool) (fails : Bool) :
    nodeAlloc p fails = (p, none) ∨
      ∃ n rest, p.baseNodes = n :: rest ∧
        nodeAlloc p fails = ({ p with baseNodes := rest }, some n) := by
  unfold nodeAlloc
  cases fails with
  | true => exact Or.inl rfl
  | false =>
      cases nodes : p.baseNodes with
      | nil => exact Or.inl (by simp [baseNodeAlloc, nodes])
      | cons n rest => exact Or.inr ⟨n, rest, rfl, by simp [baseNodeAlloc, nodes]⟩

/-! ### Failing and returning -/

theorem expandFailed_valid {ptr oldsize : Nat} (zero : Bool) {retry : Option Nat}
    (block : ∃ n, Block p n ptr oldsize) (grows : ∀ other ∈ retry, Grows c oldsize other) :
    (expandFailed ptr oldsize zero retry).Valid c p := by
  cases retry with
  | none => trivial
  | some size => exact ⟨block, grows size rfl, fun _ none => absurd none (by simp)⟩

theorem expandFailed_busy (ptr oldsize : Nat) (zero : Bool) (retry : Option Nat) :
    (expandFailed ptr oldsize zero retry).busy = [ptr] ∨
      (expandFailed ptr oldsize zero retry).busy = [] := by
  cases retry with
  | none => exact Or.inr rfl
  | some size => exact Or.inl rfl

theorem expandFailed_flight (ptr oldsize : Nat) (zero : Bool) (retry : Option Nat) :
    (expandFailed ptr oldsize zero retry).flight = [] ∧
      (expandFailed ptr oldsize zero retry).held = [] := by
  cases retry with
  | none => exact ⟨rfl, rfl⟩
  | some size => exact ⟨rfl, rfl⟩

/-- A failed allocation leaves the thread its nodes and no range. -/
theorem AllocCont.failed_has (k : AllocCont) : k.failed.flight = [] ∧ k.failed.held = k.held := by
  cases k with
  | palloc n arena csize zero => exact ⟨rfl, rfl⟩
  | expand n ptr oldsize csize zero retry => exact expandFailed_flight ptr oldsize zero retry

theorem AllocCont.failed_busy (k : AllocCont) :
    k.failed.busy = k.busy ∨ k.failed.busy = [] := by
  cases k with
  | palloc n arena csize zero => exact Or.inr rfl
  | expand n ptr oldsize csize zero retry => exact expandFailed_busy ptr oldsize zero retry

theorem AllocCont.failed_valid {k : AllocCont} {size : Nat} (valid : k.Valid c p size) :
    k.failed.Valid c p := by
  cases k with
  | palloc n arena csize zero => trivial
  | expand n ptr oldsize csize zero retry =>
      obtain ⟨block, _, _, _, _, grows⟩ := valid
      exact expandFailed_valid zero ⟨n, block⟩ grows

theorem DallocCont.resume_has (k : DallocCont) :
    k.resume.flight = [] ∧ k.resume.held = k.held := by
  cases k with
  | allocFailed k => exact k.failed_has
  | hugeDalloc n => exact ⟨rfl, rfl⟩
  | shrink => exact ⟨rfl, rfl⟩

theorem DallocCont.resume_busy (k : DallocCont) :
    k.resume.busy = k.busy ∨ k.resume.busy = [] := by
  cases k with
  | allocFailed k => exact k.failed_busy
  | hugeDalloc n => exact Or.inr rfl
  | shrink => exact Or.inr rfl

theorem DallocCont.resume_valid {k : DallocCont} (valid : k.Valid c p) :
    k.resume.Valid c p := by
  cases k with
  | allocFailed k =>
      obtain ⟨size, valid⟩ := valid
      exact AllocCont.failed_valid valid
  | hugeDalloc n => trivial
  | shrink => trivial

/-- The accounts when a thread goes on without a range. -/
theorem Owned.of_has {nodes : List Nat} (ledger : Ledger c bound p (nodes ++ held) others)
    (has : pc.flight = [] ∧ pc.held = nodes) : Owned c bound held others p pc := by
  unfold Owned
  rw [has.1, has.2]
  exact ledger.of_others fun x => by rw [cover_nil, Nat.zero_add]

theorem Owned.idle (ledger : Ledger c bound p held others) :
    Owned c bound held others p .idle :=
  Owned.of_has (show Ledger c bound p ([] ++ held) others from ledger) ⟨rfl, rfl⟩

/-- The accounts of a thread without a range. -/
theorem Owned.ledger {nodes : List Nat} (owned : Owned c bound held others p pc)
    (has : pc.flight = [] ∧ pc.held = nodes) : Ledger c bound p (nodes ++ held) others := by
  unfold Owned at owned
  rw [has.1, has.2] at owned
  exact owned.of_others fun x => by rw [cover_nil, Nat.zero_add]

/-- `chunk_recycle` returns with its range in flight. -/
theorem recycleReturn_moved {ret size : Nat} {zero zeroed : Bool} {k : AllocCont}
    (ledger : Ledger c bound p' (k.held ++ held) fun x => cover [⟨ret, size⟩] x + others x)
    (same : HugeSame p p') (whole : ChunkSpan c ⟨ret, size⟩) (cont : k.Valid c p size)
    (here : k.At ret) :
    Moved c bound held others p k.busy (recycleReturn p' ret size zero zeroed k) := by
  unfold recycleReturn
  rw [chunkRecycleZero_eq]
  exact Moved.of_same (Ledger.of_contents ledger) ⟨same.huge, same.node⟩
    ⟨whole, cont, here⟩ (Or.inl rfl)

/-! ### Allocating chunks -/

/-- One step from `pc` succeeds and does what `Moved` says. -/
def Moves (c : Config) (bound : Nat → Nat) (held : List Nat) (others : Nat → Nat)
    (p : Pool) (fails : Bool) (pc : Pc) : Prop :=
  ∃ next, step c p fails pc = some next ∧ Moved c bound held others p pc.busy next

theorem moves_pallocNode {arena csize alignment : Nat} {zero : Bool} (fails : Bool)
    (owned : Owned c bound held others p (.pallocNode arena csize alignment zero))
    (request : Request c csize alignment) :
    Moves c bound held others p fails (.pallocNode arena csize alignment zero) := by
  have ledger := owned.ledger ⟨rfl, rfl⟩
  rcases nodeAlloc_cases p fails with result | ⟨n, rest, nodes, result⟩
  · refine ⟨(p, .idle), by simp only [step, result], ?_⟩
    exact Moved.of_same (Owned.of_has ledger ⟨rfl, rfl⟩) (HugeSame.refl p) trivial (Or.inr rfl)
  · refine ⟨_, by simp only [step, result]; rfl, ?_⟩
    refine Moved.of_same (Owned.of_has (ledger.takeNode nodes) ⟨rfl, rfl⟩)
      ⟨rfl, fun _ _ => rfl⟩ ⟨request, rfl, ?_⟩ (Or.inl rfl)
    exact fun works => absurd rfl works

theorem moves_expandSearch {ptr oldsize size : Nat} {zero : Bool} {retry : Option Nat}
    (fails : Bool) (owned : Owned c bound held others p (.expandSearch ptr oldsize size zero retry))
    (valid : (Pc.expandSearch ptr oldsize size zero retry).Valid c p) :
    Moves c bound held others p fails (.expandSearch ptr oldsize size zero retry) := by
  obtain ⟨⟨n, block⟩, grows, retryGrows⟩ := valid
  have ledger := owned.ledger ⟨rfl, rfl⟩
  by_cases wraps : c.chunkCeiling size = 0
  · refine ⟨(p, expandFailed ptr oldsize zero retry), by simp only [step, if_pos wraps], ?_⟩
    exact Moved.of_same (Owned.of_has ledger (expandFailed_flight ptr oldsize zero retry))
      (HugeSame.refl p) (expandFailed_valid zero ⟨n, block⟩ retryGrows)
      (expandFailed_busy ptr oldsize zero retry)
  · have found : p.hugeSearch ptr = some n := ledger.hugeSearch_eq block.member block.addr
    have larger := grows.resolve_left wraps
    have extent := ledger.hugeExtent n block.member
    have nonempty := extent.nonempty
    have below := extent.below
    have small := c.chunkCeiling_lt size
    have oldDvd := extent.size_dvd
    rw [block.size] at nonempty below oldDvd
    rw [block.addr] at below
    have start : Word.add ptr oldsize = ptr + oldsize := Word.add_eq below
    have length : Word.sub (c.chunkCeiling size) oldsize = c.chunkCeiling size - oldsize :=
      Word.sub_eq (le_of_lt larger) small
    refine ⟨_, by simp only [step, if_neg wraps, found]; rfl, ?_⟩
    rw [start, length]
    refine Moved.of_same (Owned.of_has ledger ⟨rfl, rfl⟩) (HugeSame.refl p) ⟨?_, ?_, ?_⟩
      (Or.inl rfl)
    · apply Request.of_chunksize
      · omega
      · exact Nat.dvd_sub (c.dvd_chunkCeiling size) oldDvd
      · omega
    · exact ⟨block, larger, c.dvd_chunkCeiling size, small, rfl, retryGrows⟩
    · exact fun _ => ⟨by omega, rfl, rfl⟩

/-- The continuation of an allocation is content with the range it gets. -/
theorem AllocCont.at_of_taken {k : AllocCont} {newAddr size alignment n lead : Nat}
    {taken : Taken} (source : TakenFrom c p newAddr size alignment taken n lead)
    (wants : k.busy ≠ [] → newAddr ≠ 0 ∧ alignment = c.chunksize ∧ k.At newAddr) :
    k.At taken.ret := by
  cases k with
  | palloc n arena csize zero => trivial
  | expand n ptr oldsize csize zero retry =>
      obtain ⟨given, rfl, here⟩ := wants (List.cons_ne_nil _ _)
      rw [source.ret_eq given]
      exact here

/-- The range of a successful search is whole chunks. -/
theorem TakenFrom.chunkSpan {newAddr size alignment n lead : Nat} {taken : Taken}
    (source : TakenFrom c p newAddr size alignment taken n lead)
    (request : Request c size alignment) : ChunkSpan c ⟨taken.ret, size⟩ :=
  ⟨request.nonempty, request.size_dvd, source.ret_dvd request⟩

/-- `chunk_recycle` with its extent unlinked: the range is in flight, and so is
the trailing space if there is no node for it. -/
theorem recycleTaken_moved {newAddr size alignment n lead : Nat} {taken : Taken} {zero : Bool}
    {k : AllocCont} (source : TakenFrom c p newAddr size alignment taken n lead)
    (ledger : Ledger c bound p (k.held ++ held) others) (request : Request c size alignment)
    (cont : k.Valid c p size) (here : k.At taken.ret) :
    Moved c bound held others p k.busy (recycleTaken taken size zero k) := by
  have trees := ledger.trees
  have take := source.take_section trees
  have whole := source.chunkSpan request
  have trailStart : Word.add taken.ret size = taken.ret + size :=
    Word.add_eq (by have := source.end_lt trees; omega)
  have nothing : Ledger c bound p ([] ++ (k.held ++ held)) others := ledger
  have same : HugeSame p taken.pool := nothing.hugeSame take
  unfold recycleTaken
  simp only [trailStart]
  by_cases trails : taken.trailsize ≠ 0
  · rw [if_pos trails]
    have trailSpan : ChunkSpan c ⟨taken.ret + size, taken.trailsize⟩ :=
      ⟨Nat.pos_of_ne_zero trails, source.trail_dvd,
        Nat.dvd_add (source.ret_dvd request) request.size_dvd⟩
    rcases source.outcome with ⟨_, node, pool_eq⟩ | ⟨_, node, _⟩
    · -- no leading space: the node of the extent takes the trailing space
      have fresh : n ∉ taken.pool.chunksAd := by
        rw [pool_eq]
        exact fun inRest => ((OrderedTree.mem_remove trees.nodupAd).mp inRest).1 rfl
      have change := source.trail_section trees request trails fresh
      rw [node] at change
      have back := change.return_node source.member
      simp only [node]
      refine recycleReturn_moved (nothing.treeSection back ?_) (nothing.hugeSame back) whole
        cont here
      intro x
      rw [cover_nil, Nat.add_zero, Nat.add_comm]
    · rw [node] at take
      simp only [node]
      refine Moved.of_same (nothing.treeSection take ?_) same ⟨whole, trailSpan, cont, here⟩
        (Or.inl rfl)
      intro x
      have cut := Span.ind_add taken.ret size taken.trailsize x
      simp only [Pc.flight, cover_cons, cover_nil]
      omega
  · rw [if_neg trails]
    rw [not_not.mp trails, Nat.add_zero] at take
    rcases source.outcome with ⟨_, node, _⟩ | ⟨_, node, _⟩
    · rw [node] at take
      simp only [node]
      refine Moved.of_same (nothing.treeSection take ?_) same ⟨whole, cont, here⟩
        (Or.inl rfl)
      intro x
      rw [cover_nil, Nat.add_zero, Nat.add_comm]
      rfl
    · rw [node] at take
      simp only [node]
      refine recycleReturn_moved (nothing.treeSection take ?_) same whole cont here
      intro x
      rw [cover_nil, Nat.add_zero, Nat.add_comm]

theorem moves_recycle {newAddr size alignment : Nat} {zero : Bool} {k : AllocCont}
    (fails : Bool) (owned : Owned c bound held others p (.recycle newAddr size alignment zero k))
    (valid : (Pc.recycle newAddr size alignment zero k).Valid c p) :
    Moves c bound held others p fails (.recycle newAddr size alignment zero k) := by
  obtain ⟨request, cont, wants⟩ := valid
  have ledger := owned.ledger ⟨rfl, rfl⟩
  have failing : Moved c bound held others p k.busy (p, k.failed) :=
    Moved.of_same (Owned.of_has ledger k.failed_has) (HugeSame.refl p)
      (AllocCont.failed_valid cont) k.failed_busy
  refine ⟨_, rfl, ?_⟩
  unfold stepRecycle
  dsimp only
  by_cases wraps : Word.sub (Word.add size alignment) c.chunksize < size
  · rw [if_pos wraps]
    exact failing
  rw [if_neg wraps, allocSize_eq request wraps]
  cases found : chunkRecycleTake p newAddr size alignment
      (size + alignment - c.chunksize) with
  | none => exact failing
  | some taken =>
      obtain ⟨n, lead, source⟩ := chunkRecycleTake_some ledger.trees request found
      exact recycleTaken_moved source ledger request cont (AllocCont.at_of_taken source wants)

theorem moves_recycleNode {ret size trailsize : Nat} {zero zeroed : Bool} {k : AllocCont}
    (fails : Bool) (bounded : Bounded bound)
    (owned : Owned c bound held others p (.recycleNode ret size trailsize zero zeroed k))
    (valid : (Pc.recycleNode ret size trailsize zero zeroed k).Valid c p) :
    Moves c bound held others p fails (.recycleNode ret size trailsize zero zeroed k) := by
  obtain ⟨whole, trail, cont, here⟩ := valid
  unfold Owned at owned
  dsimp only [Pc.held, Pc.flight] at owned
  have below : ret + size < Word.modulus := owned.span_below bounded whole.nonempty
    (ind_le_flight List.mem_cons_self)
  have trailStart : Word.add ret size = ret + size := Word.add_eq below
  rcases nodeAlloc_cases p fails with result | ⟨n, rest, nodes, result⟩
  · refine ⟨_, by simp only [step, result, trailStart]; rfl, ?_⟩
    refine Moved.of_same (owned.leak ?_) ⟨rfl, fun _ _ => rfl⟩ ⟨whole, size, cont⟩ (Or.inl rfl)
    intro x
    simp only [Pc.flight, cover_cons, cover_nil]
    omega
  · refine ⟨_, by simp only [step, result]; rfl, ?_⟩
    exact Moved.of_same (owned.takeNode nodes) ⟨rfl, fun _ _ => rfl⟩
      ⟨whole, trail, cont, here⟩ (Or.inl rfl)

theorem moves_recycleTrail {n ret size trailsize : Nat} {zero zeroed : Bool} {k : AllocCont}
    (fails : Bool) (bounded : Bounded bound)
    (owned : Owned c bound held others p (.recycleTrail n ret size trailsize zero zeroed k))
    (valid : (Pc.recycleTrail n ret size trailsize zero zeroed k).Valid c p) :
    Moves c bound held others p fails (.recycleTrail n ret size trailsize zero zeroed k) := by
  obtain ⟨whole, trail, cont, here⟩ := valid
  unfold Owned at owned
  dsimp only [Pc.held, Pc.flight] at owned
  have below : ret + size < Word.modulus := owned.span_below bounded whole.nonempty
    (ind_le_flight List.mem_cons_self)
  have trailStart : Word.add ret size = ret + size := Word.add_eq below
  have range := owned.recordable bounded trail
    (ind_le_flight (List.mem_cons_of_mem _ List.mem_cons_self))
  have change := chunkRecycleTrail_section owned.trees zeroed owned.fresh.1 range
  have inFront : Ledger c bound p ([n] ++ (k.held ++ held)) _ := owned
  refine ⟨_, by simp only [step, trailStart]; rfl, ?_⟩
  refine recycleReturn_moved (inFront.treeSection change ?_) (inFront.hugeSame change) whole cont
    here
  intro x
  simp only [cover_cons, cover_nil]
  omega

theorem moves_recycleDalloc {n ret size : Nat} {zero zeroed : Bool} {k : AllocCont}
    (fails : Bool)
    (owned : Owned c bound held others p (.recycleDalloc n ret size zero zeroed k))
    (valid : (Pc.recycleDalloc n ret size zero zeroed k).Valid c p) :
    Moves c bound held others p fails (.recycleDalloc n ret size zero zeroed k) := by
  obtain ⟨whole, cont, here⟩ := valid
  exact ⟨_, rfl, recycleReturn_moved (Ledger.giveNode owned) ⟨rfl, fun _ _ => rfl⟩ whole cont
    here⟩

theorem moves_register {ret size : Nat} {isZeroed : Bool} {k : AllocCont} (fails : Bool)
    (owned : Owned c bound held others p (.register ret size isZeroed k))
    (valid : (Pc.register ret size isZeroed k).Valid c p) :
    Moves c bound held others p fails (.register ret size isZeroed k) := by
  obtain ⟨whole, cont, here⟩ := valid
  cases fails with
  | true =>
      refine ⟨_, rfl, ?_⟩
      exact Moved.of_same owned (HugeSame.refl p) ⟨whole, size, cont⟩ (Or.inl rfl)
  | false =>
      refine ⟨_, rfl, ?_⟩
      cases k with
      | palloc n arena csize zero =>
          have sizeEq : size = csize := cont
          subst sizeEq
          exact Moved.of_same (Ledger.of_contents owned) ⟨rfl, fun _ _ => rfl⟩ whole
            (Or.inl rfl)
      | expand n ptr oldsize csize zero retry =>
          obtain ⟨block, larger, divides, _, rfl, _⟩ := cont
          have starts : ret = ptr + oldsize := here
          subst starts
          exact Moved.of_same (Ledger.of_contents owned) ⟨rfl, fun _ _ => rfl⟩
            ⟨block, larger, divides⟩ (Or.inl rfl)

/-! ### Linking and resizing huge blocks -/

theorem moves_link {n arena ret csize : Nat} {zero isZeroed : Bool} (fails : Bool)
    (bounded : Bounded bound)
    (owned : Owned c bound held others p (.link n arena ret csize zero isZeroed))
    (whole : ChunkSpan c ⟨ret, csize⟩) :
    Moves c bound held others p fails (.link n arena ret csize zero isZeroed) := by
  unfold Owned at owned
  dsimp only [Pc.held, Pc.flight] at owned
  have extent : ExtentValid c { p.node n with addr := ret, size := csize, arena := arena } := {
    nonempty := whole.nonempty
    size_dvd := whole.len_dvd
    addr_dvd := whole.lo_dvd
    below := owned.span_below bounded whole.nonempty (ind_le_flight List.mem_cons_self) }
  have linked := Ledger.hugeLink owned extent (bounded.once _)
    (fun x => by
      rw [cover_cons, cover_nil, Nat.add_zero, Nat.add_comm]
      rfl : ∀ x, _ = others x + _)
  have notHuge := owned.fresh.2.2
  refine ⟨_, rfl, ?_⟩
  rw [hugeFill_eq]
  exact {
    owned := Owned.idle (Ledger.of_contents linked)
    valid := trivial
    busy := Or.inr rfl
    frame := by
      intro m member _
      refine ⟨OrderedTree.mem_insert.mpr (Or.inr member), ?_⟩
      have different : m ≠ n := fun equal => notHuge (equal ▸ member)
      exact Function.update_of_ne different .. }

/-- Growing a block by the range behind it. -/
theorem moves_resize {n ptr oldsize csize : Nat} {zero isZeroed : Bool} (fails : Bool)
    (bounded : Bounded bound)
    (owned : Owned c bound held others p (.resize n ptr oldsize csize zero isZeroed))
    (valid : (Pc.resize n ptr oldsize csize zero isZeroed).Valid c p) :
    Moves c bound held others p fails (.resize n ptr oldsize csize zero isZeroed) := by
  obtain ⟨block, larger, divides⟩ := valid
  unfold Owned at owned
  dsimp only [Pc.held, Pc.flight, List.nil_append] at owned
  have below : ptr + oldsize + (csize - oldsize) < Word.modulus :=
    owned.span_below bounded (Nat.sub_pos_of_lt larger) (ind_le_flight List.mem_cons_self)
  have old := owned.hugeExtent n block.member
  have extent : ExtentValid c { p.node n with size := csize } := {
    nonempty := by
      dsimp only
      omega
    size_dvd := divides
    addr_dvd := old.addr_dvd
    below := by
      rw [block.addr]
      dsimp only
      omega }
  have resized := owned.hugeResize block.member extent
    (fun x => by
      have cut := Span.ind_add ptr oldsize (csize - oldsize) x
      rw [Nat.add_sub_cancel' (le_of_lt larger)] at cut
      simp only [ExtentNode.span, block.addr, block.size, cover_cons, cover_nil, cut]
      omega : ∀ x, others x + _ = _)
  refine ⟨_, rfl, ?_⟩
  rw [hugeFill_eq]
  exact {
    owned := Owned.idle (Ledger.of_contents resized)
    valid := trivial
    busy := Or.inr rfl
    frame := by
      intro m member notBusy
      refine ⟨member, ?_⟩
      have different : m ≠ n := by
        rintro rfl
        exact notBusy (List.mem_singleton.mpr block.addr)
      exact Function.update_of_ne different .. }

/-! ### Returning chunks -/

theorem moves_dalloc {chunk size : Nat} {k : DallocCont} (fails : Bool)
    (owned : Owned c bound held others p (.dalloc chunk size k))
    (valid : (Pc.dalloc chunk size k).Valid c p) :
    Moves c bound held others p fails (.dalloc chunk size k) :=
  ⟨_, rfl, Moved.of_same (Ledger.of_contents owned) ⟨rfl, fun _ _ => rfl⟩ valid (Or.inl rfl)⟩

theorem moves_recordNode {chunk size : Nat} {k : DallocCont} (fails : Bool)
    (owned : Owned c bound held others p (.recordNode chunk size k))
    (valid : (Pc.recordNode chunk size k).Valid c p) :
    Moves c bound held others p fails (.recordNode chunk size k) := by
  have purged : Owned c bound held others (pagesPurge c p chunk size).1
      (.recordNode chunk size k) := Ledger.of_contents owned
  rcases nodeAlloc_cases (pagesPurge c p chunk size).1 fails with
    result | ⟨n, rest, nodes, result⟩
  · refine ⟨_, by simp only [step, result]; rfl, ?_⟩
    exact Moved.of_same purged ⟨rfl, fun _ _ => rfl⟩ valid (Or.inl rfl)
  · refine ⟨_, by simp only [step, result]; rfl, ?_⟩
    exact Moved.of_same (Ledger.takeNode purged nodes) ⟨rfl, fun _ _ => rfl⟩ valid (Or.inl rfl)

theorem moves_record {xnode : Option Nat} {chunk size : Nat} {zeroed : Bool} {k : DallocCont}
    (fails : Bool) (bounded : Bounded bound)
    (owned : Owned c bound held others p (.record xnode chunk size zeroed k))
    (valid : (Pc.record xnode chunk size zeroed k).Valid c p) :
    Moves c bound held others p fails (.record xnode chunk size zeroed k) := by
  obtain ⟨whole, cont⟩ := valid
  unfold Owned at owned
  dsimp only [Pc.held, Pc.flight] at owned
  rw [List.append_assoc] at owned
  have range := owned.recordable bounded whole (ind_le_flight List.mem_cons_self)
  refine ⟨_, rfl, ?_⟩
  by_cases leaks : forwardNode p (chunk + size) = none ∧ xnode = none
  · obtain ⟨missing, rfl⟩ := leaks
    rw [chunkRecordLocked_leak zeroed missing]
    refine Moved.of_same (Owned.of_has (owned.leak ?_) ⟨rfl, rfl⟩) ⟨rfl, fun _ _ => rfl⟩ cont
      (Or.inl rfl)
    intro x
    rw [cover_cons, cover_nil, Nat.add_zero]
  · have fresh : ∀ n ∈ xnode, n ∉ p.chunksAd := by
      rintro n rfl
      exact (Ledger.fresh owned).1
    have change := chunkRecordLocked_section zeroed owned.trees fresh range (by
      intro missing none
      exact leaks ⟨missing, none⟩)
    have recorded := owned.treeSection change
      (fun x => by
        rw [cover_nil, Nat.add_zero, Nat.add_comm] : ∀ x, others x + _ = _)
    rw [← List.append_assoc] at recorded
    exact Moved.of_same (Owned.of_has recorded ⟨rfl, rfl⟩) (owned.hugeSame change) cont
      (Or.inl rfl)

theorem moves_recordDone {nodes : List Nat} {k : DallocCont} (fails : Bool)
    (owned : Owned c bound held others p (.recordDone nodes k)) (valid : k.Valid c p) :
    Moves c bound held others p fails (.recordDone nodes k) := by
  have ledger := owned.ledger ⟨rfl, rfl⟩
  cases nodes with
  | nil =>
      exact ⟨_, rfl, Moved.of_same (Owned.of_has ledger k.resume_has) (HugeSame.refl p)
        (DallocCont.resume_valid valid) k.resume_busy⟩
  | cons n nodes =>
      exact ⟨_, rfl, Moved.of_same (Owned.of_has ledger.giveNode ⟨rfl, rfl⟩)
        ⟨rfl, fun _ _ => rfl⟩ valid (Or.inl rfl)⟩

theorem moves_giveNode {n : Nat} (fails : Bool)
    (owned : Owned c bound held others p (.giveNode n)) :
    Moves c bound held others p fails (.giveNode n) :=
  ⟨_, rfl, Moved.of_same (Owned.of_has (owned.ledger ⟨rfl, rfl⟩).giveNode ⟨rfl, rfl⟩)
    ⟨rfl, fun _ _ => rfl⟩ trivial (Or.inr rfl)⟩

/-- Every step of a thread that is inside a call succeeds and keeps the
accounts. -/
theorem moves (fails : Bool) (bounded : Bounded bound) (inside : pc ≠ .idle)
    (owned : Owned c bound held others p pc) (valid : pc.Valid c p) :
    Moves c bound held others p fails pc := by
  cases pc with
  | idle => exact absurd rfl inside
  | pallocNode arena csize alignment zero => exact moves_pallocNode fails owned valid
  | expandSearch ptr oldsize size zero retry => exact moves_expandSearch fails owned valid
  | recycle newAddr size alignment zero k => exact moves_recycle fails owned valid
  | recycleNode ret size trailsize zero zeroed k =>
      exact moves_recycleNode fails bounded owned valid
  | recycleTrail n ret size trailsize zero zeroed k =>
      exact moves_recycleTrail fails bounded owned valid
  | recycleDalloc n ret size zero zeroed k => exact moves_recycleDalloc fails owned valid
  | register ret size isZeroed k => exact moves_register fails owned valid
  | link n arena ret csize zero isZeroed => exact moves_link fails bounded owned valid
  | resize n ptr oldsize csize zero isZeroed => exact moves_resize fails bounded owned valid
  | dalloc chunk size k => exact moves_dalloc fails owned valid
  | recordNode chunk size k => exact moves_recordNode fails owned valid
  | record xnode chunk size zeroed k => exact moves_record fails bounded owned valid
  | recordDone nodes k => exact moves_recordDone fails owned valid
  | giveNode n => exact moves_giveNode fails owned

end Steps

end Jemalloc
end Vmem
