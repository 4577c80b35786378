import Vmem.Jemalloc.PoolRun
import Vmem.Jemalloc.RallocPaths

/-!
# A reallocation that fails

When `je_pool_ralloc` returns `NULL` the block should be as it was.  There are three ways
in which it is not: an arena that is made for the request takes the last free chunk for
itself and has no room, or takes a chunk without which there is no range that is long
enough, or a huge block is shrunk to one chunk and the arena still cannot serve the request.
-/

namespace Vmem
namespace Jemalloc

variable {c : Config} {p : Pool} {n : Nat} {rest : List Nat}

/-! ## What should not change -/

section Block

variable {α : Type}

/-- There is a block at `ptr`: its usable size is not zero. -/
def Live (c : Config) (layer : ArenaLayer c α) (h : ThreadHeap α) (ptr : Nat) : Prop :=
  0 < ptr ∧ isalloc c layer h ptr ≠ 0

/-- The block at `ptr` is as it was, and so are the free extents and the huge blocks. -/
structure BlockKept (c : Config) (layer : ArenaLayer c α) (h h' : ThreadHeap α) (ptr : Nat) :
    Prop where
  live : Live c layer h' ptr
  size : isalloc c layer h' ptr = isalloc c layer h ptr
  bytes : ∀ x, ptr ≤ x → x < ptr + isalloc c layer h ptr → h'.pool.mem x = h.pool.mem x
  free : ∀ span, span ∈ h'.pool.freeSpans ↔ span ∈ h.pool.freeSpans
  huge : HugeSame h.pool h'.pool

/-- A huge block of more than one chunk is shrunk, and the arena still has no room. -/
def LosesShrunk (c : Config) (layer : ArenaLayer c α) (h : ThreadHeap α) (ptr size : Nat)
    (noMemory noMemoryAgain : Bool) : Prop :=
  (AttachFails h noMemory ∧ noMemoryAgain = true) ∨
    (RefusesOld c layer h size ∧ h.pool.baseNodes = []) ∨
    (AttachFails h noMemory ∧ NewArena h ∧ BaseFull c h.pool ∧
      LeavesOneChunk c h.pool (ptr + c.chunksize) (isalloc c layer h ptr - c.chunksize) ∧
      roomFor layer h true size = false)

/-- A new arena takes the last free chunk. -/
def LosesChunk (c : Config) (layer : ArenaLayer c α) (h : ThreadHeap α) (ptr size : Nat)
    (noMemory : Bool) : Prop :=
  arenaRallocNoMove c layer h ptr (isalloc c layer h ptr) size = none ∧
    ¬AttachFails h noMemory ∧ RefusesNew c layer h size

/-- A new arena takes a chunk without which there is no range of `size` bytes. -/
def LosesRange (c : Config) (layer : ArenaLayer c α) (h : ThreadHeap α) (ptr size : Nat)
    (noMemory : Bool) : Prop :=
  c.chunkCeiling size ≠ 0 ∧ ¬AttachFails h noMemory ∧ NewArena h ∧ BaseFull c h.pool ∧
    ¬StaysHuge c h.pool ptr (isalloc c layer h ptr) size ∧
    Starved c h.pool (c.chunkCeiling size)

/-- The reallocation fails and something is lost. -/
def Loses (c : Config) (layer : ArenaLayer c α) (h : ThreadHeap α) (ptr size : Nat)
    (noMemory noMemoryAgain : Bool) : Prop :=
  if size ≤ c.arenaMaxclass then
    if c.chunksize < isalloc c layer h ptr then
      LosesShrunk c layer h ptr size noMemory noMemoryAgain
    else LosesChunk c layer h ptr size noMemory
  else LosesRange c layer h ptr size noMemory

variable {layer : ArenaLayer c α} {h h' : ThreadHeap α} {ptr : Nat}

/-- Nothing is written, and the trees are the same. -/
theorem BlockKept.of_eq (live : Live c layer h ptr) (next : Nat)
    (pool : h'.pool = h.pool.atBase next)
    (arenas : ∀ ptr, layer.salloc h'.arenas ptr = layer.salloc h.arenas ptr) :
    BlockKept c layer h h' ptr := by
  have size : isalloc c layer h' ptr = isalloc c layer h ptr := by
    unfold isalloc
    rw [pool, arenas]
    rfl
  exact {
    live := ⟨live.1, by rw [size]; exact live.2⟩
    size := size
    bytes := fun x _ _ => by rw [pool]; rfl
    free := fun span => by rw [pool]; rfl
    huge := by
      rw [pool]
      exact ⟨rfl, fun _ _ => rfl⟩ }

/-- The usable sizes of blocks of the arenas do not depend on the arena of the thread. -/
theorem chosenArena_salloc (extended : Bool) (ptr : Nat) :
    layer.salloc (chosenArena layer h extended).1 ptr = layer.salloc h.arenas ptr := by
  unfold chosenArena
  cases h.arena with
  | some arena => rfl
  | none =>
      dsimp only
      cases newArenaIndex h.loads with
      | none => rfl
      | some index =>
          dsimp only
          split
          · exact layer.newArena_salloc ..
          · rfl

theorem Refused.salloc {extended : Bool} {size : Nat} (refused : Refused layer h extended p size h')
    (ptr : Nat) : layer.salloc h'.arenas ptr = layer.salloc h.arenas ptr := by
  rw [refused.arenas, layer.refuse_salloc, chosenArena_salloc]

theorem Attached.salloc {extended : Bool} (attached : Attached layer h extended p h') (ptr : Nat) :
    layer.salloc h'.arenas ptr = layer.salloc h.arenas ptr := by
  rw [attached.arenas, chosenArena_salloc]

end Block

/-! ## What changes -/

/-- The smallest extent is not what it was. -/
theorem FirstTaken.free_changed {p' : Pool} (taken : FirstTaken c p n rest p')
    (trees : FreeTrees c p) (trees' : FreeTrees c p') (first : p.chunksSzad = n :: rest) :
    ¬∀ span, span ∈ p'.freeSpans ↔ span ∈ p.freeSpans := by
  intro same
  have member : n ∈ p.chunksAd := trees.mem_szad.mp (first ▸ List.mem_cons_self)
  have extent := trees.extent n member
  obtain ⟨m, inTree, equal⟩ := List.mem_map.mp
    ((same (p.node n).span).mpr (List.mem_map_of_mem (f := fun m => (p.node m).span) member))
  have addr : (p'.node m).addr = (p.node n).addr := congrArg Span.lo equal
  have size : (p'.node m).size = (p.node n).size := congrArg Span.len equal
  have szad : m ∈ p'.chunksSzad := trees'.mem_szad.mpr inTree
  by_cases itself : m = n
  · subst m
    rcases Nat.eq_or_lt_of_le (Nat.le_of_dvd extent.nonempty extent.size_dvd) with short | longer
    · have distinct := trees.nodupSzad
      rw [first] at distinct
      rw [(taken.usedUp short.symm).1] at szad
      exact (List.nodup_cons.mp distinct).1 szad
    · have positive := c.chunksize_pos
      have left := (taken.cut longer).2.1
      omega
  · have inRest : m ∈ p.chunksSzad := by
      rw [first]
      rcases Nat.eq_or_lt_of_le (Nat.le_of_dvd extent.nonempty extent.size_dvd) with short | longer
      · rw [(taken.usedUp short.symm).1] at szad
        exact List.mem_cons_of_mem _ szad
      · rw [(taken.cut longer).1] at szad
        exact szad
    rw [taken.others m itself] at addr
    exact itself (trees.eq_of_addr (trees.mem_szad.mp inRest) member addr)

/-- Base allocations keep the huge blocks. -/
theorem BaseStep.hugeSearch {bound others : Nat → Nat} {p' : Pool} {ptr : Nat}
    (step : BaseStep c p p') (ledger : Ledger c bound p [] others)
    (found : p.hugeSearch ptr = some n) :
    Ledger c bound p' [] others ∧ p'.hugeSearch ptr = some n ∧ p'.node n = p.node n := by
  obtain ⟨member, starts⟩ := hugeSearch_some found
  have kept : Ledger c bound p' [] others := ledger.change step.change fun _ => rfl
  have node : p'.node n = p.node n :=
    ledger.numbered.heap_eq step.change (List.mem_append_left _ member)
  refine ⟨kept, ?_, node⟩
  apply kept.hugeSearch_eq
  · rw [step.change.huge]
    exact member
  · rw [node]
    exact starts

section Paths

variable {α : Type} {layer : ArenaLayer c α} {h : ThreadHeap α} {bound others : Nat → Nat}
  {ptr size : Nat} {noMemory noMemoryAgain : Bool} {result : ThreadHeap α × Option Nat}

/-- A call keeps the block at `ptr` if it fails. -/
def KeepsBlock (c : Config) (layer : ArenaLayer c α) (h : ThreadHeap α) (ptr : Nat)
    (result : ThreadHeap α × Option Nat) : Prop :=
  result.2 = none → BlockKept c layer h result.1 ptr

theorem KeepsBlock.of_success (success : result.2 ≠ none) : KeepsBlock c layer h ptr result :=
  fun failure => absurd failure success

/-- A call that succeeds keeps the block, and loses nothing. -/
theorem keepsBlock_iff_of_success {loses : Prop} (success : result.2 ≠ none) (never : ¬loses) :
    KeepsBlock c layer h ptr result ↔ ¬loses :=
  iff_of_true (KeepsBlock.of_success success) never

/-- A call that fails loses something exactly if it does not keep the block. -/
theorem keepsBlock_iff_of_failure {loses : Prop} (failure : result.2 = none)
    (kept : BlockKept c layer h result.1 ptr ↔ ¬loses) :
    KeepsBlock c layer h ptr result ↔ ¬loses :=
  ⟨fun keeps => kept.mp (keeps failure), fun never _ => kept.mpr never⟩

/-! ## The arena cannot serve the request -/

/-- A request to the arenas fails in one of three cases. -/
theorem ArenaOutcome.failed_iff (outcome : ArenaOutcome c layer h size noMemory result) :
    result.2 = none ↔
      AttachFails h noMemory ∨ RefusesOld c layer h size ∨
        (¬AttachFails h noMemory ∧ RefusesNew c layer h size) := by
  cases outcome with
  | served attached old new success =>
      refine iff_of_false success ?_
      rintro (fails | refuses | ⟨_, refuses⟩)
      · exact attached fails
      · exact old refuses
      · exact new refuses
  | unattached fails same => exact iff_of_true (by rw [same]) (Or.inl fails)
  | refusedOld attached old next region' failure left =>
      exact iff_of_true failure (Or.inr (Or.inl old))
  | refusedNew attached new n p' one short taken step region' failure left =>
      exact iff_of_true failure (Or.inr (Or.inr ⟨attached, new⟩))

/-- A request to the arenas that fails keeps the block, unless a new arena took the last
free chunk. -/
theorem ArenaOutcome.kept_iff (outcome : ArenaOutcome c layer h size noMemory result)
    (trees : FreeTrees c h.pool) (live : Live c layer h ptr) (failure : result.2 = none) :
    BlockKept c layer h result.1 ptr ↔
      ¬(¬AttachFails h noMemory ∧ RefusesNew c layer h size) := by
  cases outcome with
  | served attached old new success => exact absurd failure success
  | unattached fails same =>
      have kept : BlockKept c layer h result.1 ptr := by
        rw [same]
        exact BlockKept.of_eq live h.pool.baseNextAddr rfl fun _ => rfl
      exact iff_of_true kept fun loses => loses.1 fails
  | refusedOld attached old next _ _ left =>
      refine iff_of_true (BlockKept.of_eq live next left.pool left.salloc) ?_
      rintro ⟨_, _, _, ⟨n, one, _⟩, _⟩
      exact List.cons_ne_nil _ _ (one.symm.trans old.1)
  | refusedNew attached new n p' one short taken step _ _ left =>
      refine iff_of_false (fun kept => ?_) fun never => never ⟨attached, new⟩
      apply taken.free_changed trees step.change.trees one
      intro span
      have same := kept.free span
      rw [left.pool] at same
      exact same

/-- A request to the arenas that fails keeps the nodes of the huge blocks. -/
theorem ArenaOutcome.hugeNode (outcome : ArenaOutcome c layer h size noMemory result)
    (ledger : Ledger c bound h.pool [] others) (member : n ∈ h.pool.huge)
    (failure : result.2 = none) : result.1.pool.node n = h.pool.node n := by
  cases outcome with
  | served attached old new success => exact absurd failure success
  | unattached fails same => rw [same]
  | refusedOld attached old next _ _ left =>
      rw [left.pool]
      rfl
  | refusedNew attached new m p' one short taken step _ _ left =>
      rw [left.pool]
      exact ledger.numbered.heap_eq step.change (List.mem_append_left _ member)

/-- A block of at most one chunk is moved to an arena. -/
theorem iralloct_arena_iff (fits : c.Fits) (ledger : Ledger c bound h.pool [] others)
    (region : BaseRegion c h.pool) (live : Live c layer h ptr) (small : size ≤ c.arenaMaxclass)
    (short : ¬c.chunksize < isalloc c layer h ptr) :
    KeepsBlock c layer h ptr (iralloct c layer h ptr size noMemory noMemoryAgain) ↔
      ¬LosesChunk c layer h ptr size noMemory := by
  unfold iralloct
  dsimp only
  rw [if_pos small]
  cases moves : arenaRallocNoMove c layer h ptr (isalloc c layer h ptr) size with
  | some moved =>
      unfold poolArenaRalloc
      rw [moves]
      refine keepsBlock_iff_of_success (Option.some_ne_none _) ?_
      rintro ⟨stays, _⟩
      rw [moves] at stays
      cases stays
  | none =>
      have outcome : ArenaOutcome c layer h size noMemory
          (poolArenaRalloc c layer h ptr (isalloc c layer h ptr) size noMemory) :=
        poolArenaRalloc_outcome fits ledger.trees ledger.numbered region moves
      have loses : LosesChunk c layer h ptr size noMemory ↔
          ¬AttachFails h noMemory ∧ RefusesNew c layer h size := and_iff_right moves
      rw [loses]
      cases attempt : poolArenaRalloc c layer h ptr (isalloc c layer h ptr) size noMemory with
      | mk h' ret =>
          rw [attempt] at outcome
          cases ret with
          | some ret =>
              refine keepsBlock_iff_of_success (Option.some_ne_none _) fun fails => ?_
              have failure := outcome.failed_iff.mpr (Or.inr (Or.inr fails))
              cases failure
          | none =>
              dsimp only
              rw [if_neg short, ite_self]
              exact keepsBlock_iff_of_failure rfl (outcome.kept_iff ledger.trees live rfl)

/-! ## A huge block is shrunk first -/

/-- The usable size of a huge block. -/
theorem isalloc_huge (aligned : c.chunksize ∣ ptr) (found : h.pool.hugeSearch ptr = some n) :
    isalloc c layer h ptr = (h.pool.node n).size := by
  unfold isalloc hugePoolSalloc
  rw [if_pos aligned, found]

/-- A block above `arena_maxclass` is a huge one. -/
theorem Live.huge (live : Live c layer h ptr) (large : c.arenaMaxclass < isalloc c layer h ptr) :
    ∃ n, h.pool.hugeSearch ptr = some n ∧ isalloc c layer h ptr = (h.pool.node n).size := by
  by_cases aligned : c.chunksize ∣ ptr
  · cases found : h.pool.hugeSearch ptr with
    | some n => exact ⟨n, rfl, isalloc_huge aligned found⟩
    | none =>
        have none : isalloc c layer h ptr = 0 := by
          unfold isalloc hugePoolSalloc
          rw [if_pos aligned, found]
        exact absurd none live.2
  · have small := layer.salloc_le h.arenas ptr
    unfold isalloc at large
    rw [if_neg aligned] at large
    omega

/-- Room for a request does not depend on the pool. -/
theorem roomFor_pool (layer : ArenaLayer c α) (h : ThreadHeap α) (p : Pool) (extended : Bool)
    (size : Nat) : roomFor layer { h with pool := p } extended size =
      roomFor layer h extended size := rfl

/-- An arena that refused a request has no room for it later. -/
theorem Refused.roomFor {extended : Bool} {h' : ThreadHeap α}
    (refused : Refused layer h extended p size h')
    (noRoom : Jemalloc.roomFor layer h extended size = false) (again : Bool) :
    Jemalloc.roomFor layer h' again size = false := by
  have chosen : chosenArena layer h' again = (h'.arenas, (chosenArena layer h extended).2) := by
    unfold chosenArena
    rw [refused.arena]
    rfl
  unfold Jemalloc.roomFor
  rw [chosen, refused.arenas]
  exact layer.refuse_room _ _ _ noRoom

/-- A huge block of more than a chunk that is to move to an arena is shrunk to one chunk. -/
theorem poolHugeRalloc_shrinks (layer : ArenaLayer c α) (noMemory : Bool)
    (ledger : Ledger c bound h.pool [] others) (bounded : Bounded bound)
    (found : h.pool.hugeSearch ptr = some n) (large : c.chunksize < (h.pool.node n).size) :
    ∃ p', poolHugeRalloc c layer h ptr (h.pool.node n).size c.chunksize noMemory =
      ({ h with pool := p' }, some ptr) ∧ Shrunk c bound others h.pool n p' := by
  obtain ⟨p', result, shrunk⟩ := hugeRallocNoMove_shrinks ledger bounded found large
  refine ⟨p', ?_, shrunk⟩
  unfold poolHugeRalloc
  rw [result]

/-- After the huge block with node `n` was shrunk to one chunk the arena cannot serve the
request. -/
def RetryFails (c : Config) (layer : ArenaLayer c α) (h : ThreadHeap α) (n size : Nat)
    (noMemory : Bool) : Prop :=
  AttachFails h noMemory ∨ (RefusesOld c layer h size ∧ h.pool.baseNodes = []) ∨
    (¬AttachFails h noMemory ∧ NewArena h ∧ BaseFull c h.pool ∧
      LeavesOneChunk c h.pool ((h.pool.node n).addr + c.chunksize)
        ((h.pool.node n).size - c.chunksize) ∧
      roomFor layer h true size = false)

/-- The second attempt fails exactly then, and the block stays shrunk. -/
theorem retry_failed_iff (layer : ArenaLayer c α) (fits : c.Fits)
    (ledger : Ledger c bound h.pool [] others) (bounded : Bounded bound)
    (region : BaseRegion c h.pool) (found : h.pool.hugeSearch ptr = some n)
    (large : c.chunksize < (h.pool.node n).size) (noMemory : Bool) (size : Nat) :
    ∃ p', poolHugeRalloc c layer h ptr (h.pool.node n).size c.chunksize noMemory =
        ({ h with pool := p' }, some ptr) ∧
      ((poolArenaRalloc c layer { h with pool := p' } ptr c.chunksize size noMemory).2 = none →
        ((poolArenaRalloc c layer { h with pool := p' } ptr c.chunksize size noMemory).1.pool.node
          n).size = c.chunksize) ∧
      ((poolArenaRalloc c layer { h with pool := p' } ptr c.chunksize size noMemory).2 = none ↔
        RetryFails c layer h n size noMemory) := by
  obtain ⟨p', result, shrunk⟩ := poolHugeRalloc_shrinks layer noMemory ledger bounded found large
  obtain ⟨member, _⟩ := hugeSearch_some found
  have moves : arenaRallocNoMove c layer { h with pool := p' } ptr c.chunksize size = none :=
    if_neg (not_le.mpr c.arenaMaxclass_lt)
  have region' : BaseRegion c p' := ⟨by rw [shrunk.next, shrunk.past]; exact region.order,
    by rw [shrunk.past]; exact region.below⟩
  have outcome : ArenaOutcome c layer { h with pool := p' } size noMemory
      (poolArenaRalloc c layer { h with pool := p' } ptr c.chunksize size noMemory) :=
    poolArenaRalloc_outcome fits shrunk.ledger.trees shrunk.ledger.numbered region' moves
  have full : BaseFull c p' ↔ BaseFull c h.pool := by
    unfold BaseFull
    rw [shrunk.next, shrunk.past]
  have old : RefusesOld c layer { h with pool := p' } size ↔
      RefusesOld c layer h size ∧ h.pool.baseNodes = [] := by
    unfold RefusesOld
    dsimp only
    rw [shrunk.empty, roomFor_pool, decide_eq_decide.mpr full]
    constructor
    · rintro ⟨⟨empty, nodes⟩, noRoom⟩
      exact ⟨⟨empty, noRoom⟩, nodes⟩
    · rintro ⟨⟨empty, noRoom⟩, nodes⟩
      exact ⟨⟨empty, nodes⟩, noRoom⟩
  have new : RefusesNew c layer { h with pool := p' } size ↔
      NewArena h ∧ BaseFull c h.pool ∧
        LeavesOneChunk c h.pool ((h.pool.node n).addr + c.chunksize)
          ((h.pool.node n).size - c.chunksize) ∧
        roomFor layer h true size = false := by
    unfold RefusesNew
    dsimp only
    rw [shrunk.oneChunk, full]
    rfl
  refine ⟨p', result, fun failure => ?_, ?_⟩
  · rw [outcome.hugeNode shrunk.ledger (by rw [shrunk.huge]; exact member) failure]
    exact shrunk.size
  · rw [outcome.failed_iff, old, new]
    rfl

/-- Shrinking the block and trying again loses the rest of the block if the arena cannot
serve the request after all. -/
theorem retry_iff {h' : ThreadHeap α} {loses : Prop} (fits : c.Fits) (bounded : Bounded bound)
    (ledger : Ledger c bound h'.pool [] others) (region : BaseRegion c h'.pool)
    (member : n ∈ h.pool.huge) (found : h'.pool.hugeSearch ptr = some n)
    (node : h'.pool.node n = h.pool.node n) (large : c.chunksize < (h.pool.node n).size)
    (same : RetryFails c layer h' n size noMemory ↔ loses) :
    KeepsBlock c layer h ptr
      (match poolHugeRalloc c layer h' ptr (h.pool.node n).size c.chunksize noMemory with
      | (h, none) => (h, none)
      | (h, some ret) => poolArenaRalloc c layer h ret c.chunksize size noMemory) ↔ ¬loses := by
  rw [← node] at large
  obtain ⟨p', result, shrunk, failed⟩ := retry_failed_iff layer fits ledger bounded region found
    large noMemory size
  rw [← same, ← failed, ← node, result]
  dsimp only
  constructor
  · intro keeps failure
    have size_eq := congrArg ExtentNode.size ((keeps failure).huge.node n member)
    rw [shrunk failure, ← node] at size_eq
    omega
  · exact fun success => KeepsBlock.of_success success

/-- After a chosen arena refused, the second attempt fails exactly if no node is left. -/
theorem retryFails_of_refusedOld {h' : ThreadHeap α} {next : Nat} (noMemory : Bool)
    (old : RefusesOld c layer h size)
    (left : Refused layer h (!decide (BaseFull c h.pool)) (h.pool.atBase next) size h') :
    RetryFails c layer h' n size noMemory ↔ h.pool.baseNodes = [] := by
  have pool : h'.pool = h.pool.atBase next := left.pool
  have nodes : h'.pool.baseNodes = h.pool.baseNodes := by
    rw [pool]
    rfl
  have refuses : RefusesOld c layer h' size := ⟨by rw [pool]; exact old.1, left.roomFor old.2 _⟩
  unfold RetryFails
  rw [nodes]
  constructor
  · rintro (fails | ⟨_, empty⟩ | ⟨_, new, _⟩)
    · exact absurd fails left.not_fails
    · exact empty
    · exact absurd new left.not_new
  · intro empty
    exact Or.inr (Or.inl ⟨refuses, empty⟩)

/-- After a new arena refused there is a node, and the second attempt succeeds. -/
theorem not_retryFails_of_refusedNew {h' : ThreadHeap α} {p' : Pool} (noMemory : Bool)
    (left : Refused layer h true p' size h') (nodes : h'.pool.baseNodes ≠ []) :
    ¬RetryFails c layer h' n size noMemory := by
  rintro (fails | ⟨_, empty⟩ | ⟨_, new, _⟩)
  · exact absurd fails left.not_fails
  · exact nodes empty
  · exact absurd new left.not_new

/-- A huge block of more than one chunk is moved to an arena. -/
theorem iralloct_shrink_iff (fits : c.Fits) (ledger : Ledger c bound h.pool [] others)
    (bounded : Bounded bound) (region : BaseRegion c h.pool) (live : Live c layer h ptr)
    (small : size ≤ c.arenaMaxclass) (large : c.chunksize < isalloc c layer h ptr) :
    KeepsBlock c layer h ptr (iralloct c layer h ptr size noMemory noMemoryAgain) ↔
      ¬LosesShrunk c layer h ptr size noMemory noMemoryAgain := by
  have above := c.arenaMaxclass_lt
  obtain ⟨n, found, size_eq⟩ := live.huge (above.trans large)
  obtain ⟨member, starts⟩ := hugeSearch_some found
  have moves : arenaRallocNoMove c layer h ptr (isalloc c layer h ptr) size = none :=
    if_neg (by omega)
  have outcome : ArenaOutcome c layer h size noMemory
      (poolArenaRalloc c layer h ptr (isalloc c layer h ptr) size noMemory) :=
    poolArenaRalloc_outcome fits ledger.trees ledger.numbered region moves
  unfold iralloct LosesShrunk
  dsimp only
  rw [if_pos small]
  cases attempt : poolArenaRalloc c layer h ptr (isalloc c layer h ptr) size noMemory with
  | mk h' ret =>
      rw [attempt] at outcome
      rw [size_eq] at large ⊢
      cases ret with
      | some ret =>
          refine keepsBlock_iff_of_success (Option.some_ne_none _) fun loses => ?_
          have failure : some ret = none := by
            apply outcome.failed_iff.mpr
            rcases loses with ⟨fails, _⟩ | ⟨old, _⟩ | ⟨fails, _⟩
            · exact Or.inl fails
            · exact Or.inr (Or.inl old)
            · exact Or.inl fails
          cases failure
      | none =>
          dsimp only
          rw [if_neg (show ¬size > (h.pool.node n).size by omega), if_pos large]
          cases outcome with
          | served attached old new success => exact absurd rfl success
          | unattached fails same =>
              obtain rfl : h' = h := congrArg Prod.fst same
              refine retry_iff fits bounded ledger region member found rfl large ?_
              have again : AttachFails h' noMemoryAgain ↔ noMemoryAgain = true :=
                and_iff_right fails.1
              unfold RetryFails
              rw [again, starts, and_iff_right fails, and_iff_right fails]
              constructor
              · rintro (noMemory | old | ⟨_, new⟩)
                · exact Or.inl noMemory
                · exact Or.inr (Or.inl old)
                · exact Or.inr (Or.inr new)
              · rintro (noMemory | old | new)
                · exact Or.inl noMemory
                · exact Or.inr (Or.inl old)
                · by_cases noMemory : noMemoryAgain = true
                  · exact Or.inl noMemory
                  · exact Or.inr (Or.inr ⟨noMemory, new⟩)
          | refusedOld attached old next region' failure left =>
              have pool : h'.pool = h.pool.atBase next := left.pool
              have ledger' : Ledger c bound h'.pool [] others := by
                rw [pool]
                exact ledger.of_contents
              rw [← pool] at region'
              have found' : h'.pool.hugeSearch ptr = some n := by
                rw [pool]
                exact found
              have node' : h'.pool.node n = h.pool.node n := by
                rw [pool]
                rfl
              refine retry_iff fits bounded ledger' region' member found' node' large ?_
              rw [retryFails_of_refusedOld noMemoryAgain old left]
              constructor
              · intro empty
                exact Or.inr (Or.inl ⟨old, empty⟩)
              · rintro (⟨fails, _⟩ | ⟨_, empty⟩ | ⟨fails, _⟩)
                · exact absurd fails attached
                · exact empty
                · exact absurd fails attached
          | refusedNew attached new m p' one short taken step region' failure left =>
              have pool : h'.pool = p' := left.pool
              obtain ⟨ledger', found', node'⟩ := step.hugeSearch ledger found
              rw [← pool] at ledger' found' node' region'
              refine retry_iff fits bounded ledger' region' member found' node' large ?_
              have nodes : h'.pool.baseNodes ≠ [] := by
                rw [pool, (taken.usedUp short).2]
                exact List.cons_ne_nil _ _
              refine iff_of_false (not_retryFails_of_refusedNew noMemoryAgain left nodes) ?_
              rintro (⟨fails, _⟩ | ⟨old, _⟩ | ⟨fails, _⟩)
              · exact attached fails
              · exact List.cons_ne_nil _ _ (one.symm.trans old.1)
              · exact attached fails

/-! ## The request is for a huge block -/

/-- A block stays where it is, or nothing has changed. -/
theorem hugeRallocNoMove_cases (ledger : Ledger c bound h.pool [] others)
    (live : Live c layer h ptr) (sizeLt : size < Word.modulus) :
    (StaysHuge c h.pool ptr (isalloc c layer h ptr) size ∧ ∃ p',
        hugeRallocNoMove c h.pool ptr (isalloc c layer h ptr) size 0 false false false =
          (p', false)) ∨
      ((c.chunkCeiling size ≠ 0 → ¬StaysHuge c h.pool ptr (isalloc c layer h ptr) size) ∧
        hugeRallocNoMove c h.pool ptr (isalloc c layer h ptr) size 0 false false false =
          (h.pool, true)) := by
  by_cases huge : c.arenaMaxclass < isalloc c layer h ptr
  · obtain ⟨n, found, size_eq⟩ := live.huge huge
    rw [size_eq] at huge ⊢
    by_cases wraps : c.chunkCeiling size = 0
    · refine Or.inr ⟨fun some_ => absurd wraps some_, ?_⟩
      obtain ⟨member, _⟩ := hugeSearch_some found
      have extent := ledger.hugeExtent n member
      have below := extent.below
      have nonempty := extent.nonempty
      have oldCeiling : c.chunkCeiling (h.pool.node n).size = (h.pool.node n).size :=
        c.chunkCeiling_eq extent.size_dvd (by omega)
      have same : Word.add size 0 = size := Word.add_eq (by omega)
      unfold hugeRallocNoMove
      rw [same, oldCeiling, wraps, if_neg (by omega), if_neg (by omega), if_pos rfl]
    · rcases hugeRallocNoMove_iff ledger found sizeLt wraps false with
        ⟨stays, success⟩ | ⟨moves, failure⟩
      · exact Or.inl ⟨stays, _, Prod.ext rfl success⟩
      · exact Or.inr ⟨fun _ => moves, failure⟩
  · refine Or.inr ⟨fun _ stays => huge stays.1, ?_⟩
    unfold hugeRallocNoMove
    rw [if_pos (not_lt.mp huge)]

/-- A new huge block cannot be made, and a new arena has taken a chunk. -/
def LosesMalloc (c : Config) (h : ThreadHeap α) (size : Nat) (noMemory : Bool) : Prop :=
  c.chunkCeiling size ≠ 0 ∧ ¬AttachFails h noMemory ∧ NewArena h ∧ BaseFull c h.pool ∧
    Starved c h.pool (c.chunkCeiling size)

theorem poolHugeMalloc_iff (fits : c.Fits) (ledger : Ledger c bound h.pool [] others)
    (region : BaseRegion c h.pool) (live : Live c layer h ptr) :
    KeepsBlock c layer h ptr (poolHugeMalloc c layer h size noMemory) ↔
      ¬LosesMalloc c h size noMemory := by
  have trees := ledger.trees
  unfold poolHugeMalloc
  by_cases wraps : c.chunkCeiling size = 0
  · rw [if_pos wraps]
    exact iff_of_true (fun _ => BlockKept.of_eq live h.pool.baseNextAddr rfl fun _ => rfl)
      fun loses => loses.1 wraps
  rw [if_neg wraps]
  cases chooseArena_outcome layer noMemory fits trees ledger.numbered region with
  | fails fails failure =>
      rw [failure]
      exact iff_of_true (fun _ => BlockKept.of_eq live h.pool.baseNextAddr rfl fun _ => rfl)
        fun loses => loses.2.1 fails
  | plain attached spared next h' _ chosen left =>
      rw [chosen]
      dsimp only
      have never : ¬LosesMalloc c h size noMemory := by
        rintro ⟨_, _, new, full, starved⟩
        unfold Starved at starved
        rw [spared new full] at starved
        exact starved
      refine iff_of_true (fun failure => ?_) never
      have moved : FreeTrees c (h.pool.atBase next) := trees.of_edit rfl rfl fun _ _ => rfl
      rw [left.pool] at failure ⊢
      rcases hugeMalloc_iff (chosenArena layer h (!decide (BaseFull c h.pool))).2 moved wraps with
        ⟨_, result⟩ | ⟨_, success⟩
      · rw [result]
        exact BlockKept.of_eq live next rfl left.salloc
      · exact absurd failure success
  | taken attached new full n rest p' h' first taken step _ chosen left =>
      rw [chosen]
      dsimp only
      have starved := taken.noHuge_iff trees first (Nat.pos_of_ne_zero wraps)
      have loses : LosesMalloc c h size noMemory ↔ NoHuge p' (c.chunkCeiling size) := by
        rw [starved]
        exact ⟨fun loses => loses.2.2.2.2, fun starved => ⟨wraps, attached, new, full, starved⟩⟩
      rw [loses, left.pool]
      rcases hugeMalloc_iff (chosenArena layer h true).2 step.change.trees wraps with
        ⟨none, result⟩ | ⟨some_, success⟩
      · rw [result]
        refine iff_of_false (fun keeps => ?_) fun never => never none
        exact taken.free_changed trees step.change.trees first (keeps rfl).free
      · exact keepsBlock_iff_of_success success some_

/-- A request for a huge block. -/
theorem iralloct_huge_iff (fits : c.Fits) (ledger : Ledger c bound h.pool [] others)
    (region : BaseRegion c h.pool) (live : Live c layer h ptr) (large : c.arenaMaxclass < size)
    (sizeLt : size < Word.modulus) :
    KeepsBlock c layer h ptr (iralloct c layer h ptr size noMemory noMemoryAgain) ↔
      ¬LosesRange c layer h ptr size noMemory := by
  unfold iralloct
  dsimp only
  rw [if_neg (not_le.mpr large)]
  unfold poolHugeRalloc
  rcases hugeRallocNoMove_cases ledger live sizeLt with
    ⟨stays, p', result⟩ | ⟨moves, result⟩
  · rw [result]
    refine keepsBlock_iff_of_success (Option.some_ne_none _) ?_
    rintro ⟨_, _, _, _, never, _⟩
    exact never stays
  · rw [result]
    dsimp only
    have loses : LosesRange c layer h ptr size noMemory ↔ LosesMalloc c h size noMemory := by
      constructor
      · rintro ⟨wraps, attached, new, full, _, starved⟩
        exact ⟨wraps, attached, new, full, starved⟩
      · rintro ⟨wraps, attached, new, full, starved⟩
        exact ⟨wraps, attached, new, full, moves wraps, starved⟩
    have keeps : KeepsBlock c layer h ptr (poolHugeMalloc c layer h size noMemory) ↔
        ¬LosesMalloc c h size noMemory := poolHugeMalloc_iff fits ledger region live
    rw [loses, ← keeps]
    change KeepsBlock c layer h ptr
      (match poolHugeMalloc c layer h size noMemory with
      | (h, none) => (h, none)
      | (h, some ret) => (moveBlock c layer h ptr _ size ret, some ret)) ↔ _
    cases attempt : poolHugeMalloc c layer h size noMemory with
    | mk h' ret =>
        cases ret with
        | none => rfl
        | some ret =>
            exact iff_of_true (KeepsBlock.of_success (Option.some_ne_none _))
              (KeepsBlock.of_success (Option.some_ne_none _))

/-! ## All requests -/

/-- A reallocation that fails keeps the block exactly if it does not lose anything. -/
theorem jePoolRalloc_iff (fits : c.Fits) (ledger : Ledger c bound h.pool [] others)
    (bounded : Bounded bound) (region : BaseRegion c h.pool) (live : Live c layer h ptr)
    (nonempty : 0 < size) (sizeLt : size < Word.modulus) :
    KeepsBlock c layer h ptr (jePoolRalloc c layer h ptr size noMemory noMemoryAgain) ↔
      ¬Loses c layer h ptr size noMemory noMemoryAgain := by
  have nonnull : ptr ≠ 0 := Nat.pos_iff_ne_zero.mp live.1
  have some_ : size ≠ 0 := Nat.pos_iff_ne_zero.mp nonempty
  unfold jePoolRalloc Loses
  dsimp only
  rw [if_neg (fun both : size = 0 ∧ ptr ≠ 0 => some_ both.1), if_neg some_, if_pos nonnull]
  by_cases small : size ≤ c.arenaMaxclass
  · rw [if_pos small]
    by_cases large : c.chunksize < isalloc c layer h ptr
    · rw [if_pos large]
      exact iralloct_shrink_iff fits ledger bounded region live small large
    · rw [if_neg large]
      exact iralloct_arena_iff fits ledger region live small large
  · rw [if_neg small]
    exact iralloct_huge_iff fits ledger region live (not_le.mp small) sizeLt

end Paths

/-- In every state that a pool reaches, for every block and whatever the arenas of the pool and
the thread have done: a reallocation that fails keeps the block, the free extents and the huge
blocks exactly if it does not lose anything. -/
theorem ralloc_keeps_block_iff {α : Type} {layer : ArenaLayer c α} {h : ThreadHeap α}
    {addr poolSize ptr size : Nat} {mem : Nat → UInt8} {zeroed locksFail : Bool}
    {s : OwnerState} (fits : c.Fits) (region : Region c addr poolSize)
    (created : poolCreateEmpty c mem addr poolSize zeroed locksFail = some p)
    (reached : Reached PoolOp.Permitted (PoolOp.exec c) ⟨p, []⟩ s) (pool : h.pool = s.pool)
    (live : Live c layer h ptr) (nonempty : 0 < size) (sizeLt : size < Word.modulus)
    (noMemory noMemoryAgain : Bool) :
    ((jePoolRalloc c layer h ptr size noMemory noMemoryAgain).2 = none →
        BlockKept c layer h (jePoolRalloc c layer h ptr size noMemory noMemoryAgain).1 ptr) ↔
      ¬Loses c layer h ptr size noMemory noMemoryAgain := by
  have settled := (OwnerState.Settled.start fits region created).of_reached fits reached
  have ledger : Ledger c s.lending.usable h.pool [] (cover s.arena) := by
    rw [pool]
    exact settled.accounted.ledger
  have base : BaseRegion c h.pool := by
    rw [pool]
    exact settled.region
  exact jePoolRalloc_iff fits ledger settled.bounded base live nonempty sizeLt

/-- Arenas that have not been given a chunk. -/
def chunklessArenas : ArenaLayer defaultConfig Unit where
  salloc := fun _ _ => 0
  rallocNoMove := fun _ _ _ _ _ => none
  room := fun _ _ _ => false
  serve := fun arenas mem _ _ => (arenas, mem, 0)
  refuse := fun arenas _ _ => arenas
  addChunk := fun arenas _ _ => arenas
  newArena := fun arenas _ => arenas
  dalloc := fun arenas mem _ => (arenas, mem, [])
  salloc_le := fun _ _ => Nat.zero_le _
  refuse_salloc := fun _ _ _ _ => rfl
  refuse_room := fun _ _ _ refused => refused
  newArena_salloc := fun _ _ _ => rfl

/-- A thread that has not used the pool. -/
def newThread (p : Pool) : ThreadHeap Unit := ⟨p, (), [some 0], false, none⟩

/-- A huge block in a full pool cannot become larger, and is kept. -/
theorem ralloc_keeps_block_iff_full :
    ∃ p s, poolCreateEmpty defaultConfig (fun _ => 0) 4194304 16777216 true false = some p ∧
      PoolOp.exec defaultConfig ⟨p, []⟩
        (.call (.hugePalloc (some 0) 12582912 22 false false)) = some s ∧
      (jePoolRalloc defaultConfig chunklessArenas (newThread s.pool) 8388608 16777216 false
        false).2 = none ∧
      BlockKept defaultConfig chunklessArenas (newThread s.pool)
        (jePoolRalloc defaultConfig chunklessArenas (newThread s.pool) 8388608 16777216 false
          false).1 8388608 := by
  have outcome : ((poolCreateEmpty defaultConfig (fun _ => 0) 4194304 16777216 true
      false).bind fun p => (PoolOp.exec defaultConfig ⟨p, []⟩
        (.call (.hugePalloc (some 0) 12582912 22 false false))).map fun s =>
          (isalloc defaultConfig chunklessArenas (newThread s.pool) 8388608, s.pool.chunksSzad,
            (jePoolRalloc defaultConfig chunklessArenas (newThread s.pool) 8388608 16777216 false
              false).2)) = some (12582912, [], none) := by
    decide +kernel
  obtain ⟨p, created, ran⟩ := Option.bind_eq_some_iff.mp outcome
  obtain ⟨s, result, values⟩ := Option.map_eq_some_iff.mp ran
  injection values with oldsize others
  injection others with empty failed
  have region : Region defaultConfig 4194304 16777216 :=
    ⟨by decide +kernel, by decide +kernel, by decide +kernel⟩
  have live : Live defaultConfig chunklessArenas (newThread s.pool) 8388608 :=
    ⟨by decide, by rw [oldsize]; decide⟩
  have never : ¬Loses defaultConfig chunklessArenas (newThread s.pool) 8388608 16777216 false
      false := by
    unfold Loses
    rw [if_neg (by decide +kernel)]
    rintro ⟨_, _, _, _, _, starved⟩
    unfold Starved at starved
    rw [show (newThread s.pool).pool.chunksSzad = [] from empty] at starved
    exact starved
  have reached : Reached PoolOp.Permitted (PoolOp.exec defaultConfig) ⟨p, []⟩ s :=
    Reached.next Reached.start (show PoolOp.Permitted ⟨p, []⟩ (.call _) from trivial) result
  exact ⟨p, s, created, result, failed, (ralloc_keeps_block_iff defaultConfig_fits region created
    reached rfl live (by decide) (by decide) false false).mpr never failed⟩

/-- A thread whose arrays cannot be made longer asks for 100 bytes in the place of a block of
8 MiB: it gets `NULL`, and the block has 4 MiB. -/
theorem ralloc_shrinks_block :
    ∃ p s, poolCreateEmpty defaultConfig (fun _ => 0) 4194304 16777216 true false = some p ∧
      PoolOp.exec defaultConfig ⟨p, []⟩
        (.call (.hugePalloc (some 0) 8388608 22 false false)) = some s ∧
      isalloc defaultConfig chunklessArenas (newThread s.pool) 8388608 = 8388608 ∧
      (jePoolRalloc defaultConfig chunklessArenas (newThread s.pool) 8388608 100 true true).2 =
        none ∧
      isalloc defaultConfig chunklessArenas (jePoolRalloc defaultConfig chunklessArenas
        (newThread s.pool) 8388608 100 true true).1 8388608 = 4194304 ∧
      ¬BlockKept defaultConfig chunklessArenas (newThread s.pool)
        (jePoolRalloc defaultConfig chunklessArenas (newThread s.pool) 8388608 100 true true).1
        8388608 := by
  have outcome : ((poolCreateEmpty defaultConfig (fun _ => 0) 4194304 16777216 true
      false).bind fun p => (PoolOp.exec defaultConfig ⟨p, []⟩
        (.call (.hugePalloc (some 0) 8388608 22 false false))).map fun s =>
          (isalloc defaultConfig chunklessArenas (newThread s.pool) 8388608,
            (jePoolRalloc defaultConfig chunklessArenas (newThread s.pool) 8388608 100 true
              true).2,
            isalloc defaultConfig chunklessArenas (jePoolRalloc defaultConfig chunklessArenas
              (newThread s.pool) 8388608 100 true true).1 8388608)) =
      some (8388608, none, 4194304) := by
    decide +kernel
  obtain ⟨p, created, ran⟩ := Option.bind_eq_some_iff.mp outcome
  obtain ⟨s, result, values⟩ := Option.map_eq_some_iff.mp ran
  injection values with oldsize others
  injection others with failed newsize
  refine ⟨p, s, created, result, oldsize, failed, newsize, fun kept => ?_⟩
  have same := kept.size
  rw [oldsize, newsize] at same
  exact absurd same (by decide)

end Jemalloc
end Vmem
