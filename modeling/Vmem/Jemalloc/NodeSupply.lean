import Vmem.Jemalloc.OwnershipRun
import Vmem.Jemalloc.HugeLedger

/-!
# Nodes for the trailing space

When `chunk_recycle` cuts an extent on both sides it needs a second node, and it
drops the trailing space when there is none.  A pool from `pool_create_empty` has
at least as many nodes as usable chunks.  An extent that is cut on both sides has
three chunks, so two nodes are left over, and `huge_palloc` holds only one of them:
the second node is always there, also when other chunks were dropped before.
-/

namespace Vmem
namespace Jemalloc

/-- A call of `chunk_recycle`, with the pool it finds. -/
structure RecycleCall where
  pool : Pool
  newAddr : Nat
  size : Nat
  alignment : Nat

/-- The call cuts an extent on both sides and gets no node for the trailing space: this is
the branch of `chunk_recycle` that calls `chunk_dalloc_core`. -/
def RecycleCall.starved (c : Config) (call : RecycleCall) : Bool :=
  let allocSize := Word.sub (Word.add call.size call.alignment) c.chunksize
  if allocSize < call.size then false
  else
    match chunkRecycleTake call.pool call.newAddr call.size call.alignment allocSize with
    | none => false
    | some taken =>
        taken.trailsize != 0 && taken.node.isNone && (baseNodeAlloc taken.pool).2.isNone

/-- The call `huge_palloc` makes once it has a node for the block. -/
def hugePallocCalls (c : Config) (p : Pool) (arena : Option Nat) (size alignment : Nat) :
    List RecycleCall :=
  if c.chunkCeiling size = 0 ∨ arena = none then []
  else
    match baseNodeAlloc p with
    | (_, none) => []
    | (p, some _) => [⟨p, 0, c.chunkCeiling size, alignment⟩]

/-- The call `huge_ralloc_no_move_expand` makes. -/
def expandCalls (c : Config) (p : Pool) (ptr oldsize size : Nat) : List RecycleCall :=
  if c.chunkCeiling size = 0 then []
  else [⟨p, Word.add ptr oldsize, Word.sub (c.chunkCeiling size) oldsize, c.chunksize⟩]

/-- The calls `huge_ralloc_no_move` makes: one for each attempt to expand. -/
def hugeRallocNoMoveCalls (c : Config) (p : Pool) (ptr oldsize size extra : Nat)
    (zero rtreeFails : Bool) : List RecycleCall :=
  if oldsize ≤ c.arenaMaxclass then []
  else if c.chunkCeiling size ≤ c.chunkCeiling oldsize ∧
      c.chunkCeiling oldsize ≤ c.chunkCeiling (Word.add size extra) then []
  else if c.chunkCeiling size = 0 then []
  else if c.chunkCeiling size < c.chunkCeiling oldsize then []
  else
    expandCalls c p ptr oldsize (Word.add size extra) ++
      match hugeRallocNoMoveExpand c p ptr oldsize (Word.add size extra) zero rtreeFails with
      | (_, false) => []
      | (p, true) => if extra = 0 then [] else expandCalls c p ptr oldsize size

/-- The call `base_alloc` makes when its region is used up. -/
def baseAllocCalls (c : Config) (p : Pool) (size : Nat) : List RecycleCall :=
  if Word.add p.baseNextAddr (cachelineCeiling size) > p.basePastAddr then
    [⟨p, 0, c.chunkCeiling (cachelineCeiling size), c.chunksize⟩]
  else []

/-- The calls of `chunk_recycle` in an operation. -/
def OwnerState.recycleCalls (c : Config) (s : OwnerState) : OwnerOp → List RecycleCall
  | .hugePalloc arena size lgAlign _ _ => hugePallocCalls c s.pool arena size (2 ^ lgAlign)
  | .hugeRallocNoMove ptr size extra zero rtreeFails _ =>
      hugeRallocNoMoveCalls c s.pool ptr (hugePoolSalloc s.pool ptr) size extra zero rtreeFails
  | .hugeDalloc _ => []
  | .chunkAllocDefault newAddr size lgAlign _ => [⟨s.pool, newAddr, size, 2 ^ lgAlign⟩]
  | .chunkAllocArena newAddr size lgAlign _ _ => [⟨s.pool, newAddr, size, 2 ^ lgAlign⟩]
  | .chunkDallocDefault _ _ => []
  | .baseAlloc size => baseAllocCalls c s.pool size

/-! ## One call -/

section Call

variable {c : Config} {usable : Span} {p : Pool} {held : List Nat} {others : Nat → Nat}

/-- Without a node only an extent of three chunks starves a call. -/
theorem RecycleCall.exists_long {call : RecycleCall} (trees : FreeTrees c call.pool)
    (request : Request c call.size call.alignment) (starves : call.starved c = true) :
    call.pool.baseNodes = [] ∧
      ∃ n ∈ call.pool.chunksAd, 3 * c.chunksize ≤ (call.pool.node n).size := by
  unfold starved at starves
  simp only at starves
  split at starves
  · cases starves
  next enough =>
  rw [allocSize_eq request enough] at starves
  cases found : chunkRecycleTake call.pool call.newAddr call.size call.alignment
      (call.size + call.alignment - c.chunksize) with
  | none => simp [found] at starves
  | some taken =>
      simp only [found, Bool.and_eq_true, bne_iff_ne, Option.isNone_iff_eq_none] at starves
      obtain ⟨⟨trails, noNode⟩, noneLeft⟩ := starves
      obtain ⟨n, lead, source⟩ := chunkRecycleTake_some trees request found
      have unused := (source.take_section trees).edit.baseNodes
      rcases source.outcome with ⟨_, node_eq, _⟩ | ⟨leads, _, _⟩
      · rw [node_eq] at noNode
        cases noNode
      · refine ⟨?_, n, source.member, source.three_chunks request leads trails⟩
        rw [← unused]
        cases nodes : taken.pool.baseNodes with
        | nil => rfl
        | cons m rest => simp [baseNodeAlloc, nodes] at noneLeft

/-- With as many nodes as chunks no call is starved while at most one node is held. -/
theorem Ledger.not_starved {newAddr size alignment : Nat}
    (ledger : Ledger c usable.ind p held others) (whole : ChunkSpan c usable)
    (budget : usable.len / c.chunksize ≤ p.nodeCount) (few : held.length ≤ 1)
    (request : Request c size alignment) :
    (RecycleCall.mk p newAddr size alignment).starved c = false := by
  by_contra starves
  rw [Bool.not_eq_false] at starves
  obtain ⟨empty, n, member, long⟩ := RecycleCall.exists_long ledger.trees request starves
  exact ledger.available_of_long whole budget member long few empty

end Call

/-! ## Whole runs -/

/-- The ledger of a pool whose arenas hold whole chunks. -/
structure OwnerState.Accounted (c : Config) (bound : Nat → Nat) (s : OwnerState) : Prop where
  ledger : Ledger c bound s.pool [] (cover s.arena)
  arena : ∀ span ∈ s.arena, ChunkSpan c span

/-- A call that keeps the ledger, makes no node disappear and leaves the ranges of the pool
alone. -/
structure OwnerState.Accounts (c : Config) (bound : Nat → Nat) (s s' : OwnerState) : Prop where
  accounted : s'.Accounted c bound
  nodeCount : s.pool.nodeCount ≤ s'.pool.nodeCount
  memoryRanges : s'.pool.memoryRanges = s.pool.memoryRanges
  coalesced : Coalesced s.pool → Coalesced s'.pool

namespace OwnerState.Accounted

variable {c : Config} {bound : Nat → Nat} {s : OwnerState}

/-- A call that leaves the arenas alone. -/
theorem update {p' : Pool} (accounted : s.Accounted c bound)
    (ledger : Ledger c bound p' [] (cover s.arena)) (kept : PoolKept s.pool p') :
    Accounts c bound s ⟨p', s.arena⟩ where
  accounted := ⟨ledger, accounted.arena⟩
  nodeCount := le_of_eq kept.nodeCount.symm
  memoryRanges := kept.memoryRanges
  coalesced := kept.coalesced

/-- Chunks allocated for an arena. -/
theorem take {p' : Pool} {newAddr size alignment ret : Nat} {zero zeroOut : Bool}
    (accounted : s.Accounted c bound)
    (allotted : Ledger.Allotted c bound s.pool p' [] (cover s.arena) newAddr size alignment
      zero ret) : Accounts c bound s (s.take size (p', some (ret, zeroOut))) where
  accounted := by
    have same : (fun x => cover s.arena x + (Span.mk ret size).ind x) =
        cover (⟨ret, size⟩ :: s.arena) := by
      funext x
      rw [cover_cons, Nat.add_comm]
    refine ⟨same ▸ allotted.ledger, ?_⟩
    intro span member
    rcases List.mem_cons.mp member with rfl | old
    · exact allotted.valid
    · exact accounted.arena span old
  nodeCount := le_of_eq allotted.moved.nodeCount.symm
  memoryRanges := allotted.moved.memoryRanges
  coalesced := allotted.moved.coalesced

/-- Every call keeps the ledger. -/
theorem exec {op : OwnerOp} {s' : OwnerState} (accounted : s.Accounted c bound)
    (bounded : Bounded bound) (result : s.exec c op = some s') : Accounts c bound s s' := by
  have ledger := accounted.ledger
  cases op with
  | hugePalloc arena size lgAlign zero rtreeFails =>
      simp only [OwnerState.exec, OwnerState.execIn, Option.ite_none_right_eq_some,
        Option.some.injEq] at result
      obtain ⟨⟨_, lower, upper⟩, rfl⟩ := result
      obtain ⟨kept, moved, _⟩ := ledger.palloc bounded ⟨lgAlign, lower, upper, rfl⟩ arena size
        zero rtreeFails
      exact accounted.update kept moved
  | hugeRallocNoMove ptr size extra zero rtreeFails rtreeFailsAgain =>
      simp only [OwnerState.exec, OwnerState.execIn] at result
      cases found : s.pool.hugeSearch ptr with
      | none => simp [found] at result
      | some n =>
          simp only [found, Option.ite_none_right_eq_some, Option.some.injEq] at result
          obtain ⟨⟨sizeLt, noWrap⟩, rfl⟩ := result
          obtain ⟨after, failed, resized, kept, moved, _⟩ := ledger.rallocNoMove bounded found
            sizeLt noWrap zero rtreeFails rtreeFailsAgain
          rw [resized]
          exact accounted.update kept moved
  | hugeDalloc ptr =>
      simp only [OwnerState.exec, OwnerState.execIn] at result
      cases found : s.pool.hugeSearch ptr with
      | none => simp [found] at result
      | some n =>
          simp only [found, Option.some.injEq] at result
          subst result
          obtain ⟨kept, moved⟩ := ledger.hugeDalloc bounded found
          exact accounted.update kept moved
  | chunkAllocDefault newAddr size lgAlign zero =>
      simp only [OwnerState.exec, OwnerState.execIn, Option.ite_none_right_eq_some,
        Option.some.injEq] at result
      obtain ⟨⟨nonempty, divides, sizeLt, lower, upper⟩, rfl⟩ := result
      have request : Request c size (2 ^ lgAlign) :=
        ⟨nonempty, divides, sizeLt, lgAlign, lower, upper, rfl⟩
      rcases ledger.recycle request newAddr zero with
        ⟨p', ret, zeroOut, result, allotted⟩ | ⟨p', result, kept, moved, _⟩
      · rw [Jemalloc.chunkAllocDefault, result]
        exact accounted.take allotted
      · rw [Jemalloc.chunkAllocDefault, result]
        exact accounted.update kept moved
  | chunkAllocArena newAddr size lgAlign zero rtreeFails =>
      simp only [OwnerState.exec, OwnerState.execIn, Option.ite_none_right_eq_some,
        Option.some.injEq] at result
      obtain ⟨⟨nonempty, divides, sizeLt, lower, upper⟩, rfl⟩ := result
      have request : Request c size (2 ^ lgAlign) :=
        ⟨nonempty, divides, sizeLt, lgAlign, lower, upper, rfl⟩
      rcases ledger.allocArena bounded request newAddr zero rtreeFails with
        ⟨p', ret, zeroOut, result, allotted⟩ | ⟨p', result, kept, moved, _⟩
      · rw [result]
        exact accounted.take allotted
      · rw [result]
        exact accounted.update kept moved
  | chunkDallocDefault chunk size =>
      simp only [OwnerState.exec, OwnerState.execIn, Option.ite_none_right_eq_some,
        Option.some.injEq] at result
      obtain ⟨member, rfl⟩ := result
      have split : cover s.arena = fun x =>
          cover (s.arena.erase ⟨chunk, size⟩) x + (Span.mk chunk size).ind x := by
        funext x
        rw [cover_perm (List.perm_cons_erase member), cover_cons, Nat.add_comm]
      rw [split] at ledger
      obtain ⟨kept, moved, _⟩ := ledger.dalloc bounded (accounted.arena _ member)
      exact {
        accounted := ⟨kept, fun span inRest =>
          accounted.arena span (List.mem_of_mem_erase inRest)⟩
        nodeCount := le_of_eq moved.nodeCount.symm
        memoryRanges := moved.memoryRanges
        coalesced := moved.coalesced }
  | baseAlloc size =>
      simp only [OwnerState.exec, OwnerState.execIn, Option.ite_none_right_eq_some,
        Option.some.injEq] at result
      obtain ⟨⟨nonempty, fits⟩, rfl⟩ := result
      have step := baseAlloc_step ledger.trees ledger.apart ⟨nonempty, fits⟩
      obtain ⟨count, total, _⟩ := step.change.created
      exact {
        accounted := ⟨ledger.change step.change fun _ => rfl, accounted.arena⟩
        nodeCount := by
          dsimp only
          omega
        memoryRanges := step.ranges
        coalesced := step.coalesced }

end OwnerState.Accounted

/-- The account of a pool with at least as many nodes as usable chunks.  Chunks may have been
dropped. -/
structure OwnerState.Supplied (c : Config) (usable : Span) (s : OwnerState) : Prop where
  whole : ChunkSpan c usable
  below : usable.lo + usable.len < Word.modulus
  budget : usable.len / c.chunksize ≤ s.pool.nodeCount
  ledger : Ledger c usable.ind s.pool [] (cover s.arena)
  arena : ∀ span ∈ s.arena, ChunkSpan c span

namespace OwnerState.Supplied

variable {c : Config} {usable : Span} {s : OwnerState}

theorem bounded (supplied : s.Supplied c usable) : Bounded usable.ind where
  once := Span.ind_le_one usable
  below := by
    intro x positive
    have upper := (Span.ind_pos_iff.mp positive).2
    have := supplied.below
    omega

/-- Every call keeps the account. -/
theorem exec {op : OwnerOp} {s' : OwnerState} (supplied : s.Supplied c usable)
    (result : s.exec c op = some s') : s'.Supplied c usable := by
  have accounted : s.Accounted c usable.ind := ⟨supplied.ledger, supplied.arena⟩
  have accounts := accounted.exec supplied.bounded result
  exact {
    whole := supplied.whole
    below := supplied.below
    budget := supplied.budget.trans accounts.nodeCount
    ledger := accounts.accounted.ledger
    arena := accounts.accounted.arena }

/-- A call with at most one node in hand is not starved. -/
theorem not_starved {p' : Pool} {held : List Nat} {others : Nat → Nat}
    {newAddr size alignment : Nat} (supplied : s.Supplied c usable)
    (ledger : Ledger c usable.ind p' held others) (count : p'.nodeCount = s.pool.nodeCount)
    (few : held.length ≤ 1) (request : Request c size alignment) :
    ∀ call ∈ [RecycleCall.mk p' newAddr size alignment], call.starved c = false := by
  intro call member
  rw [List.mem_singleton.mp member]
  exact ledger.not_starved supplied.whole (count ▸ supplied.budget) few request

/-- An attempt to expand a block is not starved. -/
theorem expand_not_starved {p' : Pool} {ptr n size : Nat} (supplied : s.Supplied c usable)
    (ledger : Ledger c usable.ind p' [] (cover s.arena))
    (count : p'.nodeCount = s.pool.nodeCount) (member : n ∈ p'.huge)
    (larger : c.chunkCeiling size ≠ 0 → (p'.node n).size < c.chunkCeiling size) :
    ∀ call ∈ expandCalls c p' ptr (p'.node n).size size, call.starved c = false := by
  unfold expandCalls
  split
  · exact fun _ absurd_ => absurd absurd_ List.not_mem_nil
  next fits =>
  have extent := ledger.hugeExtent n member
  have grows := larger fits
  have newDvd := c.dvd_chunkCeiling size
  have newLt := c.chunkCeiling_lt size
  have sizeEq : Word.sub (c.chunkCeiling size) (p'.node n).size =
      c.chunkCeiling size - (p'.node n).size := Word.sub_eq (by omega) newLt
  rw [sizeEq]
  exact supplied.not_starved ledger count (by simp)
    (Request.of_chunksize (by omega) (Nat.dvd_sub newDvd extent.size_dvd) (by omega))

/-- `huge_ralloc_no_move` of a live block makes no call that is starved. -/
theorem ralloc_not_starved {ptr n size extra : Nat} (supplied : s.Supplied c usable)
    (found : s.pool.hugeSearch ptr = some n) (sizeLt : size < Word.modulus)
    (noWrap : extra ≠ 0 → size + extra + c.chunksize ≤ Word.modulus) (zero rtreeFails : Bool) :
    ∀ call ∈ hugeRallocNoMoveCalls c s.pool ptr (s.pool.node n).size size extra zero rtreeFails,
      call.starved c = false := by
  have ledger := supplied.ledger
  have none_ : ∀ call ∈ ([] : List RecycleCall), call.starved c = false :=
    fun _ absurd_ => absurd absurd_ List.not_mem_nil
  obtain ⟨member, starts⟩ := hugeSearch_some found
  have extent := ledger.hugeExtent n member
  have below := extent.below
  have oldCeiling : c.chunkCeiling (s.pool.node n).size = (s.pool.node n).size :=
    c.chunkCeiling_eq extent.size_dvd (by omega)
  unfold hugeRallocNoMoveCalls
  rw [oldCeiling]
  split
  · exact none_
  split
  · exact none_
  next different =>
  split
  · exact none_
  split
  · exact none_
  next notSmaller =>
  -- neither attempt asks for less than the block has
  have mono := c.chunkCeiling_extra sizeLt noWrap
  generalize Word.add size extra = most at *
  have grows : (s.pool.node n).size < c.chunkCeiling size := by
    by_contra atMost
    exact different ⟨by omega, by omega⟩
  have growsMore : c.chunkCeiling most ≠ 0 →
      (s.pool.node n).size < c.chunkCeiling most := fun _ => by omega
  intro call inCalls
  rcases List.mem_append.mp inCalls with first | second
  · exact supplied.expand_not_starved ledger rfl member growsMore call first
  rcases ledger.expand supplied.bounded found growsMore zero rtreeFails with
    ⟨p', result, _⟩ | ⟨p', result, failed, moved, same⟩
  · rw [result] at second
    exact none_ call second
  · rw [result] at second
    simp only at second
    split at second
    · exact none_ call second
    · have node := same.node n member
      have linked : n ∈ p'.huge := same.huge ▸ member
      rw [← node] at second grows
      exact supplied.expand_not_starved failed moved.nodeCount linked (fun _ => grows) call second

/-- No call of `chunk_recycle` in any operation is starved. -/
theorem recycleCalls {op : OwnerOp} {s' : OwnerState} (supplied : s.Supplied c usable)
    (result : s.exec c op = some s') :
    ∀ call ∈ s.recycleCalls c op, call.starved c = false := by
  have ledger := supplied.ledger
  have none_ : ∀ call ∈ ([] : List RecycleCall), call.starved c = false :=
    fun _ absurd_ => absurd absurd_ List.not_mem_nil
  cases op with
  | hugePalloc arena size lgAlign zero rtreeFails =>
      simp only [OwnerState.exec, OwnerState.execIn, Option.ite_none_right_eq_some,
        Option.some.injEq] at result
      obtain ⟨⟨_, lower, upper⟩, rfl⟩ := result
      dsimp only [OwnerState.recycleCalls, hugePallocCalls]
      split
      · exact none_
      next wraps =>
      have request : Request c (c.chunkCeiling size) (2 ^ lgAlign) := {
        nonempty := Nat.pos_of_ne_zero fun zero => wraps (Or.inl zero)
        size_dvd := c.dvd_chunkCeiling size
        size_lt := c.chunkCeiling_lt size
        power := ⟨lgAlign, lower, upper, rfl⟩ }
      cases nodes : s.pool.baseNodes with
      | nil =>
          simp only [baseNodeAlloc, nodes]
          exact none_
      | cons n rest =>
          simp only [baseNodeAlloc, nodes]
          exact supplied.not_starved (ledger.takeNode nodes) rfl (by simp) request
  | hugeRallocNoMove ptr size extra zero rtreeFails rtreeFailsAgain =>
      simp only [OwnerState.exec, OwnerState.execIn] at result
      cases found : s.pool.hugeSearch ptr with
      | none => simp [found] at result
      | some n =>
          simp only [found, Option.ite_none_right_eq_some, Option.some.injEq] at result
          obtain ⟨⟨sizeLt, noWrap⟩, rfl⟩ := result
          have oldsize : hugePoolSalloc s.pool ptr = (s.pool.node n).size := by
            unfold hugePoolSalloc
            rw [found]
          dsimp only [OwnerState.recycleCalls]
          rw [oldsize]
          exact supplied.ralloc_not_starved found sizeLt noWrap zero rtreeFails
  | hugeDalloc ptr => exact none_
  | chunkAllocDefault newAddr size lgAlign zero =>
      simp only [OwnerState.exec, OwnerState.execIn, Option.ite_none_right_eq_some,
        Option.some.injEq] at result
      obtain ⟨⟨nonempty, divides, sizeLt, lower, upper⟩, _⟩ := result
      exact supplied.not_starved ledger rfl (by simp)
        ⟨nonempty, divides, sizeLt, lgAlign, lower, upper, rfl⟩
  | chunkAllocArena newAddr size lgAlign zero rtreeFails =>
      simp only [OwnerState.exec, OwnerState.execIn, Option.ite_none_right_eq_some,
        Option.some.injEq] at result
      obtain ⟨⟨nonempty, divides, sizeLt, lower, upper⟩, _⟩ := result
      exact supplied.not_starved ledger rfl (by simp)
        ⟨nonempty, divides, sizeLt, lgAlign, lower, upper, rfl⟩
  | chunkDallocDefault chunk size => exact none_
  | baseAlloc size =>
      simp only [OwnerState.exec, OwnerState.execIn, Option.ite_none_right_eq_some,
        Option.some.injEq] at result
      obtain ⟨⟨nonempty, fits⟩, _⟩ := result
      have request : BaseRequest c size := ⟨nonempty, fits⟩
      dsimp only [OwnerState.recycleCalls, baseAllocCalls]
      split
      · exact supplied.not_starved ledger rfl (by simp) request.chunks
      · exact none_

end OwnerState.Supplied

/-- A new pool has at least as many nodes as usable chunks. -/
theorem FreshPool.supplied {c : Config} {addr size : Nat} {p : Pool} (fits : c.Fits)
    (region : Region c addr size) (fresh : FreshPool c addr size p) :
    (OwnerState.mk p []).Supplied c ⟨usableAddr c addr size, usableSize c addr size⟩ := by
  obtain ⟨_, inside⟩ := usable_spec fits region
  have lower := inside.lower
  have upper := inside.upper
  have below := region.below
  exact {
    whole := ⟨inside.nonempty, inside.length_dvd, inside.usable_dvd⟩
    below := by
      dsimp only
      omega
    budget := by
      rw [fresh.nodeCount]
      apply Nat.div_le_div_right
      dsimp only
      omega
    ledger := fresh.ledger
    arena := fun _ member => absurd member List.not_mem_nil }

/-- In every state that is reached from a new pool, whatever is called next: `chunk_recycle`
gets a node for the trailing space whenever it needs one. -/
theorem recycle_never_starved {c : Config} {addr size : Nat} {mem : Nat → UInt8}
    {zeroed locksFail : Bool} {p : Pool} (fits : c.Fits) (region : Region c addr size)
    (created : poolCreateEmpty c mem addr size zeroed locksFail = some p)
    (ops : List OwnerOp) {s : OwnerState}
    (run : runs (OwnerState.exec c) ⟨p, []⟩ ops = some s) :
    ∀ op after, s.exec c op = some after →
      ∀ call ∈ s.recycleCalls c op, call.starved c = false := by
  have fresh := (poolCreateEmpty_fresh fits region created).1
  have supplied : s.Supplied c ⟨usableAddr c addr size, usableSize c addr size⟩ :=
    runs_invariant (fun _ _ _ before result => before.exec result)
      (fresh.supplied fits region) run
  exact fun op after result => supplied.recycleCalls result

/-- The four usable chunks of this pool start on an odd chunk, so a chunk that is aligned to
two chunks leaves an extent on each side. -/
theorem recycle_never_starved_aligned :
    ∃ p s, poolCreateEmpty defaultConfig (fun _ => 0) 8388608 20971520 true false = some p ∧
      (OwnerState.mk p []).exec defaultConfig (.hugePalloc (some 0) 4194304 23 false false) =
        some s ∧
      s.pool.chunksAd.length = 2 ∧
      ((OwnerState.mk p []).recycleCalls defaultConfig
        (.hugePalloc (some 0) 4194304 23 false false)).length = 1 ∧
      ∀ call ∈ (OwnerState.mk p []).recycleCalls defaultConfig
        (.hugePalloc (some 0) 4194304 23 false false), call.starved defaultConfig = false := by
  have outcome : ((poolCreateEmpty defaultConfig (fun _ => 0) 8388608 20971520 true
      false).bind fun p => ((OwnerState.mk p []).exec defaultConfig
        (.hugePalloc (some 0) 4194304 23 false false)).map fun s =>
          (s.pool.chunksAd.length, ((OwnerState.mk p []).recycleCalls defaultConfig
            (.hugePalloc (some 0) 4194304 23 false false)).length)) = some (2, 1) := by
    decide +kernel
  obtain ⟨p, created, ran⟩ := Option.bind_eq_some_iff.mp outcome
  obtain ⟨s, result, values⟩ := Option.map_eq_some_iff.mp ran
  have region : Region defaultConfig 8388608 20971520 :=
    ⟨by decide +kernel, by decide +kernel, by decide +kernel⟩
  exact ⟨p, s, created, result, congrArg Prod.fst values, congrArg Prod.snd values,
    recycle_never_starved defaultConfig_fits region created [] rfl _ s result⟩

end Jemalloc
end Vmem
