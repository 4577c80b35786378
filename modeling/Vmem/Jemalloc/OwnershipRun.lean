import Vmem.Library.Run
import Vmem.Jemalloc.HugeAccounts
import Vmem.Jemalloc.RecordOutcome

/-!
# No chunk of a pool is lost

A pool is used by one caller after another: huge blocks are allocated, resized
in place and freed, arenas take and return chunks, and the base allocator takes
chunks for good.  `pool_create_empty` makes `size / chunksize` extent nodes.
When that is more than the number of usable chunks, and none of them is in the
data segment, every address of the usable range has exactly one owner in every
state that is reached, and nothing is ever dropped.
-/

namespace Vmem
namespace Jemalloc

/-- A pool together with the ranges arenas hold. -/
structure OwnerState where
  pool : Pool
  arena : List Span

/-- The calls that move chunks. -/
inductive OwnerOp
  /-- `huge_palloc`; `arena` is what `choose_arena` returns. -/
  | hugePalloc (arena : Option Nat) (size lgAlign : Nat) (zero rtreeFails : Bool)
  /-- `huge_ralloc_no_move` of the block at `ptr`. -/
  | hugeRallocNoMove (ptr size extra : Nat) (zero rtreeFails rtreeFailsAgain : Bool)
  /-- `huge_dalloc` of the block at `ptr`. -/
  | hugeDalloc (ptr : Nat)
  /-- `chunk_alloc_default` for an arena. -/
  | chunkAllocDefault (newAddr size lgAlign : Nat) (zero : Bool)
  /-- `chunk_alloc_arena`, which registers the chunks as well. -/
  | chunkAllocArena (newAddr size lgAlign : Nat) (zero rtreeFails : Bool)
  /-- `chunk_dalloc_default` of a range an arena holds. -/
  | chunkDallocDefault (chunk size : Nat)
  /-- `base_alloc`, which may take chunks for metadata. -/
  | baseAlloc (size : Nat)

/-- Enter the result of a chunk allocation. -/
def OwnerState.take (s : OwnerState) (size : Nat) (result : Pool × Option (Nat × Bool)) :
    OwnerState :=
  match result with
  | (p, none) => { s with pool := p }
  | (p, some (ret, _)) => { pool := p, arena := ⟨ret, size⟩ :: s.arena }

/-- Execute one call while the data segment is what is given; `none` when its
arguments are not ones it is made for. -/
def OwnerState.execIn (c : Config) (dss : Dss) (s : OwnerState) : OwnerOp → Option OwnerState
  | .hugePalloc arena size lgAlign zero rtreeFails =>
      if size < Word.modulus ∧ c.lgChunk ≤ lgAlign ∧ lgAlign < 64 then
        some { s with pool :=
          (hugePalloc c s.pool arena size (2 ^ lgAlign) zero rtreeFails dss).1 }
      else none
  | .hugeRallocNoMove ptr size extra zero rtreeFails rtreeFailsAgain =>
      match s.pool.hugeSearch ptr with
      | none => none
      | some n =>
          if size < Word.modulus ∧
              (extra ≠ 0 → size + extra + c.chunksize ≤ Word.modulus) then
            some { s with pool := (hugeRallocNoMove c s.pool ptr (s.pool.node n).size
              size extra zero rtreeFails rtreeFailsAgain dss).1 }
          else none
  | .hugeDalloc ptr =>
      match s.pool.hugeSearch ptr with
      | none => none
      | some _ => some { s with pool := hugeDalloc c s.pool ptr dss }
  | .chunkAllocDefault newAddr size lgAlign zero =>
      if 0 < size ∧ c.chunksize ∣ size ∧ size < Word.modulus ∧
          c.lgChunk ≤ lgAlign ∧ lgAlign < 64 then
        some (s.take size (chunkAllocDefault c s.pool newAddr size (2 ^ lgAlign) zero dss))
      else none
  | .chunkAllocArena newAddr size lgAlign zero rtreeFails =>
      if 0 < size ∧ c.chunksize ∣ size ∧ size < Word.modulus ∧
          c.lgChunk ≤ lgAlign ∧ lgAlign < 64 then
        some (s.take size
          (chunkAllocArena c s.pool newAddr size (2 ^ lgAlign) zero rtreeFails dss))
      else none
  | .chunkDallocDefault chunk size =>
      if ⟨chunk, size⟩ ∈ s.arena then
        some {
          pool := chunkDallocDefault c s.pool chunk size dss
          arena := s.arena.erase ⟨chunk, size⟩ }
      else none
  | .baseAlloc size =>
      if 0 < size ∧ size + cacheline + c.chunksize ≤ Word.modulus then
        some { s with pool := (baseAlloc c s.pool size dss).1 }
      else none

/-- Execute one call while the data segment is empty. -/
def OwnerState.exec (c : Config) (s : OwnerState) (op : OwnerOp) : Option OwnerState :=
  s.execIn c .empty op

/-- The account of a state between two calls. -/
structure OwnerState.Sound (c : Config) (usable : Span) (s : OwnerState) : Prop where
  account : Account c usable s.pool [] (cover s.arena)
  arena : ∀ span ∈ s.arena, ChunkSpan c span

namespace OwnerState.Sound

variable {c : Config} {usable : Span} {s : OwnerState}

/-- Chunks allocated for an arena. -/
theorem take {p' : Pool} {newAddr size alignment ret : Nat} {zeroOut : Bool}
    (sound : s.Sound c usable)
    (allocated : Account.Allocated c usable s.pool p' [] (cover s.arena)
      newAddr size alignment ret) :
    (s.take size (p', some (ret, zeroOut))).Sound c usable where
  account := by
    have same : (fun x => cover s.arena x + (Span.mk ret size).ind x) =
        cover (⟨ret, size⟩ :: s.arena) := by
      funext x
      rw [cover_cons, Nat.add_comm]
    exact same ▸ allocated.account
  arena := by
    intro span member
    rcases List.mem_cons.mp member with rfl | old
    · exact allocated.valid
    · exact sound.arena span old

theorem baseAlloc {dss : Dss} {size : Nat} (outside : Outside c dss usable)
    (sound : s.Sound c usable) (request : BaseRequest c size) :
    Account c usable (baseAlloc c s.pool size dss).1 [] (cover s.arena) := by
  have account := sound.account
  rw [baseAlloc_eq account.ledger.trees request fun n member x has =>
    outside.chunk (account.inside_free member has)]
  have step := baseAlloc_step account.ledger.trees account.ledger.apart request
  obtain ⟨count, total, _⟩ := step.change.created
  exact account.update (account.ledger.change step.change fun _ => rfl)
    (step.coalesced account.coalesced) step.kept (by omega)

/-- Every call keeps the account. -/
theorem execIn {dss : Dss} {op : OwnerOp} {s' : OwnerState} (outside : Outside c dss usable)
    (sound : s.Sound c usable) (result : s.execIn c dss op = some s') : s'.Sound c usable := by
  cases op with
  | hugePalloc arena size lgAlign zero rtreeFails =>
      simp only [OwnerState.execIn, Option.ite_none_right_eq_some, Option.some.injEq] at result
      obtain ⟨⟨_, lower, upper⟩, rfl⟩ := result
      exact ⟨sound.account.palloc outside ⟨lgAlign, lower, upper, rfl⟩ .., sound.arena⟩
  | hugeRallocNoMove ptr size extra zero rtreeFails rtreeFailsAgain =>
      simp only [OwnerState.execIn] at result
      cases found : s.pool.hugeSearch ptr with
      | none => simp [found] at result
      | some n =>
          simp only [found, Option.ite_none_right_eq_some, Option.some.injEq] at result
          obtain ⟨⟨sizeLt, noWrap⟩, rfl⟩ := result
          exact ⟨sound.account.rallocNoMove outside found sizeLt noWrap .., sound.arena⟩
  | hugeDalloc ptr =>
      simp only [OwnerState.execIn] at result
      cases found : s.pool.hugeSearch ptr with
      | none => simp [found] at result
      | some n =>
          simp only [found, Option.some.injEq] at result
          subst result
          exact ⟨sound.account.hugeDalloc outside found, sound.arena⟩
  | chunkAllocDefault newAddr size lgAlign zero =>
      simp only [OwnerState.execIn, Option.ite_none_right_eq_some, Option.some.injEq] at result
      obtain ⟨⟨nonempty, divides, sizeLt, lower, upper⟩, rfl⟩ := result
      have request : Request c size (2 ^ lgAlign) :=
        ⟨nonempty, divides, sizeLt, lgAlign, lower, upper, rfl⟩
      rcases sound.account.recycle outside request (by simp) newAddr zero with
        ⟨p', ret, zeroOut, result, allocated⟩ | result
      · rw [Jemalloc.chunkAllocDefault, result]
        exact sound.take allocated
      · rw [Jemalloc.chunkAllocDefault, result]
        exact sound
  | chunkAllocArena newAddr size lgAlign zero rtreeFails =>
      simp only [OwnerState.execIn, Option.ite_none_right_eq_some, Option.some.injEq] at result
      obtain ⟨⟨nonempty, divides, sizeLt, lower, upper⟩, rfl⟩ := result
      have request : Request c size (2 ^ lgAlign) :=
        ⟨nonempty, divides, sizeLt, lgAlign, lower, upper, rfl⟩
      rcases sound.account.allocArena outside request (by simp) newAddr zero rtreeFails with
        ⟨p', ret, zeroOut, result, allocated⟩ | ⟨p', result, returned, _⟩
      · rw [result]
        exact sound.take allocated
      · rw [result]
        exact ⟨returned, sound.arena⟩
  | chunkDallocDefault chunk size =>
      simp only [OwnerState.execIn, Option.ite_none_right_eq_some, Option.some.injEq] at result
      obtain ⟨member, rfl⟩ := result
      have split : cover s.arena = fun x =>
          cover (s.arena.erase ⟨chunk, size⟩) x + (Span.mk chunk size).ind x := by
        funext x
        rw [cover_perm (List.perm_cons_erase member), cover_cons, Nat.add_comm]
      have account := sound.account
      rw [split] at account
      exact ⟨(account.dalloc outside (sound.arena _ member) (by simp)).1,
        fun span inRest => sound.arena span (List.mem_of_mem_erase inRest)⟩
  | baseAlloc size =>
      simp only [OwnerState.execIn, Option.ite_none_right_eq_some, Option.some.injEq] at result
      obtain ⟨⟨nonempty, fits⟩, rfl⟩ := result
      exact ⟨sound.baseAlloc outside ⟨nonempty, fits⟩, sound.arena⟩

end OwnerState.Sound

/-- A pool has more nodes than usable chunks when rounding its metadata up to a
chunk boundary costs more than the odd bytes at its end. -/
theorem usable_lt_nodes {c : Config} {addr size : Nat} (fits : c.Fits)
    (region : Region c addr size)
    (spare : size % c.chunksize < usableAddr c addr size - addr) :
    usableSize c addr size / c.chunksize < size / c.chunksize := by
  obtain ⟨_, inside⟩ := usable_spec fits region
  have lower := inside.lower
  have upper := inside.upper
  have nonempty := inside.nonempty
  have positive := c.chunksize_pos
  have division := Nat.div_add_mod size c.chunksize
  have floorLe := Word.floor_le (addr + size - usableAddr c addr size) c.chunksize
  rw [Nat.div_lt_iff_lt_mul positive]
  have sizeLe : usableSize c addr size ≤ addr + size - usableAddr c addr size := floorLe
  rw [Nat.mul_comm]
  omega

/-- The account of a fresh pool with a node to spare. -/
theorem FreshPool.sound {c : Config} {addr size : Nat} {p : Pool} (fits : c.Fits)
    (region : Region c addr size)
    (spare : size % c.chunksize < usableAddr c addr size - addr)
    (fresh : FreshPool c addr size p) :
    (OwnerState.mk p []).Sound c ⟨usableAddr c addr size, usableSize c addr size⟩ := by
  obtain ⟨_, inside⟩ := usable_spec fits region
  have upper := inside.upper
  have below := region.below
  refine ⟨{
    whole := ⟨inside.nonempty, inside.length_dvd, inside.usable_dvd⟩
    below := by
      dsimp only
      omega
    budget := by
      rw [fresh.nodeCount]
      exact usable_lt_nodes fits region spare
    ledger := fresh.ledger
    coalesced := fresh.coalesced
    kept := fresh.leaked }, fun _ member => absurd member List.not_mem_nil⟩

/-- A call, and the data segment while it runs. -/
structure OwnerCall where
  op : OwnerOp
  dss : Dss

/-- Execute a call. -/
def OwnerCall.exec (c : Config) (s : OwnerState) (call : OwnerCall) : Option OwnerState :=
  s.execIn c call.dss call.op

/-- In every run on a pool with a node to spare, none of which lies in the data
segment while a call runs, each usable address has exactly one owner, nothing is
dropped, and once everything is returned the usable range is one free extent
again. -/
theorem chunks_never_lost {c : Config} {addr size : Nat} {mem : Nat → UInt8}
    {zeroed locksFail : Bool} {p : Pool} (fits : c.Fits) (region : Region c addr size)
    (spare : size % c.chunksize < usableAddr c addr size - addr)
    (created : poolCreateEmpty c mem addr size zeroed locksFail = some p)
    (calls : List OwnerCall)
    (outside : ∀ call ∈ calls,
      Outside c call.dss ⟨usableAddr c addr size, usableSize c addr size⟩)
    {s : OwnerState} (run : runs (OwnerCall.exec c) ⟨p, []⟩ calls = some s) :
    (∀ x, cover s.pool.freeSpans x + cover s.pool.hugeSpans x + cover s.arena x +
        cover s.pool.baseChunks x =
          (Span.mk (usableAddr c addr size) (usableSize c addr size)).ind x) ∧
      s.pool.leaked = [] ∧
      (s.pool.huge = [] → s.arena = [] → s.pool.baseChunks = [] →
        ∃ n, s.pool.chunksAd = [n] ∧
          (s.pool.node n).addr = usableAddr c addr size ∧
          (s.pool.node n).size = usableSize c addr size) := by
  have fresh := (poolCreateEmpty_fresh fits region created).1
  have sound : s.Sound c ⟨usableAddr c addr size, usableSize c addr size⟩ :=
    runs_invariant_mem (fun _ call _ member before result =>
      before.execIn (outside call member) result) (fresh.sound fits region spare) run
  have account := sound.account
  have partition : ∀ x, cover s.pool.freeSpans x + cover s.pool.hugeSpans x +
      cover s.arena x + cover s.pool.baseChunks x =
        (Span.mk (usableAddr c addr size) (usableSize c addr size)).ind x := by
    intro x
    have covers := account.ledger.covers x
    rw [account.kept, cover_nil, Nat.add_zero] at covers
    exact covers
  refine ⟨partition, account.kept, ?_⟩
  intro noHuge noArena noBase
  have free : ∀ x, cover s.pool.freeSpans x =
      (Span.mk (usableAddr c addr size) (usableSize c addr size)).ind x := by
    intro x
    have hugeSpans : s.pool.hugeSpans = [] := by
      unfold Pool.hugeSpans
      rw [noHuge, List.map_nil]
    have covers := partition x
    rw [hugeSpans, noArena, noBase] at covers
    simpa using covers
  exact single_extent account.ledger.trees account.coalesced account.whole.nonempty free

/-- A pool of three chunks at a chunk boundary: its metadata takes the first one. -/
theorem chunks_never_lost_aligned :
    ∃ p s, poolCreateEmpty defaultConfig (fun _ => 0) 4194304 12582912 true false = some p ∧
      runs (OwnerCall.exec defaultConfig) ⟨p, []⟩
        [⟨.hugePalloc (some 0) 4194304 22 false false, ⟨65536, 131072⟩⟩,
          ⟨.hugeDalloc 8388608, ⟨65536, 131072⟩⟩] = some s ∧
      s.pool.leaked = [] := by
  have outcome : ((poolCreateEmpty defaultConfig (fun _ => 0) 4194304 12582912 true
      false).bind fun p => runs (OwnerCall.exec defaultConfig) ⟨p, []⟩
        [⟨.hugePalloc (some 0) 4194304 22 false false, ⟨65536, 131072⟩⟩,
          ⟨.hugeDalloc 8388608, ⟨65536, 131072⟩⟩]).isSome := by
    decide +kernel
  obtain ⟨s, ran⟩ := Option.isSome_iff_exists.mp outcome
  obtain ⟨p, created, run⟩ := Option.bind_eq_some_iff.mp ran
  have region : Region defaultConfig 4194304 12582912 :=
    ⟨by decide +kernel, by decide +kernel, by decide +kernel⟩
  have usable : Span.mk (usableAddr defaultConfig 4194304 12582912)
      (usableSize defaultConfig 4194304 12582912) = ⟨8388608, 8388608⟩ := by decide +kernel
  have outside : Outside defaultConfig ⟨65536, 131072⟩
      ⟨usableAddr defaultConfig 4194304 12582912, usableSize defaultConfig 4194304 12582912⟩ := by
    intro _ x has
    rw [usable, Span.has_mk] at has
    simp only [chunkInDss, Bool.and_eq_false_iff, decide_eq_false_iff_not]
    omega
  have apart : ∀ call ∈ [OwnerCall.mk (.hugePalloc (some 0) 4194304 22 false false) ⟨65536, 131072⟩,
      ⟨.hugeDalloc 8388608, ⟨65536, 131072⟩⟩], Outside defaultConfig call.dss
        ⟨usableAddr defaultConfig 4194304 12582912,
          usableSize defaultConfig 4194304 12582912⟩ := by
    intro call member
    rcases List.mem_cons.mp member with rfl | member
    · exact outside
    · rw [List.mem_singleton.mp member]
      exact outside
  exact ⟨p, s, created, run, (chunks_never_lost defaultConfig_fits region (by decide +kernel)
    created _ apart run).2.1⟩

/-- A pool that begins one mebibyte before a chunk boundary has three usable
chunks and three nodes.  With the first two chunks allocated and the third one
free, freeing the first one finds no node. -/
theorem chunk_lost_without_spare_node :
    ∃ p s, poolCreateEmpty defaultConfig (fun _ => 0) 7340032 13631488 true false = some p ∧
      runs (OwnerCall.exec defaultConfig) ⟨p, []⟩
        [⟨.hugePalloc (some 0) 4194304 22 false false, .empty⟩,
          ⟨.hugePalloc (some 0) 4194304 22 false false, .empty⟩,
          ⟨.hugeDalloc 8388608, .empty⟩] = some s ∧
      (Span.mk (usableAddr defaultConfig 7340032 13631488)
        (usableSize defaultConfig 7340032 13631488)).Has 8388608 ∧
      cover s.pool.freeSpans 8388608 + cover s.pool.hugeSpans 8388608 +
        cover s.arena 8388608 + cover s.pool.baseChunks 8388608 = 0 ∧
      s.pool.leaked = [⟨8388608, 4194304⟩] := by
  have outcome : ((poolCreateEmpty defaultConfig (fun _ => 0) 7340032 13631488 true
      false).bind fun p => (runs (OwnerCall.exec defaultConfig) ⟨p, []⟩
        [⟨.hugePalloc (some 0) 4194304 22 false false, .empty⟩,
          ⟨.hugePalloc (some 0) 4194304 22 false false, .empty⟩,
          ⟨.hugeDalloc 8388608, .empty⟩]).map fun s =>
        (cover s.pool.freeSpans 8388608 + cover s.pool.hugeSpans 8388608 +
          cover s.arena 8388608 + cover s.pool.baseChunks 8388608, s.pool.leaked)) =
      some (0, [⟨8388608, 4194304⟩]) := by decide +kernel
  obtain ⟨p, created, ran⟩ := Option.bind_eq_some_iff.mp outcome
  obtain ⟨s, run, values⟩ := Option.map_eq_some_iff.mp ran
  exact ⟨p, s, created, run, by decide +kernel, congrArg Prod.fst values,
    congrArg Prod.snd values⟩

end Jemalloc
end Vmem
