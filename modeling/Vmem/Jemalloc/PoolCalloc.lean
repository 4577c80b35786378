import Mathlib.Data.Nat.Bitwise
import Vmem.Jemalloc.PoolRun
import Vmem.Jemalloc.RallocPaths
import Vmem.Jemalloc.SizeClasses

/-!
# Zeroed allocation

`je_pool_calloc` multiplies the number of elements and their size, and refuses a product
that does not fit a word.  The division that detects this is only made when a factor has a
bit in its high half.  Profiling, which is off in this build, the counters of the thread
and the abort of `opt_xmalloc` are left out.
-/

namespace Vmem
namespace Jemalloc

/-! ## The size of the request -/

/-- `SIZE_T_MAX << (sizeof(size_t) << 2)`. -/
def highHalf : Nat := (Word.modulus - 1) <<< (8 <<< 2) % Word.modulus

/-- `num_size` as `je_pool_calloc` computes it; `none` when it returns without an attempt. -/
def callocSize (num size : Nat) : Option Nat :=
  let numSize := num * size % Word.modulus
  if numSize = 0 then
    if num = 0 ∨ size = 0 then some 1 else none
  else if (num ||| size) &&& highHalf ≠ 0 ∧ numSize / size ≠ num then none
  else some numSize

theorem testBit_highHalf (i : Nat) : highHalf.testBit i = (decide (32 ≤ i) && decide (i < 64)) := by
  have shifted : highHalf = (2 ^ 32 - 1) <<< 32 := by decide +kernel
  rw [shifted, Nat.testBit_shiftLeft, Nat.testBit_two_pow_sub_one]
  by_cases low : 32 ≤ i
  · have same : i - 32 < 32 ↔ i < 64 := by omega
    rw [decide_eq_decide.mpr same]
  · rw [decide_eq_false low, Bool.false_and, Bool.false_and]

/-- A word has a bit in its high half exactly if it is 2^32 or more. -/
theorem and_highHalf_eq_zero {a : Nat} (fits : a < Word.modulus) :
    a &&& highHalf = 0 ↔ a < 2 ^ 32 := by
  constructor
  · intro none
    by_contra large
    obtain ⟨i, high, bit⟩ := Nat.exists_ge_and_testBit_of_ge_two_pow (not_lt.mp large)
    have below : i < 64 := by
      by_contra beyond
      have word : a < 2 ^ i := lt_of_lt_of_le fits
        (Nat.pow_le_pow_right (by norm_num) (not_lt.mp beyond))
      rw [Nat.testBit_lt_two_pow word] at bit
      cases bit
    have set : (a &&& highHalf).testBit i = true := by
      rw [Nat.testBit_and, bit, testBit_highHalf, decide_eq_true high, decide_eq_true below]
      rfl
    rw [none, Nat.zero_testBit] at set
    cases set
  · intro small
    apply Nat.eq_of_testBit_eq
    intro i
    rw [Nat.testBit_and, testBit_highHalf, Nat.zero_testBit]
    by_cases high : 32 ≤ i
    · rw [Nat.testBit_lt_two_pow (lt_of_lt_of_le small (Nat.pow_le_pow_right (by norm_num) high)),
        Bool.false_and]
    · rw [decide_eq_false high, Bool.false_and, Bool.and_false]

/-- Two factors without high bits have a product that fits. -/
theorem mul_lt_of_and_highHalf {num size : Nat} (numLt : num < Word.modulus)
    (sizeLt : size < Word.modulus) (low : (num ||| size) &&& highHalf = 0) :
    num * size < Word.modulus := by
  have both := (and_highHalf_eq_zero (Nat.or_lt_two_pow numLt sizeLt)).mp low
  have left : num < 2 ^ 32 := lt_of_le_of_lt Nat.left_le_or both
  have right : size < 2 ^ 32 := lt_of_le_of_lt Nat.right_le_or both
  calc num * size < 2 ^ 32 * 2 ^ 32 := Nat.mul_lt_mul'' left right
    _ = Word.modulus := rfl

/-- The test is exact: a request is made exactly if the product fits, and for the product. -/
theorem callocSize_eq {num size : Nat} (numLt : num < Word.modulus) (sizeLt : size < Word.modulus) :
    callocSize num size =
      if num * size < Word.modulus then some (max 1 (num * size)) else none := by
  unfold callocSize
  dsimp only
  by_cases fits : num * size < Word.modulus
  · rw [if_pos fits, Nat.mod_eq_of_lt fits]
    by_cases empty : num * size = 0
    · rw [if_pos empty, if_pos (Nat.mul_eq_zero.mp empty), empty]
      rfl
    · have factor : 0 < size := Nat.pos_of_mul_pos_left (Nat.pos_of_ne_zero empty)
      have exact_ : num * size / size = num := Nat.mul_div_cancel num factor
      rw [if_neg empty, if_neg (fun both => both.2 exact_), Nat.max_eq_right (by omega)]
  · rw [if_neg fits]
    have positive : num ≠ 0 ∧ size ≠ 0 := by
      constructor
      · rintro rfl
        exact fits (by rw [Nat.zero_mul]; decide +kernel)
      · rintro rfl
        exact fits (by rw [Nat.mul_zero]; decide +kernel)
    by_cases wrapped : num * size % Word.modulus = 0
    · rw [if_pos wrapped, if_neg (not_or.mpr positive)]
    · rw [if_neg wrapped, if_pos]
      refine ⟨fun low => fits (mul_lt_of_and_highHalf numLt sizeLt low), fun quotient => ?_⟩
      -- the quotient of a wrapped product is smaller
      have lower := Nat.div_mul_le_self (num * size % Word.modulus) size
      have upper := Nat.mod_lt (num * size) (show 0 < Word.modulus by decide +kernel)
      rw [quotient] at lower
      omega

/-! ## The allocation -/

/-- The arenas when they are asked for zeroed memory.  A block they serve has the usable size
that `s2u` computes, as `je_pool_calloc` asserts, and lies behind the header of its chunk. -/
structure ZeroingLayer (c : Config) (α : Type) extends ArenaLayer c α where
  /-- `serve` with `zero` set. -/
  serveZeroed : α → (Nat → UInt8) → Nat → Nat → α × (Nat → UInt8) × Nat
  serveZeroed_salloc : ∀ a mem arena size, 0 < size → size ≤ c.arenaMaxclass →
    salloc (serveZeroed a mem arena size).1 (serveZeroed a mem arena size).2.2 = c.s2u size
  serveZeroed_behind : ∀ a mem arena size, ¬c.chunksize ∣ (serveZeroed a mem arena size).2.2

/-- What `je_pool_calloc` leaves and returns. -/
structure CallocResult (α : Type) where
  heap : ThreadHeap α
  ret : Option Nat
  /-- `errno` is set to `ENOMEM`. -/
  enomem : Bool

section

variable {α : Type} (c : Config) (layer : ZeroingLayer c α)

/-- Serve a request for zeroed memory from the arenas. -/
def arenaServeZeroed (h : ThreadHeap α) (arena size : Nat) : ThreadHeap α × Option Nat :=
  let served := layer.serveZeroed h.arenas h.pool.mem arena size
  ({ h with arenas := served.1, pool := { h.pool with mem := served.2.1 } }, some served.2.2)

/-- `arena_malloc` with `zero` set; a new chunk of an arena is not zeroed as a whole, and
`rtree_set` does not fail for it. -/
def arenaMallocZeroed (h : ThreadHeap α) (size : Nat) (noMemory : Bool) :
    ThreadHeap α × Option Nat :=
  match chooseArena c layer.toArenaLayer h noMemory with
  | (h, none) => (h, none)
  | (h, some arena) =>
      if layer.room h.arenas arena size then arenaServeZeroed c layer h arena size
      else
        match chunkAllocArena c h.pool 0 c.chunksize c.chunksize false false with
        | (p, none) => ({ h with pool := p, arenas := layer.refuse h.arenas arena size }, none)
        | (p, some (chunk, _)) =>
            arenaServeZeroed c layer
              { h with pool := p, arenas := layer.addChunk h.arenas arena chunk } arena size

/-- `huge_malloc` with `zero` set, for a dummy arena; `rtree_set` does not fail. -/
def poolHugeMallocZeroed (h : ThreadHeap α) (size : Nat) (noMemory : Bool) :
    ThreadHeap α × Option Nat :=
  if c.chunkCeiling size = 0 then (h, none)
  else
    match chooseArena c layer.toArenaLayer h noMemory with
    | (h, none) => (h, none)
    | (h, some arena) =>
        let allocated := hugeMalloc c h.pool (some arena) size true false
        ({ h with pool := allocated.1 }, allocated.2)

/-- `pool_icalloc`. -/
def poolIcalloc (h : ThreadHeap α) (size : Nat) (noMemory : Bool) : ThreadHeap α × Option Nat :=
  if size ≤ c.arenaMaxclass then arenaMallocZeroed c layer h size noMemory
  else poolHugeMallocZeroed c layer h size noMemory

/-- The end of `je_pool_calloc`. -/
def callocReturn (result : ThreadHeap α × Option Nat) : CallocResult α :=
  ⟨result.1, result.2, result.2.isNone⟩

/-- `je_pool_calloc`. -/
def jePoolCalloc (h : ThreadHeap α) (num size : Nat) (noMemory : Bool) : CallocResult α :=
  match callocSize num size with
  | none => callocReturn (h, none)
  | some numSize => callocReturn (poolIcalloc c layer h numSize noMemory)

end

/-! ## The usable size -/

variable {c : Config}

/-- A successful `huge_palloc` ends with the insertion of a node for the block. -/
theorem hugePalloc_some {p p' : Pool} {alignment size ret : Nat} {arena : Option Nat}
    {zero rtreeFails : Bool}
    (success : hugePalloc c p arena size alignment zero rtreeFails = (p', some ret)) :
    c.chunkCeiling size ≠ 0 ∧ ∃ (q : Pool) (n owner : Nat) (isZeroed : Bool),
      p' = hugeFill c ((q.setNode n { q.node n with
        addr := ret, size := c.chunkCeiling size, arena := owner }).hugeInsert n) ret
          (c.chunkCeiling size) zero isZeroed := by
  unfold hugePalloc at success
  dsimp only at success
  by_cases wraps : c.chunkCeiling size = 0
  · rw [if_pos wraps] at success
    cases success
  rw [if_neg wraps] at success
  refine ⟨wraps, ?_⟩
  cases arena with
  | none => cases success
  | some arena =>
      dsimp only at success
      cases node : baseNodeAlloc p with
      | mk q taken =>
          rw [node] at success
          cases taken with
          | none => cases success
          | some n =>
              dsimp only at success
              cases chunk : arenaChunkAllocHuge c q 0 (c.chunkCeiling size) alignment zero
                  rtreeFails with
              | mk q' got =>
                  rw [chunk] at success
                  cases got with
                  | none => cases success
                  | some got =>
                      obtain ⟨left, starts⟩ := Prod.mk.inj success
                      obtain rfl := Option.some.inj starts
                      exact ⟨q', n, arena, got.2, left.symm⟩

/-- The node of a new huge block has the rounded size. -/
theorem Ledger.palloc_found {p p' : Pool} {bound others : Nat → Nat} {alignment size ret : Nat}
    {arena : Option Nat} {zero rtreeFails : Bool} (ledger : Ledger c bound p [] others)
    (bounded : Bounded bound) (power : ∃ k, c.lgChunk ≤ k ∧ k < 64 ∧ alignment = 2 ^ k)
    (success : Jemalloc.hugePalloc c p arena size alignment zero rtreeFails = (p', some ret)) :
    c.chunkCeiling size ≠ 0 ∧ c.chunksize ∣ ret ∧ hugePoolSalloc p' ret = c.chunkCeiling size := by
  have after := (ledger.palloc bounded power arena size zero rtreeFails).1
  rw [success] at after
  obtain ⟨wraps, q, n, owner, isZeroed, left⟩ := hugePalloc_some success
  rw [hugeFill_eq] at left
  have member : n ∈ p'.huge := by
    rw [left]
    exact OrderedTree.mem_insert.mpr (Or.inl rfl)
  have value : p'.node n =
      { q.node n with addr := ret, size := c.chunkCeiling size, arena := owner } := by
    rw [left]
    exact Function.update_self ..
  have starts : (p'.node n).addr = ret := by rw [value]
  have aligned : c.chunksize ∣ (p'.node n).addr := (after.hugeExtent n member).addr_dvd
  refine ⟨wraps, starts ▸ aligned, ?_⟩
  unfold hugePoolSalloc
  rw [after.hugeSearch_eq member starts]
  change (p'.node n).size = _
  rw [value]

section

variable {α : Type} {layer : ZeroingLayer c α} {h : ThreadHeap α} {noMemory : Bool}

/-- `choose_arena` makes at most the base allocations of a new arena. -/
theorem chooseArena_pool (layer : ArenaLayer c α) (h : ThreadHeap α) (noMemory : Bool) :
    (chooseArena c layer h noMemory).1.pool = h.pool ∨
      (chooseArena c layer h noMemory).1.pool = (baseAllocAll c h.pool c.arenaAllocs).1 := by
  by_cases fails : AttachFails h noMemory
  · rw [chooseArena_fails fails]
    exact Or.inl rfl
  by_cases new : NewArena h
  · obtain ⟨h', chosen, attached⟩ := chooseArena_new layer fails new
      (Prod.eta (baseAllocAll c h.pool c.arenaAllocs)).symm
    rw [chosen]
    exact Or.inr attached.pool
  · obtain ⟨h', chosen, attached⟩ := chooseArena_old layer fails new true
    rw [chosen]
    exact Or.inl attached.pool

/-- The ledger is right when the thread has its arena. -/
theorem Ledger.chooseArena {bound others : Nat → Nat} (fits : c.Fits)
    (ledger : Ledger c bound h.pool [] others) (layer : ArenaLayer c α) (noMemory : Bool) :
    Ledger c bound (Jemalloc.chooseArena c layer h noMemory).1.pool [] others := by
  rcases chooseArena_pool layer h noMemory with same | extended
  · rw [same]
    exact ledger
  · rw [extended]
    have step := baseAllocAll_step fits.arenaRequest ledger.trees ledger.numbered
    exact ledger.change step.change fun _ => rfl

/-- A zeroed block of an arena is long enough. -/
theorem arenaMallocZeroed_usable {size ret : Nat} {h' : ThreadHeap α} (positive : 0 < size)
    (small : size ≤ c.arenaMaxclass)
    (success : arenaMallocZeroed c layer h size noMemory = (h', some ret)) :
    size ≤ isalloc c layer.toArenaLayer h' ret := by
  have served : ∀ (h : ThreadHeap α) arena, arenaServeZeroed c layer h arena size = (h', some ret) →
      size ≤ isalloc c layer.toArenaLayer h' ret := by
    intro h arena serves
    obtain ⟨left, block⟩ := Prod.mk.inj serves
    obtain rfl := Option.some.inj block
    subst left
    have behind := layer.serveZeroed_behind h.arenas h.pool.mem arena size
    unfold isalloc
    rw [if_neg behind, layer.serveZeroed_salloc h.arenas h.pool.mem arena size positive small]
    exact (c.s2u_bounds small).1
  unfold arenaMallocZeroed at success
  cases chosen : chooseArena c layer.toArenaLayer h noMemory with
  | mk attached arena =>
      rw [chosen] at success
      cases arena with
      | none => cases success
      | some arena =>
          dsimp only at success
          split at success
          · exact served _ _ success
          · cases chunk : chunkAllocArena c attached.pool 0 c.chunksize c.chunksize false false with
            | mk p got =>
                rw [chunk] at success
                cases got with
                | none => cases success
                | some got => exact served _ _ success

/-- A zeroed huge block is long enough: its size is not wrapped to a small one. -/
theorem poolHugeMallocZeroed_usable {size ret : Nat} {h' : ThreadHeap α}
    {bound others : Nat → Nat} (fits : c.Fits) (ledger : Ledger c bound h.pool [] others)
    (bounded : Bounded bound) (sizeLt : size < Word.modulus)
    (success : poolHugeMallocZeroed c layer h size noMemory = (h', some ret)) :
    size ≤ isalloc c layer.toArenaLayer h' ret := by
  have attachedLedger := ledger.chooseArena fits layer.toArenaLayer noMemory
  unfold poolHugeMallocZeroed at success
  split at success
  · cases success
  cases chosen : chooseArena c layer.toArenaLayer h noMemory with
  | mk attached arena =>
      rw [chosen] at success attachedLedger
      cases arena with
      | none => cases success
      | some arena =>
          dsimp only at success
          obtain ⟨left, block⟩ := Prod.mk.inj success
          have result : hugePalloc c attached.pool (some arena) size c.chunksize true false =
              (h'.pool, some ret) := by
            rw [← left, ← block]
            rfl
          have power : ∃ k, c.lgChunk ≤ k ∧ k < 64 ∧ c.chunksize = 2 ^ k :=
            ⟨c.lgChunk, le_rfl, by have := c.chunk_le; omega, rfl⟩
          obtain ⟨nonzero, aligned, usable⟩ := attachedLedger.palloc_found bounded power result
          unfold isalloc
          rw [if_pos aligned, usable]
          exact Word.le_ceil_of_ne_zero c.chunksize_dvd_modulus sizeLt nonzero

theorem poolIcalloc_usable {size ret : Nat} {h' : ThreadHeap α} {bound others : Nat → Nat}
    (fits : c.Fits) (ledger : Ledger c bound h.pool [] others) (bounded : Bounded bound)
    (positive : 0 < size) (sizeLt : size < Word.modulus)
    (success : poolIcalloc c layer h size noMemory = (h', some ret)) :
    size ≤ isalloc c layer.toArenaLayer h' ret := by
  unfold poolIcalloc at success
  split at success
  · next small => exact arenaMallocZeroed_usable positive small success
  · exact poolHugeMallocZeroed_usable fits ledger bounded sizeLt success

end

/-- In every state that a pool reaches and for all factors: `pool_icalloc` is asked for exactly
the product, or for one byte in the place of none; a product that does not fit a word is refused
with `ENOMEM` and changes nothing; and a block that is returned is not shorter than the product. -/
theorem calloc_never_short {α : Type} {layer : ZeroingLayer c α} {h : ThreadHeap α} {p : Pool}
    {addr poolSize num size : Nat} {mem : Nat → UInt8} {zeroed locksFail : Bool} {s : OwnerState}
    (fits : c.Fits) (region : Region c addr poolSize)
    (created : poolCreateEmpty c mem addr poolSize zeroed locksFail = some p)
    (reached : Reached PoolOp.Permitted (PoolOp.exec c) ⟨p, []⟩ s) (pool : h.pool = s.pool)
    (numLt : num < Word.modulus) (sizeLt : size < Word.modulus) (noMemory : Bool) :
    (∀ request, callocSize num size = some request → request = max 1 (num * size)) ∧
      (num * size < Word.modulus → jePoolCalloc c layer h num size noMemory =
        callocReturn (poolIcalloc c layer h (max 1 (num * size)) noMemory)) ∧
      (Word.modulus ≤ num * size → jePoolCalloc c layer h num size noMemory = ⟨h, none, true⟩) ∧
      ∀ ret, (jePoolCalloc c layer h num size noMemory).ret = some ret →
        num * size ≤
          isalloc c layer.toArenaLayer (jePoolCalloc c layer h num size noMemory).heap ret := by
  have settled := (OwnerState.Settled.start fits region created).of_reached fits reached
  have ledger : Ledger c s.lending.usable h.pool [] (cover s.arena) := by
    rw [pool]
    exact settled.accounted.ledger
  have exact_ := callocSize_eq numLt sizeLt
  unfold jePoolCalloc
  rw [exact_]
  by_cases product : num * size < Word.modulus
  · rw [if_pos product]
    refine ⟨fun request same => (Option.some.inj same).symm, fun _ => rfl,
      fun wraps => absurd product (not_lt.mpr wraps), fun ret success => ?_⟩
    have modulus := Word.modulus_eq
    have served : poolIcalloc c layer h (max 1 (num * size)) noMemory =
        ((poolIcalloc c layer h (max 1 (num * size)) noMemory).1, some ret) :=
      Prod.ext rfl success
    have usable := poolIcalloc_usable fits ledger settled.bounded (by omega) (by omega) served
    exact (Nat.le_max_right 1 _).trans usable
  · rw [if_neg product]
    exact ⟨fun request impossible => (by cases impossible), fun product' => absurd product' product,
      fun _ => rfl, fun ret impossible => (by cases impossible)⟩

/-- Arenas that serve each request from the first page of the last chunk, with its usable size;
they have no headers of runs. -/
def lastChunkArenas : ZeroingLayer defaultConfig (Nat × Nat) where
  salloc := fun arenas _ => min arenas.2 defaultConfig.arenaMaxclass
  rallocNoMove := fun _ _ _ _ _ => none
  room := fun _ _ _ => false
  serve := fun arenas mem _ size =>
    ((arenas.1, defaultConfig.s2u size), mem,
      defaultConfig.chunkFloor arenas.1 + defaultConfig.mapBias * defaultConfig.page)
  refuse := fun arenas _ _ => arenas
  addChunk := fun arenas _ chunk => (chunk, arenas.2)
  newArena := fun arenas _ => arenas
  dalloc := fun arenas mem _ => (arenas, mem, [])
  salloc_le := fun _ _ => Nat.min_le_right ..
  refuse_salloc := fun _ _ _ _ => rfl
  refuse_room := fun _ _ _ refused => refused
  newArena_salloc := fun _ _ _ => rfl
  serveZeroed := fun arenas mem _ size =>
    let start := defaultConfig.chunkFloor arenas.1 + defaultConfig.mapBias * defaultConfig.page
    ((arenas.1, defaultConfig.s2u size), memset mem start (defaultConfig.s2u size) 0, start)
  serveZeroed_salloc := fun _ _ _ _ _ small =>
    Nat.min_eq_left (defaultConfig.s2u_bounds small).2
  serveZeroed_behind := by
    intro arenas _ _ _ aligned
    have header : defaultConfig.chunksize ∣ defaultConfig.mapBias * defaultConfig.page :=
      (Nat.dvd_add_right (Word.dvd_floor _ _)).mp aligned
    exact absurd header (by decide +kernel)

/-- Ten elements of ten bytes in a new pool: the block has at least 100 bytes.  In the same pool
2^32 elements of 2^32 bytes are refused. -/
theorem calloc_never_short_hundred :
    ∃ p ret, poolCreateEmpty defaultConfig (fun _ => 0) 4194304 16777216 true false = some p ∧
      (jePoolCalloc defaultConfig lastChunkArenas ⟨p, (0, 0), [some 0], false, none⟩ 10 10
        false).ret = some ret ∧
      10 * 10 ≤ isalloc defaultConfig lastChunkArenas.toArenaLayer
        (jePoolCalloc defaultConfig lastChunkArenas ⟨p, (0, 0), [some 0], false, none⟩ 10 10
          false).heap ret ∧
      jePoolCalloc defaultConfig lastChunkArenas ⟨p, (0, 0), [some 0], false, none⟩ (2 ^ 32)
        (2 ^ 32) false = ⟨⟨p, (0, 0), [some 0], false, none⟩, none, true⟩ := by
  have outcome : (poolCreateEmpty defaultConfig (fun _ => 0) 4194304 16777216 true false).map
      (fun p => (jePoolCalloc defaultConfig lastChunkArenas ⟨p, (0, 0), [some 0], false, none⟩
        10 10 false).ret) = some (some 8441856) := by
    decide +kernel
  obtain ⟨p, created, success⟩ := Option.map_eq_some_iff.mp outcome
  have region : Region defaultConfig 4194304 16777216 :=
    ⟨by decide +kernel, by decide +kernel, by decide +kernel⟩
  refine ⟨p, _, created, success, ?_, ?_⟩
  · exact (calloc_never_short defaultConfig_fits region created Reached.start rfl (by decide)
      (by decide) false).2.2.2 _ success
  · exact (calloc_never_short defaultConfig_fits region created Reached.start rfl (by decide)
      (by decide) false).2.2.1 (by decide)

end Jemalloc
end Vmem
