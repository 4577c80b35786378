import Mathlib.Algebra.BigOperators.Ring.List
import Mathlib.Data.Nat.ModEq
import Vmem.Jemalloc.RecycleExact

/-!
# What arenas count for huge blocks

An arena counts the pages in use in `nactive`, from which the threshold for purging is
computed, and with `config_stats` it keeps further statistics.  `arena_chunk_alloc_huge`
updates them before it knows whether there are chunks.

The functions on huge blocks appear here with the counters of their arenas; what they do to
the pool is what the functions without counters do.
-/

namespace Vmem
namespace Jemalloc

/-- `nactive` and the statistics of an arena on huge blocks. -/
structure ArenaStats where
  nactive : Nat
  mapped : Nat
  allocatedHuge : Nat
  nmallocHuge : Nat
  ndallocHuge : Nat
  nrequestsHuge : Nat
  deriving DecidableEq, Repr

namespace ArenaStats

/-- The optimistic updates of `arena_chunk_alloc_huge`. -/
def attempt (c : Config) (configStats : Bool) (size : Nat) (stats : ArenaStats) : ArenaStats :=
  let stats :=
    if configStats then
      { stats with
        mapped := Word.add stats.mapped size
        allocatedHuge := Word.add stats.allocatedHuge size
        nmallocHuge := Word.add stats.nmallocHuge 1
        nrequestsHuge := Word.add stats.nrequestsHuge 1 }
    else stats
  { stats with nactive := Word.add stats.nactive (size / c.page) }

/-- "Revert optimistic stats updates." -/
def revert (configStats : Bool) (size : Nat) (stats : ArenaStats) : ArenaStats :=
  if configStats then
    { stats with
      mapped := Word.sub stats.mapped size
      allocatedHuge := Word.sub stats.allocatedHuge size
      nmallocHuge := Word.sub stats.nmallocHuge 1 }
  else stats

/-- The updates of `arena_chunk_dalloc_huge`. -/
def dalloc (c : Config) (configStats : Bool) (size : Nat) (stats : ArenaStats) : ArenaStats :=
  let stats :=
    if configStats then
      { stats with
        mapped := Word.sub stats.mapped size
        allocatedHuge := Word.sub stats.allocatedHuge size
        ndallocHuge := Word.add stats.ndallocHuge 1 }
    else stats
  { stats with nactive := Word.sub stats.nactive (size / c.page) }

/-- The `threshold` of `arena_maybe_purge`, above which dirty pages are purged. -/
def purgeThreshold (lgDirtyMult : Nat) (stats : ArenaStats) : Nat := stats.nactive >>> lgDirtyMult

theorem attempt_nactive (c : Config) (configStats : Bool) (size : Nat) (stats : ArenaStats) :
    (attempt c configStats size stats).nactive = Word.add stats.nactive (size / c.page) := by
  unfold attempt
  cases configStats with
  | true => rfl
  | false => rfl

theorem dalloc_nactive (c : Config) (configStats : Bool) (size : Nat) (stats : ArenaStats) :
    (dalloc c configStats size stats).nactive = Word.sub stats.nactive (size / c.page) := by
  unfold dalloc
  cases configStats with
  | true => rfl
  | false => rfl

end ArenaStats

/-- A pool and the counters of its arenas. -/
structure Counted where
  pool : Pool
  stats : Nat → ArenaStats

namespace Counted

/-- Change the counters of one arena. -/
def count (s : Counted) (arena : Nat) (f : ArenaStats → ArenaStats) : Counted :=
  { s with stats := Function.update s.stats arena (f (s.stats arena)) }

@[simp] theorem count_pool (s : Counted) (arena : Nat) (f : ArenaStats → ArenaStats) :
    (s.count arena f).pool = s.pool := rfl

variable (c : Config) (configStats : Bool)

/-- `arena_chunk_alloc_huge`. -/
def arenaChunkAllocHuge (s : Counted) (arena newAddr size alignment : Nat)
    (zero rtreeFails : Bool) : Counted × Option (Nat × Bool) :=
  let s := s.count arena (ArenaStats.attempt c configStats size)
  match Jemalloc.arenaChunkAllocHuge c s.pool newAddr size alignment zero rtreeFails with
  | (p, none) =>
      ({ s with pool := p }.count arena (ArenaStats.revert configStats size), none)
  | (p, some found) => ({ s with pool := p }, some found)

/-- `arena_chunk_dalloc_huge`. -/
def arenaChunkDallocHuge (s : Counted) (arena chunk size : Nat) : Counted :=
  let s := s.count arena (ArenaStats.dalloc c configStats size)
  { s with pool := Jemalloc.arenaChunkDallocHuge c s.pool chunk size }

/-- `huge_palloc`. -/
def hugePalloc (s : Counted) (arena : Option Nat) (size alignment : Nat)
    (zero rtreeFails : Bool) : Counted × Option Nat :=
  let csize := c.chunkCeiling size
  if csize = 0 then (s, none)
  else
    match arena with
    | none => (s, none)
    | some arena =>
        match baseNodeAlloc s.pool with
        | (_, none) => (s, none)
        | (p, some n) =>
            match arenaChunkAllocHuge c configStats { s with pool := p } arena 0 csize alignment
                zero rtreeFails with
            | (s, none) => ({ s with pool := baseNodeDalloc s.pool n }, none)
            | (s, some (ret, isZeroed)) =>
                let p := s.pool.setNode n
                  { s.pool.node n with addr := ret, size := csize, arena := arena }
                ({ s with pool := hugeFill c (p.hugeInsert n) ret csize zero isZeroed }, some ret)

/-- `huge_ralloc_no_move_expand`; `true` is failure. -/
def hugeRallocNoMoveExpand (s : Counted) (ptr oldsize size : Nat) (zero rtreeFails : Bool) :
    Counted × Bool :=
  let csize := c.chunkCeiling size
  if csize = 0 then (s, true)
  else
    let expandAddr := Word.add ptr oldsize
    let expandSize := Word.sub csize oldsize
    match s.pool.hugeSearch ptr with
    | none => (s, true) -- assert(node != NULL)
    | some n =>
        match arenaChunkAllocHuge c configStats s (s.pool.node n).arena expandAddr expandSize
            c.chunksize zero rtreeFails with
        | (s, none) => (s, true)
        | (s, some (_, isZeroed)) =>
            let p := s.pool.setNode n { s.pool.node n with size := csize }
            ({ s with pool := hugeFill c p expandAddr expandSize zero isZeroed }, false)

/-- The in-place shrink of `huge_ralloc_no_move`. -/
def hugeRallocNoMoveShrink (s : Counted) (ptr oldsize size : Nat) : Counted × Bool :=
  match s.pool.hugeSearch ptr with
  | none => (s, true) -- assert(node != NULL)
  | some n =>
      let p := s.pool.setNode n { s.pool.node n with size := c.chunkCeiling size }
      let excessAddr := Word.add (p.node n).addr (c.chunkCeiling size)
      let excessSize := Word.sub (c.chunkCeiling oldsize) (c.chunkCeiling size)
      (arenaChunkDallocHuge c configStats
        { s with pool := hugeDallocJunk c p excessAddr excessSize } (p.node n).arena
        excessAddr excessSize, false)

/-- `huge_ralloc_no_move`; `true` is failure. -/
def hugeRallocNoMove (s : Counted) (ptr oldsize size extra : Nat) (zero : Bool)
    (rtreeFails rtreeFailsAgain : Bool) : Counted × Bool :=
  if oldsize ≤ c.arenaMaxclass then (s, true)
  else if c.chunkCeiling size ≤ c.chunkCeiling oldsize ∧
      c.chunkCeiling oldsize ≤ c.chunkCeiling (Word.add size extra) then (s, false)
  else if c.chunkCeiling size = 0 then (s, true)
  else if c.chunkCeiling size < c.chunkCeiling oldsize then
    hugeRallocNoMoveShrink c configStats s ptr oldsize size
  else
    match hugeRallocNoMoveExpand c configStats s ptr oldsize (Word.add size extra) zero
        rtreeFails with
    | (s, false) => (s, false)
    | (s, true) =>
        if extra = 0 then (s, true)
        else hugeRallocNoMoveExpand c configStats s ptr oldsize size zero rtreeFailsAgain

/-- `huge_dalloc`. -/
def hugeDalloc (s : Counted) (ptr : Nat) : Counted :=
  match s.pool.hugeSearch ptr with
  | none => s -- assert(node != NULL)
  | some n =>
      let p := s.pool.hugeRemove n
      let p := hugeDallocJunk c p (p.node n).addr (p.node n).size
      let s := arenaChunkDallocHuge c configStats { s with pool := p } (p.node n).arena
        (p.node n).addr (p.node n).size
      { s with pool := baseNodeDalloc s.pool n }

/-! ## The pool -/

/-- Counting does not change what the functions do to the pool. -/
theorem arenaChunkAllocHuge_pool (s : Counted) (arena newAddr size alignment : Nat)
    (zero rtreeFails : Bool) :
    ((arenaChunkAllocHuge c configStats s arena newAddr size alignment zero
        rtreeFails).1.pool,
      (arenaChunkAllocHuge c configStats s arena newAddr size alignment zero rtreeFails).2) =
      Jemalloc.arenaChunkAllocHuge c s.pool newAddr size alignment zero rtreeFails := by
  unfold arenaChunkAllocHuge
  dsimp only
  rw [count_pool]
  cases Jemalloc.arenaChunkAllocHuge c s.pool newAddr size alignment zero rtreeFails with
  | mk p found =>
      cases found with
      | none => rfl
      | some found => rfl

theorem hugePalloc_pool (s : Counted) (arena : Option Nat) (size alignment : Nat)
    (zero rtreeFails : Bool) :
    ((hugePalloc c configStats s arena size alignment zero rtreeFails).1.pool,
      (hugePalloc c configStats s arena size alignment zero rtreeFails).2) =
      Jemalloc.hugePalloc c s.pool arena size alignment zero rtreeFails := by
  unfold hugePalloc Jemalloc.hugePalloc
  dsimp only
  split
  · rfl
  · cases arena with
    | none => rfl
    | some arena =>
        unfold baseNodeAlloc
        cases s.pool.baseNodes with
        | nil => rfl
        | cons n rest =>
            have same := arenaChunkAllocHuge_pool c configStats
              { s with pool := { s.pool with baseNodes := rest } } arena 0 (c.chunkCeiling size)
              alignment zero rtreeFails
            dsimp only at same ⊢
            rw [← same]
            cases arenaChunkAllocHuge c configStats
                { s with pool := { s.pool with baseNodes := rest } } arena 0
                (c.chunkCeiling size) alignment zero rtreeFails with
            | mk q found =>
                cases found with
                | none => rfl
                | some found => rfl

theorem hugeRallocNoMoveExpand_pool (s : Counted) (ptr oldsize size : Nat)
    (zero rtreeFails : Bool) :
    ((hugeRallocNoMoveExpand c configStats s ptr oldsize size zero rtreeFails).1.pool,
      (hugeRallocNoMoveExpand c configStats s ptr oldsize size zero rtreeFails).2) =
      Jemalloc.hugeRallocNoMoveExpand c s.pool ptr oldsize size zero rtreeFails := by
  unfold hugeRallocNoMoveExpand Jemalloc.hugeRallocNoMoveExpand
  dsimp only
  split
  · rfl
  · cases s.pool.hugeSearch ptr with
    | none => rfl
    | some n =>
        have same := arenaChunkAllocHuge_pool c configStats s (s.pool.node n).arena
          (Word.add ptr oldsize) (Word.sub (c.chunkCeiling size) oldsize) c.chunksize zero
          rtreeFails
        dsimp only
        rw [← same]
        cases arenaChunkAllocHuge c configStats s (s.pool.node n).arena (Word.add ptr oldsize)
            (Word.sub (c.chunkCeiling size) oldsize) c.chunksize zero rtreeFails with
        | mk q found =>
            cases found with
            | none => rfl
            | some found => rfl

theorem hugeRallocNoMove_pool (s : Counted) (ptr oldsize size extra : Nat)
    (zero rtreeFails rtreeFailsAgain : Bool) :
    ((hugeRallocNoMove c configStats s ptr oldsize size extra zero rtreeFails
        rtreeFailsAgain).1.pool,
      (hugeRallocNoMove c configStats s ptr oldsize size extra zero rtreeFails
        rtreeFailsAgain).2) =
      Jemalloc.hugeRallocNoMove c s.pool ptr oldsize size extra zero rtreeFails
        rtreeFailsAgain := by
  unfold hugeRallocNoMove Jemalloc.hugeRallocNoMove
  split
  · rfl
  split
  · rfl
  split
  · rfl
  split
  · unfold hugeRallocNoMoveShrink Jemalloc.hugeRallocNoMoveShrink
    cases s.pool.hugeSearch ptr with
    | none => rfl
    | some n => rfl
  · have first := hugeRallocNoMoveExpand_pool c configStats s ptr oldsize (Word.add size extra)
      zero rtreeFails
    rw [← first]
    cases hugeRallocNoMoveExpand c configStats s ptr oldsize (Word.add size extra) zero
        rtreeFails with
    | mk q failed =>
        cases failed with
        | false => rfl
        | true =>
            dsimp only
            split
            · rfl
            · exact hugeRallocNoMoveExpand_pool ..

theorem hugeDalloc_pool (s : Counted) (ptr : Nat) :
    (hugeDalloc c configStats s ptr).pool = Jemalloc.hugeDalloc c s.pool ptr := by
  unfold hugeDalloc Jemalloc.hugeDalloc
  cases s.pool.hugeSearch ptr with
  | none => rfl
  | some n => rfl

end Counted

/-! ## Runs -/

/-- A pool with the ranges its arenas hold, the counters of the arenas and the number of pages
in their active runs. -/
structure ArenaBooks where
  owner : OwnerState
  stats : Nat → ArenaStats
  runPages : Nat → Nat

/-- What is counted in `nactive`. -/
inductive ArenaOp
  | hugePalloc (arena : Option Nat) (size lgAlign : Nat) (zero rtreeFails : Bool)
  | hugeRallocNoMove (ptr size extra : Nat) (zero rtreeFails rtreeFailsAgain : Bool)
  | hugeDalloc (ptr : Nat)
  /-- `arena_run_split_remove`: pages become part of an active run. -/
  | runSplit (arena pages : Nat)
  /-- `arena_run_dalloc`: the pages of an active run. -/
  | runDalloc (arena pages : Nat)

/-- The pages a huge block has in one of the arenas. -/
def blockPages (c : Config) (arena : Nat) (node : ExtentNode) : Nat :=
  if node.arena = arena then node.size / c.page else 0

/-- The pages in the live huge blocks of an arena. -/
def hugePages (c : Config) (p : Pool) (arena : Nat) : Nat :=
  (p.huge.map fun n => blockPages c arena (p.node n)).sum

namespace ArenaBooks

/-- The pool with the counters. -/
def counted (s : ArenaBooks) : Counted := ⟨s.owner.pool, s.stats⟩

/-- Enter the outcome of a function on huge blocks. -/
def after (s : ArenaBooks) (t : Counted) : ArenaBooks :=
  { s with owner := { s.owner with pool := t.pool }, stats := t.stats }

/-- Execute one call; `none` when its arguments are not ones it is made for. -/
def exec (c : Config) (configStats : Bool) (s : ArenaBooks) : ArenaOp → Option ArenaBooks
  | .hugePalloc arena size lgAlign zero rtreeFails =>
      if size < Word.modulus ∧ c.lgChunk ≤ lgAlign ∧ lgAlign < 64 then
        some (s.after (s.counted.hugePalloc c configStats arena size (2 ^ lgAlign) zero
          rtreeFails).1)
      else none
  | .hugeRallocNoMove ptr size extra zero rtreeFails rtreeFailsAgain =>
      match s.owner.pool.hugeSearch ptr with
      | none => none
      | some n =>
          if size < Word.modulus ∧
              (extra ≠ 0 → size + extra + c.chunksize ≤ Word.modulus) then
            some (s.after (s.counted.hugeRallocNoMove c configStats ptr
              (s.owner.pool.node n).size size extra zero rtreeFails rtreeFailsAgain).1)
          else none
  | .hugeDalloc ptr =>
      match s.owner.pool.hugeSearch ptr with
      | none => none
      | some _ => some (s.after (s.counted.hugeDalloc c configStats ptr))
  | .runSplit arena pages =>
      if (s.runPages arena + pages) * c.page ≤ Word.modulus then
        some { s with
          stats := Function.update s.stats arena { s.stats arena with
            nactive := Word.add (s.stats arena).nactive pages }
          runPages := Function.update s.runPages arena (s.runPages arena + pages) }
      else none
  | .runDalloc arena pages =>
      if pages ≤ s.runPages arena then
        some { s with
          stats := Function.update s.stats arena { s.stats arena with
            nactive := Word.sub (s.stats arena).nactive pages }
          runPages := Function.update s.runPages arena (s.runPages arena - pages) }
      else none

/-- The call fails. -/
def Fails (c : Config) (configStats : Bool) (s : ArenaBooks) : ArenaOp → Prop
  | .hugePalloc arena size lgAlign zero rtreeFails =>
      (s.counted.hugePalloc c configStats arena size (2 ^ lgAlign) zero rtreeFails).2 = none
  | .hugeRallocNoMove ptr size extra zero rtreeFails rtreeFailsAgain =>
      ∃ n, s.owner.pool.hugeSearch ptr = some n ∧
        (s.counted.hugeRallocNoMove c configStats ptr (s.owner.pool.node n).size size extra zero
          rtreeFails rtreeFailsAgain).2 = true
  | _ => False

end ArenaBooks

/-- A request for chunks is refused: no extent serves it, it would have to be cut without a
node, or the radix tree has no room. -/
def RefusesChunks (c : Config) (p : Pool) (newAddr size alignment : Nat) (rtreeFails : Bool) :
    Prop :=
  (∀ n, ¬ServedBy c p newAddr size alignment n) ∨ CutWithoutNode c p newAddr size alignment ∨
    rtreeFails = true

/-- No request that a call makes is refused. -/
def ArenaBooks.Served (c : Config) (s : ArenaBooks) : ArenaOp → Prop
  | .hugePalloc arena size lgAlign _ rtreeFails =>
      c.chunkCeiling size ≠ 0 → arena ≠ none → ∀ n rest, s.owner.pool.baseNodes = n :: rest →
        ¬RefusesChunks c { s.owner.pool with baseNodes := rest } 0 (c.chunkCeiling size)
          (2 ^ lgAlign) rtreeFails
  | .hugeRallocNoMove ptr size extra _ rtreeFails _ =>
      ∀ n, s.owner.pool.hugeSearch ptr = some n →
        (s.owner.pool.node n).size < c.chunkCeiling size →
          ¬RefusesChunks c s.owner.pool (ptr + (s.owner.pool.node n).size)
            (c.chunkCeiling (size + extra) - (s.owner.pool.node n).size) c.chunksize rtreeFails
  | _ => True

/-- `chunk_alloc_arena` fails exactly if the request is refused. -/
theorem chunkAllocArena_none_iff {c : Config} {p : Pool} {size alignment : Nat}
    (trees : FreeTrees c p) (request : Request c size alignment) (newAddr : Nat)
    (zero rtreeFails : Bool) :
    (chunkAllocArena c p newAddr size alignment zero rtreeFails).2 = none ↔
      RefusesChunks c p newAddr size alignment rtreeFails := by
  unfold chunkAllocArena chunkAllocDefault RefusesChunks
  cases chunkRecycle_end trees request newAddr zero with
  | missing unserved same =>
      rw [same]
      exact ⟨fun _ => Or.inl unserved, fun _ => rfl⟩
  | starved cut failed _ =>
      cases result : chunkRecycle c p newAddr size alignment zero with
      | mk q found =>
          rw [result] at failed
          dsimp only at failed
          rw [failed]
          exact ⟨fun _ => Or.inr (Or.inl cut), fun _ => rfl⟩
  | served n served whole succeeded _ =>
      cases result : chunkRecycle c p newAddr size alignment zero with
      | mk q found =>
          rw [result] at succeeded
          cases found with
          | none => exact absurd rfl succeeded
          | some found =>
              cases rtreeFails with
              | true => exact ⟨fun _ => Or.inr (Or.inr rfl), fun _ => rfl⟩
              | false =>
                  constructor
                  · intro never
                    cases never
                  · rintro (unserved | cut | never)
                    · exact absurd served (unserved n)
                    · exact absurd cut whole
                    · cases never

/-! ## Pages of huge blocks -/

section Pages

variable {c : Config} {p p' : Pool} {n a : Nat}

theorem hugePages_same (same : HugeSame p p') : hugePages c p' a = hugePages c p a := by
  unfold hugePages
  rw [same.huge]
  refine congrArg List.sum (List.map_congr_left fun m member => ?_)
  rw [same.node m member]

/-- Memory does not matter. -/
theorem hugePages_fill (addr length : Nat) (zero isZeroed : Bool) :
    hugePages c (hugeFill c p addr length zero isZeroed) a = hugePages c p a := by
  rw [hugeFill_eq]
  rfl

theorem hugePages_insert (absent : n ∉ p.huge) (value : ExtentNode) :
    hugePages c ((p.setNode n value).hugeInsert n) a =
      blockPages c a value + hugePages c p a := by
  have perm : ((p.setNode n value).hugeInsert n).huge.Perm (n :: p.huge) :=
    OrderedTree.insert_perm ..
  have self : ((p.setNode n value).hugeInsert n).node n = value := Function.update_self ..
  unfold hugePages
  rw [(perm.map _).sum_eq, List.map_cons, List.sum_cons, self]
  refine congrArg (blockPages c a value + ·) (congrArg List.sum (List.map_congr_left ?_))
  intro m member
  have different : m ≠ n := fun equal => absent (equal ▸ member)
  exact congrArg (blockPages c a) (Function.update_of_ne different ..)

theorem hugePages_remove (member : n ∈ p.huge) :
    hugePages c (p.hugeRemove n) a + blockPages c a (p.node n) = hugePages c p a := by
  have perm := OrderedTree.remove_perm member
  unfold hugePages
  rw [(perm.map _).sum_eq, List.map_cons, List.sum_cons, Nat.add_comm]
  rfl

theorem hugePages_resize (nodup : p.huge.Nodup) (member : n ∈ p.huge) (value : ExtentNode) :
    hugePages c (p.setNode n value) a + blockPages c a (p.node n) =
      hugePages c p a + blockPages c a value := by
  have perm := List.perm_cons_erase member
  have self : (p.setNode n value).node n = value := Function.update_self ..
  have others : (p.huge.erase n).map (fun m => blockPages c a ((p.setNode n value).node m)) =
      (p.huge.erase n).map fun m => blockPages c a (p.node m) := by
    refine List.map_congr_left fun m inRest => ?_
    have different : m ≠ n := (nodup.mem_erase_iff.mp inRest).1
    exact congrArg (blockPages c a) (Function.update_of_ne different ..)
  unfold hugePages
  change (p.huge.map fun m => blockPages c a ((p.setNode n value).node m)).sum + _ = _
  rw [(perm.map _).sum_eq, (perm.map fun m => blockPages c a (p.node m)).sum_eq, List.map_cons,
    List.map_cons, List.sum_cons, List.sum_cons, self, others]
  omega

/-- The pages of the huge blocks fit into the address space. -/
theorem hugePages_mul_page_le {bound others : Nat → Nat} {held : List Nat}
    (ledger : Ledger c bound p held others) (bounded : Bounded bound) (a : Nat) :
    hugePages c p a * c.page ≤ Word.modulus := by
  have within : ∀ x, cover p.hugeSpans x ≤ cover [⟨0, Word.modulus⟩] x := by
    intro x
    have counted := ledger.covers x
    have once := bounded.once x
    by_cases positive : 0 < bound x
    · have below := bounded.below x positive
      have inside : (Span.mk 0 Word.modulus).Has x := by
        rw [Span.has_mk]
        omega
      rw [cover_cons, cover_nil, Span.ind_eq_one_iff.mpr inside]
      omega
    · omega
  have total := sum_len_le_of_cover_le within
  have lengths : p.hugeSpans.map Span.len = p.huge.map fun n => (p.node n).size := by
    unfold Pool.hugeSpans
    rw [List.map_map]
    rfl
  have pages : hugePages c p a * c.page ≤ (p.huge.map fun n => (p.node n).size).sum := by
    unfold hugePages
    rw [← List.sum_map_mul_right]
    refine List.sum_le_sum fun n _ => ?_
    unfold blockPages
    split
    · exact Nat.div_mul_le_self ..
    · rw [Nat.zero_mul]
      exact Nat.zero_le _
  rw [lengths] at total
  simp only [List.map_cons, List.map_nil, List.sum_cons, List.sum_nil, Nat.add_zero] at total
  exact pages.trans total

end Pages

/-! ## One call -/

/-- What a call whose requests are served does to the counters and to the pages of the huge
blocks. -/
inductive CountedStep (c : Config) (configStats : Bool) (s t : Counted) : Prop
  | same (equal : t.stats = s.stats) (pages : ∀ b, hugePages c t.pool b = hugePages c s.pool b)
  | grows (arena size : Nat)
      (stats : t.stats = Function.update s.stats arena
        (ArenaStats.attempt c configStats size (s.stats arena)))
      (pages : ∀ b, hugePages c t.pool b =
        hugePages c s.pool b + if arena = b then size / c.page else 0)
  | shrinks (arena size : Nat)
      (stats : t.stats = Function.update s.stats arena
        (ArenaStats.dalloc c configStats size (s.stats arena)))
      (pages : ∀ b, hugePages c t.pool b + (if arena = b then size / c.page else 0) =
        hugePages c s.pool b)

namespace Counted

variable {c : Config} {configStats : Bool} {bound others : Nat → Nat} {held : List Nat}
  {s : Counted}

/-- A request that is not refused is counted once. -/
theorem arenaChunkAllocHuge_served {newAddr size alignment : Nat} {rtreeFails : Bool}
    (ledger : Ledger c bound s.pool held others) (bounded : Bounded bound)
    (request : Request c size alignment)
    (served : ¬RefusesChunks c s.pool newAddr size alignment rtreeFails)
    (configStats : Bool) (arena : Nat) (zero : Bool) :
    ∃ p' ret zeroOut, arenaChunkAllocHuge c configStats s arena newAddr size alignment zero
        rtreeFails = (⟨p', Function.update s.stats arena
          (ArenaStats.attempt c configStats size (s.stats arena))⟩, some (ret, zeroOut)) ∧
      Ledger.Allotted c bound s.pool p' held others newAddr size alignment zero ret := by
  rcases ledger.allocArena bounded request newAddr zero rtreeFails with
    ⟨p', ret, zeroOut, result, allotted⟩ | ⟨p', result, _⟩
  · refine ⟨p', ret, zeroOut, ?_, allotted⟩
    unfold arenaChunkAllocHuge Jemalloc.arenaChunkAllocHuge
    dsimp only
    rw [count_pool, result]
    rfl
  · have failed := congrArg Prod.snd result
    exact absurd ((chunkAllocArena_none_iff ledger.trees request newAddr zero rtreeFails).mp failed)
      served

/-- `huge_palloc` whose request is served. -/
theorem hugePalloc_step {arena : Option Nat} {size alignment : Nat} {zero rtreeFails : Bool}
    (ledger : Ledger c bound s.pool [] others) (bounded : Bounded bound)
    (power : ∃ k, c.lgChunk ≤ k ∧ k < 64 ∧ alignment = 2 ^ k)
    (served : c.chunkCeiling size ≠ 0 → arena ≠ none → ∀ n rest, s.pool.baseNodes = n :: rest →
      ¬RefusesChunks c { s.pool with baseNodes := rest } 0 (c.chunkCeiling size) alignment
        rtreeFails) :
    CountedStep c configStats s
        (hugePalloc c configStats s arena size alignment zero rtreeFails).1 ∧
      ((hugePalloc c configStats s arena size alignment zero rtreeFails).2 = none →
        (hugePalloc c configStats s arena size alignment zero rtreeFails).1.stats = s.stats) := by
  have nothing : CountedStep c configStats s s := .same rfl fun _ => rfl
  unfold hugePalloc
  dsimp only
  by_cases wraps : c.chunkCeiling size = 0
  · rw [if_pos wraps]
    exact ⟨nothing, fun _ => rfl⟩
  rw [if_neg wraps]
  have request : Request c (c.chunkCeiling size) alignment := {
    nonempty := Nat.pos_of_ne_zero wraps
    size_dvd := c.dvd_chunkCeiling size
    size_lt := c.chunkCeiling_lt size
    power := power }
  cases arena with
  | none => exact ⟨nothing, fun _ => rfl⟩
  | some arena =>
      cases nodes : s.pool.baseNodes with
      | nil =>
          rw [show baseNodeAlloc s.pool = (s.pool, none) by rw [baseNodeAlloc, nodes]]
          exact ⟨nothing, fun _ => rfl⟩
      | cons n rest =>
          have taken : baseNodeAlloc s.pool = ({ s.pool with baseNodes := rest }, some n) := by
            rw [baseNodeAlloc, nodes]
          have given : Ledger c bound { s.pool with baseNodes := rest } [n] others :=
            ledger.takeNode nodes
          obtain ⟨p', ret, zeroOut, result, allotted⟩ :=
            arenaChunkAllocHuge_served (s := ⟨{ s.pool with baseNodes := rest }, s.stats⟩)
              given bounded request (served wraps (Option.some_ne_none arena) n rest nodes)
              configStats arena zero
          rw [taken]
          dsimp only
          rw [result]
          refine ⟨.grows arena (c.chunkCeiling size) rfl fun b => ?_, fun never => by cases never⟩
          dsimp only
          rw [hugePages_fill, hugePages_insert allotted.ledger.fresh.2.2,
            hugePages_same allotted.same, Nat.add_comm]
          rfl

/-- An attempt to expand a block that is served. -/
theorem hugeRallocNoMoveExpand_step {ptr n size : Nat} {rtreeFails : Bool}
    (ledger : Ledger c bound s.pool [] others) (bounded : Bounded bound)
    (found : s.pool.hugeSearch ptr = some n)
    (grows : (s.pool.node n).size < c.chunkCeiling size)
    (served : ¬RefusesChunks c s.pool (ptr + (s.pool.node n).size)
      (c.chunkCeiling size - (s.pool.node n).size) c.chunksize rtreeFails)
    (configStats zero : Bool) :
    CountedStep c configStats s (hugeRallocNoMoveExpand c configStats s ptr (s.pool.node n).size
        size zero rtreeFails).1 ∧
      (hugeRallocNoMoveExpand c configStats s ptr (s.pool.node n).size size zero
        rtreeFails).2 = false := by
  obtain ⟨member, starts⟩ := hugeSearch_some found
  have extent := ledger.hugeExtent n member
  have below := extent.below
  have nonempty := extent.nonempty
  have newDvd := c.dvd_chunkCeiling size
  have newLt := c.chunkCeiling_lt size
  have addrEq : Word.add ptr (s.pool.node n).size = ptr + (s.pool.node n).size :=
    Word.add_eq (by omega)
  have sizeEq : Word.sub (c.chunkCeiling size) (s.pool.node n).size =
      c.chunkCeiling size - (s.pool.node n).size := Word.sub_eq (by omega) newLt
  have request : Request c (c.chunkCeiling size - (s.pool.node n).size) c.chunksize :=
    Request.of_chunksize (by omega) (Nat.dvd_sub newDvd extent.size_dvd) (by omega)
  obtain ⟨p', ret, zeroOut, result, allotted⟩ :=
    arenaChunkAllocHuge_served ledger bounded request served configStats (s.pool.node n).arena zero
  unfold hugeRallocNoMoveExpand
  dsimp only
  rw [if_neg (by omega), found, addrEq, sizeEq]
  dsimp only
  rw [result]
  refine ⟨.grows (s.pool.node n).arena (c.chunkCeiling size - (s.pool.node n).size) rfl
    fun b => ?_, rfl⟩
  have node := allotted.same.node n member
  have linked : n ∈ p'.huge := allotted.same.huge ▸ member
  have resized := hugePages_resize (c := c) (a := b) allotted.ledger.sortedHuge.nodup linked
    { p'.node n with size := c.chunkCeiling size }
  have pages : c.chunkCeiling size / c.page = (s.pool.node n).size / c.page +
      (c.chunkCeiling size - (s.pool.node n).size) / c.page := by
    rw [← Nat.add_div_of_dvd_right (c.page_dvd_chunksize.trans extent.size_dvd)]
    congr 1
    omega
  dsimp only
  rw [hugePages_fill]
  rw [hugePages_same allotted.same] at resized
  unfold blockPages at resized
  dsimp only at resized
  rw [node] at resized
  by_cases own : (s.pool.node n).arena = b
  · simp only [if_pos own] at resized ⊢
    rw [node]
    omega
  · simp only [if_neg own] at resized ⊢
    rw [node]
    omega

/-- Shrinking a block in place. -/
theorem hugeRallocNoMoveShrink_step {ptr n size : Nat}
    (ledger : Ledger c bound s.pool [] others) (bounded : Bounded bound)
    (found : s.pool.hugeSearch ptr = some n) (some_ : c.chunkCeiling size ≠ 0)
    (shrinks : c.chunkCeiling size < (s.pool.node n).size) :
    CountedStep c configStats s
      (hugeRallocNoMoveShrink c configStats s ptr (s.pool.node n).size size).1 := by
  obtain ⟨member, _⟩ := hugeSearch_some found
  have extent := ledger.hugeExtent n member
  have below := extent.below
  have newDvd := c.dvd_chunkCeiling size
  obtain ⟨q, result, ⟨mem, q_eq⟩, resized, _, excess⟩ :=
    ledger.shrink_dalloc bounded found some_ shrinks
  obtain ⟨_, _, same⟩ := resized.dalloc bounded excess
  have oldCeiling : c.chunkCeiling (s.pool.node n).size = (s.pool.node n).size :=
    c.chunkCeiling_eq extent.size_dvd (by omega)
  have sizeEq : Word.sub (s.pool.node n).size (c.chunkCeiling size) =
      (s.pool.node n).size - c.chunkCeiling size := Word.sub_eq (by omega) (by omega)
  have pool : (hugeRallocNoMoveShrink c configStats s ptr (s.pool.node n).size size).1.pool =
      chunkDallocDefault c q ((s.pool.node n).addr + c.chunkCeiling size)
        ((s.pool.node n).size - c.chunkCeiling size) := by
    have first : (Jemalloc.hugeRallocNoMoveShrink c s.pool ptr (s.pool.node n).size size).1 =
        chunkDallocDefault c q ((s.pool.node n).addr + c.chunkCeiling size)
          ((s.pool.node n).size - c.chunkCeiling size) := by rw [result]
    rw [← first]
    unfold hugeRallocNoMoveShrink Jemalloc.hugeRallocNoMoveShrink
    rw [found]
    rfl
  have self : (s.pool.setNode n { s.pool.node n with size := c.chunkCeiling size }).node n =
      { s.pool.node n with size := c.chunkCeiling size } := Function.update_self ..
  refine .shrinks (s.pool.node n).arena ((s.pool.node n).size - c.chunkCeiling size) ?_ fun b => ?_
  · unfold hugeRallocNoMoveShrink
    rw [found]
    dsimp only
    rw [self, oldCeiling, sizeEq]
    rfl
  · have changed := hugePages_resize (c := c) (a := b) ledger.sortedHuge.nodup member
      { s.pool.node n with size := c.chunkCeiling size }
    have contents : hugePages c q b =
        hugePages c (s.pool.setNode n { s.pool.node n with size := c.chunkCeiling size }) b := by
      rw [q_eq]
      rfl
    have pages : (s.pool.node n).size / c.page = c.chunkCeiling size / c.page +
        ((s.pool.node n).size - c.chunkCeiling size) / c.page := by
      rw [← Nat.add_div_of_dvd_right (c.page_dvd_chunksize.trans newDvd)]
      congr 1
      omega
    rw [pool, hugePages_same same, contents]
    unfold blockPages at changed
    by_cases own : (s.pool.node n).arena = b
    · simp only [if_pos own] at changed ⊢
      omega
    · simp only [if_neg own] at changed ⊢
      omega

/-- `huge_ralloc_no_move` whose request is served. -/
theorem hugeRallocNoMove_step {ptr n size extra : Nat} {zero rtreeFails rtreeFailsAgain : Bool}
    (ledger : Ledger c bound s.pool [] others) (bounded : Bounded bound)
    (found : s.pool.hugeSearch ptr = some n) (sizeLt : size < Word.modulus)
    (noWrap : extra ≠ 0 → size + extra + c.chunksize ≤ Word.modulus)
    (served : (s.pool.node n).size < c.chunkCeiling size →
      ¬RefusesChunks c s.pool (ptr + (s.pool.node n).size)
        (c.chunkCeiling (size + extra) - (s.pool.node n).size) c.chunksize rtreeFails) :
    CountedStep c configStats s (hugeRallocNoMove c configStats s ptr (s.pool.node n).size size
        extra zero rtreeFails rtreeFailsAgain).1 ∧
      ((hugeRallocNoMove c configStats s ptr (s.pool.node n).size size extra zero rtreeFails
          rtreeFailsAgain).2 = true →
        (hugeRallocNoMove c configStats s ptr (s.pool.node n).size size extra zero rtreeFails
          rtreeFailsAgain).1.stats = s.stats) := by
  have nothing : CountedStep c configStats s s := .same rfl fun _ => rfl
  obtain ⟨member, _⟩ := hugeSearch_some found
  have extent := ledger.hugeExtent n member
  have below := extent.below
  have oldCeiling : c.chunkCeiling (s.pool.node n).size = (s.pool.node n).size :=
    c.chunkCeiling_eq extent.size_dvd (by omega)
  have positive := c.chunksize_pos
  have sum : Word.add size extra = size + extra := by
    by_cases none : extra = 0
    · rw [none, Word.add_eq (by omega)]
    · have := noWrap none
      exact Word.add_eq (by omega)
  have enough := c.chunkCeiling_extra sizeLt noWrap
  rw [sum] at enough
  unfold hugeRallocNoMove
  rw [oldCeiling, sum]
  split
  · exact ⟨nothing, fun _ => rfl⟩
  split
  · exact ⟨nothing, fun _ => rfl⟩
  rename_i different
  split
  · exact ⟨nothing, fun _ => rfl⟩
  rename_i some_
  split
  · rename_i shrinks
    refine ⟨hugeRallocNoMoveShrink_step ledger bounded found some_ shrinks, fun failed => ?_⟩
    unfold hugeRallocNoMoveShrink at failed
    rw [found] at failed
    cases failed
  · rename_i larger
    have grows : (s.pool.node n).size < c.chunkCeiling size := by
      by_contra atMost
      exact different ⟨by omega, by omega⟩
    obtain ⟨step, succeeds⟩ := hugeRallocNoMoveExpand_step ledger bounded found
      (lt_of_lt_of_le grows enough) (served grows) configStats zero
    cases result : hugeRallocNoMoveExpand c configStats s ptr (s.pool.node n).size (size + extra)
        zero rtreeFails with
    | mk t failed =>
        rw [result] at step succeeds
        dsimp only at step succeeds
        rw [succeeds]
        exact ⟨step, fun never => Bool.noConfusion never⟩

/-- `huge_dalloc` of a live block. -/
theorem hugeDalloc_step {ptr n : Nat} (ledger : Ledger c bound s.pool [] others)
    (bounded : Bounded bound) (found : s.pool.hugeSearch ptr = some n) :
    CountedStep c configStats s (hugeDalloc c configStats s ptr) := by
  obtain ⟨member, _⟩ := hugeSearch_some found
  have extent := ledger.hugeExtent n member
  have unlinked : Ledger c bound (s.pool.hugeRemove n) [n]
      fun x => others x + (s.pool.node n).span.ind x := ledger.hugeUnlink member fun _ => rfl
  have junked := unlinked.junk (s.pool.node n).addr (s.pool.node n).size
  obtain ⟨_, _, same⟩ := junked.dalloc bounded extent.chunkSpan
  have node : (hugeDallocJunk c (s.pool.hugeRemove n) (s.pool.node n).addr
      (s.pool.node n).size).node = s.pool.node := by
    rw [hugeDallocJunk_eq]
    rfl
  have unchanged : ((s.pool.hugeRemove n).node n) = s.pool.node n := rfl
  refine .shrinks (s.pool.node n).arena (s.pool.node n).size ?_ fun b => ?_
  · unfold hugeDalloc
    rw [found]
    dsimp only
    rw [unchanged, node]
    rfl
  · have removed := hugePages_remove (c := c) (a := b) member
    have contents : hugePages c (hugeDallocJunk c (s.pool.hugeRemove n) (s.pool.node n).addr
        (s.pool.node n).size) b = hugePages c (s.pool.hugeRemove n) b := by
      rw [hugeDallocJunk_eq]
      rfl
    have pages : hugePages c (hugeDalloc c configStats s ptr).pool b =
        hugePages c (s.pool.hugeRemove n) b := by
      rw [← contents, ← hugePages_same same]
      unfold hugeDalloc
      rw [found]
      dsimp only
      rw [unchanged, node]
      rfl
    rw [pages]
    exact removed

end Counted

/-! ## Whole runs -/

namespace ArenaBooks

variable {c : Config} {configStats : Bool} {s s' : ArenaBooks} {op : ArenaOp}

/-- What holds in every state. -/
structure Right (c : Config) (s : ArenaBooks) : Prop where
  settled : s.owner.Settled c
  nactive : ∀ a, (s.stats a).nactive = s.runPages a + hugePages c s.owner.pool a
  fits : ∀ a, s.runPages a * c.page ≤ Word.modulus

/-- Pages of runs and of huge blocks are few enough to be counted in a word. -/
theorem pages_lt {bound others : Nat → Nat} {held : List Nat} {p : Pool} {pages : Nat}
    (ledger : Ledger c bound p held others) (bounded : Bounded bound)
    (fits : pages * c.page ≤ Word.modulus) (a : Nat) :
    pages + hugePages c p a < Word.modulus := by
  have huge := hugePages_mul_page_le ledger bounded a
  have long : 2 ^ 6 ≤ 2 ^ c.lgPage := Nat.pow_le_pow_right (by norm_num) c.cacheline_le_page
  change 64 ≤ c.page at long
  have few : pages * 64 ≤ pages * c.page := Nat.mul_le_mul_left _ long
  have fewHuge : hugePages c p a * 64 ≤ hugePages c p a * c.page := Nat.mul_le_mul_left _ long
  have := Word.modulus_eq
  omega

/-- A call whose requests are served keeps `nactive` right. -/
theorem Right.after {t : Counted} (right : s.Right c)
    (settled : (s.after t).owner.Settled c)
    (step : CountedStep c configStats s.counted t) : (s.after t).Right c where
  settled := settled
  fits := right.fits
  nactive := by
    intro a
    have counted := right.nactive a
    have few := pages_lt settled.accounted.ledger settled.bounded (right.fits a) a
    have fewBefore := pages_lt right.settled.accounted.ledger right.settled.bounded
      (right.fits a) a
    change (t.stats a).nactive = s.runPages a + hugePages c t.pool a
    change s.runPages a + hugePages c t.pool a < Word.modulus at few
    cases step with
    | same equal pages =>
        rw [equal, pages a]
        exact counted
    | grows arena size stats pages =>
        have more := pages a
        change _ = hugePages c s.owner.pool a + _ at more
        rw [stats]
        by_cases own : arena = a
        · subst own
          rw [if_pos rfl] at more
          rw [Function.update_self, ArenaStats.attempt_nactive]
          change Word.add (s.stats arena).nactive _ = _
          rw [counted, Word.add_eq (by omega)]
          omega
        · rw [if_neg own] at more
          rw [Function.update_of_ne (Ne.symm own)]
          exact counted.trans (by omega)
    | shrinks arena size stats pages =>
        have fewer := pages a
        change _ + _ = hugePages c s.owner.pool a at fewer
        rw [stats]
        by_cases own : arena = a
        · subst own
          rw [if_pos rfl] at fewer
          rw [Function.update_self, ArenaStats.dalloc_nactive]
          change Word.sub (s.stats arena).nactive _ = _
          rw [counted, Word.sub_eq (by omega) (by omega)]
          omega
        · rw [if_neg own] at fewer
          rw [Function.update_of_ne (Ne.symm own)]
          exact counted.trans (by omega)

/-- The run pages of one arena change, and `nactive` with them. -/
theorem Right.setRunPages {arena pages : Nat} {stats : ArenaStats} (right : s.Right c)
    (nactive : stats.nactive = pages + hugePages c s.owner.pool arena)
    (fits : pages * c.page ≤ Word.modulus) :
    ArenaBooks.Right c { s with
      stats := Function.update s.stats arena stats
      runPages := Function.update s.runPages arena pages } := by
  refine ⟨right.settled, fun a => ?_, fun a => ?_⟩
  · dsimp only
    by_cases own : a = arena
    · subst own
      rw [Function.update_self, Function.update_self]
      exact nactive
    · rw [Function.update_of_ne own, Function.update_of_ne own]
      exact right.nactive a
  · dsimp only
    by_cases own : a = arena
    · subst own
      rw [Function.update_self]
      exact fits
    · rw [Function.update_of_ne own]
      exact right.fits a

/-- A call that is served keeps the counters right, and leaves them alone if it fails. -/
theorem Right.exec (right : s.Right c) (served : s.Served c op)
    (result : s.exec c configStats op = some s') :
    s'.Right c ∧ (s.Fails c configStats op → s'.stats = s.stats) := by
  have ledger := right.settled.accounted.ledger
  have bounded := right.settled.bounded
  cases op with
  | hugePalloc arena size lgAlign zero rtreeFails =>
      simp only [ArenaBooks.exec, Option.ite_none_right_eq_some, Option.some.injEq] at result
      obtain ⟨⟨sizeLt, lower, upper⟩, rfl⟩ := result
      have pool := Counted.hugePalloc_pool c configStats s.counted arena size (2 ^ lgAlign) zero
        rtreeFails
      obtain ⟨step, failed⟩ := Counted.hugePalloc_step (s := s.counted) ledger bounded
        ⟨lgAlign, lower, upper, rfl⟩ served
      have called : s.owner.exec c (.hugePalloc arena size lgAlign zero rtreeFails) =
          some (s.after (s.counted.hugePalloc c configStats arena size (2 ^ lgAlign) zero
            rtreeFails).1).owner := by
        unfold OwnerState.exec OwnerState.execIn
        dsimp only
        rw [if_pos ⟨sizeLt, lower, upper⟩]
        exact congrArg (fun q => some { s.owner with pool := q }) (congrArg Prod.fst pool).symm
      exact ⟨right.after (right.settled.call called) step, failed⟩
  | hugeRallocNoMove ptr size extra zero rtreeFails rtreeFailsAgain =>
      simp only [ArenaBooks.exec] at result
      cases found : s.owner.pool.hugeSearch ptr with
      | none => simp [found] at result
      | some n =>
          simp only [found, Option.ite_none_right_eq_some, Option.some.injEq] at result
          obtain ⟨⟨sizeLt, noWrap⟩, rfl⟩ := result
          have pool := Counted.hugeRallocNoMove_pool c configStats s.counted ptr
            (s.owner.pool.node n).size size extra zero rtreeFails rtreeFailsAgain
          obtain ⟨step, failed⟩ := Counted.hugeRallocNoMove_step (s := s.counted) ledger bounded
            found sizeLt noWrap (served n found)
          have called : s.owner.exec c (.hugeRallocNoMove ptr size extra zero rtreeFails
              rtreeFailsAgain) = some (s.after (s.counted.hugeRallocNoMove c configStats ptr
                (s.owner.pool.node n).size size extra zero rtreeFails
                rtreeFailsAgain).1).owner := by
            unfold OwnerState.exec OwnerState.execIn
            dsimp only
            rw [found]
            dsimp only
            rw [if_pos ⟨sizeLt, noWrap⟩]
            exact congrArg (fun q => some { s.owner with pool := q })
              (congrArg Prod.fst pool).symm
          refine ⟨right.after (right.settled.call called) step, ?_⟩
          rintro ⟨m, same, fails⟩
          rw [found] at same
          cases same
          exact failed fails
  | hugeDalloc ptr =>
      simp only [ArenaBooks.exec] at result
      cases found : s.owner.pool.hugeSearch ptr with
      | none => simp [found] at result
      | some n =>
          simp only [found, Option.some.injEq] at result
          subst result
          have called : s.owner.exec c (.hugeDalloc ptr) =
              some (s.after (s.counted.hugeDalloc c configStats ptr)).owner := by
            unfold OwnerState.exec OwnerState.execIn
            dsimp only
            rw [found]
            exact congrArg (fun q => some { s.owner with pool := q })
              (Counted.hugeDalloc_pool c configStats s.counted ptr).symm
          have step : CountedStep c configStats s.counted
              (s.counted.hugeDalloc c configStats ptr) :=
            Counted.hugeDalloc_step ledger bounded found
          exact ⟨right.after (right.settled.call called) step, fun never => never.elim⟩
  | runSplit arena pages =>
      simp only [ArenaBooks.exec, Option.ite_none_right_eq_some, Option.some.injEq] at result
      obtain ⟨fits, rfl⟩ := result
      have counted := right.nactive arena
      have few := pages_lt ledger bounded fits arena
      refine ⟨right.setRunPages ?_ fits, fun never => never.elim⟩
      dsimp only
      rw [counted, Word.add_eq (by omega)]
      omega
  | runDalloc arena pages =>
      simp only [ArenaBooks.exec, Option.ite_none_right_eq_some, Option.some.injEq] at result
      obtain ⟨enough, rfl⟩ := result
      have counted := right.nactive arena
      have few := pages_lt ledger bounded (right.fits arena) arena
      have fewer := (Nat.mul_le_mul_right c.page (Nat.sub_le _ pages)).trans (right.fits arena)
      refine ⟨right.setRunPages ?_ fewer, fun never => never.elim⟩
      dsimp only
      rw [counted, Word.sub_eq (by omega) few]
      omega

end ArenaBooks

/-- From any state of a pool in which `nactive` is right: in every run in which no request for
chunks is refused, `nactive` is the number of pages in active runs and live huge blocks in
every state, the threshold for purging follows it, and a call that fails leaves all counters
as they were. -/
theorem arena_accounting_right {c : Config} {addr size : Nat} {mem : Nat → UInt8}
    {zeroed locksFail : Bool} {p : Pool} {start : OwnerState} {stats : Nat → ArenaStats}
    {runPages : Nat → Nat} {s : ArenaBooks} (configStats : Bool) (fits : c.Fits)
    (region : Region c addr size)
    (created : poolCreateEmpty c mem addr size zeroed locksFail = some p)
    (begins : Reached PoolOp.Permitted (PoolOp.exec c) ⟨p, []⟩ start)
    (right : ∀ a, (stats a).nactive = runPages a + hugePages c start.pool a)
    (few : ∀ a, runPages a * c.page ≤ Word.modulus)
    (reached : Reached (ArenaBooks.Served c) (ArenaBooks.exec c configStats)
      ⟨start, stats, runPages⟩ s) :
    (∀ a, (s.stats a).nactive = s.runPages a + hugePages c s.owner.pool a) ∧
      (∀ a lgDirtyMult, (s.stats a).purgeThreshold lgDirtyMult =
        (s.runPages a + hugePages c s.owner.pool a) >>> lgDirtyMult) ∧
      ∀ op s', s.Served c op → s.exec c configStats op = some s' → s.Fails c configStats op →
        s'.stats = s.stats := by
  have settled := (OwnerState.Settled.start fits region created).of_reached fits begins
  have kept : s.Right c := reached.invariant (ArenaBooks.Right c) ⟨settled, right, few⟩
    fun _ _ _ before served result => (before.exec served result).1
  refine ⟨kept.nactive, fun a lgDirtyMult => ?_,
    fun op s' served result => (kept.exec served result).2⟩
  rw [ArenaStats.purgeThreshold, kept.nactive a]

/-- A new arena has counted nothing. -/
def ArenaStats.zero : ArenaStats := ⟨0, 0, 0, 0, 0, 0⟩

/-- A pool whose arenas are new. -/
def ArenaBooks.start (p : Pool) : ArenaBooks :=
  ⟨⟨p, []⟩, fun _ => ArenaStats.zero, fun _ => 0⟩

/-- A huge block of two chunks is counted, page by page. -/
theorem arena_accounting_right_served :
    ∃ p s, poolCreateEmpty defaultConfig (fun _ => 0) 8388608 20971520 true false = some p ∧
      ArenaBooks.exec defaultConfig true (.start p) (.hugePalloc (some 0) 8388608 22 false false) =
        some s ∧
      (s.stats 0).nactive = 2048 ∧
      (s.stats 0).nactive = s.runPages 0 + hugePages defaultConfig s.owner.pool 0 := by
  have outcome : ((poolCreateEmpty defaultConfig (fun _ => 0) 8388608 20971520 true
      false).bind fun p => (ArenaBooks.exec defaultConfig true (.start p)
        (.hugePalloc (some 0) 8388608 22 false false)).map fun s =>
        ((s.stats 0).nactive,
          (chunkAllocArena defaultConfig { p with baseNodes := p.baseNodes.tail } 0 8388608
            4194304 false false).2.isSome)) = some (2048, true) := by
    decide +kernel
  obtain ⟨p, created, ran⟩ := Option.bind_eq_some_iff.mp outcome
  obtain ⟨s, first, values⟩ := Option.map_eq_some_iff.mp ran
  injection values with nactive found
  have region : Region defaultConfig 8388608 20971520 :=
    ⟨by decide +kernel, by decide +kernel, by decide +kernel⟩
  have request : Request defaultConfig 8388608 4194304 :=
    ⟨by decide, by decide +kernel, by decide +kernel, 22, by decide, by decide, by decide⟩
  have ceiling : defaultConfig.chunkCeiling 8388608 = 8388608 := by decide +kernel
  have ledger := (OwnerState.Settled.start defaultConfig_fits region created).accounted.ledger
  have served : (ArenaBooks.start p).Served defaultConfig
      (.hugePalloc (some 0) 8388608 22 false false) := by
    intro _ _ n rest nodes refused
    change p.baseNodes = n :: rest at nodes
    change RefusesChunks defaultConfig { p with baseNodes := rest } 0
      (defaultConfig.chunkCeiling 8388608) 4194304 false at refused
    rw [ceiling] at refused
    have fails := (chunkAllocArena_none_iff (ledger.takeNode nodes).trees request 0 false
      false).mpr refused
    rw [nodes, List.tail_cons, fails] at found
    cases found
  have nothing : ∀ a, ArenaStats.zero.nactive = 0 + hugePages defaultConfig p a := by
    intro a
    rw [hugePages, (poolCreateEmpty_fresh defaultConfig_fits region created).1.huge]
    rfl
  exact ⟨p, s, created, first, nactive, (arena_accounting_right true defaultConfig_fits region
    created Reached.start nothing (fun _ => Nat.zero_le _)
    (Reached.next Reached.start served first)).1 0⟩

/-- Eight chunks are more than the pool has.  The call fails and is counted for good: as a
request, and as pages in use. -/
theorem arena_accounting_drifts :
    ∃ p s, poolCreateEmpty defaultConfig (fun _ => 0) 8388608 20971520 true false = some p ∧
      (ArenaBooks.start p).Fails defaultConfig true
        (.hugePalloc (some 0) 33554432 22 false false) ∧
      ArenaBooks.exec defaultConfig true (.start p)
        (.hugePalloc (some 0) 33554432 22 false false) = some s ∧
      (s.stats 0).nactive ≠ ((ArenaBooks.start p).stats 0).nactive ∧
      (s.stats 0).nrequestsHuge ≠ ((ArenaBooks.start p).stats 0).nrequestsHuge ∧
      (s.stats 0).nactive ≠ s.runPages 0 + hugePages defaultConfig s.owner.pool 0 := by
  have outcome : ((poolCreateEmpty defaultConfig (fun _ => 0) 8388608 20971520 true
      false).bind fun p => (ArenaBooks.exec defaultConfig true (.start p)
        (.hugePalloc (some 0) 33554432 22 false false)).map fun s =>
        (((ArenaBooks.start p).counted.hugePalloc defaultConfig true (some 0) 33554432
          (2 ^ 22) false false).2, (s.stats 0).nactive, (s.stats 0).nrequestsHuge,
          s.runPages 0 + hugePages defaultConfig s.owner.pool 0)) =
      some (none, 8192, 1, 0) := by
    decide +kernel
  obtain ⟨p, created, ran⟩ := Option.bind_eq_some_iff.mp outcome
  obtain ⟨s, failed, values⟩ := Option.map_eq_some_iff.mp ran
  injection values with fails values
  injection values with nactive values
  injection values with requests pages
  refine ⟨p, s, created, fails, failed, ?_, ?_, ?_⟩
  · rw [nactive]
    exact Nat.succ_ne_zero _
  · rw [requests]
    exact Nat.succ_ne_zero _
  · rw [nactive, pages]
    decide

end Jemalloc
end Vmem
