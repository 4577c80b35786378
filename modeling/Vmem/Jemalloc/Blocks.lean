import Vmem.Jemalloc.SizeClasses
import Mathlib.Logic.Function.Basic

/-!
# Live blocks and the pools they belong to

A block that starts at a chunk boundary is huge and is looked up in the huge tree of the
pool that is named by the caller.  Every other block lies in a chunk of an arena, and the
header of the chunk names the arena, so that the caller's pool does not matter.

Here the heap is the list of live blocks of every pool.  Where an arena or the chunk
layer puts a new block, and whether a block can be resized in place, is given.
-/

namespace Vmem
namespace Jemalloc

/-- A live block and its usable size. -/
structure LiveBlock where
  ptr : Nat
  usize : Nat
  deriving DecidableEq

/-- The live blocks by pool id; pool 0 is the base pool. -/
structure Heap where
  npools : Nat
  /-- `huge` of a pool. -/
  huge : Nat → List LiveBlock
  /-- The blocks in the arena chunks of a pool. -/
  runs : Nat → List LiveBlock
  /-- The pools and addresses of lookups in a huge tree that did not find a block, where the
  code asserts that it does. -/
  missed : List (Nat × Nat)

/-- The addresses that start a chunk. -/
theorem Config.chunkFloor_eq_iff (c : Config) (ptr : Nat) :
    c.chunkFloor ptr = ptr ↔ c.chunksize ∣ ptr := by
  constructor
  · intro same
    rw [← same]
    exact Word.dvd_floor _ _
  · exact Word.floor_eq_of_dvd

namespace Heap

/-- A huge tree contains a block at the address. -/
def HasHuge (h : Heap) (pool ptr : Nat) : Prop := ∃ b ∈ h.huge pool, b.ptr = ptr

instance (h : Heap) (pool ptr : Nat) : Decidable (h.HasHuge pool ptr) :=
  inferInstanceAs (Decidable (∃ b ∈ h.huge pool, b.ptr = ptr))

/-- Link a new block. -/
def add (h : Heap) (pool : Nat) (huge : Bool) (b : LiveBlock) : Heap :=
  if huge then { h with huge := Function.update h.huge pool (b :: h.huge pool) }
  else { h with runs := Function.update h.runs pool (b :: h.runs pool) }

/-- `arena_dalloc`: the chunk tells whose block it is. -/
def arenaDalloc (h : Heap) (ptr : Nat) : Heap :=
  { h with runs := fun pool => (h.runs pool).filter fun b => b.ptr ≠ ptr }

/-- Search the huge tree of a pool, where the code asserts that the block is found. -/
def lookup (h : Heap) (pool ptr : Nat) : Heap :=
  if h.HasHuge pool ptr then h else { h with missed := (pool, ptr) :: h.missed }

/-- `huge_dalloc`. -/
def hugeDalloc (h : Heap) (pool ptr : Nat) : Heap :=
  let h := h.lookup pool ptr
  { h with huge := Function.update h.huge pool ((h.huge pool).filter fun b => b.ptr ≠ ptr) }

/-- `pool_idalloct`; `idalloct` is the same with the base pool. -/
def idalloct (c : Config) (h : Heap) (pool ptr : Nat) : Heap :=
  if c.chunkFloor ptr ≠ ptr then h.arenaDalloc ptr else h.hugeDalloc pool ptr

/-- The first pool that knows the address. -/
def sallocIn (h : Heap) (blocks : Nat → List LiveBlock) (ptr : Nat) : Nat :=
  (((List.range h.npools).findSome? fun pool => (blocks pool).find? fun b => b.ptr = ptr).map
    LiveBlock.usize).getD 0

/-- `isalloc`: `arena_salloc` reads the chunk's map, `huge_salloc` asks every pool. -/
def isalloc (c : Config) (h : Heap) (ptr : Nat) : Nat :=
  if c.chunkFloor ptr ≠ ptr then h.sallocIn h.runs ptr else h.sallocIn h.huge ptr

/-- A run is resized in place. -/
def resizeRun (h : Heap) (ptr usize : Nat) : Heap :=
  { h with runs := fun pool => (h.runs pool).map fun b => if b.ptr = ptr then ⟨ptr, usize⟩ else b }

/-- A huge block is looked up and resized in place. -/
def resizeHuge (h : Heap) (pool ptr usize : Nat) : Heap :=
  let h := h.lookup pool ptr
  let resized := (h.huge pool).map fun b => if b.ptr = ptr then ⟨ptr, usize⟩ else b
  { h with huge := Function.update h.huge pool resized }

end Heap

/-! ## Reallocation -/

/-- What the layers below answer during a reallocation. -/
structure Answers where
  /-- The block can be resized where it is. -/
  noMove : Bool
  first : Option Nat
  middle : Option Nat
  second : Option Nat

/-- `arena_ralloc` without extra and alignment. -/
def arenaRalloc (c : Config) (h : Heap) (pool ptr oldsize size : Nat) (noMove : Bool)
    (answer : Option Nat) : Heap × Option Nat :=
  if oldsize ≤ c.arenaMaxclass ∧ noMove = true then (h.resizeRun ptr (c.s2u size), some ptr)
  else
    match answer with
    | none => (h, none)
    | some ret => ((h.add pool false ⟨ret, c.s2u size⟩).idalloct c pool ptr, some ret)

/-- `huge_ralloc` once the block has to move. -/
def hugeRallocMove (c : Config) (h : Heap) (pool ptr size : Nat) (answer : Option Nat) :
    Heap × Option Nat :=
  if c.chunkCeiling size = 0 then (h, none)
  else
    match answer with
    | none => (h, none)
    | some ret => ((h.add pool true ⟨ret, c.chunkCeiling size⟩).idalloct c pool ptr, some ret)

/-- `huge_ralloc` without extra and alignment. -/
def hugeRalloc (c : Config) (h : Heap) (pool ptr oldsize size : Nat) (noMove : Bool)
    (answer : Option Nat) : Heap × Option Nat :=
  if oldsize ≤ c.arenaMaxclass then hugeRallocMove c h pool ptr size answer
  else if c.chunkCeiling size = c.chunkCeiling oldsize then (h, some ptr)
  else if c.chunkCeiling size = 0 then hugeRallocMove c h pool ptr size answer
  else if c.chunkCeiling size < c.chunkCeiling oldsize then
    (h.resizeHuge pool ptr (c.chunkCeiling size), some ptr)
  else if noMove = true then (h.resizeHuge pool ptr (c.chunkCeiling size), some ptr)
  else hugeRallocMove c (h.lookup pool ptr) pool ptr size answer

/-- `pool_iralloc` without extra and alignment; `iralloc` is the same with the base pool. -/
def poolIralloc (c : Config) (h : Heap) (pool ptr size : Nat) (answers : Answers) :
    Heap × Option Nat :=
  let oldsize := h.isalloc c ptr
  if size ≤ c.arenaMaxclass then
    match arenaRalloc c h pool ptr oldsize size answers.noMove answers.first with
    | (h, some ret) => (h, some ret)
    | (h, none) =>
        if oldsize < size then (h, none)
        else if c.chunksize < oldsize then
          match hugeRalloc c h pool ptr oldsize c.chunksize answers.noMove answers.middle with
          | (h, some ret) => arenaRalloc c h pool ret c.chunksize size false answers.second
          | (h, none) => (h, none)
        else (h, none)
  else hugeRalloc c h pool ptr oldsize size answers.noMove answers.first

/-! ## Lookups that succeed -/

/-- A run lies behind a chunk header and is no larger than the largest arena class. -/
def LiveBlock.IsRun (c : Config) (b : LiveBlock) : Prop :=
  ¬c.chunksize ∣ b.ptr ∧ b.usize ≤ c.arenaMaxclass

/-- A huge block is a number of whole chunks. -/
def LiveBlock.IsHuge (c : Config) (b : LiveBlock) : Prop :=
  c.chunksize ∣ b.ptr ∧ c.chunkCeiling b.usize = b.usize

/-- Blocks are of the kind they are listed under. -/
structure Heap.Placed (c : Config) (h : Heap) : Prop where
  runs : ∀ pool, ∀ b ∈ h.runs pool, b.IsRun c
  huge : ∀ pool, ∀ b ∈ h.huge pool, b.IsHuge c

/-- What a call on one pool leaves alone: nothing is missed, and the huge trees of the other
pools stay. -/
structure Heap.Keeps (c : Config) (pool : Nat) (h after : Heap) : Prop where
  missed : after.missed = h.missed
  others : ∀ other, other ≠ pool → after.huge other = h.huge other
  placed : h.Placed c → after.Placed c

namespace Heap

variable {c : Config} {h : Heap} {pool ptr usize : Nat}

theorem Keeps.refl (c : Config) (pool : Nat) (h : Heap) : Keeps c pool h h :=
  ⟨rfl, fun _ _ => rfl, id⟩

theorem Keeps.trans {middle after : Heap} (first : Keeps c pool h middle)
    (second : Keeps c pool middle after) : Keeps c pool h after where
  missed := second.missed.trans first.missed
  others := fun other differs => (second.others other differs).trans (first.others other differs)
  placed := fun placed => second.placed (first.placed placed)

theorem add_run_keeps {b : LiveBlock} (isRun : b.IsRun c) :
    Keeps c pool h (h.add pool false b) := by
  refine ⟨rfl, fun _ _ => rfl, fun placed => ⟨?_, placed.huge⟩⟩
  intro other
  show ∀ run ∈ Function.update h.runs pool (b :: h.runs pool) other, _
  by_cases same : other = pool
  · subst same
    rw [Function.update_self]
    intro run member
    obtain rfl | member := List.mem_cons.mp member
    · exact isRun
    · exact placed.runs other run member
  · rw [Function.update_of_ne same]
    exact placed.runs other

/-- Changing the huge tree of a pool. -/
theorem update_huge_keeps (blocks : List LiveBlock)
    (isHuge : h.Placed c → ∀ b ∈ blocks, b.IsHuge c) :
    Keeps c pool h { h with huge := Function.update h.huge pool blocks } := by
  refine ⟨rfl, fun other differs => Function.update_of_ne differs _ _,
    fun placed => ⟨placed.runs, ?_⟩⟩
  intro other
  show ∀ b ∈ Function.update h.huge pool blocks other, _
  by_cases same : other = pool
  · subst same
    rw [Function.update_self]
    exact isHuge placed
  · rw [Function.update_of_ne same]
    exact placed.huge other

theorem add_huge_keeps {b : LiveBlock} (isHuge : b.IsHuge c) :
    Keeps c pool h (h.add pool true b) := by
  apply update_huge_keeps
  intro placed block member
  obtain rfl | member := List.mem_cons.mp member
  · exact isHuge
  · exact placed.huge pool block member

theorem lookup_of_hasHuge (found : h.HasHuge pool ptr) : h.lookup pool ptr = h := if_pos found

theorem hugeDalloc_keeps (found : h.HasHuge pool ptr) : Keeps c pool h (h.hugeDalloc pool ptr) := by
  unfold hugeDalloc
  rw [lookup_of_hasHuge found]
  apply update_huge_keeps
  intro placed block member
  exact placed.huge pool block (List.mem_filter.mp member).1

theorem resizeHuge_keeps (found : h.HasHuge pool ptr) (whole : c.chunkCeiling usize = usize) :
    Keeps c pool h (h.resizeHuge pool ptr usize) := by
  unfold resizeHuge
  rw [lookup_of_hasHuge found]
  apply update_huge_keeps
  intro placed block member
  obtain ⟨before, member, same⟩ := List.mem_map.mp member
  have isHuge := placed.huge pool before member
  subst same
  split
  · next same => exact ⟨same ▸ isHuge.1, whole⟩
  · exact isHuge

theorem resizeHuge_hasHuge (usize : Nat) (found : h.HasHuge pool ptr) :
    (h.resizeHuge pool ptr usize).HasHuge pool ptr := by
  have lookup := lookup_of_hasHuge found
  obtain ⟨b, member, same⟩ := found
  refine ⟨⟨ptr, usize⟩, ?_, rfl⟩
  unfold resizeHuge
  rw [lookup]
  simp only [Function.update_self]
  exact List.mem_map.mpr ⟨b, member, if_pos same⟩

theorem arenaDalloc_keeps : Keeps c pool h (h.arenaDalloc ptr) := by
  refine ⟨rfl, fun _ _ => rfl, fun placed => ⟨?_, placed.huge⟩⟩
  intro other b member
  exact placed.runs other b (List.mem_filter.mp member).1

theorem resizeRun_keeps (small : usize ≤ c.arenaMaxclass) :
    Keeps c pool h (h.resizeRun ptr usize) := by
  refine ⟨rfl, fun _ _ => rfl, fun placed => ⟨?_, placed.huge⟩⟩
  intro other b member
  obtain ⟨before, member, same⟩ := List.mem_map.mp member
  have kept := placed.runs other before member
  subst same
  split
  · next same => exact ⟨same ▸ kept.1, small⟩
  · exact kept

/-- A block is found: it is no huge block, or the pool has it. -/
def Serves (c : Config) (h : Heap) (pool ptr : Nat) : Prop :=
  c.chunkFloor ptr = ptr → h.HasHuge pool ptr

theorem idalloct_keeps (serves : h.Serves c pool ptr) : Keeps c pool h (h.idalloct c pool ptr) := by
  unfold idalloct
  split
  · exact arenaDalloc_keeps
  · next aligned => exact hugeDalloc_keeps (serves (Classical.not_not.mp aligned))

/-- New blocks do not hide old ones. -/
theorem Serves.add (serves : h.Serves c pool ptr) (huge : Bool) (b : LiveBlock) :
    (h.add pool huge b).Serves c pool ptr := by
  intro aligned
  obtain ⟨found, member, same⟩ := serves aligned
  refine ⟨found, ?_, same⟩
  cases huge with
  | false => exact member
  | true =>
      show found ∈ Function.update h.huge pool (b :: h.huge pool) pool
      rw [Function.update_self]
      exact List.mem_cons_of_mem _ member

/-- The usable size of a block that is not huge is an arena class. -/
theorem isalloc_le (placed : h.Placed c) (behind : c.chunkFloor ptr ≠ ptr) :
    h.isalloc c ptr ≤ c.arenaMaxclass := by
  unfold isalloc sallocIn
  rw [if_pos behind]
  cases found : (List.range h.npools).findSome? fun pool =>
      (h.runs pool).find? fun b => b.ptr = ptr with
  | none => exact Nat.zero_le _
  | some b =>
      obtain ⟨owner, _, found⟩ := List.exists_of_findSome?_eq_some found
      exact (placed.runs owner b (List.mem_of_find?_eq_some found)).2

/-- The usable size of a huge block is a number of chunks. -/
theorem isalloc_whole (placed : h.Placed c) (aligned : c.chunkFloor ptr = ptr) :
    c.chunkCeiling (h.isalloc c ptr) = h.isalloc c ptr := by
  unfold isalloc sallocIn
  rw [if_neg (not_not_intro aligned)]
  cases found : (List.range h.npools).findSome? fun pool =>
      (h.huge pool).find? fun b => b.ptr = ptr with
  | none => exact c.chunkCeiling_eq (Nat.dvd_zero _) (by decide)
  | some b =>
      obtain ⟨owner, _, found⟩ := List.exists_of_findSome?_eq_some found
      exact (placed.huge owner b (List.mem_of_find?_eq_some found)).2

end Heap

/-! ## Reallocation of blocks that are found -/

/-- Arena classes stay arena classes. -/
theorem Config.s2u_le (c : Config) {size : Nat} (le : size ≤ c.arenaMaxclass) :
    c.s2u size ≤ c.arenaMaxclass := by
  unfold Config.s2u
  split
  · next tiny =>
      unfold Config.smallMaxclass at tiny
      exact Nat.le_trans (c.smallS2u_le_page (by omega))
        (Nat.le_of_dvd c.arenaMaxclass_pos c.page_dvd_arenaMaxclass)
  · exact (c.pageCeiling_le le).2

/-- A rounded size is a number of chunks. -/
theorem Config.chunkCeiling_idem (c : Config) (size : Nat) :
    c.chunkCeiling (c.chunkCeiling size) = c.chunkCeiling size :=
  c.chunkCeiling_eq (c.dvd_chunkCeiling size) (c.chunkCeiling_lt size)

/-- The layers below put runs behind chunk headers and huge blocks at chunk boundaries. -/
structure Answers.Lawful (c : Config) (size : Nat) (answers : Answers) : Prop where
  first : ∀ ret ∈ answers.first, (c.chunksize ∣ ret ↔ c.arenaMaxclass < size)
  second : ∀ ret ∈ answers.second, ¬c.chunksize ∣ ret

section

open Heap

variable {c : Config} {h : Heap} {pool ptr oldsize size : Nat} {noMove : Bool}
  {answer : Option Nat} {answers : Answers}

theorem arenaRalloc_keeps (oldsize : Nat) (noMove : Bool) (serves : h.Serves c pool ptr)
    (le : size ≤ c.arenaMaxclass)
    (lawful : ∀ ret ∈ answer, ¬c.chunksize ∣ ret) :
    Keeps c pool h (arenaRalloc c h pool ptr oldsize size noMove answer).1 := by
  unfold arenaRalloc
  split
  · exact resizeRun_keeps (c.s2u_le le)
  · cases answer with
    | none => exact Keeps.refl c pool h
    | some ret =>
        have added : Keeps c pool h (h.add pool false ⟨ret, c.s2u size⟩) :=
          add_run_keeps ⟨lawful ret rfl, c.s2u_le le⟩
        exact added.trans (idalloct_keeps (serves.add false _))

theorem hugeRallocMove_keeps (serves : h.Serves c pool ptr)
    (lawful : ∀ ret ∈ answer, c.chunksize ∣ ret) :
    Keeps c pool h (hugeRallocMove c h pool ptr size answer).1 := by
  unfold hugeRallocMove
  split
  · exact Keeps.refl c pool h
  · cases answer with
    | none => exact Keeps.refl c pool h
    | some ret =>
        have added : Keeps c pool h (h.add pool true ⟨ret, c.chunkCeiling size⟩) :=
          add_huge_keeps ⟨lawful ret rfl, c.chunkCeiling_idem size⟩
        exact added.trans (idalloct_keeps (serves.add true _))

/-- `huge_ralloc` looks up blocks above the arena classes only. -/
theorem hugeRalloc_keeps (serves : h.Serves c pool ptr)
    (kind : oldsize ≤ c.arenaMaxclass ∨ h.HasHuge pool ptr)
    (lawful : ∀ ret ∈ answer, c.chunksize ∣ ret) :
    Keeps c pool h (hugeRalloc c h pool ptr oldsize size noMove answer).1 := by
  unfold hugeRalloc
  split
  · exact hugeRallocMove_keeps serves lawful
  next large =>
  have found := kind.resolve_left large
  split
  · exact Keeps.refl c pool h
  split
  · exact hugeRallocMove_keeps serves lawful
  split
  · exact resizeHuge_keeps found (c.chunkCeiling_idem size)
  split
  · exact resizeHuge_keeps found (c.chunkCeiling_idem size)
  · rw [lookup_of_hasHuge found]
    exact hugeRallocMove_keeps serves lawful

/-- A huge block of several chunks is shrunk to one where it is. -/
theorem hugeRalloc_one (whole : c.chunkCeiling oldsize = oldsize) (large : c.chunksize < oldsize) :
    hugeRalloc c h pool ptr oldsize c.chunksize noMove answer =
      (h.resizeHuge pool ptr c.chunksize, some ptr) := by
  have one : c.chunkCeiling c.chunksize = c.chunksize :=
    c.chunkCeiling_eq (Nat.dvd_refl _) (by have := c.two_chunks_lt_modulus; omega)
  have small := c.arenaMaxclass_lt
  have positive := c.chunksize_pos
  unfold hugeRalloc
  rw [whole, one, if_neg (by omega), if_neg (by omega), if_neg (by omega), if_pos large]

/-- Reallocation of a block that is no huge block looks nothing up; among the arena classes it
makes no huge block either. -/
theorem poolIralloc_run (placed : h.Placed c) (behind : c.chunkFloor ptr ≠ ptr)
    (lawful : answers.Lawful c size) :
    Keeps c pool h (poolIralloc c h pool ptr size answers).1 ∧
      (size ≤ c.arenaMaxclass → (poolIralloc c h pool ptr size answers).1.huge = h.huge) := by
  have serves : ∀ from_ : Heap, from_.Serves c pool ptr := fun _ aligned => absurd aligned behind
  have small := isalloc_le placed behind
  have chunk := c.arenaMaxclass_lt
  unfold poolIralloc
  dsimp only
  split
  · next le =>
      have first : ∀ ret ∈ answers.first, ¬c.chunksize ∣ ret := by
        intro ret member divides
        have := (lawful.first ret member).mp divides
        omega
      have keeps := arenaRalloc_keeps (h.isalloc c ptr) answers.noMove (serves h) le first
      have same : (arenaRalloc c h pool ptr (h.isalloc c ptr) size answers.noMove
          answers.first).1.huge = h.huge := by
        unfold arenaRalloc
        split
        · rfl
        · cases answers.first with
          | none => rfl
          | some ret =>
              dsimp only
              unfold idalloct
              rw [if_pos behind]
              rfl
      split
      · next after ret result =>
          rw [result] at keeps same
          exact ⟨keeps, fun _ => same⟩
      · next after result =>
          rw [result] at keeps same
          split
          · exact ⟨keeps, fun _ => same⟩
          rw [if_neg (by omega)]
          exact ⟨keeps, fun _ => same⟩
  · next large =>
      have first : ∀ ret ∈ answers.first, c.chunksize ∣ ret := by
        intro ret member
        exact (lawful.first ret member).mpr (by omega)
      exact ⟨hugeRalloc_keeps (serves h) (Or.inl small) first, fun le => absurd le large⟩

/-- Reallocation of a huge block finds it in the pool that has it. -/
theorem poolIralloc_huge (placed : h.Placed c) (aligned : c.chunkFloor ptr = ptr)
    (found : h.HasHuge pool ptr) (lawful : answers.Lawful c size) :
    Keeps c pool h (poolIralloc c h pool ptr size answers).1 := by
  have serves : h.Serves c pool ptr := fun _ => found
  have whole : c.chunkCeiling (h.isalloc c ptr) = h.isalloc c ptr := isalloc_whole placed aligned
  unfold poolIralloc
  dsimp only
  split
  · next le =>
      have first : ∀ ret ∈ answers.first, ¬c.chunksize ∣ ret := by
        intro ret member divides
        have := (lawful.first ret member).mp divides
        omega
      have keeps := arenaRalloc_keeps (h.isalloc c ptr) answers.noMove serves le first
      split
      · next after ret result =>
          rw [result] at keeps
          exact keeps
      · next after result =>
          have same : after = h := by
            unfold arenaRalloc at result
            split at result
            · injection result with _ impossible
              cases impossible
            · split at result
              · injection result with same
                exact same.symm
              · injection result with _ impossible
                cases impossible
          subst same
          split
          · exact Keeps.refl c pool after
          split
          · next several =>
              rw [hugeRalloc_one whole several]
              have shrunk : Keeps c pool after (after.resizeHuge pool ptr c.chunksize) :=
                resizeHuge_keeps found (c.chunkCeiling_eq (Nat.dvd_refl _)
                  (by have := c.two_chunks_lt_modulus; omega))
              exact shrunk.trans (arenaRalloc_keeps _ _
                (fun _ => resizeHuge_hasHuge c.chunksize found)
                le lawful.second)
          · exact Keeps.refl c pool after
  · next large =>
      have first : ∀ ret ∈ answers.first, c.chunksize ∣ ret := by
        intro ret member
        exact (lawful.first ret member).mpr (by omega)
      exact hugeRalloc_keeps serves (Or.inr found) first

end

end Jemalloc
end Vmem
