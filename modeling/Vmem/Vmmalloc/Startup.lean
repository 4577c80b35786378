import Vmem.Jemalloc.Blocks
import Vmem.Library.Run

/-!
# Blocks that are older than the pool of libvmmalloc

Until `libvmmalloc_init` has set `Vmp`, the allocation functions go to the base pool and
assert that the size is at most `HUGE`.  Afterwards every block, also an older one, is
freed and reallocated through the pool at `Vmp`.  That is right for blocks of arenas,
whose chunk names the pool, and wrong for huge blocks of the base pool.

Whether a block is huge depends on its alignment as well, which no assertion looks at.
-/

namespace Vmem
namespace Vmmalloc

open Jemalloc

/-- `HUGE`. -/
def hugeLimit : Nat := 2 * 1024 * 1024

/-- The id of the pool at `Vmp`. -/
def vmpPool : Nat := 1

/-- The allocation functions and their arguments. -/
inductive Request
  | malloc (size : Nat)
  | calloc (nmemb size : Nat)
  | memalign (boundary size : Nat)
  | alignedAlloc (alignment size : Nat)
  | posixMemalign (alignment size : Nat)
  | valloc (size : Nat)
  | pvalloc (size : Nat)
  deriving DecidableEq

/-- The size `je_calloc` and `je_pool_calloc` allocate; `none` if the product overflows. -/
def callocSize (num size : Nat) : Option Nat :=
  let numSize := num * size % Word.modulus
  if numSize = 0 then (if num = 0 ∨ size = 0 then some 1 else none)
  -- no overflow is possible if both factors use the lower half of the bits
  else if (2 ^ 32 ≤ num ∨ 2 ^ 32 ≤ size) ∧ numSize / size ≠ num then none
  else some numSize

/-- `imemalign` and `pool_imemalign`. -/
def imemalign (c : Config) (alignment size minAlignment : Nat) : Option Placement :=
  let size := if size = 0 then 1 else size
  if alignment &&& (alignment - 1) ≠ 0 ∨ alignment < minAlignment then none
  else
    let usize := c.sa2u size alignment
    if usize = 0 then none else some (ipalloct c usize alignment)

namespace Request

/-- Who serves a request, before and after initialisation. -/
def placement (c : Config) (initialised : Bool) : Request → Option Placement
  | malloc size => some (imalloct c (if size = 0 then 1 else size))
  | calloc nmemb size => (callocSize nmemb size).map (imalloct c)
  | memalign boundary size => imemalign c boundary size 1
  | alignedAlloc alignment size => imemalign c alignment size 1
  | posixMemalign alignment size => imemalign c alignment size (if initialised then 1 else 8)
  | valloc size => imemalign c c.page size 1
  | pvalloc size => imemalign c c.page (c.pageCeiling size) 1

/-- What the functions assert while `Vmp` is `NULL`. -/
def Guard : Request → Prop
  | malloc size | memalign _ size | alignedAlloc _ size | posixMemalign _ size | valloc size
  | pvalloc size => size ≤ hugeLimit
  | calloc nmemb size => nmemb * size % Word.modulus ≤ hugeLimit

instance (r : Request) : Decidable r.Guard := by
  cases r <;> exact Nat.decLe _ _

/-- A run that is large enough for the alignment fits into a chunk. -/
def RunFits (c : Config) (alignment size : Nat) : Prop :=
  alignment ≤ c.page ∨
    c.pageCeiling (if size = 0 then 1 else size) + alignment - c.page ≤ c.arenaMaxclass

instance (c : Config) (alignment size : Nat) : Decidable (RunFits c alignment size) :=
  inferInstanceAs (Decidable (_ ∨ _))

/-- The alignment does not make the block huge. -/
def Fits (c : Config) : Request → Prop
  | memalign alignment size | alignedAlloc alignment size | posixMemalign alignment size =>
      RunFits c alignment size
  | malloc _ | calloc _ _ | valloc _ | pvalloc _ => True

instance (c : Config) (r : Request) : Decidable (r.Fits c) := by
  cases r <;> unfold Fits <;> infer_instance

/-- The alignment is a machine word. -/
def Word : Request → Prop
  | memalign alignment _ | alignedAlloc alignment _ | posixMemalign alignment _ =>
      alignment < Word.modulus
  | malloc _ | calloc _ _ | valloc _ | pvalloc _ => True

instance (r : Request) : Decidable r.Word := by
  cases r <;> unfold Word <;> infer_instance

end Request

/-! ## The allocation functions over time -/

/-- The heap, and whether `Vmp` is set. -/
structure Startup where
  heap : Heap
  initialised : Bool

/-- What the application and the libraries it uses do. -/
inductive StartupOp
  /-- Call an allocation function; the answer is where the block is put. -/
  | alloc (r : Request) (answer : Option Nat)
  | realloc (ptr size : Nat) (answers : Answers)
  | free (ptr : Nat)
  /-- `libvmmalloc_init` sets `Vmp`. -/
  | init

namespace Startup

/-- The pool that the functions use. -/
def pool (s : Startup) : Nat := if s.initialised then vmpPool else 0

/-- An allocation function. -/
def alloc (c : Config) (s : Startup) (r : Request) (answer : Option Nat) : Startup × Option Nat :=
  match r.placement c s.initialised, answer with
  | some place, some ret =>
      -- `huge_palloc` refuses a size that has wrapped
      if place.usize = 0 then (s, none)
      else ({ s with heap := s.heap.add s.pool place.huge ⟨ret, place.usize⟩ }, some ret)
  | _, _ => (s, none)

/-- `free` and `cfree`. -/
def free (c : Config) (s : Startup) (ptr : Nat) : Startup :=
  if ptr = 0 then s else { s with heap := s.heap.idalloct c s.pool ptr }

/-- `realloc`. -/
def realloc (c : Config) (s : Startup) (ptr size : Nat) (answers : Answers) : Startup :=
  if ptr = 0 then (s.alloc c (.malloc size) answers.first).1
  else if size = 0 then s.free c ptr
  else { s with heap := (poolIralloc c s.heap s.pool ptr size answers).1 }

/-- One call. -/
def step (c : Config) (s : Startup) : StartupOp → Option Startup
  | .alloc r answer => some (s.alloc c r answer).1
  | .realloc ptr size answers => some (s.realloc c ptr size answers)
  | .free ptr => some (s.free c ptr)
  | .init => some { s with initialised := true }

/-- Nothing is allocated, and the base pool is the only one in use. -/
def start : Startup := ⟨⟨2, fun _ => [], fun _ => [], []⟩, false⟩

/-- The address of a live block. -/
def Live (s : Startup) (ptr : Nat) : Prop :=
  ∃ pool ∈ [0, vmpPool], ∃ b ∈ s.heap.runs pool ++ s.heap.huge pool, b.ptr = ptr

instance (s : Startup) (ptr : Nat) : Decidable (s.Live ptr) :=
  inferInstanceAs (Decidable (∃ pool ∈ [0, vmpPool],
    ∃ b ∈ s.heap.runs pool ++ s.heap.huge pool, b.ptr = ptr))

/-- Runs are put behind chunk headers and huge blocks at chunk boundaries. -/
def AnswerLawful (c : Config) (s : Startup) (r : Request) (answer : Option Nat) : Prop :=
  ∀ place ∈ r.placement c s.initialised, ∀ ret ∈ answer, (c.chunksize ∣ ret ↔ place.huge = true)

/-- Calls as the code allows them: sizes pass the assertions while `Vmp` is `NULL`, and only
live blocks are freed or reallocated. -/
def Permitted (c : Config) (s : Startup) : StartupOp → Prop
  | .alloc r answer =>
      r.Word ∧ (s.initialised = false → r.Guard) ∧ s.AnswerLawful c r answer
  | .realloc ptr size answers =>
      (ptr = 0 ∨ s.Live ptr) ∧ (s.initialised = false → size ≤ hugeLimit) ∧
        answers.Lawful c (if size = 0 then 1 else size)
  | .free ptr => ptr = 0 ∨ s.Live ptr
  | .init => s.initialised = false

/-- No request before initialisation has an alignment that makes its block huge. -/
def StartsSmall (c : Config) (s : Startup) : StartupOp → Prop
  | .alloc r _ => s.initialised = false → r.Fits c
  | .realloc _ _ _ | .free _ | .init => True

/-- Once `Vmp` is set, freeing the block gives it back to the base pool. -/
def ReturnsToBase (c : Config) (s : Startup) (ptr : Nat) : Prop :=
  let after := (Startup.mk s.heap true).free c ptr
  after.heap.missed = s.heap.missed ∧
    ∀ b ∈ after.heap.runs 0 ++ after.heap.huge 0, b.ptr ≠ ptr

end Startup

/-! ## Which requests are huge -/

section

variable {c : Config}

/-- An aligned request is served by an arena exactly if its run fits. -/
theorem imemalign_huge_iff {alignment size minAlignment : Nat} {place : Placement}
    (word : alignment < Word.modulus) (positive : 0 < minAlignment)
    (arenaSize : size ≤ c.arenaMaxclass)
    (result : imemalign c alignment size minAlignment = some place) :
    place.huge = false ↔ Request.RunFits c alignment size := by
  have least := c.arenaMaxclass_pos
  unfold imemalign at result
  unfold Request.RunFits
  dsimp only at result
  generalize sizeIs : (if size = 0 then 1 else size) = requested at result ⊢
  have small : requested ≤ c.arenaMaxclass := by
    rw [← sizeIs]
    split <;> omega
  split at result
  · cases result
  next valid =>
  obtain ⟨power, enough⟩ := not_or.mp valid
  obtain ⟨lgAlign, rfl⟩ := (Nat.and_sub_one_eq_zero_iff_isPowerOfTwo (by omega)).mp
    (Classical.not_not.mp power)
  have lgWord : lgAlign < 64 := (Nat.pow_lt_pow_iff_right (by norm_num)).mp word
  split at result
  · cases result
  injection result with result
  subst result
  have huge : (ipalloct c (c.sa2u requested (2 ^ lgAlign)) (2 ^ lgAlign)).huge = false ↔
      c.sa2u requested (2 ^ lgAlign) ≤ c.arenaMaxclass := by
    unfold ipalloct
    split
    · next both => simp [both.1]
    · split <;> simp [*]
  rw [huge]
  by_cases paged : 2 ^ lgAlign ≤ c.page
  · exact ⟨fun _ => Or.inl paged, fun _ => c.sa2u_le_of_page small paged⟩
  · rw [c.sa2u_of_large small lgWord (by omega)]
    have upper := (c.pageCeiling_le small).2
    have lower := (c.pageCeiling_le small).1
    split
    · next fits => exact ⟨fun _ => Or.inr fits, fun _ => upper⟩
    · next tooLarge =>
        refine ⟨fun le => ?_, fun fits => absurd (fits.resolve_left paged) tooLarge⟩
        have requestedPos : 0 < requested := by
          rw [← sizeIs]
          split <;> omega
        -- a positive size fills at least one chunk
        have chunk := c.arenaMaxclass_lt
        have two := c.two_chunks_lt_modulus
        have above : c.pageCeiling requested ≤ c.chunkCeiling (c.pageCeiling requested) :=
          Word.le_ceil c.chunksize_pos (by omega)
        have := Nat.le_of_dvd (by omega) (c.dvd_chunkCeiling (c.pageCeiling requested))
        omega

theorem imalloct_huge {size : Nat} (le : size ≤ c.arenaMaxclass) :
    (imalloct c size).huge = false := by
  unfold imalloct
  rw [if_pos le]

/-- The assertion bounds what `calloc` allocates. -/
theorem callocSize_le {nmemb size numSize : Nat}
    (guarded : nmemb * size % Word.modulus ≤ hugeLimit)
    (result : callocSize nmemb size = some numSize) :
    numSize ≤ hugeLimit := by
  unfold callocSize at result
  dsimp only at result
  split at result
  · split at result
    · injection result with result
      rw [← result]
      decide
    · cases result
  · split at result
    · cases result
    · injection result with result
      omega

/-- A request that passes the assertion is served by an arena exactly if it fits. -/
theorem Request.placement_huge_iff {r : Request} {place : Placement} {initialised : Bool}
    (room : hugeLimit ≤ c.arenaMaxclass) (word : r.Word) (guarded : r.Guard)
    (result : r.placement c initialised = some place) : place.huge = false ↔ r.Fits c := by
  have pageWord : c.page < Word.modulus := by
    have := c.page_le_chunksize
    have := c.two_chunks_lt_modulus
    omega
  have pageFits : ∀ size, Request.RunFits c c.page size := fun _ => Or.inl (Nat.le_refl _)
  cases r with
  | malloc size =>
      injection result with result
      subst result
      refine ⟨fun _ => trivial, fun _ => imalloct_huge ?_⟩
      have : size ≤ hugeLimit := guarded
      split
      · exact Nat.le_trans (by decide) room
      · omega
  | calloc nmemb size =>
      obtain ⟨numSize, computed, rfl⟩ := Option.map_eq_some_iff.mp result
      exact ⟨fun _ => trivial,
        fun _ => imalloct_huge (Nat.le_trans (callocSize_le guarded computed) room)⟩
  | memalign boundary size =>
      exact imemalign_huge_iff word (by decide) (Nat.le_trans guarded room) result
  | alignedAlloc alignment size =>
      exact imemalign_huge_iff word (by decide) (Nat.le_trans guarded room) result
  | posixMemalign alignment size =>
      refine imemalign_huge_iff word ?_ (Nat.le_trans guarded room) result
      cases initialised <;> decide
  | valloc size =>
      have served := imemalign_huge_iff pageWord (by decide) (Nat.le_trans guarded room) result
      exact ⟨fun _ => trivial, fun _ => served.mpr (pageFits size)⟩
  | pvalloc size =>
      have small : c.pageCeiling size ≤ c.arenaMaxclass :=
        (c.pageCeiling_le (Nat.le_trans guarded room)).2
      have served := imemalign_huge_iff pageWord (by decide) small result
      exact ⟨fun _ => trivial, fun _ => served.mpr (pageFits _)⟩

/-- A placement names a block of its kind. -/
theorem imemalign_kind {alignment size minAlignment : Nat} {place : Placement}
    (word : alignment < Word.modulus) (positive : 0 < minAlignment)
    (result : imemalign c alignment size minAlignment = some place) :
    (place.huge = false → place.usize ≤ c.arenaMaxclass) ∧
      (place.huge = true → c.chunkCeiling place.usize = place.usize) := by
  unfold imemalign at result
  dsimp only at result
  generalize (if size = 0 then 1 else size) = requested at result
  split at result
  · cases result
  next valid =>
  obtain ⟨power, enough⟩ := not_or.mp valid
  obtain ⟨lgAlign, rfl⟩ := (Nat.and_sub_one_eq_zero_iff_isPowerOfTwo (by omega)).mp
    (Classical.not_not.mp power)
  have lgWord : lgAlign < 64 := (Nat.pow_lt_pow_iff_right (by norm_num)).mp word
  split at result
  · cases result
  injection result with result
  subst result
  unfold ipalloct
  split
  · next both => exact ⟨fun _ => both.1, fun isHuge => absurd isHuge (by simp)⟩
  split
  · next le => exact ⟨fun _ => le, fun isHuge => absurd isHuge (by simp)⟩
  · next large =>
      exact ⟨fun isRun => absurd isRun (by simp), fun _ => c.sa2u_whole lgWord (by omega)⟩

theorem imalloct_kind (c : Config) (size : Nat) :
    ((imalloct c size).huge = false → (imalloct c size).usize ≤ c.arenaMaxclass) ∧
      ((imalloct c size).huge = true →
        c.chunkCeiling (imalloct c size).usize = (imalloct c size).usize) := by
  unfold imalloct
  split
  · next le => exact ⟨fun _ => c.s2u_le le, fun isHuge => absurd isHuge (by simp)⟩
  · exact ⟨fun isRun => absurd isRun (by simp), fun _ => c.chunkCeiling_idem size⟩

theorem Request.placement_kind {r : Request} {place : Placement} {initialised : Bool}
    (word : r.Word)
    (result : r.placement c initialised = some place) :
    (place.huge = false → place.usize ≤ c.arenaMaxclass) ∧
      (place.huge = true → c.chunkCeiling place.usize = place.usize) := by
  have pageWord : c.page < Word.modulus := by
    have := c.page_le_chunksize
    have := c.two_chunks_lt_modulus
    omega
  cases r with
  | malloc size =>
      injection result with result
      subst result
      exact imalloct_kind c _
  | calloc nmemb size =>
      obtain ⟨numSize, _, rfl⟩ := Option.map_eq_some_iff.mp result
      exact imalloct_kind c numSize
  | memalign boundary size => exact imemalign_kind word (by decide) result
  | alignedAlloc alignment size => exact imemalign_kind word (by decide) result
  | posixMemalign alignment size =>
      refine imemalign_kind word ?_ result
      cases initialised <;> decide
  | valloc size => exact imemalign_kind pageWord (by decide) result
  | pvalloc size => exact imemalign_kind pageWord (by decide) result

end

/-! ## One call -/

namespace Startup

variable {c : Config} {s : Startup}

/-- Allocation adds at most one block of the kind that was asked for. -/
theorem alloc_keeps {r : Request} {answer : Option Nat} (word : r.Word)
    (lawful : s.AnswerLawful c r answer) :
    Heap.Keeps c s.pool s.heap (s.alloc c r answer).1.heap := by
  unfold alloc
  cases placed : r.placement c s.initialised with
  | none => exact Heap.Keeps.refl c s.pool s.heap
  | some place =>
      cases answer with
      | none => exact Heap.Keeps.refl c s.pool s.heap
      | some ret =>
          dsimp only
          split
          · exact Heap.Keeps.refl c s.pool s.heap
          have kind := r.placement_kind word placed
          have aligned := lawful place placed ret rfl
          cases huge : place.huge with
          | false =>
              rw [huge] at aligned
              exact Heap.add_run_keeps ⟨fun divides => absurd (aligned.mp divides) (by simp),
                kind.1 huge⟩
          | true => exact Heap.add_huge_keeps ⟨aligned.mpr huge, kind.2 huge⟩

/-- What is asked of the heap before a call: live huge blocks belong to the pool that is used. -/
structure Owned (c : Config) (s : Startup) : Prop where
  placed : s.heap.Placed c
  owned : ∀ pool ∈ [0, vmpPool], ∀ b ∈ s.heap.huge pool, pool = s.pool

theorem Owned.serves (owned : Owned c s) {ptr : Nat} (live : s.Live ptr) :
    s.heap.Serves c s.pool ptr := by
  intro aligned
  rw [c.chunkFloor_eq_iff] at aligned
  obtain ⟨pool, known, b, member, same⟩ := live
  obtain inRuns | inHuge := List.mem_append.mp member
  · exact absurd (same ▸ aligned) (owned.placed.runs pool b inRuns).1
  · have here := owned.owned pool known b inHuge
    exact ⟨b, here ▸ inHuge, same⟩

theorem free_keeps (owned : Owned c s) {ptr : Nat} (live : ptr = 0 ∨ s.Live ptr) :
    Heap.Keeps c s.pool s.heap (s.free c ptr).heap := by
  unfold free
  split
  · exact Heap.Keeps.refl c s.pool s.heap
  · next nonzero => exact Heap.idalloct_keeps (owned.serves (live.resolve_left nonzero))

/-- `realloc` finds its block, and it makes no huge block among the arena classes unless it is
given one. -/
theorem realloc_keeps (owned : Owned c s) {ptr size : Nat} {answers : Answers}
    (live : ptr = 0 ∨ s.Live ptr) (lawful : answers.Lawful c (if size = 0 then 1 else size)) :
    Heap.Keeps c s.pool s.heap (s.realloc c ptr size answers).heap := by
  unfold realloc
  split
  · apply alloc_keeps (show Request.Word (.malloc size) from trivial)
    intro place placed ret answered
    injection placed with placed
    subst placed
    rw [lawful.first ret answered]
    generalize (if size = 0 then 1 else size) = requested
    unfold imalloct
    split
    · next le => exact ⟨fun large => absurd large (by omega), fun isHuge => absurd isHuge (by simp)⟩
    · next large => exact ⟨fun _ => rfl, fun _ => by omega⟩
  next nonzero =>
  have serves := owned.serves (live.resolve_left nonzero)
  split
  · exact free_keeps owned live
  next positive =>
  rw [if_neg positive] at lawful
  by_cases aligned : c.chunkFloor ptr = ptr
  · exact poolIralloc_huge owned.placed aligned (serves aligned) lawful
  · exact (poolIralloc_run owned.placed aligned lawful).1

theorem alloc_initialised (r : Request) (answer : Option Nat) :
    (s.alloc c r answer).1.initialised = s.initialised := by
  unfold alloc
  split
  · split <;> rfl
  · rfl

theorem free_initialised (ptr : Nat) : (s.free c ptr).initialised = s.initialised := by
  unfold free
  split <;> rfl

theorem realloc_initialised (ptr size : Nat) (answers : Answers) :
    (s.realloc c ptr size answers).initialised = s.initialised := by
  unfold realloc
  split
  · exact alloc_initialised _ _
  split
  · exact free_initialised ptr
  · rfl

/-- `Vmp` is never reset. -/
theorem initialised_of_step {op : StartupOp} {after : Startup} (result : s.step c op = some after)
    (notYet : after.initialised = false) : s.initialised = false := by
  cases op with
  | alloc r answer =>
      injection result with result
      rw [← result, alloc_initialised] at notYet
      exact notYet
  | realloc ptr size answers =>
      injection result with result
      rw [← result, realloc_initialised] at notYet
      exact notYet
  | free ptr =>
      injection result with result
      rw [← result, free_initialised] at notYet
      exact notYet
  | init =>
      injection result with result
      subst result
      cases notYet

/-- A call misses nothing and leaves the other pool's huge blocks alone. -/
theorem step_keeps (owned : Owned c s) {op : StartupOp} {after : Startup}
    (permitted : s.Permitted c op) (result : s.step c op = some after) :
    Heap.Keeps c s.pool s.heap after.heap := by
  cases op with
  | alloc r answer =>
      obtain ⟨word, _, lawful⟩ := permitted
      injection result with result
      subst result
      exact alloc_keeps word lawful
  | realloc ptr size answers =>
      obtain ⟨live, _, lawful⟩ := permitted
      injection result with result
      subst result
      exact realloc_keeps owned live lawful
  | free ptr =>
      injection result with result
      subst result
      exact free_keeps owned permitted
  | init =>
      injection result with result
      subst result
      exact Heap.Keeps.refl c s.pool s.heap

/-! ## Runs -/

/-- While `Vmp` is `NULL`, nothing has been missed and the pool to come has no huge blocks. -/
structure Young (c : Config) (s : Startup) : Prop where
  placed : s.heap.Placed c
  missed : s.heap.missed = []
  vmp : s.heap.huge vmpPool = []

/-- No huge block of the base pool is left for the pool at `Vmp` to free. -/
structure Safe (c : Config) (s : Startup) : Prop where
  placed : s.heap.Placed c
  missed : s.heap.missed = []
  base : s.heap.huge 0 = []
  vmp : s.initialised = false → s.heap.huge vmpPool = []

theorem pool_of_young (young : s.initialised = false) : s.pool = 0 := by
  unfold pool
  rw [young]
  rfl

theorem pool_of_initialised (done : s.initialised = true) : s.pool = vmpPool := by
  unfold pool
  rw [done]
  rfl

/-- In both pools, an empty huge tree asks for nothing. -/
theorem owned_of_empty (placed : s.heap.Placed c) {other : Nat} (empty : s.heap.huge other = [])
    (rest : ∀ pool ∈ [0, vmpPool], pool ≠ other → pool = s.pool) : Owned c s := by
  refine ⟨placed, ?_⟩
  intro pool known b member
  apply rest pool known
  rintro rfl
  rw [empty] at member
  cases member

theorem Young.owned (young : Young c s) (notYet : s.initialised = false) : Owned c s := by
  apply owned_of_empty young.placed young.vmp
  rw [pool_of_young notYet]
  unfold vmpPool
  simp

theorem Safe.owned (safe : Safe c s) : Owned c s := by
  cases done : s.initialised with
  | false =>
      apply owned_of_empty safe.placed (safe.vmp done)
      rw [pool_of_young done]
      unfold vmpPool
      simp
  | true =>
      apply owned_of_empty safe.placed safe.base
      rw [pool_of_initialised done]
      unfold vmpPool
      simp

theorem start_placed : start.heap.Placed c :=
  ⟨fun _ _ member => absurd member List.not_mem_nil,
    fun _ _ member => absurd member List.not_mem_nil⟩

/-- Before initialisation, whatever is allocated. -/
theorem young_step {op : StartupOp} {after : Startup} (young : s.initialised = false → Young c s)
    (permitted : s.Permitted c op) (result : s.step c op = some after)
    (notYet : after.initialised = false) : Young c after := by
  have before := initialised_of_step result notYet
  have was := young before
  have keeps := step_keeps (was.owned before) permitted result
  rw [pool_of_young before] at keeps
  exact ⟨keeps.placed was.placed, keeps.missed.trans was.missed,
    (keeps.others vmpPool (by decide)).trans was.vmp⟩

/-- An allocation that fits makes no huge block. -/
theorem alloc_huge {r : Request} {answer : Option Nat} (room : hugeLimit ≤ c.arenaMaxclass)
    (word : r.Word) (guarded : r.Guard) (fits : r.Fits c) :
    (s.alloc c r answer).1.heap.huge = s.heap.huge := by
  unfold alloc
  cases placed : r.placement c s.initialised with
  | none => rfl
  | some place =>
      cases answer with
      | none => rfl
      | some ret =>
          dsimp only
          split
          · rfl
          · rw [(r.placement_huge_iff room word guarded placed).mpr fits]
            rfl

/-- Without huge blocks, freeing concerns runs only. -/
theorem free_huge (owned : Owned c s) {ptr : Nat} (live : ptr = 0 ∨ s.Live ptr)
    (empty : s.heap.huge s.pool = []) : (s.free c ptr).heap.huge = s.heap.huge := by
  unfold free
  split
  · rfl
  next nonzero =>
  have behind : c.chunkFloor ptr ≠ ptr := by
    intro aligned
    obtain ⟨b, member, _⟩ := owned.serves (live.resolve_left nonzero) aligned
    rw [empty] at member
    cases member
  unfold Heap.idalloct
  rw [if_pos behind]
  rfl

/-- Before initialisation, calls that fit make no huge block. -/
theorem young_huge {op : StartupOp} {after : Startup} (room : hugeLimit ≤ c.arenaMaxclass)
    (safe : Safe c s) (notYet : s.initialised = false) (permitted : s.Permitted c op)
    (small : s.StartsSmall c op) (result : s.step c op = some after) :
    after.heap.huge = s.heap.huge := by
  have owned := safe.owned
  have empty : s.heap.huge s.pool = [] := by
    rw [pool_of_young notYet]
    exact safe.base
  cases op with
  | alloc r answer =>
      obtain ⟨word, guarded, _⟩ := permitted
      injection result with result
      subst result
      exact alloc_huge room word (guarded notYet) (small notYet)
  | realloc ptr size answers =>
      obtain ⟨live, guarded, lawful⟩ := permitted
      injection result with result
      subst result
      unfold realloc
      split
      · exact alloc_huge room (show Request.Word (.malloc size) from trivial) (guarded notYet)
          trivial
      next nonzero =>
      split
      · exact free_huge owned live empty
      next positive =>
      rw [if_neg positive] at lawful
      have behind : c.chunkFloor ptr ≠ ptr := by
        intro aligned
        obtain ⟨b, member, _⟩ := owned.serves (live.resolve_left nonzero) aligned
        rw [empty] at member
        cases member
      exact (poolIralloc_run owned.placed behind lawful).2 (Nat.le_trans (guarded notYet) room)
  | free ptr =>
      injection result with result
      subst result
      exact free_huge owned permitted empty
  | init =>
      injection result with result
      subst result
      rfl

theorem safe_step {op : StartupOp} {after : Startup} (room : hugeLimit ≤ c.arenaMaxclass)
    (safe : Safe c s) (permitted : s.Permitted c op) (small : s.StartsSmall c op)
    (result : s.step c op = some after) : Safe c after := by
  have keeps := step_keeps safe.owned permitted result
  have base : after.heap.huge 0 = [] := by
    cases done : s.initialised with
    | false => rw [young_huge room safe done permitted small result, safe.base]
    | true =>
        rw [pool_of_initialised done] at keeps
        exact (keeps.others 0 (by decide)).trans safe.base
  refine ⟨keeps.placed safe.placed, keeps.missed.trans safe.missed, base, ?_⟩
  intro notYet
  have before := initialised_of_step result notYet
  rw [young_huge room safe before permitted small result]
  exact safe.vmp before

/-- A block that was allocated before initialisation goes back to the base pool exactly if it is
no huge block. -/
theorem returnsToBase_iff {r : Request} {ret : Nat} {answer : Option Nat} {after : Startup}
    (room : hugeLimit ≤ c.arenaMaxclass) (young : Young c s) (notYet : s.initialised = false)
    (word : r.Word) (guarded : r.Guard) (lawful : s.AnswerLawful c r answer)
    (nonzero : ret ≠ 0) (result : s.alloc c r answer = (after, some ret)) :
    after.ReturnsToBase c ret ↔ r.Fits c := by
  have added := alloc_keeps word lawful
  rw [result] at added
  have placed := added.placed young.placed
  unfold alloc at result
  cases chosen : r.placement c s.initialised with
  | none =>
      rw [chosen] at result
      cases result
  | some place =>
      rw [chosen] at result
      cases answer with
      | none => cases result
      | some address =>
          dsimp only at result
          split at result
          · cases result
          injection result with isAfter isRet
          injection isRet with isRet
          subst isRet
          have aligned := lawful place chosen address rfl
          rw [← r.placement_huge_iff room word guarded chosen]
          unfold ReturnsToBase free
          dsimp only
          rw [if_neg nonzero]
          unfold Heap.idalloct pool
          dsimp only
          cases huge : place.huge with
          | false =>
              rw [huge] at aligned
              have behind : ¬c.chunksize ∣ address :=
                fun divides => by simpa using aligned.mp divides
              rw [if_pos (fun same => behind ((c.chunkFloor_eq_iff address).mp same))]
              refine ⟨fun _ => rfl, fun _ => ⟨rfl, ?_⟩⟩
              intro b member same
              obtain inRuns | inHuge := List.mem_append.mp member
              · have := (List.mem_filter.mp inRuns).2
                simp [same] at this
              · exact behind (same ▸ (placed.huge 0 b inHuge).1)
          | true =>
              have divides := aligned.mpr huge
              rw [if_neg (not_not_intro ((c.chunkFloor_eq_iff address).mpr divides)), if_pos rfl]
              refine ⟨fun returned => ?_, fun impossible => by cases impossible⟩
              -- the pool at `Vmp` has no huge blocks, so the lookup fails
              have missing : ¬after.heap.HasHuge vmpPool address := by
                rintro ⟨b, member, _⟩
                rw [pool_of_young notYet] at added
                rw [added.others vmpPool (by decide), young.vmp] at member
                cases member
              have missed := returned.1
              unfold Heap.hugeDalloc Heap.lookup at missed
              rw [if_neg missing] at missed
              exact absurd missed (by simp)

end Startup

/-- Blocks that are older than the pool go back to the base pool: in every run in which no
request before initialisation has an alignment that needs more than a chunk, no block is looked
up in the wrong pool; and a single request gives such a block exactly if it is not of that kind. -/
theorem startup_blocks_return {c : Config} (room : hugeLimit ≤ c.arenaMaxclass) :
    (∀ s, Reached (fun s op => s.Permitted c op ∧ s.StartsSmall c op) (Startup.step c) .start s →
      s.heap.missed = []) ∧
    ∀ s, Reached (fun s op => s.Permitted c op) (Startup.step c) .start s → s.initialised = false →
      ∀ r answer after ret, s.Permitted c (.alloc r answer) → ret ≠ 0 →
        s.alloc c r answer = (after, some ret) → (after.ReturnsToBase c ret ↔ r.Fits c) := by
  constructor
  · intro s reached
    have safe : Startup.Safe c s := by
      apply reached.invariant (Startup.Safe c)
      · exact ⟨Startup.start_placed, rfl, rfl, fun _ => rfl⟩
      · intro before op after safe permitted result
        exact Startup.safe_step room safe permitted.1 permitted.2 result
    exact safe.missed
  · intro s reached notYet r answer after ret permitted nonzero result
    have young : s.initialised = false → Startup.Young c s := by
      apply reached.invariant fun s => s.initialised = false → Startup.Young c s
      · exact fun _ => ⟨Startup.start_placed, rfl, rfl⟩
      · intro before op after young permitted result
        exact Startup.young_step young permitted result
    obtain ⟨word, guarded, lawful⟩ := permitted
    exact Startup.returnsToBase_iff room (young notYet) notYet word (guarded notYet) lawful nonzero
      result

theorem defaultConfig_room : hugeLimit ≤ defaultConfig.arenaMaxclass := by
  decide +kernel

/-- A block at `ret`, then initialisation, then the block is freed. -/
theorem reached_freed {c : Config} {conditions : Startup → StartupOp → Prop} {r : Request}
    {place : Placement} {ret : Nat} (placed : r.placement c false = some place)
    (usable : place.usize ≠ 0)
    (first : conditions .start (.alloc r (some ret)))
    (second : conditions (Startup.start.alloc c r (some ret)).1 .init)
    (third : conditions ⟨(Startup.start.alloc c r (some ret)).1.heap, true⟩ (.free ret)) :
    Reached conditions (Startup.step c) .start
      (Startup.free c ⟨Startup.start.heap.add 0 place.huge ⟨ret, place.usize⟩, true⟩ ret) := by
  have allocated : (Startup.start.alloc c r (some ret)).1 =
      ⟨Startup.start.heap.add 0 place.huge ⟨ret, place.usize⟩, false⟩ := by
    unfold Startup.alloc
    rw [show Startup.start.initialised = false from rfl, placed]
    dsimp only
    rw [if_neg usable]
    rfl
  rw [allocated] at second third
  have one : Reached conditions (Startup.step c) .start
      ⟨Startup.start.heap.add 0 place.huge ⟨ret, place.usize⟩, false⟩ :=
    Reached.start.next first (congrArg some allocated)
  exact (one.next second rfl).next third rfl

theorem startup_blocks_return_malloc :
    ∃ s, Reached (fun s op => s.Permitted defaultConfig op ∧ s.StartsSmall defaultConfig op)
      (Startup.step defaultConfig) .start s ∧ s.initialised = true ∧ s.heap.missed = [] := by
  have placed : (Request.malloc 100).placement defaultConfig false = some ⟨112, false⟩ := by
    decide +kernel
  have reached : Reached
      (fun s op => s.Permitted defaultConfig op ∧ s.StartsSmall defaultConfig op)
      (Startup.step defaultConfig) .start
      (Startup.free defaultConfig
        ⟨Startup.start.heap.add 0 false ⟨0x410000, 112⟩, true⟩ 0x410000) := by
    apply reached_freed placed (by decide)
    · refine ⟨⟨trivial, fun _ => by decide, ?_⟩, fun _ => trivial⟩
      intro place chosen ret answered
      injection (chosen : _ = some place).symm.trans placed with same
      injection answered with answered
      subst same
      subst answered
      decide +kernel
    · exact ⟨rfl, trivial⟩
    · refine ⟨Or.inr ?_, trivial⟩
      decide +kernel
  exact ⟨_, reached, rfl, (startup_blocks_return defaultConfig_room).1 _ reached⟩

/-- `memalign(2 MiB, 2 MiB)` before initialisation gives a huge block of the base pool, which is
afterwards looked up in the pool at `Vmp`. -/
theorem startup_block_missed :
    (Request.memalign (2 * 1024 * 1024) (2 * 1024 * 1024)).Guard ∧
      ∃ s, Reached (fun s op => s.Permitted defaultConfig op)
          (Startup.step defaultConfig) .start s ∧
        s.heap.missed = [(vmpPool, 0x800000)] := by
  refine ⟨by decide, ?_⟩
  have placed :
      (Request.memalign (2 * 1024 * 1024) (2 * 1024 * 1024)).placement defaultConfig false =
      some ⟨4 * 1024 * 1024, true⟩ := by
    decide +kernel
  have reached : Reached (fun s op => s.Permitted defaultConfig op) (Startup.step defaultConfig)
      .start (Startup.free defaultConfig
        ⟨Startup.start.heap.add 0 true ⟨0x800000, 4 * 1024 * 1024⟩, true⟩ 0x800000) := by
    apply reached_freed placed (by decide)
    · refine ⟨by decide +kernel, fun _ => by decide, ?_⟩
      intro place chosen ret answered
      injection (chosen : _ = some place).symm.trans placed with same
      injection answered with answered
      subst same
      subst answered
      decide +kernel
    · rfl
    · exact Or.inr (by decide +kernel)
  exact ⟨_, reached, by decide +kernel⟩

end Vmmalloc
end Vmem
