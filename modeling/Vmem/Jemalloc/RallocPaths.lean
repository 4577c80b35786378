import Vmem.Jemalloc.BaseRegion
import Vmem.Jemalloc.HugeLedger
import Vmem.Jemalloc.PoolRalloc
import Vmem.Jemalloc.RecordOutcome

/-!
# The paths of a reallocation

For each step that `je_pool_ralloc` may take, exactly when it fails and what it then
leaves behind: the base allocations of a new arena, a chunk for an arena, the shrinking
of a huge block to one chunk and the attempt to expand it.
-/

namespace Vmem
namespace Jemalloc

variable {c : Config} {p : Pool} {n : Nat} {rest : List Nat}

/-! ## The base allocations of a new arena -/

/-- A new arena does not fit the base region. -/
def BaseFull (c : Config) (p : Pool) : Prop :=
  p.basePastAddr < p.baseNextAddr + (c.arenaAllocs.map cachelineCeiling).sum

instance (c : Config) (p : Pool) : Decidable (BaseFull c p) :=
  inferInstanceAs (Decidable (_ < _))

/-- The pool with another start of what is left of its base region. -/
def Pool.atBase (p : Pool) (next : Nat) : Pool := { p with baseNextAddr := next }

/-- Requests that together fit a chunk. -/
structure ChunkOfRequests (c : Config) (sizes : List Nat) : Prop where
  nonempty : ∀ size ∈ sizes, 0 < cachelineCeiling size
  small : ∀ size ∈ sizes, cachelineCeiling size < c.chunksize
  total : (sizes.map cachelineCeiling).sum ≤ c.chunksize

theorem ChunkOfRequests.tail {size : Nat} {sizes : List Nat}
    (requests : ChunkOfRequests c (size :: sizes)) : ChunkOfRequests c sizes where
  nonempty := fun other member => requests.nonempty other (List.mem_cons_of_mem _ member)
  small := fun other member => requests.small other (List.mem_cons_of_mem _ member)
  total := by
    have total := requests.total
    rw [List.map_cons, List.sum_cons] at total
    omega

theorem Config.Fits.arenaRequests (fits : c.Fits) : ChunkOfRequests c c.arenaAllocs := by
  have metadata := fits.metadata
  unfold cacheline at metadata
  refine ⟨fun size member => ?_, fun size member => ?_, by omega⟩
  · have request : BaseRequest c size := fits.baseRequest (by simp [member])
    have nonempty := request.nonempty
    have lower := request.le_ceiling
    omega
  · have within : cachelineCeiling size ≤ (c.arenaAllocs.map cachelineCeiling).sum :=
      List.le_sum_of_mem (List.mem_map_of_mem member)
    omega

/-- The base region after an allocation that fits. -/
theorem BaseRegion.advance {bytes : Nat} (region : BaseRegion c p)
    (room : p.baseNextAddr + bytes ≤ p.basePastAddr) : BaseRegion c (p.advance bytes) :=
  ⟨room, region.below⟩

/-- Without free extents base allocations only move the start of the base region, and
succeed if they fit. -/
theorem baseAllocAll_without_extents {sizes : List Nat} (requests : ChunkOfRequests c sizes)
    (region : BaseRegion c p) (empty : p.chunksSzad = []) :
    ∃ next, baseAllocAll c p sizes = (p.atBase next,
      decide (p.baseNextAddr + (sizes.map cachelineCeiling).sum ≤ p.basePastAddr)) := by
  induction sizes generalizing p with
  | nil => exact ⟨p.baseNextAddr, by simpa [baseAllocAll] using ⟨rfl, region.order⟩⟩
  | cons size sizes inductionHypothesis =>
      rw [List.map_cons, List.sum_cons]
      by_cases room : p.baseNextAddr + cachelineCeiling size ≤ p.basePastAddr
      · obtain ⟨next, others⟩ := inductionHypothesis requests.tail (region.advance room) empty
        have first :
            baseAlloc c p size = (p.advance (cachelineCeiling size), some p.baseNextAddr) :=
          baseAlloc_of_room region.past_lt room
        refine ⟨next, ?_⟩
        unfold baseAllocAll
        rw [first]
        dsimp only
        rw [others, ← Nat.add_assoc]
        rfl
      · have missing := baseAlloc_nil (c := c) (p := p) empty
          (region.too_long (requests.small size List.mem_cons_self) (not_le.mp room))
        refine ⟨p.baseNextAddr, ?_⟩
        have never : ¬p.baseNextAddr + (cachelineCeiling size + (sizes.map cachelineCeiling).sum) ≤
            p.basePastAddr := by omega
        unfold baseAllocAll
        rw [missing, decide_eq_false never]
        rfl

/-- With a free extent base allocations that do not fit take one chunk, and succeed. -/
theorem baseAllocAll_first {sizes : List Nat} (requests : ChunkOfRequests c sizes)
    (trees : FreeTrees c p) (region : BaseRegion c p) (first : p.chunksSzad = n :: rest)
    (full : p.basePastAddr < p.baseNextAddr + (sizes.map cachelineCeiling).sum) :
    ∃ p', baseAllocAll c p sizes = (p', true) ∧ FirstTaken c p n rest p' := by
  induction sizes generalizing p with
  | nil =>
      rw [List.map_nil, List.sum_nil, Nat.add_zero] at full
      exact absurd region.order (not_le.mpr full)
  | cons size sizes inductionHypothesis =>
      rw [List.map_cons, List.sum_cons] at full
      have total := requests.total
      rw [List.map_cons, List.sum_cons] at total
      by_cases room : p.baseNextAddr + cachelineCeiling size ≤ p.basePastAddr
      · have allocated : baseAlloc c p size =
            (p.advance (cachelineCeiling size), some p.baseNextAddr) :=
          baseAlloc_of_room region.past_lt room
        obtain ⟨p', others, taken⟩ := inductionHypothesis (p := p.advance (cachelineCeiling size))
          requests.tail (trees.of_edit rfl rfl fun _ _ => rfl) (region.advance room) first
          (by rw [← Nat.add_assoc] at full; exact full)
        refine ⟨p', ?_, taken.usedUp, taken.cut, taken.others⟩
        unfold baseAllocAll
        rw [allocated]
        exact others
      · obtain ⟨q, allocated, taken, next, past⟩ := baseAlloc_first trees region first
          (requests.nonempty size List.mem_cons_self) (requests.small size List.mem_cons_self)
          (not_le.mp room)
        have member : n ∈ p.chunksAd := trees.mem_szad.mp (first ▸ List.mem_cons_self)
        have last := (trees.extent n member).last
        have positive := (trees.extent n member).nonempty
        have others := baseAllocAll_of_room (c := c) (p := q) sizes (by omega) (by omega)
        refine ⟨q.advance (sizes.map cachelineCeiling).sum, ?_, taken.of_edit rfl rfl rfl⟩
        unfold baseAllocAll
        rw [allocated]
        exact others

/-- What base allocations do to a pool. -/
theorem baseAllocAll_step {sizes nodes : List Nat}
    (requests : ∀ size ∈ sizes, BaseRequest c size) (trees : FreeTrees c p)
    (numbered : NodesNumbered p nodes) : BaseStep c p (baseAllocAll c p sizes).1 := by
  induction sizes generalizing p with
  | nil => exact BaseStep.refl trees
  | cons size sizes inductionHypothesis =>
      unfold baseAllocAll
      rcases baseAlloc_cases trees numbered.apart (requests size List.mem_cons_self) with
        ⟨q, ret, result, step⟩ | result
      · rw [result]
        exact step.trans (inductionHypothesis
          (fun other member => requests other (List.mem_cons_of_mem _ member))
          step.change.trees (numbered.change step.change))
      · rw [result]
        exact BaseStep.refl trees

theorem Config.Fits.arenaRequest (fits : c.Fits) : ∀ size ∈ c.arenaAllocs, BaseRequest c size :=
  fun _ member => fits.baseRequest (by simp [member])

/-! ## An arena for the thread -/

section Arena

variable {α : Type} {layer : ArenaLayer c α} {h : ThreadHeap α}

/-- `choose_arena` fails: the arrays of the thread cannot be made longer. -/
def AttachFails (h : ThreadHeap α) (noMemory : Bool) : Prop := h.arrays = false ∧ noMemory = true

/-- `choose_arena` would initialize a new arena. -/
def NewArena (h : ThreadHeap α) : Prop := h.arena = none ∧ newArenaIndex h.loads ≠ none

/-- The arenas and the arena `choose_arena` ends up with; the flag tells whether the base
allocations of a new arena succeed. -/
def chosenArena (layer : ArenaLayer c α) (h : ThreadHeap α) (extended : Bool) : α × Nat :=
  match h.arena with
  | some arena => (h.arenas, arena)
  | none =>
      match newArenaIndex h.loads with
      | none => (h.arenas, (chooseArenaHard h.loads false).2)
      | some index =>
          if extended then (layer.newArena h.arenas index, (chooseArenaHard h.loads false).2)
          else (h.arenas, (chooseArenaHard h.loads true).2)

/-- The arena the thread ends up with has room for a request. -/
def roomFor (layer : ArenaLayer c α) (h : ThreadHeap α) (extended : Bool) (size : Nat) : Bool :=
  layer.room (chosenArena layer h extended).1 (chosenArena layer h extended).2 size

/-- What `choose_arena` leaves of the heap, apart from the loads. -/
structure Attached (layer : ArenaLayer c α) (h : ThreadHeap α) (extended : Bool) (p : Pool)
    (h' : ThreadHeap α) : Prop where
  pool : h'.pool = p
  arenas : h'.arenas = (chosenArena layer h extended).1
  arrays : h'.arrays = true
  arena : h'.arena = some (chosenArena layer h extended).2

theorem chooseArena_fails {noMemory : Bool} (fails : AttachFails h noMemory) :
    chooseArena c layer h noMemory = (h, none) := if_pos fails

/-- An arena that exists is found without touching the pool. -/
theorem chooseArena_old (layer : ArenaLayer c α) {noMemory : Bool}
    (succeeds : ¬AttachFails h noMemory) (old : ¬NewArena h) (extended : Bool) :
    ∃ h', chooseArena c layer h noMemory = (h', some (chosenArena layer h extended).2) ∧
      Attached layer h extended h.pool h' := by
  unfold chooseArena
  rw [if_neg (show ¬(h.arrays = false ∧ noMemory = true) from succeeds)]
  dsimp only
  unfold chosenArena
  cases entry : h.arena with
  | some arena => exact ⟨_, rfl, rfl, by rw [chosenArena, entry], rfl, by rw [chosenArena, entry]⟩
  | none =>
      have missing : newArenaIndex h.loads = none := by
        by_contra some_
        exact old ⟨entry, some_⟩
      unfold poolChooseArenaHard
      rw [missing]
      exact ⟨_, rfl, rfl, by rw [chosenArena, entry, missing], rfl,
        by rw [chosenArena, entry, missing]⟩

/-- For a new arena the base allocator is asked first. -/
theorem chooseArena_new (layer : ArenaLayer c α) {noMemory extended : Bool} {p' : Pool}
    (succeeds : ¬AttachFails h noMemory) (new : NewArena h)
    (allocated : baseAllocAll c h.pool c.arenaAllocs = (p', extended)) :
    ∃ h', chooseArena c layer h noMemory = (h', some (chosenArena layer h extended).2) ∧
      Attached layer h extended p' h' := by
  obtain ⟨entry, wanted⟩ := new
  obtain ⟨index, found⟩ := Option.ne_none_iff_exists'.mp wanted
  unfold chooseArena
  rw [if_neg (show ¬(h.arrays = false ∧ noMemory = true) from succeeds)]
  dsimp only
  rw [entry]
  dsimp only
  unfold poolChooseArenaHard
  rw [found]
  dsimp only
  rw [allocated]
  have chosen : chosenArena layer h extended =
      if extended then (layer.newArena h.arenas index, (chooseArenaHard h.loads false).2)
      else (h.arenas, (chooseArenaHard h.loads true).2) := by
    unfold chosenArena
    rw [entry, found]
  cases extended with
  | true => exact ⟨_, by rw [chosen]; rfl, rfl, by rw [chosen]; rfl, rfl, by rw [chosen]; rfl⟩
  | false => exact ⟨_, by rw [chosen]; rfl, rfl, by rw [chosen]; rfl, rfl, by rw [chosen]; rfl⟩

/-- How `choose_arena` goes. -/
inductive ChosenOutcome (c : Config) (layer : ArenaLayer c α) (h : ThreadHeap α)
    (noMemory : Bool) : Prop
  | fails (fails : AttachFails h noMemory) (failure : chooseArena c layer h noMemory = (h, none))
  /-- No chunk is taken. -/
  | plain (attached : ¬AttachFails h noMemory)
      (spared : NewArena h → BaseFull c h.pool → h.pool.chunksSzad = [])
      (next : Nat) (h' : ThreadHeap α) (region : BaseRegion c (h.pool.atBase next))
      (chosen : chooseArena c layer h noMemory =
        (h', some (chosenArena layer h (!decide (BaseFull c h.pool))).2))
      (left : Attached layer h (!decide (BaseFull c h.pool)) (h.pool.atBase next) h')
  /-- A new arena takes a chunk. -/
  | taken (attached : ¬AttachFails h noMemory) (new : NewArena h) (full : BaseFull c h.pool)
      (n : Nat) (rest : List Nat) (p' : Pool) (h' : ThreadHeap α)
      (first : h.pool.chunksSzad = n :: rest) (taken : FirstTaken c h.pool n rest p')
      (step : BaseStep c h.pool p') (region : BaseRegion c p')
      (chosen : chooseArena c layer h noMemory = (h', some (chosenArena layer h true).2))
      (left : Attached layer h true p' h')

theorem chooseArena_outcome (layer : ArenaLayer c α) (noMemory : Bool) {nodes : List Nat}
    (fits : c.Fits) (trees : FreeTrees c h.pool) (numbered : NodesNumbered h.pool nodes)
    (region : BaseRegion c h.pool) : ChosenOutcome c layer h noMemory := by
  by_cases fails : AttachFails h noMemory
  · exact .fails fails (chooseArena_fails fails)
  have region' := region.baseAllocAll fits.arenaRequest trees numbered
  by_cases new : NewArena h
  · by_cases full : BaseFull c h.pool
    · cases order : h.pool.chunksSzad with
      | nil =>
          obtain ⟨next, allocated⟩ :=
            baseAllocAll_without_extents fits.arenaRequests region order
          have short : decide (h.pool.baseNextAddr + (c.arenaAllocs.map cachelineCeiling).sum ≤
              h.pool.basePastAddr) = !decide (BaseFull c h.pool) := by
            rw [decide_eq_false (not_le.mpr full), decide_eq_true full]
            rfl
          rw [short] at allocated
          rw [allocated] at region'
          obtain ⟨h', chosen, attached⟩ := chooseArena_new layer fails new allocated
          exact .plain fails (fun _ _ => order) next h' region' chosen attached
      | cons n rest =>
          obtain ⟨p', allocated, taken⟩ := baseAllocAll_first fits.arenaRequests trees region
            order full
          have step := baseAllocAll_step fits.arenaRequest trees numbered
          rw [allocated] at step region'
          obtain ⟨h', chosen, attached⟩ := chooseArena_new layer fails new allocated
          exact .taken fails new full n rest p' h' order taken step region' chosen attached
    · have enough : h.pool.baseNextAddr + (c.arenaAllocs.map cachelineCeiling).sum ≤
          h.pool.basePastAddr := not_lt.mp full
      have allocated := baseAllocAll_of_room (c := c) c.arenaAllocs region.past_lt enough
      have extended : (!decide (BaseFull c h.pool)) = true := by
        rw [decide_eq_false full]
        rfl
      rw [← extended] at allocated
      rw [allocated] at region'
      obtain ⟨h', chosen, attached⟩ := chooseArena_new layer fails new allocated
      exact .plain fails (fun _ isFull => absurd isFull full) _ h' region' chosen attached
  · obtain ⟨h', chosen, attached⟩ := chooseArena_old layer fails new
      (!decide (BaseFull c h.pool))
    exact .plain fails (fun isNew _ => absurd isNew new) h.pool.baseNextAddr h' region chosen
      attached

/-! ## A request to the arenas -/

/-- Without free extents the arena of the thread has no room. -/
def RefusesOld (c : Config) (layer : ArenaLayer c α) (h : ThreadHeap α) (size : Nat) : Prop :=
  h.pool.chunksSzad = [] ∧ roomFor layer h (!decide (BaseFull c h.pool)) size = false

/-- A new arena takes the last free chunk for itself and has no room. -/
def RefusesNew (c : Config) (layer : ArenaLayer c α) (h : ThreadHeap α) (size : Nat) : Prop :=
  NewArena h ∧ BaseFull c h.pool ∧ OneChunk c h.pool ∧ roomFor layer h true size = false

/-- What a refused request leaves of the heap, apart from the loads. -/
structure Refused (layer : ArenaLayer c α) (h : ThreadHeap α) (extended : Bool) (p : Pool)
    (size : Nat) (h' : ThreadHeap α) : Prop where
  pool : h'.pool = p
  arenas : h'.arenas = layer.refuse (chosenArena layer h extended).1
    (chosenArena layer h extended).2 size
  arrays : h'.arrays = true
  arena : h'.arena = some (chosenArena layer h extended).2

/-- After a request was refused the thread has its arrays and its arena. -/
theorem Refused.not_fails {extended noMemory : Bool} {p' : Pool} {size : Nat} {h' : ThreadHeap α}
    (refused : Refused layer h extended p' size h') : ¬AttachFails h' noMemory :=
  fun fails => Bool.noConfusion (refused.arrays.symm.trans fails.1)

theorem Refused.not_new {extended : Bool} {p' : Pool} {size : Nat} {h' : ThreadHeap α}
    (refused : Refused layer h extended p' size h') : ¬NewArena h' :=
  fun new => Option.some_ne_none _ (refused.arena.symm.trans new.1)

/-- How a request to the arenas goes, and when. -/
inductive ArenaOutcome (c : Config) (layer : ArenaLayer c α) (h : ThreadHeap α) (size : Nat)
    (noMemory : Bool) (result : ThreadHeap α × Option Nat) : Prop
  | served (attached : ¬AttachFails h noMemory) (old : ¬RefusesOld c layer h size)
      (new : ¬RefusesNew c layer h size) (success : result.2 ≠ none)
  | unattached (fails : AttachFails h noMemory) (same : result = (h, none))
  | refusedOld (attached : ¬AttachFails h noMemory) (old : RefusesOld c layer h size)
      (next : Nat) (region : BaseRegion c (h.pool.atBase next)) (failure : result.2 = none)
      (left : Refused layer h (!decide (BaseFull c h.pool)) (h.pool.atBase next) size result.1)
  | refusedNew (attached : ¬AttachFails h noMemory) (new : RefusesNew c layer h size)
      (n : Nat) (p' : Pool) (one : h.pool.chunksSzad = [n])
      (short : (h.pool.node n).size = c.chunksize) (taken : FirstTaken c h.pool n [] p')
      (step : BaseStep c h.pool p') (region : BaseRegion c p') (failure : result.2 = none)
      (left : Refused layer h true p' size result.1)

theorem chunkAllocArena_nil (empty : p.chunksSzad = []) :
    chunkAllocArena c p 0 c.chunksize c.chunksize false false = (p, none) := by
  unfold chunkAllocArena chunkAllocDefault
  rw [chunkRecycle_nil empty]

theorem chunkAllocArena_first (trees : FreeTrees c p) (first : p.chunksSzad = n :: rest) :
    ∃ p' found, chunkAllocArena c p 0 c.chunksize c.chunksize false false = (p', some found) := by
  obtain ⟨q, recycled, _⟩ := chunkRecycle_first trees first
  unfold chunkAllocArena chunkAllocDefault
  rw [recycled]
  exact ⟨_, _, rfl⟩

/-- With an arena at hand, a request fails exactly if there is no room and no chunk. -/
theorem arenaMalloc_of_attached {noMemory extended : Bool} {p' : Pool} {h' : ThreadHeap α}
    (size : Nat) (trees : FreeTrees c p')
    (chosen : chooseArena c layer h noMemory = (h', some (chosenArena layer h extended).2))
    (attached : Attached layer h extended p' h') :
    (p'.chunksSzad = [] ∧ roomFor layer h extended size = false ∧
        (arenaMalloc c layer h size noMemory).2 = none ∧
        Refused layer h extended p' size (arenaMalloc c layer h size noMemory).1) ∨
      (¬(p'.chunksSzad = [] ∧ roomFor layer h extended size = false) ∧
        (arenaMalloc c layer h size noMemory).2 ≠ none) := by
  have room : layer.room h'.arenas (chosenArena layer h extended).2 size =
      roomFor layer h extended size := by
    rw [attached.arenas]
    rfl
  unfold arenaMalloc
  rw [chosen]
  dsimp only
  rw [room]
  by_cases has : roomFor layer h extended size = true
  · rw [if_pos has]
    refine Or.inr ⟨fun refuses => ?_, Option.some_ne_none _⟩
    rw [has] at refuses
    exact Bool.noConfusion refuses.2
  · rw [if_neg has, attached.pool]
    cases order : p'.chunksSzad with
    | nil =>
        rw [chunkAllocArena_nil order]
        refine Or.inl ⟨rfl, Bool.not_eq_true _ ▸ has, rfl, ?_⟩
        exact ⟨rfl, by rw [← attached.arenas], attached.arrays, attached.arena⟩
    | cons n rest =>
        obtain ⟨q, found, allocated⟩ := chunkAllocArena_first trees order
        rw [allocated]
        exact Or.inr ⟨fun refuses => List.cons_ne_nil _ _ refuses.1, Option.some_ne_none _⟩

theorem arenaMalloc_outcome (noMemory : Bool) (size : Nat) {nodes : List Nat} (fits : c.Fits)
    (trees : FreeTrees c h.pool) (numbered : NodesNumbered h.pool nodes)
    (region : BaseRegion c h.pool) :
    ArenaOutcome c layer h size noMemory (arenaMalloc c layer h size noMemory) := by
  cases chooseArena_outcome layer noMemory fits trees numbered region with
  | fails fails failure =>
      apply ArenaOutcome.unattached fails
      unfold arenaMalloc
      rw [failure]
  | plain fails spared next h' region' chosen attached =>
      have moved : FreeTrees c (h.pool.atBase next) := trees.of_edit rfl rfl fun _ _ => rfl
      rcases arenaMalloc_of_attached size moved chosen attached with
        ⟨empty, noRoom, failure, left⟩ | ⟨open_, success⟩
      · exact .refusedOld fails ⟨empty, noRoom⟩ next region' failure left
      · refine .served fails open_ ?_ success
        rintro ⟨new, full, ⟨n, one, _⟩, _⟩
        exact List.cons_ne_nil _ _ (one.symm.trans (spared new full))
  | taken fails new full n rest p' h' first taken step region' chosen attached =>
      have member : n ∈ h.pool.chunksAd := trees.mem_szad.mp (first ▸ List.mem_cons_self)
      have extent := trees.extent n member
      rcases arenaMalloc_of_attached size step.change.trees chosen attached with
        ⟨empty, noRoom, failure, left⟩ | ⟨open_, success⟩
      · rcases Nat.eq_or_lt_of_le (Nat.le_of_dvd extent.nonempty extent.size_dvd) with
          equal | longer
        · have none : rest = [] := (taken.usedUp equal.symm).1.symm.trans empty
          subst none
          exact .refusedNew fails ⟨new, full, ⟨n, first, equal.symm⟩, noRoom⟩ n p' first
            equal.symm taken step region' failure left
        · have kept := (taken.cut longer).1
          exact absurd (kept.symm.trans empty) (List.cons_ne_nil _ _)
      · have notOld : ¬RefusesOld c layer h size := fun refuses =>
          List.cons_ne_nil _ _ (first.symm.trans refuses.1)
        refine .served fails notOld ?_ success
        rintro ⟨_, _, ⟨m, one, short⟩, noRoom⟩
        obtain ⟨rfl, rfl⟩ := List.cons.inj (first.symm.trans one)
        exact open_ ⟨(taken.usedUp short).1, noRoom⟩

/-- Moving a block to an arena goes as the request to the arena does. -/
theorem poolArenaRalloc_outcome {noMemory : Bool} {ptr oldsize size : Nat} {nodes : List Nat}
    (fits : c.Fits) (trees : FreeTrees c h.pool) (numbered : NodesNumbered h.pool nodes)
    (region : BaseRegion c h.pool) (moves : arenaRallocNoMove c layer h ptr oldsize size = none) :
    ArenaOutcome c layer h size noMemory (poolArenaRalloc c layer h ptr oldsize size noMemory) := by
  have outcome : ArenaOutcome c layer h size noMemory (arenaMalloc c layer h size noMemory) :=
    arenaMalloc_outcome noMemory size fits trees numbered region
  unfold poolArenaRalloc
  rw [moves]
  dsimp only
  cases result : arenaMalloc c layer h size noMemory with
  | mk h' ret =>
      rw [result] at outcome
      cases ret with
      | none => exact outcome
      | some ret =>
          cases outcome with
          | served attached old new _ => exact .served attached old new (Option.some_ne_none _)
          | unattached _ same => exact absurd (Prod.mk.inj same).2 (Option.some_ne_none _)
          | refusedOld _ _ _ _ failure _ => exact absurd failure (Option.some_ne_none _)
          | refusedNew _ _ _ _ _ _ _ _ _ failure _ => exact absurd failure (Option.some_ne_none _)

end Arena

/-! ## Shrinking a huge block to one chunk -/

theorem LeavesOneChunk.congr {p' : Pool} {chunk size : Nat}
    (order : p'.chunksSzad = p.chunksSzad) (nodes : p'.baseNodes = p.baseNodes)
    (heap : ∀ m ∈ p.chunksSzad, p'.node m = p.node m) :
    LeavesOneChunk c p' chunk size ↔ LeavesOneChunk c p chunk size := by
  have one : OneChunk c p' ↔ OneChunk c p := by
    unfold OneChunk
    rw [order]
    constructor
    · rintro ⟨m, single, short⟩
      exact ⟨m, single, by rw [← heap m (single ▸ List.mem_cons_self)]; exact short⟩
    · rintro ⟨m, single, short⟩
      exact ⟨m, single, by rw [heap m (single ▸ List.mem_cons_self)]; exact short⟩
  have behind : (∀ m ∈ p.chunksSzad, (p'.node m).addr ≠ chunk + size) ↔
      ∀ m ∈ p.chunksSzad, (p.node m).addr ≠ chunk + size := by
    constructor
    · intro apart m member
      rw [← heap m member]
      exact apart m member
    · intro apart m member
      rw [heap m member]
      exact apart m member
  unfold LeavesOneChunk
  rw [one, order, nodes, behind]

/-- The pool after a huge block of more than a chunk is shrunk to one chunk. -/
structure Shrunk (c : Config) (bound others : Nat → Nat) (p : Pool) (n : Nat) (p' : Pool) :
    Prop where
  ledger : Ledger c bound p' [] others
  size : (p'.node n).size = c.chunksize
  huge : p'.huge = p.huge
  next : p'.baseNextAddr = p.baseNextAddr
  past : p'.basePastAddr = p.basePastAddr
  empty : p'.chunksSzad = [] ↔ p.chunksSzad = [] ∧ p.baseNodes = []
  oneChunk : OneChunk c p' ↔
    LeavesOneChunk c p ((p.node n).addr + c.chunksize) ((p.node n).size - c.chunksize)

theorem hugeRallocNoMove_shrinks {bound others : Nat → Nat} {ptr : Nat}
    (ledger : Ledger c bound p [] others) (bounded : Bounded bound)
    (found : p.hugeSearch ptr = some n) (large : c.chunksize < (p.node n).size) :
    ∃ p', hugeRallocNoMove c p ptr (p.node n).size c.chunksize 0 false false false =
      (p', false) ∧ Shrunk c bound others p n p' := by
  have twice := c.two_chunks_lt_modulus
  have positive := c.chunksize_pos
  have ceiling : c.chunkCeiling c.chunksize = c.chunksize :=
    c.chunkCeiling_eq (dvd_refl _) (by omega)
  obtain ⟨member, _⟩ := hugeSearch_some found
  have extent := ledger.hugeExtent n member
  have below := extent.below
  have oldCeiling : c.chunkCeiling (p.node n).size = (p.node n).size :=
    c.chunkCeiling_eq extent.size_dvd (by omega)
  have same : Word.add c.chunksize 0 = c.chunksize := Word.add_eq (by omega)
  have some_ : c.chunkCeiling c.chunksize ≠ 0 := by omega
  have fewer : c.chunkCeiling c.chunksize < (p.node n).size := by omega
  obtain ⟨q, result, ⟨mem, q_eq⟩, resized, _, excess⟩ :=
    ledger.shrink_dalloc bounded found some_ fewer
  obtain ⟨kept, _, smaller⟩ := ledger.shrink bounded found some_ fewer
  rw [ceiling] at result resized excess smaller
  have taken : hugeRallocNoMove c p ptr (p.node n).size c.chunksize 0 false false false =
      hugeRallocNoMoveShrink c p ptr (p.node n).size c.chunksize := by
    have above := c.arenaMaxclass_lt
    unfold hugeRallocNoMove
    rw [same, ceiling, oldCeiling, if_neg (by omega), if_neg (by omega), if_neg (by omega),
      if_pos large]
  rw [result] at kept smaller
  refine ⟨_, taken.trans result, ?_⟩
  -- the state in which `chunk_record` starts
  rw [chunkDallocDefault_record] at kept smaller ⊢
  dsimp only at kept smaller ⊢
  generalize counted_eq : { q with
    curchunks := Word.sub q.curchunks
      (((p.node n).size - c.chunksize) / c.chunksize) } = counted at kept smaller ⊢
  have ledger' : Ledger c bound counted [] fun x => others x +
      (Span.mk ((p.node n).addr + c.chunksize) ((p.node n).size - c.chunksize)).ind x := by
    rw [← counted_eq]
    exact resized.of_contents
  have range := ledger'.recordable bounded excess fun _ => Nat.le_add_left ..
  have order : counted.chunksSzad = p.chunksSzad := by
    rw [← counted_eq, q_eq]
    rfl
  have nodes : counted.baseNodes = p.baseNodes := by
    rw [← counted_eq, q_eq]
    rfl
  have heap : ∀ m ∈ p.chunksSzad, counted.node m = p.node m := by
    intro m inTree
    have absent := (ledger.numbered.of_held (List.mem_append_left [] member)).1
    have different : m ≠ n := by
      rintro rfl
      exact absent (ledger.trees.mem_szad.mp inTree)
    rw [← counted_eq, q_eq]
    exact Function.update_of_ne different ..
  have section_ := chunkRecord_section false ledger'.trees ledger'.apart range
  exact {
    ledger := kept
    size := smaller
    huge := by
      rw [section_.huge, ← counted_eq, q_eq]
      rfl
    next := by
      rw [section_.baseNextAddr, ← counted_eq, q_eq]
      rfl
    past := by
      rw [section_.basePastAddr, ← counted_eq, q_eq]
      rfl
    empty := by
      rw [chunkRecord_empty_iff false ledger'.trees ledger'.apart range, order, nodes]
    oneChunk := by
      rw [chunkRecord_oneChunk_iff false ledger'.trees ledger'.apart range]
      exact LeavesOneChunk.congr order nodes heap }

/-! ## Resizing a huge block in place -/

/-- The search for a range of a given length finds the extent that begins at `addr`. -/
def FreeBehind (p : Pool) (addr length : Nat) : Prop :=
  ∃ m, OrderedTree.nsearch (fun m => (p.node m).szadKey) (toLex (length, addr)) p.chunksSzad =
    some m ∧ (p.node m).addr = addr

/-- A block of `oldsize` bytes can be resized in place to a huge one. -/
def StaysHuge (c : Config) (p : Pool) (ptr oldsize size : Nat) : Prop :=
  c.arenaMaxclass < oldsize ∧ (c.chunkCeiling size ≤ oldsize ∨
    FreeBehind p (ptr + oldsize) (c.chunkCeiling size - oldsize))

/-- Expanding succeeds exactly if the right extent is found. -/
theorem hugeRallocNoMoveExpand_iff {bound others : Nat → Nat} {ptr size : Nat}
    (ledger : Ledger c bound p [] others) (found : p.hugeSearch ptr = some n)
    (wraps : c.chunkCeiling size ≠ 0) (grows : (p.node n).size < c.chunkCeiling size)
    (zero : Bool) :
    (FreeBehind p (ptr + (p.node n).size) (c.chunkCeiling size - (p.node n).size) ∧
        (hugeRallocNoMoveExpand c p ptr (p.node n).size size zero false).2 = false) ∨
      (¬FreeBehind p (ptr + (p.node n).size) (c.chunkCeiling size - (p.node n).size) ∧
        hugeRallocNoMoveExpand c p ptr (p.node n).size size zero false = (p, true)) := by
  obtain ⟨member, starts⟩ := hugeSearch_some found
  have extent := ledger.hugeExtent n member
  have below := extent.below
  have nonempty := extent.nonempty
  rw [starts] at below
  have ceilingLt := c.chunkCeiling_lt size
  have start : Word.add ptr (p.node n).size = ptr + (p.node n).size := Word.add_eq below
  have length : Word.sub (c.chunkCeiling size) (p.node n).size =
      c.chunkCeiling size - (p.node n).size := Word.sub_eq (le_of_lt grows) ceilingLt
  have request : Request c (c.chunkCeiling size - (p.node n).size) c.chunksize :=
    Request.of_chunksize (by omega)
      (Nat.dvd_sub (c.dvd_chunkCeiling size) extent.size_dvd) (by omega)
  unfold hugeRallocNoMoveExpand
  dsimp only
  rw [if_neg wraps, found, start, length]
  dsimp only
  unfold arenaChunkAllocHuge chunkAllocArena chunkAllocDefault
  cases taken : chunkRecycleTake p (ptr + (p.node n).size)
      (c.chunkCeiling size - (p.node n).size) c.chunksize
      (c.chunkCeiling size - (p.node n).size) with
  | none =>
      rw [chunkRecycle_of_no_take request taken]
      refine Or.inr ⟨?_, rfl⟩
      rintro ⟨m, searched, here⟩
      unfold chunkRecycleTake at taken
      rw [searched] at taken
      dsimp only at taken
      rw [if_neg fun elsewhere => elsewhere.2 here] at taken
      split at taken
      · cases taken
      · cases taken
  | some took =>
      obtain ⟨q, ret, zeroOut, result⟩ := chunkRecycle_of_take ledger.trees request taken zero
      rw [result]
      refine Or.inl ⟨?_, rfl⟩
      unfold chunkRecycleTake at taken
      cases searched : OrderedTree.nsearch (fun m => (p.node m).szadKey)
          (toLex (c.chunkCeiling size - (p.node n).size, ptr + (p.node n).size))
          p.chunksSzad with
      | none =>
          rw [searched] at taken
          cases taken
      | some m =>
          rw [searched] at taken
          dsimp only at taken
          split at taken
          · cases taken
          · rename_i here
            refine ⟨m, searched, ?_⟩
            by_contra elsewhere
            exact here ⟨by omega, elsewhere⟩

/-- `huge_ralloc_no_move` of a huge block succeeds exactly if the block stays where it is. -/
theorem hugeRallocNoMove_iff {bound others : Nat → Nat} {ptr size : Nat}
    (ledger : Ledger c bound p [] others) (found : p.hugeSearch ptr = some n)
    (sizeLt : size < Word.modulus) (wraps : c.chunkCeiling size ≠ 0) (zero : Bool) :
    (StaysHuge c p ptr (p.node n).size size ∧
        (hugeRallocNoMove c p ptr (p.node n).size size 0 zero false false).2 = false) ∨
      (¬StaysHuge c p ptr (p.node n).size size ∧
        hugeRallocNoMove c p ptr (p.node n).size size 0 zero false false = (p, true)) := by
  obtain ⟨member, _⟩ := hugeSearch_some found
  have extent := ledger.hugeExtent n member
  have below := extent.below
  have long := Nat.le_of_dvd extent.nonempty extent.size_dvd
  have above := c.arenaMaxclass_lt
  have oldCeiling : c.chunkCeiling (p.node n).size = (p.node n).size :=
    c.chunkCeiling_eq extent.size_dvd (by omega)
  have same : Word.add size 0 = size := Word.add_eq (by omega)
  unfold hugeRallocNoMove StaysHuge
  rw [same, oldCeiling, if_neg (by omega)]
  rcases Nat.lt_trichotomy (c.chunkCeiling size) (p.node n).size with less | equal | greater
  · rw [if_neg (by omega), if_neg wraps, if_pos less]
    refine Or.inl ⟨⟨by omega, Or.inl (le_of_lt less)⟩, ?_⟩
    unfold hugeRallocNoMoveShrink
    rw [found]
  · rw [if_pos ⟨le_of_eq equal, le_of_eq equal.symm⟩]
    exact Or.inl ⟨⟨by omega, Or.inl (le_of_eq equal)⟩, rfl⟩
  · rw [if_neg (by omega), if_neg wraps, if_neg (by omega)]
    rcases hugeRallocNoMoveExpand_iff ledger found wraps greater zero with
      ⟨behind, success⟩ | ⟨behind, failure⟩
    · refine Or.inl ⟨⟨by omega, Or.inr behind⟩, ?_⟩
      cases result : hugeRallocNoMoveExpand c p ptr (p.node n).size size zero false with
      | mk q failed =>
          rw [result] at success
          dsimp only at success
          rw [success]
    · rw [failure]
      refine Or.inr ⟨?_, rfl⟩
      rintro ⟨_, shorter | stays⟩
      · omega
      · exact behind stays

/-! ## A huge block for a new place -/

/-- No huge block of this length can be made. -/
def NoHuge (p : Pool) (length : Nat) : Prop :=
  p.baseNodes = [] ∨ ∀ m ∈ p.chunksSzad, (p.node m).size < length

theorem hugeMalloc_iff {size : Nat} (arena : Nat) (trees : FreeTrees c p)
    (wraps : c.chunkCeiling size ≠ 0) :
    (NoHuge p (c.chunkCeiling size) ∧
        hugeMalloc c p (some arena) size false false = (p, none)) ∨
      (¬NoHuge p (c.chunkCeiling size) ∧
        (hugeMalloc c p (some arena) size false false).2 ≠ none) := by
  have request : Request c (c.chunkCeiling size) c.chunksize :=
    Request.of_chunksize (Nat.pos_of_ne_zero wraps) (c.dvd_chunkCeiling size)
      (c.chunkCeiling_lt size)
  unfold hugeMalloc hugePalloc
  dsimp only
  rw [if_neg wraps]
  cases nodes : p.baseNodes with
  | nil =>
      have none : baseNodeAlloc p = (p, none) := by rw [baseNodeAlloc, nodes]
      rw [none]
      exact Or.inl ⟨Or.inl nodes, rfl⟩
  | cons n rest =>
      have taken : baseNodeAlloc p = ({ p with baseNodes := rest }, some n) := by
        rw [baseNodeAlloc, nodes]
      rw [taken]
      dsimp only
      unfold arenaChunkAllocHuge chunkAllocArena chunkAllocDefault
      by_cases short : ∀ m ∈ p.chunksSzad, (p.node m).size < c.chunkCeiling size
      · have missing : chunkRecycle c { p with baseNodes := rest } 0 (c.chunkCeiling size)
            c.chunksize false = ({ p with baseNodes := rest }, none) :=
          chunkRecycle_of_short request
            (show ∀ m ∈ ({ p with baseNodes := rest } : Pool).chunksSzad,
              (({ p with baseNodes := rest } : Pool).node m).size < c.chunkCeiling size
              from short) false
        rw [missing]
        refine Or.inl ⟨Or.inr short, ?_⟩
        have back : baseNodeDalloc { p with baseNodes := rest } n = p := by
          change { p with baseNodes := n :: rest } = p
          rw [← nodes]
        dsimp only
        rw [back]
      · push Not at short
        obtain ⟨m, member, long⟩ := short
        have trees' : FreeTrees c { p with baseNodes := rest } :=
          trees.of_edit rfl rfl fun _ _ => rfl
        obtain ⟨q, ret, zeroOut, result⟩ := chunkRecycle_of_long trees' request
          (trees.mem_szad.mp member) long false
        rw [result]
        refine Or.inr ⟨?_, Option.some_ne_none _⟩
        rintro (empty | shorter)
        · exact List.cons_ne_nil _ _ (nodes.symm.trans empty)
        · exact absurd (shorter m member) (not_lt.mpr long)

/-- No huge block of this length can be made once a chunk is taken from the smallest extent. -/
def Starved (c : Config) (p : Pool) (length : Nat) : Prop :=
  match p.chunksSzad with
  | [] => False
  | n :: rest =>
      (c.chunksize < (p.node n).size ∧ p.baseNodes = []) ∨
        ((p.node n).size < length + c.chunksize ∧ ∀ m ∈ rest, (p.node m).size < length)

theorem FirstTaken.noHuge_iff {p' : Pool} {length : Nat} (taken : FirstTaken c p n rest p')
    (trees : FreeTrees c p) (first : p.chunksSzad = n :: rest) (nonempty : 0 < length) :
    NoHuge p' length ↔ Starved c p length := by
  have distinct := trees.nodupSzad
  rw [first] at distinct
  have absent := (List.nodup_cons.mp distinct).1
  have member : n ∈ p.chunksAd := trees.mem_szad.mp (first ▸ List.mem_cons_self)
  have extent := trees.extent n member
  have others : (∀ m ∈ rest, (p'.node m).size < length) ↔
      ∀ m ∈ rest, (p.node m).size < length := by
    have same : ∀ m ∈ rest, p'.node m = p.node m := by
      intro m inRest
      refine taken.others m ?_
      rintro rfl
      exact absent inRest
    constructor
    · intro short m inRest
      rw [← same m inRest]
      exact short m inRest
    · intro short m inRest
      rw [same m inRest]
      exact short m inRest
  unfold NoHuge Starved
  rw [first]
  dsimp only
  rcases Nat.eq_or_lt_of_le (Nat.le_of_dvd extent.nonempty extent.size_dvd) with equal | longer
  · obtain ⟨order, nodes⟩ := taken.usedUp equal.symm
    rw [order, nodes, others, ← equal]
    constructor
    · rintro (empty | short)
      · exact absurd empty (List.cons_ne_nil _ _)
      · exact Or.inr ⟨by omega, short⟩
    · rintro (⟨longer, _⟩ | ⟨_, short⟩)
      · exact absurd longer (lt_irrefl _)
      · exact Or.inr short
  · obtain ⟨order, left, nodes⟩ := taken.cut longer
    rw [order, nodes, List.forall_mem_cons, others, left]
    constructor
    · rintro (empty | ⟨short, rest_⟩)
      · exact Or.inl ⟨longer, empty⟩
      · exact Or.inr ⟨by omega, rest_⟩
    · rintro (⟨_, empty⟩ | ⟨short, rest_⟩)
      · exact Or.inl empty
      · exact Or.inr ⟨by omega, rest_⟩

end Jemalloc
end Vmem
