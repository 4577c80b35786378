import Vmem.Jemalloc.PoolLocks
import Vmem.Jemalloc.SmallestExtent

/-!
# Lock discipline of the pool layer

Almost every path takes and drops the mutexes properly, whatever the state of the
pool.  Two do not.  `pool_open` unlocks `pools_lock` when the run-time state cannot
be set up, and `je_pool_create` unlocks it again.  `base_node_prealloc` holds
`base_node_mtx` while the base allocator takes chunks; when `chunk_recycle` uses an
extent up it gives the node back, which takes `base_node_mtx` a second time.
-/

namespace Vmem
namespace Jemalloc

/-! ## Paths that need no condition -/

/-- The mutexes of the chunk functions. -/
def chunkUses : List Mutex := [.chunksMtx .pool, .baseNodeMtx .pool]

/-- The mutexes of the base allocator. -/
def baseUses : List Mutex := .baseMtx .pool :: chunkUses

theorem baseNode_balanced : Balanced chunkUses baseNodeEvents :=
  (Balanced.nil.locked List.not_mem_nil).mono fun _ member =>
    List.mem_cons_of_mem _ member

theorem baseNodeDallocIf_balanced (n : Option Nat) :
    Balanced chunkUses (baseNodeDallocIfEvents n) := by
  cases n with
  | none => exact Balanced.nil
  | some n => exact baseNode_balanced

/-- A section under `chunks_mtx` alone. -/
theorem chunks_balanced : Balanced chunkUses (locked (.chunksMtx .pool) []) :=
  (Balanced.nil.locked List.not_mem_nil).mono fun _ member => by
    rw [List.mem_singleton.mp member]
    exact List.mem_cons_self

theorem chunkRecord_balanced (c : Config) (p : Pool) (chunk size : Nat) (zeroed : Bool) :
    Balanced chunkUses (chunkRecordEvents c p chunk size zeroed) :=
  ((baseNode_balanced.append chunks_balanced).append (baseNodeDallocIf_balanced _)).append
    (baseNodeDallocIf_balanced _)

theorem chunkDallocCore_balanced (c : Config) (p : Pool) (chunk size : Nat) :
    Balanced chunkUses (chunkDallocCoreEvents c p chunk size) :=
  chunks_balanced.append (chunkRecord_balanced ..)

theorem chunkRegister_balanced (rtreeFails : Bool) :
    Balanced chunkUses (chunkRegisterEvents rtreeFails) := by
  unfold chunkRegisterEvents
  split
  · exact Balanced.nil
  · exact chunks_balanced

/-- Once its extent is unlinked, `chunk_recycle` drops `chunks_mtx` before anything else. -/
theorem chunkRecycleRest_balanced (c : Config) (taken : Taken) (size : Nat) :
    ∃ events, chunkRecycleRestEvents c taken size = .release (.chunksMtx .pool) :: events ∧
      Balanced chunkUses events := by
  unfold chunkRecycleRestEvents
  split
  · cases taken.node with
    | some n => exact ⟨[], rfl, Balanced.nil⟩
    | none =>
        refine ⟨_, rfl, baseNode_balanced.append ?_⟩
        split
        · exact chunkDallocCore_balanced ..
        · exact chunks_balanced
  · exact ⟨_, rfl, baseNodeDallocIf_balanced _⟩

theorem chunkRecycle_balanced (c : Config) (p : Pool) (newAddr size alignment : Nat) :
    Balanced chunkUses (chunkRecycleEvents c p newAddr size alignment) := by
  unfold chunkRecycleEvents
  dsimp only
  split
  · exact Balanced.nil
  · cases chunkRecycleTake p newAddr size alignment
        (Word.sub (Word.add size alignment) c.chunksize) with
    | none => exact chunks_balanced
    | some taken =>
        obtain ⟨events, same, balanced⟩ := chunkRecycleRest_balanced c taken size
        dsimp only
        rw [same]
        exact chunks_balanced.append balanced

theorem chunkAllocArena_balanced (c : Config) (p : Pool) (newAddr size alignment : Nat)
    (zero rtreeFails : Bool) :
    Balanced chunkUses (chunkAllocArenaEvents c p newAddr size alignment zero rtreeFails) := by
  refine (chunkRecycle_balanced ..).append ?_
  split
  · exact Balanced.nil
  · refine (chunkRegister_balanced _).append ?_
    split
    · exact chunkDallocCore_balanced ..
    · exact Balanced.nil

theorem chunkAllocBase_balanced (c : Config) (p : Pool) (size : Nat) :
    Balanced chunkUses (chunkAllocBaseEvents c p size) := by
  refine (chunkRecycle_balanced ..).append ?_
  split
  · exact Balanced.nil
  · exact chunkRegister_balanced false

theorem baseAlloc_balanced (c : Config) (p : Pool) (size : Nat) :
    Balanced baseUses (baseAllocEvents c p size) := by
  refine Balanced.locked ?_ (by decide)
  split
  · exact chunkAllocBase_balanced ..
  · exact Balanced.nil

theorem baseAllocAll_balanced (c : Config) (p : Pool) (sizes : List Nat) :
    Balanced baseUses (baseAllocAllEvents c p sizes) := by
  induction sizes generalizing p with
  | nil => exact Balanced.nil
  | cons size sizes inductionHypothesis =>
      refine (baseAlloc_balanced c p size).append ?_
      split
      · exact Balanced.nil
      · exact inductionHypothesis _

/-- The chunk functions use fewer mutexes than the base allocator. -/
theorem of_chunkUses {events : Events} (balanced : Balanced chunkUses events) :
    Balanced baseUses events :=
  balanced.mono fun _ member => List.mem_cons_of_mem _ member

theorem hugePalloc_balanced (c : Config) (p : Pool) (arena : Option Nat) (size alignment : Nat)
    (zero rtreeFails : Bool) :
    Balanced chunkUses (hugePallocEvents c p arena size alignment zero rtreeFails) := by
  unfold hugePallocEvents
  dsimp only
  split
  · exact Balanced.nil
  refine baseNode_balanced.append ?_
  split
  · exact Balanced.nil
  · refine (chunkAllocArena_balanced ..).append ?_
    split
    · exact baseNode_balanced
    · exact Balanced.nil

theorem poolHugeAlloc_balanced (c : Config) (p : Pool) (newArena : Bool) (arena : Option Nat)
    (size alignment : Nat) (zero rtreeFails : Bool) :
    Balanced baseUses (poolHugeAllocEvents c p newArena arena size alignment zero rtreeFails) := by
  unfold poolHugeAllocEvents
  dsimp only
  refine Balanced.append ?_ (of_chunkUses (hugePalloc_balanced ..))
  split
  · exact baseAllocAll_balanced ..
  · exact Balanced.nil

theorem systemAlloc_balanced (outcome : SystemAlloc) :
    Balanced [.baseMtx .basePool, .chunksMtx .basePool] (systemAllocEvents outcome) := by
  cases outcome with
  | mapped => exact (Balanced.nil.locked List.not_mem_nil).locked (by decide)
  | room => exact Balanced.nil.locked (by decide)
  | failed => exact Balanced.nil.locked (by decide)

/-! ## One chunk from the smallest extent -/

section Smallest

variable {c : Config} {p : Pool} {n : Nat} {rest : List Nat}

/-- Without free extents `chunk_recycle` looks and goes. -/
theorem chunkAllocBase_nil_balanced {size : Nat} (empty : p.chunksSzad = []) :
    Balanced [.chunksMtx .pool] (chunkAllocBaseEvents c p size) := by
  unfold chunkAllocBaseEvents chunkRecycleEvents
  rw [chunkRecycle_nil empty, List.append_nil]
  dsimp only
  rw [chunkRecycleTake_nil empty]
  split
  · exact Balanced.nil
  · exact Balanced.nil.locked List.not_mem_nil

/-- Using the smallest extent up gives its node back. -/
theorem chunkAllocBase_exact {held : List Mutex} (trees : FreeTrees c p)
    (first : p.chunksSzad = n :: rest) (exact_ : (p.node n).size = c.chunksize)
    (mine : .baseNodeMtx .pool ∈ held) (free : .chunksMtx .pool ∉ held) :
    holding held (chunkAllocBaseEvents c p c.chunksize) = none := by
  have events : chunkRecycleEvents c p 0 c.chunksize c.chunksize =
      locked (.chunksMtx .pool) [] ++ baseNodeEvents := by
    unfold chunkRecycleEvents
    dsimp only
    rw [allocSize_chunk, if_neg (lt_irrefl _), chunkRecycleTake_first trees first]
    unfold chunkRecycleRestEvents
    dsimp only
    rw [exact_, Nat.sub_self, if_neg (not_not.mpr rfl)]
    rfl
  unfold chunkAllocBaseEvents
  rw [events, holding_append, holding_append, holding_locked_of_some free rfl]
  dsimp only [Option.bind_some]
  unfold baseNodeEvents
  rw [holding_locked_of_held mine]
  rfl

/-- A longer extent keeps its node. -/
theorem chunkAllocBase_cut_balanced (trees : FreeTrees c p) (first : p.chunksSzad = n :: rest)
    (longer : c.chunksize < (p.node n).size) :
    Balanced [.chunksMtx .pool] (chunkAllocBaseEvents c p c.chunksize) := by
  obtain ⟨p', result, _⟩ := chunkRecycle_first trees first
  have trails : (p.node n).size - c.chunksize ≠ 0 := by omega
  have events : chunkRecycleEvents c p 0 c.chunksize c.chunksize =
      locked (.chunksMtx .pool) [] := by
    unfold chunkRecycleEvents
    dsimp only
    rw [allocSize_chunk, if_neg (lt_irrefl _), chunkRecycleTake_first trees first]
    unfold chunkRecycleRestEvents
    dsimp only
    rw [if_pos trails]
    rfl
  unfold chunkAllocBaseEvents
  rw [events, result]
  exact (Balanced.nil.locked List.not_mem_nil).append (Balanced.nil.locked List.not_mem_nil)

/-! ## One allocation from the base region -/

/-- A base allocation that fits the base region needs no chunk. -/
theorem baseAlloc_room_balanced {size : Nat} (region : BaseRegion c p)
    (room : p.baseNextAddr + cachelineCeiling size ≤ p.basePastAddr) :
    Balanced [.baseMtx .pool, .chunksMtx .pool] (baseAllocEvents c p size) := by
  have positive := c.chunksize_pos
  have below := region.below
  have next : Word.add p.baseNextAddr (cachelineCeiling size) =
      p.baseNextAddr + cachelineCeiling size := Word.add_eq (by omega)
  unfold baseAllocEvents
  dsimp only
  rw [next, if_neg (by omega)]
  exact Balanced.nil.locked (by decide)

/-- A base allocation that does not fit the base region asks for one chunk. -/
theorem baseAllocEvents_of_full {size : Nat} (region : BaseRegion c p)
    (nonempty : 0 < cachelineCeiling size) (small : cachelineCeiling size < c.chunksize)
    (full : p.basePastAddr < p.baseNextAddr + cachelineCeiling size) :
    baseAllocEvents c p size =
      locked (.baseMtx .pool) (chunkAllocBaseEvents c p c.chunksize) := by
  unfold baseAllocEvents
  dsimp only
  rw [if_pos (region.too_long small full), chunkCeiling_of_le nonempty (le_of_lt small)]

/-- A base allocation that uses the smallest extent up, made while `base_node_mtx` is held. -/
theorem baseAlloc_exact {size : Nat} {held : List Mutex} (trees : FreeTrees c p)
    (region : BaseRegion c p) (first : p.chunksSzad = n :: rest)
    (exact_ : (p.node n).size = c.chunksize)
    (nonempty : 0 < cachelineCeiling size) (small : cachelineCeiling size < c.chunksize)
    (full : p.basePastAddr < p.baseNextAddr + cachelineCeiling size)
    (mine : .baseNodeMtx .pool ∈ held) (free : .chunksMtx .pool ∉ held) :
    holding held (baseAllocEvents c p size) = none := by
  rw [baseAllocEvents_of_full region nonempty small full]
  apply holding_locked_of_none
  apply chunkAllocBase_exact trees first exact_ (List.mem_cons_of_mem _ mine)
  rw [List.mem_cons]
  rintro (same | inside)
  · cases same
  · exact free inside

/-- Without free extents a base allocation leaves it at that. -/
theorem baseAlloc_nil_balanced (size : Nat) (empty : p.chunksSzad = []) :
    Balanced [.baseMtx .pool, .chunksMtx .pool] (baseAllocEvents c p size) ∧
      (baseAlloc c p size).1.chunksSzad = [] := by
  constructor
  · refine Balanced.locked ?_ (by decide)
    split
    · exact chunkAllocBase_nil_balanced empty
    · exact Balanced.nil
  · by_cases full : Word.add p.baseNextAddr (cachelineCeiling size) > p.basePastAddr
    · rw [baseAlloc_nil empty full]
      exact empty
    · unfold baseAlloc
      dsimp only
      rw [if_neg full]
      exact empty

end Smallest

/-! ## `base_node_prealloc` -/

/-- How many more nodes fit the base region. -/
def nodeRoom (c : Config) (p : Pool) : Nat :=
  (p.basePastAddr - p.baseNextAddr) / cachelineCeiling c.sizeofExtentNode

/-- How many nodes fit a chunk. -/
def nodesPerChunk (c : Config) : Nat := c.chunksize / cachelineCeiling c.sizeofExtentNode

/-- How many chunks making `number` nodes takes. -/
def metadataChunks (c : Config) (p : Pool) (number : Nat) : Nat :=
  (number - nodeRoom c p + (nodesPerChunk c - 1)) / nodesPerChunk c

/-- Making `number` nodes uses the smallest free extent up. -/
def Reentered (c : Config) (p : Pool) (number : Nat) : Prop :=
  match p.chunksSzad with
  | [] => False
  | n :: _ => (p.node n).size / c.chunksize ≤ metadataChunks c p number

section Prealloc

variable {c : Config} {p p' : Pool} {n : Nat} {rest : List Nat}

theorem reentered_cons {number : Nat} (first : p.chunksSzad = n :: rest) :
    Reentered c p number ↔ (p.node n).size / c.chunksize ≤ metadataChunks c p number := by
  unfold Reentered
  rw [first]

/-- A node is smaller than a chunk. -/
theorem Config.Fits.node_small (fits : c.Fits) :
    0 < cachelineCeiling c.sizeofExtentNode ∧
      cachelineCeiling c.sizeofExtentNode < c.chunksize := by
  have metadata := fits.metadata
  have request : BaseRequest c c.sizeofExtentNode := fits.baseRequest (by simp)
  have nonempty := request.nonempty
  have lower := request.le_ceiling
  omega

theorem Config.Fits.nodesPerChunk_pos (fits : c.Fits) : 0 < nodesPerChunk c :=
  Nat.div_pos (le_of_lt fits.node_small.2) fits.node_small.1

/-- Making a node in the base region leaves room for one less. -/
theorem metadataChunks_of_room (number : Nat) (fits : c.Fits)
    (room : p.baseNextAddr + cachelineCeiling c.sizeofExtentNode ≤ p.basePastAddr)
    (next : p'.baseNextAddr = p.baseNextAddr + cachelineCeiling c.sizeofExtentNode)
    (past : p'.basePastAddr = p.basePastAddr) :
    metadataChunks c p' number = metadataChunks c p (number + 1) := by
  have one : nodeRoom c p = nodeRoom c p' + 1 := by
    unfold nodeRoom
    rw [next, past, Nat.sub_add_eq]
    exact Nat.div_eq_sub_div fits.node_small.1 (by omega)
  unfold metadataChunks
  rw [one, Nat.add_sub_add_right]

/-- Without room in the base region the next node takes a chunk. -/
theorem metadataChunks_of_full (number : Nat) (fits : c.Fits)
    (full : p.basePastAddr < p.baseNextAddr + cachelineCeiling c.sizeofExtentNode) :
    metadataChunks c p (number + 1) = number / nodesPerChunk c + 1 := by
  have positive := fits.nodesPerChunk_pos
  obtain ⟨nodePositive, _⟩ := fits.node_small
  have none : nodeRoom c p = 0 := Nat.div_eq_of_lt (by omega)
  unfold metadataChunks
  rw [none, Nat.sub_zero, show number + 1 + (nodesPerChunk c - 1) = number + nodesPerChunk c by
    omega, Nat.add_div_right _ positive]

/-- After the first node in a new chunk. -/
theorem metadataChunks_of_chunk {addr : Nat} (number : Nat) (fits : c.Fits)
    (next : p.baseNextAddr = addr + cachelineCeiling c.sizeofExtentNode)
    (past : p.basePastAddr = addr + c.chunksize) :
    metadataChunks c p number = number / nodesPerChunk c := by
  obtain ⟨nodePositive, small⟩ := fits.node_small
  have positive := fits.nodesPerChunk_pos
  have left : nodeRoom c p = nodesPerChunk c - 1 := by
    have whole := Nat.div_eq_sub_div nodePositive (le_of_lt small)
    unfold nodeRoom nodesPerChunk
    rw [next, past, Nat.add_sub_add_left, whole, Nat.add_sub_cancel]
  unfold metadataChunks
  rw [left]
  by_cases few : number < nodesPerChunk c
  · rw [Nat.div_eq_of_lt few, Nat.div_eq_of_lt (by omega)]
  · rw [Nat.sub_add_cancel (by omega)]

/-- Without free extents making nodes never gives one back. -/
theorem preallocLoop_nil (empty : p.chunksSzad = []) (number : Nat) :
    Balanced [.baseMtx .pool, .chunksMtx .pool] (preallocLoopEvents c p number) ∧
      (baseNodePrealloc c p number).1.chunksSzad = [] := by
  induction number generalizing p with
  | zero => exact ⟨Balanced.nil, empty⟩
  | succ number inductionHypothesis =>
      obtain ⟨balanced, still⟩ := baseAlloc_nil_balanced (c := c) c.sizeofExtentNode empty
      unfold preallocLoopEvents baseNodePrealloc
      cases result : baseAlloc c p c.sizeofExtentNode with
      | mk q ret =>
          rw [result] at still
          cases ret with
          | none => exact ⟨balanced.append Balanced.nil, still⟩
          | some ret =>
              obtain ⟨others, last⟩ := inductionHypothesis (p := q.addNodes 1) still
              exact ⟨balanced.append others, last⟩

/-- The first step of making nodes when it succeeds. -/
theorem preallocLoop_succ {number ret : Nat}
    (result : baseAlloc c p c.sizeofExtentNode = (p', some ret)) :
    preallocLoopEvents c p (number + 1) =
      baseAllocEvents c p c.sizeofExtentNode ++ preallocLoopEvents c (p'.addNodes 1) number := by
  rw [preallocLoopEvents, result]
  rfl

/-- What a thread that holds `held` does if something is wrong, and if nothing is. -/
structure Outcome (held : List Mutex) (wrong : Prop) (events : Events) : Prop where
  fails : wrong → holding held events = none
  keeps : ¬wrong → holding held events = some held

theorem Outcome.after {held uses : List Mutex} {wrong wrong' : Prop} {first second : Events}
    (balanced : Balanced uses first) (free : ∀ m ∈ uses, m ∉ held) (same : wrong' ↔ wrong)
    (outcome : Outcome held wrong second) : Outcome held wrong' (first ++ second) := by
  have start := balanced.keeps held free
  constructor
  · intro bad
    rw [holding_append, start]
    exact outcome.fails (same.mp bad)
  · intro good
    rw [holding_append, start]
    exact outcome.keeps fun bad => good (same.mpr bad)

/-- Nothing is wrong with balanced events. -/
theorem Outcome.of_balanced {uses : List Mutex} {wrong : Prop} {events : Events}
    (good : ¬wrong) (balanced : Balanced uses events) : Outcome [] wrong events :=
  ⟨fun bad => absurd bad good, fun _ => balanced.disciplined⟩

theorem Outcome.disciplined_iff {wrong : Prop} {events : Events}
    (outcome : Outcome [] wrong events) : Disciplined events ↔ ¬wrong := by
  constructor
  · intro settled bad
    have fails := outcome.fails bad
    unfold Disciplined at settled
    rw [fails] at settled
    cases settled
  · exact outcome.keeps

/-- Making no node does nothing. -/
theorem not_reentered_zero (fits : c.Fits) (trees : FreeTrees c p) : ¬Reentered c p 0 := by
  have positive := fits.nodesPerChunk_pos
  cases order : p.chunksSzad with
  | nil =>
      unfold Reentered
      rw [order]
      exact not_false
  | cons n rest =>
      have member : n ∈ p.chunksAd := trees.mem_szad.mp (order ▸ List.mem_cons_self)
      have extent := trees.extent n member
      have one : 0 < (p.node n).size / c.chunksize :=
        Nat.div_pos (Nat.le_of_dvd extent.nonempty extent.size_dvd) c.chunksize_pos
      have none : metadataChunks c p 0 = 0 := Nat.div_eq_of_lt (by omega)
      rw [reentered_cons order]
      omega

/-- Making nodes under `base_node_mtx`: the thread comes back to that mutex exactly if the
smallest extent is used up. -/
theorem preallocLoop_outcome (held : List Mutex) {nodes : List Nat} (fits : c.Fits)
    (trees : FreeTrees c p) (numbered : NodesNumbered p nodes) (region : BaseRegion c p)
    (mine : .baseNodeMtx .pool ∈ held)
    (free : ∀ m ∈ [Mutex.baseMtx .pool, .chunksMtx .pool], m ∉ held) (number : Nat) :
    Outcome held (Reentered c p number) (preallocLoopEvents c p number) := by
  obtain ⟨nonempty, small⟩ := fits.node_small
  have request : BaseRequest c c.sizeofExtentNode := fits.baseRequest (by simp)
  induction number generalizing p with
  | zero => exact ⟨fun bad => absurd bad (not_reentered_zero fits trees), fun _ => rfl⟩
  | succ number inductionHypothesis =>
      have regular : ∀ q ret, baseAlloc c p c.sizeofExtentNode = (q, some ret) →
          BaseRegion c q →
          Outcome held (Reentered c (q.addNodes 1) number)
            (preallocLoopEvents c (q.addNodes 1) number) := by
        intro q ret result region'
        have step := baseAlloc_step trees numbered.apart request
        rw [result] at step
        have made := step.trans (BaseStep.of_node step.change.trees)
        exact inductionHypothesis made.change.trees (numbered.change made.change)
          ⟨region'.order, region'.below⟩
      by_cases room : p.baseNextAddr + cachelineCeiling c.sizeofExtentNode ≤ p.basePastAddr
      · have result : baseAlloc c p c.sizeofExtentNode =
            (p.advance (cachelineCeiling c.sizeofExtentNode), some p.baseNextAddr) :=
          baseAlloc_of_room
            (lt_of_lt_of_le (Nat.lt_add_of_pos_right c.chunksize_pos) region.below) room
        rw [preallocLoop_succ result]
        refine Outcome.after (baseAlloc_room_balanced region room) free ?_
          (regular _ _ result ⟨room, region.below⟩)
        have same : metadataChunks c ((p.advance
            (cachelineCeiling c.sizeofExtentNode)).addNodes 1) number =
              metadataChunks c p (number + 1) := metadataChunks_of_room number fits room rfl rfl
        unfold Reentered
        rw [same]
        rfl
      · have full : p.basePastAddr < p.baseNextAddr + cachelineCeiling c.sizeofExtentNode := by
          omega
        cases order : p.chunksSzad with
        | nil =>
            have settled := (preallocLoop_nil (c := c) order (number + 1)).1.keeps held free
            refine ⟨fun bad => ?_, fun _ => settled⟩
            unfold Reentered at bad
            rw [order] at bad
            exact bad.elim
        | cons n rest =>
            have member : n ∈ p.chunksAd := trees.mem_szad.mp (order ▸ List.mem_cons_self)
            have extent := trees.extent n member
            have last := extent.last
            have takes := metadataChunks_of_full number fits full
            rcases Nat.eq_or_lt_of_le (Nat.le_of_dvd extent.nonempty extent.size_dvd) with
              equal | longer
            · have wrong := baseAlloc_exact trees region order equal.symm nonempty small full mine
                (free _ (List.mem_cons_of_mem _ List.mem_cons_self))
              refine ⟨fun _ => ?_, fun good => absurd ?_ good⟩
              · rw [preallocLoopEvents, holding_append, wrong]
                rfl
              · rw [reentered_cons order, takes, ← equal, Nat.div_self c.chunksize_pos]
                exact Nat.le_add_left ..
            · obtain ⟨q, result, taken, next, past⟩ :=
                baseAlloc_first trees region order nonempty small full
              obtain ⟨order', size', _⟩ := taken.cut longer
              have balanced : Balanced [.baseMtx .pool, .chunksMtx .pool]
                  (baseAllocEvents c p c.sizeofExtentNode) := by
                rw [baseAllocEvents_of_full region nonempty small full]
                exact (chunkAllocBase_cut_balanced trees order longer).locked (by decide)
              rw [preallocLoop_succ result]
              refine Outcome.after balanced free ?_
                (regular q _ result ⟨by omega, by omega⟩)
              have after := metadataChunks_of_chunk (p := q.addNodes 1) number fits
                next past
              have fewer : (p.node n).size / c.chunksize =
                  ((q.addNodes 1).node n).size / c.chunksize + 1 := by
                change _ = (q.node n).size / c.chunksize + 1
                rw [size']
                exact Nat.div_eq_sub_div c.chunksize_pos (le_of_lt longer)
              rw [reentered_cons order, reentered_cons (p := q.addNodes 1) order', takes, after,
                fewer]
              omega

/-- `base_node_prealloc` by a thread that holds none of the mutexes of the pool. -/
theorem baseNodePrealloc_outcome {nodes : List Nat} (fits : c.Fits) (trees : FreeTrees c p)
    (numbered : NodesNumbered p nodes) (region : BaseRegion c p) (number : Nat) :
    Outcome [] (Reentered c p number) (baseNodePreallocEvents c p number) := by
  have outcome := preallocLoop_outcome [.baseNodeMtx .pool] fits trees numbered region
    List.mem_cons_self (by decide) number
  exact {
    fails := fun bad => holding_locked_of_none (outcome.fails bad)
    keeps := fun good => holding_locked_of_some List.not_mem_nil (outcome.keeps good) }

/-- `base_node_prealloc` without free extents. -/
theorem baseNodePrealloc_nil (empty : p.chunksSzad = []) (number : Nat) :
    Balanced baseUses (baseNodePreallocEvents c p number) := by
  refine ((preallocLoop_nil empty number).1.locked (by decide)).mono ?_
  decide

/-- Nodes are missing only without free extents. -/
theorem baseNodePrealloc_missing {nodes : List Nat} (fits : c.Fits) (trees : FreeTrees c p)
    (numbered : NodesNumbered p nodes) (number : Nat)
    (missing : 0 < (baseNodePrealloc c p number).2) :
    (baseNodePrealloc c p number).1.chunksSzad = [] := by
  obtain ⟨nonempty, small⟩ := fits.node_small
  have request : BaseRequest c c.sizeofExtentNode := fits.baseRequest (by simp)
  induction number generalizing p with
  | zero => exact absurd missing (lt_irrefl 0)
  | succ number inductionHypothesis =>
      unfold baseNodePrealloc at missing ⊢
      rcases baseAlloc_cases trees numbered.apart request with ⟨q, ret, result, step⟩ | result
      · rw [result] at missing ⊢
        have made := step.trans (BaseStep.of_node step.change.trees)
        exact inductionHypothesis made.change.trees (numbered.change made.change) missing
      · rw [result]
        exact baseAlloc_failed trees nonempty (le_of_lt small) (by rw [result])

end Prealloc

/-! ## The calls -/

/-- The mutexes of a pool. -/
def poolUses : List Mutex := .memoryRangeMtx .pool :: baseUses

/-- The base allocator uses fewer mutexes than the whole pool. -/
theorem of_baseUses {events : Events} (balanced : Balanced baseUses events) :
    Balanced poolUses events :=
  balanced.mono fun _ member => List.mem_cons_of_mem _ member

section Calls

variable {c : Config} {p : Pool} {nodes : List Nat}

theorem poolExtendFinish_balanced (c : Config) (p : Pool) (addr size start : Nat)
    (zeroed : Bool) : Balanced poolUses (poolExtendFinishEvents c p addr size start zeroed) :=
  ((chunkRecord_balanced ..).mono fun _ member => List.mem_cons_of_mem _ member).locked
    (by decide)

theorem poolExtendFallback_balanced (empty : p.chunksSzad = []) (missing : Nat)
    (node : Option Nat) (addr size : Nat) (zeroed : Bool) :
    Balanced poolUses (poolExtendFallbackEvents c p missing node addr size zeroed) := by
  unfold poolExtendFallbackEvents
  dsimp only
  refine Balanced.append (Balanced.append (Balanced.append ?_ ?_) ?_)
    (poolExtendFinish_balanced ..)
  · exact (Balanced.nil.locked List.not_mem_nil).mono (by decide)
  · split
    · exact of_baseUses (baseNodePrealloc_nil (p := { p with
        baseNextAddr := cachelineCeiling addr
        basePastAddr := Word.add addr size }) empty missing)
    · exact Balanced.nil
  · split
    · exact of_baseUses (baseAlloc_balanced ..)
    · exact Balanced.nil

/-- What `je_pool_extend` does once the nodes are made. -/
theorem poolExtend_rest_balanced (fits : c.Fits) (trees : FreeTrees c p)
    (numbered : NodesNumbered p nodes) (number addr size : Nat) (zeroed : Bool) :
    let prealloc := baseNodePrealloc c p number
    let range := baseAlloc c prealloc.1 c.sizeofRangeNode
    Balanced poolUses
      (baseAllocEvents c prealloc.1 c.sizeofRangeNode ++
        if 0 < prealloc.2 ∨ range.2 = none then
          poolExtendFallbackEvents c range.1 prealloc.2 range.2 addr size zeroed
        else poolExtendFinishEvents c range.1 addr size addr zeroed) := by
  have metadata := fits.metadata
  have nodeRequest : BaseRequest c c.sizeofExtentNode := fits.baseRequest (by simp)
  have rangeRequest : BaseRequest c c.sizeofRangeNode := fits.baseRequest (by simp)
  have positive := rangeRequest.nonempty
  have lower := rangeRequest.le_ceiling
  have step := baseNodePrealloc_step nodeRequest number trees numbered
  dsimp only
  refine (of_baseUses (baseAlloc_balanced ..)).append ?_
  split
  · rename_i short
    apply poolExtendFallback_balanced
    apply (baseAlloc_nil_balanced _ _).2
    rcases short with missing | failed
    · exact baseNodePrealloc_missing fits trees numbered number missing
    · exact baseAlloc_failed step.change.trees (by omega) (by omega) failed
  · exact poolExtendFinish_balanced ..

theorem jePoolExtend_outcome (fits : c.Fits) (trees : FreeTrees c p)
    (numbered : NodesNumbered p nodes) (region : BaseRegion c p) (addr size : Nat)
    (zeroed : Bool) :
    Outcome [] (c.poolMinimalSize ≤ size ∧ Reentered c p (size / c.chunksize))
      (jePoolExtendEvents c p addr size zeroed) := by
  unfold jePoolExtendEvents
  by_cases short : size < c.poolMinimalSize
  · rw [if_pos short]
    exact ⟨fun bad => absurd bad.1 (not_le.mpr short), fun _ => rfl⟩
  · rw [if_neg short]
    dsimp only
    rw [List.append_assoc]
    have first := baseNodePrealloc_outcome fits trees numbered region (size / c.chunksize)
    have others := poolExtend_rest_balanced fits trees numbered (size / c.chunksize) addr size
      zeroed
    constructor
    · intro bad
      rw [holding_append, first.fails bad.2]
      rfl
    · intro good
      rw [holding_append, first.keeps fun bad => good ⟨not_lt.mp short, bad⟩]
      exact others.keeps [] fun _ _ => List.not_mem_nil

/-- Base allocations without free extents leave it at that. -/
theorem baseAllocAll_nil (empty : p.chunksSzad = []) (sizes : List Nat) :
    (baseAllocAll c p sizes).1.chunksSzad = [] := by
  induction sizes generalizing p with
  | nil => exact empty
  | cons size sizes inductionHypothesis =>
      have still := (baseAlloc_nil_balanced (c := c) size empty).2
      unfold baseAllocAll
      cases result : baseAlloc c p size with
      | mk q ret =>
          rw [result] at still
          cases ret with
          | none => exact still
          | some ret => exact inductionHypothesis still

/-- A pool that is being created has no free extents until the last step. -/
theorem poolCreateEmpty_balanced (c : Config) (mem : Nat → UInt8) (addr size : Nat)
    (zeroed locksFail : Bool) :
    Balanced poolUses (poolCreateEmptyEvents c mem addr size zeroed locksFail) := by
  have blank : (poolBlank c mem addr size).chunksSzad = [] := rfl
  unfold poolCreateEmptyEvents
  split
  · exact Balanced.nil
  dsimp only
  refine (of_baseUses (baseAllocAll_balanced ..)).append ?_
  have first := baseAllocAll_nil (c := c) blank c.poolNewAllocs
  cases result : baseAllocAll c (poolBlank c mem addr size) c.poolNewAllocs with
  | mk p complete =>
      rw [result] at first
      cases complete with
      | false => exact Balanced.nil
      | true =>
          have second := baseAllocAll_nil (c := c) first c.arenaAllocs
          dsimp only
          refine Balanced.append (Balanced.append (Balanced.append ?_ ?_) ?_) ?_
          · exact of_baseUses (baseAllocAll_balanced ..)
          · exact of_baseUses (baseNodePrealloc_nil second _)
          · exact of_baseUses (baseAlloc_balanced ..)
          · split
            · exact Balanced.nil
            · refine Balanced.append ?_ (of_baseUses (of_chunkUses (chunkRecord_balanced ..)))
              exact (Balanced.nil.locked List.not_mem_nil).mono (by decide)

/-- The mutexes that `je_pool_create` takes besides `pools_lock`. -/
def createUses : List Mutex := .baseMtx .basePool :: .chunksMtx .basePool :: poolUses

/-- `je_pool_create` with these arguments gets as far as `pool_create_empty` or `pool_open`. -/
def SlotFound (c : Config) (base : Nat) (r : Registry) (addr size : Nat) (faults : CreateFaults) :
    Prop :=
  faults.init = false ∧ addr ≠ 0 ∧ c.poolMinimalSize ≤ size ∧
    match mallocInitBasePool base r faults.basePool with
    | (_, true) => False
    | (r, false) =>
        growPools r (unusedId 1 (r.pools.drop 1)) faults.grow ≠ none ∧
          unusedId 1 (r.pools.drop 1) ≠ poolsMax

/-- Allocations from the base pool. -/
theorem systemAllocs_balanced (outcomes : List SystemAlloc) :
    Balanced createUses (outcomes.flatMap systemAllocEvents) := by
  induction outcomes with
  | nil => exact Balanced.nil
  | cons outcome outcomes inductionHypothesis =>
      rw [List.flatMap_cons]
      exact ((systemAlloc_balanced outcome).mono (by decide)).append inductionHypothesis

/-- `pool_open` with `pools_lock` held: the second unlock is one too many. -/
theorem poolOpen_unlocks_twice (held : List Mutex) (free : .poolsLock ∉ held) {first : Events}
    (balanced : Balanced createUses first) (unheld : ∀ m ∈ createUses, m ∉ held) :
    holding held (locked .poolsLock (first ++ poolOpenEvents true)) = none := by
  rw [holding_locked free, holding_append, balanced.keeps]
  · change (holding (.poolsLock :: held) [.release .poolsLock]).bind
      (fun rest => holding rest [.release .poolsLock]) = none
    rw [holding_release]
    change (if Mutex.poolsLock ∈ held then _ else none) = none
    rw [if_neg free]
  · intro m member inside
    rcases List.mem_cons.mp inside with rfl | mine
    · exact absurd member (by decide)
    · exact unheld m member mine

/-- `je_pool_create` after the base pool is set up: the section under `pools_lock`. -/
theorem createSection_outcome (r : Registry) (growFails : Bool) {id : Nat} {grow creates : Events}
    (growBalanced : Balanced createUses grow)
    (createsBalanced : Balanced createUses creates) (empty fails : Bool) :
    Outcome []
      ((growPools r id growFails ≠ none ∧ id ≠ poolsMax) ∧ empty = false ∧ fails = true)
      (locked .poolsLock (grow ++
        match growPools r id growFails with
        | none => []
        | some _ =>
            if id = poolsMax then []
            else if empty then creates
            else poolOpenEvents fails)) := by
  have free : Mutex.poolsLock ∉ createUses := by decide
  cases growPools r id growFails with
  | none =>
      refine .of_balanced (fun bad => bad.1.1 rfl) (Balanced.locked ?_ free)
      exact growBalanced.append Balanced.nil
  | some grown =>
      dsimp only
      by_cases last : id = poolsMax
      · rw [if_pos last]
        refine .of_balanced (fun bad => bad.1.2 last) (Balanced.locked ?_ free)
        exact growBalanced.append Balanced.nil
      rw [if_neg last]
      cases empty with
      | true =>
          refine .of_balanced (fun bad => Bool.noConfusion bad.2.1) (Balanced.locked ?_ free)
          exact growBalanced.append createsBalanced
      | false =>
          cases fails with
          | true =>
              refine ⟨fun _ => ?_,
                fun good => absurd ⟨⟨Option.some_ne_none _, last⟩, rfl, rfl⟩ good⟩
              exact poolOpen_unlocks_twice [] List.not_mem_nil growBalanced
                fun _ _ => List.not_mem_nil
          | false =>
              refine .of_balanced (fun bad => Bool.noConfusion bad.2.2) (Balanced.locked ?_ free)
              exact growBalanced.append Balanced.nil

theorem jePoolCreate_outcome (c : Config) (base : Nat) (r : Registry) (mem : Nat → UInt8)
    (addr size : Nat) (zeroed empty : Bool) (faults : CreateFaults) (allocs : BasePoolAllocs) :
    Outcome [] (SlotFound c base r addr size faults ∧ empty = false ∧ faults.poolNew = true)
      (jePoolCreateEvents c base r mem addr size zeroed empty faults allocs) := by
  have nothing : Balanced createUses ([] : Events) := Balanced.nil
  unfold jePoolCreateEvents SlotFound
  cases faults.init with
  | true =>
      exact .of_balanced (fun bad => Bool.noConfusion bad.1.1) nothing
  | false =>
      rw [if_neg Bool.false_ne_true]
      by_cases refused : addr = 0 ∨ size < c.poolMinimalSize
      · rw [if_pos refused]
        refine .of_balanced ?_ nothing
        rintro ⟨⟨-, nonnull, long, -⟩, -⟩
        rcases refused with null | short
        · exact nonnull null
        · omega
      rw [if_neg refused]
      obtain ⟨nonnull, long⟩ := not_or.mp refused
      have boot : Balanced createUses (if r.basePoolInitialized then []
          else allocs.boot.flatMap systemAllocEvents) := by
        split
        · exact Balanced.nil
        · exact systemAllocs_balanced _
      cases mallocInitBasePool base r faults.basePool with
      | mk r' failed =>
          cases failed with
          | true =>
              exact .of_balanced (fun bad => bad.1.2.2.2) (boot.append Balanced.nil)
          | false =>
              dsimp only
              refine Outcome.after boot (fun _ _ => List.not_mem_nil) ?_
                (createSection_outcome r' faults.grow ?_
                  ((poolCreateEmpty_balanced ..).mono (by decide)) empty faults.poolNew)
              · exact ⟨fun bad => ⟨bad.1.2.2.2, bad.2⟩,
                  fun bad => ⟨⟨rfl, nonnull, not_lt.mp long, bad.1⟩, bad.2⟩⟩
              · split
                · exact (systemAlloc_balanced _).mono (by decide)
                · exact Balanced.nil

/-- The calls that keep the discipline in a given state. -/
def PoolCall.Proper (c : Config) (base : Nat) (r : Registry) (p : Pool) : PoolCall → Prop
  | .create _ addr size _ empty faults _ =>
      ¬(SlotFound c base r addr size faults ∧ empty = false ∧ faults.poolNew = true)
  | .delete _ => True
  | .extend _ size _ => ¬(c.poolMinimalSize ≤ size ∧ Reentered c p (size / c.chunksize))
  | .hugeAlloc .. => True

/-- A thread keeps the lock discipline exactly in the proper calls. -/
theorem PoolCall.disciplined_iff (base : Nat) (r : Registry) (fits : c.Fits)
    (trees : FreeTrees c p) (numbered : NodesNumbered p nodes) (region : BaseRegion c p)
    (call : PoolCall) : Disciplined (call.events c base r p) ↔ call.Proper c base r p := by
  cases call with
  | create mem addr size zeroed empty faults allocs =>
      exact (jePoolCreate_outcome ..).disciplined_iff
  | delete handle =>
      exact iff_of_true (Balanced.nil.locked List.not_mem_nil).disciplined trivial
  | extend addr size zeroed =>
      exact (jePoolExtend_outcome fits trees numbered region addr size zeroed).disciplined_iff
  | hugeAlloc newArena arena size alignment zero rtreeFails =>
      exact iff_of_true (poolHugeAlloc_balanced ..).disciplined trivial

end Calls

end Jemalloc
end Vmem
