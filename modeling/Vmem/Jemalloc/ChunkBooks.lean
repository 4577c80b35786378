import Vmem.Library.Run
import Vmem.Jemalloc.RecycleExact

/-!
# The books on chunks that are handed out

`chunk_register` counts chunks in and, for arenas and huge blocks, enters the first one into
the radix tree `chunks_rtree`; `chunk_dalloc_core` does the reverse.  The nodes of the radix
tree come from the base allocator, which may take chunks of its own meanwhile.  Other threads
take extent nodes away and give them back.

Beside the pool the state records which chunks are handed out, so that the statistics and the
radix tree can be compared with it.

The radix tree is that of a build with `config_ivsalloc`.  What `chunk_recycle` gives back on its
error path is not in the tree, so that a failure of `rtree_set` there makes no difference.
-/

namespace Vmem
namespace Jemalloc

/-- The chunks of a range, by their addresses. -/
def chunksOf (c : Config) (start size : Nat) : List Nat :=
  (List.range (size / c.chunksize)).map fun i => start + i * c.chunksize

/-- One chunk as a span. -/
def chunkSpan (c : Config) (chunk : Nat) : Span := ⟨chunk, c.chunksize⟩

/-- A call of `rtree_set`: the requests for chunks that its base allocations make, and whether
one of these allocations fails. -/
structure RtreeSet where
  requests : List Nat
  fails : Bool

/-- A pool, its radix tree, and who has its chunks and nodes. -/
structure ChunkBooks where
  pool : Pool
  /-- `chunks_rtree`: the value for the base of a chunk. -/
  rtree : Nat → Bool
  /-- Chunks that arenas and huge blocks have. -/
  arena : List Nat
  /-- The first chunks of the ranges that were handed out to them. -/
  bases : List Nat
  /-- Chunks that the base allocator has. -/
  base : List Nat
  /-- Nodes that others hold. -/
  held : List Nat

namespace ChunkBooks

/-- `chunk_alloc_base`. -/
def allocBase (c : Config) (s : ChunkBooks) (size : Nat) : ChunkBooks :=
  match chunkAllocBase c s.pool size with
  | (p, none) => { s with pool := p }
  | (p, some ret) => { s with pool := p, base := chunksOf c ret size ++ s.base }

/-- `rtree_set`. -/
def rtreeSet (c : Config) (s : ChunkBooks) (key : Nat) (value : Bool) (set : RtreeSet) :
    ChunkBooks :=
  let s := set.requests.foldl (allocBase c) s
  if set.fails then s else { s with rtree := Function.update s.rtree key value }

/-- `chunk_dalloc_core`. -/
def dallocCore (c : Config) (s : ChunkBooks) (chunk size : Nat) (set : RtreeSet) : ChunkBooks :=
  let s := s.rtreeSet c chunk false set
  { s with pool := chunkDallocCore c s.pool chunk size }

/-- The chunk that `chunk_recycle` hands to `chunk_dalloc_core` on its error path. -/
def undoneChunk (c : Config) (p : Pool) (newAddr size alignment : Nat) : Option Nat :=
  let allocSize := Word.sub (Word.add size alignment) c.chunksize
  if allocSize < size then none
  else
    match chunkRecycleTake p newAddr size alignment allocSize with
    | none => none
    | some taken =>
        if taken.trailsize ≠ 0 ∧ taken.node = none ∧ taken.pool.baseNodes = [] then
          some taken.ret
        else none

/-- `chunk_alloc_arena`: `set` enters the chunk, `undo` is the call of `rtree_set` that takes
it out again if that fails. -/
def allocArena (c : Config) (s : ChunkBooks) (newAddr size alignment : Nat) (zero : Bool)
    (set undo : RtreeSet) : ChunkBooks :=
  match chunkAllocDefault c s.pool newAddr size alignment zero with
  | (p, none) =>
      match undoneChunk c s.pool newAddr size alignment with
      | none => { s with pool := p }
      | some chunk => { s with pool := p, rtree := Function.update s.rtree chunk false }
  | (p, some (ret, _)) =>
      let s := { s with pool := p }.rtreeSet c ret true set
      match chunkRegister c s.pool size set.fails with
      | (p, true) => { s with pool := p }.dallocCore c ret size undo
      | (p, false) =>
          { s with
            pool := p
            arena := chunksOf c ret size ++ s.arena
            bases := ret :: s.bases }

/-- `chunk_dalloc_default`. -/
def dallocDefault (c : Config) (s : ChunkBooks) (chunk size : Nat) (clear : RtreeSet) :
    ChunkBooks :=
  let s := s.dallocCore c chunk size clear
  { s with
    arena := s.arena.diff (chunksOf c chunk size)
    bases := s.bases.filter fun a => a ∉ chunksOf c chunk size }

end ChunkBooks

/-- What happens to the chunks of a pool. -/
inductive BooksOp
  | allocArena (newAddr size alignment : Nat) (zero : Bool) (set undo : RtreeSet)
  | allocBase (size : Nat)
  | dallocDefault (chunk size : Nat) (clear : RtreeSet)
  /-- Somebody else takes a node from `base_nodes`. -/
  | takeNode
  /-- Somebody else gives a node back. -/
  | giveNode (n : Nat)

namespace ChunkBooks

/-- Execute one operation. -/
def exec (c : Config) (s : ChunkBooks) : BooksOp → Option ChunkBooks
  | .allocArena newAddr size alignment zero set undo =>
      some (s.allocArena c newAddr size alignment zero set undo)
  | .allocBase size => some (s.allocBase c size)
  | .dallocDefault chunk size clear => some (s.dallocDefault c chunk size clear)
  | .takeNode =>
      match baseNodeAlloc s.pool with
      | (p, none) => some { s with pool := p }
      | (p, some n) => some { s with pool := p, held := n :: s.held }
  | .giveNode n => some { s with pool := baseNodeDalloc s.pool n, held := s.held.erase n }

/-- What callers may ask for: whole chunks, and back only what they were handed.  Taking a
chunk out of the radix tree fails only if its leaf does not exist. -/
def Permitted (c : Config) (s : ChunkBooks) : BooksOp → Prop
  | .allocArena _ size alignment _ set undo =>
      Request c size alignment ∧
        ∀ request ∈ set.requests ++ undo.requests, Request c request c.chunksize
  | .allocBase size => Request c size c.chunksize
  | .dallocDefault chunk size clear =>
      ChunkSpan c ⟨chunk, size⟩ ∧ (∀ a ∈ chunksOf c chunk size, a ∈ s.arena) ∧
        (∀ request ∈ clear.requests, Request c request c.chunksize) ∧
        (clear.fails = true → s.rtree chunk = false)
  | .takeNode => True
  | .giveNode n => n ∈ s.held

/-- Steps after which the books are still right: no allocation has to be undone, and no range
is returned that contains the first chunk of another one. -/
def Careful (c : Config) (s : ChunkBooks) : BooksOp → Prop
  | .allocArena newAddr size alignment _ set _ =>
      ¬CutWithoutNode c s.pool newAddr size alignment ∧
        (set.fails = true → ∀ n, ¬ServedBy c s.pool newAddr size alignment n)
  | .dallocDefault chunk size _ => ∀ a ∈ chunksOf c chunk size, a ∈ s.bases → a = chunk
  | _ => True

/-- The books of a new pool. -/
def start (p : Pool) : ChunkBooks := ⟨p, fun _ => false, [], [], [], []⟩

end ChunkBooks

/-! ## Chunks of a range -/

section Chunks

variable {c : Config} {start size : Nat}

theorem length_chunksOf (c : Config) (start size : Nat) :
    (chunksOf c start size).length = size / c.chunksize := by
  unfold chunksOf
  rw [List.length_map, List.length_range]

theorem nodup_chunksOf (c : Config) (start size : Nat) : (chunksOf c start size).Nodup := by
  refine List.Nodup.map ?_ List.nodup_range
  intro i j same
  exact Nat.eq_of_mul_eq_mul_right c.chunksize_pos (Nat.add_left_cancel same)

/-- The first chunk of a range is its start. -/
theorem start_mem_chunksOf (nonempty : 0 < size) (divides : c.chunksize ∣ size) :
    start ∈ chunksOf c start size := by
  have positive : 0 < size / c.chunksize :=
    Nat.div_pos (Nat.le_of_dvd nonempty divides) c.chunksize_pos
  exact List.mem_map.mpr ⟨0, List.mem_range.mpr positive, by rw [Nat.zero_mul, Nat.add_zero]⟩

theorem cover_range_chunks (c : Config) (start count x : Nat) :
    cover (((List.range count).map fun i => start + i * c.chunksize).map (chunkSpan c)) x =
      (Span.mk start (count * c.chunksize)).ind x := by
  induction count with
  | zero =>
      rw [List.range_zero, List.map_nil, List.map_nil, cover_nil, Nat.zero_mul]
      refine (Span.ind_eq_zero_iff.mpr fun inside => ?_).symm
      rw [Span.has_mk] at inside
      omega
  | succ count inductionHypothesis =>
      rw [List.range_succ, List.map_append, List.map_append, cover_append, inductionHypothesis,
        Nat.succ_mul, Span.ind_add]
      simp only [List.map_cons, List.map_nil, cover_cons, cover_nil, Nat.add_zero]
      rfl

/-- The chunks of a range cover exactly the range. -/
theorem cover_chunksOf (divides : c.chunksize ∣ size) (x : Nat) :
    cover ((chunksOf c start size).map (chunkSpan c)) x = (Span.mk start size).ind x := by
  unfold chunksOf
  rw [cover_range_chunks, Nat.div_mul_cancel divides]

/-- Chunks that cover no address twice are fewer than there are words. -/
theorem length_lt_of_cover {chunks : List Nat} {bound : Nat → Nat} (bounded : Bounded bound)
    (covered : ∀ x, cover (chunks.map (chunkSpan c)) x ≤ bound x) :
    chunks.length < Word.modulus := by
  have within : ∀ x, cover (chunks.map (chunkSpan c)) x ≤ cover [⟨0, Word.modulus - 1⟩] x := by
    intro x
    have counted := covered x
    have once := bounded.once x
    by_cases positive : 0 < bound x
    · have below := bounded.below x positive
      have inside : (Span.mk 0 (Word.modulus - 1)).Has x := by
        rw [Span.has_mk]
        omega
      rw [cover_cons, cover_nil, Span.ind_eq_one_iff.mpr inside]
      omega
    · omega
  have total := sum_len_le_of_cover_le within
  have lengths : (chunks.map (chunkSpan c)).map Span.len =
      List.replicate chunks.length c.chunksize := by
    rw [List.map_map]
    exact List.map_const'
  rw [lengths, List.sum_replicate_nat] at total
  simp only [List.map_cons, List.map_nil, List.sum_cons, List.sum_nil, Nat.add_zero] at total
  have : chunks.length * 1 ≤ chunks.length * c.chunksize :=
    Nat.mul_le_mul_left _ c.chunksize_pos
  have := Word.modulus_eq
  omega

end Chunks

/-! ## One step -/

namespace ChunkBooks

variable {c : Config} {bound : Nat → Nat} {s : ChunkBooks} {flight : List Nat}

/-- All chunks that are not free: in flight, with arenas, huge blocks and the base allocator. -/
def taken (s : ChunkBooks) (flight : List Nat) : List Nat := flight ++ s.arena ++ s.base

/-- The books are right while a thread has chunks in flight that are not registered yet. -/
structure Right (c : Config) (bound : Nat → Nat) (s : ChunkBooks) (flight : List Nat) : Prop where
  ledger : Ledger c bound s.pool s.held fun x => cover ((s.taken flight).map (chunkSpan c)) x
  counted : s.pool.curchunks = s.arena.length + s.base.length
  high : s.pool.curchunks ≤ s.pool.highchunks
  rtree : ∀ a, s.rtree a = true ↔ a ∈ s.bases
  bases : ∀ a ∈ s.bases, a ∈ s.arena

namespace Right

/-- The chunks that are not free are few enough to be counted in a word. -/
theorem length_lt (right : s.Right c bound flight) (bounded : Bounded bound) :
    flight.length + s.arena.length + s.base.length < Word.modulus := by
  have covered : ∀ x, cover ((s.taken flight).map (chunkSpan c)) x ≤ bound x := by
    intro x
    have := right.ledger.covers x
    omega
  have few := length_lt_of_cover bounded covered
  unfold taken at few
  rw [List.length_append, List.length_append] at few
  exact few

/-- Another pool with the same statistics. -/
theorem of_pool {p : Pool} {flight' : List Nat} (right : s.Right c bound flight)
    (stats : StatsSame s.pool p)
    (ledger : Ledger c bound p s.held
      fun x => cover ((s.taken flight').map (chunkSpan c)) x) :
    Right c bound { s with pool := p } flight' where
  ledger := ledger
  counted := by
    rw [stats.curchunks]
    exact right.counted
  high := by
    rw [stats.curchunks, stats.highchunks]
    exact right.high
  rtree := right.rtree
  bases := right.bases

/-- A range that is taken out of the free trees is in flight. -/
theorem recycle {newAddr size alignment ret : Nat} {zero zeroOut : Bool} {p : Pool}
    (right : s.Right c bound flight) (request : Request c size alignment)
    (result : chunkRecycle c s.pool newAddr size alignment zero = (p, some (ret, zeroOut))) :
    Right c bound { s with pool := p } (chunksOf c ret size ++ flight) := by
  have trees := right.ledger.trees
  have stats : StatsSame s.pool p := by
    cases chunkRecycle_end trees request newAddr zero with
    | missing _ same =>
        rw [result] at same
        cases same
    | starved _ failed _ =>
        rw [result] at failed
        cases failed
    | served _ _ _ _ stats =>
        rw [result] at stats
        exact stats
  rcases chunkRecycle_cases trees right.ledger.apart request newAddr zero with
    ⟨q, start, flag, same, recycled⟩ | ⟨q, same, _⟩
  · rw [result] at same
    cases same
    refine right.of_pool stats (right.ledger.change (PoolChange.of_section recycled.change) ?_)
    intro x
    unfold taken
    simp only [List.map_append, cover_append, cover_chunksOf request.size_dvd, cover_cons,
      cover_nil]
    omega
  · rw [result] at same
    cases same

/-- A call that finds nothing leaves the books alone. -/
theorem of_missing {newAddr size alignment : Nat} {zero : Bool} {p : Pool}
    (right : s.Right c bound flight) (request : Request c size alignment)
    (whole : ¬CutWithoutNode c s.pool newAddr size alignment)
    (result : chunkRecycle c s.pool newAddr size alignment zero = (p, none)) : p = s.pool := by
  cases chunkRecycle_end right.ledger.trees request newAddr zero with
  | missing _ same =>
      rw [result] at same
      cases same
      rfl
  | starved cut _ _ => exact absurd cut whole
  | served _ _ _ succeeded _ =>
      rw [result] at succeeded
      exact absurd rfl succeeded

/-- Registering counts the chunks in. -/
theorem register {chunks arena base bases : List Nat} {rtree : Nat → Bool} {size : Nat}
    (right : s.Right c bound (chunks ++ flight)) (bounded : Bounded bound)
    (length : chunks.length = size / c.chunksize)
    (perm : (flight ++ arena ++ base).Perm (chunks ++ flight ++ s.arena ++ s.base))
    (tree : ∀ a, rtree a = true ↔ a ∈ bases) (handed : ∀ a ∈ bases, a ∈ arena) :
    Right c bound ⟨(chunkRegister c s.pool size false).1, rtree, arena, bases, base, s.held⟩
      flight := by
  have few := right.length_lt bounded
  have lengths := perm.length_eq
  have counted := right.counted
  simp only [List.length_append] at few lengths
  have sum : Word.add s.pool.curchunks (size / c.chunksize) = arena.length + base.length := by
    rw [Word.add_eq (by omega)]
    omega
  exact {
    ledger := right.ledger.of_contents.of_others fun x => cover_perm (perm.map _) x
    counted := sum
    high := le_max_right ..
    rtree := tree
    bases := handed }

/-- With chunk alignment no extent is cut on both sides. -/
theorem not_cut (right : s.Right c bound flight) (newAddr size : Nat) :
    ¬CutWithoutNode c s.pool newAddr size c.chunksize := by
  rintro ⟨_, n, served, misaligned, _⟩
  exact misaligned (right.ledger.trees.extent n served.2.1.1).addr_dvd

theorem allocBase {size : Nat} (right : s.Right c bound flight) (bounded : Bounded bound)
    (request : Request c size c.chunksize) : (s.allocBase c size).Right c bound flight := by
  unfold ChunkBooks.allocBase chunkAllocBase
  cases result : chunkRecycle c s.pool 0 size c.chunksize false with
  | mk p found =>
      cases found with
      | none =>
          have same := right.of_missing request (right.not_cut 0 size) result
          rw [same]
          exact right
      | some found =>
          obtain ⟨ret, zeroOut⟩ := found
          refine (right.recycle request result).register bounded (length_chunksOf ..) ?_
            right.rtree right.bases
          -- the new chunks move from the front to the chunks of the base allocator
          simp only [List.append_assoc]
          exact ((List.perm_append_comm_assoc ..).append_left flight).trans
            (List.perm_append_comm_assoc ..)

/-- The base allocations of the radix tree. -/
theorem allocBases {requests : List Nat} (right : s.Right c bound flight)
    (bounded : Bounded bound) (valid : ∀ request ∈ requests, Request c request c.chunksize) :
    (requests.foldl (ChunkBooks.allocBase c) s).Right c bound flight ∧
      (requests.foldl (ChunkBooks.allocBase c) s).rtree = s.rtree ∧
      (requests.foldl (ChunkBooks.allocBase c) s).arena = s.arena ∧
      (requests.foldl (ChunkBooks.allocBase c) s).bases = s.bases := by
  induction requests generalizing s with
  | nil => exact ⟨right, rfl, rfl, rfl⟩
  | cons request requests inductionHypothesis =>
      have first := right.allocBase bounded (valid request List.mem_cons_self)
      obtain ⟨rest, rtree, arena, bases⟩ := inductionHypothesis first
        fun other member => valid other (List.mem_cons_of_mem request member)
      have same : (s.allocBase c request).rtree = s.rtree ∧
          (s.allocBase c request).arena = s.arena ∧ (s.allocBase c request).bases = s.bases := by
        unfold ChunkBooks.allocBase
        split
        · exact ⟨rfl, rfl, rfl⟩
        · exact ⟨rfl, rfl, rfl⟩
      exact ⟨rest, rtree.trans same.1, arena.trans same.2.1, bases.trans same.2.2⟩

/-- When no extent is cut without a node, `chunk_recycle` hands nothing back. -/
theorem undoneChunk_eq_none {newAddr size alignment : Nat} (right : s.Right c bound flight)
    (request : Request c size alignment)
    (whole : ¬CutWithoutNode c s.pool newAddr size alignment) :
    undoneChunk c s.pool newAddr size alignment = none := by
  unfold undoneChunk
  dsimp only
  split
  · rfl
  · rename_i passes
    rw [allocSize_eq request passes]
    cases took : chunkRecycleTake s.pool newAddr size alignment
        (size + alignment - c.chunksize) with
    | none => rfl
    | some taken =>
        have cut := cutWithoutNode_iff right.ledger.trees request
          (request.passes_iff.mp passes) took
        exact if_neg fun cuts => whole (cut.mpr cuts)

theorem allocArena {newAddr size alignment : Nat} {zero : Bool} {set undo : RtreeSet}
    (right : s.Right c bound []) (bounded : Bounded bound)
    (allowed : s.Permitted c (.allocArena newAddr size alignment zero set undo))
    (careful : s.Careful c (.allocArena newAddr size alignment zero set undo)) :
    (s.allocArena c newAddr size alignment zero set undo).Right c bound [] := by
  obtain ⟨request, valid⟩ := allowed
  obtain ⟨whole, registers⟩ := careful
  unfold ChunkBooks.allocArena chunkAllocDefault
  cases result : chunkRecycle c s.pool newAddr size alignment zero with
  | mk p found =>
      cases found with
      | none =>
          dsimp only
          rw [right.undoneChunk_eq_none request whole, right.of_missing request whole result]
          exact right
      | some found =>
          obtain ⟨ret, zeroOut⟩ := found
          have succeeds : set.fails = false := by
            cases chunkRecycle_end right.ledger.trees request newAddr zero with
            | missing _ same =>
                rw [result] at same
                cases same
            | starved cut _ _ => exact absurd cut whole
            | served n served _ _ _ =>
                by_contra fails
                exact registers (Bool.not_eq_false _ ▸ fails) n served
          obtain ⟨taken, rtree, arena, bases⟩ := (right.recycle request result).allocBases bounded
            fun request member => valid request (List.mem_append_left _ member)
          dsimp only
          unfold rtreeSet
          rw [succeeds, if_neg Bool.false_ne_true]
          dsimp only at rtree arena bases
          refine taken.register bounded (length_chunksOf ..) ?_ ?_ ?_
          · simp only [List.nil_append, List.append_nil, List.append_assoc]
            exact List.Perm.refl _
          · intro a
            dsimp only
            rw [rtree, bases, List.mem_cons, ← right.rtree a]
            by_cases same : a = ret
            · rw [same, Function.update_self]
              simp
            · rw [Function.update_of_ne same]
              simp [same]
          · intro a member
            dsimp only at member ⊢
            rw [bases] at member
            rw [arena]
            rcases List.mem_cons.mp member with rfl | old
            · exact List.mem_append_left _
                (start_mem_chunksOf request.nonempty request.size_dvd)
            · exact List.mem_append_right _ (right.bases a old)

/-- What arenas have, with the chunks of a range that they return in front. -/
theorem diff_perm {chunk size : Nat} (owned : ∀ a ∈ chunksOf c chunk size, a ∈ s.arena) :
    (chunksOf c chunk size ++ s.arena.diff (chunksOf c chunk size)).Perm s.arena := by
  have within : (chunksOf c chunk size).Subperm s.arena :=
    List.subperm_of_subset (nodup_chunksOf ..) owned
  exact List.subperm_append_diff_self_of_count_le fun a _ => within.count_le a

theorem returned_le {chunk size : Nat} (owned : ∀ a ∈ chunksOf c chunk size, a ∈ s.arena) :
    size / c.chunksize ≤ s.arena.length := by
  have lengths := (diff_perm owned).length_eq
  rw [List.length_append, length_chunksOf] at lengths
  omega

/-- Returning chunks counts them out. -/
theorem dallocDefault {chunk size : Nat} {clear : RtreeSet} (right : s.Right c bound [])
    (bounded : Bounded bound) (allowed : s.Permitted c (.dallocDefault chunk size clear))
    (careful : s.Careful c (.dallocDefault chunk size clear)) :
    (s.dallocDefault c chunk size clear).Right c bound [] := by
  obtain ⟨valid, owned, requests, missing⟩ := allowed
  obtain ⟨after, rtree, arena, bases⟩ := right.allocBases bounded requests
  unfold ChunkBooks.dallocDefault dallocCore rtreeSet
  generalize clear.requests.foldl (ChunkBooks.allocBase c) s = t at after rtree arena bases
  rw [← arena] at owned
  have fewer := returned_le owned
  have perm := diff_perm owned
  have lengths := perm.length_eq
  rw [List.length_append, length_chunksOf] at lengths
  have counted := after.counted
  have few := after.length_lt bounded
  have out := chunkDallocCore_stats c t.pool chunk size
  have curchunks : (chunkDallocCore c t.pool chunk size).curchunks =
      t.pool.curchunks - size / c.chunksize := by
    rw [out.curchunks]
    exact Word.sub_eq (by omega) (by rw [List.length_nil] at few; omega)
  -- the chunks that go back, and those that stay
  have covered : ∀ x, cover ((t.taken []).map (chunkSpan c)) x = (Span.mk chunk size).ind x +
      cover (((t.arena.diff (chunksOf c chunk size)) ++ t.base).map (chunkSpan c)) x := by
    intro x
    have moved := cover_perm ((perm.map (chunkSpan c)).symm) x
    unfold taken
    rw [List.nil_append, List.map_append, cover_append, moved, List.map_append, cover_append,
      cover_chunksOf valid.len_dvd, List.map_append, cover_append, Nat.add_assoc]
  have ledger : Ledger c bound (chunkDallocCore c t.pool chunk size) t.held
      fun x => cover (((t.arena.diff (chunksOf c chunk size)) ++ t.base).map (chunkSpan c)) x := by
    have counted : Ledger c bound
        { t.pool with curchunks := Word.sub t.pool.curchunks (size / c.chunksize) } t.held
        fun x => cover ((t.taken []).map (chunkSpan c)) x := after.ledger.of_contents
    have range := counted.recordable bounded valid fun x => by
      rw [covered x]
      exact Nat.le_add_right ..
    have changed := chunkRecord_section false counted.trees counted.apart range
    rw [chunkDallocCore_record]
    refine counted.change (PoolChange.of_section changed) fun x => ?_
    rw [covered x, cover_cons, cover_nil]
    dsimp only
    omega
  have tree : ∀ a, Function.update t.rtree chunk false a = true ↔
      a ∈ t.bases.filter fun b => b ∉ chunksOf c chunk size := by
    intro a
    rw [List.mem_filter, decide_eq_true_eq]
    by_cases same : a = chunk
    · subst same
      rw [Function.update_self]
      have first : a ∈ chunksOf c a size := start_mem_chunksOf valid.nonempty valid.len_dvd
      exact ⟨fun never => Bool.noConfusion never, fun kept => absurd first kept.2⟩
    · rw [Function.update_of_ne same, after.rtree a]
      refine ⟨fun member => ⟨member, fun inside => ?_⟩, fun kept => kept.1⟩
      rw [bases] at member
      exact same (careful a inside member)
  have handed : ∀ a ∈ t.bases.filter fun b => b ∉ chunksOf c chunk size,
      a ∈ t.arena.diff (chunksOf c chunk size) := by
    intro a kept
    rw [List.mem_filter, decide_eq_true_eq] at kept
    exact List.mem_diff_of_mem (after.bases a kept.1) kept.2
  -- a failing call finds no leaf, so that there is nothing to clear
  have entry : (if clear.fails then t else
      { t with rtree := Function.update t.rtree chunk false }) =
        { t with rtree := Function.update t.rtree chunk false } := by
    by_cases fails : clear.fails = true
    · rw [if_pos fails, Function.update_eq_self_iff.mpr (by rw [rtree]; exact (missing fails).symm)]
    · rw [if_neg fails]
  rw [entry]
  exact {
    ledger := by
      unfold taken
      rw [List.nil_append]
      exact ledger
    counted := by
      change (chunkDallocCore c t.pool chunk size).curchunks =
        (t.arena.diff (chunksOf c chunk size)).length + t.base.length
      rw [curchunks]
      omega
    high := by
      have high := after.high
      change (chunkDallocCore c t.pool chunk size).curchunks ≤
        (chunkDallocCore c t.pool chunk size).highchunks
      rw [curchunks, out.highchunks]
      exact (Nat.sub_le ..).trans high
    rtree := tree
    bases := handed }

/-- A careful step keeps the books right. -/
theorem exec {op : BooksOp} {s' : ChunkBooks} (right : s.Right c bound [])
    (bounded : Bounded bound) (allowed : s.Permitted c op) (careful : s.Careful c op)
    (result : s.exec c op = some s') : s'.Right c bound [] := by
  cases op with
  | allocArena newAddr size alignment zero set undo =>
      cases result
      exact right.allocArena bounded allowed careful
  | allocBase size =>
      cases result
      exact right.allocBase bounded allowed
  | dallocDefault chunk size clear =>
      cases result
      exact right.dallocDefault bounded allowed careful
  | takeNode =>
      unfold ChunkBooks.exec baseNodeAlloc at result
      dsimp only at result
      cases nodes : s.pool.baseNodes with
      | nil =>
          rw [nodes] at result
          cases result
          exact right
      | cons n rest =>
          rw [nodes] at result
          cases result
          exact ⟨right.ledger.takeNode nodes, right.counted, right.high, right.rtree, right.bases⟩
  | giveNode n =>
      cases result
      have perm : (n :: s.held.erase n).Perm s.held := (List.perm_cons_erase allowed).symm
      exact ⟨(right.ledger.of_held_perm perm).giveNode, right.counted, right.high, right.rtree,
        right.bases⟩

/-- The books of a new pool are right. -/
theorem start {addr size : Nat} {mem : Nat → UInt8} {zeroed locksFail : Bool} {p : Pool}
    (fits : c.Fits) (region : Region c addr size)
    (created : poolCreateEmpty c mem addr size zeroed locksFail = some p) :
    Right c (Span.mk (usableAddr c addr size) (usableSize c addr size)).ind (.start p) [] := by
  have counted : p.curchunks = 0 := by
    rw [poolCreateEmpty_registers fits region created]
    unfold registerRange
    rw [(chunkRecord_stats ..).curchunks]
    rfl
  exact {
    ledger := (poolCreateEmpty_fresh fits region created).1.ledger
    counted := counted
    high := by
      change p.curchunks ≤ p.highchunks
      rw [counted]
      exact Nat.zero_le _
    rtree := fun a => by simp [ChunkBooks.start]
    bases := fun a member => absurd member List.not_mem_nil }

end Right

end ChunkBooks

/-! ## Whole runs -/

/-- In every run in which no allocation has to be undone and no range is returned that contains
the first chunk of another one, the statistics and the radix tree are right in every state. -/
theorem chunk_stats_exact {c : Config} {addr size : Nat} {mem : Nat → UInt8}
    {zeroed locksFail : Bool} {p : Pool} {s : ChunkBooks} (fits : c.Fits)
    (region : Region c addr size)
    (created : poolCreateEmpty c mem addr size zeroed locksFail = some p)
    (reached : Reached (fun s op => s.Permitted c op ∧ s.Careful c op) (ChunkBooks.exec c)
      (.start p) s) :
    s.pool.curchunks = s.arena.length + s.base.length ∧
      (∀ chunk size clear, s.Permitted c (.dallocDefault chunk size clear) →
        size / c.chunksize ≤ s.pool.curchunks) ∧
      s.pool.curchunks ≤ s.pool.highchunks ∧
      (∀ a, s.rtree a = true ↔ a ∈ s.bases) ∧ ∀ a ∈ s.bases, a ∈ s.arena := by
  have bounded := bounded_usable fits region
  have right : s.Right c _ [] := reached.invariant (fun s => s.Right c _ [])
    (ChunkBooks.Right.start fits region created)
    fun _ _ _ before allowed result => before.exec bounded allowed.1 allowed.2 result
  have counted := right.counted
  refine ⟨counted, fun chunk size clear allowed => ?_, right.high, right.rtree, right.bases⟩
  have few := ChunkBooks.Right.returned_le allowed.2.1
  omega

/-- A call of `rtree_set` for which no node is missing. -/
def RtreeSet.plain : RtreeSet := ⟨[], false⟩

/-- An arena takes a chunk and returns it. -/
theorem chunk_stats_exact_returned :
    ∃ p s s', poolCreateEmpty defaultConfig (fun _ => 0) 8388608 20971520 true false = some p ∧
      ChunkBooks.exec defaultConfig (.start p)
        (.allocArena 0 4194304 4194304 false .plain .plain) = some s ∧
      ChunkBooks.exec defaultConfig s (.dallocDefault 12582912 4194304 .plain) = some s' ∧
      s.arena = [12582912] ∧ s.pool.curchunks = s.arena.length + s.base.length ∧
      s'.arena = [] ∧ s'.pool.curchunks = s'.arena.length + s'.base.length := by
  have outcome : ((poolCreateEmpty defaultConfig (fun _ => 0) 8388608 20971520 true
      false).bind fun p => (ChunkBooks.exec defaultConfig (.start p)
        (.allocArena 0 4194304 4194304 false .plain .plain)).bind fun s =>
      (ChunkBooks.exec defaultConfig s (.dallocDefault 12582912 4194304 .plain)).map fun s' =>
        (decide (p.baseNodes = []), s.arena, s'.arena)) = some (false, [12582912], []) := by
    decide +kernel
  obtain ⟨p, created, ran⟩ := Option.bind_eq_some_iff.mp outcome
  obtain ⟨s, first, ran⟩ := Option.bind_eq_some_iff.mp ran
  obtain ⟨s', second, values⟩ := Option.map_eq_some_iff.mp ran
  injection values with nodes lists
  injection lists with handed returned
  have region : Region defaultConfig 8388608 20971520 :=
    ⟨by decide +kernel, by decide +kernel, by decide +kernel⟩
  have request : Request defaultConfig 4194304 4194304 :=
    ⟨by decide, by decide +kernel, by decide +kernel, 22, by decide, by decide, by decide⟩
  have chunks : chunksOf defaultConfig 12582912 4194304 = [12582912] := by decide +kernel
  have takes : (ChunkBooks.start p).Permitted defaultConfig
      (.allocArena 0 4194304 4194304 false .plain .plain) :=
    ⟨request, fun _ member => absurd member List.not_mem_nil⟩
  have finds : (ChunkBooks.start p).Careful defaultConfig
      (.allocArena 0 4194304 4194304 false .plain .plain) :=
    ⟨fun cut => of_decide_eq_false nodes cut.1, fun fails => Bool.noConfusion fails⟩
  have gives : s.Permitted defaultConfig (.dallocDefault 12582912 4194304 .plain) := by
    refine ⟨⟨by decide, by decide +kernel, by decide +kernel⟩, ?_,
      fun _ member => absurd member List.not_mem_nil, fun fails => Bool.noConfusion fails⟩
    rw [chunks, handed]
    exact fun _ member => member
  have alone : s.Careful defaultConfig (.dallocDefault 12582912 4194304 .plain) := by
    intro a inside _
    rw [chunks] at inside
    exact List.mem_singleton.mp inside
  have reached : Reached (fun s op => s.Permitted defaultConfig op ∧ s.Careful defaultConfig op)
      (ChunkBooks.exec defaultConfig) (.start p) s :=
    Reached.next Reached.start ⟨takes, finds⟩ first
  exact ⟨p, s, s', created, first, second, handed,
    (chunk_stats_exact defaultConfig_fits region created reached).1, returned,
    (chunk_stats_exact defaultConfig_fits region created
      (Reached.next reached ⟨gives, alone⟩ second)).1⟩

/-- A chunk cannot be entered into the radix tree and is counted out although it was never
counted in.  And a range that was extended by a second one is returned as a whole: the first
chunk of the second one stays in the radix tree. -/
theorem chunk_stats_wrong :
    ∃ p s t, poolCreateEmpty defaultConfig (fun _ => 0) 8388608 20971520 true false = some p ∧
      Reached (ChunkBooks.Permitted defaultConfig) (ChunkBooks.exec defaultConfig) (.start p) s ∧
      s.pool.curchunks ≠ s.arena.length + s.base.length ∧
      Reached (ChunkBooks.Permitted defaultConfig) (ChunkBooks.exec defaultConfig) (.start p) t ∧
      ¬∀ a, t.rtree a = true ↔ a ∈ t.bases := by
  have outcome : ((poolCreateEmpty defaultConfig (fun _ => 0) 8388608 20971520 true
      false).bind fun p => (ChunkBooks.exec defaultConfig (.start p)
        (.allocArena 0 4194304 4194304 false ⟨[], true⟩ .plain)).bind fun s =>
      (ChunkBooks.exec defaultConfig (.start p)
        (.allocArena 0 4194304 4194304 false .plain .plain)).bind fun first =>
      (ChunkBooks.exec defaultConfig first
        (.allocArena 16777216 4194304 4194304 false .plain .plain)).bind fun second =>
      (ChunkBooks.exec defaultConfig second (.dallocDefault 12582912 8388608 .plain)).map fun t =>
        (s.pool.curchunks, s.arena.length + s.base.length, second.arena, t.rtree 16777216,
          t.bases)) =
      some (18446744073709551615, 0, [16777216, 12582912], true, []) := by
    decide +kernel
  obtain ⟨p, created, ran⟩ := Option.bind_eq_some_iff.mp outcome
  obtain ⟨s, failed, ran⟩ := Option.bind_eq_some_iff.mp ran
  obtain ⟨first, taken, ran⟩ := Option.bind_eq_some_iff.mp ran
  obtain ⟨second, extended, ran⟩ := Option.bind_eq_some_iff.mp ran
  obtain ⟨t, returned, values⟩ := Option.map_eq_some_iff.mp ran
  injection values with count values
  injection values with nothing values
  injection values with handed values
  injection values with entry bases
  have request : Request defaultConfig 4194304 4194304 :=
    ⟨by decide, by decide +kernel, by decide +kernel, 22, by decide, by decide, by decide⟩
  have takes : ∀ (state : ChunkBooks) (newAddr : Nat) (fails : Bool),
      state.Permitted defaultConfig
        (.allocArena newAddr 4194304 4194304 false ⟨[], fails⟩ .plain) :=
    fun _ _ _ => ⟨request, fun _ member => absurd member List.not_mem_nil⟩
  have gives : second.Permitted defaultConfig (.dallocDefault 12582912 8388608 .plain) := by
    refine ⟨⟨by decide, by decide +kernel, by decide +kernel⟩, ?_,
      fun _ member => absurd member List.not_mem_nil, fun fails => Bool.noConfusion fails⟩
    have chunks : chunksOf defaultConfig 12582912 8388608 = [12582912, 16777216] := by
      decide +kernel
    rw [chunks, handed]
    decide
  refine ⟨p, s, t, created, Reached.next Reached.start (takes _ 0 true) failed, ?_,
    Reached.next (Reached.next (Reached.next Reached.start (takes _ 0 false) taken)
      (takes _ 16777216 false) extended) gives returned, fun right => ?_⟩
  · rw [count, nothing]
    decide
  · have member := (right 16777216).mp entry
    rw [bases] at member
    exact absurd member List.not_mem_nil

end Jemalloc
end Vmem
