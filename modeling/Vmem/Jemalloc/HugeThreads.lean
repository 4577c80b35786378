import Vmem.Jemalloc.Ledger

/-!
# Threads that work on the huge blocks of one pool

Every section of `chunk.c`, `huge.c` and `base.c` that runs under `chunks_mtx`,
`huge_mtx` or `base_node_mtx` is one step; between two steps of a thread any
number of steps of other threads may happen.  Where a thread stands is a value
of `Pc`; what a thread does once chunks are allocated or returned is written
as a continuation.

A step is given whether the call it makes fails although it need not:
`base_node_alloc` in the steps that ask for a node, `rtree_set` in
`chunk_register`.
-/

namespace Vmem
namespace Jemalloc

/-- What a thread does with the result of `arena_chunk_alloc_huge`. -/
inductive AllocCont
  /-- In `huge_palloc`, with its node in hand. -/
  | palloc (n arena csize : Nat) (zero : Bool)
  /-- In `huge_ralloc_no_move_expand`; `retry` is the size without extra, when
  there is a second attempt. -/
  | expand (n ptr oldsize csize : Nat) (zero : Bool) (retry : Option Nat)
  deriving DecidableEq

/-- What a thread does after `chunk_dalloc_core`. -/
inductive DallocCont
  /-- An allocation gives its chunks back and fails. -/
  | allocFailed (k : AllocCont)
  /-- In `huge_dalloc`, with the node of the block in hand. -/
  | hugeDalloc (n : Nat)
  /-- At the end of an in-place shrink. -/
  | shrink
  deriving DecidableEq

/-- Where a thread stands: in front of which section. -/
inductive Pc
  | idle
  /-- `huge_palloc` before `base_node_alloc`. -/
  | pallocNode (arena csize alignment : Nat) (zero : Bool)
  /-- `huge_ralloc_no_move_expand` before it looks the block up. -/
  | expandSearch (ptr oldsize size : Nat) (zero : Bool) (retry : Option Nat)
  /-- `chunk_recycle` before it takes `chunks_mtx`. -/
  | recycle (newAddr size alignment : Nat) (zero : Bool) (k : AllocCont)
  /-- `chunk_recycle` after it dropped `chunks_mtx` to get another node. -/
  | recycleNode (ret size trailsize : Nat) (zero zeroed : Bool) (k : AllocCont)
  /-- `chunk_recycle` before it takes `chunks_mtx` again. -/
  | recycleTrail (n ret size trailsize : Nat) (zero zeroed : Bool) (k : AllocCont)
  /-- `chunk_recycle` before `base_node_dalloc`. -/
  | recycleDalloc (n ret size : Nat) (zero zeroed : Bool) (k : AllocCont)
  /-- `chunk_alloc_arena` before `chunk_register`. -/
  | register (ret size : Nat) (isZeroed : Bool) (k : AllocCont)
  /-- `huge_palloc` before it takes `huge_mtx`. -/
  | link (n arena ret csize : Nat) (zero isZeroed : Bool)
  /-- `huge_ralloc_no_move_expand` before it takes `huge_mtx` again. -/
  | resize (n ptr oldsize csize : Nat) (zero isZeroed : Bool)
  /-- `chunk_dalloc_core`. -/
  | dalloc (chunk size : Nat) (k : DallocCont)
  /-- `chunk_record` before `base_node_alloc`. -/
  | recordNode (chunk size : Nat) (k : DallocCont)
  /-- `chunk_record` before it takes `chunks_mtx`. -/
  | record (xnode : Option Nat) (chunk size : Nat) (zeroed : Bool) (k : DallocCont)
  /-- `chunk_record` with nodes to give back. -/
  | recordDone (nodes : List Nat) (k : DallocCont)
  /-- Before a last `base_node_dalloc`. -/
  | giveNode (n : Nat)
  deriving DecidableEq

/-- What a thread can be asked to do. -/
inductive Call
  | hugePalloc (arena : Option Nat) (size alignment : Nat) (zero : Bool)
  | hugeRallocNoMove (ptr oldsize size extra : Nat) (zero : Bool)
  | hugeDalloc (ptr : Nat)

/-! ## Steps -/

/-- `base_node_alloc`, which may fail although there are nodes. -/
def nodeAlloc (p : Pool) (fails : Bool) : Pool × Option Nat :=
  if fails then (p, none) else baseNodeAlloc p

/-- An attempt to expand has failed. -/
def expandFailed (ptr oldsize : Nat) (zero : Bool) : Option Nat → Pc
  | none => .idle
  | some size => .expandSearch ptr oldsize size zero none

/-- `arena_chunk_alloc_huge` has returned `NULL`. -/
def AllocCont.failed : AllocCont → Pc
  | .palloc n _ _ _ => .giveNode n
  | .expand _ ptr oldsize _ zero retry => expandFailed ptr oldsize zero retry

/-- `arena_chunk_alloc_huge` has returned chunks. -/
def AllocCont.resume (ret : Nat) (isZeroed : Bool) : AllocCont → Pc
  | .palloc n arena csize zero => .link n arena ret csize zero isZeroed
  | .expand n ptr oldsize csize zero _ => .resize n ptr oldsize csize zero isZeroed

/-- `chunk_dalloc_core` has returned. -/
def DallocCont.resume : DallocCont → Pc
  | .allocFailed k => k.failed
  | .hugeDalloc n => .giveNode n
  | .shrink => .idle

/-- `chunk_recycle` returns a range. -/
def recycleReturn (p : Pool) (ret size : Nat) (zero zeroed : Bool) (k : AllocCont) :
    Pool × Pc :=
  (chunkRecycleZero p ret size zero zeroed, .register ret size (zero || zeroed) k)

/-- `chunk_recycle` with its extent unlinked.  If it needs no further node it
puts the trailing space back before it drops `chunks_mtx`. -/
def recycleTaken (taken : Taken) (size : Nat) (zero : Bool) (k : AllocCont) : Pool × Pc :=
  let ret := taken.ret
  if taken.trailsize ≠ 0 then
    match taken.node with
    | some n =>
        recycleReturn (chunkRecycleTrail taken.pool n (Word.add ret size)
          taken.trailsize taken.zeroed) ret size zero taken.zeroed k
    | none => (taken.pool, .recycleNode ret size taken.trailsize zero taken.zeroed k)
  else
    match taken.node with
    | some n => (taken.pool, .recycleDalloc n ret size zero taken.zeroed k)
    | none => recycleReturn taken.pool ret size zero taken.zeroed k

/-- The first section of `chunk_recycle`. -/
def stepRecycle (c : Config) (p : Pool) (newAddr size alignment : Nat) (zero : Bool)
    (k : AllocCont) : Pool × Pc :=
  let allocSize := Word.sub (Word.add size alignment) c.chunksize
  if allocSize < size then (p, k.failed)
  else
    match chunkRecycleTake p newAddr size alignment allocSize with
    | none => (p, k.failed)
    | some taken => recycleTaken taken size zero k

/-- One step of a thread; `none` when it is idle or an assertion fails. -/
def step (c : Config) (p : Pool) (fails : Bool) : Pc → Option (Pool × Pc)
  | .idle => none
  | .pallocNode arena csize alignment zero =>
      match nodeAlloc p fails with
      | (p, none) => some (p, .idle)
      | (p, some n) =>
          some (p, .recycle 0 csize alignment zero (.palloc n arena csize zero))
  | .expandSearch ptr oldsize size zero retry =>
      let csize := c.chunkCeiling size
      if csize = 0 then some (p, expandFailed ptr oldsize zero retry)
      else
        match p.hugeSearch ptr with
        | none => none -- assert(node != NULL)
        | some n =>
            some (p, .recycle (Word.add ptr oldsize) (Word.sub csize oldsize) c.chunksize
              zero (.expand n ptr oldsize csize zero retry))
  | .recycle newAddr size alignment zero k =>
      some (stepRecycle c p newAddr size alignment zero k)
  | .recycleNode ret size trailsize zero zeroed k =>
      match nodeAlloc p fails with
      | (p, none) =>
          -- the trailing space is in no tree any more: it is dropped
          some ({ p with leaked := ⟨Word.add ret size, trailsize⟩ :: p.leaked },
            .dalloc ret size (.allocFailed k))
      | (p, some n) => some (p, .recycleTrail n ret size trailsize zero zeroed k)
  | .recycleTrail n ret size trailsize zero zeroed k =>
      some (recycleReturn (chunkRecycleTrail p n (Word.add ret size) trailsize zeroed)
        ret size zero zeroed k)
  | .recycleDalloc n ret size zero zeroed k =>
      some (recycleReturn (baseNodeDalloc p n) ret size zero zeroed k)
  | .register ret size isZeroed k =>
      match chunkRegister c p size fails with
      | (p, true) => some (p, .dalloc ret size (.allocFailed k))
      | (p, false) => some (p, k.resume ret isZeroed)
  | .link n arena ret csize zero isZeroed =>
      let p := p.setNode n { p.node n with addr := ret, size := csize, arena := arena }
      some (hugeFill c (p.hugeInsert n) ret csize zero isZeroed, .idle)
  | .resize n ptr oldsize csize zero isZeroed =>
      let p := p.setNode n { p.node n with size := csize }
      some (hugeFill c p (Word.add ptr oldsize) (Word.sub csize oldsize) zero isZeroed, .idle)
  | .dalloc chunk size k =>
      some ({ p with curchunks := Word.sub p.curchunks (size / c.chunksize) },
        .recordNode chunk size k)
  | .recordNode chunk size k =>
      let purged := pagesPurge c p chunk size
      let taken := nodeAlloc purged.1 fails
      some (taken.1, .record taken.2 chunk size (false || !purged.2) k)
  | .record xnode chunk size zeroed k =>
      let recorded := chunkRecordLocked p xnode chunk size zeroed
      some (recorded.pool, .recordDone (recorded.xnode.toList ++ recorded.xprev.toList) k)
  | .recordDone [] k => some (p, k.resume)
  | .recordDone (n :: nodes) k => some (baseNodeDalloc p n, .recordDone nodes k)
  | .giveNode n => some (baseNodeDalloc p n, .idle)

/-- The shrinking section of `huge_ralloc_no_move`, and the fill of the chunks
it is about to return. -/
def callShrink (c : Config) (p : Pool) (ptr oldsize size : Nat) : Option (Pool × Pc) :=
  match p.hugeSearch ptr with
  | none => none -- assert(node != NULL)
  | some n =>
      let p := p.setNode n { p.node n with size := c.chunkCeiling size }
      let excessAddr := Word.add (p.node n).addr (c.chunkCeiling size)
      let excessSize := Word.sub (c.chunkCeiling oldsize) (c.chunkCeiling size)
      some (hugeDallocJunk c p excessAddr excessSize, .dalloc excessAddr excessSize .shrink)

/-- A call up to and including its first section. -/
def call (c : Config) (p : Pool) : Call → Option (Pool × Pc)
  | .hugePalloc arena size alignment zero =>
      let csize := c.chunkCeiling size
      if csize = 0 then some (p, .idle)
      else
        match arena with
        | none => some (p, .idle)
        | some arena => some (p, .pallocNode arena csize alignment zero)
  | .hugeRallocNoMove ptr oldsize size extra zero =>
      if oldsize ≤ c.arenaMaxclass then some (p, .idle)
      else if c.chunkCeiling size ≤ c.chunkCeiling oldsize ∧
          c.chunkCeiling oldsize ≤ c.chunkCeiling (Word.add size extra) then some (p, .idle)
      else if c.chunkCeiling size = 0 then some (p, .idle)
      else if c.chunkCeiling size < c.chunkCeiling oldsize then callShrink c p ptr oldsize size
      else some (p, .expandSearch ptr oldsize (Word.add size extra) zero
        (if extra = 0 then none else some size))
  | .hugeDalloc ptr =>
      match p.hugeSearch ptr with
      | none => none -- assert(node != NULL)
      | some n =>
          let p := p.hugeRemove n
          let chunk := (p.node n).addr
          let size := (p.node n).size
          some (hugeDallocJunk c p chunk size, .dalloc chunk size (.hugeDalloc n))

end Jemalloc
end Vmem
