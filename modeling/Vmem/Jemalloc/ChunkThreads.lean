import Vmem.Library.Run
import Vmem.Jemalloc.Ledger

/-!
# Threads that take and return chunks

Any number of threads are inside `chunk_recycle` or `chunk_record` of one pool.
Every section under `chunks_mtx` or `base_node_mtx` is one step; what a thread
does between two sections touches only memory of its own and belongs to the
section before it.  `chunk_recycle` drops `chunks_mtx` when it has cut an extent
on both sides and needs a second node: until it has linked the trailing space,
that space is in no tree.
-/

namespace Vmem
namespace Jemalloc

/-- Where a thread stands: in front of which section. -/
inductive ChunkPc
  /-- In neither function. -/
  | idle
  /-- `chunk_recycle` after it dropped `chunks_mtx` to get another node. -/
  | recycleNode (ret size trailsize : Nat) (zero zeroed : Bool)
  /-- `chunk_recycle` before it takes `chunks_mtx` again. -/
  | recycleTrail (n ret size trailsize : Nat) (zero zeroed : Bool)
  /-- `chunk_recycle` before `base_node_dalloc`. -/
  | recycleDalloc (n ret size : Nat) (zero zeroed : Bool)
  /-- `chunk_record` before `base_node_alloc`. -/
  | recordNode (chunk size : Nat) (zeroed : Bool)
  /-- `chunk_record` before it takes `chunks_mtx`. -/
  | record (xnode : Option Nat) (chunk size : Nat) (zeroed : Bool)
  /-- `chunk_record` with nodes to give back. -/
  | recordDone (nodes : List Nat)
  deriving DecidableEq

/-- The outcome of a section: where the thread stands now, and the range `chunk_recycle` has
returned to its caller. -/
structure Advance where
  pool : Pool
  pc : ChunkPc
  granted : Option Span

namespace ChunkPc

/-- `chunk_recycle` returns a range. -/
def grant (p : Pool) (ret size : Nat) (zero zeroed : Bool) : Advance :=
  ⟨chunkRecycleZero p ret size zero zeroed, .idle, some ⟨ret, size⟩⟩

/-- `chunk_recycle` with its extent unlinked.  If it needs no further node it puts the
trailing space back before it drops `chunks_mtx`. -/
def afterTake (taken : Taken) (size : Nat) (zero : Bool) : Advance :=
  let ret := taken.ret
  if taken.trailsize ≠ 0 then
    match taken.node with
    | some n =>
        grant (chunkRecycleTrail taken.pool n (Word.add ret size) taken.trailsize taken.zeroed)
          ret size zero taken.zeroed
    | none => ⟨taken.pool, .recycleNode ret size taken.trailsize zero taken.zeroed, none⟩
  else
    match taken.node with
    | some n => ⟨taken.pool, .recycleDalloc n ret size zero taken.zeroed, none⟩
    | none => grant taken.pool ret size zero taken.zeroed

/-- `chunk_recycle` up to the end of its first section. -/
def recycle (c : Config) (p : Pool) (newAddr size alignment : Nat) (zero : Bool) : Advance :=
  let allocSize := Word.sub (Word.add size alignment) c.chunksize
  if allocSize < size then ⟨p, .idle, none⟩
  else
    match chunkRecycleTake p newAddr size alignment allocSize with
    | none => ⟨p, .idle, none⟩
    | some taken => afterTake taken size zero

/-- `chunk_record` up to its first section. -/
def enterRecord (c : Config) (p : Pool) (chunk size : Nat) (zeroed : Bool) : Advance :=
  let purged := pagesPurge c p chunk size
  ⟨purged.1, .recordNode chunk size (zeroed || !purged.2), none⟩

/-- The next section of a thread; `none` when it is in neither function. -/
def step (c : Config) (p : Pool) : ChunkPc → Option Advance
  | .idle => none
  | .recycleNode ret size trailsize zero zeroed =>
      match baseNodeAlloc p with
      | (p, none) =>
          -- the trailing space is in no tree any more: it is dropped
          let p := { p with leaked := ⟨Word.add ret size, trailsize⟩ :: p.leaked }
          let p := { p with curchunks := Word.sub p.curchunks (size / c.chunksize) }
          some (enterRecord c p ret size false)
      | (p, some n) => some ⟨p, .recycleTrail n ret size trailsize zero zeroed, none⟩
  | .recycleTrail n ret size trailsize zero zeroed =>
      some (grant (chunkRecycleTrail p n (Word.add ret size) trailsize zeroed) ret size zero
        zeroed)
  | .recycleDalloc n ret size zero zeroed =>
      some (grant (baseNodeDalloc p n) ret size zero zeroed)
  | .recordNode chunk size zeroed =>
      let taken := baseNodeAlloc p
      some ⟨taken.1, .record taken.2 chunk size zeroed, none⟩
  | .record xnode chunk size zeroed =>
      let recorded := chunkRecordLocked p xnode chunk size zeroed
      some ⟨recorded.pool, .recordDone (recorded.xnode.toList ++ recorded.xprev.toList), none⟩
  | .recordDone [] => some ⟨p, .idle, none⟩
  | .recordDone (n :: nodes) => some ⟨baseNodeDalloc p n, .recordDone nodes, none⟩

/-- No free extent begins where the trailing space ends that is about to be linked. -/
def Calm (p : Pool) : ChunkPc → Prop
  | .recycleTrail _ ret size trailsize _ _ => forwardNode p (ret + size + trailsize) = none
  | _ => True

/-- Nodes in the hands of a thread. -/
def held : ChunkPc → List Nat
  | .recycleTrail n .. => [n]
  | .recycleDalloc n .. => [n]
  | .record xnode .. => xnode.toList
  | .recordDone nodes => nodes
  | _ => []

/-- The ranges a thread has taken out of the trees, or is about to put there. -/
def flight : ChunkPc → List Span
  | .recycleNode ret size trailsize _ _ => [⟨ret, size⟩, ⟨ret + size, trailsize⟩]
  | .recycleTrail _ ret size trailsize _ _ => [⟨ret, size⟩, ⟨ret + size, trailsize⟩]
  | .recycleDalloc _ ret size _ _ => [⟨ret, size⟩]
  | .recordNode chunk size _ => [⟨chunk, size⟩]
  | .record _ chunk size _ => [⟨chunk, size⟩]
  | _ => []

end ChunkPc

/-- A pool, the threads inside its chunk functions, and the addresses their callers hold. -/
structure ChunkThreads where
  pool : Pool
  threads : List ChunkPc
  lent : Nat → Bool

/-- A thread enters one of the functions, or goes on to its next section. -/
inductive ChunkAction
  | recycle (i newAddr size alignment : Nat) (zero : Bool)
  | record (i chunk size : Nat) (zeroed : Bool)
  | run (i : Nat)

namespace ChunkThreads

/-- Thread `i` has passed a section. -/
def advance (s : ChunkThreads) (i : Nat) (next : Advance) : ChunkThreads where
  pool := next.pool
  threads := s.threads.set i next.pc
  lent := fun x => s.lent x || next.granted.any fun span => decide (span.Has x)

/-- Execute one action. -/
def exec (c : Config) (s : ChunkThreads) : ChunkAction → Option ChunkThreads
  | .recycle i newAddr size alignment zero =>
      if s.threads[i]? = some .idle then
        some (s.advance i (ChunkPc.recycle c s.pool newAddr size alignment zero))
      else none
  | .record i chunk size zeroed =>
      if s.threads[i]? = some .idle then
        -- the caller gives the range up
        let given := { s with lent := fun x => s.lent x && !decide ((Span.mk chunk size).Has x) }
        some (given.advance i (ChunkPc.enterRecord c s.pool chunk size zeroed))
      else none
  | .run i =>
      match s.threads[i]? with
      | none => none
      | some pc => (pc.step c s.pool).map (s.advance i)

/-- What callers may ask for: they return chunks they hold. -/
def Permitted (c : Config) (s : ChunkThreads) : ChunkAction → Prop
  | .recycle _ _ size alignment _ => Request c size alignment
  | .record _ chunk size _ =>
      ChunkSpan c ⟨chunk, size⟩ ∧ ∀ x, (Span.mk chunk size).Has x → s.lent x = true
  | .run _ => True

/-- A thread that is about to link the trailing space finds no extent behind it. -/
def Undisturbed (s : ChunkThreads) : ChunkAction → Prop
  | .run i => ∀ pc, s.threads[i]? = some pc → pc.Calm s.pool
  | _ => True

/-- A new pool and threads in neither function. -/
def start (p : Pool) (threads : Nat) : ChunkThreads :=
  ⟨p, List.replicate threads .idle, fun _ => false⟩

/-- How often callers hold an address. -/
def lentCount (s : ChunkThreads) (x : Nat) : Nat := (s.lent x).toNat

end ChunkThreads

end Jemalloc
end Vmem
