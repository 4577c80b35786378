import Vmem.Library.OrderedTree
import Vmem.Library.Span
import Vmem.Jemalloc.Config

/-!
# Extent nodes, free trees and chunk recycling of a custom pool

The free chunks of a pool are kept in two search trees over the same extent
nodes, one ordered by size and address and one by address.  Nodes are pointers
into a node heap and are edited in place, as in `chunk.c`; a tree is the list of
its node pointers in order.

Everything here is about a custom pool, that is `pool_id != 0`: extent nodes
come only from the list of preallocated nodes, chunks only from recycling, and
the pool counts as file mapped.  The library is configured with
`--disable-munmap`, so `chunk_unmap` always records: in the trees a custom pool
allocates from, or in the two others if the chunk lies in the data segment.
Where nothing else is said that segment is empty.  Ranges are ranges of mapped
memory, whose ends do not wrap; arithmetic that can wrap is written with `Word`.
-/

namespace Vmem
namespace Jemalloc

/-- `extent_node_t` without its tree links. -/
structure ExtentNode where
  addr : Nat
  size : Nat
  arena : Nat
  zeroed : Bool
  deriving DecidableEq, Repr

namespace ExtentNode

/-- The addresses an extent node is responsible for. -/
def span (node : ExtentNode) : Span := ⟨node.addr, node.size⟩

@[simp] theorem span_lo (node : ExtentNode) : node.span.lo = node.addr := rfl

@[simp] theorem span_len (node : ExtentNode) : node.span.len = node.size := rfl

theorem has_span {node : ExtentNode} {x : Nat} :
    node.span.Has x ↔ node.addr ≤ x ∧ x < node.addr + node.size := Iff.rfl

/-- Key of `extent_szad_comp`: the size first, then the address. -/
def szadKey (node : ExtentNode) : Nat ×ₗ Nat := toLex (node.size, node.addr)

end ExtentNode

/-- `pool_memory_range_node_t`. -/
structure MemoryRange where
  addr : Nat
  addrEnd : Nat
  usableAddr : Nat
  usableAddrEnd : Nat
  deriving DecidableEq, Repr

namespace MemoryRange

/-- The part of a range that holds chunks. -/
def usable (range : MemoryRange) : Span :=
  ⟨range.usableAddr, range.usableAddrEnd - range.usableAddr⟩

/-- The whole range. -/
def whole (range : MemoryRange) : Span := ⟨range.addr, range.addrEnd - range.addr⟩

end MemoryRange

/-- The chunk-level state of a custom pool. -/
structure Pool where
  /-- Contents of the extent nodes. -/
  node : Nat → ExtentNode
  /-- Number of extent nodes carved out so far; they are numbered from zero. -/
  nodeCount : Nat
  /-- `chunks_szad_mmap`. -/
  chunksSzad : List Nat
  /-- `chunks_ad_mmap`. -/
  chunksAd : List Nat
  /-- `chunks_szad_dss`. -/
  chunksSzadDss : List Nat
  /-- `chunks_ad_dss`. -/
  chunksAdDss : List Nat
  /-- `huge`, ordered by address. -/
  huge : List Nat
  /-- `base_nodes`, the list of unused extent nodes. -/
  baseNodes : List Nat
  baseNextAddr : Nat
  basePastAddr : Nat
  /-- `memory_range_list`. -/
  memoryRanges : List MemoryRange
  /-- `stats_chunks`. -/
  nchunks : Nat
  curchunks : Nat
  highchunks : Nat
  /-- Contents of the pool's memory. -/
  mem : Nat → UInt8
  /-- Ghost record of the chunks handed to the base allocator. -/
  baseChunks : List Span
  /-- Ghost record of the ranges the code has dropped. -/
  leaked : List Span

namespace Pool

/-- Overwrite the contents of one node. -/
def setNode (p : Pool) (n : Nat) (value : ExtentNode) : Pool :=
  { p with node := Function.update p.node n value }

/-- `extent_tree_szad_insert` on the free tree. -/
def szadInsert (p : Pool) (n : Nat) : Pool :=
  { p with chunksSzad :=
      OrderedTree.insert (fun m => (p.node m).szadKey) n p.chunksSzad }

/-- `extent_tree_szad_remove` on the free tree. -/
def szadRemove (p : Pool) (n : Nat) : Pool :=
  { p with chunksSzad := OrderedTree.remove n p.chunksSzad }

/-- `extent_tree_ad_insert` on the free tree. -/
def adInsert (p : Pool) (n : Nat) : Pool :=
  { p with chunksAd := OrderedTree.insert (fun m => (p.node m).addr) n p.chunksAd }

/-- `extent_tree_ad_remove` on the free tree. -/
def adRemove (p : Pool) (n : Nat) : Pool :=
  { p with chunksAd := OrderedTree.remove n p.chunksAd }

end Pool

/-- `memset` on `[start, start + length)`. -/
def memset (mem : Nat → UInt8) (start length : Nat) (byte : UInt8) : Nat → UInt8 :=
  fun x => if start ≤ x ∧ x < start + length then byte else mem x

/-! ## Extent nodes (`base.c`) -/

/-- `base_node_alloc`: take a preallocated node; custom pools make no others. -/
def baseNodeAlloc (p : Pool) : Pool × Option Nat :=
  match p.baseNodes with
  | [] => (p, none)
  | n :: rest => ({ p with baseNodes := rest }, some n)

/-- `base_node_dalloc`. -/
def baseNodeDalloc (p : Pool) (n : Nat) : Pool :=
  { p with baseNodes := n :: p.baseNodes }

/-- `if (node != NULL) base_node_dalloc(pool, node)`. -/
def baseNodeDallocIf (p : Pool) (n : Option Nat) : Pool :=
  match n with
  | none => p
  | some n => baseNodeDalloc p n

/-! ## Returning chunks (`chunk_record`) -/

/-- What `chunk_record` holds when it drops `chunks_mtx`. -/
structure Recorded where
  pool : Pool
  xnode : Option Nat
  xprev : Option Nat

/-- The node `chunk_record` coalesces with in front of it, if there is one. -/
def forwardNode (p : Pool) (chunkEnd : Nat) : Option Nat :=
  match OrderedTree.nsearch (fun m => (p.node m).addr) chunkEnd p.chunksAd with
  | none => none
  | some n => if (p.node n).addr = chunkEnd then some n else none

/-- "Try to coalesce backward": merge the extent that ends at `chunk` into the
node that starts there. -/
def coalesceBackward (p : Pool) (n chunk : Nat) : Pool × Option Nat :=
  match OrderedTree.prev n p.chunksAd with
  | none => (p, none)
  | some prev =>
      if (p.node prev).addr + (p.node prev).size = chunk then
        let p := (p.szadRemove prev).adRemove prev
        let p := p.szadRemove n
        let p := p.setNode n
          { p.node n with
            addr := (p.node prev).addr
            size := (p.node n).size + (p.node prev).size
            zeroed := (p.node n).zeroed && (p.node prev).zeroed }
        (p.szadInsert n, some prev)
      else (p, none)

/-- Coalesce forward: the following extent takes the chunk in.  Its place in
the address order does not change, so only the size order is relinked. -/
def recordForward (p : Pool) (n chunk size : Nat) (zeroed : Bool) : Pool :=
  let p := p.szadRemove n
  let p := p.setNode n
    { p.node n with
      addr := chunk
      size := (p.node n).size + size
      zeroed := (p.node n).zeroed && zeroed }
  p.szadInsert n

/-- Insert a new node for the chunk. -/
def recordInsert (p : Pool) (n chunk size : Nat) (zeroed : Bool) : Pool :=
  let p := p.setNode n
    { p.node n with addr := chunk, size := size, zeroed := zeroed }
  (p.adInsert n).szadInsert n

/-- The part of `chunk_record` under `chunks_mtx`. -/
def chunkRecordLocked (p : Pool) (xnode : Option Nat) (chunk size : Nat)
    (zeroed : Bool) : Recorded :=
  match forwardNode p (chunk + size) with
  | some n =>
      let result := coalesceBackward (recordForward p n chunk size zeroed) n chunk
      ⟨result.1, xnode, result.2⟩
  | none =>
      match xnode with
      | none => ⟨{ p with leaked := ⟨chunk, size⟩ :: p.leaked }, none, none⟩
      | some n =>
          let result := coalesceBackward (recordInsert p n chunk size zeroed) n chunk
          ⟨result.1, none, result.2⟩

/-- `pages_purge` on a file mapped pool: the pages may keep their contents. -/
def pagesPurge (c : Config) (p : Pool) (addr length : Nat) : Pool × Bool :=
  ({ p with mem := c.madvise p.mem addr length }, true)

/-- `chunk_record`. -/
def chunkRecord (c : Config) (p : Pool) (chunk size : Nat) (zeroed : Bool) : Pool :=
  let purged := pagesPurge c p chunk size
  let zeroed := zeroed || !purged.2
  let taken := baseNodeAlloc purged.1
  let recorded := chunkRecordLocked taken.1 taken.2 chunk size zeroed
  baseNodeDallocIf (baseNodeDallocIf recorded.pool recorded.xnode) recorded.xprev

/-- `chunk_record` with `chunks_szad_dss` and `chunks_ad_dss`. -/
def chunkRecordDss (c : Config) (p : Pool) (chunk size : Nat) (zeroed : Bool) : Pool :=
  let recorded := chunkRecord c
    { p with chunksSzad := p.chunksSzadDss, chunksAd := p.chunksAdDss } chunk size zeroed
  { recorded with
    chunksSzad := p.chunksSzad
    chunksAd := p.chunksAd
    chunksSzadDss := recorded.chunksSzad
    chunksAdDss := recorded.chunksAd }

/-- The data segment as `chunk_dss.c` knows it. -/
structure Dss where
  /-- `dss_base`. -/
  base : Nat
  /-- `dss_max`. -/
  max : Nat

/-- The segment after `chunk_dss_boot`, in which nothing lies. -/
def Dss.empty : Dss := ⟨0, 0⟩

/-- `chunk_in_dss`. -/
def chunkInDss (dss : Dss) (chunk : Nat) : Bool :=
  decide (chunk ≥ dss.base) && decide (chunk < dss.max)

/-- `chunk_unmap`. -/
def chunkUnmap (c : Config) (p : Pool) (chunk size : Nat) (dss : Dss) : Pool :=
  if c.haveDss && chunkInDss dss chunk then chunkRecordDss c p chunk size false
  else chunkRecord c p chunk size false

/-- `chunk_dalloc_core`: count the chunks out and record them. -/
def chunkDallocCore (c : Config) (p : Pool) (chunk size : Nat) (dss : Dss := .empty) : Pool :=
  let p := { p with curchunks := Word.sub p.curchunks (size / c.chunksize) }
  chunkUnmap c p chunk size dss

/-- `chunk_dalloc_default`. -/
def chunkDallocDefault (c : Config) (p : Pool) (chunk size : Nat) (dss : Dss := .empty) :
    Pool :=
  chunkDallocCore c p chunk size dss

/-- Outside of the data segment, chunks go back to the trees of the pool. -/
theorem chunkDallocCore_eq {c : Config} {chunk : Nat} {dss : Dss}
    (outside : (c.haveDss && chunkInDss dss chunk) = false) (p : Pool) (size : Nat) :
    chunkDallocCore c p chunk size dss =
      chunkRecord c { p with curchunks := Word.sub p.curchunks (size / c.chunksize) }
        chunk size false := by
  unfold chunkDallocCore chunkUnmap
  rw [outside]
  rfl

/-- In the data segment, chunks leave the trees that a custom pool allocates from. -/
theorem chunkDallocCore_inDss {c : Config} {chunk : Nat} {dss : Dss}
    (inside : (c.haveDss && chunkInDss dss chunk) = true) (p : Pool) (size : Nat) :
    (chunkDallocCore c p chunk size dss).chunksSzad = p.chunksSzad ∧
      (chunkDallocCore c p chunk size dss).chunksAd = p.chunksAd := by
  unfold chunkDallocCore chunkUnmap
  rw [inside]
  exact ⟨rfl, rfl⟩

theorem outside_empty (c : Config) (chunk : Nat) :
    (c.haveDss && chunkInDss .empty chunk) = false := by
  simp [chunkInDss, Dss.empty]

theorem chunkDallocCore_record (c : Config) (p : Pool) (chunk size : Nat) :
    chunkDallocCore c p chunk size =
      chunkRecord c { p with curchunks := Word.sub p.curchunks (size / c.chunksize) }
        chunk size false :=
  chunkDallocCore_eq (outside_empty c chunk) p size

theorem chunkDallocDefault_record (c : Config) (p : Pool) (chunk size : Nat) :
    chunkDallocDefault c p chunk size =
      chunkRecord c { p with curchunks := Word.sub p.curchunks (size / c.chunksize) }
        chunk size false :=
  chunkDallocCore_record c p chunk size

/-! ## Taking chunks (`chunk_recycle`) -/

/-- What `chunk_recycle` has in hand once its extent is unlinked: the result,
the length of the trailing space, the zeroed flag of the extent and the node if
the leading space did not keep it. -/
structure Taken where
  pool : Pool
  ret : Nat
  trailsize : Nat
  zeroed : Bool
  node : Option Nat

/-- The first section of `chunk_recycle` under `chunks_mtx`: find the smallest
fitting extent, unlink it and put the leading space back. -/
def chunkRecycleTake (p : Pool) (newAddr size alignment allocSize : Nat) :
    Option Taken :=
  match OrderedTree.nsearch (fun m => (p.node m).szadKey)
      (toLex (allocSize, newAddr)) p.chunksSzad with
  | none => none
  | some n =>
      if newAddr ≠ 0 ∧ (p.node n).addr ≠ newAddr then none
      else
        let addr := (p.node n).addr
        let leadsize := Word.sub (Word.ceil addr alignment) addr
        let trailsize := Word.sub (Word.sub (p.node n).size leadsize) size
        let ret := Word.add addr leadsize
        let zeroed := (p.node n).zeroed
        let p := (p.szadRemove n).adRemove n
        if leadsize ≠ 0 then
          let p := p.setNode n { p.node n with size := leadsize }
          some ⟨(p.szadInsert n).adInsert n, ret, trailsize, zeroed, none⟩
        else some ⟨p, ret, trailsize, zeroed, some n⟩

/-- Insert the trailing space as a smaller extent. -/
def chunkRecycleTrail (p : Pool) (n addr trailsize : Nat) (zeroed : Bool) : Pool :=
  let p := p.setNode n
    { p.node n with addr := addr, size := trailsize, zeroed := zeroed }
  (p.szadInsert n).adInsert n

/-- End of `chunk_recycle`: zero the memory when zeroes are asked for. -/
def chunkRecycleZero (p : Pool) (ret size : Nat) (zero zeroed : Bool) : Pool :=
  if (zero || zeroed) && !zeroed then { p with mem := memset p.mem ret size 0 } else p

/-- `chunk_recycle` from the point where its extent is unlinked. -/
def chunkRecycleRest (c : Config) (taken : Taken) (size : Nat) (zero : Bool)
    (dss : Dss := .empty) : Pool × Option (Nat × Bool) :=
  let ret := taken.ret
  if taken.trailsize ≠ 0 then
    match taken.node with
    | some n =>
        let p := chunkRecycleTrail taken.pool n (Word.add ret size)
          taken.trailsize taken.zeroed
        (chunkRecycleZero p ret size zero taken.zeroed, some (ret, zero || taken.zeroed))
    | none =>
        match baseNodeAlloc taken.pool with
        | (p, none) =>
            -- the trailing space is in no tree any more: it is dropped
            let p := { p with
              leaked := ⟨Word.add ret size, taken.trailsize⟩ :: p.leaked }
            (chunkDallocCore c p ret size dss, none)
        | (p, some n) =>
            let p := chunkRecycleTrail p n (Word.add ret size)
              taken.trailsize taken.zeroed
            (chunkRecycleZero p ret size zero taken.zeroed,
              some (ret, zero || taken.zeroed))
  else
    let p := baseNodeDallocIf taken.pool taken.node
    (chunkRecycleZero p ret size zero taken.zeroed, some (ret, zero || taken.zeroed))

/-- `chunk_recycle`; the result is the address and the final value of `*zero`. -/
def chunkRecycle (c : Config) (p : Pool) (newAddr size alignment : Nat)
    (zero : Bool) (dss : Dss := .empty) : Pool × Option (Nat × Bool) :=
  let allocSize := Word.sub (Word.add size alignment) c.chunksize
  if allocSize < size then (p, none)
  else
    match chunkRecycleTake p newAddr size alignment allocSize with
    | none => (p, none)
    | some taken => chunkRecycleRest c taken size zero dss

/-! ## Registration and the allocation entry points -/

/-- `chunk_register` with the outcome of `rtree_set` given: `true` is failure. -/
def chunkRegister (c : Config) (p : Pool) (size : Nat) (rtreeFails : Bool) : Pool × Bool :=
  if rtreeFails then (p, true)
  else
    let curchunks := Word.add p.curchunks (size / c.chunksize)
    ({ p with
        nchunks := Word.add p.nchunks (size / c.chunksize)
        curchunks := curchunks
        highchunks := max p.highchunks curchunks }, false)

/-- `chunk_alloc_default` for a custom pool. -/
def chunkAllocDefault (c : Config) (p : Pool) (newAddr size alignment : Nat)
    (zero : Bool) (dss : Dss := .empty) : Pool × Option (Nat × Bool) :=
  chunkRecycle c p newAddr size alignment zero dss

/-- `chunk_alloc_arena`. -/
def chunkAllocArena (c : Config) (p : Pool) (newAddr size alignment : Nat)
    (zero rtreeFails : Bool) (dss : Dss := .empty) : Pool × Option (Nat × Bool) :=
  match chunkAllocDefault c p newAddr size alignment zero dss with
  | (p, none) => (p, none)
  | (p, some (ret, zeroed)) =>
      match chunkRegister c p size rtreeFails with
      | (p, true) => (chunkDallocDefault c p ret size dss, none)
      | (p, false) => (p, some (ret, zeroed))

/-- `chunk_alloc_base` for a custom pool; base chunks are not in the radix tree. -/
def chunkAllocBase (c : Config) (p : Pool) (size : Nat) (dss : Dss := .empty) :
    Pool × Option Nat :=
  match chunkRecycle c p 0 size c.chunksize false dss with
  | (p, none) => (p, none)
  | (p, some (ret, _)) => ((chunkRegister c p size false).1, some ret)

end Jemalloc
end Vmem
