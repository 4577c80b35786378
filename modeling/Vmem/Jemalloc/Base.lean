import Vmem.Jemalloc.Chunk

/-!
# The base allocator, pool creation and pool extension

The base allocator hands out metadata from a region it never gets back.  A
custom pool starts with that region inside the pool's own memory; when it is
used up, whole chunks are taken from the free trees.  Extent nodes are made only
here, and are numbered in the order in which they are made.

An assertion that fails, or a null pointer that is written through, ends the
run: those functions return `none`.
-/

namespace Vmem
namespace Jemalloc

/-- `base_pages_alloc`; `true` is failure. -/
def basePagesAlloc (c : Config) (p : Pool) (minsize : Nat) (dss : Dss := .empty) : Pool × Bool :=
  let csize := c.chunkCeiling minsize
  match chunkAllocBase c p csize dss with
  | (p, none) => (p, true)
  | (p, some basePages) =>
      ({ p with
          baseNextAddr := basePages
          basePastAddr := Word.add basePages csize
          baseChunks := ⟨basePages, csize⟩ :: p.baseChunks }, false)

/-- The allocation proper, once there is enough space. -/
def baseBump (p : Pool) (csize : Nat) : Pool × Option Nat :=
  ({ p with baseNextAddr := Word.add p.baseNextAddr csize }, some p.baseNextAddr)

/-- `base_alloc`. -/
def baseAlloc (c : Config) (p : Pool) (size : Nat) (dss : Dss := .empty) : Pool × Option Nat :=
  let csize := cachelineCeiling size
  if Word.add p.baseNextAddr csize > p.basePastAddr then
    match basePagesAlloc c p csize dss with
    | (p, true) => (p, none)
    | (p, false) => baseBump p csize
  else baseBump p csize

/-- A sequence of `base_alloc` calls that stops at the first failure; the flag
says whether all of them succeeded. -/
def baseAllocAll (c : Config) : Pool → List Nat → Pool × Bool
  | p, [] => (p, true)
  | p, size :: sizes =>
      match baseAlloc c p size with
      | (p, none) => (p, false)
      | (p, some _) => baseAllocAll c p sizes

/-- `base_node_prealloc`: the result is the number of nodes that are missing. -/
def baseNodePrealloc (c : Config) : Pool → Nat → Pool × Nat
  | p, 0 => (p, 0)
  | p, number + 1 =>
      match baseAlloc c p c.sizeofExtentNode with
      | (p, none) => (p, number + 1)
      | (p, some _) =>
          baseNodePrealloc c
            { p with
              nodeCount := p.nodeCount + 1
              baseNodes := p.nodeCount :: p.baseNodes } number

/-! ## Pool creation -/

/-- The pool as `pool_create_empty` finds it once the header is cleared and the
base allocator is placed behind the header. -/
def poolBlank (c : Config) (mem : Nat → UInt8) (addr size : Nat) : Pool where
  node := fun _ => ⟨0, 0, 0, false⟩
  nodeCount := 0
  chunksSzad := []
  chunksAd := []
  chunksSzadDss := []
  chunksAdDss := []
  huge := []
  baseNodes := []
  baseNextAddr := cachelineCeiling (Word.add addr c.sizeofPool)
  basePastAddr := Word.add addr size
  memoryRanges := []
  nchunks := 0
  curchunks := 0
  highchunks := 0
  mem := mem
  baseChunks := []
  leaked := []

/-- `pool_new` as far as it touches the pool's memory; `locksFail` tells whether
a mutex or the shared data cannot be set up. -/
def poolNew (c : Config) (p : Pool) (locksFail : Bool) : Option Pool :=
  if locksFail then none
  else
    match baseAllocAll c p c.poolNewAllocs with
    | (_, false) => none
    | (p, true) => some (baseAllocAll c p c.arenaAllocs).1

/-- Register `[usable_addr, usable_addr + usable_size)` as a memory range of the
region and record it as free. -/
def registerRange (c : Config) (p : Pool) (addr size usableAddr usableSize : Nat)
    (zeroed : Bool) : Pool :=
  let range : MemoryRange := {
    addr := addr
    addrEnd := Word.add addr size
    usableAddr := usableAddr
    usableAddrEnd := Word.add usableAddr usableSize }
  chunkRecord c { p with memoryRanges := range :: p.memoryRanges }
    usableAddr usableSize zeroed

/-- `(size - (usable_addr - addr)) & ~chunksize_mask`. -/
def usableSizeOf (c : Config) (addr size usableAddr : Nat) : Nat :=
  c.chunkFloor (Word.sub size (Word.sub usableAddr addr))

/-- `pool_create_empty` without the registration of the pool itself. -/
def poolCreateEmpty (c : Config) (mem : Nat → UInt8) (addr size : Nat)
    (zeroed locksFail : Bool) : Option Pool :=
  match poolNew c (poolBlank c mem addr size) locksFail with
  | none => none
  | some p =>
      match baseNodePrealloc c p (size / c.chunksize) with
      | (_, _ + 1) => none -- assert(result == 0)
      | (p, 0) =>
          match baseAlloc c p c.sizeofRangeNode with
          | (_, none) => none
          | (p, some _) =>
              let usableAddr := c.chunkCeiling p.baseNextAddr
              let usableSize := usableSizeOf c addr size usableAddr
              if usableSize = 0 then none -- assert(usable_size > 0)
              else some (registerRange c { p with basePastAddr := usableAddr }
                addr size usableAddr usableSize zeroed)

/-! ## Pool extension -/

/-- The end of `je_pool_extend`, given where the search for chunks may start. -/
def poolExtendFinish (c : Config) (p : Pool) (addr size start : Nat) (zeroed : Bool) :
    Option (Pool × Nat) :=
  let usableAddr := c.chunkCeiling start
  let usableSize := usableSizeOf c addr size usableAddr
  if usableSize = 0 then none -- assert(usable_size > 0)
  else some (registerRange c p addr size usableAddr usableSize zeroed, usableSize)

/-- `je_pool_extend` when the existing chunks did not suffice for the metadata:
the base allocator moves to the new region. -/
def poolExtendFallback (c : Config) (p : Pool) (missing : Nat) (node : Option Nat)
    (addr size : Nat) (zeroed : Bool) : Option (Pool × Nat) :=
  let p := { p with
    baseNextAddr := cachelineCeiling addr
    basePastAddr := Word.add addr size }
  match baseNodePrealloc c p missing with
  | (_, _ + 1) => none -- assert(nodes_number == 0)
  | (p, 0) =>
      match (if node.isNone then baseAlloc c p c.sizeofRangeNode else (p, node)) with
      | (_, none) => none -- assert(node != NULL)
      | (p, some _) =>
          let usableAddr := c.chunkCeiling p.baseNextAddr
          poolExtendFinish c { p with basePastAddr := usableAddr } addr size usableAddr zeroed

/-- `je_pool_extend`; the number is its return value. -/
def poolExtend (c : Config) (p : Pool) (addr size : Nat) (zeroed : Bool) :
    Option (Pool × Nat) :=
  if size < c.poolMinimalSize then some (p, 0)
  else
    match baseNodePrealloc c p (size / c.chunksize) with
    | (p, missing) =>
        match baseAlloc c p c.sizeofRangeNode with
        | (p, node) =>
            if 0 < missing ∨ node = none then
              poolExtendFallback c p missing node addr size zeroed
            else poolExtendFinish c p addr size addr zeroed

end Jemalloc
end Vmem
