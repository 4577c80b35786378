import Vmem.Jemalloc.Chunk

/-!
# Huge blocks

Blocks above the largest arena class are whole chunks.  Each has an extent node
in the tree `huge`, ordered by address; the node is taken from the same supply
as the nodes of the free trees.

The arena a thread works with is an argument: `none` when `choose_arena` fails.
Whether `chunk_register` fails is an argument too.  Statistics of the arena are
left out.
-/

namespace Vmem
namespace Jemalloc

namespace Pool

/-- `extent_tree_ad_insert` on the tree of huge blocks. -/
def hugeInsert (p : Pool) (n : Nat) : Pool :=
  { p with huge := OrderedTree.insert (fun m => (p.node m).addr) n p.huge }

/-- `extent_tree_ad_remove` on the tree of huge blocks. -/
def hugeRemove (p : Pool) (n : Nat) : Pool :=
  { p with huge := OrderedTree.remove n p.huge }

/-- `extent_tree_ad_search` on the tree of huge blocks. -/
def hugeSearch (p : Pool) (ptr : Nat) : Option Nat :=
  OrderedTree.search (fun m => (p.node m).addr) ptr p.huge

end Pool

/-- `arena_chunk_alloc_huge`. -/
def arenaChunkAllocHuge (c : Config) (p : Pool) (newAddr size alignment : Nat)
    (zero rtreeFails : Bool) (dss : Dss := .empty) : Pool × Option (Nat × Bool) :=
  chunkAllocArena c p newAddr size alignment zero rtreeFails dss

/-- `arena_chunk_dalloc_huge`. -/
def arenaChunkDallocHuge (c : Config) (p : Pool) (chunk size : Nat) (dss : Dss := .empty) :
    Pool :=
  chunkDallocDefault c p chunk size dss

/-- The fill at the end of a huge allocation. -/
def hugeFill (c : Config) (p : Pool) (addr length : Nat) (zero isZeroed : Bool) : Pool :=
  if zero then p
  else if c.optJunk then { p with mem := memset p.mem addr length 0xa5 }
  else if c.optZero && !isZeroed then { p with mem := memset p.mem addr length 0 }
  else p

/-- `huge_dalloc_junk`; chunks are never unmapped. -/
def hugeDallocJunk (c : Config) (p : Pool) (addr length : Nat) : Pool :=
  if c.haveDss && c.optJunk then { p with mem := memset p.mem addr length 0x5a } else p

/-- `huge_palloc`. -/
def hugePalloc (c : Config) (p : Pool) (arena : Option Nat) (size alignment : Nat)
    (zero rtreeFails : Bool) (dss : Dss := .empty) : Pool × Option Nat :=
  let csize := c.chunkCeiling size
  if csize = 0 then (p, none)
  else
    match arena with
    | none => (p, none)
    | some arena =>
        match baseNodeAlloc p with
        | (p, none) => (p, none)
        | (p, some n) =>
            match arenaChunkAllocHuge c p 0 csize alignment zero rtreeFails dss with
            | (p, none) => (baseNodeDalloc p n, none)
            | (p, some (ret, isZeroed)) =>
                let p := p.setNode n
                  { p.node n with addr := ret, size := csize, arena := arena }
                (hugeFill c (p.hugeInsert n) ret csize zero isZeroed, some ret)

/-- `huge_malloc`. -/
def hugeMalloc (c : Config) (p : Pool) (arena : Option Nat) (size : Nat)
    (zero rtreeFails : Bool) : Pool × Option Nat :=
  hugePalloc c p arena size c.chunksize zero rtreeFails

/-- `huge_ralloc_no_move_expand`; `true` is failure. -/
def hugeRallocNoMoveExpand (c : Config) (p : Pool) (ptr oldsize size : Nat)
    (zero rtreeFails : Bool) (dss : Dss := .empty) : Pool × Bool :=
  let csize := c.chunkCeiling size
  if csize = 0 then (p, true)
  else
    let expandAddr := Word.add ptr oldsize
    let expandSize := Word.sub csize oldsize
    match p.hugeSearch ptr with
    | none => (p, true) -- assert(node != NULL)
    | some n =>
        match arenaChunkAllocHuge c p expandAddr expandSize c.chunksize zero rtreeFails dss with
        | (p, none) => (p, true)
        | (p, some (_, isZeroed)) =>
            let p := p.setNode n { p.node n with size := csize }
            (hugeFill c p expandAddr expandSize zero isZeroed, false)

/-- The in-place shrink of `huge_ralloc_no_move`. -/
def hugeRallocNoMoveShrink (c : Config) (p : Pool) (ptr oldsize size : Nat)
    (dss : Dss := .empty) : Pool × Bool :=
  match p.hugeSearch ptr with
  | none => (p, true) -- assert(node != NULL)
  | some n =>
      let p := p.setNode n { p.node n with size := c.chunkCeiling size }
      let excessAddr := Word.add (p.node n).addr (c.chunkCeiling size)
      let excessSize := Word.sub (c.chunkCeiling oldsize) (c.chunkCeiling size)
      (arenaChunkDallocHuge c (hugeDallocJunk c p excessAddr excessSize)
        excessAddr excessSize dss, false)

/-- `huge_ralloc_no_move`; `true` is failure.  The two flags are the outcomes of
`chunk_register` in the two attempts to expand. -/
def hugeRallocNoMove (c : Config) (p : Pool) (ptr oldsize size extra : Nat)
    (zero : Bool) (rtreeFails rtreeFailsAgain : Bool) (dss : Dss := .empty) : Pool × Bool :=
  if oldsize ≤ c.arenaMaxclass then (p, true)
  else if c.chunkCeiling size ≤ c.chunkCeiling oldsize ∧
      c.chunkCeiling oldsize ≤ c.chunkCeiling (Word.add size extra) then (p, false)
  else if c.chunkCeiling size = 0 then (p, true)
  else if c.chunkCeiling size < c.chunkCeiling oldsize then
    hugeRallocNoMoveShrink c p ptr oldsize size dss
  else
    match hugeRallocNoMoveExpand c p ptr oldsize (Word.add size extra) zero rtreeFails dss with
    | (p, false) => (p, false)
    | (p, true) =>
        if extra = 0 then (p, true)
        else hugeRallocNoMoveExpand c p ptr oldsize size zero rtreeFailsAgain dss

/-- `huge_dalloc`. -/
def hugeDalloc (c : Config) (p : Pool) (ptr : Nat) (dss : Dss := .empty) : Pool :=
  match p.hugeSearch ptr with
  | none => p -- assert(node != NULL)
  | some n =>
      let p := p.hugeRemove n
      let p := hugeDallocJunk c p (p.node n).addr (p.node n).size
      baseNodeDalloc (arenaChunkDallocHuge c p (p.node n).addr (p.node n).size dss) n

/-- `huge_pool_salloc`: the size of a huge block, zero when there is none. -/
def hugePoolSalloc (p : Pool) (ptr : Nat) : Nat :=
  match p.hugeSearch ptr with
  | none => 0
  | some n => (p.node n).size

end Jemalloc
end Vmem
