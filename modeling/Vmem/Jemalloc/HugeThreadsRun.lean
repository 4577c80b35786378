import Vmem.Library.Run
import Vmem.Jemalloc.HugeThreadSteps

/-!
# Any interleaving of threads

Any number of threads allocate, resize and free huge blocks of one pool, each on
blocks of its own.  In every state that is reached, every address is in at most
one place: a free extent, a huge block, or the private range of one thread.
-/

namespace Vmem
namespace Jemalloc

/-- A pool and the threads that work on it. -/
structure HugeState where
  pool : Pool
  threads : List Pc

/-- A thread that is idle starts a call, or a thread inside a call makes its next
step. -/
inductive HugeAction
  | call (i : Nat) (request : Call)
  | run (i : Nat) (fails : Bool)

/-- The block a call works on. -/
def Call.busy : Call → List Nat
  | .hugePalloc .. => []
  | .hugeRallocNoMove ptr .. => [ptr]
  | .hugeDalloc ptr => [ptr]

/-- What callers promise: alignments are powers of two, blocks are live, and the
size they were allocated with is the true one. -/
def Call.Allowed (c : Config) (p : Pool) : Call → Prop
  | .hugePalloc _ size alignment _ =>
      size < Word.modulus ∧ ∃ k, c.lgChunk ≤ k ∧ k < 64 ∧ alignment = 2 ^ k
  | .hugeRallocNoMove ptr oldsize size extra _ =>
      (∃ n, Block p n ptr oldsize) ∧ size < Word.modulus ∧
        (extra ≠ 0 → size + extra + c.chunksize ≤ Word.modulus)
  | .hugeDalloc ptr => ∃ n size, Block p n ptr size

namespace HugeState

/-- Execute one action. -/
def exec (c : Config) (s : HugeState) : HugeAction → Option HugeState
  | .call i request =>
      match s.threads[i]? with
      | some .idle =>
          (call c s.pool request).map fun next => ⟨next.1, s.threads.set i next.2⟩
      | _ => none
  | .run i fails =>
      match s.threads[i]? with
      | none => none
      | some pc =>
          (step c s.pool fails pc).map fun next => ⟨next.1, s.threads.set i next.2⟩

/-- No two threads work on the same block. -/
def Permitted (c : Config) (s : HugeState) : HugeAction → Prop
  | .call _ request =>
      request.Allowed c s.pool ∧ ∀ pc ∈ s.threads, ∀ ptr ∈ request.busy, ptr ∉ pc.busy
  | .run _ _ => True

/-- A new pool with idle threads. -/
def start (p : Pool) (threads : Nat) : HugeState := ⟨p, List.replicate threads .idle⟩

/-- The private ranges of all threads. -/
def flights (s : HugeState) : List Span := s.threads.flatMap Pc.flight

/-- What holds in every state. -/
structure Sound (c : Config) (bound : Nat → Nat) (s : HugeState) : Prop where
  ledger : Ledger c bound s.pool (s.threads.flatMap Pc.held) (cover s.flights)
  valid : ∀ pc ∈ s.threads, pc.Valid c s.pool
  busy : (s.threads.flatMap Pc.busy).Nodup

end HugeState

section Calls

variable {c : Config} {bound : Nat → Nat} {held : List Nat} {others : Nat → Nat} {p : Pool}

/-- A call that does nothing. -/
theorem Moved.idle {works : List Nat} (ledger : Ledger c bound p held others) :
    Moved c bound held others p works (p, .idle) :=
  Moved.of_same (Owned.idle ledger) (HugeSame.refl p) trivial (Or.inr rfl)

theorem call_hugePalloc {arena : Option Nat} {size alignment : Nat} {zero : Bool}
    (ledger : Ledger c bound p held others)
    (allowed : (Call.hugePalloc arena size alignment zero).Allowed c p) :
    ∃ next, call c p (.hugePalloc arena size alignment zero) = some next ∧
      Moved c bound held others p [] next := by
  by_cases wraps : c.chunkCeiling size = 0
  · exact ⟨(p, .idle), by simp only [call, if_pos wraps], Moved.idle ledger⟩
  · cases arena with
    | none => exact ⟨(p, .idle), by simp only [call, if_neg wraps], Moved.idle ledger⟩
    | some arena =>
        refine ⟨_, by simp only [call, if_neg wraps]; rfl, ?_⟩
        have request : Request c (c.chunkCeiling size) alignment :=
          ⟨Nat.pos_of_ne_zero wraps, c.dvd_chunkCeiling size, c.chunkCeiling_lt size, allowed.2⟩
        exact Moved.of_same (Owned.of_has (show Ledger c bound p ([] ++ held) others from ledger)
          ⟨rfl, rfl⟩) (HugeSame.refl p) request (Or.inr rfl)

/-- A node whose address differs is another node. -/
theorem Block.ne_of_addr {n m ptr size : Nat} (block : Block p n ptr size)
    (different : (p.node m).addr ∉ [ptr]) : m ≠ n := by
  rintro rfl
  exact different (List.mem_singleton.mpr block.addr)

theorem call_hugeDalloc {ptr n size : Nat} (ledger : Ledger c bound p held others)
    (block : Block p n ptr size) :
    ∃ next, call c p (.hugeDalloc ptr) = some next ∧
      Moved c bound held others p [ptr] next := by
  have found := ledger.hugeSearch_eq block.member block.addr
  have extent := ledger.hugeExtent n block.member
  have unlinked := ledger.hugeUnlink block.member
    (fun x => by
      rw [cover_cons, cover_nil, Nat.add_zero, Nat.add_comm] :
      ∀ x, cover [(p.node n).span] x + others x = others x + (p.node n).span.ind x)
  refine ⟨_, by simp only [call, found]; rfl, ?_⟩
  rw [hugeDallocJunk_eq]
  exact {
    owned := Ledger.of_contents unlinked
    valid := ⟨extent.chunkSpan, trivial⟩
    busy := Or.inr rfl
    frame := by
      intro m member notBusy
      refine ⟨?_, rfl⟩
      exact (OrderedTree.mem_remove ledger.sortedHuge.nodup).mpr
        ⟨block.ne_of_addr notBusy, member⟩ }

theorem call_shrink {ptr n oldsize size : Nat} (ledger : Ledger c bound p held others)
    (block : Block p n ptr oldsize) (positive : c.chunkCeiling size ≠ 0)
    (smaller : c.chunkCeiling size < oldsize) :
    ∃ next, callShrink c p ptr oldsize size = some next ∧
      Moved c bound held others p [ptr] next := by
  have found := ledger.hugeSearch_eq block.member block.addr
  have extent := ledger.hugeExtent n block.member
  have below := extent.below
  have newDvd := c.dvd_chunkCeiling size
  have oldDvd := extent.size_dvd
  rw [block.size] at below oldDvd
  have oldCeiling : c.chunkCeiling oldsize = oldsize := c.chunkCeiling_eq oldDvd (by omega)
  generalize newSize_eq : c.chunkCeiling size = newSize at *
  obtain ⟨valid, excess, cut⟩ := extent.cut positive newDvd (by rw [block.size]; exact smaller)
  have resized := ledger.hugeResize block.member valid
    (fun x => by
      have := cut x
      rw [cover_cons, cover_nil]
      omega :
      ∀ x, (cover [⟨(p.node n).addr + newSize, (p.node n).size - newSize⟩] x + others x) + _ = _)
  have addrEq : Word.add (p.node n).addr newSize = (p.node n).addr + newSize :=
    Word.add_eq (by omega)
  have sizeEq : Word.sub oldsize newSize = (p.node n).size - newSize := by
    rw [block.size]
    exact Word.sub_eq (by omega) (by omega)
  have node : (p.setNode n { p.node n with size := newSize }).node n =
      { p.node n with size := newSize } := Function.update_self ..
  refine ⟨_, by simp only [callShrink, found, newSize_eq, oldCeiling, node, addrEq, sizeEq]; rfl,
    ?_⟩
  rw [hugeDallocJunk_eq]
  exact {
    owned := Ledger.of_contents resized
    valid := ⟨excess, trivial⟩
    busy := Or.inr rfl
    frame := by
      intro m member notBusy
      exact ⟨member, Function.update_of_ne (block.ne_of_addr notBusy) ..⟩ }

theorem call_hugeRallocNoMove {ptr oldsize size extra : Nat} {zero : Bool}
    (ledger : Ledger c bound p held others)
    (allowed : (Call.hugeRallocNoMove ptr oldsize size extra zero).Allowed c p) :
    ∃ next, call c p (.hugeRallocNoMove ptr oldsize size extra zero) = some next ∧
      Moved c bound held others p [ptr] next := by
  obtain ⟨⟨n, block⟩, sizeLt, noWrap⟩ := allowed
  have extent := ledger.hugeExtent n block.member
  have below := extent.below
  have oldDvd := extent.size_dvd
  rw [block.size] at below oldDvd
  have oldCeiling : c.chunkCeiling oldsize = oldsize := c.chunkCeiling_eq oldDvd (by omega)
  have mono := c.chunkCeiling_extra sizeLt noWrap
  unfold call
  simp only [oldCeiling]
  split
  · exact ⟨_, rfl, Moved.idle ledger⟩
  split
  · exact ⟨_, rfl, Moved.idle ledger⟩
  next different =>
  split
  · exact ⟨_, rfl, Moved.idle ledger⟩
  next fits =>
  split
  · next smaller => exact call_shrink ledger block fits smaller
  next notSmaller =>
  have grows : oldsize < c.chunkCeiling size := by
    by_contra atMost
    exact different ⟨by omega, by omega⟩
  refine ⟨_, rfl, Moved.of_same (Owned.of_has
    (show Ledger c bound p ([] ++ held) others from ledger) ⟨rfl, rfl⟩) (HugeSame.refl p)
    ⟨⟨n, block⟩, Or.inr (by omega), ?_⟩ (Or.inl rfl)⟩
  intro other isSize
  split at isSize
  · exact absurd isSize (by simp)
  · rw [Option.mem_some] at isSize
    rw [← isSize]
    exact Or.inr grows

/-- A call that callers may make keeps the accounts. -/
theorem call_moved {request : Call} (ledger : Ledger c bound p held others)
    (allowed : request.Allowed c p) :
    ∃ next, call c p request = some next ∧ Moved c bound held others p request.busy next := by
  cases request with
  | hugePalloc arena size alignment zero => exact call_hugePalloc ledger allowed
  | hugeRallocNoMove ptr oldsize size extra zero => exact call_hugeRallocNoMove ledger allowed
  | hugeDalloc ptr =>
      obtain ⟨n, size, block⟩ := allowed
      exact call_hugeDalloc ledger block

end Calls

namespace HugeState

variable {c : Config} {bound : Nat → Nat} {s after : HugeState}

/-! ## One action -/

/-- The order of the threads does not matter. -/
theorem Sound.of_perm {threads : List Pc} (sound : s.Sound c bound)
    (perm : s.threads.Perm threads) : Sound c bound ⟨s.pool, threads⟩ where
  ledger := by
    have nodes := (perm.flatMap_right Pc.held).symm
    have ranges : ∀ x, cover (flights ⟨s.pool, threads⟩) x = cover s.flights x := fun x =>
      (cover_perm (perm.flatMap_right Pc.flight) x).symm
    exact (sound.ledger.of_held_perm nodes).of_others ranges
  valid := fun pc member => sound.valid pc (perm.mem_iff.mpr member)
  busy := (perm.flatMap_right Pc.busy).nodup_iff.mp sound.busy

/-- The accounts from the point of view of one thread. -/
theorem Sound.owned {p : Pool} {pc : Pc} {rest : List Pc}
    (sound : Sound c bound ⟨p, pc :: rest⟩) :
    Owned c bound (rest.flatMap Pc.held) (cover (rest.flatMap Pc.flight)) p pc :=
  sound.ledger.of_others fun _ => (cover_append ..).symm

/-- One thread moves, and its blocks are nobody else's. -/
theorem Sound.move {p : Pool} {pc : Pc} {rest : List Pc} {works : List Nat} {next : Pool × Pc}
    (sound : Sound c bound ⟨p, pc :: rest⟩)
    (moved : Moved c bound (rest.flatMap Pc.held) (cover (rest.flatMap Pc.flight)) p works next)
    (once : works.Nodup) (apart : ∀ other ∈ rest, ∀ ptr ∈ works, ptr ∉ other.busy) :
    Sound c bound ⟨next.1, next.2 :: rest⟩ where
  ledger := Ledger.of_others moved.owned fun _ => cover_append ..
  valid := by
    intro other member
    rcases List.mem_cons.mp member with rfl | inRest
    · exact moved.valid
    · apply (sound.valid other (List.mem_cons_of_mem _ inRest)).of_kept
      intro n inHuge itsBlock
      exact moved.frame n inHuge fun mine => apart other inRest _ mine itsBlock
  busy := by
    have old : (pc.busy ++ rest.flatMap Pc.busy).Nodup := sound.busy
    have restNodup := (List.nodup_append.mp old).2.1
    change (next.2.busy ++ rest.flatMap Pc.busy).Nodup
    rcases moved.busy with same | none
    · rw [same]
      refine List.nodup_append.mpr ⟨once, restNodup, ?_⟩
      intro ptr mine other itsBlock equal
      obtain ⟨thread, inRest, busy⟩ := List.mem_flatMap.mp itsBlock
      exact apart thread inRest ptr mine (equal ▸ busy)
    · rw [none, List.nil_append]
      exact restNodup

/-- A thread of the list may as well be the first one. -/
theorem perm_of_getElem? {threads : List Pc} {i : Nat} {pc : Pc}
    (found : threads[i]? = some pc) :
    threads.Perm (pc :: threads.eraseIdx i) ∧
      ∀ other, (other :: threads.eraseIdx i).Perm (threads.set i other) := by
  obtain ⟨below, isPc⟩ := List.getElem?_eq_some_iff.mp found
  refine ⟨?_, fun other => (List.set_perm_cons_eraseIdx below other).symm⟩
  rw [← isPc]
  exact (List.getElem_cons_eraseIdx_perm below).symm

theorem Sound.exec (bounded : Bounded bound) (sound : s.Sound c bound) {action : HugeAction}
    (allowed : s.Permitted c action) (result : s.exec c action = some after) :
    after.Sound c bound := by
  cases action with
  | call i request =>
      obtain ⟨promised, apart⟩ := allowed
      cases found : s.threads[i]? with
      | none => simp [HugeState.exec, found] at result
      | some pc =>
          obtain ⟨perm, back⟩ := perm_of_getElem? found
          have inFront := sound.of_perm perm
          cases pc with
          | idle =>
              have ledger := inFront.owned.ledger ⟨rfl, rfl⟩
              obtain ⟨next, isNext, moved⟩ := call_moved ledger promised
              simp only [HugeState.exec, found, isNext, Option.map_some] at result
              injection result with result
              subst result
              refine (inFront.move moved ?_ ?_).of_perm (back next.2)
              · cases request with
                | hugePalloc arena size alignment zero => exact List.nodup_nil
                | hugeRallocNoMove ptr oldsize size extra zero => exact List.nodup_singleton ptr
                | hugeDalloc ptr => exact List.nodup_singleton ptr
              · intro other inRest
                exact apart other (perm.mem_iff.mpr (List.mem_cons_of_mem _ inRest))
          | _ => simp [HugeState.exec, found] at result
  | run i fails =>
      cases found : s.threads[i]? with
      | none => simp [HugeState.exec, found] at result
      | some pc =>
          obtain ⟨perm, back⟩ := perm_of_getElem? found
          have inFront := sound.of_perm perm
          by_cases inside : pc = .idle
          · subst inside
            simp [HugeState.exec, found, step] at result
          · have busy : (pc.busy ++ (s.threads.eraseIdx i).flatMap Pc.busy).Nodup :=
              inFront.busy
            obtain ⟨next, isNext, moved⟩ := moves fails bounded inside inFront.owned
              (inFront.valid pc List.mem_cons_self)
            simp only [HugeState.exec, found, isNext, Option.map_some] at result
            injection result with result
            subst result
            refine (inFront.move moved (List.nodup_append.mp busy).1 ?_).of_perm (back next.2)
            intro other inRest ptr mine itsBlock
            exact (List.nodup_append.mp busy).2.2 ptr mine ptr
              (List.mem_flatMap.mpr ⟨other, inRest, itsBlock⟩) rfl

/-! ## Whole runs -/

theorem start_sound {addr size : Nat} {p : Pool} (isFresh : FreshPool c addr size p)
    (threads : Nat) :
    (start p threads).Sound c (Span.mk (usableAddr c addr size) (usableSize c addr size)).ind := by
  have none : ∀ {α : Type} (f : Pc → List α), f .idle = [] →
      (start p threads).threads.flatMap f = [] := by
    intro α f idle
    rw [List.flatMap_eq_nil_iff]
    intro pc member
    rw [List.eq_of_mem_replicate member]
    exact idle
  exact {
    ledger := by
      unfold flights
      rw [none Pc.held rfl, none Pc.flight rfl]
      exact isFresh.ledger
    valid := by
      intro pc member
      rw [List.eq_of_mem_replicate member]
      trivial
    busy := by
      rw [none Pc.busy rfl]
      exact List.nodup_nil }

end HugeState

/-- Whatever the interleaving of any number of threads, every address is free,
in a huge block, or in the private range of a thread, and in only one of these;
two huge blocks have nothing in common; and every thread inside a call can make
its next step. -/
theorem huge_owned_once {c : Config} {addr size threads : Nat} {mem : Nat → UInt8}
    {zeroed locksFail : Bool} {p : Pool} {s : HugeState} (fits : c.Fits)
    (region : Region c addr size)
    (created : poolCreateEmpty c mem addr size zeroed locksFail = some p)
    (reached : Reached (HugeState.Permitted c) (HugeState.exec c) (.start p threads) s) :
    (∀ x, cover s.pool.freeSpans x + cover s.pool.hugeSpans x +
        cover (s.threads.flatMap Pc.flight) x ≤ 1) ∧
      (∀ n ∈ s.pool.huge, ∀ m ∈ s.pool.huge, n ≠ m → ∀ x,
        (s.pool.node n).span.Has x → ¬(s.pool.node m).span.Has x) ∧
      ∀ pc ∈ s.threads, pc ≠ .idle → ∀ fails, (step c s.pool fails pc).isSome := by
  have isFresh := (poolCreateEmpty_fresh fits region created).1
  have bounded := bounded_usable fits region
  have sound := reached.invariant
    (HugeState.Sound c (Span.mk (usableAddr c addr size) (usableSize c addr size)).ind)
    (HugeState.start_sound isFresh threads)
    fun _ _ _ before allowed result => before.exec bounded allowed result
  have once : ∀ x, cover s.pool.freeSpans x + cover s.pool.hugeSpans x +
      cover (s.threads.flatMap Pc.flight) x ≤ 1 := by
    intro x
    have total := sound.ledger.covers x
    have := bounded.once x
    unfold HugeState.flights at total
    omega
  refine ⟨once, ?_, ?_⟩
  · intro n nMember m mMember different x inside
    have atMost : cover (s.pool.huge.map fun k => (s.pool.node k).span) x ≤ 1 := by
      have total := once x
      unfold Pool.hugeSpans at total
      omega
    exact not_has_both (fun k => (s.pool.node k).span) nMember mMember different atMost inside
  · intro pc member inside fails
    obtain ⟨i, below, isPc⟩ := List.getElem_of_mem member
    have inFront := sound.of_perm (HugeState.perm_of_getElem?
      (List.getElem?_eq_some_iff.mpr ⟨below, isPc⟩)).1
    obtain ⟨next, isNext, _⟩ := moves fails bounded inside inFront.owned
      (inFront.valid pc List.mem_cons_self)
    rw [isNext]
    rfl

/-- Two threads: the first one has entered `huge_palloc` and holds a node when
the second one calls. -/
theorem huge_owned_once_two_threads :
    ∃ p s, poolCreateEmpty defaultConfig (fun _ => 0) 4194304 12582912 true false = some p ∧
      runs (HugeState.exec defaultConfig) (.start p 2)
        [.call 0 (.hugePalloc (some 0) 4194304 4194304 false), .run 0 false,
          .call 1 (.hugePalloc (some 0) 4194304 4194304 false), .run 0 false] = some s ∧
      s.threads.flatMap Pc.flight = [⟨8388608, 4194304⟩] ∧
      ∀ x, cover s.pool.freeSpans x + cover s.pool.hugeSpans x +
        cover (s.threads.flatMap Pc.flight) x ≤ 1 := by
  have outcome : ((poolCreateEmpty defaultConfig (fun _ => 0) 4194304 12582912 true
      false).bind fun p => (runs (HugeState.exec defaultConfig) (.start p 2)
        [.call 0 (.hugePalloc (some 0) 4194304 4194304 false), .run 0 false,
          .call 1 (.hugePalloc (some 0) 4194304 4194304 false), .run 0 false]).map fun s =>
        s.threads.flatMap Pc.flight) = some [⟨8388608, 4194304⟩] := by
    decide +kernel
  obtain ⟨p, created, ran⟩ := Option.bind_eq_some_iff.mp outcome
  obtain ⟨s, run, flight⟩ := Option.map_eq_some_iff.mp ran
  have region : Region defaultConfig 4194304 12582912 :=
    ⟨by decide +kernel, by decide +kernel, by decide +kernel⟩
  have palloc : ∀ (s : HugeState) (i : Nat), s.Permitted defaultConfig
      (.call i (.hugePalloc (some 0) 4194304 4194304 false)) := fun _ _ =>
    ⟨⟨by decide +kernel, 22, by decide, by decide, by decide⟩,
      fun _ _ _ none => absurd none List.not_mem_nil⟩
  have reached : Reached (HugeState.Permitted defaultConfig) (HugeState.exec defaultConfig)
      (.start p 2) s := by
    refine Reached.of_runs ?_ run
    intro s action member
    simp only [List.mem_cons, List.not_mem_nil, or_false] at member
    rcases member with rfl | rfl | rfl | rfl
    · exact palloc s 0
    · trivial
    · exact palloc s 1
    · trivial
  exact ⟨p, s, created, run, flight, (huge_owned_once defaultConfig_fits region created
    reached).1⟩

end Jemalloc
end Vmem
