import Vmem.Jemalloc.ChunkThreads

/-!
# Coalescing under any interleaving

Every section keeps the accounts of the pool.  It keeps coalescing complete as
well, except for the section in which `chunk_recycle` links the trailing space:
it does not look for a neighbour, so an extent that another thread has recorded
behind that space in the meantime stays apart from it.
-/

namespace Vmem
namespace Jemalloc

/-- What a thread relies on: its ranges are whole chunks. -/
def ChunkPc.Valid (c : Config) (pc : ChunkPc) : Prop := ∀ span ∈ pc.flight, ChunkSpan c span

/-- What one section does; `held` and `others` belong to the other threads and to callers.
Coalescing stays complete exactly when `calm` holds. -/
structure Advanced (c : Config) (bound : Nat → Nat) (held : List Nat) (others : Nat → Nat)
    (p : Pool) (calm : Prop) (next : Advance) : Prop where
  ledger : Ledger c bound next.pool (next.pc.held ++ held)
    fun x => cover (next.pc.flight ++ next.granted.toList) x + others x
  valid : next.pc.Valid c
  coalesced : Coalesced p → (Coalesced next.pool ↔ calm)

namespace ChunkPc

variable {c : Config} {bound : Nat → Nat} {held : List Nat} {others : Nat → Nat} {p p' : Pool}

/-- A thread without ranges relies on nothing. -/
theorem Valid.of_nil {pc : ChunkPc} (empty : pc.flight = []) : pc.Valid c := by
  unfold Valid
  rw [empty]
  exact fun _ member => absurd member List.not_mem_nil

theorem Valid.idle : (ChunkPc.idle).Valid c := Valid.of_nil rfl

/-- The thread goes back to its caller with nothing. -/
theorem Advanced.nothing (ledger : Ledger c bound p held others) :
    Advanced c bound held others p True ⟨p, .idle, none⟩ where
  ledger := ledger.of_others fun x => by
    simp only [flight, Option.toList_none, List.append_nil, cover_nil, Nat.zero_add]
  valid := Valid.idle
  coalesced := fun coalesced => ⟨fun _ => trivial, fun _ => coalesced⟩

/-- `chunk_recycle` returns the range it has in flight. -/
theorem grant_advanced {ret size : Nat} {zero zeroed : Bool} {calm : Prop}
    (ledger : Ledger c bound p' held fun x => cover [⟨ret, size⟩] x + others x)
    (coalesced : Coalesced p → (Coalesced p' ↔ calm)) :
    Advanced c bound held others p calm (grant p' ret size zero zeroed) := by
  unfold grant
  rw [chunkRecycleZero_eq]
  exact ⟨Ledger.of_contents ledger, Valid.idle, coalesced⟩

/-- `chunk_recycle` with its extent unlinked. -/
theorem afterTake_advanced {newAddr size alignment n lead : Nat} {taken : Taken}
    (source : TakenFrom c p newAddr size alignment taken n lead)
    (ledger : Ledger c bound p held others) (request : Request c size alignment) (zero : Bool) :
    Advanced c bound held others p True (afterTake taken size zero) := by
  have trees := ledger.trees
  have take := source.take_section trees
  have whole : ChunkSpan c ⟨taken.ret, size⟩ :=
    ⟨request.nonempty, request.size_dvd, source.ret_dvd request⟩
  have trailStart : Word.add taken.ret size = taken.ret + size :=
    Word.add_eq (by have := source.end_lt trees; omega)
  have nothing : Ledger c bound p ([] ++ held) others := ledger
  have kept : Coalesced p → (Coalesced taken.pool ↔ True) := fun coalesced =>
    ⟨fun _ => trivial, fun _ => source.take_coalesced trees request.nonempty coalesced⟩
  unfold afterTake
  simp only [trailStart]
  by_cases trails : taken.trailsize ≠ 0
  · rw [if_pos trails]
    rcases source.outcome with ⟨_, node, pool_eq⟩ | ⟨_, node, _⟩
    · -- no leading space: the node of the extent takes the trailing space
      have fresh : n ∉ taken.pool.chunksAd := by
        rw [pool_eq]
        exact fun inRest => ((OrderedTree.mem_remove trees.nodupAd).mp inRest).1 rfl
      have change := source.trail_section trees request trails fresh
      rw [node] at change
      simp only [node]
      apply grant_advanced
      · apply nothing.treeSection (change.return_node source.member)
        intro x
        rw [cover_nil, Nat.add_zero, Nat.add_comm]
      · exact fun coalesced => ⟨fun _ => trivial,
          fun _ => source.trail_coalesced trees request trails fresh coalesced⟩
    · rw [node] at take
      simp only [node]
      refine ⟨nothing.treeSection take ?_, ?_, kept⟩
      · intro x
        have cut := Span.ind_add taken.ret size taken.trailsize x
        simp only [flight, Option.toList_none, List.append_nil, cover_cons, cover_nil]
        omega
      · intro span member
        simp only [flight, List.mem_cons, List.not_mem_nil, or_false] at member
        rcases member with rfl | rfl
        · exact whole
        · exact ⟨Nat.pos_of_ne_zero trails, source.trail_dvd,
            Nat.dvd_add (source.ret_dvd request) request.size_dvd⟩
  · rw [if_neg trails]
    rw [not_not.mp trails, Nat.add_zero] at take
    rcases source.outcome with ⟨_, node, _⟩ | ⟨_, node, _⟩
    · rw [node] at take
      simp only [node]
      refine ⟨nothing.treeSection take ?_, ?_, kept⟩
      · intro x
        simp only [flight, Option.toList_none, List.append_nil, cover_nil]
        omega
      · intro span member
        rw [List.mem_singleton.mp member]
        exact whole
    · rw [node] at take
      simp only [node]
      apply grant_advanced _ kept
      apply nothing.treeSection take
      intro x
      rw [cover_nil, Nat.add_zero, Nat.add_comm]

/-- The first section of `chunk_recycle`. -/
theorem recycle_advanced {newAddr size alignment : Nat} (ledger : Ledger c bound p held others)
    (request : Request c size alignment) (zero : Bool) :
    Advanced c bound held others p True (recycle c p newAddr size alignment zero) := by
  unfold recycle
  dsimp only
  by_cases wraps : Word.sub (Word.add size alignment) c.chunksize < size
  · rw [if_pos wraps]
    exact Advanced.nothing ledger
  rw [if_neg wraps, allocSize_eq request wraps]
  cases found : chunkRecycleTake p newAddr size alignment
      (size + alignment - c.chunksize) with
  | none => exact Advanced.nothing ledger
  | some taken =>
      obtain ⟨n, lead, source⟩ := chunkRecycleTake_some ledger.trees request found
      exact afterTake_advanced source ledger request zero

/-- `chunk_record` takes over a range of its caller. -/
theorem enterRecord_advanced {chunk size : Nat} {zeroed : Bool}
    (ledger : Ledger c bound p' held fun x => cover [⟨chunk, size⟩] x + others x)
    (whole : ChunkSpan c ⟨chunk, size⟩) (coalesced : Coalesced p → Coalesced p') :
    Advanced c bound held others p True (enterRecord c p' chunk size zeroed) where
  ledger := Ledger.of_contents ledger
  valid := by
    intro span member
    rw [List.mem_singleton.mp member]
    exact whole
  coalesced := fun before => ⟨fun _ => trivial, fun _ => coalesced before⟩

/-- What one section of a thread inside a function does. -/
def Advances (c : Config) (bound : Nat → Nat) (held : List Nat) (others : Nat → Nat) (p : Pool)
    (pc : ChunkPc) : Prop :=
  ∃ next, pc.step c p = some next ∧ Advanced c bound held others p (pc.Calm p) next

section Sections

variable (bounded : Bounded bound)

include bounded

theorem advances_recycleNode {ret size trailsize : Nat} {zero zeroed : Bool}
    (owned : Ledger c bound p held fun x =>
      cover [⟨ret, size⟩, ⟨ret + size, trailsize⟩] x + others x)
    (valid : (ChunkPc.recycleNode ret size trailsize zero zeroed).Valid c) :
    Advances c bound held others p (.recycleNode ret size trailsize zero zeroed) := by
  have whole : ChunkSpan c ⟨ret, size⟩ := valid _ List.mem_cons_self
  have below : ret + size < Word.modulus :=
    owned.span_below bounded whole.nonempty (ind_le_flight List.mem_cons_self)
  have trailStart : Word.add ret size = ret + size := Word.add_eq below
  cases nodes : p.baseNodes with
  | nil =>
      have missing : baseNodeAlloc p = (p, none) := by
        unfold baseNodeAlloc
        rw [nodes]
      refine ⟨_, by simp only [step, missing, trailStart]; rfl, ?_⟩
      refine enterRecord_advanced ?_ whole id
      have dropped : Ledger c bound
          { p with leaked := ⟨ret + size, trailsize⟩ :: p.leaked } held
          fun x => cover [⟨ret, size⟩] x + others x := by
        apply owned.leak
        intro x
        simp only [cover_cons, cover_nil]
        omega
      exact dropped.of_contents
  | cons n rest =>
      refine ⟨_, by simp only [step, baseNodeAlloc, nodes]; rfl, ?_, ?_, ?_⟩
      · exact Ledger.of_others (owned.takeNode nodes) fun x => by
          rw [Option.toList_none, List.append_nil]
          rfl
      · exact valid
      · exact fun coalesced => ⟨fun _ => trivial, fun _ => coalesced⟩

/-- Linking the trailing space. -/
theorem advances_recycleTrail {n ret size trailsize : Nat} {zero zeroed : Bool}
    (owned : Ledger c bound p (n :: held) fun x =>
      cover [⟨ret, size⟩, ⟨ret + size, trailsize⟩] x + others x)
    (valid : (ChunkPc.recycleTrail n ret size trailsize zero zeroed).Valid c) :
    Advances c bound held others p (.recycleTrail n ret size trailsize zero zeroed) := by
  have whole : ChunkSpan c ⟨ret, size⟩ := valid _ List.mem_cons_self
  have trail : ChunkSpan c ⟨ret + size, trailsize⟩ :=
    valid _ (List.mem_cons_of_mem _ List.mem_cons_self)
  have trailStart : Word.add ret size = ret + size :=
    Word.add_eq (owned.span_below bounded whole.nonempty (ind_le_flight List.mem_cons_self))
  have absent := owned.fresh.1
  have range := owned.recordable bounded trail
    (ind_le_flight (List.mem_cons_of_mem _ List.mem_cons_self))
  have before := owned.recordable bounded whole (ind_le_flight List.mem_cons_self)
  have change := chunkRecycleTrail_section owned.trees zeroed absent range
  have inFront : Ledger c bound p ([n] ++ held) _ := owned
  refine ⟨_, by simp only [step, trailStart]; rfl, ?_⟩
  apply grant_advanced
  · apply inFront.treeSection change
    intro x
    simp only [cover_cons, cover_nil]
    omega
  intro coalesced
  constructor
  · intro after
    -- an extent behind the trailing space would now be adjacent to it
    cases found : forwardNode p (ret + size + trailsize) with
    | none => exact found
    | some m =>
        obtain ⟨member, starts⟩ := forwardNode_some found
        have different : m ≠ n := fun equal => absent (equal ▸ member)
        rw [chunkRecycleTrail_eq_link] at after
        have adjacent := after n (OrderedTree.mem_insert.mpr (Or.inl rfl)) m
          (OrderedTree.mem_insert.mpr (Or.inr member))
        rw [link_node_self, link_node_of_ne p _ different] at adjacent
        exact absurd starts.symm adjacent
  · intro calm
    apply chunkRecycleTrail_coalesced zeroed absent trail.nonempty coalesced
    · intro m member ends
      have nonempty := (owned.trees.extent m member).nonempty
      have sizePos : 0 < size := whole.nonempty
      have := before.apart m member
      dsimp only at this
      omega
    · intro m member
      exact forwardNode_none owned.trees calm m member

theorem advances_record {xnode : Option Nat} {chunk size : Nat} {zeroed : Bool}
    (owned : Ledger c bound p (xnode.toList ++ held) fun x => cover [⟨chunk, size⟩] x + others x)
    (valid : (ChunkPc.record xnode chunk size zeroed).Valid c) :
    Advances c bound held others p (.record xnode chunk size zeroed) := by
  have whole : ChunkSpan c ⟨chunk, size⟩ := valid _ List.mem_cons_self
  have range := owned.recordable bounded whole (ind_le_flight List.mem_cons_self)
  have fresh : ∀ n ∈ xnode, n ∉ p.chunksAd := by
    rintro n rfl
    exact (Ledger.fresh owned).1
  refine ⟨_, rfl, ?_, Valid.of_nil rfl, ?_⟩
  · by_cases leaks : forwardNode p (chunk + size) = none ∧ xnode = none
    · obtain ⟨missing, rfl⟩ := leaks
      rw [chunkRecordLocked_leak zeroed missing]
      apply Ledger.leak owned
      intro x
      simp only [flight, Option.toList_none, List.append_nil, cover_cons, cover_nil]
      omega
    · have change := chunkRecordLocked_section zeroed owned.trees fresh range (by
        intro missing none
        exact leaks ⟨missing, none⟩)
      apply owned.treeSection change
      intro x
      simp only [flight, Option.toList_none, List.append_nil, cover_nil]
      omega
  · exact fun coalesced => ⟨fun _ => trivial,
      fun _ => chunkRecordLocked_coalesced zeroed owned.trees fresh range coalesced⟩

/-- Every thread inside a function can pass its next section, and keeps the accounts. -/
theorem advances {pc : ChunkPc} (inside : pc ≠ .idle)
    (owned : Ledger c bound p (pc.held ++ held) fun x => cover pc.flight x + others x)
    (valid : pc.Valid c) : Advances c bound held others p pc := by
  cases pc with
  | idle => exact absurd rfl inside
  | recycleNode ret size trailsize zero zeroed =>
      exact advances_recycleNode bounded owned valid
  | recycleTrail n ret size trailsize zero zeroed =>
      exact advances_recycleTrail bounded owned valid
  | recycleDalloc n ret size zero zeroed =>
      exact ⟨_, rfl, grant_advanced (Ledger.giveNode owned)
        fun coalesced => ⟨fun _ => trivial, fun _ => coalesced⟩⟩
  | recordNode chunk size zeroed =>
      cases nodes : p.baseNodes with
      | nil =>
          refine ⟨_, by simp only [step, baseNodeAlloc, nodes]; rfl, owned, valid, ?_⟩
          exact fun coalesced => ⟨fun _ => trivial, fun _ => coalesced⟩
      | cons n rest =>
          refine ⟨_, by simp only [step, baseNodeAlloc, nodes]; rfl,
            Ledger.takeNode owned nodes, valid, ?_⟩
          exact fun coalesced => ⟨fun _ => trivial, fun _ => coalesced⟩
  | record xnode chunk size zeroed => exact advances_record bounded owned valid
  | recordDone nodes =>
      cases nodes with
      | nil =>
          exact ⟨_, rfl, owned, Valid.idle, fun coalesced => ⟨fun _ => trivial, fun _ => coalesced⟩⟩
      | cons n nodes =>
          exact ⟨_, rfl, Ledger.giveNode owned, Valid.of_nil rfl,
            fun coalesced => ⟨fun _ => trivial, fun _ => coalesced⟩⟩

end Sections

end ChunkPc

/-! ## One action -/

namespace ChunkThreads

variable {c : Config} {bound : Nat → Nat} {s after : ChunkThreads}

/-- What holds in every state. -/
structure Sound (c : Config) (bound : Nat → Nat) (s : ChunkThreads) : Prop where
  ledger : Ledger c bound s.pool (s.threads.flatMap ChunkPc.held)
    fun x => cover (s.threads.flatMap ChunkPc.flight) x + s.lentCount x
  valid : ∀ pc ∈ s.threads, pc.Valid c

/-- A thread of the list may as well be the first one. -/
theorem perm_of_found {threads : List ChunkPc} {i : Nat} {pc : ChunkPc}
    (found : threads[i]? = some pc) :
    threads.Perm (pc :: threads.eraseIdx i) ∧
      ∀ other, (other :: threads.eraseIdx i).Perm (threads.set i other) := by
  obtain ⟨below, isPc⟩ := List.getElem?_eq_some_iff.mp found
  refine ⟨?_, fun other => (List.set_perm_cons_eraseIdx below other).symm⟩
  rw [← isPc]
  exact (List.getElem_cons_eraseIdx_perm below).symm

/-- The accounts from the point of view of one thread. -/
theorem Sound.owned {i : Nat} {pc : ChunkPc} (sound : s.Sound c bound)
    (found : s.threads[i]? = some pc) :
    Ledger c bound s.pool (pc.held ++ (s.threads.eraseIdx i).flatMap ChunkPc.held)
      fun x => cover pc.flight x +
        (cover ((s.threads.eraseIdx i).flatMap ChunkPc.flight) x + s.lentCount x) := by
  obtain ⟨perm, _⟩ := perm_of_found found
  refine (sound.ledger.of_held_perm (perm.flatMap_right ChunkPc.held).symm).of_others ?_
  intro x
  rw [cover_perm (perm.flatMap_right ChunkPc.flight) x, List.flatMap_cons, cover_append]
  omega

/-- A thread in neither function has nothing. -/
theorem Sound.spared {i : Nat} (sound : s.Sound c bound) (found : s.threads[i]? = some .idle) :
    Ledger c bound s.pool ((s.threads.eraseIdx i).flatMap ChunkPc.held)
      fun x => cover ((s.threads.eraseIdx i).flatMap ChunkPc.flight) x + s.lentCount x :=
  (sound.owned found).of_others fun _ => (Nat.zero_add _).symm

/-- One thread passes a section; what `chunk_recycle` returns is lent to its caller. -/
theorem Sound.advance {i : Nat} {pc : ChunkPc} {lent : Nat → Bool} {calm : Prop}
    {next : Advance} (bounded : Bounded bound) (sound : s.Sound c bound)
    (found : s.threads[i]? = some pc)
    (advanced : Advanced c bound ((s.threads.eraseIdx i).flatMap ChunkPc.held)
      (fun x => cover ((s.threads.eraseIdx i).flatMap ChunkPc.flight) x + (lent x).toNat)
      s.pool calm next) :
    Sound c bound (ChunkThreads.advance { s with lent := lent } i next) := by
  obtain ⟨perm, back⟩ := perm_of_found found
  constructor
  · refine (advanced.ledger.of_held_perm
      ((back next.pc).flatMap_right ChunkPc.held).symm).of_others ?_
    intro x
    have granted : (lent x || next.granted.any fun span => decide (span.Has x)).toNat =
        (lent x).toNat + cover next.granted.toList x := by
      have counted := advanced.ledger.cover_free_le x
      have once := bounded.once x
      rw [cover_append] at counted
      cases some_ : next.granted with
      | none => simp
      | some span =>
          rw [some_, Option.toList_some, cover_cons, cover_nil] at counted
          rw [Option.toList_some, cover_cons, cover_nil, Option.any_some]
          by_cases inside : span.Has x
          · rw [Span.ind_eq_one_iff.mpr inside] at counted ⊢
            have notLent : lent x = false := by
              cases isLent : lent x with
              | false => rfl
              | true =>
                  rw [isLent, Bool.toNat_true] at counted
                  omega
            simp [notLent, inside]
          · rw [Span.ind_eq_zero_iff.mpr inside]
            simp [inside]
    have flights : cover ((s.threads.set i next.pc).flatMap ChunkPc.flight) x =
        cover next.pc.flight x + cover ((s.threads.eraseIdx i).flatMap ChunkPc.flight) x := by
      rw [← cover_perm ((back next.pc).flatMap_right ChunkPc.flight) x, List.flatMap_cons,
        cover_append]
    unfold ChunkThreads.advance lentCount
    dsimp only
    rw [granted, flights, cover_append]
    omega
  · intro other member
    rcases List.mem_cons.mp ((back next.pc).mem_iff.mpr member) with rfl | inRest
    · exact advanced.valid
    · exact sound.valid other (perm.mem_iff.mpr (List.mem_cons_of_mem _ inRest))

/-- Every action keeps the accounts, and keeps coalescing complete exactly when it is not
disturbed. -/
theorem Sound.exec {action : ChunkAction} (bounded : Bounded bound) (sound : s.Sound c bound)
    (allowed : s.Permitted c action) (result : s.exec c action = some after) :
    after.Sound c bound ∧
      (Coalesced s.pool → (Coalesced after.pool ↔ s.Undisturbed action)) := by
  cases action with
  | recycle i newAddr size alignment zero =>
      simp only [ChunkThreads.exec, Option.ite_none_right_eq_some, Option.some.injEq] at result
      obtain ⟨found, rfl⟩ := result
      have advanced : Advanced c bound _ _ s.pool True
          (ChunkPc.recycle c s.pool newAddr size alignment zero) :=
        ChunkPc.recycle_advanced (sound.spared found) allowed zero
      exact ⟨sound.advance bounded found advanced, advanced.coalesced⟩
  | record i chunk size zeroed =>
      simp only [ChunkThreads.exec, Option.ite_none_right_eq_some, Option.some.injEq] at result
      obtain ⟨found, rfl⟩ := result
      obtain ⟨whole, lent⟩ := allowed
      have given : ∀ x, s.lentCount x = (Span.mk chunk size).ind x +
          (s.lent x && !decide ((Span.mk chunk size).Has x)).toNat := by
        intro x
        unfold lentCount
        by_cases inside : (Span.mk chunk size).Has x
        · rw [Span.ind_eq_one_iff.mpr inside, lent x inside]
          simp [inside]
        · rw [Span.ind_eq_zero_iff.mpr inside]
          simp [inside]
      have ledger : Ledger c bound s.pool ((s.threads.eraseIdx i).flatMap ChunkPc.held)
          fun x => cover [⟨chunk, size⟩] x +
            (cover ((s.threads.eraseIdx i).flatMap ChunkPc.flight) x +
              (s.lent x && !decide ((Span.mk chunk size).Has x)).toNat) := by
        refine (sound.spared found).of_others fun x => ?_
        have := given x
        rw [cover_cons, cover_nil]
        omega
      have advanced : Advanced c bound _ _ s.pool True
          (ChunkPc.enterRecord c s.pool chunk size zeroed) :=
        ChunkPc.enterRecord_advanced ledger whole id
      exact ⟨sound.advance bounded found advanced, advanced.coalesced⟩
  | run i =>
      simp only [ChunkThreads.exec] at result
      cases found : s.threads[i]? with
      | none => simp [found] at result
      | some pc =>
          simp only [found] at result
          obtain ⟨next, stepped, rfl⟩ := Option.map_eq_some_iff.mp result
          have inside : pc ≠ .idle := by
            rintro rfl
            cases stepped
          have member : pc ∈ s.threads := List.mem_of_getElem? found
          obtain ⟨expected, isNext, advanced⟩ := ChunkPc.advances bounded inside
            (sound.owned found) (sound.valid pc member)
          have same : next = expected := Option.some.inj (stepped.symm.trans isNext)
          subst same
          refine ⟨sound.advance bounded found advanced, fun coalesced => ?_⟩
          refine (advanced.coalesced coalesced).trans ⟨fun calm other isOther => ?_,
            fun undisturbed => undisturbed pc found⟩
          rw [found] at isOther
          injection isOther with isOther
          exact isOther ▸ calm

/-! ## Whole runs -/

theorem start_sound {addr size : Nat} {p : Pool} (isFresh : FreshPool c addr size p)
    (threads : Nat) :
    (start p threads).Sound c (Span.mk (usableAddr c addr size) (usableSize c addr size)).ind := by
  have none : ∀ {α : Type} (f : ChunkPc → List α), f .idle = [] →
      (start p threads).threads.flatMap f = [] := by
    intro α f idle
    rw [List.flatMap_eq_nil_iff]
    intro pc member
    rw [List.eq_of_mem_replicate member]
    exact idle
  constructor
  · rw [none ChunkPc.held rfl, none ChunkPc.flight rfl]
    exact isFresh.ledger
  · intro pc member
    rw [List.eq_of_mem_replicate member]
    exact ChunkPc.Valid.idle

theorem Sound.of_reached {permitted : ChunkThreads → ChunkAction → Prop} {start : ChunkThreads}
    (bounded : Bounded bound) (starts : start.Sound c bound)
    (asks : ∀ s action, permitted s action → s.Permitted c action)
    (reached : Reached permitted (ChunkThreads.exec c) start s) : s.Sound c bound :=
  reached.invariant (Sound c bound) starts fun _ _ _ before allowed result =>
    (before.exec bounded (asks _ _ allowed) result).1

end ChunkThreads

/-! ## Contiguous free memory -/

section Regions

variable {c : Config} {p : Pool}

/-- When coalescing is complete, a region of free addresses lies in one extent. -/
theorem Coalesced.exists_extent {span : Span} (coalesced : Coalesced p) (trees : FreeTrees c p)
    (nonempty : 0 < span.len) (free : ∀ x, span.Has x → 0 < cover p.freeSpans x) :
    ∃ n ∈ p.chunksAd, span.Within (p.node n).span := by
  have covering : ∀ x, span.Has x → ∃ n ∈ p.chunksAd, (p.node n).span.Has x := by
    intro x inside
    obtain ⟨other, member, has⟩ := exists_has_of_cover_pos (free x inside)
    obtain ⟨n, inTree, rfl⟩ := List.mem_map.mp member
    exact ⟨n, inTree, has⟩
  obtain ⟨n, inTree, has⟩ := covering span.lo ⟨le_rfl, by omega⟩
  rw [ExtentNode.has_span] at has
  refine ⟨n, inTree, ?_⟩
  unfold Span.Within ExtentNode.span
  dsimp only
  by_contra sticks
  -- the first address behind the extent is free as well
  obtain ⟨m, mInTree, mHas⟩ := covering ((p.node n).addr + (p.node n).size)
    ⟨by omega, by omega⟩
  rw [ExtentNode.has_span] at mHas
  rcases Nat.lt_trichotomy (p.node m).addr (p.node n).addr with less | equal | greater
  · have := trees.disjoint m mInTree n inTree less
    omega
  · have same := trees.eq_of_addr mInTree inTree equal
    subst same
    omega
  · have := trees.disjoint n inTree m mInTree greater
    exact coalesced n inTree m mInTree (by omega)

end Regions

/-- In every run in which no thread finds an extent behind the trailing space it is about to
link, coalescing is complete in every state, so that contiguous free memory can be allocated
as one block; and an action keeps it complete only if it does not find such an extent. -/
theorem coalesced_unless_disturbed {c : Config} {addr size threads : Nat} {mem : Nat → UInt8}
    {zeroed locksFail : Bool} {p : Pool} {s : ChunkThreads} (fits : c.Fits)
    (region : Region c addr size)
    (created : poolCreateEmpty c mem addr size zeroed locksFail = some p)
    (reached : Reached (fun s action => s.Permitted c action ∧ s.Undisturbed action)
      (ChunkThreads.exec c) (.start p threads) s) :
    (∀ a ∈ s.pool.chunksAd, ∀ b ∈ s.pool.chunksAd,
        (s.pool.node a).addr + (s.pool.node a).size ≠ (s.pool.node b).addr) ∧
      (∀ span zero, ChunkSpan c span → (∀ x, span.Has x → 0 < cover s.pool.freeSpans x) →
        ∃ p' ret zeroOut,
          chunkRecycle c s.pool 0 span.len c.chunksize zero = (p', some (ret, zeroOut))) ∧
      ∀ action after, s.Permitted c action → s.exec c action = some after →
        (Coalesced after.pool ↔ s.Undisturbed action) := by
  have isFresh := (poolCreateEmpty_fresh fits region created).1
  have bounded := bounded_usable fits region
  obtain ⟨sound, coalesced⟩ : s.Sound c
      (Span.mk (usableAddr c addr size) (usableSize c addr size)).ind ∧ Coalesced s.pool := by
    refine reached.invariant (fun state => state.Sound c _ ∧ Coalesced state.pool)
      ⟨ChunkThreads.start_sound isFresh threads, isFresh.coalesced⟩ ?_
    rintro before action after ⟨sound, coalesced⟩ ⟨allowed, undisturbed⟩ result
    obtain ⟨kept, exactly⟩ := sound.exec bounded allowed result
    exact ⟨kept, (exactly coalesced).mpr undisturbed⟩
  have trees := sound.ledger.trees
  refine ⟨coalesced, ?_, ?_⟩
  · intro span zero whole free
    obtain ⟨n, member, within⟩ := coalesced.exists_extent trees whole.nonempty free
    have below := (trees.extent n member).below
    have long : span.len ≤ (s.pool.node n).size := by
      unfold Span.Within ExtentNode.span at within
      dsimp only at within
      omega
    exact chunkRecycle_of_long trees
      (Request.of_chunksize whole.nonempty whole.len_dvd (by omega)) member long zero
  · intro action after allowed result
    exact (sound.exec bounded allowed result).2 coalesced

/-- Two threads are inside `chunk_recycle` at once. -/
theorem coalesced_unless_disturbed_two_threads :
    ∃ p s, poolCreateEmpty defaultConfig (fun _ => 0) 8388608 20971520 true false = some p ∧
      runs (ChunkThreads.exec defaultConfig) (.start p 2)
        [.recycle 0 0 4194304 8388608 false, .recycle 1 0 4194304 4194304 false] = some s ∧
      s.threads.flatMap ChunkPc.flight =
        [⟨16777216, 4194304⟩, ⟨20971520, 8388608⟩, ⟨12582912, 4194304⟩] ∧
      ∀ a ∈ s.pool.chunksAd, ∀ b ∈ s.pool.chunksAd,
        (s.pool.node a).addr + (s.pool.node a).size ≠ (s.pool.node b).addr := by
  have outcome : ((poolCreateEmpty defaultConfig (fun _ => 0) 8388608 20971520 true
      false).bind fun p => (runs (ChunkThreads.exec defaultConfig) (.start p 2)
        [.recycle 0 0 4194304 8388608 false, .recycle 1 0 4194304 4194304 false]).map fun s =>
        s.threads.flatMap ChunkPc.flight) =
      some [⟨16777216, 4194304⟩, ⟨20971520, 8388608⟩, ⟨12582912, 4194304⟩] := by
    decide +kernel
  obtain ⟨p, created, ran⟩ := Option.bind_eq_some_iff.mp outcome
  obtain ⟨s, run, flight⟩ := Option.map_eq_some_iff.mp ran
  have region : Region defaultConfig 8388608 20971520 :=
    ⟨by decide +kernel, by decide +kernel, by decide +kernel⟩
  have reached : Reached (fun s action => s.Permitted defaultConfig action ∧
      s.Undisturbed action) (ChunkThreads.exec defaultConfig) (.start p 2) s := by
    refine Reached.of_runs ?_ run
    intro s action member
    simp only [List.mem_cons, List.not_mem_nil, or_false] at member
    rcases member with rfl | rfl
    · exact ⟨⟨by decide, by decide +kernel, by decide +kernel, 23, by decide, by decide,
        by decide⟩, trivial⟩
    · exact ⟨⟨by decide, by decide +kernel, by decide +kernel, 22, by decide, by decide,
        by decide⟩, trivial⟩
  exact ⟨p, s, created, run, flight,
    (coalesced_unless_disturbed defaultConfig_fits region created reached).1⟩

/-- An address of the usable range that is nowhere else is with a caller. -/
theorem ChunkThreads.Sound.lent_of {c : Config} {bound : Nat → Nat} {s : ChunkThreads} {x : Nat}
    (sound : s.Sound c bound) (usable : bound x = 1)
    (nowhere : cover (s.pool.freeSpans ++ s.pool.hugeSpans ++ s.pool.baseChunks ++
      s.pool.leaked ++ s.threads.flatMap ChunkPc.flight) x = 0) : s.lent x = true := by
  have covers := sound.ledger.covers x
  simp only [cover_append] at nowhere
  cases isLent : s.lent x with
  | true => rfl
  | false =>
      unfold lentCount at covers
      rw [isLent, Bool.toNat_false] at covers
      omega

/-- A thread goes on to its next section. -/
def ChunkAction.goesOn : ChunkAction → Bool
  | .run _ => true
  | _ => false

/-- In a pool of eight usable chunks one chunk is lent that was aligned to eight chunks.  A
thread cuts the extent in front of it on both sides, and before it has linked the trailing
space, another thread returns the chunk behind that space.  Both threads are done, nodes were
always available, and two extents are adjacent. -/
theorem coalesced_disturbed :
    ∃ p s, poolCreateEmpty defaultConfig (fun _ => 0) 16777216 37748736 true false = some p ∧
      Reached (fun s action => s.Permitted defaultConfig action ∧ s.pool.baseNodes ≠ [])
        (ChunkThreads.exec defaultConfig) (.start p 2) s ∧
      (∀ pc ∈ s.threads, pc = .idle) ∧
      ∃ a ∈ s.pool.chunksAd, ∃ b ∈ s.pool.chunksAd,
        (s.pool.node a).addr + (s.pool.node a).size = (s.pool.node b).addr := by
  have outcome : ((poolCreateEmpty defaultConfig (fun _ => 0) 16777216 37748736 true
      false).bind fun p =>
        ((ChunkThreads.start p 2).exec defaultConfig
          (.recycle 0 0 4194304 33554432 false)).bind fun first =>
        (permittedRuns (fun s action => s.pool.baseNodes ≠ [] ∧ action.goesOn = true)
          (ChunkThreads.exec defaultConfig) first [.run 0, .run 0]).bind fun second =>
        (second.exec defaultConfig (.recycle 0 0 4194304 8388608 false)).bind fun third =>
        (third.exec defaultConfig (.record 1 33554432 4194304 false)).bind fun fourth =>
        (permittedRuns (fun s action => s.pool.baseNodes ≠ [] ∧ action.goesOn = true)
          (ChunkThreads.exec defaultConfig) fourth
          [.run 1, .run 1, .run 1, .run 1, .run 0, .run 0]).map fun s =>
        decide (p.baseNodes ≠ [] ∧ second.pool.baseNodes ≠ [] ∧ third.pool.baseNodes ≠ [] ∧
          third.pool.freeSpans ++ third.pool.hugeSpans ++ third.pool.baseChunks ++
            third.pool.leaked ++ third.threads.flatMap ChunkPc.flight =
            [⟨20971520, 4194304⟩, ⟨37748736, 16777216⟩, ⟨25165824, 4194304⟩,
              ⟨29360128, 4194304⟩] ∧
          s.threads = [.idle, .idle] ∧
          ∃ a ∈ s.pool.chunksAd, ∃ b ∈ s.pool.chunksAd,
            (s.pool.node a).addr + (s.pool.node a).size = (s.pool.node b).addr)) =
      some true := by
    decide +kernel
  obtain ⟨p, created, outcome⟩ := Option.bind_eq_some_iff.mp outcome
  obtain ⟨first, entered, outcome⟩ := Option.bind_eq_some_iff.mp outcome
  obtain ⟨second, linked, outcome⟩ := Option.bind_eq_some_iff.mp outcome
  obtain ⟨third, cut, outcome⟩ := Option.bind_eq_some_iff.mp outcome
  obtain ⟨fourth, returned, outcome⟩ := Option.bind_eq_some_iff.mp outcome
  obtain ⟨s, finished, facts⟩ := Option.map_eq_some_iff.mp outcome
  obtain ⟨startNodes, secondNodes, thirdNodes, places, idle, adjacent⟩ := of_decide_eq_true facts
  have region : Region defaultConfig 16777216 37748736 :=
    ⟨by decide +kernel, by decide +kernel, by decide +kernel⟩
  have usable : (Span.mk (usableAddr defaultConfig 16777216 37748736)
      (usableSize defaultConfig 16777216 37748736)) = ⟨20971520, 33554432⟩ := by
    decide +kernel
  let permitted : ChunkThreads → ChunkAction → Prop := fun s action =>
    s.Permitted defaultConfig action ∧ s.pool.baseNodes ≠ []
  have goesOn : ∀ (s : ChunkThreads) (action : ChunkAction),
      s.pool.baseNodes ≠ [] ∧ action.goesOn = true → permitted s action := by
    rintro s action ⟨nodes, isRun⟩
    cases action with
    | run i => exact ⟨trivial, nodes⟩
    | recycle i newAddr size alignment zero => cases isRun
    | record i chunk size zeroed => cases isRun
  have wide : (ChunkThreads.start p 2).Permitted defaultConfig
      (.recycle 0 0 4194304 33554432 false) :=
    ⟨by decide, by decide +kernel, by decide +kernel, 25, by decide, by decide, by decide⟩
  have narrow : second.Permitted defaultConfig (.recycle 0 0 4194304 8388608 false) :=
    ⟨by decide, by decide +kernel, by decide +kernel, 23, by decide, by decide, by decide⟩
  have atFirst : Reached permitted (ChunkThreads.exec defaultConfig) (.start p 2) first :=
    Reached.start.next ⟨wide, startNodes⟩ entered
  have atSecond := atFirst.append (Reached.start.of_permittedRuns linked) goesOn
  have atThird := atSecond.next ⟨narrow, secondNodes⟩ cut
  have sound : third.Sound defaultConfig (Span.mk 20971520 33554432).ind := by
    have isFresh := (poolCreateEmpty_fresh defaultConfig_fits region created).1
    rw [← usable]
    exact (ChunkThreads.start_sound isFresh 2).of_reached
      (bounded_usable defaultConfig_fits region) (fun _ _ allowed => allowed.1) atThird
  have lent : third.Permitted defaultConfig (.record 1 33554432 4194304 false) := by
    refine ⟨⟨by decide, by decide +kernel, by decide +kernel⟩, fun x inside => ?_⟩
    rw [Span.has_mk] at inside
    apply sound.lent_of
    · exact Span.ind_eq_one_iff.mpr (Span.has_mk.mpr (by omega))
    · rw [places]
      simp only [cover_cons, cover_nil]
      have one := Span.ind_spec ⟨20971520, 4194304⟩ x
      have two := Span.ind_spec ⟨37748736, 16777216⟩ x
      have three := Span.ind_spec ⟨25165824, 4194304⟩ x
      have four := Span.ind_spec ⟨29360128, 4194304⟩ x
      dsimp only at one two three four
      omega
  have atFourth := atThird.next ⟨lent, thirdNodes⟩ returned
  have reached := atFourth.append (Reached.start.of_permittedRuns finished) goesOn
  refine ⟨p, s, created, reached, ?_, adjacent⟩
  rw [idle]
  decide

end Jemalloc
end Vmem
