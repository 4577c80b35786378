import Vmem.Jemalloc.Quarantine

/-!
# Where quarantined blocks are released

A block that went through the quarantine is released to the base pool.  For a run of an
arena this does not matter, for a huge block it does: runs of a thread that hands only runs
of custom pools to the quarantine release every block to the pool that has it, and a huge
block of a custom pool is looked up in the base pool, at the latest when the thread exits.
-/

namespace Vmem
namespace Jemalloc

namespace Heap

variable {c : Config} {h : Heap} {pool other ptr x : Nat}

/-- The pool has a live block at the address. -/
def Live (h : Heap) (pool ptr : Nat) : Prop := ∃ b ∈ h.runs pool ++ h.huge pool, b.ptr = ptr

instance (h : Heap) (pool ptr : Nat) : Decidable (h.Live pool ptr) :=
  inferInstanceAs (Decidable (∃ b ∈ h.runs pool ++ h.huge pool, b.ptr = ptr))

theorem lookup_runs : (h.lookup pool ptr).runs = h.runs := by
  unfold lookup
  split <;> rfl

theorem lookup_huge : (h.lookup pool ptr).huge = h.huge := by
  unfold lookup
  split <;> rfl

theorem hugeDalloc_runs : (h.hugeDalloc pool ptr).runs = h.runs := lookup_runs

theorem hugeDalloc_huge : (h.hugeDalloc pool ptr).huge =
    Function.update h.huge pool ((h.huge pool).filter fun b => b.ptr ≠ ptr) := by
  unfold hugeDalloc
  dsimp only
  rw [lookup_huge]

/-- Releasing a block lists fewer runs. -/
theorem mem_runs_idalloct {b : LiveBlock} (member : b ∈ (h.idalloct c pool ptr).runs other) :
    b ∈ h.runs other := by
  unfold idalloct at member
  split at member
  · exact (List.mem_filter.mp member).1
  · rw [hugeDalloc_runs] at member
    exact member

/-- Releasing a block lists fewer huge blocks. -/
theorem mem_huge_idalloct {b : LiveBlock} (member : b ∈ (h.idalloct c pool ptr).huge other) :
    b ∈ h.huge other := by
  unfold idalloct at member
  split at member
  · exact member
  · rw [hugeDalloc_huge] at member
    by_cases same : other = pool
    · subst same
      rw [Function.update_self] at member
      exact (List.mem_filter.mp member).1
    · rw [Function.update_of_ne same] at member
      exact member

theorem mem_runs_idalloct_of_ne {b : LiveBlock} (differs : b.ptr ≠ ptr)
    (member : b ∈ h.runs other) :
    b ∈ (h.idalloct c pool ptr).runs other := by
  unfold idalloct
  split
  · exact List.mem_filter.mpr ⟨member, by simpa using differs⟩
  · rw [hugeDalloc_runs]
    exact member

theorem mem_huge_idalloct_of_ne {b : LiveBlock} (differs : b.ptr ≠ ptr)
    (member : b ∈ h.huge other) :
    b ∈ (h.idalloct c pool ptr).huge other := by
  unfold idalloct
  split
  · exact member
  · rw [hugeDalloc_huge]
    by_cases same : other = pool
    · subst same
      rw [Function.update_self]
      exact List.mem_filter.mpr ⟨member, by simpa using differs⟩
    · rw [Function.update_of_ne same]
      exact member

theorem live_of_idalloct (live : (h.idalloct c pool ptr).Live other x) : h.Live other x := by
  obtain ⟨b, member, same⟩ := live
  refine ⟨b, ?_, same⟩
  obtain inRuns | inHuge := List.mem_append.mp member
  · exact List.mem_append_left _ (mem_runs_idalloct inRuns)
  · exact List.mem_append_right _ (mem_huge_idalloct inHuge)

/-- Other blocks stay. -/
theorem Live.idalloct (live : h.Live other x) (differs : x ≠ ptr) :
    (h.idalloct c pool ptr).Live other x := by
  obtain ⟨b, member, same⟩ := live
  refine ⟨b, ?_, same⟩
  obtain inRuns | inHuge := List.mem_append.mp member
  · exact List.mem_append_left _ (mem_runs_idalloct_of_ne (by rwa [same]) inRuns)
  · exact List.mem_append_right _ (mem_huge_idalloct_of_ne (by rwa [same]) inHuge)

theorem HasHuge.idalloct (found : h.HasHuge other x) (differs : x ≠ ptr) :
    (h.idalloct c pool ptr).HasHuge other x := by
  obtain ⟨b, member, same⟩ := found
  exact ⟨b, mem_huge_idalloct_of_ne (by rwa [same]) member, same⟩

theorem Serves.idalloct (serves : h.Serves c other x) (differs : x ≠ ptr) :
    (h.idalloct c pool ptr).Serves c other x :=
  fun aligned => (serves aligned).idalloct differs

theorem Placed.idalloct (placed : h.Placed c) : (h.idalloct c pool ptr).Placed c :=
  ⟨fun other b member => placed.runs other b (mem_runs_idalloct member),
    fun other b member => placed.huge other b (mem_huge_idalloct member)⟩

/-- A live block that starts a chunk is a huge block of its pool. -/
theorem Live.hasHuge (placed : h.Placed c) (live : h.Live pool ptr)
    (aligned : c.chunkFloor ptr = ptr) :
    h.HasHuge pool ptr := by
  obtain ⟨b, member, same⟩ := live
  obtain inRuns | inHuge := List.mem_append.mp member
  · exact absurd (same ▸ (c.chunkFloor_eq_iff ptr).mp aligned) (placed.runs pool b inRuns).1
  · exact ⟨b, inHuge, same⟩

/-- A pool serves its own blocks. -/
theorem Live.serves (placed : h.Placed c) (live : h.Live pool ptr) : h.Serves c pool ptr :=
  fun aligned => live.hasHuge placed aligned

/-- A block that the pool serves is gone after it is released. -/
theorem idalloct_not_live (placed : h.Placed c) : ¬(h.idalloct c pool ptr).Live pool ptr := by
  rintro ⟨b, member, same⟩
  unfold idalloct at member
  split at member
  · next behind =>
      obtain inRuns | inHuge := List.mem_append.mp member
      · have differs := (List.mem_filter.mp inRuns).2
        simp [same] at differs
      · exact behind ((c.chunkFloor_eq_iff ptr).mpr (same ▸ (placed.huge pool b inHuge).1))
  · next aligned =>
      obtain inRuns | inHuge := List.mem_append.mp member
      · rw [hugeDalloc_runs] at inRuns
        exact (placed.runs pool b inRuns).1
          (same ▸ (c.chunkFloor_eq_iff ptr).mp (Classical.not_not.mp aligned))
      · rw [hugeDalloc_huge, Function.update_self] at inHuge
        have differs := (List.mem_filter.mp inHuge).2
        simp [same] at differs

/-- A run is gone wherever it is looked for. -/
theorem idalloct_run_not_live (placed : h.Placed c) (behind : c.chunkFloor ptr ≠ ptr) :
    ¬(h.idalloct c pool ptr).Live other ptr := by
  rintro ⟨b, member, same⟩
  unfold idalloct at member
  rw [if_pos behind] at member
  obtain inRuns | inHuge := List.mem_append.mp member
  · have differs := (List.mem_filter.mp inRuns).2
    simp [same] at differs
  · exact behind ((c.chunkFloor_eq_iff ptr).mpr (same ▸ (placed.huge other b inHuge).1))

/-! ### Lookups that fail -/

/-- Releasing a block misses at most that block. -/
theorem missed_idalloct (c : Config) (h : Heap) (pool ptr : Nat) :
    (h.idalloct c pool ptr).missed = h.missed ∨
    ((h.idalloct c pool ptr).missed = (pool, ptr) :: h.missed ∧ c.chunkFloor ptr = ptr) := by
  unfold idalloct
  split
  · exact Or.inl rfl
  · next aligned =>
      unfold hugeDalloc lookup
      split
      · exact Or.inl rfl
      · exact Or.inr ⟨rfl, Classical.not_not.mp aligned⟩

/-- The lookups of one address in the base pool that failed. -/
def misses (h : Heap) (ptr : Nat) : Nat := h.missed.count (0, ptr)

theorem misses_le_idalloct : h.misses x ≤ (h.idalloct c pool ptr).misses x := by
  unfold misses
  obtain same | ⟨more, _⟩ := missed_idalloct c h pool ptr
  · rw [same]
  · rw [more]
    exact List.count_le_count_cons

/-- Only the address itself can be missed. -/
theorem misses_idalloct_of_ne (differs : x ≠ ptr ∨ c.chunkFloor x ≠ x) :
    (h.idalloct c pool ptr).misses x = h.misses x := by
  unfold misses
  obtain same | ⟨more, aligned⟩ := missed_idalloct c h pool ptr
  · rw [same]
  · rw [more, List.count_cons_of_ne]
    intro same
    injection same with _ same
    subst same
    exact differs.elim (fun absurd => absurd rfl) (fun behind => behind aligned)

theorem misses_idalloct_of_serves (serves : h.Serves c pool ptr) :
    (h.idalloct c pool ptr).misses x = h.misses x := by
  unfold misses
  rw [(idalloct_keeps serves).missed]

/-- A huge block that the base pool does not have is missed. -/
theorem misses_idalloct_of_missing (aligned : c.chunkFloor ptr = ptr) (missing : ¬h.HasHuge 0 ptr) :
    (h.idalloct c 0 ptr).misses ptr = h.misses ptr + 1 := by
  unfold misses idalloct hugeDalloc lookup
  rw [if_neg (not_not_intro aligned), if_neg missing]
  exact List.count_cons_self

/-! ### Several releases -/

theorem live_of_releaseAll {ptrs : List Nat} (live : (h.releaseAll c ptrs).Live other x) :
    h.Live other x := by
  induction ptrs generalizing h with
  | nil => exact live
  | cons first rest inductionHypothesis => exact live_of_idalloct (inductionHypothesis live)

theorem Placed.releaseAll {ptrs : List Nat} (placed : h.Placed c) :
    (h.releaseAll c ptrs).Placed c := by
  induction ptrs generalizing h with
  | nil => exact placed
  | cons first rest inductionHypothesis => exact inductionHypothesis placed.idalloct

theorem Live.releaseAll {ptrs : List Nat} (live : h.Live other x) (differs : x ∉ ptrs) :
    (h.releaseAll c ptrs).Live other x := by
  induction ptrs generalizing h with
  | nil => exact live
  | cons first rest inductionHypothesis =>
      have notFirst : x ≠ first := fun same => differs (same ▸ List.mem_cons_self)
      exact inductionHypothesis (live.idalloct notFirst)
        fun member => differs (List.mem_cons_of_mem _ member)

theorem Serves.releaseAll {ptrs : List Nat} (serves : h.Serves c other x) (differs : x ∉ ptrs) :
    (h.releaseAll c ptrs).Serves c other x := by
  induction ptrs generalizing h with
  | nil => exact serves
  | cons first rest inductionHypothesis =>
      have notFirst : x ≠ first := fun same => differs (same ▸ List.mem_cons_self)
      exact inductionHypothesis (serves.idalloct notFirst)
        fun member => differs (List.mem_cons_of_mem _ member)

/-- Blocks that the base pool serves are released without a miss. -/
theorem releaseAll_keeps {ptrs : List Nat} (distinct : ptrs.Nodup)
    (serves : ∀ ptr ∈ ptrs, h.Serves c 0 ptr) : Keeps c 0 h (h.releaseAll c ptrs) := by
  induction ptrs generalizing h with
  | nil => exact Keeps.refl c 0 h
  | cons first rest inductionHypothesis =>
      obtain ⟨notLater, distinct⟩ := List.nodup_cons.mp distinct
      have one : Keeps c 0 h (h.idalloct c 0 first) :=
        idalloct_keeps (serves first List.mem_cons_self)
      apply one.trans (inductionHypothesis distinct _)
      intro ptr member
      have notFirst : ptr ≠ first := fun same => notLater (same ▸ member)
      exact (serves ptr (List.mem_cons_of_mem _ member)).idalloct notFirst

/-- Addresses that are not among the released ones are not missed, and runs never. -/
theorem misses_releaseAll_of_ne {ptrs : List Nat} (differs : x ∉ ptrs ∨ c.chunkFloor x ≠ x) :
    (h.releaseAll c ptrs).misses x = h.misses x := by
  induction ptrs generalizing h with
  | nil => rfl
  | cons first rest inductionHypothesis =>
      have one : x ≠ first ∨ c.chunkFloor x ≠ x :=
        differs.imp (fun notIn same => notIn (same ▸ List.mem_cons_self)) id
      have others : x ∉ rest ∨ c.chunkFloor x ≠ x :=
        differs.imp (fun notIn member => notIn (List.mem_cons_of_mem _ member)) id
      exact (inductionHypothesis others).trans (misses_idalloct_of_ne one)

theorem misses_le_releaseAll {ptrs : List Nat} : h.misses x ≤ (h.releaseAll c ptrs).misses x := by
  induction ptrs generalizing h with
  | nil => exact Nat.le_refl _
  | cons first rest inductionHypothesis =>
      exact Nat.le_trans misses_le_idalloct inductionHypothesis

/-- A huge block that the base pool does not have is missed when it is among those released. -/
theorem misses_releaseAll_of_missing {ptrs : List Nat} (aligned : c.chunkFloor x = x)
    (missing : ¬h.HasHuge 0 x) (member : x ∈ ptrs) :
    h.misses x < (h.releaseAll c ptrs).misses x := by
  induction ptrs generalizing h with
  | nil => cases member
  | cons first rest inductionHypothesis =>
      show h.misses x < ((h.idalloct c 0 first).releaseAll c rest).misses x
      by_cases here : x = first
      · subst here
        have missed := misses_idalloct_of_missing aligned missing
        have later :
            (h.idalloct c 0 x).misses x ≤ ((h.idalloct c 0 x).releaseAll c rest).misses x :=
          misses_le_releaseAll
        omega
      · have still : ¬(h.idalloct c 0 first).HasHuge 0 x := by
          rintro ⟨b, inHuge, same⟩
          exact missing ⟨b, mem_huge_idalloct inHuge, same⟩
        have := inductionHypothesis still ((List.mem_cons.mp member).resolve_left here)
        have first : h.misses x ≤ (h.idalloct c 0 first).misses x := misses_le_idalloct
        omega

/-- A run that is among those released is gone. -/
theorem releaseAll_run_not_live {ptrs : List Nat} (placed : h.Placed c)
    (behind : c.chunkFloor x ≠ x) (member : x ∈ ptrs) : ¬(h.releaseAll c ptrs).Live other x := by
  induction ptrs generalizing h with
  | nil => cases member
  | cons first rest inductionHypothesis =>
      by_cases here : x = first
      · subst here
        intro live
        exact idalloct_run_not_live placed behind (live_of_releaseAll live)
      · exact inductionHypothesis placed.idalloct ((List.mem_cons.mp member).resolve_left here)

/-- Every block is of some size, and the pools in use are known. -/
def Sized (h : Heap) : Prop :=
  ∀ pool, ∀ b ∈ h.runs pool ++ h.huge pool, 0 < b.usize ∧ pool < h.npools

theorem idalloct_npools : (h.idalloct c pool ptr).npools = h.npools := by
  unfold idalloct
  split
  · rfl
  · unfold hugeDalloc lookup
    split <;> rfl

theorem Sized.idalloct (sized : h.Sized) : (h.idalloct c pool ptr).Sized := by
  intro other b member
  rw [idalloct_npools]
  apply sized other b
  obtain inRuns | inHuge := List.mem_append.mp member
  · exact List.mem_append_left _ (mem_runs_idalloct inRuns)
  · exact List.mem_append_right _ (mem_huge_idalloct inHuge)

theorem Sized.releaseAll {ptrs : List Nat} (sized : h.Sized) : (h.releaseAll c ptrs).Sized := by
  induction ptrs generalizing h with
  | nil => exact sized
  | cons first rest inductionHypothesis => exact inductionHypothesis sized.idalloct

/-- A list of blocks in which the address occurs gives a size that is not zero. -/
theorem sallocIn_pos {blocks : Nat → List LiveBlock} (known : pool < h.npools)
    (positive : ∀ pool, ∀ b ∈ blocks pool, 0 < b.usize) (found : ∃ b ∈ blocks pool, b.ptr = ptr) :
    0 < h.sallocIn blocks ptr := by
  unfold sallocIn
  cases search : (List.range h.npools).findSome? fun pool =>
      (blocks pool).find? fun b => b.ptr = ptr with
  | none =>
      obtain ⟨b, member, same⟩ := found
      have absent := List.findSome?_eq_none_iff.mp search pool (List.mem_range.mpr known)
      have := List.find?_eq_none.mp absent b member
      simp [same] at this
  | some b =>
      obtain ⟨owner, _, search⟩ := List.exists_of_findSome?_eq_some search
      exact positive owner b (List.mem_of_find?_eq_some search)

theorem isalloc_pos (placed : h.Placed c) (sized : h.Sized) (live : h.Live pool ptr) :
    0 < h.isalloc c ptr := by
  obtain ⟨b, member, same⟩ := live
  have known := (sized pool b member).2
  unfold isalloc
  split
  · next behind =>
      apply sallocIn_pos known fun pool b inRuns => (sized pool b (List.mem_append_left _ inRuns)).1
      obtain inRuns | inHuge := List.mem_append.mp member
      · exact ⟨b, inRuns, same⟩
      · exact absurd ((c.chunkFloor_eq_iff ptr).mpr (same ▸ (placed.huge pool b inHuge).1)) behind
  · next aligned =>
      apply sallocIn_pos known fun pool b inHuge =>
        (sized pool b (List.mem_append_right _ inHuge)).1
      obtain inRuns | inHuge := List.mem_append.mp member
      · exact absurd (same ▸ (c.chunkFloor_eq_iff ptr).mp (Classical.not_not.mp aligned))
          (placed.runs pool b inRuns).1
      · exact ⟨b, inHuge, same⟩

end Heap

namespace QuarantineThread

variable {c : Config} {t after : QuarantineThread} {queue : List Nat} {optQuarantine pool ptr : Nat}
  {initFails : Bool}

/-! ## What the thread does with a queue of blocks -/

/-- Some blocks of the queue are released, the rest stays in quarantine. -/
structure Passes (c : Config) (t after : QuarantineThread) (queue out : List Nat) : Prop where
  sound : after.Sound
  handed : after.handed = t.handed
  queue : queue.Perm (out ++ after.ring)
  heap : after.heap = t.heap.releaseAll c out
  released : after.released = out.reverse ++ t.released

theorem quarantine_passes (t : QuarantineThread) (optQuarantine ptr : Nat) (initFails : Bool)
    (sound : t.Sound)
    (positive : 0 < t.heap.isalloc c ptr) :
    ∃ out, Passes c t (t.quarantine c optQuarantine ptr initFails) (t.ring ++ [ptr]) out := by
  obtain ⟨gone, ring, afterSound, isRing, handed, ⟨split, heap, released⟩ |
    ⟨split, heap, released⟩⟩ :=
    quarantine_cases optQuarantine t ptr initFails sound positive
  · refine ⟨gone, afterSound, handed, ?_, heap, released⟩
    rw [split, isRing]
  · refine ⟨gone ++ [ptr], afterSound, handed, ?_, heap, released⟩
    rw [split, isRing, List.append_assoc, List.append_assoc]
    exact List.Perm.append_left gone List.perm_append_comm

theorem cleanup_passes (sound : t.Sound) :
    Passes c t (t.quarantineCleanup c) t.ring t.ring ∧ (t.quarantineCleanup c).ring = [] := by
  obtain ⟨afterSound, ring, handed, heap, released⟩ := quarantineCleanup_spec (c := c) t sound
  refine ⟨⟨afterSound, handed, ?_, heap, released⟩, ring⟩
  rw [ring, List.append_nil]

/-- The heap is in order, and the blocks of the queue are live and wait to be released. -/
structure Ready (c : Config) (t : QuarantineThread) (queue : List Nat) : Prop where
  placed : t.heap.Placed c
  sized : t.heap.Sized
  sound : t.Sound
  distinct : queue.Nodup
  live : ∀ x ∈ queue, ∃ pool, t.heap.Live pool x
  owners : ∀ pool other x, t.heap.Live pool x → t.heap.Live other x → pool = other
  /-- What was handed over is released or waits. -/
  flow : t.handed.Perm (t.released ++ queue)

/-- The blocks of the queue can be released without a miss. -/
structure Served (c : Config) (t : QuarantineThread) (queue : List Nat) : Prop where
  missed : t.heap.missed = []
  serves : ∀ x ∈ queue, t.heap.Serves c 0 x

theorem Passes.ready {out : List Nat} (passes : Passes c t after queue out)
    (ready : Ready c t queue) :
    Ready c after after.ring := by
  have distinct : (out ++ after.ring).Nodup := passes.queue.nodup_iff.mp ready.distinct
  obtain ⟨_, ringDistinct, disjoint⟩ := List.nodup_append.mp distinct
  have waiting : ∀ x ∈ after.ring, x ∉ out := fun x inRing inOut => disjoint x inOut x inRing rfl
  refine ⟨?_, ?_, passes.sound, ringDistinct, ?_, ?_, ?_⟩
  · rw [passes.heap]
    exact ready.placed.releaseAll
  · rw [passes.heap]
    exact ready.sized.releaseAll
  · intro x inRing
    obtain ⟨owner, live⟩ := ready.live x (passes.queue.mem_iff.mpr (List.mem_append_right _ inRing))
    rw [passes.heap]
    exact ⟨owner, live.releaseAll (waiting x inRing)⟩
  · intro owner other x live liveOther
    rw [passes.heap] at live liveOther
    exact ready.owners owner other x (Heap.live_of_releaseAll live)
      (Heap.live_of_releaseAll liveOther)
  · rw [passes.handed, passes.released]
    calc
      t.handed.Perm (t.released ++ queue) := ready.flow
      List.Perm _ (t.released ++ (out ++ after.ring)) := passes.queue.append_left t.released
      List.Perm _ (t.released ++ out ++ after.ring) := by rw [List.append_assoc]
      List.Perm _ (out.reverse ++ t.released ++ after.ring) :=
        (List.perm_append_comm.trans (out.reverse_perm.symm.append_right t.released)).append_right
          after.ring

theorem Passes.served {out : List Nat} (passes : Passes c t after queue out)
    (ready : Ready c t queue)
    (served : Served c t queue) : Served c after after.ring := by
  have distinct : (out ++ after.ring).Nodup := passes.queue.nodup_iff.mp ready.distinct
  obtain ⟨outDistinct, _, disjoint⟩ := List.nodup_append.mp distinct
  have member : ∀ x ∈ out ++ after.ring, t.heap.Serves c 0 x :=
    fun x inside => served.serves x (passes.queue.mem_iff.mpr inside)
  refine ⟨?_, ?_⟩
  · rw [passes.heap, (Heap.releaseAll_keeps outDistinct fun x inOut =>
      member x (List.mem_append_left _ inOut)).missed]
    exact served.missed
  · intro x inRing
    rw [passes.heap]
    exact (member x (List.mem_append_right _ inRing)).releaseAll
      fun inOut => disjoint x inOut x inRing rfl

/-! ## Runs -/

end QuarantineThread

/-- What can happen around the quarantine of a thread, while no pool is deleted. -/
inductive QuarantineOp
  /-- A new block, for instance the first half of a moving reallocation. -/
  | alloc (pool : Nat) (huge : Bool) (b : LiveBlock)
  /-- `pool_iqalloct` on the block that a moving reallocation leaves behind. -/
  | hand (pool ptr : Nat) (initFails : Bool)
  /-- `je_pool_free`, which does not use the quarantine. -/
  | free (pool ptr : Nat)
  /-- `quarantine_alloc_hook`. -/
  | allocHook (initFails : Bool)
  /-- `quarantine_cleanup` at thread exit. -/
  | cleanup

namespace QuarantineThread

variable {c : Config} {t after : QuarantineThread} {queue : List Nat} {optQuarantine pool ptr : Nat}
  {initFails : Bool}

/-- One call. -/
def step (c : Config) (optQuarantine : Nat) (t : QuarantineThread) :
    QuarantineOp → Option QuarantineThread
  | .alloc pool huge b => some { t with heap := t.heap.add pool huge b }
  | .hand pool ptr initFails => some (t.poolIqalloct c optQuarantine pool ptr initFails)
  | .free pool ptr => some { t with heap := t.heap.idalloct c pool ptr }
  | .allocHook initFails => some (t.quarantineAllocHook initFails)
  | .cleanup => some (t.quarantineCleanup c)

/-- New blocks are put where there is none, and live blocks are released once. -/
def Permitted (c : Config) (t : QuarantineThread) : QuarantineOp → Prop
  | .alloc pool huge b =>
      pool < t.heap.npools ∧ 0 < b.usize ∧ (if huge then b.IsHuge c else b.IsRun c) ∧
        ∀ other, ¬t.heap.Live other b.ptr
  | .hand pool ptr _ => t.heap.Live pool ptr ∧ ptr ∉ t.ring
  | .free pool ptr => t.heap.Live pool ptr ∧ ptr ∉ t.ring
  | .allocHook _ | .cleanup => True

/-- No huge block of a custom pool goes into quarantine. -/
def HandsRuns (c : Config) (optQuarantine : Nat) : QuarantineOp → Prop
  | .hand pool ptr _ => optQuarantine = 0 ∨ pool = 0 ∨ c.chunkFloor ptr ≠ ptr
  | .alloc _ _ _ | .free _ _ | .allocHook _ | .cleanup => True

/-- A thread with `npools` pools and no blocks. -/
def start (npools : Nat) : QuarantineThread :=
  ⟨⟨npools, fun _ => [], fun _ => [], []⟩, .null, [], []⟩

/-- If the thread hands the block over and exits, the block is no longer a live one of its pool
and was not looked up in the base pool.  The extents of free memory are not part of the heap
here. -/
def ReturnsToPool (c : Config) (optQuarantine : Nat) (t : QuarantineThread) (pool ptr : Nat)
    (initFails : Bool) : Prop :=
  let after := (t.poolIqalloct c optQuarantine pool ptr initFails).quarantineCleanup c
  ¬after.heap.Live pool ptr ∧ after.heap.misses ptr = t.heap.misses ptr

/-- Without quarantine a block is released to its pool at once. -/
theorem poolIqalloct_zero : t.poolIqalloct c 0 pool ptr initFails =
    { t with
      heap := t.heap.idalloct c pool ptr
      handed := ptr :: t.handed
      released := ptr :: t.released } := rfl

/-- With quarantine the block is put at the end of the queue. -/
theorem poolIqalloct_ready (initFails : Bool) (enabled : optQuarantine ≠ 0)
    (ready : Ready c t t.ring)
    (live : t.heap.Live pool ptr) (fresh : ptr ∉ t.ring) :
    ∃ before out, Ready c before (t.ring ++ [ptr]) ∧ before.heap = t.heap ∧
      Passes c before (t.poolIqalloct c optQuarantine pool ptr initFails)
        (t.ring ++ [ptr]) out := by
  let before : QuarantineThread := { t with handed := ptr :: t.handed }
  have positive := Heap.isalloc_pos ready.placed ready.sized live
  obtain ⟨out, passes⟩ := quarantine_passes before optQuarantine ptr initFails ready.sound positive
  refine ⟨before, out, ⟨ready.placed, ready.sized, ready.sound, ?_, ?_, ready.owners, ?_⟩, rfl, ?_⟩
  · rw [List.nodup_append]
    refine ⟨ready.distinct, by simp, ?_⟩
    intro x inRing other isPtr same
    rw [List.mem_singleton] at isPtr
    exact fresh (isPtr ▸ same ▸ inRing)
  · intro x member
    obtain inRing | isPtr := List.mem_append.mp member
    · exact ready.live x inRing
    · exact ⟨pool, (List.mem_singleton.mp isPtr) ▸ live⟩
  · calc
      (ptr :: t.handed).Perm (ptr :: (t.released ++ t.ring)) := ready.flow.cons ptr
      List.Perm _ (t.released ++ t.ring ++ [ptr]) := (List.perm_append_singleton ptr _).symm
      List.Perm _ (t.released ++ (t.ring ++ [ptr])) := by rw [List.append_assoc]
  · unfold poolIqalloct
    rw [if_pos enabled]
    exact passes

/-- Releasing a block that does not wait leaves the queue alone. -/
theorem Ready.idalloct (ready : Ready c t queue) (fresh : ptr ∉ queue) {handed released : List Nat}
    (flow : handed.Perm (released ++ queue)) :
    Ready c ⟨t.heap.idalloct c pool ptr, t.tsd, handed, released⟩ queue where
  placed := ready.placed.idalloct
  sized := ready.sized.idalloct
  sound := ready.sound
  distinct := ready.distinct
  live := by
    intro x member
    obtain ⟨owner, live⟩ := ready.live x member
    exact ⟨owner, live.idalloct fun same => fresh (same ▸ member)⟩
  owners := fun owner other x live liveOther =>
    ready.owners owner other x (Heap.live_of_idalloct live) (Heap.live_of_idalloct liveOther)
  flow := flow

theorem Served.idalloct (served : Served c t queue) (fresh : ptr ∉ queue)
    (serves : t.heap.Serves c pool ptr) (handed released : List Nat) :
    Served c ⟨t.heap.idalloct c pool ptr, t.tsd, handed, released⟩ queue where
  missed := (Heap.idalloct_keeps serves).missed.trans served.missed
  serves := fun x member =>
    (served.serves x member).idalloct fun same => fresh (same ▸ member)

/-- The blocks after an allocation are the old ones and the new one. -/
theorem mem_add {huge : Bool} {b old : LiveBlock} {h : Heap} {other : Nat} :
    old ∈ (h.add pool huge b).runs other ++ (h.add pool huge b).huge other ↔
      old ∈ h.runs other ++ h.huge other ∨ (other = pool ∧ old = b) := by
  unfold Heap.add
  by_cases same : other = pool
  · subst same
    cases huge with
    | false =>
        simp only [Bool.false_eq_true, if_false, Function.update_self, List.mem_append,
          List.mem_cons,
          true_and]
        tauto
    | true =>
        simp only [if_true, Function.update_self, List.mem_append, List.mem_cons, true_and]
        tauto
  · cases huge with
    | false =>
        simp only [Bool.false_eq_true, if_false, Function.update_of_ne same, same, false_and,
          or_false]
    | true => simp only [if_true, Function.update_of_ne same, same, false_and, or_false]

theorem live_add {huge : Bool} {b : LiveBlock} {h : Heap} {other x : Nat} :
    (h.add pool huge b).Live other x ↔ h.Live other x ∨ (other = pool ∧ x = b.ptr) := by
  constructor
  · rintro ⟨old, member, same⟩
    obtain old | ⟨here, rfl⟩ := mem_add.mp member
    · exact Or.inl ⟨_, old, same⟩
    · exact Or.inr ⟨here, same.symm⟩
  · rintro (⟨old, member, same⟩ | ⟨here, same⟩)
    · exact ⟨old, mem_add.mpr (Or.inl member), same⟩
    · exact ⟨b, mem_add.mpr (Or.inr ⟨here, rfl⟩), same.symm⟩

theorem Ready.add {huge : Bool} {b : LiveBlock} (ready : Ready c t queue)
    (permitted : t.Permitted c (.alloc pool huge b)) :
    Ready c { t with heap := t.heap.add pool huge b } queue := by
  obtain ⟨known, positive, kind, fresh⟩ := permitted
  refine ⟨?_, ?_, ready.sound, ready.distinct, ?_, ?_, ready.flow⟩
  · cases huge with
    | false => exact (Heap.add_run_keeps (by simpa using kind)).placed ready.placed
    | true => exact (Heap.add_huge_keeps (by simpa using kind)).placed ready.placed
  · intro other old member
    have npools : (t.heap.add pool huge b).npools = t.heap.npools := by
      unfold Heap.add
      split <;> rfl
    rw [npools]
    obtain old | ⟨rfl, rfl⟩ := mem_add.mp member
    · exact ready.sized other _ old
    · exact ⟨positive, known⟩
  · intro x member
    obtain ⟨owner, live⟩ := ready.live x member
    exact ⟨owner, live_add.mpr (Or.inl live)⟩
  · intro owner other x live liveOther
    obtain old | ⟨here, new⟩ := live_add.mp live
    · obtain oldOther | ⟨_, newOther⟩ := live_add.mp liveOther
      · exact ready.owners owner other x old oldOther
      · exact absurd (newOther ▸ old) (fresh owner)
    · obtain oldOther | ⟨hereOther, _⟩ := live_add.mp liveOther
      · exact absurd (new ▸ oldOther) (fresh other)
      · rw [here, hereOther]

theorem Served.add {huge : Bool} {b : LiveBlock} (served : Served c t queue) :
    Served c { t with heap := t.heap.add pool huge b } queue := by
  refine ⟨?_, ?_⟩
  · cases huge with
    | false => exact served.missed
    | true => exact served.missed
  · intro x member aligned
    obtain ⟨old, inHuge, same⟩ := served.serves x member aligned
    refine ⟨old, ?_, same⟩
    cases huge with
    | false => exact inHuge
    | true =>
        show old ∈ Function.update t.heap.huge pool (b :: t.heap.huge pool) 0
        by_cases base : 0 = pool
        · subst base
          rw [Function.update_self]
          exact List.mem_cons_of_mem _ inHuge
        · rw [Function.update_of_ne base]
          exact inHuge

/-- A new ring is sound. -/
theorem sound_new (lgMaxobjs : Nat) : (Quarantine.new lgMaxobjs).Sound where
  fits := Ring.fits_empty (Nat.two_pow_pos _) _
  capacity := rfl
  bytes := rfl
  positive := fun _ member => absurd member List.not_mem_nil

/-- The hook leaves everything but the ring alone, and makes an empty one. -/
theorem allocHook_ring (t : QuarantineThread) (initFails : Bool) :
    (t.quarantineAllocHook initFails).ring = t.ring ∧
    (t.Sound → (t.quarantineAllocHook initFails).Sound) := by
  unfold quarantineAllocHook
  cases state : t.tsd with
  | null =>
      cases initFails with
      | true => exact ⟨rfl, id⟩
      | false =>
          refine ⟨by simp [ring, state, Quarantine.new], fun _ q active => ?_⟩
          injection active with active
          exact active ▸ sound_new lgMaxobjsInit
  | reincarnated => exact ⟨rfl, id⟩
  | purgatory => exact ⟨rfl, id⟩
  | active q => exact ⟨rfl, id⟩

theorem allocHook_fields (t : QuarantineThread) (initFails : Bool) :
    (t.quarantineAllocHook initFails).heap = t.heap ∧
    (t.quarantineAllocHook initFails).handed = t.handed ∧
    (t.quarantineAllocHook initFails).released = t.released := by
  unfold quarantineAllocHook
  split
  · split <;> exact ⟨rfl, rfl, rfl⟩
  · exact ⟨rfl, rfl, rfl⟩

/-- Every call keeps the heap in order and accounts for the blocks that were handed over. -/
theorem ready_step {op : QuarantineOp} (ready : Ready c t t.ring) (permitted : t.Permitted c op)
    (result : t.step c optQuarantine op = some after) : Ready c after after.ring := by
  cases op with
  | alloc pool huge b =>
      injection result with result
      subst result
      exact ready.add permitted
  | hand pool ptr initFails =>
      obtain ⟨live, fresh⟩ := permitted
      injection result with result
      subst result
      by_cases disabled : optQuarantine = 0
      · subst disabled
        exact ready.idalloct fresh (ready.flow.cons ptr)
      · obtain ⟨before, out, queued, _, passes⟩ :=
          poolIqalloct_ready initFails disabled ready live fresh
        exact passes.ready queued
  | free pool ptr =>
      injection result with result
      subst result
      exact ready.idalloct permitted.2 ready.flow
  | allocHook initFails =>
      injection result with result
      subst result
      obtain ⟨ring, sound⟩ := allocHook_ring t initFails
      obtain ⟨heap, handed, released⟩ := allocHook_fields t initFails
      rw [ring]
      exact ⟨heap ▸ ready.placed, heap ▸ ready.sized, sound ready.sound, ready.distinct,
        heap ▸ ready.live, heap ▸ ready.owners, by rw [handed, released]; exact ready.flow⟩
  | cleanup =>
      injection result with result
      subst result
      exact (cleanup_passes ready.sound).1.ready ready

/-- Calls that hand over runs only miss nothing. -/
theorem served_step {op : QuarantineOp} (ready : Ready c t t.ring) (served : Served c t t.ring)
    (permitted : t.Permitted c op) (runs : HandsRuns c optQuarantine op)
    (result : t.step c optQuarantine op = some after) : Served c after after.ring := by
  cases op with
  | alloc pool huge b =>
      injection result with result
      subst result
      exact served.add
  | hand pool ptr initFails =>
      obtain ⟨live, fresh⟩ := permitted
      injection result with result
      subst result
      have serves := live.serves ready.placed
      by_cases disabled : optQuarantine = 0
      · subst disabled
        exact served.idalloct fresh serves _ _
      · obtain ⟨before, out, queued, heap, passes⟩ :=
          poolIqalloct_ready initFails disabled ready live fresh
        apply passes.served queued
        refine ⟨heap ▸ served.missed, ?_⟩
        intro x member
        rw [heap]
        obtain inRing | isPtr := List.mem_append.mp member
        · exact served.serves x inRing
        · rw [List.mem_singleton.mp isPtr]
          obtain base | behind := runs.resolve_left disabled
          · exact base ▸ serves
          · exact fun aligned => absurd aligned behind
  | free pool ptr =>
      obtain ⟨live, fresh⟩ := permitted
      injection result with result
      subst result
      exact served.idalloct fresh (live.serves ready.placed) _ _
  | allocHook initFails =>
      injection result with result
      subst result
      obtain ⟨ring, _⟩ := allocHook_ring t initFails
      obtain ⟨heap, _⟩ := allocHook_fields t initFails
      rw [ring]
      exact ⟨heap ▸ served.missed, heap ▸ served.serves⟩
  | cleanup =>
      injection result with result
      subst result
      exact (cleanup_passes ready.sound).1.served ready served

theorem start_ready (npools : Nat) : Ready c (start npools) (start npools).ring where
  placed := ⟨fun _ _ member => absurd member List.not_mem_nil,
    fun _ _ member => absurd member List.not_mem_nil⟩
  sized := fun _ _ member => absurd member List.not_mem_nil
  sound := fun _ active => by cases active
  distinct := List.nodup_nil
  live := fun _ member => absurd member List.not_mem_nil
  owners := fun _ _ _ live => by
    obtain ⟨_, member, _⟩ := live
    cases member
  flow := List.Perm.refl []

/-- Handing a block over and exiting releases it exactly once, together with everything that was
in quarantine. -/
theorem handed_and_exited (initFails : Bool) (enabled : optQuarantine ≠ 0)
    (ready : Ready c t t.ring)
    (live : t.heap.Live pool ptr) (fresh : ptr ∉ t.ring) :
    ∃ out, ptr ∈ out ∧
      ((t.poolIqalloct c optQuarantine pool ptr initFails).quarantineCleanup c).heap =
        t.heap.releaseAll c out := by
  obtain ⟨before, out, queued, heap, passes⟩ :=
    poolIqalloct_ready initFails enabled ready live fresh
  have exits := (cleanup_passes (c := c) passes.sound).1.heap
  refine ⟨out ++ (t.poolIqalloct c optQuarantine pool ptr initFails).ring, ?_, ?_⟩
  · exact passes.queue.mem_iff.mp (List.mem_append_right _ (List.mem_singleton.mpr rfl))
  · rw [exits, passes.heap, heap]
    simp [Heap.releaseAll]

/-- A block of a custom pool goes back to its pool exactly if there is no quarantine or it is no
huge block. -/
theorem returnsToPool_iff (custom : pool ≠ 0) (ready : Ready c t t.ring)
    (live : t.heap.Live pool ptr) (fresh : ptr ∉ t.ring) :
    ReturnsToPool c optQuarantine t pool ptr initFails ↔
      optQuarantine = 0 ∨ c.chunkFloor ptr ≠ ptr := by
  unfold ReturnsToPool
  dsimp only
  by_cases disabled : optQuarantine = 0
  · refine ⟨fun _ => Or.inl disabled, fun _ => ?_⟩
    subst disabled
    have sound : (t.poolIqalloct c 0 pool ptr initFails).Sound := ready.sound
    have exits := (cleanup_passes (c := c) sound).1.heap
    have ring : (t.poolIqalloct c 0 pool ptr initFails).ring = t.ring := rfl
    rw [ring, poolIqalloct_zero] at exits
    rw [poolIqalloct_zero, exits]
    refine ⟨fun still => ?_, ?_⟩
    · exact Heap.idalloct_not_live ready.placed (Heap.live_of_releaseAll still)
    · rw [Heap.misses_releaseAll_of_ne (Or.inl fresh),
        Heap.misses_idalloct_of_serves (live.serves ready.placed)]
  · obtain ⟨out, member, heap⟩ :=
      handed_and_exited initFails disabled ready live fresh
    rw [heap]
    by_cases behind : c.chunkFloor ptr ≠ ptr
    · refine ⟨fun _ => Or.inr behind, fun _ => ⟨?_, ?_⟩⟩
      · exact Heap.releaseAll_run_not_live ready.placed behind member
      · exact Heap.misses_releaseAll_of_ne (Or.inr behind)
    · refine ⟨fun returned => ?_, fun condition => absurd (condition.resolve_left disabled) behind⟩
      -- the base pool does not have the block
      have missing : ¬t.heap.HasHuge 0 ptr := by
        rintro ⟨b, inHuge, same⟩
        exact custom (ready.owners pool 0 ptr live ⟨b, List.mem_append_right _ inHuge, same⟩)
      have more := Heap.misses_releaseAll_of_missing (Classical.not_not.mp behind) missing member
      omega

end QuarantineThread

/-- Blocks that moving reallocations leave behind: in every run that hands no huge block of a
custom pool to the quarantine, no block is looked up in the wrong pool, and what was handed over is
released or still in the ring, which is empty after the thread has exited.  In every state a
single block of a custom pool goes back to that pool exactly if there is no quarantine or it is no
huge block. -/
theorem quarantine_returns {c : Config} (optQuarantine npools : Nat) :
    (∀ t, Reached (fun t op => t.Permitted c op ∧ QuarantineThread.HandsRuns c optQuarantine op)
        (QuarantineThread.step c optQuarantine) (.start npools) t →
      t.heap.missed = [] ∧ t.handed.Perm (t.released ++ t.ring) ∧
        (t.quarantineCleanup c).handed.Perm (t.quarantineCleanup c).released) ∧
    ∀ t, Reached (fun t op => t.Permitted c op) (QuarantineThread.step c optQuarantine)
        (.start npools) t →
      ∀ pool ptr initFails, pool ≠ 0 → t.Permitted c (.hand pool ptr initFails) →
        (t.ReturnsToPool c optQuarantine pool ptr initFails ↔
          optQuarantine = 0 ∨ c.chunkFloor ptr ≠ ptr) := by
  constructor
  · intro t reached
    have both : QuarantineThread.Ready c t t.ring ∧ QuarantineThread.Served c t t.ring := by
      apply reached.invariant fun t => QuarantineThread.Ready c t t.ring ∧
        QuarantineThread.Served c t t.ring
      · exact ⟨QuarantineThread.start_ready npools, rfl,
          fun _ member => absurd member List.not_mem_nil⟩
      · intro before op after both permitted result
        exact ⟨QuarantineThread.ready_step both.1 permitted.1 result,
          QuarantineThread.served_step both.1 both.2 permitted.1 permitted.2 result⟩
    obtain ⟨passes, empty⟩ := QuarantineThread.cleanup_passes (c := c) both.1.sound
    refine ⟨both.2.missed, both.1.flow, ?_⟩
    have flow := (passes.ready both.1).flow
    rwa [empty, List.append_nil] at flow
  · intro t reached pool ptr initFails custom permitted
    have ready : QuarantineThread.Ready c t t.ring := by
      apply reached.invariant fun t => QuarantineThread.Ready c t t.ring
      · exact QuarantineThread.start_ready npools
      · intro before op after ready permitted result
        exact QuarantineThread.ready_step ready permitted result
    exact QuarantineThread.returnsToPool_iff custom ready permitted.1 permitted.2

/-- A run of pool 1 goes into the ring and is released at thread exit. -/
theorem quarantine_returns_run :
    ∃ t, Reached (fun t op => t.Permitted defaultConfig op ∧
        QuarantineThread.HandsRuns defaultConfig 1024 op)
      (QuarantineThread.step defaultConfig 1024) (.start 2) t ∧ t.ring = [0x410000] ∧
      t.heap.missed = [] ∧
      (t.quarantineCleanup defaultConfig).handed.Perm
      (t.quarantineCleanup defaultConfig).released := by
  let allocated : QuarantineThread :=
    { QuarantineThread.start 2 with
      heap := (QuarantineThread.start 2).heap.add 1 false ⟨0x410000, 112⟩ }
  let ringed := allocated.quarantineAllocHook false
  have mayAlloc : (QuarantineThread.start 2).Permitted defaultConfig
      (.alloc 1 false ⟨0x410000, 112⟩) ∧
      QuarantineThread.HandsRuns defaultConfig 1024 (.alloc 1 false ⟨0x410000, 112⟩) := by
    refine ⟨⟨by decide, by decide, ⟨by decide +kernel, by decide +kernel⟩, ?_⟩, trivial⟩
    rintro other ⟨b, member, _⟩
    cases member
  have mayHook : allocated.Permitted defaultConfig (.allocHook false) ∧
      QuarantineThread.HandsRuns defaultConfig 1024 (.allocHook false) := ⟨trivial, trivial⟩
  have mayHand : ringed.Permitted defaultConfig (.hand 1 0x410000 false) ∧
      QuarantineThread.HandsRuns defaultConfig 1024 (.hand 1 0x410000 false) :=
    ⟨⟨by decide +kernel, by decide +kernel⟩, Or.inr (Or.inr (by decide +kernel))⟩
  have first : Reached (fun t op => t.Permitted defaultConfig op ∧
      QuarantineThread.HandsRuns defaultConfig 1024 op)
      (QuarantineThread.step defaultConfig 1024) (.start 2) allocated :=
    Reached.start.next mayAlloc rfl
  have third := (first.next mayHook rfl).next mayHand rfl
  obtain ⟨missed, _, exits⟩ := (quarantine_returns (c := defaultConfig) 1024 2).1 _ third
  exact ⟨_, third, by decide +kernel, missed, exits⟩

/-- A huge block of pool 1 that is handed over by a thread without a ring is looked up in the base
pool. -/
theorem quarantine_huge_missed :
    ∃ t, Reached (fun t op => t.Permitted defaultConfig op)
      (QuarantineThread.step defaultConfig 1024) (.start 2) t ∧
      t.Permitted defaultConfig (.hand 1 0x800000 false) ∧
      (t.poolIqalloct defaultConfig 1024 1 0x800000 false).heap.missed = [(0, 0x800000)] ∧
      ¬t.ReturnsToPool defaultConfig 1024 1 0x800000 false := by
  let allocated : QuarantineThread :=
    { QuarantineThread.start 2 with
      heap := (QuarantineThread.start 2).heap.add 1 true ⟨0x800000, 0x400000⟩ }
  have reached : Reached (fun t op => t.Permitted defaultConfig op)
      (QuarantineThread.step defaultConfig 1024) (.start 2) allocated := by
    have mayAlloc : (QuarantineThread.start 2).Permitted defaultConfig
        (.alloc 1 true ⟨0x800000, 0x400000⟩) := by
      refine ⟨by decide, by decide, ⟨by decide +kernel, by decide +kernel⟩, ?_⟩
      rintro other ⟨b, member, _⟩
      cases member
    exact Reached.start.next mayAlloc rfl
  refine ⟨allocated, reached, ⟨by decide +kernel, by decide +kernel⟩, by decide +kernel, ?_⟩
  unfold QuarantineThread.ReturnsToPool
  decide +kernel

end Jemalloc
end Vmem
