import Vmem.Jemalloc.Blocks
import Vmem.Library.Ring
import Vmem.Library.Run

/-!
# The quarantine of a thread

With `opt_quarantine` set, a block that a moving reallocation leaves behind is not
released at once.  It is put into a ring buffer of the thread with its address and its
size, and released later, when the buffer is drained.  By then the pool is forgotten:
`quarantine_drain_one` calls `idalloc`, which looks huge blocks up in the base pool.

`handed` and `released` are ghost records of the addresses that were passed to
`pool_iqalloct` and `iqalloc`, and of those that were released from there.  The
memory of the ring buffer itself and the filling of blocks are left out.  Blocks are
disjoint parts of the address space, so the sum of their sizes is a word.
-/

namespace Vmem
namespace Jemalloc

/-- `quarantine_obj_t`. -/
structure QuarantineObj where
  ptr : Nat
  usize : Nat
  deriving DecidableEq

/-- `quarantine_t`; `curobjs`, `first` and `objs` are the ring. -/
structure Quarantine where
  curbytes : Nat
  lgMaxobjs : Nat
  objs : Ring QuarantineObj

/-- The thread's quarantine pointer with its special values. -/
inductive QuarantineTsd
  | null
  /-- `QUARANTINE_STATE_REINCARNATED`. -/
  | reincarnated
  /-- `QUARANTINE_STATE_PURGATORY`. -/
  | purgatory
  | active (q : Quarantine)

/-- A thread and the heap it works on. -/
structure QuarantineThread where
  heap : Heap
  tsd : QuarantineTsd
  handed : List Nat
  released : List Nat

/-- `LG_MAXOBJS_INIT`. -/
def lgMaxobjsInit : Nat := 10

/-- A new ring. -/
def Quarantine.new (lgMaxobjs : Nat) : Quarantine :=
  ⟨0, lgMaxobjs, Ring.empty (2 ^ lgMaxobjs) fun _ => ⟨0, 0⟩⟩

namespace QuarantineThread

variable (c : Config)

/-- Release a block through a pool: `pool_idalloct`, and `idalloc` with the base pool. -/
def idalloc (pool : Nat) (t : QuarantineThread) (ptr : Nat) : QuarantineThread :=
  { t with heap := t.heap.idalloct c pool ptr, released := ptr :: t.released }

/-- `quarantine_drain_one`. -/
def quarantineDrainOne (t : QuarantineThread) (q : Quarantine) : QuarantineThread × Quarantine :=
  let obj := q.objs.head
  (t.idalloc c 0 obj.ptr, { q with curbytes := q.curbytes - obj.usize, objs := q.objs.pop })

/-- The loop of `quarantine_drain`, for a number of rounds. -/
def drainLoop (upperBound : Nat) :
    Nat → QuarantineThread → Quarantine → QuarantineThread × Quarantine
  | 0, t, q => (t, q)
  | rounds + 1, t, q =>
      if upperBound < q.curbytes ∧ 0 < q.objs.count then
        let next := t.quarantineDrainOne c q
        drainLoop upperBound rounds next.1 next.2
      else (t, q)

/-- `quarantine_drain`: every round takes an object off, so there are at most `curobjs`. -/
def quarantineDrain (t : QuarantineThread) (q : Quarantine) (upperBound : Nat) :
    QuarantineThread × Quarantine :=
  drainLoop c upperBound q.objs.count t q

/-- `quarantine_grow`, given whether `quarantine_init` fails. -/
def quarantineGrow (t : QuarantineThread) (q : Quarantine) (initFails : Bool) :
    QuarantineThread × Quarantine :=
  if initFails then t.quarantineDrainOne c q
  else
    (t, { q with
      lgMaxobjs := q.lgMaxobjs + 1
      objs := q.objs.moveTo (2 ^ (q.lgMaxobjs + 1)) fun _ => ⟨0, 0⟩ })

/-- `quarantine` with a ring. -/
def quarantineActive (optQuarantine : Nat) (t : QuarantineThread) (q : Quarantine) (ptr : Nat)
    (initFails : Bool) : QuarantineThread :=
  let usize := t.heap.isalloc c ptr
  let drained :=
    if optQuarantine < q.curbytes + usize then
      t.quarantineDrain c q (if usize ≤ optQuarantine then optQuarantine - usize else 0)
    else (t, q)
  let grown :=
    if drained.2.objs.count = 2 ^ drained.2.lgMaxobjs then
      drained.1.quarantineGrow c drained.2 initFails
    else drained
  if grown.2.curbytes + usize ≤ optQuarantine then
    { grown.1 with tsd := .active { grown.2 with
      curbytes := grown.2.curbytes + usize
      objs := grown.2.objs.push ⟨ptr, usize⟩ } }
  else { grown.1.idalloc c 0 ptr with tsd := .active grown.2 }

/-- `quarantine`. -/
def quarantine (optQuarantine : Nat) (t : QuarantineThread) (ptr : Nat) (initFails : Bool) :
    QuarantineThread :=
  match t.tsd with
  | .purgatory => { t.idalloc c 0 ptr with tsd := .reincarnated }
  | .null => t.idalloc c 0 ptr
  | .reincarnated => t.idalloc c 0 ptr
  | .active q => t.quarantineActive c optQuarantine q ptr initFails

/-- `pool_iqalloct`; `iqalloct` is the same with the base pool. -/
def poolIqalloct (optQuarantine pool : Nat) (t : QuarantineThread) (ptr : Nat)
    (initFails : Bool) : QuarantineThread :=
  let t := { t with handed := ptr :: t.handed }
  if optQuarantine ≠ 0 then t.quarantine c optQuarantine ptr initFails else t.idalloc c pool ptr

/-- `quarantine_alloc_hook`, given whether `quarantine_init` fails. -/
def quarantineAllocHook (t : QuarantineThread) (initFails : Bool) : QuarantineThread :=
  match t.tsd with
  | .null => if initFails then t else { t with tsd := .active (.new lgMaxobjsInit) }
  | _ => t

/-- `quarantine_cleanup`. -/
def quarantineCleanup (t : QuarantineThread) : QuarantineThread :=
  match t.tsd with
  | .reincarnated => { t with tsd := .purgatory }
  | .purgatory => t
  | .null => t
  | .active q => { (t.quarantineDrain c q 0).1 with tsd := .purgatory }

/-- The addresses in quarantine, oldest first. -/
def ring (t : QuarantineThread) : List Nat :=
  match t.tsd with
  | .active q => q.objs.contents.map QuarantineObj.ptr
  | _ => []

end QuarantineThread

/-! ## What the operations do -/

/-- `idalloc` on each of the addresses. -/
def Heap.releaseAll (c : Config) (h : Heap) (ptrs : List Nat) : Heap :=
  ptrs.foldl (fun h ptr => h.idalloct c 0 ptr) h

/-- The counters agree with the contents of the ring. -/
structure Quarantine.Sound (q : Quarantine) : Prop where
  fits : q.objs.Fits
  capacity : q.objs.capacity = 2 ^ q.lgMaxobjs
  bytes : q.curbytes = (q.objs.contents.map QuarantineObj.usize).sum
  positive : ∀ obj ∈ q.objs.contents, 0 < obj.usize

namespace QuarantineThread

variable {c : Config} {t : QuarantineThread} {q : Quarantine}

/-- Release each of the addresses to the base pool. -/
def releaseAll (c : Config) (t : QuarantineThread) (ptrs : List Nat) : QuarantineThread :=
  { t with heap := t.heap.releaseAll c ptrs, released := ptrs.reverse ++ t.released }

theorem releaseAll_cons (ptr : Nat) (ptrs : List Nat) :
    t.releaseAll c (ptr :: ptrs) = (t.idalloc c 0 ptr).releaseAll c ptrs := by
  simp [releaseAll, idalloc, Heap.releaseAll]

theorem releaseAll_concat (ptr : Nat) (ptrs : List Nat) :
    t.releaseAll c (ptrs ++ [ptr]) = (t.releaseAll c ptrs).idalloc c 0 ptr := by
  simp [releaseAll, idalloc, Heap.releaseAll]

/-- One round takes the head off and releases it. -/
theorem quarantineDrainOne_spec (t : QuarantineThread) (sound : q.Sound)
    (nonempty : 0 < q.objs.count) :
    q.objs.contents = q.objs.head :: (t.quarantineDrainOne c q).2.objs.contents ∧
      (t.quarantineDrainOne c q).1 = t.idalloc c 0 q.objs.head.ptr ∧
      (t.quarantineDrainOne c q).2.Sound := by
  have split := Ring.contents_pop sound.fits nonempty
  refine ⟨split, rfl, sound.fits.pop, sound.capacity, ?_, ?_⟩
  · have bytes := sound.bytes
    rw [split, List.map_cons, List.sum_cons] at bytes
    show q.curbytes - q.objs.head.usize = (q.objs.pop.contents.map QuarantineObj.usize).sum
    omega
  · intro obj member
    apply sound.positive
    rw [split]
    exact List.mem_cons_of_mem _ member

/-- Draining releases the oldest objects, until few enough bytes are left. -/
theorem drainLoop_spec (upperBound : Nat) {rounds : Nat} (t : QuarantineThread) (sound : q.Sound)
    (enough : q.objs.count ≤ rounds) :
    ∃ gone, q.objs.contents = gone ++ (drainLoop c upperBound rounds t q).2.objs.contents ∧
      (drainLoop c upperBound rounds t q).1 = t.releaseAll c (gone.map QuarantineObj.ptr) ∧
      (drainLoop c upperBound rounds t q).2.Sound ∧
      ((drainLoop c upperBound rounds t q).2.curbytes ≤ upperBound ∨
        (drainLoop c upperBound rounds t q).2.objs.count = 0) := by
  induction rounds generalizing t q with
  | zero => exact ⟨[], rfl, rfl, sound, Or.inr (Nat.le_zero.mp enough)⟩
  | succ rounds inductionHypothesis =>
      unfold drainLoop
      split
      · next more =>
          obtain ⟨split, result, after⟩ := quarantineDrainOne_spec t sound more.2
          have fewer : (t.quarantineDrainOne c q).2.objs.count ≤ rounds := by
            show q.objs.count - 1 ≤ rounds
            omega
          obtain ⟨gone, rest, final, last, ends⟩ :=
            inductionHypothesis (t.quarantineDrainOne c q).1 after fewer
          refine ⟨q.objs.head :: gone, ?_, ?_, last, ends⟩
          · rw [split, List.cons_append, ← rest]
          · rw [final, result, List.map_cons, releaseAll_cons]
      · next stop => exact ⟨[], rfl, rfl, sound, by dsimp only; omega⟩

theorem releaseAll_append (first second : List Nat) :
    (t.releaseAll c first).releaseAll c second = t.releaseAll c (first ++ second) := by
  simp [releaseAll, Heap.releaseAll]

/-- Draining is the release of an initial part of the ring. -/
theorem quarantineDrain_spec (upperBound : Nat) (t : QuarantineThread) (sound : q.Sound) :
    ∃ gone, q.objs.contents = gone ++ (t.quarantineDrain c q upperBound).2.objs.contents ∧
      (t.quarantineDrain c q upperBound).1 = t.releaseAll c (gone.map QuarantineObj.ptr) ∧
      (t.quarantineDrain c q upperBound).2.Sound ∧
      ((t.quarantineDrain c q upperBound).2.curbytes ≤ upperBound ∨
        (t.quarantineDrain c q upperBound).2.objs.count = 0) :=
  drainLoop_spec upperBound t sound (Nat.le_refl _)

/-- Growing makes room: the ring is doubled, or its head released. -/
theorem quarantineGrow_spec (t : QuarantineThread) (initFails : Bool) (sound : q.Sound)
    (full : q.objs.count = 2 ^ q.lgMaxobjs) :
    ∃ gone, q.objs.contents = gone ++ (t.quarantineGrow c q initFails).2.objs.contents ∧
      (t.quarantineGrow c q initFails).1 = t.releaseAll c (gone.map QuarantineObj.ptr) ∧
      (t.quarantineGrow c q initFails).2.Sound ∧
      (t.quarantineGrow c q initFails).2.objs.count <
      (t.quarantineGrow c q initFails).2.objs.capacity := by
  have positive := Nat.two_pow_pos q.lgMaxobjs
  cases initFails with
  | true =>
      obtain ⟨split, result, after⟩ := quarantineDrainOne_spec t sound (by omega)
      refine ⟨[q.objs.head], split, ?_, after, ?_⟩
      · exact result
      · show q.objs.count - 1 < q.objs.capacity
        rw [sound.capacity]
        omega
  | false =>
      have double : 2 ^ (q.lgMaxobjs + 1) = 2 ^ q.lgMaxobjs + 2 ^ q.lgMaxobjs := by
        rw [pow_succ, Nat.mul_two]
      have room : q.objs.count ≤ 2 ^ (q.lgMaxobjs + 1) := by omega
      have same := Ring.contents_moveTo sound.fits (fun _ => (⟨0, 0⟩ : QuarantineObj)) room
      refine ⟨[], same.symm, rfl, ⟨Ring.Fits.moveTo _ (Nat.two_pow_pos _) room, rfl, ?_, ?_⟩, ?_⟩
      · show q.curbytes = ((q.objs.moveTo _ _).contents.map QuarantineObj.usize).sum
        rw [same]
        exact sound.bytes
      · show ∀ obj ∈ (q.objs.moveTo _ _).contents, 0 < obj.usize
        rw [same]
        exact sound.positive
      · show q.objs.count < 2 ^ (q.lgMaxobjs + 1)
        omega

/-- Appending to a ring with room. -/
theorem sound_push {usize : Nat} (sound : q.Sound) (room : q.objs.count < q.objs.capacity)
    (ptr : Nat) (positive : 0 < usize) :
    Quarantine.Sound { q with
      curbytes := q.curbytes + usize
      objs := q.objs.push ⟨ptr, usize⟩ } := by
  have appended := Ring.contents_push room (⟨ptr, usize⟩ : QuarantineObj)
  refine ⟨sound.fits.push room _, sound.capacity, ?_, ?_⟩
  · show q.curbytes + usize = ((q.objs.push ⟨ptr, usize⟩).contents.map QuarantineObj.usize).sum
    rw [appended, List.map_append, List.sum_append, ← sound.bytes]
    simp
  · show ∀ obj ∈ (q.objs.push ⟨ptr, usize⟩).contents, 0 < obj.usize
    rw [appended]
    intro obj member
    obtain old | new := List.mem_append.mp member
    · exact sound.positive obj old
    · rw [List.mem_singleton.mp new]
      exact positive

/-- What a thread with a ring does with a block: it releases an initial part of the ring, and
then the block is queued or released as well. -/
theorem quarantineActive_cases (optQuarantine : Nat) (t : QuarantineThread) (ptr : Nat)
    (initFails : Bool) (sound : q.Sound) (positive : 0 < t.heap.isalloc c ptr) :
    ∃ gone after, after.Sound ∧
      ((q.objs.contents.map QuarantineObj.ptr ++ [ptr] =
          gone ++ after.objs.contents.map QuarantineObj.ptr ∧
        t.quarantineActive c optQuarantine q ptr initFails =
          { t.releaseAll c gone with tsd := .active after }) ∨
      (q.objs.contents.map QuarantineObj.ptr = gone ++ after.objs.contents.map QuarantineObj.ptr ∧
        t.quarantineActive c optQuarantine q ptr initFails =
          { t.releaseAll c (gone ++ [ptr]) with tsd := .active after })) := by
  unfold quarantineActive
  dsimp only
  generalize isDrained : (if optQuarantine < q.curbytes + t.heap.isalloc c ptr then
      t.quarantineDrain c q
        (if t.heap.isalloc c ptr ≤ optQuarantine then optQuarantine - t.heap.isalloc c ptr else 0)
    else (t, q)) = drained
  obtain ⟨first, firstRest, firstResult, drainedSound⟩ : ∃ gone,
      q.objs.contents = gone ++ drained.2.objs.contents ∧
        drained.1 = t.releaseAll c (gone.map QuarantineObj.ptr) ∧ drained.2.Sound := by
    subst isDrained
    split
    · obtain ⟨gone, rest, result, after, _⟩ := quarantineDrain_spec
        (if t.heap.isalloc c ptr ≤ optQuarantine then optQuarantine - t.heap.isalloc c ptr else 0)
        t sound
      exact ⟨gone, rest, result, after⟩
    · exact ⟨[], rfl, rfl, sound⟩
  clear isDrained
  generalize isGrown : (if drained.2.objs.count = 2 ^ drained.2.lgMaxobjs then
      drained.1.quarantineGrow c drained.2 initFails else drained) = grown
  obtain ⟨second, secondRest, secondResult, grownSound, room⟩ : ∃ gone,
      drained.2.objs.contents = gone ++ grown.2.objs.contents ∧
        grown.1 = drained.1.releaseAll c (gone.map QuarantineObj.ptr) ∧ grown.2.Sound ∧
        grown.2.objs.count < grown.2.objs.capacity := by
    subst isGrown
    split
    · next full => exact quarantineGrow_spec drained.1 initFails drainedSound full
    · next notFull =>
        refine ⟨[], rfl, rfl, drainedSound, ?_⟩
        have := drainedSound.fits.count
        have := drainedSound.capacity
        omega
  clear isGrown
  have ring : q.objs.contents.map QuarantineObj.ptr =
      (first ++ second).map QuarantineObj.ptr ++ grown.2.objs.contents.map QuarantineObj.ptr := by
    rw [firstRest, secondRest]
    simp
  have thread : grown.1 = t.releaseAll c ((first ++ second).map QuarantineObj.ptr) := by
    rw [secondResult, firstResult, releaseAll_append, List.map_append]
  refine ⟨(first ++ second).map QuarantineObj.ptr, ?_⟩
  split
  · refine ⟨_, sound_push grownSound room ptr positive, Or.inl ⟨?_, ?_⟩⟩
    · show _ = _ ++ (grown.2.objs.push _).contents.map QuarantineObj.ptr
      rw [ring, Ring.contents_push room]
      simp
    · rw [thread]
  · refine ⟨grown.2, grownSound, Or.inr ⟨ring, ?_⟩⟩
    rw [thread, releaseAll_concat]

/-- The ring of a thread, if it has one, is sound. -/
def Sound (t : QuarantineThread) : Prop := ∀ q, t.tsd = .active q → q.Sound

/-- What a thread does with a block: it releases an initial part of the ring, and then the block
is queued or released as well. -/
theorem quarantine_cases (optQuarantine : Nat) (t : QuarantineThread) (ptr : Nat)
    (initFails : Bool) (sound : t.Sound) (positive : 0 < t.heap.isalloc c ptr) :
    ∃ gone after, Sound (t.quarantine c optQuarantine ptr initFails) ∧
      (t.quarantine c optQuarantine ptr initFails).ring = after ∧
      (t.quarantine c optQuarantine ptr initFails).handed = t.handed ∧
      ((t.ring ++ [ptr] = gone ++ after ∧
        (t.quarantine c optQuarantine ptr initFails).heap = t.heap.releaseAll c gone ∧
        (t.quarantine c optQuarantine ptr initFails).released = gone.reverse ++ t.released) ∨
      (t.ring = gone ++ after ∧
        (t.quarantine c optQuarantine ptr initFails).heap = t.heap.releaseAll c (gone ++ [ptr]) ∧
        (t.quarantine c optQuarantine ptr initFails).released =
          (gone ++ [ptr]).reverse ++ t.released)) := by
  unfold quarantine
  cases state : t.tsd with
  | null =>
      have ring : t.ring = [] := by simp [QuarantineThread.ring, state]
      refine ⟨[], [], ?_, ?_, rfl, Or.inr ⟨ring, rfl, rfl⟩⟩
      · intro q active
        exact sound q active
      · simp [QuarantineThread.ring, idalloc, state]
  | reincarnated =>
      have ring : t.ring = [] := by simp [QuarantineThread.ring, state]
      refine ⟨[], [], ?_, ?_, rfl, Or.inr ⟨ring, rfl, rfl⟩⟩
      · intro q active
        exact sound q active
      · simp [QuarantineThread.ring, idalloc, state]
  | purgatory =>
      have ring : t.ring = [] := by simp [QuarantineThread.ring, state]
      exact ⟨[], [], fun q active => (by cases active), rfl, rfl, Or.inr ⟨ring, rfl, rfl⟩⟩
  | active q =>
      have ring : t.ring = q.objs.contents.map QuarantineObj.ptr := by
        simp [QuarantineThread.ring, state]
      dsimp only
      obtain ⟨gone, after, afterSound, ⟨split, result⟩ | ⟨split, result⟩⟩ :=
        quarantineActive_cases (c := c) optQuarantine t ptr initFails (sound q state) positive
      · rw [result]
        refine ⟨gone, after.objs.contents.map QuarantineObj.ptr, ?_, rfl, rfl,
          Or.inl ⟨?_, rfl, rfl⟩⟩
        · intro other active
          injection active with active
          exact active ▸ afterSound
        · rw [ring, split]
      · rw [result]
        refine ⟨gone, after.objs.contents.map QuarantineObj.ptr, ?_, rfl, rfl,
          Or.inr ⟨?_, rfl, rfl⟩⟩
        · intro other active
          injection active with active
          exact active ▸ afterSound
        · rw [ring, split]

/-- Cleaning up releases the whole ring. -/
theorem quarantineCleanup_spec (t : QuarantineThread) (sound : t.Sound) :
    (t.quarantineCleanup c).Sound ∧ (t.quarantineCleanup c).ring = [] ∧
      (t.quarantineCleanup c).handed = t.handed ∧
      (t.quarantineCleanup c).heap = t.heap.releaseAll c t.ring ∧
      (t.quarantineCleanup c).released = t.ring.reverse ++ t.released := by
  unfold quarantineCleanup
  cases state : t.tsd with
  | null =>
      have ring : t.ring = [] := by simp [QuarantineThread.ring, state]
      rw [ring]
      exact ⟨sound, rfl, rfl, rfl, rfl⟩
  | reincarnated =>
      have ring : t.ring = [] := by simp [QuarantineThread.ring, state]
      rw [ring]
      exact ⟨fun q active => (by cases active), rfl, rfl, rfl, rfl⟩
  | purgatory =>
      have ring : t.ring = [] := by simp [QuarantineThread.ring, state]
      rw [ring]
      exact ⟨sound, rfl, rfl, rfl, rfl⟩
  | active q =>
      have ring : t.ring = q.objs.contents.map QuarantineObj.ptr := by
        simp [QuarantineThread.ring, state]
      dsimp only
      obtain ⟨gone, split, result, after, ends⟩ := quarantineDrain_spec (c := c) 0 t (sound q state)
      -- no bytes are left, so no objects are left
      have nothing : (t.quarantineDrain c q 0).2.objs.contents = [] := by
        obtain noBytes | noObjects := ends
        · have bytes := after.bytes
          cases contents : (t.quarantineDrain c q 0).2.objs.contents with
          | nil => rfl
          | cons obj rest =>
              have positive := after.positive obj (by rw [contents]; exact List.mem_cons_self)
              rw [contents, List.map_cons, List.sum_cons] at bytes
              omega
        · exact Ring.contents_eq_nil noObjects
      rw [nothing, List.append_nil] at split
      rw [ring, split, result]
      exact ⟨fun q active => (by cases active), rfl, rfl, rfl, rfl⟩

end QuarantineThread

end Jemalloc
end Vmem
