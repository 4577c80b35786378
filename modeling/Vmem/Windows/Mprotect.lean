import Vmem.Windows.WinMmap

/-!
# The emulation of `mprotect` on Windows

`mprotect` walks along the mappings that share a part of the range and calls `VirtualProtect` on
each part.  One word holds the protection; it is computed from `prot` before the loop, and changed
in the loop for a mapping with `FILE_MAP_COPY`.  The length that is left is counted down to find
out whether all of the range was mapped.
-/

namespace Vmem
namespace Windows

/-- `PROT_READ`. -/
def protRead : BitVec 32 := 0x1

/-- `PROT_WRITE`. -/
def protWrite : BitVec 32 := 0x2

/-- `PROT_EXEC`. -/
def protExec : BitVec 32 := 0x4

/-- `PAGE_NOACCESS`. -/
def pageNoaccess : BitVec 32 := 0x01

/-- `PAGE_READONLY`. -/
def pageReadonly : BitVec 32 := 0x02

/-- `PAGE_READWRITE`. -/
def pageReadwrite : BitVec 32 := 0x04

/-- `PAGE_WRITECOPY`. -/
def pageWritecopy : BitVec 32 := 0x08

/-- `PAGE_EXECUTE_READ`. -/
def pageExecuteRead : BitVec 32 := 0x20

/-- `PAGE_EXECUTE_READWRITE`. -/
def pageExecuteReadwrite : BitVec 32 := 0x40

/-- `PAGE_EXECUTE_WRITECOPY`. -/
def pageExecuteWritecopy : BitVec 32 := 0x80

/-- `protect` before the loop. -/
def initialProtect (prot : BitVec 32) : BitVec 32 :=
  if prot &&& protRead ≠ 0 ∧ prot &&& protWrite ≠ 0 then
    if prot &&& protExec ≠ 0 then pageReadwrite ||| pageExecuteReadwrite else pageReadwrite
  else if prot &&& protRead ≠ 0 then
    if prot &&& protExec ≠ 0 then pageReadonly ||| pageExecuteRead else pageReadonly
  else pageNoaccess

/-- The protection must be compatible with the access that the view was mapped with. -/
def adaptProtect (access : FileMapAccess) (protect : BitVec 32) : BitVec 32 :=
  if access = .copy then
    if protect &&& pageReadwrite ≠ 0 then protect &&& ~~~pageReadwrite ||| pageWritecopy
    else if protect &&& pageExecuteReadwrite ≠ 0 then
      protect &&& ~~~pageExecuteReadwrite ||| pageExecuteWritecopy
    else protect
  else protect

/-- A call of `VirtualProtect`. -/
structure ProtectCall where
  base : Nat
  len : Nat
  protect : BitVec 32
  deriving DecidableEq

/-- How `mprotect` ends: with 0, or with -1 and `EINVAL`, `ENOMEM`, or what the error of
`VirtualProtect` is translated to. -/
inductive MprotectEnd
  | success
  | misaligned
  | notMapped
  | protectFailed
  deriving DecidableEq, Repr

/-- The loop of `mprotect`: the length that is left, or nothing if `VirtualProtect` failed, and
the calls of `VirtualProtect`. -/
def mprotectLoop (succeeds : ProtectCall → Bool) (start stop : Nat) :
    List FileMappingTracker → Nat → BitVec 32 → Option Nat × List ProtectCall
  | [], len, _ => (some len, [])
  | mt :: rest, len, protect =>
      if mt.baseAddress ≥ stop then (some len, [])
      else if mt.endAddress ≤ start then mprotectLoop succeeds start stop rest len protect
      else
        let begin2 := if start > mt.baseAddress then start else mt.baseAddress
        let end2 := if stop < mt.endAddress then stop else mt.endAddress
        let protect := adaptProtect mt.access protect
        let len2 := Word.sub end2 begin2
        let call := ⟨begin2, len2, protect⟩
        if succeeds call = false then (none, [call])
        else if len > len2 then
          let further := mprotectLoop succeeds start stop rest (len - len2) protect
          (further.1, call :: further.2)
        else (some 0, [call])

/-- `mprotect`. -/
def mprotect (pagesize : Nat) (queue : List FileMappingTracker) (succeeds : ProtectCall → Bool)
    (addr len : Nat) (prot : BitVec 32) : MprotectEnd × List ProtectCall :=
  if addr % pagesize ≠ 0 then (.misaligned, [])
  else if len = 0 then (.success, [])
  else
    -- UINTPTR_MAX is `Word.modulus - 1`
    let len := if len > Word.modulus - 1 - addr then Word.modulus - 1 - addr else len
    match mprotectLoop succeeds addr (Word.add addr len) queue len (initialProtect prot) with
    | (none, calls) => (.protectFailed, calls)
    | (some left, calls) => (if left > 0 then .notMapped else .success, calls)

/-! ## What the calls should be -/

/-- The trackers that share a part of a range. -/
def inRange (start stop : Nat) (queue : List FileMappingTracker) : List FileMappingTracker :=
  queue.filter fun t => max start t.baseAddress < min stop t.endAddress

/-- The call on the part of a range inside a tracker. -/
def protectCall (start stop : Nat) (t : FileMappingTracker) (protect : BitVec 32) :
    ProtectCall where
  base := max start t.baseAddress
  len := min stop t.endAddress - max start t.baseAddress
  protect := protect

/-- The protection that `prot` stands for in a mapping.  Where it allows writing, a mapping with
`FILE_MAP_COPY` gets the variants with copy-on-write, and no other one does. -/
def protectionFor (prot : BitVec 32) (access : FileMapAccess) : BitVec 32 :=
  let writable := if access = .copy then pageWritecopy else pageReadwrite
  let executable := if access = .copy then pageExecuteWritecopy else pageExecuteReadwrite
  if prot &&& protRead ≠ 0 ∧ prot &&& protWrite ≠ 0 then
    if prot &&& protExec ≠ 0 then writable ||| executable else writable
  else if prot &&& protRead ≠ 0 then
    if prot &&& protExec ≠ 0 then pageReadonly ||| pageExecuteRead else pageReadonly
  else pageNoaccess

/-- One call for each tracker, with the protection for its own access. -/
def independentCalls (start stop : Nat) (prot : BitVec 32) (trackers : List FileMappingTracker) :
    List ProtectCall :=
  trackers.map fun t => protectCall start stop t (protectionFor prot t.access)

/-- With `PROT_READ` and `PROT_WRITE`, no tracker with `FILE_MAP_COPY` stands before one with
another access; with `PROT_EXEC` too, there is no tracker with `FILE_MAP_COPY`. -/
def NoLeak (prot : BitVec 32) (trackers : List FileMappingTracker) : Prop :=
  prot &&& protRead ≠ 0 → prot &&& protWrite ≠ 0 →
    if prot &&& protExec = 0 then
      trackers.Pairwise fun t u => t.access = .copy → u.access = .copy
    else ∀ t ∈ trackers, t.access ≠ .copy

/-- Every byte of a range belongs to a tracker. -/
def Mapped (queue : List FileMappingTracker) (start stop : Nat) : Prop :=
  ∀ x, start ≤ x → x < stop → ∃ t ∈ queue, t.baseAddress ≤ x ∧ x < t.endAddress

/-- The calls of the loop, where each tracker adapts what the ones before it left. -/
def callsFrom (start stop : Nat) : BitVec 32 → List FileMappingTracker → List ProtectCall
  | _, [] => []
  | protect, t :: rest =>
      protectCall start stop t (adaptProtect t.access protect) ::
        callsFrom start stop (adaptProtect t.access protect) rest

variable {queue trackers : List FileMappingTracker} {t : FileMappingTracker}
  {access : FileMapAccess} {start stop addr len pagesize : Nat} {prot protect : BitVec 32}

/-! ## The loop -/

/-- The part of a range inside a tracker, as a number. -/
def sharedBytes (start stop : Nat) (queue : List FileMappingTracker) : Nat :=
  (queue.map (RangeQueue.shared FileMappingTracker.baseAddress FileMappingTracker.endAddress start
    stop)).sum

theorem sharedBytes_cons : sharedBytes start stop (t :: queue) =
    min stop t.endAddress - max start t.baseAddress + sharedBytes start stop queue := by
  unfold sharedBytes
  rw [List.map_cons, List.sum_cons]
  rfl

theorem sharedBytes_eq_zero (none : ∀ t ∈ queue, min stop t.endAddress ≤ max start t.baseAddress) :
    sharedBytes start stop queue = 0 := by
  unfold sharedBytes
  rw [List.sum_eq_zero_iff]
  intro bytes member
  obtain ⟨t, inQueue, rfl⟩ := List.mem_map.mp member
  exact Nat.sub_eq_zero_of_le (none t inQueue)

theorem inRange_eq_nil (none : ∀ t ∈ queue, min stop t.endAddress ≤ max start t.baseAddress) :
    inRange start stop queue = [] := by
  unfold inRange
  rw [List.filter_eq_nil_iff]
  intro t member
  have := none t member
  simpa using by omega

/-- Trackers that share nothing are not met again. -/
theorem none_of_sharedBytes (zero : sharedBytes start stop queue = 0) :
    ∀ t ∈ queue, min stop t.endAddress ≤ max start t.baseAddress := by
  intro t member
  unfold sharedBytes at zero
  rw [List.sum_eq_zero_iff] at zero
  have := zero _ (List.mem_map_of_mem member)
  unfold RangeQueue.shared at this
  omega

/-- When `VirtualProtect` succeeds, each tracker in the range is met, and its part is counted. -/
theorem mprotectLoop_eq
    (inOrder : RangeQueue.InOrder FileMappingTracker.baseAddress FileMappingTracker.endAddress
      queue)
    (endsFit : ∀ t ∈ queue, t.endAddress < Word.modulus) (nonempty : start < stop)
    (bound : sharedBytes start stop queue ≤ len) :
    mprotectLoop (fun _ => true) start stop queue len protect =
      (some (len - sharedBytes start stop queue),
        callsFrom start stop protect (inRange start stop queue)) := by
  induction queue generalizing len protect with
  | nil => rfl
  | cons mt rest inductionHypothesis =>
      have long := inOrder.nonempty mt List.mem_cons_self
      have fits := endsFit mt List.mem_cons_self
      have restFits : ∀ t ∈ rest, t.endAddress < Word.modulus :=
        fun t member => endsFit t (List.mem_cons_of_mem mt member)
      rw [sharedBytes_cons] at bound ⊢
      unfold mprotectLoop
      by_cases beyond : mt.baseAddress ≥ stop
      · have none : ∀ t ∈ mt :: rest, min stop t.endAddress ≤ max start t.baseAddress := by
          intro t member
          rcases List.mem_cons.mp member with rfl | member
          · omega
          · have := inOrder.head_le member
            omega
        rw [if_pos beyond, inRange_eq_nil none, ← sharedBytes_cons, sharedBytes_eq_zero none]
        rfl
      · rw [if_neg beyond]
        by_cases before : mt.endAddress ≤ start
        · have skipped : inRange start stop (mt :: rest) = inRange start stop rest :=
            List.filter_cons_of_neg (by simpa using by omega)
          rw [if_pos before, skipped,
            show min stop mt.endAddress - max start mt.baseAddress = 0 by omega, Nat.zero_add]
          exact inductionHypothesis inOrder.tail restFits (by omega)
        · have met : inRange start stop (mt :: rest) = mt :: inRange start stop rest :=
            List.filter_cons_of_pos (by simpa using by omega)
          have begin2 : (if start > mt.baseAddress then start else mt.baseAddress) =
              max start mt.baseAddress := by split_ifs <;> omega
          have end2 : (if stop < mt.endAddress then stop else mt.endAddress) =
              min stop mt.endAddress := by split_ifs <;> omega
          have len2 : Word.sub (min stop mt.endAddress) (max start mt.baseAddress) =
              min stop mt.endAddress - max start mt.baseAddress :=
            Word.sub_eq (by omega) (by omega)
          rw [if_neg before, met, begin2, end2]
          dsimp only [callsFrom]
          rw [len2, if_neg (by decide)]
          by_cases left : len > min stop mt.endAddress - max start mt.baseAddress
          · rw [if_pos left, inductionHypothesis inOrder.tail restFits (by omega)]
            rw [Nat.sub_sub]
            rfl
          · -- nothing of the range is left for the rest
            have zero : sharedBytes start stop rest = 0 := by omega
            have all : len - (min stop mt.endAddress - max start mt.baseAddress) = 0 := by omega
            rw [if_neg left, inRange_eq_nil (none_of_sharedBytes zero), zero, Nat.add_zero, all]
            rfl

/-! ## What leaks from one mapping to the next -/

/-- `prot` asks for more than reading. -/
def Writable (prot : BitVec 32) : Prop := prot &&& protRead ≠ 0 ∧ prot &&& protWrite ≠ 0

theorem adaptProtect_other (other : access ≠ .copy) (protect : BitVec 32) :
    adaptProtect access protect = protect := if_neg other

/-- Only writable protections are adapted. -/
theorem adaptProtect_of_not_writable (notWritable : ¬Writable prot) (access : FileMapAccess) :
    adaptProtect access (initialProtect prot) = initialProtect prot := by
  unfold Writable at notWritable
  unfold initialProtect
  rw [if_neg notWritable]
  split_ifs <;> cases access <;> decide

/-- Only writable protections depend on the access. -/
theorem protectionFor_of_not_writable (notWritable : ¬Writable prot) (access : FileMapAccess) :
    protectionFor prot access = initialProtect prot := by
  unfold Writable at notWritable
  unfold protectionFor initialProtect
  rw [if_neg notWritable, if_neg notWritable]

/-- A mapping with another access gets what is computed before the loop. -/
theorem protectionFor_other (other : access ≠ .copy) :
    protectionFor prot access = initialProtect prot := by
  unfold protectionFor initialProtect
  rw [if_neg other, if_neg other]

theorem initialProtect_of_plain (writable : Writable prot) (noExec : prot &&& protExec = 0) :
    initialProtect prot = pageReadwrite := by
  unfold Writable at writable
  unfold initialProtect
  rw [if_pos writable, if_neg (not_not.mpr noExec)]

/-- Without `PROT_EXEC` the one bit of the word is replaced as it should be. -/
theorem protectionFor_copy_plain (writable : Writable prot) (noExec : prot &&& protExec = 0) :
    protectionFor prot .copy = pageWritecopy := by
  unfold Writable at writable
  unfold protectionFor
  rw [if_pos writable, if_neg (not_not.mpr noExec), if_pos rfl]

/-- With `PROT_EXEC` only one of two bits is replaced. -/
theorem adaptProtect_exec_ne (writable : Writable prot) (exec : prot &&& protExec ≠ 0) :
    adaptProtect .copy (initialProtect prot) ≠ protectionFor prot .copy := by
  unfold Writable at writable
  unfold protectionFor initialProtect
  rw [if_pos writable, if_pos exec, if_pos writable, if_pos exec]
  decide

theorem independentCalls_cons : independentCalls start stop prot (t :: trackers) =
    protectCall start stop t (protectionFor prot t.access) ::
      independentCalls start stop prot trackers := rfl

theorem protectCall_injective {protect' : BitVec 32} :
    protectCall start stop t protect = protectCall start stop t protect' ↔
      protect = protect' := by
  unfold protectCall
  rw [ProtectCall.mk.injEq]
  exact ⟨fun same => same.2.2, fun same => ⟨rfl, rfl, same⟩⟩

/-- Without `PROT_EXEC`, behind a mapping with `FILE_MAP_COPY`: the word has changed for good. -/
theorem callsFrom_after_copy (writable : Writable prot) (noExec : prot &&& protExec = 0) :
    callsFrom start stop pageWritecopy trackers = independentCalls start stop prot trackers ↔
      ∀ u ∈ trackers, u.access = .copy := by
  have copied := protectionFor_copy_plain writable noExec
  have initial := initialProtect_of_plain writable noExec
  have stays : ∀ access, adaptProtect access pageWritecopy = pageWritecopy := by
    intro access
    cases access <;> decide
  induction trackers with
  | nil => exact ⟨fun _ u member => absurd member List.not_mem_nil, fun _ => rfl⟩
  | cons t rest inductionHypothesis =>
      unfold callsFrom
      rw [stays, independentCalls_cons, List.cons.injEq, protectCall_injective,
        List.forall_mem_cons]
      refine and_congr ?_ inductionHypothesis
      by_cases isCopy : t.access = .copy
      · rw [isCopy, copied]
        exact ⟨fun _ => rfl, fun _ => rfl⟩
      · rw [protectionFor_other isCopy, initial]
        exact ⟨fun never => absurd never (by decide), fun never => absurd never isCopy⟩

theorem callsFrom_of_plain (writable : Writable prot) (noExec : prot &&& protExec = 0) :
    callsFrom start stop (initialProtect prot) trackers =
        independentCalls start stop prot trackers ↔
      trackers.Pairwise fun t u => t.access = .copy → u.access = .copy := by
  have copied := protectionFor_copy_plain writable noExec
  have initial := initialProtect_of_plain writable noExec
  induction trackers with
  | nil => exact ⟨fun _ => List.Pairwise.nil, fun _ => rfl⟩
  | cons t rest inductionHypothesis =>
      unfold callsFrom
      rw [independentCalls_cons, List.cons.injEq, protectCall_injective, List.pairwise_cons]
      by_cases isCopy : t.access = .copy
      · have adapted : adaptProtect .copy (initialProtect prot) = pageWritecopy := by
          rw [initial]
          decide
        rw [isCopy, copied, adapted, callsFrom_after_copy writable noExec]
        refine ⟨fun all => ⟨fun u member _ => all.2 u member, ?_⟩,
          fun both => ⟨rfl, fun u member => both.1 u member rfl⟩⟩
        exact List.pairwise_of_forall_mem_list fun _ _ u member _ => all.2 u member
      · rw [adaptProtect_other isCopy, protectionFor_other isCopy]
        exact and_congr ⟨fun _ _ _ never => absurd never isCopy, fun _ => rfl⟩
          inductionHypothesis

/-- With `PROT_EXEC` the first mapping with `FILE_MAP_COPY` is protected wrongly already. -/
theorem callsFrom_of_exec (writable : Writable prot) (exec : prot &&& protExec ≠ 0) :
    callsFrom start stop (initialProtect prot) trackers =
        independentCalls start stop prot trackers ↔ ∀ t ∈ trackers, t.access ≠ .copy := by
  induction trackers with
  | nil => exact ⟨fun _ t member => absurd member List.not_mem_nil, fun _ => rfl⟩
  | cons t rest inductionHypothesis =>
      unfold callsFrom
      rw [independentCalls_cons, List.cons.injEq, protectCall_injective, List.forall_mem_cons]
      by_cases isCopy : t.access = .copy
      · rw [isCopy]
        exact ⟨fun same => absurd same.1 (adaptProtect_exec_ne writable exec),
          fun never => absurd rfl never.1⟩
      · rw [adaptProtect_other isCopy, protectionFor_other isCopy, inductionHypothesis]
        exact ⟨fun both => ⟨isCopy, both.2⟩, fun both => ⟨rfl, both.2⟩⟩

theorem callsFrom_of_not_writable (notWritable : ¬Writable prot) :
    callsFrom start stop (initialProtect prot) trackers =
      independentCalls start stop prot trackers := by
  induction trackers with
  | nil => rfl
  | cons t rest inductionHypothesis =>
      unfold callsFrom
      rw [independentCalls_cons, adaptProtect_of_not_writable notWritable,
        protectionFor_of_not_writable notWritable, inductionHypothesis]

/-- The word is right for all mappings exactly if nothing leaks. -/
theorem callsFrom_eq_iff : callsFrom start stop (initialProtect prot) trackers =
    independentCalls start stop prot trackers ↔ NoLeak prot trackers := by
  unfold NoLeak
  by_cases writable : Writable prot
  · by_cases noExec : prot &&& protExec = 0
    · rw [if_pos noExec, callsFrom_of_plain writable noExec]
      exact ⟨fun pairs _ _ => pairs, fun noLeak => noLeak writable.1 writable.2⟩
    · rw [if_neg noExec, callsFrom_of_exec writable noExec]
      exact ⟨fun all _ _ => all, fun noLeak => noLeak writable.1 writable.2⟩
  · exact ⟨fun _ reads writes => absurd ⟨reads, writes⟩ writable,
      fun _ => callsFrom_of_not_writable writable⟩

/-! ## The whole call -/

/-- The end of the address space, behind which `mprotect` does not look. -/
def lastAddress : Nat := Word.modulus - 1

section Limited

variable (endsFit : ∀ t ∈ queue, t.endAddress < Word.modulus)

include endsFit

/-- A range that is cut at the end of the address space meets the same parts. -/
theorem independentCalls_limited (start stop : Nat) (prot : BitVec 32) :
    independentCalls start (min stop lastAddress) prot
      (inRange start (min stop lastAddress) queue) =
    independentCalls start stop prot (inRange start stop queue) ∧
      inRange start (min stop lastAddress) queue = inRange start stop queue := by
  unfold lastAddress
  have ends : ∀ t ∈ queue, min (min stop (Word.modulus - 1)) t.endAddress =
      min stop t.endAddress := by
    intro t member
    have := endsFit t member
    omega
  have same : inRange start (min stop (Word.modulus - 1)) queue = inRange start stop queue := by
    unfold inRange
    refine List.filter_congr fun t member => ?_
    rw [ends t member]
  refine ⟨?_, same⟩
  rw [same]
  unfold independentCalls
  refine List.map_congr_left fun t member => ?_
  unfold protectCall
  rw [ends t (List.mem_of_mem_filter member)]

/-- The last byte of the address space belongs to no tracker. -/
theorem not_mapped_of_wraps (le : start ≤ lastAddress) (wraps : Word.modulus ≤ stop) :
    ¬Mapped queue start stop := by
  have := Word.modulus_eq
  unfold lastAddress at le
  intro mapped
  obtain ⟨t, member, _, upper⟩ := mapped (Word.modulus - 1) le (by omega)
  have := endsFit t member
  omega

end Limited

/-- With `VirtualProtect` succeeding, `mprotect` gives each tracker in the range the protection that
`prot` stands for with its own access, and returns 0 exactly if the range is mapped, exactly if the
word is right for all of them; a range that reaches the last address must not be mapped up to
there. -/
theorem mprotect_independent_iff
    (inOrder : RangeQueue.InOrder FileMappingTracker.baseAddress FileMappingTracker.endAddress
      queue)
    (endsFit : ∀ t ∈ queue, t.endAddress < Word.modulus) (even : 2 ∣ pagesize)
    (aligned : pagesize ∣ addr) (fits : addr < Word.modulus) :
    ((mprotect pagesize queue (fun _ => true) addr len prot).2 =
        independentCalls addr (addr + len) prot (inRange addr (addr + len) queue) ∧
      ((mprotect pagesize queue (fun _ => true) addr len prot).1 = .success ↔
        Mapped queue addr (addr + len))) ↔
      NoLeak prot (inRange addr (addr + len) queue) ∧
        (addr + len < Word.modulus ∨ ¬Mapped queue addr lastAddress) := by
  have modulus := Word.modulus_eq
  have wholePage := Nat.mod_eq_zero_of_dvd aligned
  unfold mprotect
  rw [if_neg (not_not.mpr wholePage)]
  by_cases empty : len = 0
  · -- nothing is done for a range of length zero
    have none : inRange addr (addr + len) queue = [] := by
      unfold inRange
      rw [List.filter_eq_nil_iff]
      intro t _
      simpa using by omega
    rw [if_pos empty, none]
    have same : callsFrom addr addr (initialProtect prot) [] =
        independentCalls addr addr prot [] := rfl
    have noLeak : NoLeak prot [] := callsFrom_eq_iff.mp same
    exact ⟨fun _ => ⟨noLeak, Or.inl (by omega)⟩,
      fun _ => ⟨rfl, fun _ x lower upper => by omega, fun _ => rfl⟩⟩
  · have below : addr < lastAddress := by
      obtain ⟨half, isDouble⟩ := even.trans aligned
      unfold lastAddress
      omega
    obtain ⟨stop, isStop⟩ : ∃ stop, stop = min (addr + len) lastAddress := ⟨_, rfl⟩
    have limited : (if len > Word.modulus - 1 - addr then Word.modulus - 1 - addr else len) =
        stop - addr := by
      unfold lastAddress at isStop below
      split <;> omega
    have longer : addr < stop := by omega
    have sum : Word.add addr (stop - addr) = stop := by
      unfold lastAddress at isStop
      rw [Word.add_eq (by omega)]
      omega
    obtain ⟨bound, covered⟩ := inOrder.sum_shared longer.le
    obtain ⟨sameCalls, sameTrackers⟩ := independentCalls_limited endsFit addr (addr + len) prot
    rw [← isStop] at sameCalls sameTrackers
    rw [if_neg empty]
    dsimp only
    rw [limited, sum, mprotectLoop_eq inOrder endsFit longer bound]
    dsimp only
    rw [← sameCalls, ← sameTrackers, callsFrom_eq_iff]
    refine and_congr_right fun _ => ?_
    have ends : (if stop - addr - sharedBytes addr stop queue > 0 then MprotectEnd.notMapped
        else MprotectEnd.success) = .success ↔ Mapped queue addr stop := by
      change _ ↔ ∀ x, addr ≤ x → x < stop → ∃ t ∈ queue, t.baseAddress ≤ x ∧ x < t.endAddress
      rw [← show _ ↔ ∀ x, addr ≤ x → x < stop → ∃ t ∈ queue, t.baseAddress ≤ x ∧
        x < t.endAddress from covered]
      change _ ↔ sharedBytes addr stop queue = stop - addr
      change sharedBytes addr stop queue ≤ stop - addr at bound
      split
      · exact ⟨fun never => (by cases never), fun all => by omega⟩
      · exact ⟨fun _ => by omega, fun _ => rfl⟩
    rw [ends]
    by_cases inside : addr + len < Word.modulus
    · have same : stop = addr + len := by
        unfold lastAddress at isStop
        omega
      rw [same]
      exact ⟨fun _ => Or.inl inside, fun _ => Iff.rfl⟩
    · have same : stop = lastAddress := by
        unfold lastAddress at isStop ⊢
        omega
      have unmapped := not_mapped_of_wraps endsFit below.le (Nat.not_lt.mp inside)
      rw [same, iff_false_right unmapped]
      exact ⟨Or.inr, fun either => either.resolve_left inside⟩

/-- Where trackers end at pages, none ends at the last address. -/
theorem not_mapped_to_lastAddress (even : 2 ∣ pagesize)
    (pages : ∀ t ∈ queue, pagesize ∣ t.endAddress)
    (endsFit : ∀ t ∈ queue, t.endAddress < Word.modulus) (below : addr < lastAddress) :
    ¬Mapped queue addr lastAddress := by
  have modulus := Word.modulus_eq
  unfold lastAddress at below ⊢
  intro mapped
  obtain ⟨t, member, _, upper⟩ := mapped (Word.modulus - 2) (by omega) (by omega)
  obtain ⟨half, isDouble⟩ := even.trans (pages t member)
  have := endsFit t member
  omega

/-- A tracker of `[base, stop)`. -/
def plainTracker (base stop : Nat) (access : FileMapAccess) : FileMappingTracker where
  fileHandle := none
  fileMappingHandle := none
  baseAddress := base
  endAddress := stop
  access := access
  offset := 0
  fileLen := stop - base
  flags := 0

/-- A shared mapping before a private one. -/
theorem mprotect_independent_shared_first :
    (mprotect 4096 [plainTracker 0x10000 0x20000 .all, plainTracker 0x20000 0x30000 .copy]
        (fun _ => true) 0x10000 0x20000 (protRead ||| protWrite)).2 =
      [⟨0x10000, 0x10000, pageReadwrite⟩, ⟨0x20000, 0x10000, pageWritecopy⟩] := by
  have inOrder : RangeQueue.InOrder FileMappingTracker.baseAddress FileMappingTracker.endAddress
      [plainTracker 0x10000 0x20000 .all, plainTracker 0x20000 0x30000 .copy] :=
    ⟨by decide, by decide⟩
  have noLeak : NoLeak (protRead ||| protWrite) (inRange 0x10000 (0x10000 + 0x20000)
      [plainTracker 0x10000 0x20000 .all, plainTracker 0x20000 0x30000 .copy]) :=
    fun _ _ => by decide
  have calls := (mprotect_independent_iff inOrder (by decide +kernel) (show 2 ∣ 4096 by decide)
    (by decide) (by decide +kernel)).mpr ⟨noLeak, Or.inl (by decide +kernel)⟩
  rw [calls.1]
  decide

/-- A private mapping before a shared one: the shared one becomes copy-on-write, which it does not
become alone.  With `PROT_EXEC` one private mapping gets a mixture of the two variants. -/
theorem mprotect_leaks_writecopy :
    RangeQueue.InOrder FileMappingTracker.baseAddress FileMappingTracker.endAddress
        [plainTracker 0x10000 0x20000 .copy, plainTracker 0x20000 0x30000 .all] ∧
      (mprotect 4096 [plainTracker 0x10000 0x20000 .copy, plainTracker 0x20000 0x30000 .all]
          (fun _ => true) 0x10000 0x20000 (protRead ||| protWrite)).2 =
        [⟨0x10000, 0x10000, pageWritecopy⟩, ⟨0x20000, 0x10000, pageWritecopy⟩] ∧
      (mprotect 4096 [plainTracker 0x20000 0x30000 .all] (fun _ => true) 0x20000 0x10000
          (protRead ||| protWrite)).2 = [⟨0x20000, 0x10000, pageReadwrite⟩] ∧
      independentCalls 0x10000 0x30000 (protRead ||| protWrite)
          [plainTracker 0x10000 0x20000 .copy, plainTracker 0x20000 0x30000 .all] =
        [⟨0x10000, 0x10000, pageWritecopy⟩, ⟨0x20000, 0x10000, pageReadwrite⟩] ∧
      (mprotect 4096 [plainTracker 0x10000 0x20000 .copy] (fun _ => true) 0x10000 0x10000
          (protRead ||| protWrite ||| protExec)).2 =
        [⟨0x10000, 0x10000, pageWritecopy ||| pageExecuteReadwrite⟩] ∧
      independentCalls 0x10000 0x20000 (protRead ||| protWrite ||| protExec)
          [plainTracker 0x10000 0x20000 .copy] =
        [⟨0x10000, 0x10000, pageWritecopy ||| pageExecuteWritecopy⟩] :=
  ⟨⟨by decide, by decide⟩, by decide +kernel, by decide +kernel, by decide, by decide +kernel,
    by decide⟩

end Windows
end Vmem
