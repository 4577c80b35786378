import Vmem.Windows.MmapSplit

/-!
# The mappings in the list and their handles

The list of mappings is in order, and its trackers have handles of their own.  While a mapping is
cut or made, some handles belong to no tracker of the list: these are spare.
-/

namespace Vmem
namespace Windows

variable {s s' : WinState} {t u mt : FileMappingTracker} {h : Nat} {owned spare : List Nat}
  {queue : List FileMappingTracker} {mmapAlign lo start stop : Nat}

/-! ## Handles -/

/-- The handles of a tracker. -/
def FileMappingTracker.handles (t : FileMappingTracker) : List Nat :=
  t.fileMappingHandle.toList ++ t.fileHandle.toList

/-- The remainder at the beginning has the handles of the old mapping. -/
theorem splitBegin_handles (isBegin : splitBegin mt start = some t) : t.handles = mt.handles := by
  obtain ⟨_, rfl⟩ := splitBegin_eq_some.mp isBegin
  rfl

/-- The handles of a list of trackers. -/
def queueHandles (queue : List FileMappingTracker) : List Nat :=
  queue.flatMap FileMappingTracker.handles

theorem queueHandles_perm {queue' : List FileMappingTracker} (perm : queue.Perm queue') :
    (queueHandles queue).Perm (queueHandles queue') :=
  List.Perm.flatMap_right _ perm

/-- Different handles are open, and none was closed that was not. -/
structure Owns (s : WinState) (owned : List Nat) : Prop where
  opened : ∀ h ∈ owned, h ∈ s.handles
  nodup : owned.Nodup
  known : ∀ h ∈ s.handles, h < s.nextHandle
  once : s.closedTwice = false

namespace Owns

theorem perm {owned' : List Nat} (owns : Owns s owned) (perm : owned.Perm owned') :
    Owns s owned' where
  opened := fun h member => owns.opened h (perm.mem_iff.mpr member)
  nodup := perm.nodup_iff.mp owns.nodup
  known := owns.known
  once := owns.once

theorem openHandle (owns : Owns s owned) : Owns s.openHandle (s.nextHandle :: owned) where
  opened := by
    intro h member
    rcases List.mem_cons.mp member with rfl | member
    · exact List.mem_cons_self
    · exact List.mem_cons_of_mem _ (owns.opened h member)
  nodup := by
    refine List.nodup_cons.mpr ⟨fun member => ?_, owns.nodup⟩
    have := owns.known _ (owns.opened _ member)
    omega
  known := by
    intro h member
    change h < s.nextHandle + 1
    rcases List.mem_cons.mp member with rfl | member
    · omega
    · have := owns.known h member
      omega
  once := owns.once

/-- A handle of one's own can be closed. -/
theorem closeHandle {handle : Option Nat} (owns : Owns s (handle.toList ++ owned)) :
    Owns (s.closeHandle handle) owned := by
  cases handle with
  | none => exact owns
  | some h =>
      have isOpen : h ∈ s.handles := owns.opened h List.mem_cons_self
      obtain ⟨notOwned, nodup⟩ := List.nodup_cons.mp owns.nodup
      unfold WinState.closeHandle
      dsimp only
      rw [if_pos isOpen]
      refine ⟨fun other member => ?_, nodup, fun other member => ?_, owns.once⟩
      · have different : other ≠ h := fun same => notOwned (same ▸ member)
        exact (List.mem_erase_of_ne different).mpr
          (owns.opened other (List.mem_cons_of_mem h member))
      · exact owns.known other (List.mem_of_mem_erase member)

theorem closeHandles (owns : Owns s (t.handles ++ owned)) : Owns (s.closeHandles t) owned := by
  unfold FileMappingTracker.handles at owns
  rw [List.append_assoc] at owns
  exact owns.closeHandle.closeHandle

end Owns

/-- Nothing but memory is changed. -/
structure MemoryOnly (s s' : WinState) : Prop where
  queue : s'.queue = s.queue
  handles : s'.handles = s.handles
  nextHandle : s'.nextHandle = s.nextHandle
  closedTwice : s'.closedTwice = s.closedTwice
  dangling : s'.dangling = s.dangling

namespace MemoryOnly

theorem refl (s : WinState) : MemoryOnly s s := ⟨rfl, rfl, rfl, rfl, rfl⟩

theorem trans {s'' : WinState} (first : MemoryOnly s s') (second : MemoryOnly s' s'') :
    MemoryOnly s s'' where
  queue := second.queue.trans first.queue
  handles := second.handles.trans first.handles
  nextHandle := second.nextHandle.trans first.nextHandle
  closedTwice := second.closedTwice.trans first.closedTwice
  dangling := second.dangling.trans first.dangling

theorem mmapUnreserve (s : WinState) (addr len : Nat) :
    MemoryOnly s (s.mmapUnreserve addr len) := by
  unfold WinState.mmapUnreserve
  split <;> exact ⟨rfl, rfl, rfl, rfl, rfl⟩

theorem releaseTail (s : WinState) (t : FileMappingTracker) : MemoryOnly s (s.releaseTail t) := by
  unfold WinState.releaseTail
  split
  · exact mmapUnreserve ..
  · exact refl s

theorem reserveTail (s : WinState) (t : FileMappingTracker) : MemoryOnly s (s.reserveTail t) := by
  unfold WinState.reserveTail
  split <;> exact ⟨rfl, rfl, rfl, rfl, rfl⟩

theorem mapHead (s : WinState) (t : FileMappingTracker) : MemoryOnly s (s.mapHead t) := by
  unfold WinState.mapHead
  split <;> exact ⟨rfl, rfl, rfl, rfl, rfl⟩

/-- The view and the reservation of a tracker are given up. -/
theorem given (s : WinState) (t : FileMappingTracker) :
    MemoryOnly s
      ((if 0 < t.fileLen then s.unmapViewOfFile t.baseAddress else s).releaseTail t) := by
  refine MemoryOnly.trans ?_ (releaseTail _ t)
  split <;> exact ⟨rfl, rfl, rfl, rfl, rfl⟩

theorem owns (only : MemoryOnly s s') (owns : Owns s owned) : Owns s' owned where
  opened := by
    rw [only.handles]
    exact owns.opened
  nodup := owns.nodup
  known := by
    rw [only.handles, only.nextHandle]
    exact owns.known
  once := only.closedTwice.trans owns.once

end MemoryOnly

/-- Closing handles changes neither the list nor memory. -/
theorem closeHandle_same (s : WinState) (handle : Option Nat) :
    (s.closeHandle handle).queue = s.queue ∧ (s.closeHandle handle).views = s.views ∧
      (s.closeHandle handle).reserved = s.reserved ∧
      (s.closeHandle handle).dangling = s.dangling := by
  cases handle with
  | none => exact ⟨rfl, rfl, rfl, rfl⟩
  | some h =>
      unfold WinState.closeHandle
      dsimp only
      split <;> exact ⟨rfl, rfl, rfl, rfl⟩

theorem closeHandles_same (s : WinState) (t : FileMappingTracker) :
    (s.closeHandles t).queue = s.queue ∧ (s.closeHandles t).views = s.views ∧
      (s.closeHandles t).reserved = s.reserved ∧ (s.closeHandles t).dangling = s.dangling := by
  obtain ⟨queue, views, reserved, dangling⟩ := closeHandle_same s t.fileMappingHandle
  have second := closeHandle_same (s.closeHandle t.fileMappingHandle) t.fileHandle
  rw [queue, views, reserved, dangling] at second
  exact second

/-- Closing handles does not depend on the list. -/
theorem closeHandles_withQueue (s : WinState) (t : FileMappingTracker)
    (queue : List FileMappingTracker) :
    ({ s with queue := queue }).closeHandles t = { s.closeHandles t with queue := queue } := by
  have once (s : WinState) (handle : Option Nat) :
      ({ s with queue := queue }).closeHandle handle =
        { s.closeHandle handle with queue := queue } := by
    cases handle with
    | none => rfl
    | some h =>
        unfold WinState.closeHandle
        dsimp only
        split <;> rfl
  unfold WinState.closeHandles
  rw [once, once]

/-! ## The list -/

/-- A tracker is aligned, and lies in the half of the address space that begins at `lo`. -/
structure Valid (mmapAlign lo : Nat) (t : FileMappingTracker) : Prop where
  baseAligned : mmapAlign ∣ t.baseAddress
  endAligned : mmapAlign ∣ t.endAddress
  lower : lo ≤ t.baseAddress
  upper : t.endAddress ≤ lo + 2 ^ 63
  fits : t.endAddress < Word.modulus

/-- The list is sorted and disjoint, and its trackers are valid. -/
structure Listed (mmapAlign lo : Nat) (queue : List FileMappingTracker) : Prop where
  inOrder : RangeQueue.InOrder FileMappingTracker.baseAddress FileMappingTracker.endAddress queue
  valid : ∀ t ∈ queue, Valid mmapAlign lo t

/-- Insert a tracker, if there is one. -/
def insertSome (elm : Option FileMappingTracker) (queue : List FileMappingTracker) :
    List FileMappingTracker :=
  match elm with
  | none => queue
  | some elm => sortedqInsert elm queue

theorem insertSome_perm (elm : Option FileMappingTracker) (queue : List FileMappingTracker) :
    (insertSome elm queue).Perm (elm.toList ++ queue) := by
  cases elm with
  | none => exact List.Perm.refl _
  | some elm => exact RangeQueue.insertBefore_perm ..

theorem mem_insertSome {elm : Option FileMappingTracker} :
    t ∈ insertSome elm queue ↔ t ∈ elm ∨ t ∈ queue := by
  rw [(insertSome_perm elm queue).mem_iff, List.mem_append, Option.mem_toList, Option.mem_def]

namespace Listed

theorem erase (listed : Listed mmapAlign lo queue) : Listed mmapAlign lo (queue.erase mt) where
  inOrder := listed.inOrder.sublist List.erase_sublist
  valid := fun t inRest => listed.valid t (List.mem_of_mem_erase inRest)

/-- The other trackers lie apart from one. -/
theorem others (listed : Listed mmapAlign lo queue) (member : mt ∈ queue)
    (inRest : u ∈ queue.erase mt) :
    u.endAddress ≤ mt.baseAddress ∨ mt.endAddress ≤ u.baseAddress := by
  have different := (listed.inOrder.nodup.mem_erase_iff.mp inRest).1
  exact listed.inOrder.apart (List.mem_of_mem_erase inRest) member different

/-- A range of its own is inserted in its place. -/
theorem sortedqInsert (listed : Listed mmapAlign lo queue) (valid : Valid mmapAlign lo t)
    (nonempty : t.baseAddress < t.endAddress)
    (free : ∀ u ∈ queue, u.endAddress ≤ t.baseAddress ∨ t.endAddress ≤ u.baseAddress) :
    Listed mmapAlign lo (sortedqInsert t queue) where
  inOrder := by
    refine listed.inOrder.insertSigned nonempty free fun u member => ?_
    obtain ⟨_, _, lower, upper, _⟩ := valid
    obtain ⟨_, _, otherLower, otherUpper, _⟩ := listed.valid u member
    have otherLong := listed.inOrder.nonempty u member
    exact ⟨by omega, by omega⟩
  valid := by
    intro u member
    rcases RangeQueue.mem_insertBefore.mp member with rfl | member
    · exact valid
    · exact listed.valid u member

end Listed

/-! ## The list with its handles -/

/-- The list is in order, and the trackers and nobody else have their handles. -/
structure Holding (mmapAlign lo : Nat) (s : WinState) (spare : List Nat) : Prop where
  listed : Listed mmapAlign lo s.queue
  owns : Owns s (spare ++ queueHandles s.queue)
  mapped : ∀ t ∈ s.queue, t.fileMappingHandle.isSome = true

namespace Holding

theorem memoryOnly (holding : Holding mmapAlign lo s spare) (only : MemoryOnly s s') :
    Holding mmapAlign lo s' spare where
  listed := by
    rw [only.queue]
    exact holding.listed
  owns := by
    rw [only.queue]
    exact only.owns holding.owns
  mapped := by
    rw [only.queue]
    exact holding.mapped

theorem openHandle (holding : Holding mmapAlign lo s spare) :
    Holding mmapAlign lo s.openHandle (s.nextHandle :: spare) where
  listed := holding.listed
  owns := holding.owns.openHandle
  mapped := holding.mapped

/-- A spare handle can be closed. -/
theorem closeHandle {handle : Option Nat}
    (holding : Holding mmapAlign lo s (handle.toList ++ spare)) :
    Holding mmapAlign lo (s.closeHandle handle) spare where
  listed := by
    rw [(closeHandle_same s handle).1]
    exact holding.listed
  owns := by
    rw [(closeHandle_same s handle).1]
    refine Owns.closeHandle ?_
    rw [← List.append_assoc]
    exact holding.owns
  mapped := by
    rw [(closeHandle_same s handle).1]
    exact holding.mapped

theorem closeHandles (holding : Holding mmapAlign lo s (t.handles ++ spare)) :
    Holding mmapAlign lo (s.closeHandles t) spare := by
  unfold FileMappingTracker.handles at holding
  rw [List.append_assoc] at holding
  exact holding.closeHandle.closeHandle

/-- A tracker is taken out of the list, and its handles are spare. -/
theorem erase (holding : Holding mmapAlign lo s spare) (member : mt ∈ s.queue) :
    Holding mmapAlign lo { s with queue := s.queue.erase mt } (mt.handles ++ spare) where
  listed := holding.listed.erase
  owns := by
    have perm : (spare ++ queueHandles s.queue).Perm
        (mt.handles ++ spare ++ queueHandles (s.queue.erase mt)) := by
      have split := queueHandles_perm (List.perm_cons_erase member)
      unfold queueHandles at split ⊢
      rw [List.flatMap_cons] at split
      refine (split.append_left spare).trans ?_
      rw [← List.append_assoc]
      exact List.perm_append_comm.append_right _
    obtain ⟨opened, nodup, known, once⟩ := holding.owns.perm perm
    exact ⟨opened, nodup, known, once⟩
  mapped := fun t inRest => holding.mapped t (List.mem_of_mem_erase inRest)

/-- A tracker with spare handles is put into the list. -/
theorem insert (holding : Holding mmapAlign lo s (t.handles ++ spare))
    (valid : Valid mmapAlign lo t) (nonempty : t.baseAddress < t.endAddress)
    (free : ∀ u ∈ s.queue, u.endAddress ≤ t.baseAddress ∨ t.endAddress ≤ u.baseAddress)
    (mapped : t.fileMappingHandle.isSome = true) :
    Holding mmapAlign lo { s with queue := sortedqInsert t s.queue } spare where
  listed := holding.listed.sortedqInsert valid nonempty free
  owns := by
    have perm : (t.handles ++ spare ++ queueHandles s.queue).Perm
        (spare ++ queueHandles (sortedqInsert t s.queue)) := by
      have inserted : (queueHandles (sortedqInsert t s.queue)).Perm
          (t.handles ++ queueHandles s.queue) :=
        queueHandles_perm (RangeQueue.insertBefore_perm _ t s.queue)
      refine List.Perm.trans ?_ (inserted.append_left spare).symm
      rw [← List.append_assoc]
      exact List.perm_append_comm.append_right _
    obtain ⟨opened, nodup, known, once⟩ := holding.owns.perm perm
    exact ⟨opened, nodup, known, once⟩
  mapped := by
    intro u member
    rcases RangeQueue.mem_insertBefore.mp member with rfl | member
    · exact mapped
    · exact holding.mapped u member

/-- The order of the spare handles does not matter. -/
theorem reorder {other : List Nat} (holding : Holding mmapAlign lo s spare)
    (perm : spare.Perm other) : Holding mmapAlign lo s other where
  listed := holding.listed
  owns := holding.owns.perm (perm.append_right _)
  mapped := holding.mapped

/-- A mapping is given up that leaves nothing. -/
theorem splitRelease_none (holding : Holding mmapAlign lo s spare) (member : mt ∈ s.queue) :
    Holding mmapAlign lo (s.splitRelease mt none none) spare := by
  have given := MemoryOnly.given s mt
  have erased := (holding.memoryOnly given).erase
    (show mt ∈ _ by rwa [given.queue])
  have closed := erased.closeHandles
  rw [closeHandles_withQueue] at closed
  unfold WinState.splitRelease
  dsimp only
  rw [if_pos ⟨rfl, rfl⟩, (closeHandles_same _ mt).1]
  exact closed

/-- A mapping is given up that leaves something, for which its handles are kept. -/
theorem splitRelease_some (holding : Holding mmapAlign lo s spare) (member : mt ∈ s.queue)
    (mtb mte : Option FileMappingTracker)
    (leaves : ¬(mtb.isNone = true ∧ mte.isNone = true)) :
    Holding mmapAlign lo (s.splitRelease mt mtb mte) (mt.handles ++ spare) := by
  have given := MemoryOnly.given s mt
  unfold WinState.splitRelease
  dsimp only
  rw [if_neg leaves]
  exact (holding.memoryOnly given).erase (by rwa [given.queue])

/-- A remainder is put in place. -/
theorem placed (holding : Holding mmapAlign lo s (t.handles ++ spare))
    (valid : Valid mmapAlign lo t) (nonempty : t.baseAddress < t.endAddress)
    (free : ∀ u ∈ s.queue, u.endAddress ≤ t.baseAddress ∨ t.endAddress ≤ u.baseAddress)
    (mapped : t.fileMappingHandle.isSome = true) :
    Holding mmapAlign lo (s.placed (some t)) spare := by
  have only := (MemoryOnly.reserveTail s t).trans (MemoryOnly.mapHead _ t)
  refine (holding.memoryOnly only).insert valid nonempty ?_ mapped
  rw [only.queue]
  exact free

end Holding

/-- The lists after a mapping is given up, and after a remainder is put in place. -/
theorem splitRelease_queue (s : WinState) (mt : FileMappingTracker)
    (mtb mte : Option FileMappingTracker) :
    (s.splitRelease mt mtb mte).queue = s.queue.erase mt := by
  have given := MemoryOnly.given s mt
  unfold WinState.splitRelease
  dsimp only
  split
  · rw [(closeHandles_same _ mt).1, given.queue]
  · rw [given.queue]

theorem placed_queue (s : WinState) (remainder : Option FileMappingTracker) :
    (s.placed remainder).queue = insertSome remainder s.queue := by
  cases remainder with
  | none => rfl
  | some t =>
      have only := (MemoryOnly.reserveTail s t).trans (MemoryOnly.mapHead _ t)
      change sortedqInsert t _ = sortedqInsert t _
      rw [only.queue]

end Windows
end Vmem
