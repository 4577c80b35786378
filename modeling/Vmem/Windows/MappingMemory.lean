import Vmem.Windows.MappingCut

/-!
# The memory of the listed mappings

A mapping in the list has a view on its file and a reservation behind it.  What is done to the
range of one mapping leaves the memory of the others alone.
-/

namespace Vmem
namespace Windows

variable {s s' : WinState} {t u mt : FileMappingTracker} {lo hi mmapAlign start stop : Nat}
  {spare : List Nat} {o : SplitOutcome}

/-! ## Memory -/

/-- A mapping has a view on the part with the file, and a reservation on the rest. -/
structure Backed (s : WinState) (t : FileMappingTracker) : Prop where
  inside : t.baseAddress + t.fileLen ≤ t.endAddress
  view : 0 < t.fileLen → ⟨t.baseAddress, t.fileLen⟩ ∈ s.views
  reserved : ∀ x, t.baseAddress + t.fileLen ≤ x → x < t.endAddress → s.reserved x = true

/-- Views and reservations are lost at most in `[lo, hi)`. -/
structure KeepsMemory (lo hi : Nat) (s s' : WinState) : Prop where
  views : ∀ view ∈ s.views, view.lo < lo ∨ hi ≤ view.lo → view ∈ s'.views
  reserved : ∀ x, x < lo ∨ hi ≤ x → s.reserved x = true → s'.reserved x = true

/-- A mapping outside of the range keeps what it has. -/
theorem Backed.keep (backed : Backed s t) (keeps : KeepsMemory lo hi s s')
    (outside : t.endAddress ≤ lo ∨ hi ≤ t.baseAddress) : Backed s' t := by
  obtain ⟨inside, view, reserved⟩ := backed
  refine ⟨inside, fun file => ?_, fun x lower upper => ?_⟩
  · refine keeps.views _ (view file) ?_
    change t.baseAddress < lo ∨ hi ≤ t.baseAddress
    omega
  · exact keeps.reserved x (by omega) (reserved x lower upper)

namespace KeepsMemory

theorem refl (lo hi : Nat) (s : WinState) : KeepsMemory lo hi s s :=
  ⟨fun _ member _ => member, fun _ _ reserved => reserved⟩

theorem trans {s'' : WinState} (first : KeepsMemory lo hi s s')
    (second : KeepsMemory lo hi s' s'') : KeepsMemory lo hi s s'' where
  views := fun view member outside =>
    second.views view (first.views view member outside) outside
  reserved := fun x outside reserved =>
    second.reserved x outside (first.reserved x outside reserved)

/-- Memory that is the same is kept. -/
theorem of_eq (views : s'.views = s.views) (reserved : s'.reserved = s.reserved) :
    KeepsMemory lo hi s s' := by
  refine ⟨fun view member _ => ?_, fun x _ isReserved => ?_⟩
  · rw [views]
    exact member
  · rw [reserved]
    exact isReserved

theorem unmapViewOfFile {base : Nat} (lower : lo ≤ base) (upper : base < hi) (s : WinState) :
    KeepsMemory lo hi s (s.unmapViewOfFile base) where
  views := by
    intro view member outside
    refine List.mem_filter.mpr ⟨member, decide_eq_true ?_⟩
    omega
  reserved := fun _ _ reserved => reserved

theorem mmapUnreserve {addr len : Nat} (lower : lo ≤ addr) (upper : addr + len ≤ hi)
    (s : WinState) : KeepsMemory lo hi s (s.mmapUnreserve addr len) := by
  unfold WinState.mmapUnreserve
  split
  · refine ⟨fun _ member _ => member, fun x outside reserved => ?_⟩
    exact decide_eq_true ⟨by omega, reserved⟩
  · exact refl lo hi s

theorem mmapReserve (addr len : Nat) (s : WinState) :
    KeepsMemory lo hi s (s.mmapReserve addr len) where
  views := fun _ member _ => member
  reserved := fun _ _ reserved => decide_eq_true (Or.inr reserved)

theorem mapViewOfFileEx (base len : Nat) (s : WinState) :
    KeepsMemory lo hi s (s.mapViewOfFileEx base len) where
  views := fun _ member _ => List.mem_cons_of_mem _ member
  reserved := fun _ _ reserved => reserved

/-- The reservation of a mapping lies in its range. -/
theorem releaseTail (inside : t.baseAddress + t.fileLen ≤ t.endAddress)
    (fits : t.endAddress < Word.modulus) (lower : lo ≤ t.baseAddress) (upper : t.endAddress ≤ hi)
    (s : WinState) : KeepsMemory lo hi s (s.releaseTail t) := by
  have length : t.length = t.endAddress - t.baseAddress := Word.sub_eq (by omega) fits
  unfold WinState.releaseTail
  split
  · rw [Word.add_eq (by omega), length, Word.sub_eq (by omega) (by omega)]
    exact mmapUnreserve (by omega) (by omega) s
  · exact refl lo hi s

theorem reserveTail (t : FileMappingTracker) (s : WinState) :
    KeepsMemory lo hi s (s.reserveTail t) := by
  unfold WinState.reserveTail
  split
  · exact mmapReserve ..
  · exact refl lo hi s

theorem mapHead (t : FileMappingTracker) (s : WinState) : KeepsMemory lo hi s (s.mapHead t) := by
  unfold WinState.mapHead
  split
  · exact mapViewOfFileEx ..
  · exact refl lo hi s

/-- Putting a remainder in place takes no memory from anybody. -/
theorem placed (remainder : Option FileMappingTracker) (s : WinState) :
    KeepsMemory lo hi s (s.placed remainder) := by
  cases remainder with
  | none => exact refl lo hi s
  | some t =>
      have both : KeepsMemory lo hi s ((s.reserveTail t).mapHead t) :=
        (reserveTail t s).trans (mapHead t _)
      exact ⟨both.views, both.reserved⟩

/-- Giving up a mapping takes only its own memory. -/
theorem splitRelease (inside : mt.baseAddress + mt.fileLen ≤ mt.endAddress)
    (fits : mt.endAddress < Word.modulus) (mtb mte : Option FileMappingTracker) (s : WinState) :
    KeepsMemory mt.baseAddress mt.endAddress s (s.splitRelease mt mtb mte) := by
  have given : KeepsMemory mt.baseAddress mt.endAddress s
      ((if 0 < mt.fileLen then s.unmapViewOfFile mt.baseAddress else s).releaseTail mt) := by
    refine KeepsMemory.trans ?_ (releaseTail inside fits le_rfl le_rfl _)
    split
    · exact unmapViewOfFile le_rfl (by omega) s
    · exact refl _ _ s
  unfold WinState.splitRelease
  dsimp only
  split
  · obtain ⟨_, views, reserved, _⟩ := closeHandles_same
      ((if 0 < mt.fileLen then s.unmapViewOfFile mt.baseAddress else s).releaseTail mt) mt
    have closed := given.trans (of_eq views reserved)
    exact ⟨closed.views, closed.reserved⟩
  · exact ⟨given.views, given.reserved⟩

end KeepsMemory

/-- A remainder that is put in place has its memory. -/
theorem backed_placed (inside : t.baseAddress + t.fileLen ≤ t.endAddress)
    (fits : t.endAddress < Word.modulus) (s : WinState) : Backed (s.placed (some t)) t := by
  have length : t.length = t.endAddress - t.baseAddress := Word.sub_eq (by omega) fits
  refine ⟨inside, fun file => ?_, fun x lower upper => ?_⟩
  · change _ ∈ ((s.reserveTail t).mapHead t).views
    unfold WinState.mapHead
    rw [if_pos file]
    exact List.mem_cons_self
  · have tail : (s.reserveTail t).reserved x = true := by
      unfold WinState.reserveTail
      rw [if_pos (by omega), Word.add_eq (by omega), length, Word.sub_eq (by omega) (by omega)]
      exact decide_eq_true (Or.inl ⟨by omega, by omega⟩)
    have kept : KeepsMemory 0 0 (s.reserveTail t) ((s.reserveTail t).mapHead t) :=
      KeepsMemory.mapHead t _
    exact kept.reserved x (Or.inr (Nat.zero_le x)) tail

/-! ## Soundness -/

/-- The list is in order, its mappings have their handles and their memory, and none of them is
freed. -/
structure Sound (mmapAlign : Nat) (s : WinState) (spare : List Nat) : Prop where
  holding : Holding mmapAlign 0 s spare
  backed : ∀ t ∈ s.queue, Backed s t
  alive : s.dangling = []

namespace Sound

theorem nonempty (sound : Sound mmapAlign s spare) (member : t ∈ s.queue) :
    t.baseAddress < t.endAddress := sound.holding.listed.inOrder.nonempty t member

/-- Memory changes where no mapping is. -/
theorem memory (sound : Sound mmapAlign s spare) (only : MemoryOnly s s')
    (keeps : KeepsMemory lo hi s s')
    (free : ∀ t ∈ s.queue, t.endAddress ≤ lo ∨ hi ≤ t.baseAddress) :
    Sound mmapAlign s' spare where
  holding := sound.holding.memoryOnly only
  backed := by
    rw [only.queue]
    exact fun t member => (sound.backed t member).keep keeps (free t member)
  alive := only.dangling.trans sound.alive

theorem openHandle (sound : Sound mmapAlign s spare) :
    Sound mmapAlign s.openHandle (s.nextHandle :: spare) where
  holding := sound.holding.openHandle
  backed := fun t member =>
    have backed := sound.backed t member
    ⟨backed.inside, backed.view, backed.reserved⟩
  alive := sound.alive

theorem closeHandle {handle : Option Nat} (sound : Sound mmapAlign s (handle.toList ++ spare)) :
    Sound mmapAlign (s.closeHandle handle) spare := by
  obtain ⟨queue, views, reserved, dangling⟩ := closeHandle_same s handle
  refine ⟨sound.holding.closeHandle, ?_, dangling.trans sound.alive⟩
  have same : KeepsMemory 0 0 s (s.closeHandle handle) := KeepsMemory.of_eq views reserved
  rw [queue]
  exact fun t member => (sound.backed t member).keep same (Or.inr (Nat.zero_le _))

theorem closeHandles (sound : Sound mmapAlign s (t.handles ++ spare)) :
    Sound mmapAlign (s.closeHandles t) spare := by
  unfold FileMappingTracker.handles at sound
  rw [List.append_assoc] at sound
  exact sound.closeHandle.closeHandle

/-- The memory of the other mappings is kept while one is replaced. -/
theorem others (sound : Sound mmapAlign s spare) (member : mt ∈ s.queue)
    (keeps : KeepsMemory mt.baseAddress mt.endAddress s s') (inRest : u ∈ s.queue.erase mt) :
    Backed s' u := by
  have uMember := List.mem_of_mem_erase inRest
  exact (sound.backed u uMember).keep keeps (sound.holding.listed.others member inRest)

/-- A mapping is given up for its remainders; the handles are spare. -/
theorem splitRelease (sound : Sound mmapAlign s spare) (member : mt ∈ s.queue)
    (mtb mte : Option FileMappingTracker) (leaves : ¬(mtb.isNone = true ∧ mte.isNone = true)) :
    Sound mmapAlign (s.splitRelease mt mtb mte) (mt.handles ++ spare) where
  holding := sound.holding.splitRelease_some member mtb mte leaves
  backed := by
    rw [splitRelease_queue]
    exact fun u inRest => sound.others member (KeepsMemory.splitRelease
      (sound.backed mt member).inside (sound.holding.listed.valid mt member).fits mtb mte s) inRest
  alive := by
    unfold WinState.splitRelease
    dsimp only
    rw [if_neg leaves]
    exact (MemoryOnly.given s mt).dangling.trans sound.alive

/-- What is done with a new mapping after an error. -/
theorem discard (sound : Sound mmapAlign s (t.handles ++ spare))
    (inside : t.baseAddress + t.fileLen ≤ t.endAddress) (fits : t.endAddress < Word.modulus)
    (free : ∀ u ∈ s.queue, u.endAddress ≤ t.baseAddress ∨ t.endAddress ≤ u.baseAddress) :
    Sound mmapAlign (s.discard (some t)) spare := by
  refine sound.closeHandles.memory (MemoryOnly.releaseTail _ t)
    (KeepsMemory.releaseTail inside fits le_rfl le_rfl _) ?_
  rw [(closeHandles_same s t).1]
  exact free

end Sound

end Windows
end Vmem
