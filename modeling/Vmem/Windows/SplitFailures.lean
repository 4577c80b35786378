import Vmem.Windows.MappingMemory

/-!
# Cuts that fail

Where a call in `mmap_split` fails, the code at its end closes handles and releases reservations
of the new mappings.  The one at the beginning shares its handles with the old mapping, and may
already be in the list, so this is harmless only in some of the places.
-/

namespace Vmem
namespace Windows

variable {s s' prep : WinState} {t u mt : FileMappingTracker} {mmapAlign start stop : Nat}
  {spare : List Nat} {o : SplitOutcome} {mtb mte : Option FileMappingTracker}

/-- The failures in a cut are harmless: with both remainders, the second one gets its memory and
its handles; the old mapping is unmapped if something remains of it; and the second remainder is
put in place if the first one is. -/
structure HarmlessCut (mt : FileMappingTracker) (start stop : Nat) (o : SplitOutcome) : Prop where
  filled : mt.baseAddress < start → stop < mt.endAddress → o.mtbAlloc = true →
    o.mteAlloc = true ∧ o.dupFile = true ∧ o.dupMapping = true
  unmapped : mt.baseAddress < start ∨ stop < mt.endAddress →
    (mt.baseAddress < start → o.mtbAlloc = true) → (stop < mt.endAddress → o.mteAlloc = true) →
    0 < mt.fileLen → o.unmap = true
  placed : mt.baseAddress < start → stop < mt.endAddress → o.mtbAlloc = true →
    (mt.baseAddress + mt.fileLen < start → o.reserveMtb = true) →
    (0 < mt.fileLen → o.mapMtb = true) →
    (mt.baseAddress + mt.fileLen < mt.endAddress → o.reserveMte = true) ∧
      (stop < mt.baseAddress + mt.fileLen → o.mapMte = true)

/-- Calls that all succeed are harmless. -/
theorem SplitOutcome.Succeeds.harmless (succeeds : o.Succeeds) : HarmlessCut mt start stop o := by
  obtain ⟨_, mteAlloc, dupFile, dupMapping, unmap, _, _, reserveMte, mapMte⟩ := succeeds
  exact ⟨fun _ _ _ => ⟨mteAlloc, dupFile, dupMapping⟩, fun _ _ _ _ => unmap,
    fun _ _ _ _ _ => ⟨fun _ => reserveMte, fun _ => mapMte⟩⟩

/-! ## The remainders and their memory -/

/-- A mapping lies in the range of another, and its file in its own range. -/
structure PieceOf (mt t : FileMappingTracker) : Prop where
  lower : mt.baseAddress ≤ t.baseAddress
  upper : t.endAddress ≤ mt.endAddress
  inside : t.baseAddress + t.fileLen ≤ t.endAddress

theorem splitBegin_piece (range : CutRange mmapAlign mt start stop)
    (isBegin : splitBegin mt start = some t) : PieceOf mt t := by
  obtain ⟨leaves, rfl⟩ := splitBegin_eq_some.mp isBegin
  obtain ⟨_, _, _, nonempty, ends⟩ := range
  refine ⟨le_rfl, ?_, ?_⟩
  · change start ≤ mt.endAddress
    omega
  · change mt.baseAddress + min mt.fileLen (start - mt.baseAddress) ≤ start
    omega

theorem splitEnd_piece (range : CutRange mmapAlign mt start stop)
    (inside : mt.baseAddress + mt.fileLen ≤ mt.endAddress) (fh fmh : Option Nat) :
    PieceOf mt (splitEnd mt stop fh fmh) := by
  obtain ⟨_, _, begins, nonempty, ends⟩ := range
  refine ⟨?_, le_rfl, ?_⟩
  · change mt.baseAddress ≤ stop
    omega
  · rw [splitEnd_fileLen]
    change stop + (mt.fileLen - (stop - mt.baseAddress)) ≤ mt.endAddress
    omega

/-- When the first remainder is put in place. -/
theorem splitBegin_succeeds_iff (range : CutRange mmapAlign mt start stop)
    (fits : mt.endAddress < Word.modulus) (isBegin : splitBegin mt start = some t)
    (reserves maps : Bool) : WinState.PlaceSucceeds reserves maps t ↔
      (mt.baseAddress + mt.fileLen < start → reserves = true) ∧
        (0 < mt.fileLen → maps = true) := by
  obtain ⟨leaves, rfl⟩ := splitBegin_eq_some.mp isBegin
  obtain ⟨_, _, _, nonempty, ends⟩ := range
  have length : Word.sub start mt.baseAddress = start - mt.baseAddress :=
    Word.sub_eq (by omega) (by omega)
  unfold WinState.PlaceSucceeds FileMappingTracker.length
  dsimp only
  rw [length, show min mt.fileLen (start - mt.baseAddress) < start - mt.baseAddress ↔
      mt.baseAddress + mt.fileLen < start by omega,
    show 0 < min mt.fileLen (start - mt.baseAddress) ↔ 0 < mt.fileLen by omega]

/-- When the second remainder is put in place. -/
theorem splitEnd_succeeds_iff (range : CutRange mmapAlign mt start stop)
    (fits : mt.endAddress < Word.modulus) (ends : stop < mt.endAddress) (fh fmh : Option Nat)
    (reserves maps : Bool) :
    WinState.PlaceSucceeds reserves maps (splitEnd mt stop fh fmh) ↔
      (mt.baseAddress + mt.fileLen < mt.endAddress → reserves = true) ∧
        (stop < mt.baseAddress + mt.fileLen → maps = true) := by
  have begins := range.begins
  have nonempty := range.nonempty
  have length : (splitEnd mt stop fh fmh).length = mt.endAddress - stop := by
    change Word.sub mt.endAddress stop = _
    exact Word.sub_eq (by omega) fits
  unfold WinState.PlaceSucceeds
  rw [length, splitEnd_fileLen, show mt.fileLen - (stop - mt.baseAddress) < mt.endAddress - stop ↔
      mt.baseAddress + mt.fileLen < mt.endAddress by omega,
    show 0 < mt.fileLen - (stop - mt.baseAddress) ↔ stop < mt.baseAddress + mt.fileLen by omega]

/-! ## The ways a cut ends -/

theorem splitRelease_dangling (s : WinState) (mt : FileMappingTracker)
    (mtb mte : Option FileMappingTracker) :
    (s.splitRelease mt mtb mte).dangling = s.dangling := by
  have given := MemoryOnly.given s mt
  unfold WinState.splitRelease
  dsimp only
  split
  · exact (closeHandles_same _ mt).2.2.2.trans given.dangling
  · exact given.dangling

theorem placed_dangling (s : WinState) (remainder : Option FileMappingTracker) :
    (s.placed remainder).dangling = s.dangling := by
  cases remainder with
  | none => rfl
  | some t => exact ((MemoryOnly.reserveTail s t).trans (MemoryOnly.mapHead _ t)).dangling

theorem discard_queue (s : WinState) (t : FileMappingTracker) :
    (s.discard (some t)).queue = s.queue :=
  (MemoryOnly.releaseTail _ t).queue.trans (closeHandles_same s t).1

/-- Filling the new trackers changes only handles. -/
theorem Prepared.same (prepared : Prepared s mt start stop prep mtb mte) :
    prep.queue = s.queue ∧ prep.views = s.views ∧ prep.reserved = s.reserved ∧
      prep.dangling = s.dangling := by
  cases prepared <;> exact ⟨rfl, rfl, rfl, rfl⟩

/-- The remainders are pieces of the old mapping. -/
theorem Prepared.pieces (prepared : Prepared s mt start stop prep mtb mte)
    (range : CutRange mmapAlign mt start stop)
    (inside : mt.baseAddress + mt.fileLen ≤ mt.endAddress) :
    (∀ t, mtb = some t → PieceOf mt t) ∧ ∀ t, mte = some t → PieceOf mt t := by
  cases prepared with
  | noEnd whole =>
      exact ⟨fun t isBegin => splitBegin_piece range isBegin, fun t never => (by cases never)⟩
  | onlyEnd starts ends =>
      refine ⟨fun t never => (by cases never), fun t isEnd => ?_⟩
      cases isEnd
      exact splitEnd_piece range inside _ _
  | both starts ends =>
      refine ⟨fun t isBegin => splitBegin_piece range isBegin, fun t isEnd => ?_⟩
      cases isEnd
      exact splitEnd_piece range inside _ _

namespace Sound

/-- A cut that returns 0. -/
theorem splitDone (sound : Sound mmapAlign s []) (member : mt ∈ s.queue)
    (range : CutRange mmapAlign mt start stop)
    (result : s.mmapSplit mt start stop o = (s', .done)) : Sound mmapAlign s' [] := by
  have inside := (sound.backed mt member).inside
  have fits := (sound.holding.listed.valid mt member).fits
  obtain ⟨_, _, cut⟩ := mmapSplit_cut sound.holding member range result
  obtain ⟨prep, mtb, mte, prepared, rfl⟩ := mmapSplit_done result
  obtain ⟨queue, views, reserved, dangling⟩ := prepared.same
  obtain ⟨begins, ends⟩ := prepared.pieces range inside
  have pieceFits {t : FileMappingTracker} (piece : PieceOf mt t) : t.endAddress < Word.modulus :=
    lt_of_le_of_lt piece.upper fits
  have keeps : KeepsMemory mt.baseAddress mt.endAddress s
      (((prep.splitRelease mt mtb mte).placed mtb).placed mte) := by
    refine KeepsMemory.trans (KeepsMemory.of_eq views reserved) ?_
    refine (KeepsMemory.splitRelease inside fits mtb mte prep).trans ?_
    exact (KeepsMemory.placed mtb _).trans (KeepsMemory.placed mte _)
  refine ⟨cut.holding, fun u inQueue => ?_, ?_⟩
  · rw [placed_queue, placed_queue, splitRelease_queue, queue] at inQueue
    rcases mem_insertSome.mp inQueue with isEnd | inQueue
    · cases isEnd
      have piece := ends u rfl
      exact backed_placed piece.inside (pieceFits piece) _
    · rcases mem_insertSome.mp inQueue with isBegin | inRest
      · cases isBegin
        have piece := begins u rfl
        have kept : KeepsMemory 0 0 ((prep.splitRelease mt (some u) mte).placed (some u)) _ :=
          KeepsMemory.placed mte _
        exact (backed_placed piece.inside (pieceFits piece) _).keep kept (Or.inr (Nat.zero_le _))
      · exact sound.others member keeps inRest
  · rw [placed_dangling, placed_dangling, splitRelease_dangling, dangling]
    exact sound.alive

/-- A new mapping is discarded; the other mappings lie apart from the old one. -/
theorem discardPiece (sound : Sound mmapAlign s (t.handles ++ spare)) (piece : PieceOf mt t)
    (fits : mt.endAddress < Word.modulus)
    (others : ∀ u ∈ s.queue, u.endAddress ≤ mt.baseAddress ∨ mt.endAddress ≤ u.baseAddress) :
    Sound mmapAlign (s.discard (some t)) spare := by
  obtain ⟨lower, upper, inside⟩ := piece
  refine sound.discard inside (by omega) fun u member => ?_
  have := others u member
  omega

/-- The reservation for a new mapping may have been made. -/
theorem perhapsReserved (sound : Sound mmapAlign s spare) (t : FileMappingTracker)
    (reserved : Bool) :
    Sound mmapAlign (if reserved then s.reserveTail t else s) spare := by
  cases reserved with
  | false => exact sound
  | true =>
      have keeps : KeepsMemory 0 0 s (s.reserveTail t) := KeepsMemory.reserveTail t s
      exact sound.memory (MemoryOnly.reserveTail s t) keeps fun _ _ => Or.inr (Nat.zero_le _)

end Sound

theorem perhapsReserved_queue (s : WinState) (t : FileMappingTracker) (reserved : Bool) :
    (if reserved then s.reserveTail t else s).queue = s.queue := by
  cases reserved with
  | false => rfl
  | true => exact (MemoryOnly.reserveTail s t).queue

/-- The first remainder could not be put in place: the handles of both remainders are closed. -/
theorem Sound.lostBegin (sound : Sound mmapAlign s []) (member : mt ∈ s.queue)
    (range : CutRange mmapAlign mt start stop) (prepared : Prepared s mt start stop prep mtb mte)
    (isBegin : mtb = some t) (reserved : Bool) :
    Sound mmapAlign ((if reserved then (prep.splitRelease mt mtb mte).reserveTail t
      else prep.splitRelease mt mtb mte).splitErr mtb mte) [] := by
  have inside := (sound.backed mt member).inside
  have fits := (sound.holding.listed.valid mt member).fits
  have others : ∀ u ∈ s.queue.erase mt,
      u.endAddress ≤ mt.baseAddress ∨ mt.endAddress ≤ u.baseAddress :=
    fun u inRest => sound.holding.listed.others member inRest
  have leaves : ¬(mtb.isNone = true ∧ mte.isNone = true) := by
    rw [isBegin]
    exact fun never => Bool.noConfusion never.1
  obtain ⟨begins, ends⟩ := prepared.pieces range inside
  have piece := begins t isBegin
  cases prepared with
  | noEnd whole =>
      have released := (sound.splitRelease member (splitBegin mt start) none leaves).perhapsReserved
        t reserved
      rw [← splitBegin_handles isBegin] at released
      rw [isBegin] at released ⊢
      refine released.discardPiece piece fits ?_
      rw [perhapsReserved_queue, splitRelease_queue]
      exact others
  | onlyEnd _ _ => cases isBegin
  | both starts more =>
      have opened : Sound mmapAlign s.openHandle.openHandle
          ((splitEnd mt stop (some s.nextHandle) (some (s.nextHandle + 1))).handles ++ []) :=
        sound.openHandle.openHandle
      have released := (opened.splitRelease member (splitBegin mt start) _ leaves).perhapsReserved
        t reserved
      rw [← splitBegin_handles isBegin] at released
      rw [isBegin] at released ⊢
      have first := released.discardPiece piece fits (by
        rw [perhapsReserved_queue, splitRelease_queue]
        exact others)
      refine first.discardPiece (ends _ rfl) fits ?_
      rw [discard_queue, perhapsReserved_queue, splitRelease_queue]
      exact others

/-- The only remainder, at the end, could not be put in place. -/
theorem Sound.lostEnd (sound : Sound mmapAlign s []) (member : mt ∈ s.queue)
    (range : CutRange mmapAlign mt start stop) (prepared : Prepared s mt start stop prep mtb mte)
    (noBegin : mtb = none) (isEnd : mte = some t) (reserved : Bool) :
    Sound mmapAlign ((if reserved then (prep.splitRelease mt mtb mte).reserveTail t
      else prep.splitRelease mt mtb mte).discard mte) [] := by
  have inside := (sound.backed mt member).inside
  have fits := (sound.holding.listed.valid mt member).fits
  obtain ⟨_, ends⟩ := prepared.pieces range inside
  have piece := ends t isEnd
  cases prepared with
  | noEnd _ => cases isEnd
  | onlyEnd _ _ =>
      cases isEnd
      have released := (sound.splitRelease member none
        (some (splitEnd mt stop mt.fileHandle mt.fileMappingHandle))
        fun never => Bool.noConfusion never.2).perhapsReserved
          (splitEnd mt stop mt.fileHandle mt.fileMappingHandle) reserved
      refine Sound.discardPiece released piece fits ?_
      rw [perhapsReserved_queue, splitRelease_queue]
      exact fun u inRest => sound.holding.listed.others member inRest
  | both starts _ =>
      rw [splitBegin_eq_some.mpr ⟨starts, rfl⟩] at noBegin
      cases noBegin

/-- A cut with harmless failures keeps the list sound, and if it gives up before it has unmapped
anything, nothing is changed. -/
theorem Sound.split {how : SplitEnd} (sound : Sound mmapAlign s []) (member : mt ∈ s.queue)
    (range : CutRange mmapAlign mt start stop) (harmless : HarmlessCut mt start stop o)
    (result : s.mmapSplit mt start stop o = (s', how)) :
    Sound mmapAlign s' [] ∧ (how = .refused → s' = s) := by
  have fits := (sound.holding.listed.valid mt member).fits
  cases mmapSplit_start s mt start stop o with
  | refused same _ =>
      rw [result] at same
      cases same
      exact ⟨sound, fun _ => rfl⟩
  | harmed starts ends memory fails _ => exact absurd (harmless.filled starts ends memory) fails
  | prepared prep mtb mte prepared mtbMemory mteMemory continues =>
      have unmapped := fun leaves => harmless.unmapped leaves mtbMemory mteMemory
      cases splitUnmap_rest prep mt mtb mte o with
      | notUnmapped file fails returned =>
          have nothing : ¬(mt.baseAddress < start ∨ stop < mt.endAddress) := by
            intro leaves
            have succeeds := unmapped leaves file
            rw [fails] at succeeds
            cases succeeds
          rw [result, returned] at continues
          cases prepared with
          | noEnd whole =>
              cases begin_eq : splitBegin mt start with
              | none =>
                  rw [begin_eq] at continues
                  cases continues
                  exact ⟨sound, fun _ => rfl⟩
              | some t => exact absurd (Or.inl (splitBegin_eq_some.mp begin_eq).1) nothing
          | onlyEnd _ leaves => exact absurd (Or.inr leaves) nothing
          | both _ leaves => exact absurd (Or.inr leaves) nothing
      | done _ _ returned =>
          have done : how = .done := by
            rw [result, returned] at continues
            exact congrArg Prod.snd continues
          subst done
          exact ⟨sound.splitDone member range result, fun never => by cases never⟩
      | lostBegin t isBegin _ reserved returned =>
          rw [result, returned] at continues
          cases continues
          exact ⟨sound.lostBegin member range prepared isBegin reserved,
            fun never => by cases never⟩
      | lostEnd t isEnd placed fails reserved noBegin lost =>
          have isLost : how = .lost := by
            rw [result] at continues
            rw [← continues] at lost
            exact lost
          subst isLost
          refine ⟨?_, fun never => by cases never⟩
          cases begin_eq : mtb with
          | none =>
              rw [result, noBegin begin_eq] at continues
              cases continues
              exact sound.lostEnd member range prepared begin_eq isEnd reserved
          | some first =>
              refine absurd ?_ fails
              cases prepared with
              | noEnd _ => cases isEnd
              | onlyEnd _ _ => cases begin_eq
              | both starts ends =>
                  cases isEnd
                  have memory := mtbMemory starts
                  have inPlace := (splitBegin_succeeds_iff range fits begin_eq _ _).mp
                    (placed first begin_eq)
                  exact (splitEnd_succeeds_iff range fits ends _ _ _ _).mpr
                    (harmless.placed starts ends memory inPlace.1 inPlace.2)

end Windows
end Vmem
