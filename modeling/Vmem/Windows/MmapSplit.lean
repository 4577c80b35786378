import Vmem.Windows.WinMmap

/-!
# Cutting a mapping

What `mmap_split` makes of a tracker, and how it ends.
-/

namespace Vmem
namespace Windows

variable {s s' prep : WinState} {mt t u : FileMappingTracker} {start stop x : Nat}
  {mtb mte : Option FileMappingTracker} {o : SplitOutcome}

/-! ## The remainders -/

theorem splitBegin_eq_some : splitBegin mt start = some t ↔ mt.baseAddress < start ∧
    t = { mt with
      endAddress := start
      fileLen := min mt.fileLen (start - mt.baseAddress) } := by
  have shorter : (if start - mt.baseAddress ≥ mt.fileLen then mt.fileLen
      else start - mt.baseAddress) = min mt.fileLen (start - mt.baseAddress) := by
    split <;> omega
  unfold splitBegin
  rw [shorter, Option.ite_none_right_eq_some, Option.some.injEq]
  exact and_congr_right fun _ => eq_comm

theorem splitBegin_isNone : (splitBegin mt start).isNone = true ↔ start ≤ mt.baseAddress := by
  unfold splitBegin
  split
  · rename_i starts
    exact ⟨fun never => Bool.noConfusion never, fun le => absurd starts (by omega)⟩
  · rename_i starts
    exact ⟨fun _ => by omega, fun _ => rfl⟩

/-- The rest of a file of the given length behind a cut. -/
theorem splitEnd_fileLen (mt : FileMappingTracker) (stop : Nat) (fh fmh : Option Nat) :
    (splitEnd mt stop fh fmh).fileLen = mt.fileLen - (stop - mt.baseAddress) := by
  unfold splitEnd
  dsimp only
  split <;> omega

/-- The new trackers are filled: what is cut off, what remains, and the handles that were made
for it. -/
inductive Prepared (s : WinState) (mt : FileMappingTracker) (start stop : Nat) :
    WinState → Option FileMappingTracker → Option FileMappingTracker → Prop
  | noEnd (whole : mt.endAddress ≤ stop) : Prepared s mt start stop s (splitBegin mt start) none
  | onlyEnd (starts : start ≤ mt.baseAddress) (ends : stop < mt.endAddress) :
      Prepared s mt start stop s none
        (some (splitEnd mt stop mt.fileHandle mt.fileMappingHandle))
  | both (starts : mt.baseAddress < start) (ends : stop < mt.endAddress) :
      Prepared s mt start stop s.openHandle.openHandle (splitBegin mt start)
        (some (splitEnd mt stop (some s.nextHandle) (some (s.nextHandle + 1))))

/-- How the first part of `mmap_split` ends. -/
inductive SplitStart (s : WinState) (mt : FileMappingTracker) (start stop : Nat)
    (o : SplitOutcome) : Prop
  | refused (same : s.mmapSplit mt start stop o = (s, .refused))
      (noMemory : (mt.baseAddress < start ∧ o.mtbAlloc = false) ∨
        (start ≤ mt.baseAddress ∧ stop < mt.endAddress ∧ o.mteAlloc = false))
  | harmed (starts : mt.baseAddress < start) (ends : stop < mt.endAddress)
      (memory : o.mtbAlloc = true)
      (fails : ¬(o.mteAlloc = true ∧ o.dupFile = true ∧ o.dupMapping = true))
      (result : (s.mmapSplit mt start stop o).2 = .refused)
  | prepared (prep : WinState) (mtb mte : Option FileMappingTracker)
      (prepared : Prepared s mt start stop prep mtb mte)
      (mtbMemory : mt.baseAddress < start → o.mtbAlloc = true)
      (mteMemory : stop < mt.endAddress → o.mteAlloc = true)
      (continues : s.mmapSplit mt start stop o = prep.splitUnmap mt mtb mte o)

theorem mmapSplit_start (s : WinState) (mt : FileMappingTracker) (start stop : Nat)
    (o : SplitOutcome) : SplitStart s mt start stop o := by
  cases filled : (splitBegin mt start).isNone with
  | true =>
      have starts := splitBegin_isNone.mp filled
      have none_eq : splitBegin mt start = none := Option.isNone_iff_eq_none.mp filled
      by_cases ends : stop < mt.endAddress
      · cases memory : o.mteAlloc with
        | false =>
            refine .refused ?_ (Or.inr ⟨starts, ends, memory⟩)
            simp [WinState.mmapSplit, none_eq, ends, memory, WinState.splitErr, WinState.discard]
        | true =>
            refine .prepared s none _ (.onlyEnd starts ends)
              (fun begins => absurd begins (by omega)) (fun _ => memory) ?_
            simp [WinState.mmapSplit, none_eq, ends, memory]
      · refine .prepared s (splitBegin mt start) none (.noEnd (by omega))
          (fun begins => absurd begins (by omega)) (fun more => absurd more ends) ?_
        simp [WinState.mmapSplit, none_eq, ends]
  | false =>
      have starts : mt.baseAddress < start := by
        by_contra never
        rw [splitBegin_isNone.mpr (by omega)] at filled
        cases filled
      have some_eq : (splitBegin mt start).isSome = true := by
        rw [← Option.not_isNone, filled]
        rfl
      cases memory : o.mtbAlloc with
      | false =>
          refine .refused ?_ (Or.inl ⟨starts, memory⟩)
          simp [WinState.mmapSplit, some_eq, memory]
      | true =>
          by_cases ends : stop < mt.endAddress
          · by_cases more : o.mteAlloc = true ∧ o.dupFile = true ∧ o.dupMapping = true
            · refine .prepared _ (splitBegin mt start) _ (.both starts ends) (fun _ => memory)
                (fun _ => more.1) ?_
              simp [WinState.mmapSplit, filled, memory, ends, more]
            · refine .harmed starts ends memory more ?_
              unfold WinState.mmapSplit
              simp only [some_eq, memory, ends, filled]
              simp only [not_true_eq_false, and_false, if_false, if_true]
              split_ifs <;> simp_all
          · refine .prepared s (splitBegin mt start) none (.noEnd (by omega)) (fun _ => memory)
              (fun more => absurd more ends) ?_
            simp [WinState.mmapSplit, memory, ends]

/-! ## Putting remainders in place -/

namespace WinState

/-- The reservation behind the file's part of a remainder. -/
def reserveTail (s : WinState) (t : FileMappingTracker) : WinState :=
  if t.length > t.fileLen then
    s.mmapReserve (Word.add t.baseAddress t.fileLen) (Word.sub t.length t.fileLen)
  else s

/-- The view on the file's part of a remainder. -/
def mapHead (s : WinState) (t : FileMappingTracker) : WinState :=
  if 0 < t.fileLen then s.mapViewOfFileEx t.baseAddress t.fileLen else s

/-- A remainder that is reserved, mapped and inserted. -/
def placed (s : WinState) : Option FileMappingTracker → WinState
  | none => s
  | some t => { (s.reserveTail t).mapHead t with
      queue := sortedqInsert t ((s.reserveTail t).mapHead t).queue }

/-- All calls for a remainder succeed. -/
def PlaceSucceeds (reserves maps : Bool) (t : FileMappingTracker) : Prop :=
  (t.fileLen < t.length → reserves = true) ∧ (0 < t.fileLen → maps = true)

/-- A remainder is put in place if all calls succeed; else at most its reservation is made. -/
theorem place_cases (s : WinState) (t : FileMappingTracker) (reserves maps : Bool) :
    (PlaceSucceeds reserves maps t ∧ s.place t reserves maps = (s.placed (some t), .inserted)) ∨
      (¬PlaceSucceeds reserves maps t ∧
        (s.place t reserves maps = (s, .notReserved) ∨
          s.place t reserves maps = (s.reserveTail t, .notMapped))) := by
  unfold place PlaceSucceeds
  dsimp only
  by_cases tail : t.length > t.fileLen ∧ ¬reserves = true
  · rw [if_pos tail]
    exact Or.inr ⟨fun succeeds => tail.2 (succeeds.1 tail.1), Or.inl rfl⟩
  · rw [if_neg tail]
    by_cases file : 0 < t.fileLen ∧ ¬maps = true
    · rw [if_pos file]
      exact Or.inr ⟨fun succeeds => file.2 (succeeds.2 file.1), Or.inr rfl⟩
    · rw [if_neg file]
      refine Or.inl ⟨⟨fun longer => ?_, fun backed => ?_⟩, rfl⟩
      · by_contra never
        exact tail ⟨longer, never⟩
      · by_contra never
        exact file ⟨backed, never⟩

end WinState

/-! ## How a cut ends -/

/-- All calls for a remainder, if there is one, succeed. -/
def AllPlaced (reserves maps : Bool) (remainder : Option FileMappingTracker) : Prop :=
  ∀ t ∈ remainder, WinState.PlaceSucceeds reserves maps t

/-- How `mmap_split` ends after the new trackers are filled. -/
inductive SplitRest (prep : WinState) (mt : FileMappingTracker)
    (mtb mte : Option FileMappingTracker) (o : SplitOutcome) : Prop
  | notUnmapped (file : 0 < mt.fileLen) (fails : o.unmap = false)
      (result : prep.splitUnmap mt mtb mte o = (prep.splitErr mtb mte, .refused))
  | done (begins : AllPlaced o.reserveMtb o.mapMtb mtb) (ends : AllPlaced o.reserveMte o.mapMte mte)
      (result : prep.splitUnmap mt mtb mte o =
        (((prep.splitRelease mt mtb mte).placed mtb).placed mte, .done))
  | lostBegin (t : FileMappingTracker) (isBegin : mtb = some t)
      (fails : ¬WinState.PlaceSucceeds o.reserveMtb o.mapMtb t) (reserved : Bool)
      (result : prep.splitUnmap mt mtb mte o =
        ((if reserved then (prep.splitRelease mt mtb mte).reserveTail t
          else prep.splitRelease mt mtb mte).splitErr mtb mte, .lost))
  | lostEnd (t : FileMappingTracker) (isEnd : mte = some t)
      (begins : AllPlaced o.reserveMtb o.mapMtb mtb)
      (fails : ¬WinState.PlaceSucceeds o.reserveMte o.mapMte t) (reserved : Bool)
      (noBegin : mtb = none → prep.splitUnmap mt mtb mte o =
        ((if reserved then (prep.splitRelease mt mtb mte).reserveTail t
          else prep.splitRelease mt mtb mte).discard mte, .lost))
      (result : (prep.splitUnmap mt mtb mte o).2 = .lost)

/-- The last part of `mmap_split`. -/
theorem splitPlaceEnd_cases (s : WinState) (mtb mte : Option FileMappingTracker)
    (o : SplitOutcome) :
    (AllPlaced o.reserveMte o.mapMte mte ∧ s.splitPlaceEnd mtb mte o = (s.placed mte, .done)) ∨
      ∃ (t : FileMappingTracker) (reserved : Bool), mte = some t ∧
        ¬WinState.PlaceSucceeds o.reserveMte o.mapMte t ∧
        (mtb = none → s.splitPlaceEnd mtb mte o =
          ((if reserved then s.reserveTail t else s).discard mte, .lost)) ∧
        (s.splitPlaceEnd mtb mte o).2 = .lost := by
  cases mte with
  | none => exact Or.inl ⟨fun _ never => (by cases never), rfl⟩
  | some t =>
      unfold WinState.splitPlaceEnd
      rcases s.place_cases t o.reserveMte o.mapMte with
        ⟨succeeds, placed⟩ | ⟨fails, notReserved | notMapped⟩
      · refine Or.inl ⟨fun u same => ?_, ?_⟩
        · cases same
          exact succeeds
        · dsimp only
          rw [placed]
      · refine Or.inr ⟨t, false, rfl, fails, fun isNone => ?_, ?_⟩
        · subst isNone
          dsimp only
          rw [notReserved]
          rfl
        · dsimp only
          rw [notReserved]
      · refine Or.inr ⟨t, true, rfl, fails, fun isNone => ?_, ?_⟩
        · subst isNone
          dsimp only
          rw [notMapped]
          rfl
        · dsimp only
          rw [notMapped]

theorem splitUnmap_rest (prep : WinState) (mt : FileMappingTracker)
    (mtb mte : Option FileMappingTracker) (o : SplitOutcome) : SplitRest prep mt mtb mte o := by
  by_cases stays : 0 < mt.fileLen ∧ ¬o.unmap = true
  · refine .notUnmapped stays.1 (Bool.eq_false_of_not_eq_true stays.2) ?_
    exact if_pos stays
  have goesOn : prep.splitUnmap mt mtb mte o =
      (prep.splitRelease mt mtb mte).splitPlace mtb mte o := if_neg stays
  -- the mapping at the end, once the one at the beginning is in place
  have atEnd (begins : AllPlaced o.reserveMtb o.mapMtb mtb)
      (placed : (prep.splitRelease mt mtb mte).splitPlace mtb mte o =
        ((prep.splitRelease mt mtb mte).placed mtb).splitPlaceEnd mtb mte o) :
      SplitRest prep mt mtb mte o := by
    rw [placed] at goesOn
    rcases splitPlaceEnd_cases ((prep.splitRelease mt mtb mte).placed mtb) mtb mte o with
      ⟨ends, result⟩ | ⟨t, reserved, isEnd, fails, noBegin, result⟩
    · exact .done begins ends (goesOn.trans result)
    · refine .lostEnd t isEnd begins fails reserved (fun isNone => ?_) (by rw [goesOn, result])
      rw [goesOn, noBegin isNone, isNone]
      rfl
  cases mtb with
  | none => exact atEnd (fun _ never => by cases never) rfl
  | some t =>
      rcases (prep.splitRelease mt (some t) mte).place_cases t o.reserveMtb o.mapMtb with
        ⟨succeeds, placed⟩ | ⟨fails, notReserved | notMapped⟩
      · refine atEnd (fun u same => ?_) ?_
        · cases same
          exact succeeds
        · unfold WinState.splitPlace
          dsimp only
          rw [placed]
      · refine .lostBegin t rfl fails false (goesOn.trans ?_)
        unfold WinState.splitPlace
        dsimp only
        rw [notReserved]
        rfl
      · refine .lostBegin t rfl fails true (goesOn.trans ?_)
        unfold WinState.splitPlace
        dsimp only
        rw [notMapped]
        rfl

/-- A cut that returns 0 has put everything that remains in place. -/
theorem mmapSplit_done (result : s.mmapSplit mt start stop o = (s', .done)) :
    ∃ prep mtb mte, Prepared s mt start stop prep mtb mte ∧
      s' = ((prep.splitRelease mt mtb mte).placed mtb).placed mte := by
  cases mmapSplit_start s mt start stop o with
  | refused same _ =>
      rw [result] at same
      cases same
  | harmed _ _ _ _ refused =>
      rw [result] at refused
      cases refused
  | prepared prep mtb mte prepared _ _ continues =>
      refine ⟨prep, mtb, mte, prepared, ?_⟩
      rw [continues] at result
      cases splitUnmap_rest prep mt mtb mte o with
      | notUnmapped _ _ refused =>
          rw [result] at refused
          cases refused
      | done _ _ done =>
          rw [result] at done
          exact congrArg Prod.fst done
      | lostBegin _ _ _ _ lost =>
          rw [result] at lost
          cases lost
      | lostEnd _ _ _ _ _ _ lost =>
          rw [result] at lost
          cases lost

/-- Every call and every `malloc` succeeds. -/
def SplitOutcome.Succeeds (o : SplitOutcome) : Prop :=
  o.mtbAlloc = true ∧ o.mteAlloc = true ∧ o.dupFile = true ∧ o.dupMapping = true ∧
    o.unmap = true ∧ o.reserveMtb = true ∧ o.mapMtb = true ∧ o.reserveMte = true ∧
    o.mapMte = true

/-- With every call succeeding, a cut returns 0. -/
theorem mmapSplit_succeeds (succeeds : o.Succeeds) : (s.mmapSplit mt start stop o).2 = .done := by
  obtain ⟨mtbAlloc, mteAlloc, dupFile, dupMapping, unmap, reserveMtb, mapMtb, reserveMte,
    mapMte⟩ := succeeds
  cases mmapSplit_start s mt start stop o with
  | refused _ noMemory =>
      rcases noMemory with ⟨_, fails⟩ | ⟨_, _, fails⟩
      · rw [mtbAlloc] at fails
        cases fails
      · rw [mteAlloc] at fails
        cases fails
  | harmed _ _ _ fails _ => exact absurd ⟨mteAlloc, dupFile, dupMapping⟩ fails
  | prepared prep mtb mte _ _ _ continues =>
      rw [continues]
      cases splitUnmap_rest prep mt mtb mte o with
      | notUnmapped _ fails _ =>
          rw [unmap] at fails
          cases fails
      | done _ _ done => rw [done]
      | lostBegin t _ fails _ _ => exact absurd ⟨fun _ => reserveMtb, fun _ => mapMtb⟩ fails
      | lostEnd t _ _ fails _ _ _ => exact absurd ⟨fun _ => reserveMte, fun _ => mapMte⟩ fails

end Windows
end Vmem
