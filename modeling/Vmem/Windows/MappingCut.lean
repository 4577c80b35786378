import Vmem.Windows.Holdings

/-!
# Pages and cuts

A page of a mapping has its place in the file, its access and its flags, and it may lie behind the
end of the file.  A cut takes the pages of its range out of the list and leaves the others as they
are.
-/

namespace Vmem
namespace Windows

variable {s s' : WinState} {t u mt : FileMappingTracker} {queue : List FileMappingTracker}
  {mmapAlign lo start stop x : Nat}

/-! ## Pages -/

/-- What is known of a page. -/
structure Page where
  offset : Nat
  access : FileMapAccess
  flags : Nat
  fileBacked : Bool
  deriving DecidableEq

/-- What a tracker says of an address. -/
def FileMappingTracker.page (t : FileMappingTracker) (x : Nat) : Page where
  offset := Word.add t.offset (x - t.baseAddress)
  access := t.access
  flags := t.flags
  fileBacked := x - t.baseAddress < t.fileLen

/-- What the list says of an address. -/
def pageAt (queue : List FileMappingTracker) (x : Nat) : Option Page :=
  (RangeQueue.holder FileMappingTracker.baseAddress FileMappingTracker.endAddress queue x).map
    fun t => t.page x

/-- An address lies in the range of a tracker. -/
def FileMappingTracker.Has (t : FileMappingTracker) (x : Nat) : Prop :=
  RangeQueue.Holds FileMappingTracker.baseAddress FileMappingTracker.endAddress t x

theorem Listed.pageAt_eq_some_iff (listed : Listed mmapAlign lo queue) {page : Page} :
    pageAt queue x = some page ↔ ∃ t ∈ queue, t.Has x ∧ t.page x = page := by
  unfold pageAt
  rw [Option.map_eq_some_iff]
  constructor
  · rintro ⟨t, found, rfl⟩
    obtain ⟨member, holds⟩ := listed.inOrder.holder_eq_some_iff.mp found
    exact ⟨t, member, holds, rfl⟩
  · rintro ⟨t, member, holds, rfl⟩
    exact ⟨t, listed.inOrder.holder_eq_some_iff.mpr ⟨member, holds⟩, rfl⟩

theorem pageAt_eq_none_iff : pageAt queue x = none ↔ ∀ t ∈ queue, ¬t.Has x := by
  unfold pageAt
  rw [Option.map_eq_none_iff, RangeQueue.holder_eq_none_iff]
  rfl

/-- The remainder at the beginning says what the old mapping said. -/
theorem splitBegin_page (isBegin : splitBegin mt start = some t) (holds : t.Has x) :
    t.page x = mt.page x := by
  obtain ⟨_, rfl⟩ := splitBegin_eq_some.mp isBegin
  obtain ⟨lower, upper⟩ := holds
  dsimp only at lower upper
  unfold FileMappingTracker.page
  dsimp only
  congr 1
  rw [decide_eq_decide]
  omega

/-- So does the remainder at the end. -/
theorem splitEnd_page {fh fmh : Option Nat} (begins : mt.baseAddress ≤ stop)
    (holds : (splitEnd mt stop fh fmh).Has x) :
    (splitEnd mt stop fh fmh).page x = mt.page x := by
  have lower : stop ≤ x := holds.1
  have backed := splitEnd_fileLen mt stop fh fmh
  unfold FileMappingTracker.page
  rw [backed]
  change Page.mk (Word.add (Word.add mt.offset (stop - mt.baseAddress)) (x - stop)) mt.access
    mt.flags (x - stop < mt.fileLen - (stop - mt.baseAddress)) = _
  rw [Word.add_add, show stop - mt.baseAddress + (x - stop) = x - mt.baseAddress by omega]
  congr 1
  rw [decide_eq_decide]
  omega

/-! ## Rounding -/

/-- `roundup` with `Mmap_align`, without bounds. -/
def roundUp (mmapAlign x : Nat) : Nat := Word.floor (x + (mmapAlign - 1)) mmapAlign

theorem le_roundUp (positive : 0 < mmapAlign) (x : Nat) : x ≤ roundUp mmapAlign x := by
  have := Word.lt_floor_add (x + (mmapAlign - 1)) positive
  unfold roundUp
  omega

theorem dvd_roundUp (mmapAlign x : Nat) : mmapAlign ∣ roundUp mmapAlign x := Word.dvd_floor _ _

theorem roundUp_le {bound : Nat} (positive : 0 < mmapAlign) (aligned : mmapAlign ∣ bound)
    (le : x ≤ bound) : roundUp mmapAlign x ≤ bound := by
  obtain ⟨count, rfl⟩ := aligned
  have below : (x + (mmapAlign - 1)) / mmapAlign < count + 1 := by
    rw [Nat.div_lt_iff_lt_mul positive, Nat.mul_comm, Nat.mul_add]
    omega
  unfold roundUp Word.floor
  rw [Nat.mul_comm]
  exact Nat.mul_le_mul_left mmapAlign (Nat.le_of_lt_succ below)

/-- An aligned word is followed by a whole unit. -/
theorem aligned_room {bound : Nat} (divides : mmapAlign ∣ Word.modulus)
    (aligned : mmapAlign ∣ bound) (fits : bound < Word.modulus) :
    bound + mmapAlign ≤ Word.modulus := by
  obtain ⟨total, total_eq⟩ := divides
  obtain ⟨count, rfl⟩ := aligned
  rw [total_eq] at fits ⊢
  have less : count < total := Nat.lt_of_mul_lt_mul_left fits
  exact Nat.mul_le_mul_left mmapAlign less

/-- Up to the end of a tracker, rounding does not wrap. -/
theorem Valid.ceil_eq (valid : Valid mmapAlign lo t) (divides : mmapAlign ∣ Word.modulus)
    (le : x ≤ t.endAddress) : Word.ceil x mmapAlign = roundUp mmapAlign x := by
  have positive : 0 < mmapAlign := Nat.pos_of_dvd_of_pos divides (by decide)
  have room := aligned_room divides valid.endAligned valid.fits
  unfold Word.ceil roundUp
  rw [Word.add_eq (by omega)]

/-! ## One cut -/

/-- What `mmap_split` leaves of a tracker. -/
def remainders (mt : FileMappingTracker) (start stop : Nat) (fh fmh : Option Nat) :
    List FileMappingTracker :=
  (if stop < mt.endAddress then [splitEnd mt stop fh fmh] else []) ++
    (splitBegin mt start).toList

/-- The remainders lie at the two ends of the old range. -/
theorem mem_remainders {fh fmh : Option Nat} : t ∈ remainders mt start stop fh fmh ↔
    splitBegin mt start = some t ∨ (stop < mt.endAddress ∧ t = splitEnd mt stop fh fmh) := by
  unfold remainders
  rw [List.mem_append, Option.mem_toList, or_comm]
  refine or_congr Iff.rfl ?_
  split
  · rename_i ends
    exact List.mem_singleton.trans ⟨fun same => ⟨ends, same⟩, And.right⟩
  · rename_i whole
    exact ⟨fun never => absurd never List.not_mem_nil, fun ends => absurd ends.1 whole⟩

/-- A tracker was cut. -/
structure Cut (mmapAlign lo : Nat) (s s' : WinState) (mt : FileMappingTracker) (start stop : Nat)
    (fh fmh : Option Nat) : Prop where
  holding : Holding mmapAlign lo s' []
  perm : s'.queue.Perm (remainders mt start stop fh fmh ++ s.queue.erase mt)
  file : stop < mt.endAddress → mt.fileHandle.isSome = true → fh.isSome = true

/-- Every mapping is a part of an earlier one, and has a file handle if that one had. -/
def FilesKept (queue queue' : List FileMappingTracker) : Prop :=
  ∀ t ∈ queue', ∃ u ∈ queue, u.baseAddress ≤ t.baseAddress ∧ t.endAddress ≤ u.endAddress ∧
    (u.fileHandle.isSome = true → t.fileHandle.isSome = true)

theorem FilesKept.refl (queue : List FileMappingTracker) : FilesKept queue queue :=
  fun t member => ⟨t, member, le_rfl, le_rfl, id⟩

theorem FilesKept.trans {first second third : List FileMappingTracker}
    (before : FilesKept first second) (after : FilesKept second third) :
    FilesKept first third := by
  intro t member
  obtain ⟨u, uMember, lower, upper, file⟩ := after t member
  obtain ⟨v, vMember, lower', upper', file'⟩ := before u uMember
  exact ⟨v, vMember, lower'.trans lower, upper.trans upper', fun has => file (file' has)⟩

/-- The range that is cut lies in that of the tracker. -/
structure CutRange (mmapAlign : Nat) (mt : FileMappingTracker) (start stop : Nat) : Prop where
  startAligned : mmapAlign ∣ start
  stopAligned : mmapAlign ∣ stop
  begins : mt.baseAddress ≤ start
  nonempty : start < stop
  ends : stop ≤ mt.endAddress

theorem Valid.splitBegin (valid : Valid mmapAlign lo mt) (range : CutRange mmapAlign mt start stop)
    (isBegin : splitBegin mt start = some t) : Valid mmapAlign lo t := by
  obtain ⟨_, rfl⟩ := splitBegin_eq_some.mp isBegin
  obtain ⟨baseAligned, _, lower, upper, fits⟩ := valid
  obtain ⟨startAligned, _, _, nonempty, ends⟩ := range
  refine ⟨baseAligned, startAligned, lower, ?_, ?_⟩
  · change start ≤ lo + 2 ^ 63
    omega
  · change start < Word.modulus
    omega

theorem Valid.splitEnd {fh fmh : Option Nat} (valid : Valid mmapAlign lo mt)
    (range : CutRange mmapAlign mt start stop) :
    Valid mmapAlign lo (splitEnd mt stop fh fmh) := by
  obtain ⟨_, endAligned, lower, upper, fits⟩ := valid
  obtain ⟨_, stopAligned, begins, nonempty, _⟩ := range
  refine ⟨stopAligned, endAligned, ?_, upper, fits⟩
  change lo ≤ stop
  omega

/-- What remains at the beginning is put in place; the others in the list lie apart. -/
theorem Holding.placedBegin {spare : List Nat}
    (holding : Holding mmapAlign lo s (mt.handles ++ spare))
    (valid : Valid mmapAlign lo mt) (range : CutRange mmapAlign mt start stop)
    (free : ∀ u ∈ s.queue, u.endAddress ≤ mt.baseAddress ∨ mt.endAddress ≤ u.baseAddress)
    (mapped : mt.fileMappingHandle.isSome = true) (isBegin : Windows.splitBegin mt start = some t) :
    Holding mmapAlign lo (s.placed (some t)) spare := by
  have tValid := valid.splitBegin range isBegin
  rw [← splitBegin_handles isBegin] at holding
  obtain ⟨leaves, rfl⟩ := splitBegin_eq_some.mp isBegin
  obtain ⟨_, _, _, nonempty, ends⟩ := range
  refine holding.placed tValid leaves (fun u member => ?_) mapped
  have := free u member
  dsimp only
  omega

/-- What remains at the end is put in place, with the mapping at the beginning in the list. -/
theorem Holding.placedEnd {spare : List Nat} {fh fmh : Option Nat}
    (holding : Holding mmapAlign lo s ((splitEnd mt stop fh fmh).handles ++ spare))
    (valid : Valid mmapAlign lo mt) (range : CutRange mmapAlign mt start stop)
    (free : ∀ u ∈ s.queue, u.endAddress ≤ stop ∨ mt.endAddress ≤ u.baseAddress)
    (mapped : fmh.isSome = true) (leaves : stop < mt.endAddress) :
    Holding mmapAlign lo (s.placed (some (splitEnd mt stop fh fmh))) spare :=
  holding.placed (valid.splitEnd range) leaves free mapped

/-- `mmap_split` that returns 0. -/
theorem mmapSplit_cut {o : SplitOutcome} (holding : Holding mmapAlign lo s [])
    (member : mt ∈ s.queue) (range : CutRange mmapAlign mt start stop)
    (result : s.mmapSplit mt start stop o = (s', .done)) :
    ∃ fh fmh, Cut mmapAlign lo s s' mt start stop fh fmh := by
  obtain ⟨prep, mtb, mte, prepared, rfl⟩ := mmapSplit_done result
  have valid := holding.listed.valid mt member
  have mapped := holding.mapped mt member
  have others : ∀ u ∈ s.queue.erase mt,
      u.endAddress ≤ mt.baseAddress ∨ mt.endAddress ≤ u.baseAddress :=
    fun u inRest => holding.listed.others member inRest
  have queues : (((prep.splitRelease mt mtb mte).placed mtb).placed mte).queue =
      insertSome mte (insertSome mtb (prep.queue.erase mt)) := by
    rw [placed_queue, placed_queue, splitRelease_queue]
  have perm : (insertSome mte (insertSome mtb (prep.queue.erase mt))).Perm
      (mte.toList ++ mtb.toList ++ prep.queue.erase mt) := by
    rw [List.append_assoc]
    exact (insertSome_perm _ _).trans ((insertSome_perm _ _).append_left _)
  cases prepared with
  | noEnd whole =>
      refine ⟨none, none, ?_, ?_, fun ends _ => absurd whole (by omega)⟩
      · cases begin_eq : splitBegin mt start with
        | none => exact holding.splitRelease_none member
        | some t =>
            have released := holding.splitRelease_some member (some t) none
              fun never => Bool.noConfusion never.1
            refine released.placedBegin valid range ?_ mapped begin_eq
            rw [splitRelease_queue]
            exact others
      · rw [queues]
        unfold remainders
        rw [if_neg (by omega)]
        exact perm
  | onlyEnd starts ends =>
      have none_eq : splitBegin mt start = none :=
        Option.isNone_iff_eq_none.mp (splitBegin_isNone.mpr starts)
      refine ⟨mt.fileHandle, mt.fileMappingHandle, ?_, ?_, fun _ has => has⟩
      · have released := holding.splitRelease_some member none
          (some (splitEnd mt stop mt.fileHandle mt.fileMappingHandle))
          fun never => Bool.noConfusion never.2
        refine Holding.placedEnd released valid range ?_ mapped ends
        change ∀ u ∈ (s.splitRelease mt none _).queue, _
        rw [splitRelease_queue]
        intro u inRest
        have := others u inRest
        have := range.begins
        have := range.nonempty
        omega
      · rw [queues]
        unfold remainders
        rw [if_pos ends, none_eq]
        exact perm
  | both starts ends =>
      refine ⟨some s.nextHandle, some (s.nextHandle + 1), ?_, ?_, fun _ _ => rfl⟩
      · obtain ⟨t, begin_eq⟩ : ∃ t, splitBegin mt start = some t :=
          ⟨_, splitBegin_eq_some.mpr ⟨starts, rfl⟩⟩
        rw [begin_eq]
        have opened := holding.openHandle.openHandle
        have released := opened.splitRelease_some member (some t)
          (some (splitEnd mt stop (some s.nextHandle) (some (s.nextHandle + 1))))
          fun never => Bool.noConfusion never.1
        have first : Holding mmapAlign lo _
            ((splitEnd mt stop (some s.nextHandle) (some (s.nextHandle + 1))).handles ++ []) :=
          released.placedBegin valid range (by
            rw [splitRelease_queue]
            exact others) mapped begin_eq
        refine Holding.placedEnd first valid range ?_ rfl ends
        rw [placed_queue, splitRelease_queue]
        intro u inserted
        rcases mem_insertSome.mp inserted with isBegin | inRest
        · cases isBegin
          obtain ⟨_, rfl⟩ := splitBegin_eq_some.mp begin_eq
          exact Or.inl range.nonempty.le
        · have := others u inRest
          have := range.begins
          have := range.nonempty
          omega
      · rw [queues]
        unfold remainders
        rw [if_pos ends]
        exact perm

/-- A remainder has addresses of the old mapping outside of the cut, and says the same of them. -/
theorem remainders_has {fh fmh : Option Nat} (range : CutRange mmapAlign mt start stop)
    (piece : t ∈ remainders mt start stop fh fmh) (holds : t.Has x) :
    mt.Has x ∧ ¬(start ≤ x ∧ x < stop) ∧ t.page x = mt.page x := by
  obtain ⟨_, _, begins, nonempty, ends⟩ := range
  rcases mem_remainders.mp piece with isBegin | ⟨leaves, rfl⟩
  · have same := splitBegin_page isBegin holds
    obtain ⟨_, rfl⟩ := splitBegin_eq_some.mp isBegin
    have lower : mt.baseAddress ≤ x := holds.1
    have upper : x < start := holds.2
    exact ⟨⟨lower, by omega⟩, by omega, same⟩
  · have same := splitEnd_page (by omega) holds
    have lower : stop ≤ x := holds.1
    have upper : x < mt.endAddress := holds.2
    exact ⟨⟨by omega, upper⟩, by omega, same⟩

/-- Every address of the old mapping outside of the cut has a remainder. -/
theorem exists_remainder (fh fmh : Option Nat) (holds : mt.Has x)
    (outside : ¬(start ≤ x ∧ x < stop)) :
    ∃ t ∈ remainders mt start stop fh fmh, t.Has x := by
  obtain ⟨lower, upper⟩ := holds
  by_cases before : x < start
  · refine ⟨_, mem_remainders.mpr (Or.inl (splitBegin_eq_some.mpr ⟨by omega, rfl⟩)), ?_⟩
    exact ⟨lower, before⟩
  · refine ⟨_, mem_remainders.mpr (Or.inr ⟨by omega, rfl⟩), ?_⟩
    exact ⟨show stop ≤ x by omega, upper⟩

namespace Cut

variable {fh fmh : Option Nat} (cut : Cut mmapAlign lo s s' mt start stop fh fmh)

include cut

theorem members (listed : Listed mmapAlign lo s.queue) (u : FileMappingTracker) :
    u ∈ s'.queue ↔ (u ∈ s.queue ∧ u ≠ mt) ∨ u ∈ remainders mt start stop fh fmh := by
  rw [cut.perm.mem_iff, List.mem_append, listed.inOrder.nodup.mem_erase_iff, or_comm, and_comm]

/-- What remains of a mapping of a file is one. -/
theorem filesKept (listed : Listed mmapAlign lo s.queue) (member : mt ∈ s.queue)
    (range : CutRange mmapAlign mt start stop) : FilesKept s.queue s'.queue := by
  intro t inQueue
  rcases (cut.members listed t).mp inQueue with ⟨tMember, _⟩ | piece
  · exact ⟨t, tMember, le_rfl, le_rfl, id⟩
  obtain ⟨_, _, begins, nonempty, ends⟩ := range
  refine ⟨mt, member, ?_⟩
  rcases mem_remainders.mp piece with isBegin | ⟨leaves, rfl⟩
  · obtain ⟨_, rfl⟩ := splitBegin_eq_some.mp isBegin
    exact ⟨le_rfl, nonempty.le.trans ends, id⟩
  · exact ⟨begins.trans nonempty.le, le_rfl, cut.file leaves⟩

/-- A cut removes the pages of its range. -/
theorem pageAt_eq (listed : Listed mmapAlign lo s.queue) (member : mt ∈ s.queue)
    (range : CutRange mmapAlign mt start stop) (x : Nat) :
    pageAt s'.queue x = if start ≤ x ∧ x < stop then none else pageAt s.queue x := by
  have members := cut.members listed
  by_cases holds : mt.Has x
  · split
    · rename_i inside
      refine pageAt_eq_none_iff.mpr fun t inQueue tHolds => ?_
      rcases (members t).mp inQueue with ⟨tMember, different⟩ | piece
      · exact different (listed.inOrder.eq_of_holds tMember member tHolds holds)
      · exact (remainders_has range piece tHolds).2.1 inside
    · rename_i outside
      obtain ⟨t, piece, tHolds⟩ := exists_remainder fh fmh holds outside
      have before : pageAt s.queue x = some (mt.page x) :=
        listed.pageAt_eq_some_iff.mpr ⟨mt, member, holds, rfl⟩
      rw [before]
      exact cut.holding.listed.pageAt_eq_some_iff.mpr ⟨t, (members t).mpr (Or.inr piece), tHolds,
        (remainders_has range piece tHolds).2.2⟩
  · have begins := range.begins
    have ends := range.ends
    have outside : ¬(start ≤ x ∧ x < stop) := fun inside => holds ⟨by omega, by omega⟩
    rw [if_neg outside]
    have same := RangeQueue.holder_replaced listed.inOrder cut.holding.listed.inOrder members
      (fun u piece uHolds => (remainders_has range piece uHolds).1) holds
    unfold pageAt
    rw [same]

end Cut

end Windows
end Vmem
