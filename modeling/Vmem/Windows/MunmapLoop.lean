import Vmem.Windows.MappingCut

/-!
# The loop of `munmap`

The loop walks the list while its cuts change it.  What is still to be unmapped begins at the
current tracker, and the length that is left is enough for it.
-/

namespace Vmem
namespace Windows

variable {s s' : WinState} {t u mt : FileMappingTracker} {queue queue' : List FileMappingTracker}
  {mmapAlign lo start stop len fuel x : Nat} {cur : Option FileMappingTracker}
  {outcomes : Nat → SplitOutcome}

/-! ## The loop -/

/-- A tracker has a part in `[start, stop)`. -/
def Overlaps (start stop : Nat) (t : FileMappingTracker) : Prop :=
  start < t.endAddress ∧ t.baseAddress < stop

/-- The next tracker is in the list, and begins behind. -/
theorem following_mem {next : FileMappingTracker} (listed : Listed mmapAlign lo queue)
    (found : following mt queue = some next) :
    next ∈ queue ∧ mt.endAddress ≤ next.baseAddress := by
  induction queue with
  | nil => cases found
  | cons first rest inductionHypothesis =>
      have tail : Listed mmapAlign lo rest :=
        ⟨listed.inOrder.tail, fun u member => listed.valid u (List.mem_cons_of_mem first member)⟩
      unfold following at found
      split at found
      · rename_i same
        subst same
        have member : next ∈ rest := List.mem_of_head? found
        exact ⟨List.mem_cons_of_mem first member, listed.inOrder.head_le member⟩
      · obtain ⟨member, behind⟩ := inductionHypothesis tail found
        exact ⟨List.mem_cons_of_mem first member, behind⟩

/-- No tracker stands between one and the next. -/
theorem following_least (listed : Listed mmapAlign lo queue) (member : mt ∈ queue)
    (uMember : u ∈ queue) : u.baseAddress ≤ mt.baseAddress ∨
      ∃ next, following mt queue = some next ∧ next.baseAddress ≤ u.baseAddress := by
  induction queue with
  | nil => exact absurd member List.not_mem_nil
  | cons first rest inductionHypothesis =>
      have tail : Listed mmapAlign lo rest :=
        ⟨listed.inOrder.tail, fun u member => listed.valid u (List.mem_cons_of_mem first member)⟩
      have firstLong := listed.inOrder.nonempty first List.mem_cons_self
      unfold following
      split
      · rename_i same
        subst same
        rcases List.mem_cons.mp uMember with rfl | inRest
        · exact Or.inl (Nat.le_refl _)
        · cases rest with
          | nil => exact absurd inRest List.not_mem_nil
          | cons second others =>
              refine Or.inr ⟨second, rfl, ?_⟩
              rcases List.mem_cons.mp inRest with rfl | behind
              · exact Nat.le_refl _
              · have := tail.inOrder.head_le behind
                have := tail.inOrder.nonempty second List.mem_cons_self
                omega
      · rename_i different
        have mtRest : mt ∈ rest := by
          rcases List.mem_cons.mp member with same | inRest
          · exact absurd same.symm different
          · exact inRest
        rcases List.mem_cons.mp uMember with rfl | inRest
        · have := listed.inOrder.head_le mtRest
          exact Or.inl (by omega)
        · exact inductionHypothesis tail mtRest inRest

/-- What is still to be unmapped begins at the current tracker, and `len` is enough for it. -/
structure Walking (start stop : Nat) (queue : List FileMappingTracker)
    (cur : Option FileMappingTracker) (len : Nat) : Prop where
  current : ∀ mt, cur = some mt → mt ∈ queue
  later : ∀ u ∈ queue, Overlaps start stop u →
    ∃ mt, cur = some mt ∧ mt.baseAddress ≤ u.baseAddress
  enough : ∀ mt, cur = some mt → stop - max start mt.baseAddress ≤ len

/-- At the first tracker the loop has everything before it. -/
theorem Walking.head (listed : Listed mmapAlign lo queue) :
    Walking start stop queue queue.head? (stop - start) where
  current := fun mt first => List.mem_of_head? first
  later := by
    intro u member _
    cases queue with
    | nil => exact absurd member List.not_mem_nil
    | cons first rest =>
        refine ⟨first, rfl, ?_⟩
        rcases List.mem_cons.mp member with rfl | inRest
        · exact Nat.le_refl _
        · have := listed.inOrder.head_le inRest
          have := listed.inOrder.nonempty first List.mem_cons_self
          omega
  enough := fun mt _ => by omega

/-- A tracker is replaced by pieces outside of the range; the loop goes on behind it. -/
theorem Walking.advance {pieces : List FileMappingTracker} {less : Nat}
    (walking : Walking start stop queue (some mt) len) (listed : Listed mmapAlign lo queue)
    (members : ∀ u, u ∈ queue' ↔ (u ∈ queue ∧ u ≠ mt) ∨ u ∈ pieces)
    (clear : ∀ u ∈ pieces, ¬Overlaps start stop u)
    (enough : ∀ next : FileMappingTracker, mt.endAddress ≤ next.baseAddress →
      stop - max start next.baseAddress ≤ less) :
    Walking start stop queue' (following mt queue) less where
  current := by
    intro next found
    obtain ⟨member, behind⟩ := following_mem listed found
    have long := listed.inOrder.nonempty mt (walking.current mt rfl)
    refine (members next).mpr (Or.inl ⟨member, fun same => ?_⟩)
    rw [same] at behind
    omega
  later := by
    intro u inQueue overlaps
    rcases (members u).mp inQueue with ⟨member, different⟩ | piece
    · obtain ⟨_, same, le⟩ := walking.later u member overlaps
      cases same
      have mtMember := walking.current mt rfl
      have mtLong := listed.inOrder.nonempty mt mtMember
      have uLong := listed.inOrder.nonempty u member
      have behind := listed.inOrder.apart member mtMember different
      rcases following_least listed mtMember member with before | next
      · omega
      · exact next
    · exact absurd overlaps (clear u piece)
  enough := fun next found => enough next (following_mem listed found).2

/-- A tracker before the range is skipped. -/
theorem Walking.skip (walking : Walking start stop queue (some mt) len)
    (listed : Listed mmapAlign lo queue) (ahead : mt.endAddress ≤ start) :
    Walking start stop queue (following mt queue) len := by
  have member := walking.current mt rfl
  have enough := walking.enough mt rfl
  have long := listed.inOrder.nonempty mt member
  have members : ∀ u, u ∈ queue ↔ (u ∈ queue ∧ u ≠ mt) ∨ u ∈ [mt] := by
    intro u
    rw [List.mem_singleton]
    constructor
    · intro uMember
      by_cases same : u = mt
      · exact Or.inr same
      · exact Or.inl ⟨uMember, same⟩
    · rintro (⟨uMember, _⟩ | rfl)
      · exact uMember
      · exact member
  refine walking.advance listed members ?_ fun next behind => by omega
  intro u only overlaps
  cases List.mem_singleton.mp only
  have := overlaps.1
  omega

/-- Where the loop cuts a tracker: `begin2` and `end2`. -/
def cutStart (start : Nat) (mt : FileMappingTracker) : Nat :=
  if start > mt.baseAddress then start else mt.baseAddress

def cutStop (stop : Nat) (mt : FileMappingTracker) : Nat :=
  if stop < mt.endAddress then stop else mt.endAddress

theorem cutStart_eq (start : Nat) (mt : FileMappingTracker) :
    cutStart start mt = max start mt.baseAddress := by
  unfold cutStart
  split <;> omega

theorem cutStop_eq (stop : Nat) (mt : FileMappingTracker) :
    cutStop stop mt = min stop mt.endAddress := by
  unfold cutStop
  split <;> omega

/-- One round of the loop. -/
inductive LoopRound (mmapAlign start stop : Nat) (outcomes : Nat → SplitOutcome) (fuel : Nat)
    (s : WinState) (mt : FileMappingTracker) (len : Nat) : Prop
  | beyond (behind : stop ≤ mt.baseAddress)
      (result : munmapLoop mmapAlign start stop outcomes (fuel + 1) s (some mt) len =
        some (s, some len))
  | before (ahead : mt.endAddress ≤ start)
      (result : munmapLoop mmapAlign start stop outcomes (fuel + 1) s (some mt) len =
        munmapLoop mmapAlign start stop outcomes fuel s (following mt s.queue) len)
  | failed (overlaps : Overlaps start stop mt) (s' : WinState) (how : SplitEnd)
      (split : s.mmapSplit mt (cutStart start mt) (Word.ceil (cutStop stop mt) mmapAlign)
        (outcomes fuel) = (s', how))
      (fails : how ≠ .done)
      (result : munmapLoop mmapAlign start stop outcomes (fuel + 1) s (some mt) len =
        some (s', none))
  | last (overlaps : Overlaps start stop mt) (s' : WinState)
      (split : s.mmapSplit mt (cutStart start mt) (Word.ceil (cutStop stop mt) mmapAlign)
        (outcomes fuel) = (s', .done))
      (enough : len ≤ cutStop stop mt - cutStart start mt)
      (result : munmapLoop mmapAlign start stop outcomes (fuel + 1) s (some mt) len =
        some (s', some 0))
  | more (overlaps : Overlaps start stop mt) (s' : WinState)
      (split : s.mmapSplit mt (cutStart start mt) (Word.ceil (cutStop stop mt) mmapAlign)
        (outcomes fuel) = (s', .done))
      (rest : cutStop stop mt - cutStart start mt < len)
      (result : munmapLoop mmapAlign start stop outcomes (fuel + 1) s (some mt) len =
        munmapLoop mmapAlign start stop outcomes fuel s' (following mt s.queue)
          (len - (cutStop stop mt - cutStart start mt)))

theorem munmapLoop_round (mmapAlign start stop : Nat) (outcomes : Nat → SplitOutcome) (fuel : Nat)
    (s : WinState) (mt : FileMappingTracker) (len : Nat) :
    LoopRound mmapAlign start stop outcomes fuel s mt len := by
  by_cases behind : mt.baseAddress ≥ stop
  · refine .beyond behind ?_
    rw [munmapLoop, if_pos behind]
  by_cases ahead : mt.endAddress ≤ start
  · refine .before ahead ?_
    rw [munmapLoop, if_neg behind, if_pos ahead]
  have overlaps : Overlaps start stop mt := ⟨by omega, by omega⟩
  cases split : s.mmapSplit mt (cutStart start mt) (Word.ceil (cutStop stop mt) mmapAlign)
      (outcomes fuel) with
  | mk s' how =>
      have split' := split
      unfold cutStart cutStop at split'
      cases how with
      | refused =>
          refine .failed overlaps s' _ split (fun never => by cases never) ?_
          rw [munmapLoop, if_neg behind, if_neg ahead]
          dsimp only
          rw [split']
      | lost =>
          refine .failed overlaps s' _ split (fun never => by cases never) ?_
          rw [munmapLoop, if_neg behind, if_neg ahead]
          dsimp only
          rw [split']
      | done =>
          by_cases rest : len > cutStop stop mt - cutStart start mt
          · refine .more overlaps s' split rest ?_
            rw [munmapLoop, if_neg behind, if_neg ahead]
            dsimp only
            rw [split']
            exact if_pos rest
          · refine .last overlaps s' split (by omega) ?_
            rw [munmapLoop, if_neg behind, if_neg ahead]
            dsimp only
            rw [split']
            exact if_neg rest

/-- The end of a cut, rounded up: where the range ends or where the tracker ends. -/
theorem Valid.stop_eq (valid : Valid mmapAlign lo mt) (divides : mmapAlign ∣ Word.modulus) :
    Word.ceil (cutStop stop mt) mmapAlign = min (roundUp mmapAlign stop) mt.endAddress := by
  have positive : 0 < mmapAlign := Nat.pos_of_dvd_of_pos divides (by decide)
  unfold cutStop
  split
  · rename_i inside
    rw [valid.ceil_eq divides inside.le]
    have := roundUp_le positive valid.endAligned inside.le
    omega
  · rename_i beyond
    rw [valid.ceil_eq divides le_rfl]
    have whole := roundUp_le positive valid.endAligned le_rfl
    have := le_roundUp positive mt.endAddress
    have := le_roundUp positive stop
    omega

/-- The cuts of the loop lie in their trackers. -/
theorem Valid.cutRange (valid : Valid mmapAlign lo mt) (divides : mmapAlign ∣ Word.modulus)
    (aligned : mmapAlign ∣ start) (range : start < stop)
    (nonempty : mt.baseAddress < mt.endAddress) (overlaps : Overlaps start stop mt) :
    CutRange mmapAlign mt (cutStart start mt) (Word.ceil (cutStop stop mt) mmapAlign) := by
  have positive : 0 < mmapAlign := Nat.pos_of_dvd_of_pos divides (by decide)
  obtain ⟨begins, ends⟩ := overlaps
  have := le_roundUp positive stop
  rw [valid.stop_eq divides]
  unfold cutStart
  refine ⟨?_, ?_, ?_, ?_, by omega⟩
  · split
    · exact aligned
    · exact valid.baseAligned
  · rcases Nat.le_total (roundUp mmapAlign stop) mt.endAddress with le | le
    · rw [Nat.min_eq_left le]
      exact dvd_roundUp _ _
    · rw [Nat.min_eq_right le]
      exact valid.endAligned
  · split <;> omega
  · split <;> omega

/-- The pages of a range are taken out of the list. -/
structure Removed (mmapAlign lo start stop : Nat) (s s' : WinState) : Prop where
  holding : Holding mmapAlign lo s' []
  pages : ∀ x, pageAt s'.queue x =
    if start ≤ x ∧ x < roundUp mmapAlign stop then none else pageAt s.queue x
  files : FilesKept s.queue s'.queue

/-- Where no tracker overlaps the range, there are no pages in it. -/
theorem Removed.nothing (positive : 0 < mmapAlign) (holding : Holding mmapAlign lo s [])
    (clear : ∀ u ∈ s.queue, ¬Overlaps start stop u) : Removed mmapAlign lo start stop s s := by
  refine ⟨holding, fun x => ?_, FilesKept.refl _⟩
  split
  · rename_i inside
    refine pageAt_eq_none_iff.mpr fun t member holds => clear t member ⟨?_, ?_⟩
    · exact lt_of_le_of_lt inside.1 holds.2
    · by_contra beyond
      have := roundUp_le positive (holding.listed.valid t member).baseAligned
        (Nat.le_of_not_lt beyond)
      have : t.baseAddress ≤ x := holds.1
      omega
  · rfl

/-- After a cut the loop has the rest before it. -/
theorem Walking.cut {fh fmh : Option Nat} (walking : Walking start stop s.queue (some mt) len)
    (holding : Holding mmapAlign lo s []) (divides : mmapAlign ∣ Word.modulus)
    (cut : Cut mmapAlign lo s s' mt (cutStart start mt) (Word.ceil (cutStop stop mt) mmapAlign)
      fh fmh)
    (range : CutRange mmapAlign mt (cutStart start mt)
      (Word.ceil (cutStop stop mt) mmapAlign)) :
    Walking start stop s'.queue (following mt s.queue)
      (len - (cutStop stop mt - cutStart start mt)) := by
  have positive : 0 < mmapAlign := Nat.pos_of_dvd_of_pos divides (by decide)
  have valid := holding.listed.valid mt (walking.current mt rfl)
  have stop_eq : Word.ceil (cutStop stop mt) mmapAlign =
      min (roundUp mmapAlign stop) mt.endAddress :=
    valid.stop_eq divides
  have whole := le_roundUp positive stop
  have enough := walking.enough mt rfl
  refine walking.advance holding.listed (cut.members holding.listed) ?_ fun next behind => ?_
  · intro u piece overlaps
    rcases mem_remainders.mp piece with isBegin | ⟨leaves, rfl⟩
    · obtain ⟨leaves, rfl⟩ := splitBegin_eq_some.mp isBegin
      have ends : start < cutStart start mt := overlaps.1
      rw [cutStart_eq] at ends leaves
      omega
    · have begins : Word.ceil (cutStop stop mt) mmapAlign < stop := overlaps.2
      omega
  · have inside := range.nonempty
    rw [stop_eq, cutStart_eq] at inside
    rw [cutStop_eq, cutStart_eq]
    omega

/-- When no cut fails, the loop removes the pages of the range. -/
theorem munmapLoop_removes {left : Nat} (divides : mmapAlign ∣ Word.modulus)
    (aligned : mmapAlign ∣ start) (range : start < stop) (holding : Holding mmapAlign lo s [])
    (walking : Walking start stop s.queue cur len)
    (result : munmapLoop mmapAlign start stop outcomes fuel s cur len = some (s', some left)) :
    Removed mmapAlign lo start stop s s' ∧ left ≤ len := by
  have positive : 0 < mmapAlign := Nat.pos_of_dvd_of_pos divides (by decide)
  induction fuel generalizing s cur len with
  | zero => cases result
  | succ fuel inductionHypothesis =>
      cases cur with
      | none =>
          cases result
          refine ⟨Removed.nothing positive holding fun u member overlaps => ?_, le_rfl⟩
          obtain ⟨_, never, _⟩ := walking.later u member overlaps
          cases never
      | some mt =>
          have member := walking.current mt rfl
          have valid := holding.listed.valid mt member
          have long := holding.listed.inOrder.nonempty mt member
          -- a cut removes the part of the range that lies in the tracker
          have cutOff {after : WinState} (overlaps : Overlaps start stop mt)
              (split : s.mmapSplit mt (cutStart start mt)
                (Word.ceil (cutStop stop mt) mmapAlign) (outcomes fuel) = (after, .done)) :
              Walking start stop after.queue (following mt s.queue)
                  (len - (cutStop stop mt - cutStart start mt)) ∧
                Holding mmapAlign lo after [] ∧
                ∀ s'', Removed mmapAlign lo start stop after s'' →
                  Removed mmapAlign lo start stop s s'' := by
            have cutRange := valid.cutRange divides aligned range long overlaps
            obtain ⟨fh, fmh, cut⟩ := mmapSplit_cut holding member cutRange split
            refine ⟨walking.cut holding divides cut cutRange, cut.holding, ?_⟩
            rintro s'' ⟨holding'', pages, files⟩
            refine ⟨holding'', fun x => ?_,
              (cut.filesKept holding.listed member cutRange).trans files⟩
            rw [pages x, cut.pageAt_eq holding.listed member cutRange x, valid.stop_eq divides,
              cutStart_eq]
            split
            · rfl
            · rw [if_neg]
              omega
          cases munmapLoop_round mmapAlign start stop outcomes fuel s mt len with
          | beyond behind returned =>
              rw [result] at returned
              cases returned
              refine ⟨Removed.nothing positive holding fun u uMember overlaps => ?_, le_rfl⟩
              obtain ⟨_, same, le⟩ := walking.later u uMember overlaps
              cases same
              have := overlaps.2
              omega
          | before ahead returned =>
              rw [result] at returned
              refine inductionHypothesis holding ?_ returned.symm
              refine walking.skip holding.listed ahead
          | failed _ after how _ _ returned =>
              rw [result] at returned
              cases returned
          | last overlaps after split enough returned =>
              rw [result] at returned
              cases returned
              obtain ⟨walking', holding', removes⟩ := cutOff overlaps split
              refine ⟨removes _ (Removed.nothing positive holding' fun u uMember beyond => ?_),
                Nat.zero_le _⟩
              obtain ⟨next, found, le⟩ := walking'.later u uMember beyond
              have := (following_mem holding.listed found).2
              have := walking.enough mt rfl
              have := beyond.2
              have := overlaps.1
              rw [cutStop_eq, cutStart_eq] at enough
              omega
          | more overlaps after split rest returned =>
              rw [result] at returned
              obtain ⟨walking', holding', removes⟩ := cutOff overlaps split
              obtain ⟨removed, le⟩ := inductionHypothesis holding' walking' returned.symm
              exact ⟨removes _ removed, by omega⟩

/-! ## Termination -/

/-- The number of trackers from the current one on. -/
def ahead (cur : Option FileMappingTracker) (queue : List FileMappingTracker) : Nat :=
  match cur with
  | none => 0
  | some mt => queue.countP fun u => mt.baseAddress ≤ u.baseAddress

/-- Behind a tracker there are fewer, and its pieces are not among them. -/
theorem ahead_lt (pieces : List FileMappingTracker) (listed : Listed mmapAlign lo queue)
    (member : mt ∈ queue) (perm : queue'.Perm (pieces ++ queue.erase mt))
    (before : ∀ next : FileMappingTracker, mt.endAddress ≤ next.baseAddress →
      ∀ u ∈ pieces, u.baseAddress < next.baseAddress) :
    ahead (following mt queue) queue' < ahead (some mt) queue := by
  have counted : ahead (some mt) queue =
      (queue.erase mt).countP (fun u => mt.baseAddress ≤ u.baseAddress) + 1 := by
    unfold ahead
    dsimp only
    rw [(List.perm_cons_erase member).countP_eq, List.countP_cons_of_pos]
    exact decide_eq_true le_rfl
  rw [counted]
  cases found : following mt queue with
  | none => exact Nat.succ_pos _
  | some next =>
      obtain ⟨_, behind⟩ := following_mem listed found
      have long := listed.inOrder.nonempty mt member
      unfold ahead
      dsimp only
      rw [perm.countP_eq, List.countP_append, List.countP_eq_zero.mpr, Nat.zero_add]
      · refine Nat.lt_succ_of_le (List.countP_mono_left fun u _ later => ?_)
        rw [decide_eq_true_eq] at later ⊢
        omega
      · intro u piece later
        rw [decide_eq_true_eq] at later
        have := before next behind u piece
        omega

/-- The loop ends after a round for each tracker. -/
theorem munmapLoop_terminates (divides : mmapAlign ∣ Word.modulus) (aligned : mmapAlign ∣ start)
    (range : start < stop) (holding : Holding mmapAlign lo s [])
    (current : ∀ mt, cur = some mt → mt ∈ s.queue) (enough : ahead cur s.queue < fuel) :
    ∃ result, munmapLoop mmapAlign start stop outcomes fuel s cur len = some result := by
  induction fuel generalizing s cur len with
  | zero => exact absurd enough (Nat.not_lt_zero _)
  | succ fuel inductionHypothesis =>
      cases cur with
      | none => exact ⟨_, rfl⟩
      | some mt =>
          have member := current mt rfl
          have listed := holding.listed
          have long := listed.inOrder.nonempty mt member
          cases munmapLoop_round mmapAlign start stop outcomes fuel s mt len with
          | beyond _ returned => exact ⟨_, returned⟩
          | failed _ _ _ _ _ returned => exact ⟨_, returned⟩
          | last _ _ _ _ returned => exact ⟨_, returned⟩
          | before _ returned =>
              rw [returned]
              have fewer := ahead_lt [mt] listed member (List.perm_cons_erase member)
                fun next behind u only => by
                  cases List.mem_singleton.mp only
                  omega
              exact inductionHypothesis holding (fun next found => (following_mem listed found).1)
                (by omega)
          | more overlaps after split _ returned =>
              rw [returned]
              have cutRange := (listed.valid mt member).cutRange divides aligned range long overlaps
              obtain ⟨fh, fmh, cut⟩ := mmapSplit_cut holding member cutRange split
              have fewer := ahead_lt _ listed member cut.perm fun next behind u piece => by
                have := cutRange.ends
                rcases mem_remainders.mp piece with isBegin | ⟨leaves, rfl⟩
                · obtain ⟨_, rfl⟩ := splitBegin_eq_some.mp isBegin
                  dsimp only
                  omega
                · change Word.ceil (cutStop stop mt) mmapAlign < next.baseAddress
                  omega
              refine inductionHypothesis cut.holding (fun next found => ?_) (by omega)
              obtain ⟨nextMember, behind⟩ := following_mem listed found
              refine (cut.members listed next).mpr (Or.inl ⟨nextMember, fun same => ?_⟩)
              rw [same] at behind
              omega

/-- With every call succeeding, no cut fails. -/
theorem munmapLoop_succeeds (succeeds : ∀ n, (outcomes n).Succeeds) {left : Option Nat}
    (result : munmapLoop mmapAlign start stop outcomes fuel s cur len = some (s', left)) :
    left.isSome = true := by
  induction fuel generalizing s cur len with
  | zero => cases result
  | succ fuel inductionHypothesis =>
      cases cur with
      | none =>
          cases result
          rfl
      | some mt =>
          cases munmapLoop_round mmapAlign start stop outcomes fuel s mt len with
          | beyond _ returned =>
              rw [result] at returned
              cases returned
              rfl
          | before _ returned => exact inductionHypothesis (returned.symm.trans result)
          | failed _ after how split fails _ =>
              have done : (s.mmapSplit mt (cutStart start mt)
                  (Word.ceil (cutStop stop mt) mmapAlign) (outcomes fuel)).2 = .done :=
                mmapSplit_succeeds (succeeds fuel)
              rw [split] at done
              exact absurd done fails
          | last _ _ _ _ returned =>
              rw [result] at returned
              cases returned
              rfl
          | more _ _ _ _ returned => exact inductionHypothesis (returned.symm.trans result)

end Windows
end Vmem
