import Vmem.Windows.MunmapExact
import Vmem.Windows.SplitFailures

/-!
# Calls of `munmap` in which cuts fail

As long as the failures in its cuts are harmless, `munmap` keeps the list sound.
-/

namespace Vmem
namespace Windows

variable {s s' s₁ : WinState} {t mt mt₁ : FileMappingTracker} {o : SplitOutcome}
  {mmapAlign start stop addr len fuel : Nat} {cur : Option FileMappingTracker}
  {outcomes : Nat → SplitOutcome}

/-- The loop of `munmap` comes to call `mmap_split` on `mt₁` in the state `s₁`. -/
inductive LoopCuts (mmapAlign start stop : Nat) (outcomes : Nat → SplitOutcome) (s₁ : WinState)
    (mt₁ : FileMappingTracker) (o : SplitOutcome) :
    Nat → WinState → Option FileMappingTracker → Nat → Prop
  | here (fuel len : Nat) (overlaps : Overlaps start stop mt₁) (outcome : outcomes fuel = o) :
      LoopCuts mmapAlign start stop outcomes s₁ mt₁ o (fuel + 1) s₁ (some mt₁) len
  | skip {fuel len : Nat} {s : WinState} {mt : FileMappingTracker}
      (ahead : mt.endAddress ≤ start)
      (rest : LoopCuts mmapAlign start stop outcomes s₁ mt₁ o fuel s (following mt s.queue) len) :
      LoopCuts mmapAlign start stop outcomes s₁ mt₁ o (fuel + 1) s (some mt) len
  | next {fuel len : Nat} {s s' : WinState} {mt : FileMappingTracker}
      (overlaps : Overlaps start stop mt)
      (split : s.mmapSplit mt (cutStart start mt) (Word.ceil (cutStop stop mt) mmapAlign)
        (outcomes fuel) = (s', .done))
      (more : cutStop stop mt - cutStart start mt < len)
      (rest : LoopCuts mmapAlign start stop outcomes s₁ mt₁ o fuel s' (following mt s.queue)
        (len - (cutStop stop mt - cutStart start mt))) :
      LoopCuts mmapAlign start stop outcomes s₁ mt₁ o (fuel + 1) s (some mt) len

/-- A call of `munmap` comes to call `mmap_split` on `mt₁` in the state `s₁`. -/
structure MunmapCuts (mmapAlign : Nat) (s : WinState) (addr len : Nat)
    (outcomes : Nat → SplitOutcome) (fuel : Nat) (s₁ : WinState) (mt₁ : FileMappingTracker)
    (o : SplitOutcome) : Prop where
  aligned : mmapAlign ∣ addr
  nonempty : 0 < len
  cuts : LoopCuts mmapAlign addr (addr + limitLen addr len) outcomes s₁ mt₁ o fuel s s.queue.head?
    (limitLen addr len)

/-- The failures in a call of `munmap` are harmless. -/
def HarmlessMunmap (mmapAlign : Nat) (s : WinState) (addr len : Nat)
    (outcomes : Nat → SplitOutcome) (fuel : Nat) : Prop :=
  ∀ s₁ mt₁ o, MunmapCuts mmapAlign s addr len outcomes fuel s₁ mt₁ o →
    HarmlessCut mt₁ (cutStart addr mt₁)
      (Word.ceil (cutStop (addr + limitLen addr len) mt₁) mmapAlign) o

/-- Every cut has one of the outcomes. -/
theorem LoopCuts.outcome (cuts : LoopCuts mmapAlign start stop outcomes s₁ mt₁ o fuel s cur len) :
    ∃ n, outcomes n = o := by
  induction cuts with
  | here fuel len overlaps outcome => exact ⟨fuel, outcome⟩
  | skip _ _ inductionHypothesis => exact inductionHypothesis
  | next _ _ _ _ inductionHypothesis => exact inductionHypothesis

/-- A call of `munmap` in which everything succeeds. -/
theorem HarmlessMunmap.of_succeeds (succeeds : ∀ n, (outcomes n).Succeeds) :
    HarmlessMunmap mmapAlign s addr len outcomes fuel := by
  intro s₁ mt₁ o cuts
  obtain ⟨n, rfl⟩ := cuts.cuts.outcome
  exact (succeeds n).harmless

/-- A cut of the loop keeps the list sound; the tracker behind stays in the list. -/
theorem Sound.loopCut {how : SplitEnd} (sound : Sound mmapAlign s [])
    (divides : mmapAlign ∣ Word.modulus) (aligned : mmapAlign ∣ start) (range : start < stop)
    (member : mt ∈ s.queue) (overlaps : Overlaps start stop mt)
    (harmless : HarmlessCut mt (cutStart start mt) (Word.ceil (cutStop stop mt) mmapAlign) o)
    (split : s.mmapSplit mt (cutStart start mt) (Word.ceil (cutStop stop mt) mmapAlign) o =
      (s', how)) :
    Sound mmapAlign s' [] ∧ (how = .refused → s' = s) ∧
      (how = .done → ∀ next, following mt s.queue = some next → next ∈ s'.queue) := by
  have listed := sound.holding.listed
  have long := listed.inOrder.nonempty mt member
  have cutRange := (listed.valid mt member).cutRange divides aligned range long overlaps
  obtain ⟨after, unchanged⟩ := sound.split member cutRange harmless split
  refine ⟨after, unchanged, fun done next found => ?_⟩
  subst done
  obtain ⟨_, _, cut⟩ := mmapSplit_cut sound.holding member cutRange split
  obtain ⟨nextMember, behind⟩ := following_mem listed found
  refine (cut.members listed next).mpr (Or.inl ⟨nextMember, fun same => ?_⟩)
  rw [same] at behind
  omega

/-- The loop of `munmap` keeps the list sound. -/
theorem Sound.munmapLoop {left : Option Nat} (sound : Sound mmapAlign s [])
    (divides : mmapAlign ∣ Word.modulus) (aligned : mmapAlign ∣ start) (range : start < stop)
    (current : ∀ mt, cur = some mt → mt ∈ s.queue)
    (harmless : ∀ s₁ mt₁ o, LoopCuts mmapAlign start stop outcomes s₁ mt₁ o fuel s cur len →
      HarmlessCut mt₁ (cutStart start mt₁) (Word.ceil (cutStop stop mt₁) mmapAlign) o)
    (result : munmapLoop mmapAlign start stop outcomes fuel s cur len = some (s', left)) :
    Sound mmapAlign s' [] := by
  induction fuel generalizing s cur len with
  | zero => cases result
  | succ fuel inductionHypothesis =>
      cases cur with
      | none =>
          cases result
          exact sound
      | some mt =>
          have member := current mt rfl
          cases munmapLoop_round mmapAlign start stop outcomes fuel s mt len with
          | beyond _ returned =>
              rw [result] at returned
              cases returned
              exact sound
          | before ahead returned =>
              rw [result] at returned
              refine inductionHypothesis sound
                (fun next found => (following_mem sound.holding.listed found).1)
                (fun s₁ mt₁ o cuts => harmless s₁ mt₁ o (.skip ahead cuts)) returned.symm
          | failed overlaps after how split _ returned =>
              rw [result] at returned
              cases returned
              have here := harmless s mt _ (.here fuel len overlaps rfl)
              exact (sound.loopCut divides aligned range member overlaps here split).1
          | last overlaps after split _ returned =>
              rw [result] at returned
              cases returned
              have here := harmless s mt _ (.here fuel len overlaps rfl)
              exact (sound.loopCut divides aligned range member overlaps here split).1
          | more overlaps after split rest returned =>
              rw [result] at returned
              have here := harmless s mt _ (.here fuel len overlaps rfl)
              obtain ⟨sound', _, stays⟩ :=
                sound.loopCut divides aligned range member overlaps here split
              exact inductionHypothesis sound' (stays rfl)
                (fun s₁ mt₁ o cuts => harmless s₁ mt₁ o (.next overlaps split rest cuts))
                returned.symm

/-- Where the loop cuts, the list is sound and has the tracker; a cut that gives up before it has
unmapped anything ends the loop in this state. -/
theorem Sound.loopCuts (sound : Sound mmapAlign s []) (divides : mmapAlign ∣ Word.modulus)
    (aligned : mmapAlign ∣ start) (range : start < stop)
    (current : ∀ mt, cur = some mt → mt ∈ s.queue)
    (harmless : ∀ s₁ mt₁ o, LoopCuts mmapAlign start stop outcomes s₁ mt₁ o fuel s cur len →
      HarmlessCut mt₁ (cutStart start mt₁) (Word.ceil (cutStop stop mt₁) mmapAlign) o)
    (cuts : LoopCuts mmapAlign start stop outcomes s₁ mt₁ o fuel s cur len) :
    Sound mmapAlign s₁ [] ∧ mt₁ ∈ s₁.queue ∧
      ((s₁.mmapSplit mt₁ (cutStart start mt₁) (Word.ceil (cutStop stop mt₁) mmapAlign) o).2 =
        .refused →
        Windows.munmapLoop mmapAlign start stop outcomes fuel s cur len = some (s₁, none)) := by
  induction cuts with
  | here fuel len overlaps outcome =>
      subst outcome
      have member := current mt₁ rfl
      refine ⟨sound, member, fun refused => ?_⟩
      have here := harmless s₁ mt₁ _ (.here fuel len overlaps rfl)
      cases munmapLoop_round mmapAlign start stop outcomes fuel s₁ mt₁ len with
      | beyond behind _ =>
          have := overlaps.2
          omega
      | before ahead _ =>
          have := overlaps.1
          omega
      | failed _ after how split _ returned =>
          rw [split] at refused
          have same := (sound.loopCut divides aligned range member overlaps here split).2.1 refused
          rw [returned, same]
      | last _ after split _ _ =>
          rw [split] at refused
          cases refused
      | more _ after split _ _ =>
          rw [split] at refused
          cases refused
  | @skip fuel len s mt ahead rest inductionHypothesis =>
      obtain ⟨sound₁, member₁, ends⟩ := inductionHypothesis sound
        (fun next found => (following_mem sound.holding.listed found).1)
        fun s₁ mt₁ o cuts => harmless s₁ mt₁ o (.skip ahead cuts)
      refine ⟨sound₁, member₁, fun refused => ?_⟩
      have long := sound.nonempty (current mt rfl)
      rw [Windows.munmapLoop, if_neg (by omega), if_pos ahead]
      exact ends refused
  | @next fuel len s s' mt overlaps split more rest inductionHypothesis =>
      have here := harmless s mt _ (.here fuel len overlaps rfl)
      obtain ⟨sound', _, stays⟩ :=
        sound.loopCut divides aligned range (current mt rfl) overlaps here split
      obtain ⟨sound₁, member₁, ends⟩ := inductionHypothesis sound' (stays rfl)
        fun s₁ mt₁ o cuts => harmless s₁ mt₁ o (.next overlaps split more cuts)
      refine ⟨sound₁, member₁, fun refused => ?_⟩
      cases munmapLoop_round mmapAlign start stop outcomes fuel s mt len with
      | beyond behind _ =>
          have := overlaps.2
          omega
      | before ahead _ =>
          have := overlaps.1
          omega
      | failed _ after how other fails _ =>
          rw [split] at other
          injection other with _ done
          exact absurd done.symm fails
      | last _ after other enough _ => omega
      | more _ after other _ returned =>
          rw [split] at other
          injection other with same
          subst same
          exact returned.trans (ends refused)

/-- What is rounded up as a word is at most what is rounded up without bounds. -/
theorem ceil_le_roundUp (x mmapAlign : Nat) : Word.ceil x mmapAlign ≤ roundUp mmapAlign x :=
  Word.floor_mono (Nat.mod_le _ _) mmapAlign

/-- What `munmap` unreserves in the end lies in the requested range. -/
theorem unreserved_range {left : Nat} (positive : 0 < mmapAlign) (aligned : mmapAlign ∣ addr)
    (shorter : left ≤ len) :
    addr + Word.ceil left mmapAlign ≤ roundUp mmapAlign (addr + len) := by
  have whole := le_roundUp positive (addr + len)
  have room : left ≤ roundUp mmapAlign (addr + len) - addr := by omega
  have rounded := roundUp_le positive (Nat.dvd_sub (dvd_roundUp mmapAlign (addr + len)) aligned)
    room
  have := ceil_le_roundUp left mmapAlign
  omega

/-- Where there are no pages, there are no mappings. -/
theorem Removed.apart (removed : Removed mmapAlign 0 start stop s s') {bound : Nat}
    (nonempty : start < roundUp mmapAlign stop) (within : bound ≤ roundUp mmapAlign stop)
    (member : t ∈ s'.queue) :
    t.endAddress ≤ start ∨ bound ≤ t.baseAddress := by
  by_contra overlaps
  have long := removed.holding.listed.inOrder.nonempty t member
  have free : pageAt s'.queue (max start t.baseAddress) = none := by
    rw [removed.pages, if_pos ⟨by omega, by omega⟩]
  exact pageAt_eq_none_iff.mp free t member ⟨by omega, by omega⟩

/-- `munmap` with harmless failures keeps the list sound. -/
theorem Sound.munmap {done : Bool} (sound : Sound mmapAlign s [])
    (divides : mmapAlign ∣ Word.modulus) (several : 1 < mmapAlign) (fits : addr < Word.modulus)
    (harmless : HarmlessMunmap mmapAlign s addr len outcomes fuel)
    (result : munmap mmapAlign s addr len outcomes fuel = some (s', done)) :
    Sound mmapAlign s' [] := by
  unfold Windows.munmap at result
  split at result
  · cases result
    exact sound
  rename_i aligned
  split at result
  · cases result
    exact sound
  rename_i nonempty
  have aligned : mmapAlign ∣ addr := Nat.dvd_of_mod_eq_zero (Decidable.not_not.mp aligned)
  have nonempty : 0 < len := Nat.pos_of_ne_zero nonempty
  obtain ⟨positive, _, _⟩ := limitLen_range divides several aligned fits nonempty
  have loop {after : WinState} {left : Option Nat}
      (returned : Windows.munmapLoop mmapAlign addr (addr + limitLen addr len) outcomes fuel s
        s.queue.head? (limitLen addr len) = some (after, left)) : Sound mmapAlign after [] :=
    sound.munmapLoop divides aligned (by omega) (fun mt first => List.mem_of_head? first)
      (fun s₁ mt₁ o cuts => harmless s₁ mt₁ o ⟨aligned, nonempty, cuts⟩) returned
  split at result
  · cases result
  · rename_i after returned
    cases result
    exact loop returned
  · rename_i after left returned
    cases result
    have soundAfter := loop returned
    split
    · have walking : Walking addr (addr + limitLen addr len) s.queue s.queue.head?
          (addr + limitLen addr len - addr) := Walking.head sound.holding.listed
      rw [Nat.add_sub_cancel_left] at walking
      obtain ⟨removed, shorter⟩ := munmapLoop_removes divides aligned (by omega) sound.holding
        walking returned
      have within := unreserved_range (by omega) aligned shorter
      have more := le_roundUp (by omega : 0 < mmapAlign) (addr + limitLen addr len)
      exact soundAfter.memory (MemoryOnly.mmapUnreserve ..)
        (KeepsMemory.mmapUnreserve le_rfl le_rfl _) fun t member =>
          removed.apart (by omega) within member
    · exact soundAfter

/-- A cut of a call of `munmap` that gives up before it has unmapped anything ends the call as it
found it. -/
theorem Sound.munmapCuts (sound : Sound mmapAlign s []) (divides : mmapAlign ∣ Word.modulus)
    (several : 1 < mmapAlign) (fits : addr < Word.modulus)
    (harmless : HarmlessMunmap mmapAlign s addr len outcomes fuel)
    (cuts : MunmapCuts mmapAlign s addr len outcomes fuel s₁ mt₁ o)
    (refused : (s₁.mmapSplit mt₁ (cutStart addr mt₁)
      (Word.ceil (cutStop (addr + limitLen addr len) mt₁) mmapAlign) o).2 = .refused) :
    Windows.munmap mmapAlign s addr len outcomes fuel = some (s₁, false) ∧ mt₁ ∈ s₁.queue ∧
      Backed s₁ mt₁ := by
  obtain ⟨aligned, nonempty, loopCuts⟩ := cuts
  obtain ⟨positive, _, _⟩ := limitLen_range divides several aligned fits nonempty
  obtain ⟨sound₁, member, ends⟩ := sound.loopCuts divides aligned (by omega)
    (fun mt first => List.mem_of_head? first)
    (fun s₁ mt₁ o more => harmless s₁ mt₁ o ⟨aligned, nonempty, more⟩) loopCuts
  refine ⟨?_, member, sound₁.backed mt₁ member⟩
  unfold Windows.munmap
  rw [if_neg (by rw [Nat.mod_eq_zero_of_dvd aligned]; exact fun never => never rfl),
    if_neg (by omega), ends refused]

end Windows
end Vmem
