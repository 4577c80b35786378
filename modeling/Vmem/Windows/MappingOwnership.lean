import Vmem.Library.Run
import Vmem.Windows.MmapFailures

/-!
# The mappings in the list own their memory

In every run of `mmap` and `munmap` in which no failure hits one of the harmful places, the
trackers in the list have open handles, their views and their reservations.
-/

namespace Vmem
namespace Windows

variable {s s' : WinState} {mmapAlign pagesize : Nat}

/-- A call of the emulation. -/
inductive WinCall
  | mmap (a : MmapArgs) (m : MmapOutcome)
  | munmap (addr len : Nat) (outcomes : Nat → SplitOutcome) (fuel : Nat)

/-- Execute one call; a call that does not return within its fuel is not executed. -/
def WinCall.exec (mmapAlign pagesize : Nat) (s : WinState) : WinCall → Option WinState
  | .mmap a m => (Windows.mmap mmapAlign pagesize s a m).map Prod.fst
  | .munmap addr len outcomes fuel =>
      (Windows.munmap mmapAlign s addr len outcomes fuel).map Prod.fst

/-- The hint that `mmap` uses. -/
def MmapArgs.hint (mmapAlign : Nat) (a : MmapArgs) : Nat :=
  if a.addr % mmapAlign ≠ 0 then 0 else a.addr

/-- `mmap` does not refuse its arguments. -/
structure MmapArgs.Accepted (mmapAlign : Nat) (a : MmapArgs) : Prop where
  nonempty : 0 < a.len
  prot : a.prot.other = false
  sharing : a.flags.mapPrivate ≠ a.flags.mapShared
  access : (a.prot.access a.flags).isSome = true
  fixed : a.flags.fixed = true → mmapAlign ∣ a.addr
  offset : mmapAlign ∣ offsetWord a.offset

/-- `mmap` comes to map something in the state `s'`: with `MAP_FIXED`, the range was unmapped. -/
structure MmapReached (mmapAlign : Nat) (s : WinState) (a : MmapArgs) (m : MmapOutcome)
    (s' : WinState) : Prop where
  accepted : a.Accepted mmapAlign
  anywhere : a.flags.fixed = false → s' = s
  unmapped : a.flags.fixed = true →
    Windows.munmap mmapAlign s (a.hint mmapAlign) a.len m.splits m.fuel = some (s', true)

/-- With `MAP_FIXED` the hint is the address. -/
theorem MmapReached.hint_eq {a : MmapArgs} {m : MmapOutcome}
    (reached : MmapReached mmapAlign s a m s') (fixed : a.flags.fixed = true) :
    a.hint mmapAlign = a.addr := by
  unfold MmapArgs.hint
  rw [if_neg (not_not.mpr (Nat.mod_eq_zero_of_dvd (reached.accepted.fixed fixed)))]

/-- Arguments are words, and Windows gives what it promises. -/
def WinCall.Possible (mmapAlign : Nat) (s : WinState) : WinCall → Prop
  | .mmap a m => a.addr < Word.modulus ∧ a.len < Word.modulus ∧
      ∀ s', MmapReached mmapAlign s a m s' → MmapGiven mmapAlign s' a (a.hint mmapAlign) m
  | .munmap addr _ _ _ => addr < Word.modulus

/-- What happens in a call is harmless. -/
def WinCall.Harmless (mmapAlign pagesize : Nat) (s : WinState) : WinCall → Prop
  | .mmap a m => (a.Accepted mmapAlign → a.flags.fixed = true →
      HarmlessMunmap mmapAlign s (a.hint mmapAlign) a.len m.splits m.fuel) ∧
      ∀ s', MmapReached mmapAlign s a m s' → HarmlessMmap mmapAlign pagesize a m
  | .munmap addr len outcomes fuel => HarmlessMunmap mmapAlign s addr len outcomes fuel

/-- `mmap` refuses its arguments, or goes on in a state it has reached. -/
theorem mmap_cases (mmapAlign pagesize : Nat) (s : WinState) (a : MmapArgs) (m : MmapOutcome) :
    Windows.mmap mmapAlign pagesize s a m = some (s, none) ∨
      (a.Accepted mmapAlign ∧ a.flags.fixed = true ∧
        (Windows.mmap mmapAlign pagesize s a m = none ∨
          ∃ after, Windows.munmap mmapAlign s (a.hint mmapAlign) a.len m.splits m.fuel =
              some (after, false) ∧
            Windows.mmap mmapAlign pagesize s a m = some (after, none))) ∨
      ∃ after access, MmapReached mmapAlign s a m after ∧
        Windows.mmap mmapAlign pagesize s a m =
          some (after.mmapBody mmapAlign pagesize a access (a.hint mmapAlign) m) := by
  unfold Windows.mmap
  split
  · exact Or.inl rfl
  rename_i request
  split
  · exact Or.inl rfl
  rename_i sharing
  split
  · exact Or.inl rfl
  rename_i access access_eq
  split
  · exact Or.inl rfl
  rename_i hinted
  dsimp only
  split
  · exact Or.inl rfl
  rename_i offset
  obtain ⟨long, prot⟩ := not_or.mp request
  have accepted : a.Accepted mmapAlign := by
    refine ⟨Nat.pos_of_ne_zero long, Bool.eq_false_of_not_eq_true prot, sharing, ?_,
      fun isFixed => ?_, Nat.dvd_of_mod_eq_zero (Decidable.not_not.mp offset)⟩
    · rw [access_eq]
      rfl
    · by_contra misaligned
      exact hinted ⟨fun zero => misaligned (Nat.dvd_of_mod_eq_zero zero), isFixed⟩
  right
  cases fixed : a.flags.fixed with
  | false =>
      rw [if_neg (by decide)]
      refine Or.inr ⟨s, access, ⟨accepted, fun _ => rfl, fun never => ?_⟩, rfl⟩
      rw [fixed] at never
      cases never
  | true =>
      rw [if_pos rfl]
      have hint_eq : (if a.addr % mmapAlign ≠ 0 then 0 else a.addr) = a.hint mmapAlign := rfl
      rw [hint_eq]
      cases unmapped : Windows.munmap mmapAlign s (a.hint mmapAlign) a.len m.splits m.fuel with
      | none => exact Or.inl ⟨accepted, rfl, Or.inl rfl⟩
      | some result =>
          obtain ⟨after, done⟩ := result
          cases done with
          | false => exact Or.inl ⟨accepted, rfl, Or.inr ⟨after, rfl, rfl⟩⟩
          | true =>
              refine Or.inr ⟨after, access, ⟨accepted, fun never => ?_, fun _ => unmapped⟩, rfl⟩
              rw [fixed] at never
              cases never

/-- A call whose failures are harmless keeps the list sound. -/
theorem Sound.call {call : WinCall} (sound : Sound mmapAlign s [])
    (divides : mmapAlign ∣ Word.modulus) (several : 1 < mmapAlign)
    (possible : call.Possible mmapAlign s) (harmless : call.Harmless mmapAlign pagesize s)
    (result : call.exec mmapAlign pagesize s = some s') : Sound mmapAlign s' [] := by
  cases call with
  | munmap addr len outcomes fuel =>
      obtain ⟨⟨after, done⟩, returned, rfl⟩ := Option.map_eq_some_iff.mp result
      exact sound.munmap divides several possible harmless returned
  | mmap a m =>
      obtain ⟨addrFits, lenFits, given⟩ := possible
      obtain ⟨harmlessUnmap, harmlessMap⟩ := harmless
      have hintFits : a.hint mmapAlign < Word.modulus := by
        unfold MmapArgs.hint
        split
        · decide
        · exact addrFits
      obtain ⟨⟨after, base⟩, returned, rfl⟩ := Option.map_eq_some_iff.mp result
      rcases mmap_cases mmapAlign pagesize s a m with refused | ⟨accepted, fixed, never | failed⟩ |
        ⟨middle, access, reached, continues⟩
      · rw [refused] at returned
        cases returned
        exact sound
      · rw [never] at returned
        cases returned
      · obtain ⟨middle, unmapped, ends⟩ := failed
        rw [ends] at returned
        cases returned
        exact sound.munmap divides several hintFits (harmlessUnmap accepted fixed) unmapped
      · rw [continues] at returned
        have soundMiddle : Sound mmapAlign middle [] := by
          cases fixed : a.flags.fixed with
          | false =>
              rw [reached.anywhere fixed]
              exact sound
          | true =>
              exact sound.munmap divides several hintFits
                (harmlessUnmap reached.accepted fixed) (reached.unmapped fixed)
        have body : Sound mmapAlign
            (middle.mmapBody mmapAlign pagesize a access (a.hint mmapAlign) m).1 [] :=
          soundMiddle.mmapBody divides reached.accepted.nonempty lenFits (given middle reached)
            (harmlessMap middle reached) reached.hint_eq
        have same := congrArg Prod.fst (Option.some.inj returned)
        exact same ▸ body

/-- `win_mmap_init`, with the views and reservations that others in the process have. -/
def WinState.winMmapInit (views : List Span) (reserved : Nat → Bool) : WinState :=
  ⟨[], views, reserved, [], 0, false, []⟩

theorem Sound.winMmapInit (views : List Span) (reserved : Nat → Bool) :
    Sound mmapAlign (WinState.winMmapInit views reserved) [] where
  holding := {
    listed := ⟨RangeQueue.InOrder.nil, fun _ member => absurd member List.not_mem_nil⟩
    owns := ⟨fun _ member => absurd member List.not_mem_nil, List.nodup_nil,
      fun _ member => absurd member List.not_mem_nil, rfl⟩
    mapped := fun _ member => absurd member List.not_mem_nil }
  backed := fun _ member => absurd member List.not_mem_nil
  alive := rfl

/-- A run of the emulation whose calls get what Windows promises. -/
def WinRun (mmapAlign pagesize : Nat) (s₀ s : WinState) : Prop :=
  Reached (WinCall.Possible mmapAlign) (WinCall.exec mmapAlign pagesize) s₀ s

/-- A run in which, moreover, all that happens is harmless. -/
def HarmlessRun (mmapAlign pagesize : Nat) (s₀ s : WinState) : Prop :=
  Reached (fun s call => WinCall.Possible mmapAlign s call ∧ call.Harmless mmapAlign pagesize s)
    (WinCall.exec mmapAlign pagesize) s₀ s

/-- In every run of harmless calls, each tracker in the list has open handles,
a view on the part with the file and a reservation on the rest, no handle was closed twice and no
listed tracker was freed.  A `munmap` that returns -1 because `mmap_split` failed before unmapping
anything ends in the state in which `mmap_split` was called, with the tracker in the list. -/
theorem listed_mappings_owned {lgAlign pagesize : Nat} {views : List Span} {reserved : Nat → Bool}
    {s : WinState}
    (granular : 0 < lgAlign ∧ lgAlign ≤ 63)
    (run : HarmlessRun (2 ^ lgAlign) pagesize (WinState.winMmapInit views reserved) s) :
    (∀ t ∈ s.queue,
      (∃ fmh, t.fileMappingHandle = some fmh ∧ fmh ∈ s.handles) ∧
        (∀ fh, t.fileHandle = some fh → fh ∈ s.handles) ∧ Backed s t) ∧
      s.closedTwice = false ∧ s.dangling = [] ∧
      ∀ addr len outcomes fuel, addr < Word.modulus →
        HarmlessMunmap (2 ^ lgAlign) s addr len outcomes fuel →
        ∀ s₁ mt o, MunmapCuts (2 ^ lgAlign) s addr len outcomes fuel s₁ mt o →
          (s₁.mmapSplit mt (cutStart addr mt)
            (Word.ceil (cutStop (addr + limitLen addr len) mt) (2 ^ lgAlign)) o).2 = .refused →
          munmap (2 ^ lgAlign) s addr len outcomes fuel = some (s₁, false) ∧ mt ∈ s₁.queue ∧
            Backed s₁ mt := by
  have divides : 2 ^ lgAlign ∣ Word.modulus := Nat.pow_dvd_pow 2 (by omega)
  have several : 1 < 2 ^ lgAlign := Nat.one_lt_two_pow (by omega)
  have sound : Sound (2 ^ lgAlign) s [] := by
    refine Reached.invariant run (fun s => Sound (2 ^ lgAlign) s [])
      (Sound.winMmapInit views reserved) ?_
    rintro before call after sound ⟨possible, harmless⟩ result
    exact sound.call divides several possible harmless result
  have owns := sound.holding.owns
  refine ⟨fun t member => ⟨?_, fun fh fh_eq => ?_, sound.backed t member⟩, owns.once,
    sound.alive, ?_⟩
  · obtain ⟨fmh, fmh_eq⟩ := Option.isSome_iff_exists.mp (sound.holding.mapped t member)
    refine ⟨fmh, fmh_eq, owns.opened fmh (List.mem_flatMap.mpr ⟨t, member, ?_⟩)⟩
    exact List.mem_append_left _ (Option.mem_toList.mpr fmh_eq)
  · refine owns.opened fh (List.mem_flatMap.mpr ⟨t, member, ?_⟩)
    exact List.mem_append_right _ (Option.mem_toList.mpr fh_eq)
  · intro addr len outcomes fuel fits harmless s₁ mt o cuts refused
    exact sound.munmapCuts divides several fits harmless cuts refused

/-- A request without a file at a place of Windows' choice is possible in a process that has no
other memory. -/
theorem WinCall.fileless_possible {a : MmapArgs} {m : MmapOutcome} {base : Nat}
    (notFixed : a.flags.fixed = false) (anywhere : a.addr = 0)
    (fits : a.len < Word.modulus) (noFile : m.fileSize = none) (noReservation : m.reserved = none)
    (hinted : m.hinted = some base) (retried : m.retried = none) (aligned : mmapAlign ∣ base)
    (below : base + roundUp mmapAlign a.len ≤ 2 ^ 63) :
    WinCall.Possible mmapAlign (WinState.winMmapInit [] fun _ => false) (.mmap a m) := by
  have hint : a.hint mmapAlign = 0 := by
    unfold MmapArgs.hint
    rw [anywhere, ite_self]
  refine ⟨by rw [anywhere]; decide, fits, fun s' reached => ?_⟩
  rw [reached.anywhere notFixed, hint]
  refine ⟨fun _ => ⟨fun never => absurd rfl never, fun other given => ?_⟩, fun reserved given => ?_,
    fun size given => ?_, fun size reserved given => ?_⟩
  · rw [hinted, retried] at given
    rcases given with same | never
    · cases same
      exact ⟨aligned, below, fun _ member => absurd member List.not_mem_nil, fun _ _ _ => rfl⟩
    · cases never
  · rw [noReservation] at given
    cases given
  · rw [noFile] at given
    cases given
  · rw [noFile] at given
    cases given

/-- Of an anonymous mapping of three units, the one in the middle is unmapped. -/
theorem anonymous_cut_owned :
    ∃ s, HarmlessRun (2 ^ 16) 4096 (WinState.winMmapInit [] fun _ => false) s ∧
      s.queue = [⟨none, some 0, 65536, 131072, .copy, 0, 65536, 0⟩,
        ⟨some 1, some 2, 196608, 262144, .copy, 131072, 65536, 0⟩] ∧
      ∀ t ∈ s.queue, ∃ fmh, t.fileMappingHandle = some fmh ∧ fmh ∈ s.handles := by
  let success : SplitOutcome := ⟨true, true, true, true, true, true, true, true, true,
    ⟨none, none, 0, 0, .read, 0, 0, 0⟩⟩
  let a : MmapArgs := ⟨0, 196608, ⟨true, true, false⟩, ⟨true, false, false, true⟩, -1, 0⟩
  let m : MmapOutcome := ⟨fun _ => success, 0, false, none, none, true, some 65536, none, true, 0⟩
  let s₀ : WinState := WinState.winMmapInit [] fun _ => false
  have succeeds : ∀ n, ((fun _ => success : Nat → SplitOutcome) n).Succeeds :=
    fun _ => ⟨rfl, rfl, rfl, rfl, rfl, rfl, rfl, rfl, rfl⟩
  have values : ((WinCall.exec (2 ^ 16) 4096 s₀ (.mmap a m)).bind fun s =>
      WinCall.exec (2 ^ 16) 4096 s (.munmap 131072 65536 (fun _ => success) 2)).map WinState.queue =
      some [⟨none, some 0, 65536, 131072, .copy, 0, 65536, 0⟩,
        ⟨some 1, some 2, 196608, 262144, .copy, 131072, 65536, 0⟩] := by
    decide +kernel
  obtain ⟨s, both, queue_eq⟩ := Option.map_eq_some_iff.mp values
  obtain ⟨middle, first, second⟩ := Option.bind_eq_some_iff.mp both
  have possible : WinCall.Possible (2 ^ 16) s₀ (.mmap a m) :=
    WinCall.fileless_possible rfl rfl (by decide) rfl rfl rfl rfl (by decide) (by decide)
  have notFile (size : Nat) (reached : FileReached a m size) : False := by
    cases reached.file
  have mapped : HarmlessRun (2 ^ 16) 4096 s₀ middle := by
    refine Reached.next Reached.start
      ⟨possible, fun _ never => ?_, fun _ _ => ⟨?_, ?_, ?_, ?_⟩⟩ first
    · cases never
    · exact fun size reached => (notFile size reached).elim
    · exact fun size _ reached => (notFile size reached).elim
    · exact fun _ _ _ _ => show Word.ceil 196608 4096 = Word.ceil 196608 (2 ^ 16) by decide +kernel
    · exact fun size reached => (notFile size reached).elim
  have possibleNext : WinCall.Possible (2 ^ 16) middle
      (.munmap 131072 65536 (fun _ => success) 2) := show 131072 < Word.modulus by decide
  have harmlessNext : WinCall.Harmless (2 ^ 16) 4096 middle
      (.munmap 131072 65536 (fun _ => success) 2) := HarmlessMunmap.of_succeeds succeeds
  have run : HarmlessRun (2 ^ 16) 4096 s₀ s :=
    Reached.next mapped ⟨possibleNext, harmlessNext⟩ second
  have owned := (listed_mappings_owned ⟨by decide, by decide⟩ run).1
  exact ⟨s, run, queue_eq, fun t member => (owned t member).1⟩

/-- Without memory for the tracker at the end, the error path of `mmap_split` closes the handles of
the mapping that it leaves in the list. -/
theorem failed_cut_closes_listed_handles :
    ∃ s, WinRun (2 ^ 16) 4096 (WinState.winMmapInit [] fun _ => false) s ∧
      ∃ t ∈ s.queue, ∃ fmh, t.fileMappingHandle = some fmh ∧ fmh ∉ s.handles := by
  let failure : SplitOutcome := ⟨true, false, true, true, true, true, true, true, true,
    ⟨none, none, 0, 0, .read, 0, 0, 0⟩⟩
  let a : MmapArgs := ⟨0, 196608, ⟨true, true, false⟩, ⟨true, false, false, true⟩, -1, 0⟩
  let m : MmapOutcome := ⟨fun _ => failure, 0, false, none, none, true, some 65536, none, true, 0⟩
  let s₀ : WinState := WinState.winMmapInit [] fun _ => false
  have values : ((WinCall.exec (2 ^ 16) 4096 s₀ (.mmap a m)).bind fun s =>
      WinCall.exec (2 ^ 16) 4096 s (.munmap 131072 65536 (fun _ => failure) 2)).map
        (fun s => (s.queue, s.handles)) =
      some ([⟨none, some 0, 65536, 262144, .copy, 0, 196608, 0⟩], []) := by
    decide +kernel
  obtain ⟨s, both, values_eq⟩ := Option.map_eq_some_iff.mp values
  obtain ⟨middle, first, second⟩ := Option.bind_eq_some_iff.mp both
  injection values_eq with queue_eq handles_eq
  have possible : WinCall.Possible (2 ^ 16) s₀ (.mmap a m) :=
    WinCall.fileless_possible rfl rfl (by decide) rfl rfl rfl rfl (by decide) (by decide)
  have mapped : WinRun (2 ^ 16) 4096 s₀ middle := Reached.next Reached.start possible first
  have unmapped : WinCall.Possible (2 ^ 16) middle
      (.munmap 131072 65536 (fun _ => failure) 2) := show 131072 < Word.modulus by decide
  refine ⟨s, Reached.next mapped unmapped second, ?_⟩
  rw [queue_eq, handles_eq]
  exact ⟨_, List.mem_cons_self, 0, rfl, List.not_mem_nil⟩

end Windows
end Vmem
