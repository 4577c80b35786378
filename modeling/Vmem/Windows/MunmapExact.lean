import Vmem.Windows.MunmapLoop

/-!
# What `munmap` removes

If every call succeeds, `munmap` takes the pages of the given range out of the list and leaves the
others as they are.
-/

namespace Vmem
namespace Windows

variable {s : WinState} {mmapAlign lo len : Nat}

/-- The range that the loop works on is not empty, and does not get beyond the address space. -/
theorem limitLen_range {addr : Nat} (divides : mmapAlign ∣ Word.modulus) (several : 1 < mmapAlign)
    (aligned : mmapAlign ∣ addr) (fits : addr < Word.modulus) (nonempty : 0 < len) :
    0 < limitLen addr len ∧ limitLen addr len ≤ len ∧ addr + limitLen addr len < Word.modulus := by
  have room := aligned_room divides aligned fits
  unfold limitLen
  split <;> omega

/-- No tracker has an address behind the limited range and before the end of the requested one. -/
theorem Holding.limited {addr : Nat} (holding : Holding mmapAlign lo s [])
    (divides : mmapAlign ∣ Word.modulus) (several : 1 < mmapAlign)
    (fits : addr < Word.modulus) (x : Nat) :
    (if addr ≤ x ∧ x < roundUp mmapAlign (addr + limitLen addr len) then none
      else pageAt s.queue x) =
      if addr ≤ x ∧ x < roundUp mmapAlign (addr + len) then none else pageAt s.queue x := by
  have positive : 0 < mmapAlign := by omega
  unfold limitLen
  split
  · rename_i longer
    have whole : Word.modulus ≤ roundUp mmapAlign (addr + (Word.modulus - 1 - addr)) := by
      have last : Word.modulus ≤ addr + (Word.modulus - 1 - addr) + (mmapAlign - 1) := by omega
      have rounded := Word.floor_mono last mmapAlign
      rwa [Word.floor_eq_of_dvd divides] at rounded
    have requested := le_roundUp positive (addr + len)
    by_cases inside : x < Word.modulus
    · refine if_congr ?_ rfl rfl
      omega
    · have free : pageAt s.queue x = none := by
        refine pageAt_eq_none_iff.mpr fun t member holds => ?_
        have upper : x < t.endAddress := holds.2
        have := (holding.listed.valid t member).fits
        omega
      rw [free, ite_self, ite_self]
  · rfl

/-- If every call and every `malloc` succeeds, `munmap` ends and returns 0, and takes exactly the
pages of the requested range, rounded up, out of a sorted list of disjoint mappings that lie in one
half of the address space.  The list stays sorted and disjoint; every other page keeps its place in
the file, its access and its flags, and is backed by the file as before; and the mappings in the
list have different open handles, what remains of a mapping of a file both of them. -/
theorem munmap_removes_exactly {lgAlign lo addr len fuel : Nat} {s : WinState}
    {outcomes : Nat → SplitOutcome}
    (granular : 0 < lgAlign ∧ lgAlign ≤ 63)
    (holding : Holding (2 ^ lgAlign) lo s [])
    (succeeds : ∀ n, (outcomes n).Succeeds)
    (aligned : 2 ^ lgAlign ∣ addr)
    (fits : addr < Word.modulus)
    (nonempty : 0 < len)
    (enough : s.queue.length < fuel) :
    ∃ s', munmap (2 ^ lgAlign) s addr len outcomes fuel = some (s', true) ∧
      Listed (2 ^ lgAlign) lo s'.queue ∧
      (∀ x, pageAt s'.queue x =
        if addr ≤ x ∧ x < roundUp (2 ^ lgAlign) (addr + len) then none else pageAt s.queue x) ∧
      Owns s' (queueHandles s'.queue) ∧
      (∀ t ∈ s'.queue, t.fileMappingHandle.isSome = true) ∧ FilesKept s.queue s'.queue := by
  have divides : 2 ^ lgAlign ∣ Word.modulus := Nat.pow_dvd_pow 2 (by omega)
  have several : 1 < 2 ^ lgAlign := Nat.one_lt_two_pow (by omega)
  obtain ⟨positive, shorter, range⟩ := limitLen_range divides several aligned fits nonempty
  have walking : Walking addr (addr + limitLen addr len) s.queue s.queue.head?
      (limitLen addr len) := by
    have head : Walking addr (addr + limitLen addr len) s.queue s.queue.head?
        (addr + limitLen addr len - addr) := Walking.head holding.listed
    rwa [Nat.add_sub_cancel_left] at head
  have few : ahead s.queue.head? s.queue < fuel := by
    refine lt_of_le_of_lt ?_ enough
    unfold ahead
    split
    · exact Nat.zero_le _
    · exact List.countP_le_length
  obtain ⟨⟨after, left⟩, returned⟩ : ∃ result, munmapLoop (2 ^ lgAlign) addr
      (addr + limitLen addr len) outcomes fuel s s.queue.head? (limitLen addr len) = some result :=
    munmapLoop_terminates divides aligned (by omega) holding walking.current few
  obtain ⟨rest, rfl⟩ := Option.isSome_iff_exists.mp (munmapLoop_succeeds succeeds returned)
  obtain ⟨⟨holding', pages, files⟩, _⟩ :=
    munmapLoop_removes divides aligned (by omega) holding walking returned
  have only : MemoryOnly after
      (if rest > 0 then after.mmapUnreserve addr (Word.ceil rest (2 ^ lgAlign)) else after) := by
    split
    · exact MemoryOnly.mmapUnreserve ..
    · exact MemoryOnly.refl after
  refine ⟨_, ?_, (holding'.memoryOnly only).listed, fun x => ?_,
    (holding'.memoryOnly only).owns, (holding'.memoryOnly only).mapped, ?_⟩
  · unfold munmap
    rw [if_neg (by rw [Nat.mod_eq_zero_of_dvd aligned]; exact fun never => never rfl),
      if_neg (by omega), returned]
  · rw [only.queue, pages x]
    exact holding.limited divides several fits x
  · rw [only.queue]
    exact files

/-- A unit is cut out of a mapping whose reservation exceeds the file. -/
theorem munmap_cuts_middle :
    ∃ s s', munmap (2 ^ 16) s 131072 1 (fun _ => ⟨true, true, true, true, true, true, true, true,
        true, ⟨none, none, 0, 0, .read, 0, 0, 0⟩⟩) 2 = some (s', true) ∧
      s'.queue = [⟨some 0, some 1, 65536, 131072, .all, 0, 65536, 0⟩,
        ⟨some 2, some 3, 196608, 327680, .all, 131072, 65536, 0⟩] ∧
      Listed (2 ^ 16) 0 s'.queue ∧ Owns s' (queueHandles s'.queue) := by
  let s : WinState := ⟨[⟨some 0, some 1, 65536, 327680, .all, 0, 196608, 0⟩], [⟨65536, 196608⟩],
    fun x => 262144 ≤ x ∧ x < 327680, [0, 1], 2, false, []⟩
  let outcomes : Nat → SplitOutcome := fun _ => ⟨true, true, true, true, true, true, true, true,
    true, ⟨none, none, 0, 0, .read, 0, 0, 0⟩⟩
  have holding : Holding (2 ^ 16) 0 s [] := by
    refine ⟨⟨⟨?_, List.pairwise_singleton _ _⟩, ?_⟩, ⟨by decide, by decide, by decide, rfl⟩, ?_⟩
    · intro t member
      cases List.mem_singleton.mp member
      decide
    · intro t member
      cases List.mem_singleton.mp member
      exact ⟨by decide, by decide, by decide, by decide, by decide⟩
    · intro t member
      cases List.mem_singleton.mp member
      rfl
  have run : (munmap (2 ^ 16) s 131072 1 outcomes 2).map (fun result => result.1.queue) =
      some [⟨some 0, some 1, 65536, 131072, .all, 0, 65536, 0⟩,
        ⟨some 2, some 3, 196608, 327680, .all, 131072, 65536, 0⟩] := by
    decide +kernel
  have succeeds : ∀ n, (outcomes n).Succeeds :=
    fun _ => ⟨rfl, rfl, rfl, rfl, rfl, rfl, rfl, rfl, rfl⟩
  obtain ⟨s', result, listed, _, owns, _⟩ := munmap_removes_exactly ⟨by decide, by decide⟩ holding
    succeeds (show 2 ^ 16 ∣ 131072 by decide) (by decide) (show 0 < 1 by decide)
    (show s.queue.length < 2 by decide)
  rw [result] at run
  exact ⟨s, s', result, Option.some.inj run, listed, owns⟩

/-- Of a mapping over more than half of the address space, the remainders are inserted in the wrong
order: the comparison of the addresses as signed words overflows. -/
theorem munmap_unsorts :
    ∃ (s s' : WinState) (t : FileMappingTracker),
      s.queue = [t] ∧ t.baseAddress < t.endAddress ∧ 2 ^ 16 ∣ t.baseAddress ∧
      2 ^ 16 ∣ t.endAddress ∧ t.endAddress < Word.modulus ∧ Owns s (queueHandles s.queue) ∧
      munmap (2 ^ 16) s 131072 (2 ^ 63) (fun _ => ⟨true, true, true, true, true, true, true, true,
        true, ⟨none, none, 0, 0, .read, 0, 0, 0⟩⟩) 2 = some (s', true) ∧
      ¬s'.queue.Pairwise fun a b => a.endAddress ≤ b.baseAddress := by
  let t : FileMappingTracker :=
    ⟨some 0, some 1, 65536, 18446744073709486080, .all, 0, 65536, 0⟩
  let s : WinState := ⟨[t], [⟨65536, 65536⟩], fun x => 131072 ≤ x ∧ x < 18446744073709486080,
    [0, 1], 2, false, []⟩
  let outcomes : Nat → SplitOutcome := fun _ => ⟨true, true, true, true, true, true, true, true,
    true, ⟨none, none, 0, 0, .read, 0, 0, 0⟩⟩
  have run : (munmap (2 ^ 16) s 131072 (2 ^ 63) outcomes 2).map
      (fun result => (result.1.queue, result.2)) =
      some ([⟨some 2, some 3, 9223372036854906880, 18446744073709486080, .all,
          9223372036854841344, 0, 0⟩,
        ⟨some 0, some 1, 65536, 131072, .all, 0, 65536, 0⟩], true) := by
    decide +kernel
  obtain ⟨⟨s', done⟩, result, values⟩ := Option.map_eq_some_iff.mp run
  injection values with queue_eq done_eq
  subst done_eq
  refine ⟨s, s', t, rfl, by decide, by decide, by decide, by decide, ?_, result, ?_⟩
  · exact ⟨by decide, by decide, by decide, rfl⟩
  · rw [queue_eq]
    decide

end Windows
end Vmem
