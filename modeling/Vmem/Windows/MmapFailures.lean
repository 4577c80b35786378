import Vmem.Windows.MunmapFailures

/-!
# Calls of `mmap`

Windows gives `mmap` free memory.  The new tracker has its view and its reservation unless the
view is mapped away from a reservation that was made for the range behind it, the length of the
request wraps, or the pages of the view end before a unit of `Mmap_align` does.
-/

namespace Vmem
namespace Windows

variable {s : WinState} {t : FileMappingTracker} {mmapAlign pagesize addr len : Nat}
  {spare : List Nat}

/-! ## What Windows gives -/

/-- No view and no reservation is in a range. -/
def Free (s : WinState) (lo len : Nat) : Prop :=
  (∀ view ∈ s.views, view.Apart ⟨lo, len⟩) ∧ ∀ x, lo ≤ x → x < lo + len → s.reserved x = false

/-- A mapping does not lie in free memory. -/
theorem Backed.apart_free {base : Nat} (backed : Backed s t) (free : Free s base len)
    (positive : 0 < len) (nonempty : t.baseAddress < t.endAddress) :
    t.endAddress ≤ base ∨ base + len ≤ t.baseAddress := by
  obtain ⟨inside, view, reserved⟩ := backed
  by_contra overlaps
  by_cases file : max base t.baseAddress < t.baseAddress + t.fileLen
  · have apart : t.baseAddress + t.fileLen ≤ base ∨ base + len ≤ t.baseAddress :=
      free.1 _ (view (by omega))
    omega
  · have isFree := free.2 (max base t.baseAddress) (by omega) (by omega)
    rw [reserved _ (by omega) (by omega)] at isFree
    cases isFree

/-- What Windows gives `mmap` for a view: at the hint, if there is one, and in free memory. -/
structure ViewGiven (mmapAlign : Nat) (s : WinState) (filelen addr : Nat) (o : MmapOutcome) :
    Prop where
  hint : addr ≠ 0 → ∀ base, o.hinted = some base → base = addr
  memory : ∀ base, o.hinted = some base ∨ o.retried = some base → mmapAlign ∣ base ∧
    base + roundUp mmapAlign filelen ≤ 2 ^ 63 ∧ Free s base (roundUp mmapAlign filelen)

/-- The state after the reservation is made and the part for the file released. -/
def WinState.reservedFor (mmapAlign : Nat) (s : WinState) (a : MmapArgs) (filelen reserved : Nat) :
    WinState :=
  (s.mmapReserve reserved (Word.ceil a.len mmapAlign)).mmapUnreserve reserved
    (Word.ceil filelen mmapAlign)

/-- What Windows gives `mmap` in a state. -/
structure MmapGiven (mmapAlign : Nat) (s : WinState) (a : MmapArgs) (addr : Nat)
    (o : MmapOutcome) : Prop where
  anon : a.flags.anon = true → ViewGiven mmapAlign s a.len addr o
  reservation : ∀ reserved, o.reserved = some reserved → mmapAlign ∣ reserved ∧ 0 < reserved ∧
    0 < Word.ceil a.len mmapAlign ∧ reserved + Word.ceil a.len mmapAlign ≤ 2 ^ 63 ∧
    Free s reserved (Word.ceil a.len mmapAlign)
  whole : ∀ size, o.fileSize = some size → Word.add (offsetWord a.offset) a.len ≤ size →
    ViewGiven mmapAlign s (fileLenOf size a.offset a.len) addr o
  part : ∀ size reserved, o.fileSize = some size → o.reserved = some reserved →
    size < Word.add (offsetWord a.offset) a.len →
    ViewGiven mmapAlign (s.reservedFor mmapAlign a (fileLenOf size a.offset a.len) reserved)
      (fileLenOf size a.offset a.len) reserved o

/-- `mmap` of a file gets as far as filling its tracker. -/
structure FileReached (a : MmapArgs) (o : MmapOutcome) (size : Nat) : Prop where
  file : a.flags.anon = false
  descriptor : a.fd ≠ -1
  handle : o.dupFile = true
  size_eq : o.fileSize = some size
  offset : a.offset < size
  mapping : o.createMapping = true
  memory : o.mtAlloc = true

/-- A view is given. -/
def MmapOutcome.Viewed (o : MmapOutcome) : Prop :=
  ∃ base, o.hinted = some base ∨ o.retried = some base

/-- What a request needs behind the end of a file is reserved, with `MAP_FIXED` where it should
be. -/
def ReservationKept (a : MmapArgs) (o : MmapOutcome) (size : Nat) : Prop :=
  size < Word.add (offsetWord a.offset) a.len →
    ∃ reserved, o.reserved = some reserved ∧ (a.flags.fixed = true → reserved = a.addr)

/-- The pages of a view reach to the end of its last unit of `Mmap_align`. -/
def FillsUnits (mmapAlign pagesize filelen : Nat) : Prop :=
  Word.ceil filelen pagesize = Word.ceil filelen mmapAlign

/-- What happens in `mmap` is harmless: if nothing is reserved, the file has all of the request,
while there is a reservation behind the file, no view is mapped elsewhere, and a view that gets a
tracker fills its units. -/
structure HarmlessMmap (mmapAlign pagesize : Nat) (a : MmapArgs) (o : MmapOutcome) : Prop where
  whole : ∀ size, FileReached a o size → Word.add (offsetWord a.offset) a.len ≤ size →
    a.offset + a.len ≤ size
  stays : ∀ size reserved, FileReached a o size → size < Word.add (offsetWord a.offset) a.len →
    o.reserved = some reserved →
    Word.ceil (fileLenOf size a.offset a.len) mmapAlign < Word.ceil a.len mmapAlign →
    a.flags.fixed = false → o.hinted = none →
    ∀ base, o.retried = some base → base = reserved
  anonUnits : a.flags.anon = true → o.createMapping = true → o.Viewed → o.mtAlloc = true →
    FillsUnits mmapAlign pagesize a.len
  fileUnits : ∀ size, FileReached a o size → ReservationKept a o size → o.Viewed →
    FillsUnits mmapAlign pagesize (fileLenOf size a.offset a.len)

namespace Sound

/-- Two spare handles are closed, the second one first. -/
theorem closeBoth {first : Nat} {second : Option Nat}
    (sound : Sound mmapAlign s (first :: second.toList)) :
    Sound mmapAlign ((s.closeHandle second).closeHandle (some first)) [] := by
  obtain ⟨holding, backed, alive⟩ := sound
  have swapped : Sound mmapAlign s (second.toList ++ [first]) :=
    ⟨holding.reorder (List.perm_append_singleton first second.toList).symm, backed, alive⟩
  exact swapped.closeHandle.closeHandle

/-- A new mapping that has its memory is put into the list. -/
theorem insert (sound : Sound mmapAlign s (t.handles ++ spare)) (valid : Valid mmapAlign 0 t)
    (nonempty : t.baseAddress < t.endAddress)
    (free : ∀ u ∈ s.queue, u.endAddress ≤ t.baseAddress ∨ t.endAddress ≤ u.baseAddress)
    (mapped : t.fileMappingHandle.isSome = true) (backed : Backed s t) :
    Sound mmapAlign { s with queue := sortedqInsert t s.queue } spare where
  holding := sound.holding.insert valid nonempty free mapped
  backed := by
    intro u inQueue
    rcases RangeQueue.mem_insertBefore.mp inQueue with rfl | member
    · exact ⟨backed.inside, backed.view, backed.reserved⟩
    · have kept := sound.backed u member
      exact ⟨kept.inside, kept.view, kept.reserved⟩
  alive := sound.alive

end Sound

/-- There is room for a mapping at a base: the part behind the file is reserved, and no other
mapping is there. -/
structure Room (mmapAlign : Nat) (s : WinState) (a : MmapArgs) (filelen base : Nat) : Prop where
  aligned : mmapAlign ∣ base
  positive : 0 < Word.ceil a.len mmapAlign
  shorter : Word.ceil filelen mmapAlign ≤ Word.ceil a.len mmapAlign
  below : base + Word.ceil a.len mmapAlign ≤ 2 ^ 63
  tail : ∀ x, base + Word.ceil filelen mmapAlign ≤ x → x < base + Word.ceil a.len mmapAlign →
    s.reserved x = true
  apart : ∀ t ∈ s.queue, t.endAddress ≤ base ∨ base + Word.ceil a.len mmapAlign ≤ t.baseAddress

/-- The part of `mmap` from `CreateFileMapping` on. -/
theorem Sound.mmapMap {a : MmapArgs} {access : FileMapAccess} {fh : Option Nat} {offset : Int}
    {filelen : Nat} {o : MmapOutcome} (sound : Sound mmapAlign s fh.toList)
    (room : o.createMapping = true → o.mtAlloc = true → ∀ base,
      o.base addr a.flags.fixed = some base →
        FillsUnits mmapAlign pagesize filelen ∧ Room mmapAlign s a filelen base) :
    Sound mmapAlign (s.mmapMap mmapAlign pagesize a access fh offset filelen addr o).1 [] := by
  unfold WinState.mmapMap
  split
  · refine Sound.closeHandle ?_
    rwa [List.append_nil]
  rename_i creates
  have created : o.createMapping = true := Decidable.not_not.mp creates
  have opened := sound.openHandle
  dsimp only
  split
  · exact opened.closeBoth
  rename_i base base_eq
  have keeps : KeepsMemory 0 0 s.openHandle
      (s.openHandle.mapViewOfFileEx base (Word.ceil filelen pagesize)) :=
    KeepsMemory.mapViewOfFileEx ..
  have only : MemoryOnly s.openHandle
      (s.openHandle.mapViewOfFileEx base (Word.ceil filelen pagesize)) :=
    ⟨rfl, rfl, rfl, rfl, rfl⟩
  have mapped := opened.memory only keeps fun _ _ => Or.inr (Nat.zero_le _)
  split
  · exact mapped.closeBoth
  rename_i allocates
  obtain ⟨fills, aligned, positive, shorter, below, tail, apart⟩ :=
    room created (Decidable.not_not.mp allocates) base base_eq
  rw [fills] at mapped ⊢
  have := Word.modulus_eq
  have ends : Word.add base (Word.ceil a.len mmapAlign) = base + Word.ceil a.len mmapAlign :=
    Word.add_eq (by omega)
  have spare : Sound mmapAlign (s.openHandle.mapViewOfFileEx base (Word.ceil filelen mmapAlign))
      ((newMapping mmapAlign a access o fh s.nextHandle offset filelen base).handles ++ []) := by
    rw [List.append_nil]
    exact mapped
  refine spare.insert ⟨aligned, ?_, Nat.zero_le _, ?_, ?_⟩ ?_ ?_ rfl ⟨?_, ?_, ?_⟩
  · change mmapAlign ∣ Word.add base (Word.ceil a.len mmapAlign)
    rw [ends]
    exact Nat.dvd_add aligned (Word.dvd_ceil _ _)
  · change Word.add base (Word.ceil a.len mmapAlign) ≤ 0 + 2 ^ 63
    omega
  · exact Word.add_lt _ _
  · change base < Word.add base (Word.ceil a.len mmapAlign)
    omega
  · change ∀ t ∈ s.queue, t.endAddress ≤ base ∨
      Word.add base (Word.ceil a.len mmapAlign) ≤ t.baseAddress
    rw [ends]
    exact apart
  · change base + Word.ceil filelen mmapAlign ≤ Word.add base (Word.ceil a.len mmapAlign)
    omega
  · exact fun _ => List.mem_cons_self
  · intro x lower upper
    refine tail x lower ?_
    rw [← ends]
    exact upper

/-! ### What is given and what there is room for -/

variable {a : MmapArgs} {m : MmapOutcome} {size reserved base filelen : Nat}

/-- What is rounded up to something positive does not wrap. -/
theorem ceil_eq_roundUp (divides : mmapAlign ∣ Word.modulus) (fits : len < Word.modulus)
    (positive : 0 < Word.ceil len mmapAlign) : Word.ceil len mmapAlign = roundUp mmapAlign len := by
  have unit := Nat.le_of_dvd (by decide) divides
  unfold roundUp
  by_cases wraps : Word.modulus ≤ len + (mmapAlign - 1)
  · have small : Word.add len (mmapAlign - 1) < mmapAlign := by
      rw [Word.add_eq_of_wraps fits (by omega) wraps]
      omega
    unfold Word.ceil Word.floor at positive
    rw [Nat.div_eq_of_lt small, Nat.zero_mul] at positive
    exact absurd positive (lt_irrefl 0)
  · unfold Word.ceil
    rw [Word.add_eq (by omega)]

theorem roundUp_pos (positive : 0 < mmapAlign) (nonempty : 0 < len) :
    0 < roundUp mmapAlign len := lt_of_lt_of_le nonempty (le_roundUp positive len)

/-- Nor does what ends in the lower half of the address space. -/
theorem ceil_eq_of_below (divides : mmapAlign ∣ Word.modulus)
    (below : base + roundUp mmapAlign len ≤ 2 ^ 63) :
    Word.ceil len mmapAlign = roundUp mmapAlign len := by
  have positive : 0 < mmapAlign := Nat.pos_of_dvd_of_pos divides (by decide)
  have long := le_roundUp positive len
  have fits : roundUp mmapAlign len < Word.modulus := by
    have := Word.modulus_eq
    omega
  have unit := aligned_room divides (dvd_roundUp mmapAlign len) fits
  unfold Word.ceil roundUp
  rw [Word.add_eq (by omega)]

/-- Room for a whole view in free memory. -/
theorem Room.of_free (sound : Sound mmapAlign s spare) (divides : mmapAlign ∣ Word.modulus)
    (nonempty : 0 < a.len) (aligned : mmapAlign ∣ base)
    (below : base + roundUp mmapAlign a.len ≤ 2 ^ 63)
    (free : Free s base (roundUp mmapAlign a.len))
    (whole : Word.ceil filelen mmapAlign = roundUp mmapAlign a.len) :
    Room mmapAlign s a filelen base := by
  have positive : 0 < mmapAlign := Nat.pos_of_dvd_of_pos divides (by decide)
  have rounded := ceil_eq_of_below divides below
  have roundedPos := roundUp_pos positive nonempty
  refine ⟨aligned, ?_, ?_, ?_, fun x lower upper => ?_, fun t member => ?_⟩
  · rw [rounded]
    exact roundedPos
  · rw [rounded, whole]
  · rw [rounded]
    exact below
  · rw [whole] at lower
    rw [rounded] at upper
    omega
  · rw [rounded]
    exact (sound.backed t member).apart_free free roundedPos (sound.nonempty member)

/-- Both tries come to a base that one of them gave. -/
theorem MmapOutcome.given_of_base {fixed : Bool} (found : m.base addr fixed = some base) :
    m.hinted = some base ∨ m.retried = some base := by
  unfold MmapOutcome.base at found
  split at found
  · rename_i hinted
    cases found
    exact Or.inl hinted
  · split at found
    · cases found
    · exact Or.inr found

/-- Where the view stays at the hint. -/
theorem MmapOutcome.base_eq_hint {fixed : Bool} (given : ViewGiven mmapAlign s filelen addr m)
    (nonzero : addr ≠ 0) (stays : fixed = false → m.hinted = none →
      ∀ base, m.retried = some base → base = addr)
    (found : m.base addr fixed = some base) : base = addr := by
  unfold MmapOutcome.base at found
  split at found
  · rename_i hinted
    cases found
    exact given.hint nonzero _ hinted
  · rename_i missing
    split at found
    · cases found
    · rename_i retries
      refine stays ?_ missing base found
      exact Bool.eq_false_of_not_eq_true fun isFixed => retries (Or.inr isFixed)

/-- The part of a request that the file has. -/
theorem fileLenOf_le (size : Nat) (offset : Int) (len : Nat) : fileLenOf size offset len ≤ len := by
  unfold fileLenOf
  split <;> omega

theorem fileLenOf_whole {offset : Int} (whole : offset + len ≤ size) :
    fileLenOf size offset len = len := by
  unfold fileLenOf
  split <;> omega

/-- The part of a file is no longer than the request, rounded up. -/
theorem ceil_fileLenOf_le {offset : Int} (divides : mmapAlign ∣ Word.modulus)
    (fits : len < Word.modulus) (positive : 0 < Word.ceil len mmapAlign) :
    Word.ceil (fileLenOf size offset len) mmapAlign ≤ Word.ceil len mmapAlign := by
  rw [ceil_eq_roundUp divides fits positive]
  refine (ceil_le_roundUp _ mmapAlign).trans (Word.floor_mono ?_ mmapAlign)
  have := fileLenOf_le size offset len
  omega

namespace Sound

theorem reserve (sound : Sound mmapAlign s spare) (addr len : Nat) :
    Sound mmapAlign (s.mmapReserve addr len) spare := by
  have only : MemoryOnly s (s.mmapReserve addr len) := ⟨rfl, rfl, rfl, rfl, rfl⟩
  have keeps : KeepsMemory 0 0 s (s.mmapReserve addr len) := KeepsMemory.mmapReserve addr len s
  exact sound.memory only keeps fun _ _ => Or.inr (Nat.zero_le _)

/-- A range without mappings is unreserved. -/
theorem unreserve (sound : Sound mmapAlign s spare)
    (free : ∀ t ∈ s.queue, t.endAddress ≤ addr ∨ addr + len ≤ t.baseAddress) :
    Sound mmapAlign (s.mmapUnreserve addr len) spare :=
  sound.memory (MemoryOnly.mmapUnreserve s addr len)
    (KeepsMemory.mmapUnreserve le_rfl le_rfl s) free

/-- The part of `mmap` that looks at the file. -/
theorem mmapFile {access : FileMapAccess} {fh : Nat} (sound : Sound mmapAlign s [fh])
    (divides : mmapAlign ∣ Word.modulus) (nonempty : 0 < a.len) (fits : a.len < Word.modulus)
    (given : MmapGiven mmapAlign s a addr m) (harmless : HarmlessMmap mmapAlign pagesize a m)
    (atHint : a.flags.fixed = true → addr = a.addr)
    (reaches : ∀ size, m.fileSize = some size → a.offset < size → m.createMapping = true →
      m.mtAlloc = true → FileReached a m size) :
    Sound mmapAlign (s.mmapFile mmapAlign pagesize a access fh addr m).1 [] := by
  have closed {after : WinState} (soundAfter : Sound mmapAlign after [fh]) :
      Sound mmapAlign (after.closeHandle (some fh)) [] := Sound.closeHandle soundAfter
  unfold WinState.mmapFile
  split
  · exact closed sound
  rename_i size size_eq
  split
  · exact closed sound
  rename_i before
  have before : a.offset < size := Int.not_le.mp before
  dsimp only
  split
  · rename_i beyond
    split
    · exact closed sound
    rename_i reserved reserved_eq
    obtain ⟨aligned, nonzero, positive, below, free⟩ := given.reservation reserved reserved_eq
    have viewGiven := given.part size reserved size_eq reserved_eq beyond
    have shorter : Word.ceil (fileLenOf size a.offset a.len) mmapAlign ≤
        Word.ceil a.len mmapAlign := ceil_fileLenOf_le divides fits positive
    have apart : ∀ t ∈ s.queue, t.endAddress ≤ reserved ∨
        reserved + Word.ceil a.len mmapAlign ≤ t.baseAddress := fun t member =>
      (sound.backed t member).apart_free free positive (sound.nonempty member)
    have soundReserved := sound.reserve reserved (Word.ceil a.len mmapAlign)
    split
    · exact closed (soundReserved.unreserve apart)
    rename_i stays
    have kept : ReservationKept a m size := fun _ => ⟨reserved, reserved_eq, fun isFixed => by
      rw [← atHint isFixed]
      by_contra different
      exact stays ⟨Ne.symm different, isFixed⟩⟩
    have keeps := KeepsMemory.mmapUnreserve (le_refl reserved)
      (le_refl (reserved + Word.ceil (fileLenOf size a.offset a.len) mmapAlign))
      (s.mmapReserve reserved (Word.ceil a.len mmapAlign))
    have soundPart : Sound mmapAlign
        (s.reservedFor mmapAlign a (fileLenOf size a.offset a.len) reserved) [fh] := by
      refine soundReserved.unreserve fun t member => ?_
      have := apart t member
      omega
    refine Sound.mmapMap soundPart fun created allocated base found => ?_
    have reached := reaches size size_eq before created allocated
    refine ⟨harmless.fileUnits size reached kept ⟨base, m.given_of_base found⟩, ?_⟩
    rcases Nat.lt_or_ge (Word.ceil (fileLenOf size a.offset a.len) mmapAlign)
      (Word.ceil a.len mmapAlign) with tail | whole
    · have stays : base = reserved := MmapOutcome.base_eq_hint viewGiven (by omega)
        (fun notFixed missing => harmless.stays size reserved reached beyond reserved_eq tail
          notFixed missing) found
      subst stays
      refine ⟨aligned, positive, shorter, below, fun x lower upper => ?_, ?_⟩
      · exact keeps.reserved x (Or.inr lower) (decide_eq_true (Or.inl ⟨by omega, upper⟩))
      · change ∀ t ∈ (WinState.reservedFor ..).queue, _
        unfold WinState.reservedFor
        rw [(MemoryOnly.mmapUnreserve _ _ _).queue]
        exact apart
    · have same : Word.ceil (fileLenOf size a.offset a.len) mmapAlign =
          Word.ceil a.len mmapAlign := le_antisymm shorter whole
      have rounded := ceil_eq_roundUp divides fits positive
      have roundedPart := ceil_eq_roundUp divides
        (lt_of_le_of_lt (fileLenOf_le size a.offset a.len) fits) (same ▸ positive)
      obtain ⟨baseAligned, baseBelow, baseFree⟩ := viewGiven.memory base (m.given_of_base found)
      rw [← roundedPart, same, rounded] at baseBelow baseFree
      exact Room.of_free soundPart divides nonempty baseAligned baseBelow baseFree
        (same.trans rounded)
  · rename_i within
    have inside : Word.add (offsetWord a.offset) a.len ≤ size := Nat.le_of_not_lt within
    have viewGiven := given.whole size size_eq inside
    refine Sound.mmapMap sound fun created allocated base found => ?_
    have reached := reaches size size_eq before created allocated
    have kept : ReservationKept a m size := fun beyond => absurd inside (Nat.not_le.mpr beyond)
    refine ⟨harmless.fileUnits size reached kept ⟨base, m.given_of_base found⟩, ?_⟩
    have whole := fileLenOf_whole (harmless.whole size reached inside)
    rw [whole] at viewGiven ⊢
    obtain ⟨baseAligned, baseBelow, baseFree⟩ := viewGiven.memory base (m.given_of_base found)
    exact Room.of_free sound divides nonempty baseAligned baseBelow baseFree
      (ceil_eq_of_below divides baseBelow)

end Sound

/-- What is given does not depend on handles. -/
theorem ViewGiven.openHandle (given : ViewGiven mmapAlign s filelen addr m) :
    ViewGiven mmapAlign s.openHandle filelen addr m := ⟨given.hint, given.memory⟩

theorem reservedFor_openHandle (s : WinState) (a : MmapArgs) (filelen reserved : Nat) :
    s.openHandle.reservedFor mmapAlign a filelen reserved =
      (s.reservedFor mmapAlign a filelen reserved).openHandle := by
  unfold WinState.reservedFor WinState.mmapUnreserve
  by_cases held : (s.mmapReserve reserved (Word.ceil a.len mmapAlign)).reserved reserved = true
  · rw [if_pos held]
    exact if_pos held
  · rw [if_neg held]
    exact if_neg held

theorem MmapGiven.openHandle (given : MmapGiven mmapAlign s a addr m) :
    MmapGiven mmapAlign s.openHandle a addr m where
  anon := fun anon => (given.anon anon).openHandle
  reservation := given.reservation
  whole := fun size size_eq within => (given.whole size size_eq within).openHandle
  part := by
    intro size reserved size_eq reserved_eq beyond
    rw [reservedFor_openHandle]
    exact (given.part size reserved size_eq reserved_eq beyond).openHandle

/-- The part of `mmap` behind the `munmap` for `MAP_FIXED`. -/
theorem Sound.mmapBody {access : FileMapAccess} (sound : Sound mmapAlign s [])
    (divides : mmapAlign ∣ Word.modulus) (nonempty : 0 < a.len) (fits : a.len < Word.modulus)
    (given : MmapGiven mmapAlign s a addr m) (harmless : HarmlessMmap mmapAlign pagesize a m)
    (atHint : a.flags.fixed = true → addr = a.addr) :
    Sound mmapAlign (s.mmapBody mmapAlign pagesize a access addr m).1 [] := by
  unfold WinState.mmapBody
  split
  · rename_i anon
    refine Sound.mmapMap sound fun created allocated base found => ?_
    obtain ⟨aligned, below, free⟩ := (given.anon anon).memory base (m.given_of_base found)
    refine ⟨harmless.anonUnits anon created ⟨base, m.given_of_base found⟩ allocated, ?_⟩
    exact Room.of_free sound divides nonempty aligned below free (ceil_eq_of_below divides below)
  rename_i isFile
  have file : a.flags.anon = false := Bool.eq_false_of_not_eq_true isFile
  split
  · exact sound
  rename_i descriptor
  split
  · exact sound
  rename_i duplicates
  have handle : m.dupFile = true := Decidable.not_not.mp duplicates
  exact sound.openHandle.mmapFile divides nonempty fits given.openHandle harmless atHint
    fun size size_eq before created allocated =>
      ⟨file, descriptor, handle, size_eq, before, created, allocated⟩

end Windows
end Vmem
