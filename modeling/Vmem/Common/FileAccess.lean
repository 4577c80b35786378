import Vmem.Library.Signed

/-!
# Access to files and devices

`util_file_pread` and `util_file_pwrite` use the system calls for ordinary files; for a Device DAX
they map the device and copy.  `util_file_zero` maps in both cases.  How much is copied or cleared
is computed from offset, length and size in words of 64 bits.

Bytes of a device are counted from the start of the mapping; the bytes before it and behind its end
belong to something else.
-/

namespace Vmem
namespace Common

/-- A byte. -/
abbrev Byte := BitVec 8

/-- `enum file_type`. -/
inductive FileType
  | otherError
  | notExists
  | typeNormal
  | typeDevdax
  deriving DecidableEq, Repr

/-- What the functions find out about a file: what `util_file_get_size` returns, and whether it can
be opened and mapped. -/
structure Device where
  size : BitVec 64
  opens : Bool
  maps : Bool

/-- Whether `util_map` of the whole file succeeds; `mmap` refuses an empty range. -/
def Device.mapped (device : Device) : Bool := device.maps && device.size != 0

/-- Whether `util_file_map_whole` succeeds. -/
def Device.mappedWhole (device : Device) : Bool :=
  device.opens && 0 ≤ device.size.toInt && device.mapped

/-- A function's result, what it has written, the bytes of the mapping that it touched, as their
first one and their number, and for each conversion, sum and difference the number that goes in or
would be exact and the one that the machine has. -/
structure Transfer (μ : Type) where
  ret : Int
  memory : μ
  touched : Option (Int × Nat)
  steps : List (Int × Int)

/-- The part of `util_file_pread` and `util_file_pwrite` for devices.  `copy` is what `memcpy` of a
number of bytes makes of the memory that it writes to. -/
def mappedTransfer {μ : Type} (device : Device) (memory : μ) (copy : Nat → μ)
    (size offset : BitVec 64) : Transfer μ :=
  let fileSize := device.size.toInt
  if fileSize < 0 then ⟨-1, memory, none, []⟩
  else
    let difference := fileSize - offset.toInt
    let maxSize := toUInt64 (toInt64 difference)
    let steps := [(difference, toInt64 difference), (toInt64 difference, (maxSize : Int))]
    let size := if size.toNat > maxSize then maxSize else size.toNat
    if device.mappedWhole then ⟨toInt64 size, copy size, some (offset.toInt, size), steps⟩
    else ⟨-1, memory, none, steps⟩

/-- Copy from a buffer to a device. -/
def copyToDevice (contents : Int → Byte) (buffer : Nat → Byte) (offset : Int) (count : Nat) :
    Int → Byte :=
  fun i => if offset ≤ i ∧ i < offset + count then buffer (i - offset).toNat else contents i

/-- Copy from a device to a buffer. -/
def copyFromDevice (contents : Int → Byte) (buffer : Nat → Byte) (offset : Int) (count : Nat) :
    Nat → Byte :=
  fun i => if i < count then contents (offset + i) else buffer i

/-- `util_file_pwrite`.  `ordinary` is what opening an ordinary file and `pwrite` give. -/
def utilFilePwrite (type : FileType) (ordinary : Transfer (Int → Byte)) (device : Device)
    (contents : Int → Byte) (buffer : Nat → Byte) (size offset : BitVec 64) :
    Transfer (Int → Byte) :=
  match type with
  | .otherError | .notExists => ⟨-1, contents, none, []⟩
  | .typeNormal => ordinary
  | .typeDevdax =>
      mappedTransfer device contents (copyToDevice contents buffer offset.toInt) size offset

/-- `util_file_pread`. -/
def utilFilePread (type : FileType) (ordinary : Transfer (Nat → Byte)) (device : Device)
    (contents : Int → Byte) (buffer : Nat → Byte) (size offset : BitVec 64) :
    Transfer (Nat → Byte) :=
  match type with
  | .otherError | .notExists => ⟨-1, buffer, none, []⟩
  | .typeNormal => ordinary
  | .typeDevdax =>
      mappedTransfer device buffer (copyFromDevice contents buffer offset.toInt) size offset

/-- `memset` with zeros. -/
def clear (contents : Int → Byte) (first : Int) (count : Nat) : Int → Byte :=
  fun i => if first ≤ i ∧ i < first + count then 0 else contents i

/-- `util_file_zero`. -/
def utilFileZero (device : Device) (contents : Int → Byte) (off len : BitVec 64) :
    Transfer (Int → Byte) :=
  let size := device.size.toInt
  if device.opens = false ∨ size < 0 then ⟨-1, contents, none, []⟩
  else if off.toInt > size then ⟨-1, contents, none, []⟩
  else
    let start := toUInt64 off.toInt
    let sum := toUInt64 (start + len.toNat)
    let sumSteps : List (Int × Int) := [(off.toInt, start), (start + len.toNat, sum)]
    let difference := size - off.toInt
    let wide := sum > toUInt64 size
    let rest := toUInt64 (toInt64 difference)
    let steps := if wide then
        sumSteps ++ [(difference, toInt64 difference), (toInt64 difference, (rest : Int))]
      else sumSteps
    let len := if wide then rest else len.toNat
    if device.mapped then ⟨0, clear contents off.toInt len, some (off.toInt, len), steps⟩
    else ⟨-1, contents, none, steps⟩

/-! ## Files of a fixed size -/

/-- No number was changed by a conversion, a sum or a difference. -/
def Transfer.Exact {μ : Type} (transfer : Transfer μ) : Prop :=
  ∀ step ∈ transfer.steps, step.1 = step.2

/-- Nothing was done. -/
def Transfer.Refused {μ : Type} (transfer : Transfer μ) (memory : μ) : Prop :=
  transfer.ret = -1 ∧ transfer.touched = none ∧ transfer.memory = memory

/-- All bytes touched are bytes of the mapping, from an offset on and before an end. -/
def Transfer.Within {μ : Type} (transfer : Transfer μ) (fileSize offset stop : Int) : Prop :=
  ∀ first count, transfer.touched = some (first, count) →
    ∀ i, first ≤ i → i < first + count → 0 ≤ i ∧ i < fileSize ∧ offset ≤ i ∧ i < stop

/-- How many bytes `pread` and `pwrite` transfer for a file of a fixed size. -/
def fileCount (fileSize offset : Int) (size : Nat) : Nat := min size (fileSize - offset).toNat

/-- A transfer is like that of `pread` or `pwrite` on a file of the device's size: only bytes
between the offset and the end are touched, as many as for the file are transferred and returned,
and an error is returned for an offset outside of the file or if the device cannot be mapped. -/
structure LikeFile {μ : Type} (device : Device) (memory : μ) (copy : Nat → μ)
    (size offset : BitVec 64) (transfer : Transfer μ) : Prop where
  exact : transfer.Exact
  within : transfer.Within device.size.toInt offset.toInt
    (min (offset.toInt + size.toNat) device.size.toInt)
  outcome : transfer.Refused memory ∧
      (offset.toInt < 0 ∨ device.size.toInt ≤ offset.toInt ∨ device.mappedWhole = false) ∨
    0 ≤ offset.toInt ∧ transfer.ret = fileCount device.size.toInt offset.toInt size.toNat ∧
      transfer.memory = copy (fileCount device.size.toInt offset.toInt size.toNat)

/-- The range from an offset on is cleared as far as the file goes, or nothing is done. -/
structure ClearsRange (device : Device) (contents : Int → Byte) (off len : BitVec 64)
    (transfer : Transfer (Int → Byte)) : Prop where
  exact : transfer.Exact
  within : transfer.Within device.size.toInt off.toInt
    (min (off.toInt + len.toNat) device.size.toInt)
  outcome : transfer.Refused contents ∨
    transfer.ret = 0 ∧ transfer.memory = fun i =>
      if off.toInt ≤ i ∧ i < min (off.toInt + len.toNat) device.size.toInt then 0 else contents i

/-! ## Copying -/

section Copying

variable {μ : Type} {device : Device} {memory : μ} {copy : Nat → μ} {size offset : BitVec 64}

/-- A difference keeps its value in a `ssize_t` and then in a `size_t` if it is not negative and
fits. -/
theorem difference_exact_iff (n : Int) :
    (∀ step ∈ [(n, toInt64 n), (toInt64 n, (toUInt64 (toInt64 n) : Int))], step.1 = step.2) ↔
      0 ≤ n ∧ n < 9223372036854775808 := by
  rw [List.forall_mem_cons, List.forall_mem_singleton]
  constructor
  · rintro ⟨signed, unsigned⟩
    have same : n = toInt64 n := signed
    have other : toInt64 n = toUInt64 (toInt64 n) := unsigned
    rw [← same] at other
    exact ⟨(toUInt64_eq_self_iff.mp other).1, (toInt64_eq_self_iff.mp same).2⟩
  · rintro ⟨lower, upper⟩
    have same : n = toInt64 n := toInt64_eq_self_iff.mpr ⟨by omega, upper⟩
    rw [← same]
    exact ⟨rfl, toUInt64_eq_self_iff.mpr ⟨lower, by omega⟩⟩

theorem mappedTransfer_of_negative (negative : device.size.toInt < 0) :
    mappedTransfer device memory copy size offset = ⟨-1, memory, none, []⟩ :=
  if_pos negative

theorem mappedTransfer_steps (known : ¬device.size.toInt < 0) :
    (mappedTransfer device memory copy size offset).steps =
      [(device.size.toInt - offset.toInt, toInt64 (device.size.toInt - offset.toInt)),
        (toInt64 (device.size.toInt - offset.toInt),
          (toUInt64 (toInt64 (device.size.toInt - offset.toInt)) : Int))] := by
  simp only [mappedTransfer, if_neg known]
  split <;> rfl

theorem mappedTransfer_of_unmapped (unmapped : device.mappedWhole = false) :
    (mappedTransfer device memory copy size offset).Refused memory := by
  simp only [mappedTransfer]
  split
  · exact ⟨rfl, rfl, rfl⟩
  · rw [if_neg (by rw [unmapped]; exact Bool.false_ne_true)]
    exact ⟨rfl, rfl, rfl⟩

/-- When the difference is exact, as much is copied as there is. -/
theorem mappedTransfer_of_mapped (memory : μ) (copy : Nat → μ) (size : BitVec 64)
    (mapped : device.mappedWhole = true) (known : ¬device.size.toInt < 0)
    (lower : 0 ≤ device.size.toInt - offset.toInt)
    (upper : device.size.toInt - offset.toInt < 9223372036854775808) :
    ∃ steps, mappedTransfer device memory copy size offset =
      ⟨fileCount device.size.toInt offset.toInt size.toNat,
        copy (fileCount device.size.toInt offset.toInt size.toNat),
        some (offset.toInt, fileCount device.size.toInt offset.toInt size.toNat), steps⟩ := by
  have signed := toInt64_of_fits (by omega) upper
  have unsigned := toUInt64_of_nonneg lower (by omega)
  have count : (if size.toNat > toUInt64 (device.size.toInt - offset.toInt) then
      toUInt64 (device.size.toInt - offset.toInt) else size.toNat) =
      fileCount device.size.toInt offset.toInt size.toNat := by
    unfold fileCount
    split <;> omega
  have small : (fileCount device.size.toInt offset.toInt size.toNat : Int) <
      9223372036854775808 := by
    unfold fileCount
    omega
  simp only [mappedTransfer, if_neg known, mapped, if_true, signed, count,
    toInt64_of_fits (Int.le_trans (by decide) (Int.natCast_nonneg _)) small]
  exact ⟨_, rfl⟩

theorem not_mappedWhole_of_negative (negative : device.size.toInt < 0) :
    device.mappedWhole = false := by
  unfold Device.mappedWhole
  rw [decide_eq_false (Int.not_le.mpr negative), Bool.and_false, Bool.false_and]

/-- A refused transfer touches nothing. -/
theorem Transfer.Refused.within {transfer : Transfer μ} (refused : transfer.Refused memory)
    (fileSize start stop : Int) : transfer.Within fileSize start stop := by
  intro first count touched
  rw [refused.2.1] at touched
  cases touched

/-- Copying to or from a device is like reading or writing a file exactly if the offset is not
behind the end, nor so far before the start that the difference does not fit, and the start of the
mapping is not passed unless nothing is mapped. -/
theorem mappedTransfer_likeFile_iff :
    LikeFile device memory copy size offset (mappedTransfer device memory copy size offset) ↔
      device.size.toInt < 0 ∨
        0 ≤ device.size.toInt - offset.toInt ∧
          device.size.toInt - offset.toInt < 9223372036854775808 ∧
          (0 ≤ offset.toInt ∨ device.mappedWhole = false) := by
  by_cases negative : device.size.toInt < 0
  · have unmapped := not_mappedWhole_of_negative negative
    have refused : (mappedTransfer device memory copy size offset).Refused memory :=
      mappedTransfer_of_unmapped unmapped
    refine ⟨fun _ => .inl negative, fun _ => ⟨?_, refused.within _ _ _, .inl ⟨refused, ?_⟩⟩⟩
    · rw [mappedTransfer_of_negative negative]
      exact nofun
    · exact .inr (.inr unmapped)
  · constructor
    · rintro ⟨exact, within, outcome⟩
      unfold Transfer.Exact at exact
      rw [mappedTransfer_steps negative, difference_exact_iff] at exact
      refine .inr ⟨exact.1, exact.2, ?_⟩
      rcases outcome with ⟨refused, _⟩ | ⟨inside, _⟩
      · cases mapped : device.mappedWhole with
        | false => exact .inr rfl
        | true =>
            obtain ⟨steps, result⟩ :=
              mappedTransfer_of_mapped memory copy size mapped negative exact.1 exact.2
            rw [result] at refused
            cases refused.2.1
      · exact .inl inside
    · rintro (unknown | ⟨lower, upper, place⟩)
      · exact absurd unknown negative
      · have exact : (mappedTransfer device memory copy size offset).Exact := by
          unfold Transfer.Exact
          rw [mappedTransfer_steps negative, difference_exact_iff]
          exact ⟨lower, upper⟩
        cases mapped : device.mappedWhole with
        | false =>
            have refused : (mappedTransfer device memory copy size offset).Refused memory :=
              mappedTransfer_of_unmapped mapped
            exact ⟨exact, refused.within _ _ _, .inl ⟨refused, .inr (.inr mapped)⟩⟩
        | true =>
            have inside := place.resolve_right (by rw [mapped]; exact Bool.noConfusion)
            obtain ⟨steps, result⟩ :=
              mappedTransfer_of_mapped memory copy size mapped negative lower upper
            refine ⟨exact, ?_, .inr ?_⟩
            · rw [result]
              intro first count touched i after before
              cases touched
              unfold fileCount at before
              omega
            · rw [result]
              exact ⟨inside, rfl, rfl⟩

end Copying

/-! ## Clearing -/

section Clearing

variable {device : Device} {contents : Int → Byte} {off len : BitVec 64}

/-- `util_file_zero` returns before it computes anything. -/
theorem utilFileZero_of_refused
    (refused : device.opens = false ∨ device.size.toInt < 0 ∨ device.size.toInt < off.toInt) :
    utilFileZero device contents off len = ⟨-1, contents, none, []⟩ := by
  simp only [utilFileZero]
  split
  · rfl
  · rw [if_pos]
    rename_i goesOn
    rw [not_or] at goesOn
    rcases refused with closed | negative | behind
    · exact absurd closed goesOn.1
    · exact absurd negative goesOn.2
    · exact behind

/-- Otherwise the offset and its sum with the length are made words, and the difference only if the
sum is larger than the size. -/
theorem utilFileZero_steps (contents : Int → Byte) (len : BitVec 64) (opens : device.opens ≠ false)
    (known : ¬device.size.toInt < 0) (inside : ¬device.size.toInt < off.toInt) :
    ∃ more, (utilFileZero device contents off len).steps =
      [(off.toInt, (toUInt64 off.toInt : Int)),
        ((toUInt64 off.toInt : Int) + len.toNat,
          (toUInt64 (toUInt64 off.toInt + len.toNat) : Int))] ++ more := by
  simp only [utilFileZero]
  rw [if_neg (not_or.mpr ⟨opens, known⟩), if_neg inside]
  by_cases wide : toUInt64 (toUInt64 off.toInt + len.toNat) > toUInt64 device.size.toInt
  · refine ⟨[(device.size.toInt - off.toInt, toInt64 (device.size.toInt - off.toInt)),
      (toInt64 (device.size.toInt - off.toInt),
        (toUInt64 (toInt64 (device.size.toInt - off.toInt)) : Int))], ?_⟩
    rw [if_pos wide]
    split <;> rfl
  · refine ⟨[], ?_⟩
    rw [if_neg wide]
    split <;> rfl

/-- When the sum is exact, all steps are, and the range up to the end of the file is cleared if it
is mapped. -/
theorem utilFileZero_of_exact (contents : Int → Byte) (opens : device.opens ≠ false)
    (known : ¬device.size.toInt < 0) (inside : ¬device.size.toInt < off.toInt)
    (nonneg : 0 ≤ off.toInt) (fits : off.toInt + len.toNat < 18446744073709551616) :
    ∃ steps, (∀ step ∈ steps, step.1 = step.2) ∧ utilFileZero device contents off len =
      if device.mapped then
        ⟨0, clear contents off.toInt (fileCount device.size.toInt off.toInt len.toNat),
          some (off.toInt, fileCount device.size.toInt off.toInt len.toNat), steps⟩
      else ⟨-1, contents, none, steps⟩ := by
  have sizeFits : device.size.toInt < 9223372036854775808 := BitVec.toInt_lt
  have start : (toUInt64 off.toInt : Int) = off.toInt := toUInt64_of_nonneg nonneg (by omega)
  have sum : (toUInt64 (off.toInt + len.toNat) : Int) = off.toInt + len.toNat :=
    toUInt64_of_nonneg (by omega) fits
  have whole : (toUInt64 device.size.toInt : Int) = device.size.toInt :=
    toUInt64_of_nonneg (by omega) (by omega)
  have signed : toInt64 (device.size.toInt - off.toInt) = device.size.toInt - off.toInt :=
    toInt64_of_fits (by omega) (by omega)
  have rest : (toUInt64 (device.size.toInt - off.toInt) : Int) = device.size.toInt - off.toInt :=
    toUInt64_of_nonneg (by omega) (by omega)
  have firstSteps : ∀ step ∈ [(off.toInt, off.toInt),
      (off.toInt + (len.toNat : Int), off.toInt + (len.toNat : Int))], step.1 = step.2 :=
    List.forall_mem_cons.mpr ⟨rfl, List.forall_mem_singleton.mpr rfl⟩
  simp only [utilFileZero, start]
  rw [if_neg (not_or.mpr ⟨opens, known⟩), if_neg inside]
  by_cases wide : toUInt64 (off.toInt + len.toNat) > toUInt64 device.size.toInt
  · have count : fileCount device.size.toInt off.toInt len.toNat =
        toUInt64 (device.size.toInt - off.toInt) := by
      unfold fileCount
      omega
    simp only [if_pos wide, sum, signed, rest, count]
    refine ⟨_, List.forall_mem_append.mpr ⟨firstSteps, ?_⟩, rfl⟩
    exact List.forall_mem_cons.mpr ⟨rfl, List.forall_mem_singleton.mpr rfl⟩
  · have count : fileCount device.size.toInt off.toInt len.toNat = len.toNat := by
      unfold fileCount
      omega
    simp only [if_neg wide, sum, count]
    exact ⟨_, firstSteps, rfl⟩

/-- `util_file_zero` clears the range, or nothing, exactly if it refuses or the offset is not
negative and its sum with the length fits into a word. -/
theorem utilFileZero_clearsRange_iff :
    ClearsRange device contents off len (utilFileZero device contents off len) ↔
      (device.opens = false ∨ device.size.toInt < 0 ∨ device.size.toInt < off.toInt) ∨
        0 ≤ off.toInt ∧ off.toInt + len.toNat < 18446744073709551616 := by
  by_cases refused : device.opens = false ∨ device.size.toInt < 0 ∨ device.size.toInt < off.toInt
  · refine ⟨fun _ => .inl refused, fun _ => ?_⟩
    rw [utilFileZero_of_refused refused]
    exact ⟨nofun, nofun, .inl ⟨rfl, rfl, rfl⟩⟩
  · have goesOn := refused
    rw [not_or, not_or] at goesOn
    obtain ⟨opens, known, inside⟩ := goesOn
    constructor
    · rintro ⟨exact, _, _⟩
      obtain ⟨more, steps⟩ := utilFileZero_steps contents len opens known inside
      unfold Transfer.Exact at exact
      rw [steps, List.forall_mem_append, List.forall_mem_cons, List.forall_mem_singleton] at exact
      obtain ⟨⟨start, sum⟩, _⟩ := exact
      have same : off.toInt = toUInt64 off.toInt := start
      have sumSame : (toUInt64 off.toInt : Int) + len.toNat =
        toUInt64 (toUInt64 off.toInt + len.toNat) := sum
      rw [← same] at sumSame
      exact .inr ⟨(toUInt64_eq_self_iff.mp same).1, (toUInt64_eq_self_iff.mp sumSame).2⟩
    · rintro (refusal | ⟨nonneg, fits⟩)
      · exact absurd refusal refused
      · obtain ⟨steps, exact, result⟩ :=
          utilFileZero_of_exact contents opens known inside nonneg fits
        rw [result]
        cases device.mapped with
        | false => exact ⟨exact, nofun, .inl ⟨rfl, rfl, rfl⟩⟩
        | true =>
            refine ⟨exact, ?_, .inr ⟨rfl, ?_⟩⟩
            · intro first count touched i after before
              cases touched
              unfold fileCount at before
              omega
            · funext i
              have range : (off.toInt ≤ i ∧
                  i < off.toInt + fileCount device.size.toInt off.toInt len.toNat) ↔
                  off.toInt ≤ i ∧ i < min (off.toInt + len.toNat) device.size.toInt := by
                unfold fileCount
                omega
              change clear contents off.toInt _ i = _
              simp only [clear, range]

end Clearing

/-- A device is read and written like a file of its size exactly if the offset is not behind its
end, does not wrap the difference, and is not negative where the device is mapped; and it is cleared
like one exactly if the offset is behind the end, or is not negative and its sum with the length is
a word. -/
theorem deviceAccess_iff (device : Device) (contents : Int → Byte) (buffer : Nat → Byte)
    (size offset : BitVec 64) (read : Transfer (Nat → Byte)) (write : Transfer (Int → Byte)) :
    (LikeFile device buffer (copyFromDevice contents buffer offset.toInt) size offset
        (utilFilePread .typeDevdax read device contents buffer size offset) ↔
      device.size.toInt < 0 ∨
        0 ≤ device.size.toInt - offset.toInt ∧
          device.size.toInt - offset.toInt < 9223372036854775808 ∧
          (0 ≤ offset.toInt ∨ device.mappedWhole = false)) ∧
    (LikeFile device contents (copyToDevice contents buffer offset.toInt) size offset
        (utilFilePwrite .typeDevdax write device contents buffer size offset) ↔
      device.size.toInt < 0 ∨
        0 ≤ device.size.toInt - offset.toInt ∧
          device.size.toInt - offset.toInt < 9223372036854775808 ∧
          (0 ≤ offset.toInt ∨ device.mappedWhole = false)) ∧
    (ClearsRange device contents offset size (utilFileZero device contents offset size) ↔
      (device.opens = false ∨ device.size.toInt < 0 ∨ device.size.toInt < offset.toInt) ∨
        0 ≤ offset.toInt ∧ offset.toInt + size.toNat < 18446744073709551616) :=
  ⟨mappedTransfer_likeFile_iff, mappedTransfer_likeFile_iff, utilFileZero_clearsRange_iff⟩

/-- A device of one page: reading and writing a byte behind its end, and clearing the whole device
and more from offset 1 on. -/
theorem deviceAccess_fails :
    ∃ (device : Device) (contents : Int → Byte) (buffer : Nat → Byte) (one offset many : BitVec 64)
      (read : Transfer (Nat → Byte)) (write : Transfer (Int → Byte)),
      ¬LikeFile device buffer (copyFromDevice contents buffer offset.toInt) one offset
        (utilFilePread .typeDevdax read device contents buffer one offset) ∧
      ¬LikeFile device contents (copyToDevice contents buffer offset.toInt) one offset
        (utilFilePwrite .typeDevdax write device contents buffer one offset) ∧
      ¬ClearsRange device contents one many (utilFileZero device contents one many) := by
  refine ⟨⟨4096, true, true⟩, fun _ => 0, fun _ => 0, 1, 4097, -1, ⟨0, fun _ => 0, none, []⟩,
    ⟨0, fun _ => 0, none, []⟩, ?_, ?_, ?_⟩
  · exact fun like => absurd (mappedTransfer_likeFile_iff.mp like) (by decide)
  · exact fun like => absurd (mappedTransfer_likeFile_iff.mp like) (by decide)
  · exact fun clears => absurd (utilFileZero_clearsRange_iff.mp clears) (by decide)

end Common
end Vmem
