import Mathlib.Data.BitVec
import Vmem.Library.DoubleSum
import Vmem.Library.Word

/-!
# Checksums

`util_checksum_compute` is a Fletcher checksum of a buffer in which the place of the checksum
itself, and everything behind an offset, count as zeros.  `util_checksum_seq` is the plain
checksum, which goes on from that of another buffer.

A buffer is its bytes; pointers into it are offsets from its start.  Only `skip` is an address,
since the sum of the buffer's address and the offset can wrap.  `p32` goes at most one word behind
the end of the buffer, which has to have an address too.
-/

namespace Vmem
namespace Common

/-- The bytes of a buffer, and of whatever lies behind it. -/
abbrev Buffer := Nat → BitVec 8

namespace Buffer

/-- `le32toh(*p32)`. -/
def word (buf : Buffer) (off : Nat) : BitVec 32 :=
  buf (off + 3) ++ buf (off + 2) ++ buf (off + 1) ++ buf off

/-- `le64toh` of the eight bytes at an offset. -/
def long (buf : Buffer) (off : Nat) : BitVec 64 := buf.word (off + 4) ++ buf.word off

/-- Store a number in little endian order. -/
def store {bits : Nat} (buf : Buffer) (off bytes : Nat) (value : BitVec bits) : Buffer :=
  fun i => if off ≤ i ∧ i < off + bytes then value.extractLsb' (8 * (i - off)) 8 else buf i

/-- The buffer with another one behind its first `length` bytes. -/
def append (first : Buffer) (length : Nat) (second : Buffer) : Buffer :=
  fun i => if i < length then first i else second (i - length)

end Buffer

/-- The variables of the loops. -/
structure ChecksumState where
  p32 : Nat
  lo32 : BitVec 32
  hi32 : BitVec 32

/-- The value that both functions return. -/
def checksumOf (lo32 hi32 : BitVec 32) : BitVec 64 := hi32.setWidth 64 <<< 32 ||| lo32.setWidth 64

/-- The body of the loop of `util_checksum_compute`. -/
def computeStep (buf : Buffer) (addr csump skip : Nat) (s : ChecksumState) : ChecksumState :=
  if s.p32 = csump ∨ addr + s.p32 ≥ skip then
    { p32 := s.p32 + 4 + 4, lo32 := s.lo32, hi32 := s.hi32 + s.lo32 + s.lo32 }
  else
    let lo32 := s.lo32 + buf.word s.p32
    { p32 := s.p32 + 4, lo32 := lo32, hi32 := s.hi32 + lo32 }

/-- The loop of `util_checksum_compute`.  Each round moves `p32` on, so a round for each byte is
enough. -/
def computeLoop (buf : Buffer) (addr csump skip p32end : Nat) :
    Nat → ChecksumState → ChecksumState
  | 0, s => s
  | fuel + 1, s =>
      if s.p32 < p32end then
        computeLoop buf addr csump skip p32end fuel (computeStep buf addr csump skip s)
      else s

/-- `util_checksum_compute` of a buffer at `addr`; `none` is `abort`. -/
def utilChecksumCompute (buf : Buffer) (addr len csump skipOff : Nat) : Option (BitVec 64) :=
  if len % 4 ≠ 0 then none
  else
    let skip := if skipOff ≠ 0 then Word.add addr skipOff else Word.add addr len
    let s := computeLoop buf addr csump skip len len ⟨0, 0, 0⟩
    some (checksumOf s.lo32 s.hi32)

/-- `util_checksum`: the buffer afterwards and the result. -/
def utilChecksum (buf : Buffer) (addr len csump : Nat) (insert : Bool) (skipOff : Nat) :
    Option (Buffer × Bool) :=
  match utilChecksumCompute buf addr len csump skipOff with
  | none => none
  | some csum =>
      if insert then some (buf.store csump 8 csum, true)
      else some (buf, buf.long csump == csum)

/-- The body of the loop of `util_checksum_seq`. -/
def seqStep (buf : Buffer) (s : ChecksumState) : ChecksumState :=
  let lo32 := s.lo32 + buf.word s.p32
  { p32 := s.p32 + 4, lo32 := lo32, hi32 := s.hi32 + lo32 }

/-- The loop of `util_checksum_seq`. -/
def seqLoop (buf : Buffer) (p32end : Nat) : Nat → ChecksumState → ChecksumState
  | 0, s => s
  | fuel + 1, s => if s.p32 < p32end then seqLoop buf p32end fuel (seqStep buf s) else s

/-- `util_checksum_seq`; `none` is `abort`. -/
def utilChecksumSeq (buf : Buffer) (len : Nat) (csum : BitVec 64) : Option (BitVec 64) :=
  if len % 4 ≠ 0 then none
  else
    let s := seqLoop buf len len ⟨0, csum.setWidth 32, (csum >>> 32).setWidth 32⟩
    some (checksumOf s.lo32 s.hi32)

/-- The copy of a buffer in which the place of the checksum and, unless `skipOff` is zero,
everything from there on are replaced by zeros. -/
def Buffer.zeroed (buf : Buffer) (csump skipOff : Nat) : Buffer :=
  fun i => if csump ≤ i ∧ i < csump + 8 ∨ skipOff ≠ 0 ∧ skipOff ≤ i then 0 else buf i

/-! ## Words and bytes -/

namespace Buffer

variable {buf other : Buffer} {off csump skip : Nat}

theorem word_congr (same : ∀ i, off ≤ i → i < off + 4 → buf i = other i) :
    buf.word off = other.word off := by
  unfold word
  rw [same off (by omega) (by omega), same (off + 1) (by omega) (by omega),
    same (off + 2) (by omega) (by omega), same (off + 3) (by omega) (by omega)]

theorem word_zeroed_of_excluded (excluded : ∀ i, off ≤ i → i < off + 4 →
    csump ≤ i ∧ i < csump + 8 ∨ skip ≠ 0 ∧ skip ≤ i) : (buf.zeroed csump skip).word off = 0 := by
  have zeros : (buf.zeroed csump skip).word off = Buffer.word (fun _ => 0) off :=
    word_congr fun i lower upper => if_pos (excluded i lower upper)
  rw [zeros]
  exact show (0#8 ++ 0#8 ++ 0#8 ++ 0#8 : BitVec 32) = 0 by decide

theorem word_zeroed_of_included (included : ∀ i, off ≤ i → i < off + 4 →
    ¬(csump ≤ i ∧ i < csump + 8 ∨ skip ≠ 0 ∧ skip ≤ i)) :
    (buf.zeroed csump skip).word off = buf.word off :=
  word_congr fun i lower upper => if_neg (included i lower upper)

theorem store_of_outside {bits bytes i : Nat} {value : BitVec bits}
    (outside : i < off ∨ off + bytes ≤ i) : buf.store off bytes value i = buf i := by
  unfold store
  rw [if_neg (by omega)]

theorem store_of_inside {bits bytes i : Nat} {value : BitVec bits} (inside : i < bytes) :
    buf.store off bytes value (off + i) = value.extractLsb' (8 * i) 8 := by
  unfold store
  rw [if_pos (by omega), Nat.add_sub_cancel_left]

/-- Four bytes in a row make a word. -/
theorem extract_word {bits : Nat} (value : BitVec bits) (start : Nat) :
    value.extractLsb' (start + 24) 8 ++ value.extractLsb' (start + 16) 8 ++
      value.extractLsb' (start + 8) 8 ++ value.extractLsb' start 8 =
    value.extractLsb' start 32 := by
  rw [BitVec.extractLsb'_append_extractLsb'_eq_extractLsb' (by omega),
    BitVec.extractLsb'_append_extractLsb'_eq_extractLsb' (by omega),
    BitVec.extractLsb'_append_extractLsb'_eq_extractLsb' (by omega)]

theorem word_store {bits : Nat} (buf : Buffer) (off : Nat) (value : BitVec bits) (bytes i : Nat)
    (inside : i + 4 ≤ bytes) :
    (buf.store off bytes value).word (off + i) = value.extractLsb' (8 * i) 32 := by
  have byte : ∀ k, k < 4 →
      buf.store off bytes value (off + i + k) = value.extractLsb' (8 * i + 8 * k) 8 := by
    intro k below
    rw [Nat.add_assoc, store_of_inside (by omega), Nat.mul_add]
  unfold word
  rw [byte 3 (by omega), byte 2 (by omega), byte 1 (by omega), ← Nat.add_zero (off + i),
    byte 0 (by omega)]
  exact extract_word value (8 * i)

theorem word_store_word (buf : Buffer) (off : Nat) (value : BitVec 32) :
    (buf.store off 4 value).word off = value := by
  have stored := word_store buf off value 4 0 le_rfl
  rw [Nat.add_zero, Nat.mul_zero] at stored
  rw [stored]
  exact BitVec.extractLsb'_eq_self

/-- What is stored is read back. -/
theorem long_store (buf : Buffer) (off : Nat) (value : BitVec 64) :
    (buf.store off 8 value).long off = value := by
  have low := word_store buf off value 8 0 (by omega)
  have high := word_store buf off value 8 4 (by omega)
  rw [Nat.add_zero, Nat.mul_zero] at low
  unfold long
  rw [low, high, BitVec.extractLsb'_append_extractLsb'_eq_extractLsb' (by omega)]
  exact BitVec.extractLsb'_eq_self

end Buffer

/-- The words of a buffer, `count` of them from word `first` on. -/
def wordsFrom (buf : Buffer) (first count : Nat) : List (BitVec 32) :=
  (List.range' first count).map fun i => buf.word (4 * i)

theorem wordsFrom_succ (buf : Buffer) (first count : Nat) :
    wordsFrom buf first (count + 1) = buf.word (4 * first) :: wordsFrom buf (first + 1) count := by
  unfold wordsFrom
  rw [List.range'_succ, List.map_cons]

/-! ## The value that is returned -/

theorem checksumOf_lo (lo32 hi32 : BitVec 32) : (checksumOf lo32 hi32).setWidth 32 = lo32 := by
  apply BitVec.eq_of_getLsbD_eq
  intro i below
  unfold checksumOf
  simp only [BitVec.getLsbD_setWidth, BitVec.getLsbD_or, BitVec.getLsbD_shiftLeft]
  simp [below, show i < 64 by omega]

theorem checksumOf_hi (lo32 hi32 : BitVec 32) :
    (checksumOf lo32 hi32 >>> 32).setWidth 32 = hi32 := by
  apply BitVec.eq_of_getLsbD_eq
  intro i below
  unfold checksumOf
  simp only [BitVec.getLsbD_setWidth, BitVec.getLsbD_ushiftRight, BitVec.getLsbD_or,
    BitVec.getLsbD_shiftLeft]
  simp [below, show 32 + i < 64 by omega, show i < 64 by omega]

theorem checksumOf_inj {lo32 hi32 lo32' hi32' : BitVec 32} :
    checksumOf lo32 hi32 = checksumOf lo32' hi32' ↔ lo32 = lo32' ∧ hi32 = hi32' := by
  constructor
  · intro same
    have lo := congrArg (BitVec.setWidth 32) same
    have hi := congrArg (fun value : BitVec 64 => (value >>> 32).setWidth 32) same
    rw [checksumOf_lo, checksumOf_lo] at lo
    rw [checksumOf_hi, checksumOf_hi] at hi
    exact ⟨lo, hi⟩
  · rintro ⟨rfl, rfl⟩
    rfl

/-! ## The plain checksum -/

variable {buf : Buffer}

/-- The loop adds up the words that are left. -/
theorem seqLoop_eq (first count : Nat) {fuel : Nat} (enough : count ≤ fuel)
    (lo32 hi32 : BitVec 32) :
    seqLoop buf (4 * (first + count)) fuel ⟨4 * first, lo32, hi32⟩ =
      ⟨4 * (first + count), (DoubleSum.run (lo32, hi32) (wordsFrom buf first count)).1,
        (DoubleSum.run (lo32, hi32) (wordsFrom buf first count)).2⟩ := by
  induction fuel generalizing first count lo32 hi32 with
  | zero =>
      obtain rfl : count = 0 := by omega
      rfl
  | succ fuel inductionHypothesis =>
      unfold seqLoop
      cases count with
      | zero =>
          rw [if_neg (by simp)]
          rfl
      | succ count =>
          have next := inductionHypothesis (first + 1) count (by omega)
            (lo32 + buf.word (4 * first)) (hi32 + (lo32 + buf.word (4 * first)))
          rw [show first + 1 + count = first + (count + 1) by omega] at next
          rw [if_pos (by simp), wordsFrom_succ, DoubleSum.run_cons]
          exact next

theorem utilChecksumSeq_eq {count : Nat} (csum : BitVec 64) :
    utilChecksumSeq buf (4 * count) csum =
      some (checksumOf
        (DoubleSum.run (csum.setWidth 32, (csum >>> 32).setWidth 32) (wordsFrom buf 0 count)).1
        (DoubleSum.run (csum.setWidth 32, (csum >>> 32).setWidth 32)
          (wordsFrom buf 0 count)).2) := by
  have looped : seqLoop buf (4 * (0 + count)) (4 * count) _ = _ :=
    seqLoop_eq 0 count (by omega) (csum.setWidth 32) ((csum >>> 32).setWidth 32)
  rw [Nat.zero_add, Nat.mul_zero] at looped
  unfold utilChecksumSeq
  rw [if_neg (by simp), looped]

/-! ## The checksum of part of a buffer -/

section Compute

variable {addr field skip first count fuel : Nat} {lo32 hi32 : BitVec 32}

/-- From word `first` on, the loop steps over the end of the buffer: what it leaves out is an
odd number of words, in steps of two. -/
def StepsOver (field skip first count : Nat) : Prop :=
  (if first < skip then first + count - skip + (if field + 1 = skip then 1 else 0) else count) % 2
    = 1

instance (field skip first count : Nat) : Decidable (StepsOver field skip first count) :=
  inferInstanceAs (Decidable (_ = 1))

theorem not_stepsOver_zero (inside : skip ≤ first + 0) : ¬StepsOver field skip first 0 := by
  unfold StepsOver
  rw [if_neg (by omega)]
  decide

/-- A pair of words that is left out does not change what is left of the last pair. -/
theorem stepsOver_excluded (count : Nat) (excluded : first = field ∨ skip ≤ first)
    (inside : skip ≤ first + 2 + count) :
    StepsOver field skip (first + 2) count ↔ StepsOver field skip first (count + 1 + 1) := by
  unfold StepsOver
  split_ifs <;> omega

theorem stepsOver_included (count : Nat) (notField : first ≠ field) (notSkipped : first < skip)
    (inside : skip ≤ first + 1 + count) :
    StepsOver field skip (first + 1) count ↔ StepsOver field skip first (count + 1) := by
  unfold StepsOver
  split_ifs <;> omega

theorem computeLoop_end {csump stop p32end : Nat} {s : ChecksumState} (done : p32end ≤ s.p32)
    (fuel : Nat) : computeLoop buf addr csump stop p32end fuel s = s := by
  cases fuel with
  | zero => rfl
  | succ fuel =>
      unfold computeLoop
      rw [if_neg (by omega)]

/-- A word that is left out, and the next one with it. -/
theorem computeStep_excluded (excluded : first = field ∨ skip ≤ first) :
    computeStep buf addr (4 * field) (addr + 4 * skip) ⟨4 * first, lo32, hi32⟩ =
      ⟨4 * (first + 2), lo32, hi32 + lo32 + lo32⟩ := by
  unfold computeStep
  rw [if_pos (by dsimp only; omega), Nat.mul_add]

theorem computeStep_included (notField : first ≠ field) (notSkipped : first < skip) :
    computeStep buf addr (4 * field) (addr + 4 * skip) ⟨4 * first, lo32, hi32⟩ =
      ⟨4 * (first + 1), lo32 + buf.word (4 * first), hi32 + (lo32 + buf.word (4 * first))⟩ := by
  unfold computeStep
  rw [if_neg (by dsimp only; omega), Nat.mul_add]

theorem word_excluded (positive : 0 < skip)
    (excluded : first = field ∨ first = field + 1 ∨ skip ≤ first) :
    (buf.zeroed (4 * field) (4 * skip)).word (4 * first) = 0 :=
  Buffer.word_zeroed_of_excluded fun i _ _ => by omega

theorem word_included (notField : first ≠ field) (notNext : first ≠ field + 1)
    (notSkipped : first < skip) :
    (buf.zeroed (4 * field) (4 * skip)).word (4 * first) = buf.word (4 * first) :=
  Buffer.word_zeroed_of_included fun i _ _ => by omega

/-- The loop adds up the words of the copy with zeros, and the first sum once more if it steps
over the end.  It never stops at the second word of the checksum's place, unless that is left
out anyway. -/
theorem computeLoop_eq (addr first count fuel : Nat) (positive : 0 < skip) (enough : count ≤ fuel)
    (notNext : first = field + 1 → skip ≤ first) (inside : skip ≤ first + count)
    {sums : BitVec 32 × BitVec 32}
    (sums_eq : DoubleSum.run (lo32, hi32)
      (wordsFrom (buf.zeroed (4 * field) (4 * skip)) first count) = sums) :
    ∃ p32, computeLoop buf addr (4 * field) (addr + 4 * skip) (4 * (first + count)) fuel
        ⟨4 * first, lo32, hi32⟩ =
      ⟨p32, sums.1, sums.2 + if StepsOver field skip first count then sums.1 else 0⟩ := by
  induction fuel generalizing first count lo32 hi32 with
  | zero =>
      obtain rfl : count = 0 := by omega
      subst sums_eq
      refine ⟨4 * first, ?_⟩
      rw [if_neg (not_stepsOver_zero inside), Nat.add_zero, add_zero]
      rfl
  | succ fuel inductionHypothesis =>
      cases count with
      | zero =>
          subst sums_eq
          refine ⟨4 * first, ?_⟩
          rw [computeLoop_end (by simp), if_neg (not_stepsOver_zero inside), add_zero]
          rfl
      | succ count =>
          unfold computeLoop
          rw [if_pos (by simp)]
          rw [wordsFrom_succ, DoubleSum.run_cons] at sums_eq
          by_cases excluded : first = field ∨ skip ≤ first
          · rw [computeStep_excluded excluded]
            rw [word_excluded positive (by omega), DoubleSum.step_zero] at sums_eq
            cases count with
            | zero =>
                -- the second word of this step lies behind the end
                subst sums_eq
                refine ⟨4 * (first + 2), ?_⟩
                rw [computeLoop_end (by dsimp only; omega), if_pos]
                · rfl
                · unfold StepsOver
                  grind
            | succ count =>
                rw [wordsFrom_succ, DoubleSum.run_cons, word_excluded positive (by omega),
                  DoubleSum.step_zero] at sums_eq
                obtain ⟨p32, looped⟩ := inductionHypothesis (first + 2) count
                  (by omega) (by omega) (by omega) sums_eq
                rw [show first + 2 + count = first + (count + 1 + 1) by omega] at looped
                simp only [stepsOver_excluded count excluded (by omega)] at looped
                exact ⟨p32, looped⟩
          · rw [not_or, not_le] at excluded
            obtain ⟨notField, notSkipped⟩ := excluded
            have notSecond : first ≠ field + 1 := fun second => by
              have := notNext second
              omega
            rw [computeStep_included notField notSkipped]
            rw [word_included notField notSecond notSkipped] at sums_eq
            obtain ⟨p32, looped⟩ := inductionHypothesis (first + 1) count
              (by omega) (by omega) (by omega) sums_eq
            rw [show first + 1 + count = first + (count + 1) by omega] at looped
            simp only [stepsOver_included count notField notSkipped (by omega)] at looped
            exact ⟨p32, looped⟩

/-- `util_checksum_compute` as a double sum over the copy with zeros. -/
theorem utilChecksumCompute_eq (positive : 0 < skip) (inside : skip ≤ count) {skipOff : Nat}
    (skip_eq : (if skipOff ≠ 0 then Word.add addr skipOff else Word.add addr (4 * count)) =
      addr + 4 * skip)
    {sums : BitVec 32 × BitVec 32}
    (sums_eq : DoubleSum.run (0, 0)
      (wordsFrom (buf.zeroed (4 * field) (4 * skip)) 0 count) = sums) :
    utilChecksumCompute buf addr (4 * count) (4 * field) skipOff =
      some (checksumOf sums.1 (sums.2 + if StepsOver field skip 0 count then sums.1 else 0)) := by
  obtain ⟨p32, looped⟩ := computeLoop_eq addr 0 count (4 * count) positive (by omega)
    (by omega) (by omega) sums_eq
  rw [Nat.zero_add, Nat.mul_zero] at looped
  unfold utilChecksumCompute
  rw [if_neg (by simp)]
  dsimp only
  rw [skip_eq, looped]

end Compute

theorem wordsFrom_congr {other : Buffer} {first count : Nat}
    (same : ∀ i, i < 4 * (first + count) → buf i = other i) :
    wordsFrom buf first count = wordsFrom other first count := by
  unfold wordsFrom
  refine List.map_congr_left fun i member => ?_
  have := (List.mem_range'_1.mp member).2
  exact Buffer.word_congr fun j _ _ => same j (by omega)

/-- Zeros behind the end of the buffer make no difference. -/
theorem wordsFrom_zeroed_end (buf : Buffer) (csump count : Nat) :
    wordsFrom (buf.zeroed csump (4 * count)) 0 count = wordsFrom (buf.zeroed csump 0) 0 count := by
  refine wordsFrom_congr fun i below => ?_
  unfold Buffer.zeroed
  have same : (csump ≤ i ∧ i < csump + 8 ∨ 4 * count ≠ 0 ∧ 4 * count ≤ i) ↔
      csump ≤ i ∧ i < csump + 8 ∨ 0 ≠ 0 ∧ 0 ≤ i := by omega
  simp only [same]

/-! ## The two checksums -/

/-- What `util_checksum_compute` steps over in pairs of words at the end of the buffer: the words
from the skipped offset on, and the first word of the checksum's place if the second one is the
first that is skipped. -/
def wordsSkipped (len csump skipOff : Nat) : Nat :=
  (if skipOff = 0 then 0 else (len - skipOff) / 4) +
    if csump + 4 = (if skipOff = 0 then len else skipOff) then 1 else 0

/-- The checksum in place is that of the copy with zeros, unless an odd number of words is
stepped over in pairs and the sum of the others is not zero. -/
theorem checksum_compute_eq_seq_iff (buf : Buffer) (addr len csump skipOff : Nat)
    (fits : addr + len + 4 < Word.modulus) (whole : len % 4 = 0) (aligned : csump % 4 = 0)
    (inside : csump < len) (skipAligned : skipOff % 4 = 0) (skipInside : skipOff ≤ len) :
    utilChecksumCompute buf addr len csump skipOff =
        utilChecksumSeq (buf.zeroed csump skipOff) len 0 ↔
      wordsSkipped len csump skipOff % 2 = 0 ∨
        (wordsFrom (buf.zeroed csump skipOff) 0 (len / 4)).sum = 0 := by
  obtain ⟨count, rfl⟩ := Nat.dvd_of_mod_eq_zero whole
  obtain ⟨field, rfl⟩ := Nat.dvd_of_mod_eq_zero aligned
  obtain ⟨skipped, rfl⟩ := Nat.dvd_of_mod_eq_zero skipAligned
  obtain ⟨skip, skip_eq, positive, skipLe, words, stepsOver⟩ : ∃ skip,
      (if 4 * skipped ≠ 0 then Word.add addr (4 * skipped) else Word.add addr (4 * count)) =
          addr + 4 * skip ∧ 0 < skip ∧ skip ≤ count ∧
        wordsFrom (buf.zeroed (4 * field) (4 * skip)) 0 count =
          wordsFrom (buf.zeroed (4 * field) (4 * skipped)) 0 count ∧
        (StepsOver field skip 0 count ↔
          wordsSkipped (4 * count) (4 * field) (4 * skipped) % 2 = 1) := by
    by_cases zero : skipped = 0
    · subst zero
      refine ⟨count, Word.add_eq (by omega), by omega, le_rfl, wordsFrom_zeroed_end .., ?_⟩
      unfold StepsOver wordsSkipped
      grind
    · have skip_eq : (if 4 * skipped ≠ 0 then Word.add addr (4 * skipped)
          else Word.add addr (4 * count)) = addr + 4 * skipped := by
        rw [if_pos (by omega), Word.add_eq (by omega)]
      refine ⟨skipped, skip_eq, by omega, by omega, rfl, ?_⟩
      unfold StepsOver wordsSkipped
      grind
  have sum := DoubleSum.run_fst ((0, 0) : BitVec 32 × BitVec 32)
    (wordsFrom (buf.zeroed (4 * field) (4 * skipped)) 0 count)
  rw [zero_add] at sum
  have start : ((0 : BitVec 64).setWidth 32, ((0 : BitVec 64) >>> 32).setWidth 32) =
      ((0, 0) : BitVec 32 × BitVec 32) := by decide
  rw [Nat.mul_div_cancel_left count (by omega), ← sum,
    utilChecksumCompute_eq positive skipLe skip_eq (congrArg _ words), utilChecksumSeq_eq,
    Option.some.injEq, checksumOf_inj, start, and_iff_right rfl, add_eq_left, ite_eq_right_iff,
    stepsOver]
  grind

/-- One word before a skipped one. -/
def oneWord : Buffer := fun i => if i = 8 then 1 else 0

/-- The skipped word behind it is counted twice. -/
theorem checksum_compute_counts_twice :
    utilChecksumCompute oneWord 4096 16 0 12 = some (checksumOf 1 3) ∧
      utilChecksumSeq (oneWord.zeroed 0 12) 16 0 = some (checksumOf 1 2) ∧
      utilChecksumCompute oneWord 4096 16 0 12 ≠ utilChecksumSeq (oneWord.zeroed 0 12) 16 0 := by
  decide +kernel

/-- With two skipped words the checksums agree. -/
theorem checksum_compute_eq_seq_pair :
    utilChecksumCompute oneWord 4096 20 0 12 = utilChecksumSeq (oneWord.zeroed 0 12) 20 0 :=
  (checksum_compute_eq_seq_iff oneWord 4096 20 0 12 (by decide +kernel) (by decide) (by decide)
    (by decide) (by decide) (by decide)).mpr (Or.inl (by decide))

end Common
end Vmem
