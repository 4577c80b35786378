import Vmem.Common.Checksum

/-!
# Inserted checksums

`util_checksum` stores the checksum in the buffer or compares it with what is stored.  What is
stored does not enter into the computation, and every other word that is not skipped enters into
the first sum exactly once, so a single change is always found.  This needs an offset that can be
added to the buffer's address: where the sum wraps, every word is skipped.
-/

namespace Vmem
namespace Common

variable {buf : Buffer} {addr csump skipOff : Nat}

/-! ## What the checksum depends on -/

/-- Skipping from behind the end is the same as skipping nothing. -/
theorem computeLoop_of_le {p32end skip : Nat} (beyond : p32end ≤ skip) (fuel : Nat)
    (s : ChecksumState) :
    computeLoop buf addr csump (addr + skip) p32end fuel s =
      computeLoop buf addr csump (addr + p32end) p32end fuel s := by
  induction fuel generalizing s with
  | zero => rfl
  | succ fuel inductionHypothesis =>
      unfold computeLoop
      split
      · rename_i goesOn
        have same : computeStep buf addr csump (addr + skip) s =
            computeStep buf addr csump (addr + p32end) s := by
          have left : (s.p32 = csump ∨ addr + s.p32 ≥ addr + skip) ↔
              (s.p32 = csump ∨ addr + s.p32 ≥ addr + p32end) := by omega
          unfold computeStep
          simp only [left]
        rw [same]
        exact inductionHypothesis _
      · rfl

/-- The sums that make up the checksum of a buffer of `count` words. -/
def checksumSums (buf : Buffer) (field skip count : Nat) : BitVec 32 × BitVec 32 :=
  DoubleSum.run (0, 0) (wordsFrom (buf.zeroed (4 * field) (4 * skip)) 0 count)

/-- When skipping starts before the buffer, the sums stay zero. -/
theorem computeLoop_of_skipped (buf : Buffer) (csump p32end : Nat) {skip : Nat}
    (before : skip ≤ addr) (fuel p32 : Nat) :
    ∃ stop, computeLoop buf addr csump skip p32end fuel ⟨p32, 0, 0⟩ = ⟨stop, 0, 0⟩ := by
  induction fuel generalizing p32 with
  | zero => exact ⟨p32, rfl⟩
  | succ fuel inductionHypothesis =>
      have step : computeStep buf addr csump skip ⟨p32, 0, 0⟩ = ⟨p32 + 4 + 4, 0, 0⟩ :=
        if_pos (Or.inr (before.trans (Nat.le_add_right addr p32)))
      unfold computeLoop
      split
      · rw [step]
        exact inductionHypothesis _
      · exact ⟨p32, rfl⟩

/-- Where the sum with the offset wraps, nothing counts. -/
theorem utilChecksumCompute_of_wraps {count : Nat} (addrFits : addr < Word.modulus)
    (offFits : skipOff < Word.modulus) (wraps : Word.modulus ≤ addr + skipOff) (buf : Buffer) :
    utilChecksumCompute buf addr (4 * count) csump skipOff = some (checksumOf 0 0) := by
  have before : Word.add addr skipOff ≤ addr := by
    rw [Word.add_eq_of_wraps addrFits offFits wraps]
    omega
  obtain ⟨stop, looped⟩ := computeLoop_of_skipped buf csump (4 * count) before (4 * count) 0
  unfold utilChecksumCompute
  rw [if_neg (by simp), if_pos (by omega)]
  dsimp only
  rw [looped]

/-- The checksum is a function of two sums.  For every offset that does not wrap there is a word
up to which the words count, and the first sum can be read from the checksum. -/
theorem exists_skip (field : Nat) {count : Nat} (nonempty : 0 < count)
    (fits : addr + 4 * count < Word.modulus) (offFits : skipOff < Word.modulus)
    (aligned : skipOff % 4 = 0) :
    ∃ (skip : Nat) (value : BitVec 32 × BitVec 32 → BitVec 64),
      (addr + skipOff < Word.modulus →
        (∀ i, i < count → (i < skip ↔ skipOff = 0 ∨ 4 * i < skipOff)) ∧
        ∀ sums sums', value sums = value sums' → sums.1 = sums'.1) ∧
      ∀ buf, utilChecksumCompute buf addr (4 * count) (4 * field) skipOff =
        some (value (checksumSums buf field skip count)) := by
  obtain ⟨skipped, rfl⟩ := Nat.dvd_of_mod_eq_zero aligned
  have readable : ∀ skip (sums sums' : BitVec 32 × BitVec 32),
      checksumOf sums.1 (sums.2 + if StepsOver field skip 0 count then sums.1 else 0) =
        checksumOf sums'.1 (sums'.2 + if StepsOver field skip 0 count then sums'.1 else 0) →
      sums.1 = sums'.1 := fun skip sums sums' same => (checksumOf_inj.mp same).1
  by_cases wraps : Word.modulus ≤ addr + 4 * skipped
  · exact ⟨0, fun _ => checksumOf 0 0, fun below => absurd wraps (by omega),
      utilChecksumCompute_of_wraps (by omega) offFits wraps⟩
  rw [not_le] at wraps
  by_cases inside : skipped ≠ 0 ∧ skipped ≤ count
  · refine ⟨skipped, _, fun _ => ⟨fun i _ => by omega, readable skipped⟩, fun buf => ?_⟩
    have skip_eq : (if 4 * skipped ≠ 0 then Word.add addr (4 * skipped)
        else Word.add addr (4 * count)) = addr + 4 * skipped := by
      rw [if_pos (by omega), Word.add_eq wraps]
    exact utilChecksumCompute_eq (by omega) inside.2 skip_eq rfl
  · refine ⟨count, _, fun _ => ⟨fun i _ => by omega, readable count⟩, fun buf => ?_⟩
    have plain : utilChecksumCompute buf addr (4 * count) (4 * field) 0 = some _ :=
      utilChecksumCompute_eq nonempty le_rfl (by simpa using Word.add_eq fits) rfl
    unfold checksumSums
    rw [← plain]
    by_cases zero : skipped = 0
    · rw [zero]
    · unfold utilChecksumCompute
      simp only [ne_eq, Nat.mul_eq_zero, zero, or_false, OfNat.ofNat_ne_zero, not_false_eq_true,
        not_true_eq_false, ↓reduceIte]
      rw [Word.add_eq wraps, Word.add_eq fits, computeLoop_of_le (by omega)]

/-- What is stored in the place of the checksum does not matter. -/
theorem checksumSums_store (buf : Buffer) (field skip count : Nat) (csum : BitVec 64) :
    checksumSums (buf.store (4 * field) 8 csum) field skip count =
      checksumSums buf field skip count := by
  have same : (buf.store (4 * field) 8 csum).zeroed (4 * field) (4 * skip) =
      buf.zeroed (4 * field) (4 * skip) := by
    funext i
    unfold Buffer.zeroed
    split
    · rfl
    · exact Buffer.store_of_outside (by omega)
  unfold checksumSums
  rw [same]

/-- A change of one word that counts changes the first sum. -/
theorem checksumSums_change {field skip count i : Nat} {value : BitVec 32} (inside : i < count)
    (counts : i < skip) (notField : i ≠ field) (notNext : i ≠ field + 1)
    (different : value ≠ buf.word (4 * i)) :
    (checksumSums (buf.store (4 * i) 4 value) field skip count).1 ≠
      (checksumSums buf field skip count).1 := by
  have words : wordsFrom ((buf.store (4 * i) 4 value).zeroed (4 * field) (4 * skip)) 0 count =
      (wordsFrom (buf.zeroed (4 * field) (4 * skip)) 0 count).set i value := by
    refine List.ext_getElem (by simp [wordsFrom]) fun j below _ => ?_
    have bound : j < count := by simpa [wordsFrom] using below
    rw [List.getElem_set]
    simp only [wordsFrom, List.getElem_map, List.getElem_range', Nat.zero_add, Nat.one_mul]
    split
    · rename_i same
      subst same
      rw [word_included notField notNext counts, Buffer.word_store_word]
    · refine Buffer.word_congr fun k lower upper => ?_
      unfold Buffer.zeroed
      rw [Buffer.store_of_outside (by omega)]
  have length : (wordsFrom (buf.zeroed (4 * field) (4 * skip)) 0 count).length = count := by
    simp [wordsFrom]
  have within : i < (wordsFrom (buf.zeroed (4 * field) (4 * skip)) 0 count).length := by omega
  have old : (wordsFrom (buf.zeroed (4 * field) (4 * skip)) 0 count)[i] = buf.word (4 * i) := by
    simp only [wordsFrom, List.getElem_map, List.getElem_range', Nat.zero_add, Nat.one_mul]
    exact word_included notField notNext counts
  have before := List.sum_set (wordsFrom (buf.zeroed (4 * field) (4 * skip)) 0 count) i
    (buf.word (4 * i))
  rw [← old, List.set_getElem_self, old] at before
  unfold checksumSums
  rw [DoubleSum.run_fst, DoubleSum.run_fst, words, List.sum_set, before, if_pos (by omega),
    if_pos (by omega)]
  intro same
  exact different (add_left_cancel (add_right_cancel (add_left_cancel same)))

/-! ## Inserting and checking -/

/-- A check compares what is stored with what is computed. -/
theorem utilChecksum_check {csum : BitVec 64} {len : Nat}
    (computed : utilChecksumCompute buf addr len csump skipOff = some csum) :
    utilChecksum buf addr len csump false skipOff = some (buf, buf.long csump == csum) := by
  unfold utilChecksum
  rw [computed]
  rfl

/-- A word outside of it leaves what is stored. -/
theorem Buffer.long_store_word {off : Nat} {value : BitVec 32} (aligned : off % 4 = 0)
    (fieldAligned : csump % 4 = 0) (notField : off ≠ csump) (notNext : off ≠ csump + 4) :
    (buf.store off 4 value).long csump = buf.long csump := by
  unfold Buffer.long
  have outside : ∀ i, csump ≤ i → i < csump + 8 → buf.store off 4 value i = buf i :=
    fun i _ _ => Buffer.store_of_outside (by omega)
  rw [Buffer.word_congr fun i lower upper => outside i (by omega) (by omega),
    Buffer.word_congr fun i lower upper => outside i (by omega) (by omega)]

/-- Plain checksums of two buffers in turn are that of one behind the other. -/
theorem utilChecksumSeq_append (first second : Buffer) (firstCount secondCount : Nat)
    (csum : BitVec 64) :
    (utilChecksumSeq first (4 * firstCount) csum).bind
        (utilChecksumSeq second (4 * secondCount)) =
      utilChecksumSeq (first.append (4 * firstCount) second)
        (4 * firstCount + 4 * secondCount) csum := by
  have ahead : wordsFrom (first.append (4 * firstCount) second) 0 firstCount =
      wordsFrom first 0 firstCount :=
    wordsFrom_congr fun i below => if_pos (by omega)
  have behind : wordsFrom (first.append (4 * firstCount) second) firstCount secondCount =
      wordsFrom second 0 secondCount := by
    refine List.ext_getElem (by simp [wordsFrom]) fun j _ _ => ?_
    simp only [wordsFrom, List.getElem_map, List.getElem_range', Nat.zero_add, Nat.one_mul]
    unfold Buffer.word Buffer.append
    rw [if_neg (by omega), if_neg (by omega), if_neg (by omega), if_neg (by omega),
      show 4 * (firstCount + j) + 3 - 4 * firstCount = 4 * j + 3 by omega,
      show 4 * (firstCount + j) + 2 - 4 * firstCount = 4 * j + 2 by omega,
      show 4 * (firstCount + j) + 1 - 4 * firstCount = 4 * j + 1 by omega,
      show 4 * (firstCount + j) - 4 * firstCount = 4 * j by omega]
  have joined : wordsFrom (first.append (4 * firstCount) second) 0 (firstCount + secondCount) =
      wordsFrom first 0 firstCount ++ wordsFrom second 0 secondCount := by
    rw [← ahead, ← behind]
    unfold wordsFrom
    rw [← List.map_append]
    have range := List.range'_append_1 (s := 0) (m := firstCount) (n := secondCount)
    rw [Nat.zero_add] at range
    rw [range]
  rw [← Nat.mul_add, utilChecksumSeq_eq, utilChecksumSeq_eq, joined, DoubleSum.run_append,
    Option.bind_some, utilChecksumSeq_eq, checksumOf_lo, checksumOf_hi]

/-- An inserted checksum is accepted as long as nothing changes; after a change of what is stored
it is not, nor after a change of one word that counts, where the skipped offset can be added to
the address of the buffer.  And plain checksums compose. -/
theorem checksum_round_trip :
    (∀ (buf : Buffer) (addr len csump skipOff : Nat), addr + len + 4 < Word.modulus →
      skipOff < Word.modulus → len % 4 = 0 → csump % 4 = 0 → csump + 8 ≤ len → skipOff % 4 = 0 →
      ∃ done, utilChecksum buf addr len csump true skipOff = some (done, true) ∧
        utilChecksum done addr len csump false skipOff = some (done, true) ∧
        (addr + skipOff < Word.modulus →
          ∀ off value, off % 4 = 0 → off + 4 ≤ len → off ≠ csump → off ≠ csump + 4 →
            (skipOff = 0 ∨ off < skipOff) → value ≠ done.word off →
            utilChecksum (done.store off 4 value) addr len csump false skipOff =
              some (done.store off 4 value, false)) ∧
        ∀ stored, stored ≠ done.long csump →
          utilChecksum (done.store csump 8 stored) addr len csump false skipOff =
            some (done.store csump 8 stored, false)) ∧
      ∀ (first second : Buffer) (n m : Nat) (csum : BitVec 64), n % 4 = 0 → m % 4 = 0 →
        (utilChecksumSeq first n csum).bind (utilChecksumSeq second m) =
          utilChecksumSeq (first.append n second) (n + m) csum := by
  refine ⟨fun buf addr len csump skipOff fits offFits whole aligned inside skipAligned => ?_,
    fun first second n m csum firstWhole secondWhole => ?_⟩
  · obtain ⟨count, rfl⟩ := Nat.dvd_of_mod_eq_zero whole
    obtain ⟨field, rfl⟩ := Nat.dvd_of_mod_eq_zero aligned
    obtain ⟨skip, value, reads, computes⟩ :=
      exists_skip field (show 0 < count by omega) (show addr + 4 * count < Word.modulus by omega)
        offFits skipAligned
    generalize csum_eq : value (checksumSums buf field skip count) = csum
    have same : ∀ stored : BitVec 64, utilChecksumCompute (buf.store (4 * field) 8 stored) addr
        (4 * count) (4 * field) skipOff = some csum := by
      intro stored
      rw [computes, checksumSums_store, csum_eq]
    refine ⟨buf.store (4 * field) 8 csum, ?_, ?_, ?_, ?_⟩
    · unfold utilChecksum
      rw [computes, csum_eq]
      rfl
    · rw [utilChecksum_check (same csum), Buffer.long_store, beq_self_eq_true]
    · intro skipFits off word offAligned offInside notField notNext offCounts different
      obtain ⟨counts, readable⟩ := reads skipFits
      obtain ⟨i, rfl⟩ := Nat.dvd_of_mod_eq_zero offAligned
      have below : i < count := by omega
      have changed := checksumSums_change below ((counts i below).mpr offCounts)
        (show i ≠ field by omega) (by omega) different
      rw [checksumSums_store] at changed
      have unequal : csum ≠ value (checksumSums
          ((buf.store (4 * field) 8 csum).store (4 * i) 4 word) field skip count) := by
        intro equal
        exact changed (readable _ _ (csum_eq.trans equal)).symm
      rw [utilChecksum_check (computes _), Buffer.long_store_word offAligned aligned notField
        notNext, Buffer.long_store, beq_false_of_ne unequal]
    · intro stored different
      rw [Buffer.long_store] at different
      have twice : (buf.store (4 * field) 8 csum).store (4 * field) 8 stored =
          buf.store (4 * field) 8 stored := by
        funext i
        unfold Buffer.store
        split
        · rfl
        · rfl
      rw [twice, utilChecksum_check (same stored), Buffer.long_store, beq_false_of_ne different]
  · obtain ⟨firstCount, rfl⟩ := Nat.dvd_of_mod_eq_zero firstWhole
    obtain ⟨secondCount, rfl⟩ := Nat.dvd_of_mod_eq_zero secondWhole
    exact utilChecksumSeq_append first second firstCount secondCount csum

/-- A buffer of four words with its checksum in the first two, and the third one changed. -/
theorem checksum_round_trip_changed :
    ∃ done, utilChecksum oneWord 4096 16 0 true 12 = some (done, true) ∧
      utilChecksum done 4096 16 0 false 12 = some (done, true) ∧
      utilChecksum (done.store 8 4 (done.word 8 + 1)) 4096 16 0 false 12 =
        some (done.store 8 4 (done.word 8 + 1), false) := by
  obtain ⟨done, inserted, checked, changed, _⟩ :=
    checksum_round_trip.1 oneWord 4096 16 0 12 (by decide +kernel) (by decide +kernel) (by decide)
      (by decide) (by decide) (by decide)
  refine ⟨done, inserted, checked, ?_⟩
  exact changed (by decide +kernel) 8 _ (by decide) (by decide) (by decide) (by decide)
    (Or.inr (by decide))
    (fun same => absurd (add_eq_left.mp same) (by decide))

/-- With the largest offsets the address to skip from lies before the buffer: every word is
skipped, and no change of the other words is found. -/
theorem checksum_change_missed : ∃ done,
    utilChecksum oneWord 4096 16 0 true (2 ^ 64 - 8) = some (done, true) ∧ done.word 8 = 1 ∧
      utilChecksum (done.store 8 4 (5 : BitVec 32)) 4096 16 0 false (2 ^ 64 - 8) =
        some (done.store 8 4 (5 : BitVec 32), true) := by
  have inserted : utilChecksumCompute oneWord 4096 16 0 (2 ^ 64 - 8) = some 0 := by
    decide +kernel
  have checked : utilChecksumCompute ((oneWord.store 0 8 (0 : BitVec 64)).store 8 4 (5 : BitVec 32))
      4096 16 0 (2 ^ 64 - 8) = some 0 := by decide +kernel
  refine ⟨oneWord.store 0 8 (0 : BitVec 64), ?_, by decide +kernel, ?_⟩
  · unfold utilChecksum
    rw [inserted]
    rfl
  · rw [utilChecksum_check checked, Buffer.long_store_word (by decide) (by decide) (by decide)
      (by decide), Buffer.long_store, beq_self_eq_true]

end Common
end Vmem
