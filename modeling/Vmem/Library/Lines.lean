import Mathlib.Data.List.Basic

/-!
# Reading a text line by line

`fgets` reads up to the end of the line, but no more than its buffer holds; the rest of a longer
line is what the next call reads.  When every line fits, the calls read the lines.
-/

namespace Vmem
namespace Lines

/-- Up to `room` characters of the first line, and what follows. -/
def takeLine : Nat → List Char → List Char × List Char
  | 0, file => ([], file)
  | _ + 1, [] => ([], [])
  | room + 1, ch :: file =>
      if ch = '\n' then ([ch], file)
      else (ch :: (takeLine room file).1, (takeLine room file).2)

/-- `fgets` with a buffer of `size` characters, one of which is for the zero at the end; `none` at
the end of the file. -/
def fgets (size : Nat) (file : List Char) : Option (List Char × List Char) :=
  if file = [] then none else some (takeLine (size - 1) file)

/-- What a number of calls of `fgets` read. -/
def fgetsAll (size : Nat) : Nat → List Char → List (List Char)
  | 0, _ => []
  | calls + 1, file =>
      match fgets size file with
      | none => []
      | some (line, rest) => line :: fgetsAll size calls rest

/-- The lines of a text, each with the character that ends it. -/
def linesOf : List Char → List (List Char)
  | [] => []
  | ch :: rest =>
      if ch = '\n' then [ch] :: linesOf rest
      else
        match linesOf rest with
        | [] => [[ch]]
        | line :: lines => (ch :: line) :: lines

variable {size room calls : Nat} {file line : List Char} {lines : List (List Char)}

theorem linesOf_eq_nil (none : linesOf file = []) : file = [] := by
  cases file with
  | nil => rfl
  | cons ch rest =>
      unfold linesOf at none
      split at none
      · cases none
      · split at none <;> cases none

/-- A first line that fits is read as a whole. -/
theorem takeLine_eq (first : linesOf file = line :: lines) (fits : line.length ≤ room) :
    (takeLine room file).1 = line ∧ linesOf (takeLine room file).2 = lines := by
  induction file generalizing room line lines with
  | nil => cases first
  | cons ch rest inductionHypothesis =>
      unfold linesOf at first
      split at first
      · rename_i ends
        cases first
        cases room with
        | zero => cases fits
        | succ room =>
            unfold takeLine
            rw [if_pos ends]
            exact ⟨rfl, rfl⟩
      · rename_i goesOn
        cases room with
        | zero =>
            split at first <;> cases first <;> cases fits
        | succ room =>
            unfold takeLine
            rw [if_neg goesOn]
            split at first
            · rename_i noMore
              cases first
              have empty := linesOf_eq_nil noMore
              rw [empty]
              cases room <;> exact ⟨rfl, rfl⟩
            · rename_i line' lines' more
              cases first
              obtain ⟨taken, left⟩ := inductionHypothesis more
                (show line'.length ≤ room from Nat.le_of_succ_le_succ fits)
              exact ⟨congrArg (ch :: ·) taken, left⟩

theorem length_takeLine_le (room : Nat) (file : List Char) :
    (takeLine room file).2.length ≤ file.length := by
  induction file generalizing room with
  | nil => cases room <;> exact Nat.le_refl _
  | cons ch rest inductionHypothesis =>
      cases room with
      | zero => exact Nat.le_refl _
      | succ room =>
          unfold takeLine
          split
          · exact Nat.le_succ _
          · exact Nat.le_succ_of_le (inductionHypothesis room)

/-- Nothing is lost, and no more is taken than there is room for. -/
theorem takeLine_split (room : Nat) (file : List Char) :
    (takeLine room file).1 ++ (takeLine room file).2 = file ∧
      (takeLine room file).1.length ≤ room := by
  induction file generalizing room with
  | nil => cases room <;> exact ⟨rfl, Nat.zero_le _⟩
  | cons ch rest inductionHypothesis =>
      cases room with
      | zero => exact ⟨rfl, Nat.le_refl 0⟩
      | succ room =>
          obtain ⟨whole, fits⟩ := inductionHypothesis room
          unfold takeLine
          split
          · exact ⟨rfl, Nat.succ_le_succ (Nat.zero_le room)⟩
          · exact ⟨congrArg (ch :: ·) whole, Nat.succ_le_succ fits⟩

/-- The rest of a text is shorter. -/
theorem length_takeLine_lt (positive : 0 < room) (nonempty : file ≠ []) :
    (takeLine room file).2.length < file.length := by
  cases file with
  | nil => exact absurd rfl nonempty
  | cons ch rest =>
      cases room with
      | zero => cases positive
      | succ room =>
          unfold takeLine
          split
          · exact Nat.lt_succ_self _
          · exact Nat.lt_succ_of_le (length_takeLine_le room rest)

/-- No line is empty. -/
theorem length_pos_of_first (first : linesOf file = line :: lines) : 0 < line.length := by
  cases file with
  | nil => cases first
  | cons ch rest =>
      unfold linesOf at first
      split at first
      · cases first
        exact Nat.zero_lt_one
      · split at first <;> cases first <;> exact Nat.succ_pos _

/-- When every line fits, `fgets` reads the lines. -/
theorem fgetsAll_eq_linesOf (fits : ∀ line ∈ linesOf file, line.length < size)
    (enough : file.length ≤ calls) : fgetsAll size calls file = linesOf file := by
  induction calls generalizing file with
  | zero =>
      cases List.length_eq_zero_iff.mp (Nat.le_zero.mp enough)
      rfl
  | succ calls inductionHypothesis =>
      cases lines : linesOf file with
      | nil =>
          rw [linesOf_eq_nil lines]
          rfl
      | cons first rest =>
          have nonempty : file ≠ [] := by
            rintro rfl
            cases lines
          have firstFits := fits first (lines ▸ List.mem_cons_self)
          obtain ⟨taken, left⟩ := takeLine_eq lines (show first.length ≤ size - 1 by omega)
          have firstLong := length_pos_of_first lines
          have shorter := length_takeLine_lt (show 0 < size - 1 by omega) nonempty
          unfold fgetsAll fgets
          rw [if_neg nonempty]
          dsimp only
          rw [taken, inductionHypothesis
            (fun line member => fits line (lines ▸ List.mem_cons_of_mem first (left ▸ member)))
            (by omega), left]

/-! ## Text with and without line ends -/

/-- Characters before the end of a line are taken one after the other. -/
theorem takeLine_append {body : List Char} (tail : List Char) (unended : '\n' ∉ body)
    (fits : body.length ≤ room) :
    takeLine room (body ++ tail) = (body ++ (takeLine (room - body.length) tail).1,
      (takeLine (room - body.length) tail).2) := by
  induction body generalizing room with
  | nil => rfl
  | cons ch rest inductionHypothesis =>
      obtain ⟨goesOn, others⟩ := List.ne_and_not_mem_of_not_mem_cons unended
      cases room with
      | zero => cases fits
      | succ room =>
          have left := inductionHypothesis others (Nat.le_of_succ_le_succ fits)
          rw [List.cons_append, takeLine, if_neg (Ne.symm goesOn), left, List.length_cons,
            Nat.add_sub_add_right]
          rfl

theorem takeLine_nil (room : Nat) : takeLine room [] = ([], []) := by
  cases room <;> rfl

/-- A line that does not fit is cut. -/
theorem takeLine_of_long {body tail : List Char} (unended : '\n' ∉ body)
    (long : room ≤ body.length) :
    takeLine room (body ++ tail) = (body.take room, body.drop room ++ tail) := by
  have length : (body.take room).length = room := List.length_take_of_le long
  have first : '\n' ∉ body.take room := fun member => unended (List.mem_of_mem_take member)
  have whole : body ++ tail = body.take room ++ (body.drop room ++ tail) := by
    rw [← List.append_assoc, List.take_append_drop]
  rw [whole, takeLine_append _ first (Nat.le_of_eq length), length, Nat.sub_self, takeLine,
    List.append_nil]

theorem linesOf_of_unended {body : List Char} (unended : '\n' ∉ body) (nonempty : body ≠ []) :
    linesOf body = [body] := by
  induction body with
  | nil => exact absurd rfl nonempty
  | cons ch rest inductionHypothesis =>
      obtain ⟨goesOn, others⟩ := List.ne_and_not_mem_of_not_mem_cons unended
      unfold linesOf
      rw [if_neg (Ne.symm goesOn)]
      cases rest with
      | nil => rfl
      | cons next more => rw [inductionHypothesis others (List.cons_ne_nil next more)]

theorem linesOf_of_ended {body : List Char} (unended : '\n' ∉ body) (rest : List Char) :
    linesOf (body ++ '\n' :: rest) = (body ++ ['\n']) :: linesOf rest := by
  induction body with
  | nil => rfl
  | cons ch others inductionHypothesis =>
      obtain ⟨goesOn, unendedOthers⟩ := List.ne_and_not_mem_of_not_mem_cons unended
      rw [List.cons_append, linesOf, if_neg (Ne.symm goesOn), inductionHypothesis unendedOthers]
      rfl

/-- A text is its first line, without the end, and what follows. -/
theorem exists_first_line (file : List Char) :
    ∃ body tail, file = body ++ tail ∧ '\n' ∉ body ∧ (tail = [] ∨ ∃ rest, tail = '\n' :: rest) := by
  induction file with
  | nil => exact ⟨[], [], rfl, List.not_mem_nil, .inl rfl⟩
  | cons ch file inductionHypothesis =>
      by_cases ends : ch = '\n'
      · exact ⟨[], ch :: file, rfl, List.not_mem_nil, .inr ⟨file, ends ▸ rfl⟩⟩
      · obtain ⟨body, tail, whole, unended, shape⟩ := inductionHypothesis
        refine ⟨ch :: body, tail, whole ▸ rfl, ?_, shape⟩
        exact List.not_mem_cons_of_ne_of_not_mem (Ne.symm ends) unended

/-- That line is the first one. -/
theorem linesOf_append {body tail : List Char} (unended : '\n' ∉ body)
    (shape : tail = [] ∨ ∃ rest, tail = '\n' :: rest) (nonempty : body ++ tail ≠ []) :
    linesOf (body ++ tail) = (body ++ tail.take 1) :: linesOf (tail.drop 1) := by
  rcases shape with rfl | ⟨rest, rfl⟩
  · rw [List.append_nil] at nonempty
    rw [List.take_nil, List.append_nil, linesOf_of_unended unended nonempty]
    rfl
  · exact linesOf_of_ended unended rest

end Lines
end Vmem
