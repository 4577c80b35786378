import Vmem.Library.Scanf

/-!
# Searching a text, blanking it and squeezing white space

`strstr` finds the first place of a text in another one.  Blanking a text replaces what follows its
first character.  Squeezing replaces each run of white space in front of a word by a single blank
and drops the white space at the end.
-/

namespace Vmem
namespace Squeeze

open Scanf

/-- `strstr`: where a text occurs first. -/
def strstr (sub : List Char) : List Char → Option Nat
  | [] => if sub.isPrefixOf [] then some 0 else none
  | ch :: rest =>
      if sub.isPrefixOf (ch :: rest) then some 0 else (strstr sub rest).map (· + 1)

/-- The first character of a text, and blanks. -/
def blankOut : List Char → List Char
  | [] => []
  | ch :: rest => ch :: List.replicate rest.length ' '

/-- A text is blanked wherever it occurs, one place after the other, until it occurs no more. -/
inductive Blanked (sub : List Char) : List Char → List Char → Prop
  | done {text : List Char} (none : ¬sub <:+: text) : Blanked sub text text
  | step {before after result : List Char}
      (rest : Blanked sub (before ++ blankOut sub ++ after) result) :
      Blanked sub (before ++ sub ++ after) result

/-- The text with its white space squeezed, behind white space or not. -/
def squeeze : Bool → List Char → List Char
  | _, [] => []
  | wasSpace, ch :: rest =>
      if isSpace ch then squeeze true rest
      else if wasSpace then ' ' :: ch :: squeeze false rest
      else ch :: squeeze false rest

/-- No white space follows white space. -/
def SingleSpaced (text : List Char) : Prop :=
  text.IsChain fun first second => ¬(isSpace first = true ∧ isSpace second = true)

variable {sub text result : List Char} {place : Nat}

/-! ## The search -/

theorem strstr_eq_some (found : strstr sub text = some place) :
    ∃ before after, text = before ++ sub ++ after ∧ before.length = place := by
  induction text generalizing place with
  | nil =>
      unfold strstr at found
      split at found
      · rename_i start
        obtain ⟨after, whole⟩ := List.isPrefixOf_iff_prefix.mp start
        cases found
        exact ⟨[], after, whole.symm, rfl⟩
      · cases found
  | cons ch rest inductionHypothesis =>
      unfold strstr at found
      split at found
      · rename_i start
        obtain ⟨after, whole⟩ := List.isPrefixOf_iff_prefix.mp start
        cases found
        exact ⟨[], after, whole.symm, rfl⟩
      · obtain ⟨later, next, same⟩ := Option.map_eq_some_iff.mp found
        obtain ⟨before, after, whole, length⟩ := inductionHypothesis next
        exact ⟨ch :: before, after, congrArg (ch :: ·) whole, same ▸ congrArg (· + 1) length⟩

theorem strstr_eq_none (missing : strstr sub text = none) : ¬sub <:+: text := by
  induction text with
  | nil =>
      unfold strstr at missing
      split at missing
      · cases missing
      · rename_i other
        rintro ⟨before, after, whole⟩
        rw [List.append_eq_nil_iff, List.append_eq_nil_iff] at whole
        rw [whole.1.2] at other
        exact other rfl
  | cons ch rest inductionHypothesis =>
      unfold strstr at missing
      split at missing
      · cases missing
      · rename_i other
        intro occurs
        rcases List.infix_cons_iff.mp occurs with start | later
        · exact other (List.isPrefixOf_iff_prefix.mpr start)
        · exact inductionHypothesis (Option.map_eq_none_iff.mp missing) later

/-! ## Blanking -/

theorem length_blankOut (sub : List Char) : (blankOut sub).length = sub.length := by
  cases sub with
  | nil => rfl
  | cons ch rest => simp [blankOut]

theorem mem_blankOut {ch : Char} (member : ch ∈ blankOut sub) : ch = ' ' ∨ ch ∈ sub := by
  cases sub with
  | nil => cases member
  | cons first rest =>
      rcases List.mem_cons.mp member with same | blank
      · exact .inr (same ▸ List.mem_cons_self)
      · exact .inl (List.eq_of_mem_replicate blank)

/-- Blanking takes a word away. -/
theorem countP_blankOut_lt (word : sub.tail.any (!isSpace ·) = true) :
    (blankOut sub).countP (!isSpace ·) < sub.countP (!isSpace ·) := by
  cases sub with
  | nil => cases word
  | cons ch rest =>
      have none : (List.replicate rest.length ' ').countP (!isSpace ·) = 0 :=
        List.countP_eq_zero.mpr fun blank member =>
          List.eq_of_mem_replicate member ▸ by decide
      have some : 0 < rest.countP (!isSpace ·) :=
        List.countP_pos_iff.mpr (List.any_eq_true.mp word)
      rw [blankOut, List.countP_cons, List.countP_cons, none]
      omega

theorem Blanked.not_infix (blanked : Blanked sub text result) : ¬sub <:+: result := by
  induction blanked with
  | done none => exact none
  | step _ inductionHypothesis => exact inductionHypothesis

/-! ## Squeezing -/

theorem squeeze_cons_space {ch : Char} (space : isSpace ch = true) (wasSpace : Bool)
    (rest : List Char) : squeeze wasSpace (ch :: rest) = squeeze true rest := by
  simp only [squeeze, space, if_true]

theorem squeeze_cons_word {ch : Char} (word : isSpace ch = false) (wasSpace : Bool)
    (rest : List Char) :
    squeeze wasSpace (ch :: rest) = squeeze wasSpace [ch] ++ squeeze false rest := by
  cases wasSpace <;> simp [squeeze, word]

/-- The only white space that is left are blanks. -/
theorem isSpace_of_mem_squeeze {wasSpace : Bool} {ch : Char} (member : ch ∈ squeeze wasSpace text) :
    ch = ' ' ∨ ch ∈ text ∧ isSpace ch = false := by
  induction text generalizing wasSpace with
  | nil => cases member
  | cons first rest inductionHypothesis =>
      have later : ch ∈ squeeze false rest →
          ch = ' ' ∨ ch ∈ first :: rest ∧ isSpace ch = false := by
        intro inRest
        rcases inductionHypothesis inRest with blank | ⟨inText, word⟩
        · exact .inl blank
        · exact .inr ⟨List.mem_cons_of_mem first inText, word⟩
      unfold squeeze at member
      split at member
      · rcases inductionHypothesis member with blank | ⟨inText, word⟩
        · exact .inl blank
        · exact .inr ⟨List.mem_cons_of_mem first inText, word⟩
      · rename_i word
        have notSpace : isSpace first = false := Bool.eq_false_iff.mpr word
        split at member
        · rcases List.mem_cons.mp member with blank | inTail
          · exact .inl blank
          · rcases List.mem_cons.mp inTail with same | inRest
            · exact .inr ⟨same ▸ List.mem_cons_self, same ▸ notSpace⟩
            · exact later inRest
        · rcases List.mem_cons.mp member with same | inRest
          · exact .inr ⟨same ▸ List.mem_cons_self, same ▸ notSpace⟩
          · exact later inRest

/-- Anything may follow a character of a word. -/
theorem SingleSpaced.cons {ch : Char} (word : isSpace ch = false) (single : SingleSpaced text) :
    SingleSpaced (ch :: text) := by
  cases text with
  | nil => exact .singleton ch
  | cons next rest =>
      refine List.isChain_cons_cons.mpr ⟨?_, single⟩
      rintro ⟨space, _⟩
      rw [word] at space
      cases space

theorem singleSpaced_squeeze (wasSpace : Bool) (text : List Char) :
    SingleSpaced (squeeze wasSpace text) := by
  induction text generalizing wasSpace with
  | nil => exact .nil
  | cons ch rest inductionHypothesis =>
      unfold squeeze
      split
      · exact inductionHypothesis true
      · rename_i notSpace
        have word : isSpace ch = false := Bool.eq_false_iff.mpr notSpace
        have single := (inductionHypothesis false).cons word
        split
        · refine List.isChain_cons_cons.mpr ⟨?_, single⟩
          rintro ⟨_, space⟩
          exact notSpace space
        · exact single

end Squeeze
end Vmem
