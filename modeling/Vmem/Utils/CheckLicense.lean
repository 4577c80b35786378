import Vmem.Library.Squeeze
import Vmem.Library.Text

/-!
# Normalising a license

`check-license` finds a license in the first bytes of a file by the texts that it begins and ends
with, blanks what looks like a comment at the start of its lines and squeezes its white space.  What
looks like a comment is told by the line that the license begins on: the walk back to the start of
that line, and the walk over a copy of its first characters, trust that they find what they look
for.

The buffer is the list of its characters; an access to another place ends the function.
-/

namespace Vmem
namespace Utils

open Scanf Squeeze Text

/-- Why a function does not return. -/
inductive Stop
  /-- It accesses a place outside of the buffer or of `comment_str`. -/
  | outside
  /-- An assertion fails. -/
  | aborted
  /-- A loop has not ended in the rounds it was given. -/
  | unfinished
  deriving DecidableEq, Repr

/-- `LICENSE_MAX_LEN`, the size of the buffer. -/
def licenseMaxLen : Nat := 2048

/-- `LICENSE_BEG`. -/
def licenseBeg : List Char := "Redistribution and use".toList

/-- `LICENSE_END`. -/
def licenseEnd : List Char := "THE POSSIBILITY OF SUCH DAMAGE.".toList

/-- The buffer once a file has been read: `memset` and `read`. -/
def readFile (content : List Char) : List Char :=
  content.take licenseMaxLen ++ List.replicate (licenseMaxLen - content.length) '\x00'

/-- Read a character of the buffer. -/
def readAt (buffer : List Char) (place : Nat) : Except Stop Char :=
  match buffer[place]? with
  | none => .error .outside
  | some ch => .ok ch

/-- Write a character to the buffer. -/
def writeAt (buffer : List Char) (place : Nat) (ch : Char) : Except Stop (List Char) :=
  if place < buffer.length then .ok (buffer.set place ch) else .error .outside

/-- `strstr` in the string that begins at a place of the buffer.  If the string does not end in the
buffer and the text is not found before, the search goes on behind the buffer. -/
def strstrAt (buffer : List Char) (start : Nat) (sub : List Char) : Except Stop (Option Nat) :=
  match strstr sub (cstring (buffer.drop start)) with
  | some place => .ok (some (start + place))
  | none => if '\x00' ∈ buffer.drop start then .ok none else .error .outside

/-- `while (*comment != '\n') comment--`. -/
def findNewline (buffer : List Char) : Nat → Except Stop Nat
  | 0 => do
      let ch ← readAt buffer 0
      if ch = '\n' then pure 0 else .error .outside
  | comment + 1 => do
      let ch ← readAt buffer (comment + 1)
      if ch = '\n' then pure (comment + 1) else findNewline buffer comment

/-- `while (condition(*comment)) comment++` in a part of `comment_str` that begins at a place. -/
def walk (condition : Char → Bool) : List Char → Nat → Except Stop Nat
  | [], _ => .error .outside
  | ch :: rest, comment =>
      if condition ch then walk condition rest (comment + 1) else .ok comment

/-- `strncpy` from a place of the buffer. -/
def strncpyAt (buffer : List Char) (place count : Nat) : Except Stop (List Char) :=
  let str := cstring (buffer.drop place)
  if str.length < count ∧ '\x00' ∉ buffer.drop place then .error .outside
  else .ok (str.take count ++ List.replicate (count - str.length) '\x00')

/-- `COMMENT_STR_LEN`. -/
def commentStrLen : Nat := 5

/-- Separate out a comment: the string in `comment_str`, from the newline that a line begins
with. -/
def separateComment (buffer : List Char) (newline : Nat) : Except Stop (List Char) := do
  let copied ← strncpyAt buffer newline (commentStrLen - 1)
  let commentStr := copied ++ ['\x00']
  let comment ← walk isSpace (commentStr.drop 1) 1
  let comment ← walk (!isSpace ·) (commentStr.drop comment) comment
  pure (cstring (commentStr.set comment '\x00'))

/-- `for (w = 1; w < comment_len; w++) comment[w] = ' '`, from some `w` on. -/
def blankFrom (comment : Nat) : Nat → Nat → List Char → Except Stop (List Char)
  | _, 0, buffer => .ok buffer
  | w, rounds + 1, buffer => do
      let buffer ← writeAt buffer (comment + w) ' '
      blankFrom comment (w + 1) rounds buffer

/-- The characters of a comment that become spaces: all of them or, if there are only two, the
second. -/
def blankComment (comment commentLen : Nat) (buffer : List Char) : Except Stop (List Char) :=
  if 2 < commentLen then blankFrom comment 1 (commentLen - 1) buffer
  else writeAt buffer (comment + 1) ' '

/-- Replace comments with spaces.  The search begins again after each replacement. -/
def replaceComments (commentStr : List Char) (license : Nat) :
    Nat → List Char → Except Stop (List Char)
  | 0, _ => .error .unfinished
  | fuel + 1, buffer => do
      match ← strstrAt buffer license commentStr with
      | none => pure buffer
      | some comment =>
          let buffer ← blankComment comment commentStr.length buffer
          replaceComments commentStr license fuel buffer

/-- `if (w < r) license[w] = license[r]`. -/
def moveChar (license r w : Nat) (buffer : List Char) : Except Stop (List Char) :=
  if w < r then do
    let ch ← readAt buffer (license + r)
    writeAt buffer (license + w) ch
  else pure buffer

/-- A round of the loop that replaces multiple spaces with one space, for a character that is none:
`w` and the buffer afterwards. -/
def copyChar (license r w : Nat) (wasSpace : Bool) (buffer : List Char) :
    Except Stop (Nat × List Char) :=
  if wasSpace then do
    let buffer ← writeAt buffer (license + w) ' '
    let buffer ← moveChar license r (w + 1) buffer
    pure (w + 2, buffer)
  else do
    let buffer ← moveChar license r w buffer
    pure (w + 1, buffer)

/-- The loop over the characters from `r` on; `w` and the buffer afterwards. -/
def squeezeLoop (license : Nat) :
    Nat → Nat → Nat → Bool → List Char → Except Stop (Nat × List Char)
  | 0, _, w, _, buffer => .ok (w, buffer)
  | rounds + 1, r, w, wasSpace, buffer => do
      let ch ← readAt buffer (license + r)
      if isSpace ch then squeezeLoop license rounds (r + 1) w true buffer
      else do
        let (w, buffer) ← copyChar license r w wasSpace buffer
        squeezeLoop license rounds (r + 1) w false buffer

/-- Unless the license is at the start of its line, separate out a comment and replace it with
spaces. -/
def removeComments (buffer : List Char) (license newline : Nat) : Except Stop (List Char) :=
  if newline + 1 ≠ license then do
    let commentStr ← separateComment buffer newline
    replaceComments commentStr license (buffer.length + 1) buffer
  else pure buffer

/-- Replace multiple spaces with one space. -/
def replaceSpaces (license length : Nat) (buffer : List Char) : Except Stop (List Char) := do
  let (w, buffer) ← squeezeLoop license length 0 0 false buffer
  writeAt buffer (license + w) '\x00'

/-- `format_license`: the buffer afterwards. -/
def formatLicense (buffer : List Char) (license length : Nat) : Except Stop (List Char) := do
  let newline ← findNewline buffer license
  let buffer ← removeComments buffer license newline
  replaceSpaces license length buffer

/-- `analyze_license`: where the license begins and the buffer afterwards, or `none` if one of the
texts is missing. -/
def analyzeLicense (buffer : List Char) : Except Stop (Option (Nat × List Char)) := do
  let begStr ← strstrAt buffer 0 licenseBeg
  let endStr ← strstrAt buffer 0 licenseEnd
  match begStr, endStr with
  | some begStr, some endStr =>
      if begStr < endStr then do
        let length := endStr - begStr + licenseEnd.length
        let buffer ← writeAt buffer (begStr + length) '\x00'
        let buffer ← formatLicense buffer begStr length
        pure (some (begStr, buffer))
      else .error .aborted
  | _, _ => pure none

/-! ## What is asked -/

/-- The last newline before a place. -/
structure LastNewline (buffer : List Char) (place newline : Nat) : Prop where
  before : newline < place
  here : buffer[newline]? = some '\n'
  last : ∀ i, newline < i → i < place → buffer[i]? ≠ some '\n'

/-- The first characters of the line that begins behind a newline. -/
def lineStart (buffer : List Char) (newline : Nat) : List Char := (buffer.drop (newline + 1)).take 3

/-- What looks like a comment: a newline, white space and a word. -/
def commentOf (start : List Char) : List Char :=
  '\n' :: (start.takeWhile isSpace ++ (start.dropWhile isSpace).takeWhile (!isSpace ·))

/-- What lies between the two places, the second text included. -/
def licenseOf (buffer : List Char) (begStr endStr : Nat) : List Char :=
  (buffer.drop begStr).take (endStr - begStr + licenseEnd.length)

/-- The license begins before it ends; there is a line above it; it is at the start of its line, or
white space follows a word among the first three characters of that line; and there is room for a
character behind it. -/
structure Formattable (buffer : List Char) (begStr endStr : Nat) : Prop where
  inOrder : begStr < endStr
  line : ∃ newline, LastNewline buffer begStr newline ∧
    (newline + 1 = begStr ∨ ((lineStart buffer newline).dropWhile isSpace).any isSpace = true)
  room : endStr + licenseEnd.length < licenseMaxLen

/-- A text has no two white-space characters in a row and no comment in it: it is the license,
squeezed, after what looks like the comment of its line has been blanked wherever it occurs, so that
no line was left that begins with it. -/
structure Normalised (buffer : List Char) (begStr endStr : Nat) (text : List Char) : Prop where
  single : SingleSpaced text
  plain : ∀ newline, LastNewline buffer begStr newline → newline + 1 = begStr →
    text = squeeze false (licenseOf buffer begStr endStr)
  comment : ∀ newline, LastNewline buffer begStr newline → newline + 1 ≠ begStr →
    ¬commentOf (lineStart buffer newline) <:+: text ∧
    ∃ blanked, Blanked (commentOf (lineStart buffer newline)) (licenseOf buffer begStr endStr)
      blanked ∧ ¬commentOf (lineStart buffer newline) <:+: blanked ∧ text = squeeze false blanked

/-! ## The buffer -/

section Buffer

variable {content : List Char}

theorem length_readFile (content : List Char) : (readFile content).length = licenseMaxLen := by
  unfold readFile
  rw [List.length_append, List.length_take, List.length_replicate]
  omega

theorem cstring_readFile (short : content.length ≤ licenseMaxLen) (plain : '\x00' ∉ content) :
    cstring (readFile content) = content := by
  unfold readFile
  rw [List.take_of_length_le short, cstring_append plain]
  cases licenseMaxLen - content.length with
  | zero => exact List.append_nil content
  | succ count => exact List.append_nil content

end Buffer

/-! ## Accesses -/

section Accesses

variable {buffer pre text post : List Char} {place : Nat} {ch : Char}

theorem readAt_of_getElem? (here : buffer[place]? = some ch) : readAt buffer place = .ok ch := by
  simp only [readAt, here]

theorem writeAt_of_lt (inside : place < buffer.length) :
    writeAt buffer place ch = .ok (buffer.set place ch) :=
  if_pos inside

/-- Write the first character behind a part of the buffer. -/
theorem writeAt_append (pre : List Char) (old ch : Char) (post : List Char) :
    writeAt (pre ++ old :: post) pre.length ch = .ok (pre ++ ch :: post) := by
  rw [writeAt_of_lt (by rw [List.length_append, List.length_cons]; omega),
    List.set_append_right _ _ (Nat.le_refl _), Nat.sub_self]
  rfl

/-- The string of a license ends with its `\0`. -/
theorem cstring_drop (plain : '\x00' ∉ text) :
    cstring ((pre ++ text ++ '\x00' :: post).drop pre.length) = text := by
  rw [List.append_assoc, List.drop_left, cstring_append plain]
  exact List.append_nil text

theorem strstrAt_eq (plain : '\x00' ∉ text) (sub : List Char) :
    strstrAt (pre ++ text ++ '\x00' :: post) pre.length sub =
      .ok ((strstr sub text).map (pre.length + ·)) := by
  unfold strstrAt
  rw [cstring_drop plain]
  cases strstr sub text with
  | some place => rfl
  | none =>
      have ends : '\x00' ∈ (pre ++ text ++ '\x00' :: post).drop pre.length := by
        rw [List.append_assoc, List.drop_left]
        exact List.mem_append_right text List.mem_cons_self
      exact if_pos ends

end Accesses

/-! ## The start of the line -/

section LineStart

variable {buffer : List Char} {place newline : Nat}

/-- The walk back finds the last newline. -/
theorem findNewline_of_last (last : LastNewline buffer (place + 1) newline)
    (inside : place < buffer.length) : findNewline buffer place = .ok newline := by
  induction place with
  | zero =>
      have same : newline = 0 := Nat.lt_one_iff.mp last.before
      have here := same ▸ last.here
      unfold findNewline
      rw [readAt_of_getElem? here, same]
      rfl
  | succ place inductionHypothesis =>
      unfold findNewline
      rw [readAt_of_getElem? (List.getElem?_eq_getElem inside)]
      by_cases same : newline = place + 1
      · have here := same ▸ last.here
        rw [List.getElem?_eq_getElem inside, Option.some.injEq] at here
        rw [here, same]
        rfl
      · have before := last.before
        have other := last.last (place + 1) (by omega) (Nat.lt_succ_self _)
        rw [List.getElem?_eq_getElem inside, ne_eq, Option.some.injEq] at other
        have earlier : LastNewline buffer (place + 1) newline :=
          ⟨by omega, last.here, fun i after inFront => last.last i after (by omega)⟩
        have found := inductionHypothesis earlier (Nat.lt_of_succ_lt inside)
        change (if _ then _ else _) = _
        rw [if_neg other]
        exact found

/-- Without one it leaves the buffer. -/
theorem findNewline_of_none (none : ∀ i, i ≤ place → buffer[i]? ≠ some '\n')
    (inside : place < buffer.length) : findNewline buffer place = .error .outside := by
  induction place with
  | zero =>
      have other := none 0 (Nat.le_refl 0)
      rw [List.getElem?_eq_getElem inside, ne_eq, Option.some.injEq] at other
      unfold findNewline
      rw [readAt_of_getElem? (List.getElem?_eq_getElem inside)]
      exact if_neg other
  | succ place inductionHypothesis =>
      have other := none (place + 1) (Nat.le_refl _)
      rw [List.getElem?_eq_getElem inside, ne_eq, Option.some.injEq] at other
      have earlier := inductionHypothesis (fun i before => none i (Nat.le_succ_of_le before))
        (Nat.lt_of_succ_lt inside)
      unfold findNewline
      rw [readAt_of_getElem? (List.getElem?_eq_getElem inside)]
      change (if _ then _ else _) = _
      rw [if_neg other]
      exact earlier

/-- There is a last newline in front of a place, or none. -/
theorem exists_lastNewline (buffer : List Char) (place : Nat) :
    (∃ newline, LastNewline buffer place newline) ∨ ∀ i, i < place → buffer[i]? ≠ some '\n' := by
  induction place with
  | zero => exact .inr nofun
  | succ place inductionHypothesis =>
      by_cases here : buffer[place]? = some '\n'
      · exact .inl ⟨place, Nat.lt_succ_self place, here, fun i after before => by omega⟩
      · rcases inductionHypothesis with ⟨newline, last⟩ | none
        · refine .inl ⟨newline, Nat.lt_succ_of_lt last.before, last.here, ?_⟩
          intro i after before
          by_cases same : i = place
          · exact same ▸ here
          · exact last.last i after (by omega)
        · refine .inr fun i before => ?_
          by_cases same : i = place
          · exact same ▸ here
          · exact none i (by omega)

/-- There is only one. -/
theorem LastNewline.unique {other : Nat} (last : LastNewline buffer place newline)
    (otherLast : LastNewline buffer place other) : newline = other := by
  rcases Nat.lt_trichotomy newline other with before | same | after
  · exact absurd otherLast.here (last.last other before otherLast.before)
  · exact same
  · exact absurd last.here (otherLast.last newline after last.before)

/-- The start of a line is the same in front of other text. -/
theorem lineStart_append {pre : List Char} (long : newline + 4 ≤ pre.length) (post : List Char) :
    lineStart (pre ++ post) newline = lineStart pre newline := by
  unfold lineStart
  rw [List.drop_append_of_le_length (by omega),
    List.take_append_of_le_length (by rw [List.length_drop]; omega)]

/-- Whether a newline is the last one depends on what is in front of the place. -/
theorem lastNewline_append (pre post : List Char) (newline : Nat) :
    LastNewline (pre ++ post) pre.length newline ↔ LastNewline pre pre.length newline := by
  have same : ∀ i, i < pre.length → (pre ++ post)[i]? = pre[i]? :=
    fun i before => List.getElem?_append_left before
  constructor
  · rintro ⟨before, here, last⟩
    exact ⟨before, same newline before ▸ here,
      fun i after inFront => same i inFront ▸ last i after inFront⟩
  · rintro ⟨before, here, last⟩
    exact ⟨before, (same newline before).trans here,
      fun i after inFront => (same i inFront).symm ▸ last i after inFront⟩

/-- Separating a comment out, for each pattern of white space in the three characters. -/
theorem separateComment_of_drop {c1 c2 c3 : Char} {rest : List Char}
    (start : buffer.drop newline = '\n' :: c1 :: c2 :: c3 :: rest)
    (plain : '\x00' ∉ [c1, c2, c3]) :
    separateComment buffer newline =
      if ([c1, c2, c3].dropWhile isSpace).any isSpace then .ok (commentOf [c1, c2, c3])
      else .error .outside := by
  simp only [List.mem_cons, List.not_mem_nil, or_false, not_or] at plain
  obtain ⟨plain1, plain2, plain3⟩ := plain
  have str : cstring (buffer.drop newline) = '\n' :: c1 :: c2 :: c3 :: cstring rest := by
    have plain : '\x00' ∉ ['\n', c1, c2, c3] := by simp [plain1, plain2, plain3]
    rw [start]
    exact cstring_append plain rest
  have copied : strncpyAt buffer newline (commentStrLen - 1) = .ok ['\n', c1, c2, c3] := by
    unfold strncpyAt
    rw [str]
    simp [commentStrLen]
  have zero : isSpace '\x00' = false := by decide
  unfold separateComment
  rw [copied]
  cases first : isSpace c1 <;> cases second : isSpace c2 <;> cases third : isSpace c3 <;>
    simp [walk, commentOf, cstring, first, second, third, zero, Ne.symm plain1, Ne.symm plain2,
      pure, bind, Except.bind, Except.pure]

/-- Separating a comment out works if white space follows a word. -/
theorem separateComment_eq (here : buffer[newline]? = some '\n')
    (long : newline + 4 ≤ buffer.length) (plain : '\x00' ∉ lineStart buffer newline) :
    separateComment buffer newline =
      if ((lineStart buffer newline).dropWhile isSpace).any isSpace then
        .ok (commentOf (lineStart buffer newline))
      else .error .outside := by
  have inside : newline < buffer.length := by omega
  rw [List.getElem?_eq_getElem inside, Option.some.injEq] at here
  have start := List.drop_eq_getElem_cons inside
  rw [here] at start
  have length : (buffer.drop (newline + 1)).length = buffer.length - (newline + 1) :=
    List.length_drop
  unfold lineStart at plain ⊢
  match line : buffer.drop (newline + 1) with
  | [] | [_] | [_, _] =>
      rw [line] at length
      simp at length
      omega
  | c1 :: c2 :: c3 :: rest =>
      rw [line] at start plain
      exact separateComment_of_drop start plain

end LineStart

/-! ## Blanking the comments -/

section Comments

variable {commentStr pre text post : List Char} {comment w fuel : Nat}

theorem blankFrom_eq (others post : List Char) (start : pre.length = comment + w) :
    blankFrom comment w others.length (pre ++ others ++ post) =
      .ok (pre ++ List.replicate others.length ' ' ++ post) := by
  induction others generalizing pre w with
  | nil => rfl
  | cons ch others inductionHypothesis =>
      have written := writeAt_append pre ch ' ' (others ++ post)
      have next : (pre ++ [' ']).length = comment + (w + 1) := by
        rw [List.length_append, List.length_singleton]
        omega
      have later := inductionHypothesis next
      rw [List.append_assoc, List.append_assoc, List.append_assoc, List.append_assoc] at later
      rw [List.length_cons, blankFrom, List.append_assoc, List.cons_append, ← start, written,
        List.replicate_succ, List.append_assoc]
      exact later

/-- A comment of one character behind its newline is blanked like a longer one. -/
theorem blankComment_eq (pre post : List Char) (long : commentStr.tail ≠ []) :
    blankComment pre.length commentStr.length (pre ++ commentStr ++ post) =
      .ok (pre ++ blankOut commentStr ++ post) := by
  unfold blankComment
  match commentStr with
  | [] | [_] => exact absurd rfl long
  | [first, second] =>
      have written := writeAt_append (pre ++ [first]) second ' ' post
      rw [List.length_append, List.append_assoc, List.append_assoc] at written
      rw [List.append_assoc, List.append_assoc]
      exact written
  | first :: second :: third :: others =>
      have start : (pre ++ [first]).length = pre.length + 1 := by
        rw [List.length_append, List.length_singleton]
      have blanked := blankFrom_eq (second :: third :: others) post start
      rw [List.append_assoc, List.append_assoc, List.append_assoc, List.append_assoc] at blanked
      rw [if_pos (by simp), List.append_assoc, List.append_assoc]
      exact blanked

/-- Replacing the comments ends: each replacement takes a word away. -/
theorem replaceComments_eq (pre post : List Char)
    (word : commentStr.tail.any (!isSpace ·) = true)
    (plainComment : '\x00' ∉ commentStr) (plain : '\x00' ∉ text)
    (enough : text.countP (!isSpace ·) < fuel) :
    ∃ blanked, Blanked commentStr text blanked ∧ '\x00' ∉ blanked ∧
      blanked.length = text.length ∧
      replaceComments commentStr pre.length fuel (pre ++ text ++ '\x00' :: post) =
        .ok (pre ++ blanked ++ '\x00' :: post) := by
  induction fuel generalizing text with
  | zero => exact absurd enough (Nat.not_lt_zero _)
  | succ fuel inductionHypothesis =>
      unfold replaceComments
      rw [strstrAt_eq plain]
      cases found : strstr commentStr text with
      | none => exact ⟨text, .done (strstr_eq_none found), plain, rfl, rfl⟩
      | some place =>
          obtain ⟨before, after, rfl, rfl⟩ := strstr_eq_some found
          have fewer := countP_blankOut_lt word
          simp only [List.countP_append] at enough
          have less : (before ++ blankOut commentStr ++ after).countP (!isSpace ·) < fuel := by
            simp only [List.countP_append]
            omega
          have plainNext : '\x00' ∉ before ++ blankOut commentStr ++ after := by
            simp only [List.mem_append, not_or] at plain ⊢
            refine ⟨⟨plain.1.1, fun member => ?_⟩, plain.2⟩
            rcases mem_blankOut member with blank | inComment
            · exact absurd blank (by decide)
            · exact plainComment inComment
          obtain ⟨blanked, steps, plainBlanked, length, run⟩ := inductionHypothesis plainNext less
          refine ⟨blanked, .step steps, plainBlanked, ?_, ?_⟩
          · rw [length]
            simp only [List.length_append, length_blankOut]
          · have long : commentStr.tail ≠ [] := by
              rintro none
              rw [none] at word
              cases word
            have blank := blankComment_eq (pre ++ before) (after ++ '\x00' :: post) long
            have whole : ∀ comment, pre ++ (before ++ comment ++ after) ++ '\x00' :: post =
                pre ++ before ++ comment ++ (after ++ '\x00' :: post) := by simp
            rw [whole] at run ⊢
            rw [List.length_append] at blank
            change Except.bind (blankComment (pre.length + before.length) _ _) _ = _
            rw [blank]
            exact run

end Comments

/-! ## Squeezing in place -/

section InPlace

variable {ch : Char}

/-- Move a character to `w`: the parts of the buffer are in front of the license, up to `w`, up to
`r` and behind. -/
theorem moveChar_eq (pre copied gap post : List Char) (ch : Char) :
    moveChar pre.length (copied.length + gap.length) copied.length
        (pre ++ copied ++ gap ++ ch :: post) =
      .ok (pre ++ (copied ++ [ch]) ++ (gap ++ [ch]).tail ++ post) := by
  unfold moveChar
  cases gap with
  | nil =>
      rw [if_neg (by simp)]
      simp [pure, Except.pure]
  | cons old gap =>
      have read : readAt (pre ++ copied ++ old :: gap ++ ch :: post)
          (pre.length + (copied.length + (old :: gap).length)) = .ok ch := by
        apply readAt_of_getElem?
        rw [List.getElem?_append_right (by simp)]
        simp
      have written := writeAt_append (pre ++ copied) old ch (gap ++ ch :: post)
      rw [List.length_append] at written
      rw [if_pos (by simp), read]
      simp only [List.append_assoc, List.cons_append, bind, Except.bind] at written ⊢
      rw [written]
      simp

/-- A round of the loop for a character of a word. -/
theorem copyChar_eq {wasSpace : Bool} {gap : List Char} (pre copied post : List Char)
    (word : isSpace ch = false) (room : wasSpace = true → gap ≠ []) :
    copyChar pre.length (copied.length + gap.length) copied.length wasSpace
        (pre ++ copied ++ gap ++ ch :: post) =
      .ok ((copied ++ squeeze wasSpace [ch]).length,
        pre ++ (copied ++ squeeze wasSpace [ch]) ++
          (gap ++ [ch]).drop (squeeze wasSpace [ch]).length ++ post) := by
  cases wasSpace with
  | false =>
      have moved := moveChar_eq pre copied gap post ch
      have one : squeeze false [ch] = [ch] := by simp [squeeze, word]
      rw [one]
      change Except.bind (moveChar _ _ _ _) _ = _
      rw [moved]
      simp [pure, Except.pure, Except.bind]
  | true =>
      have two : squeeze true [ch] = [' ', ch] := by simp [squeeze, word]
      cases gap with
      | nil => exact absurd rfl (room rfl)
      | cons old gap =>
          have written := writeAt_append (pre ++ copied) old ' ' (gap ++ ch :: post)
          have moved := moveChar_eq pre (copied ++ [' ']) gap post ch
          simp only [List.length_append, List.append_assoc, List.cons_append, List.nil_append,
            List.length_cons, List.length_nil, Nat.zero_add] at written moved ⊢
          rw [two]
          change Except.bind (writeAt _ _ _) _ = _
          rw [written]
          have same : copied.length + (gap.length + 1) = copied.length + 1 + gap.length := by omega
          change Except.bind (moveChar _ _ _ _) _ = _
          rw [same, moved]
          simp [pure, Except.pure, Except.bind]

/-- There is room for what a round writes. -/
theorem length_squeeze_word_le {wasSpace : Bool} {gap : List Char} (word : isSpace ch = false)
    (room : wasSpace = true → gap ≠ []) :
    (squeeze wasSpace [ch]).length ≤ gap.length + 1 := by
  cases wasSpace with
  | false => simp [squeeze, word]
  | true =>
      have some := List.length_pos_iff.mpr (room rfl)
      simp only [squeeze, word, if_true, Bool.false_eq_true, if_false, List.length_cons,
        List.length_nil]
      omega

/-- The loop squeezes what it reads behind what it has copied. -/
theorem squeezeLoop_eq {wasSpace : Bool} {gap : List Char} (pre copied rest post : List Char)
    (room : wasSpace = true → gap ≠ []) :
    ∃ gap', squeezeLoop pre.length rest.length (copied.length + gap.length) copied.length wasSpace
        (pre ++ copied ++ gap ++ rest ++ post) =
      .ok ((copied ++ squeeze wasSpace rest).length,
        pre ++ (copied ++ squeeze wasSpace rest) ++ gap' ++ post) := by
  induction rest generalizing copied gap wasSpace with
  | nil =>
      refine ⟨gap, ?_⟩
      simp [squeezeLoop, squeeze]
  | cons ch rest inductionHypothesis =>
      have read : readAt (pre ++ copied ++ gap ++ ch :: rest ++ post)
          (pre.length + (copied.length + gap.length)) = .ok ch := by
        apply readAt_of_getElem?
        simp
      rw [List.length_cons, squeezeLoop, read]
      change ∃ gap', (if isSpace ch = true then _ else _) = _
      cases space : isSpace ch with
      | true =>
          have next : true = true → gap ++ [ch] ≠ [] := fun _ => by simp
          obtain ⟨gap', later⟩ := inductionHypothesis copied next
          refine ⟨gap', ?_⟩
          rw [if_pos rfl, squeeze_cons_space space]
          simp only [List.length_append, List.length_singleton, List.append_assoc,
            List.cons_append, List.nil_append] at later ⊢
          exact later
      | false =>
          have next : false = true → (gap ++ [ch]).drop (squeeze wasSpace [ch]).length ≠ [] :=
            fun space => absurd space Bool.false_ne_true
          have copy := copyChar_eq pre copied (rest ++ post) space room
          obtain ⟨gap', later⟩ := inductionHypothesis (copied ++ squeeze wasSpace [ch]) next
          refine ⟨gap', ?_⟩
          rw [if_neg Bool.false_ne_true, squeeze_cons_word space]
          have whole : pre ++ copied ++ gap ++ ch :: rest ++ post =
              pre ++ copied ++ gap ++ ch :: (rest ++ post) := by simp
          have fits := length_squeeze_word_le space room
          have same : (copied ++ squeeze wasSpace [ch]).length +
              ((gap ++ [ch]).drop (squeeze wasSpace [ch]).length).length =
                copied.length + gap.length + 1 := by
            simp only [List.length_append, List.length_drop, List.length_singleton]
            omega
          rw [whole, copy, ← List.append_assoc copied, ← later, same]
          simp only [List.append_assoc]
          rfl

theorem replaceSpaces_eq (pre post : List Char) {text : List Char} (plain : '\x00' ∉ text) :
    ∃ buffer, replaceSpaces pre.length text.length (pre ++ text ++ '\x00' :: post) = .ok buffer ∧
      cstring (buffer.drop pre.length) = squeeze false text := by
  have room : false = true → ([] : List Char) ≠ [] := fun space => absurd space Bool.false_ne_true
  obtain ⟨gap, loop⟩ := squeezeLoop_eq pre [] text ('\x00' :: post) room
  have plainSqueezed : '\x00' ∉ squeeze false text := by
    intro member
    rcases isSpace_of_mem_squeeze member with blank | ⟨inText, _⟩
    · exact absurd blank (by decide)
    · exact plain inText
  obtain ⟨old, behind, split⟩ : ∃ old behind, gap ++ '\x00' :: post = old :: behind := by
    cases gap with
    | nil => exact ⟨'\x00', post, rfl⟩
    | cons old gap => exact ⟨old, gap ++ '\x00' :: post, rfl⟩
  have written := writeAt_append (pre ++ squeeze false text) old '\x00' behind
  refine ⟨pre ++ squeeze false text ++ '\x00' :: behind, ?_, cstring_drop plainSqueezed⟩
  simp only [List.nil_append, List.append_nil, List.length_nil, Nat.add_zero] at loop
  rw [List.append_assoc _ gap, split] at loop
  rw [List.length_append] at written
  unfold replaceSpaces
  rw [loop]
  exact written

end InPlace

/-! ## The whole function -/

section Format

variable {pre text post start : List Char} {newline : Nat}

theorem any_commentOf (word : (start.dropWhile isSpace).any isSpace = true) :
    (commentOf start).tail.any (!isSpace ·) = true := by
  cases rest : start.dropWhile isSpace with
  | nil =>
      rw [rest] at word
      cases word
  | cons ch others =>
      have letter : isSpace ch = false := by
        have head := List.head?_dropWhile_not isSpace start
        rw [rest] at head
        exact head
      simp [commentOf, rest, letter]

theorem plain_commentOf (plain : '\x00' ∉ start) : '\x00' ∉ commentOf start := by
  intro member
  rcases List.mem_cons.mp member with newline | member
  · exact absurd newline (by decide)
  · rcases List.mem_append.mp member with space | word
    · exact plain ((List.takeWhile_prefix _).subset space)
    · exact plain ((List.dropWhile_suffix _).subset ((List.takeWhile_prefix _).subset word))

theorem plain_lineStart (plain : '\x00' ∉ pre) : '\x00' ∉ lineStart pre newline :=
  fun member => plain ((List.drop_suffix _ _).subset ((List.take_prefix _ _).subset member))

/-- Separating the comment out of the line that the license begins on. -/
theorem separateComment_license (post : List Char) (plain : '\x00' ∉ pre ++ text)
    (long : 2 ≤ text.length) (last : LastNewline pre pre.length newline)
    (inside : newline + 1 ≠ pre.length) :
    separateComment (pre ++ text ++ post) newline =
      if ((lineStart (pre ++ text) newline).dropWhile isSpace).any isSpace then
        .ok (commentOf (lineStart (pre ++ text) newline))
      else .error .outside := by
  have before := last.before
  have longLine : newline + 4 ≤ (pre ++ text).length := by
    rw [List.length_append]
    omega
  have same := lineStart_append longLine post
  have here : (pre ++ text ++ post)[newline]? = some '\n' := by
    rw [List.append_assoc, List.getElem?_append_left before]
    exact last.here
  have longWhole : newline + 4 ≤ (pre ++ text ++ post).length := by
    rw [List.length_append]
    omega
  have separated := separateComment_eq here longWhole (same ▸ plain_lineStart plain)
  rw [same] at separated
  exact separated

theorem removeComments_eq (post : List Char) (plain : '\x00' ∉ pre ++ text) (long : 2 ≤ text.length)
    (last : LastNewline pre pre.length newline)
    (line : newline + 1 = pre.length ∨
      ((lineStart (pre ++ text) newline).dropWhile isSpace).any isSpace = true) :
    ∃ blanked, '\x00' ∉ blanked ∧ blanked.length = text.length ∧
      (newline + 1 = pre.length → blanked = text) ∧
      (newline + 1 ≠ pre.length →
        Blanked (commentOf (lineStart (pre ++ text) newline)) text blanked) ∧
      removeComments (pre ++ text ++ '\x00' :: post) pre.length newline =
        .ok (pre ++ blanked ++ '\x00' :: post) := by
  have plainText : '\x00' ∉ text := fun member => plain (List.mem_append_right pre member)
  unfold removeComments
  by_cases start : newline + 1 = pre.length
  · exact ⟨text, plainText, rfl, fun _ => rfl, fun other => absurd start other,
      if_neg (not_not_intro start)⟩
  · have word := line.resolve_left start
    have separated := separateComment_license ('\x00' :: post) plain long last start
    rw [if_pos word] at separated
    have enough : text.countP (!isSpace ·) < (pre ++ text ++ '\x00' :: post).length + 1 := by
      have count := List.countP_le_length (p := (!isSpace ·)) (l := text)
      simp only [List.length_append]
      omega
    obtain ⟨blanked, steps, plainBlanked, length, run⟩ := replaceComments_eq pre post
      (any_commentOf word) (plain_commentOf (plain_lineStart plain)) plainText enough
    refine ⟨blanked, plainBlanked, length, fun same => absurd same start, fun _ => steps, ?_⟩
    rw [if_pos start, separated]
    exact run

theorem removeComments_outside (plain : '\x00' ∉ pre ++ text) (long : 2 ≤ text.length)
    (last : LastNewline pre pre.length newline)
    (other : ¬(newline + 1 = pre.length ∨
      ((lineStart (pre ++ text) newline).dropWhile isSpace).any isSpace = true)) :
    removeComments (pre ++ text ++ post) pre.length newline = .error .outside := by
  rw [not_or] at other
  have separated := separateComment_license post plain long last other.1
  rw [if_neg other.2] at separated
  unfold removeComments
  rw [if_pos other.1, separated]
  rfl

theorem getElem?_license (pre post : List Char) (nonempty : text ≠ []) :
    (pre ++ text ++ post)[pre.length]? = text.head? := by
  rw [List.append_assoc, List.getElem?_append_right (Nat.le_refl _), Nat.sub_self]
  cases text with
  | nil => exact absurd rfl nonempty
  | cons ch rest => rfl

/-- The walk back from a license that does not begin with a newline. -/
theorem findNewline_license (post : List Char) (head : text.head? ≠ some '\n')
    (nonempty : text ≠ []) (last : LastNewline pre pre.length newline) :
    findNewline (pre ++ text ++ post) pre.length = .ok newline := by
  have inside : pre.length < (pre ++ text ++ post).length := by
    have some := List.length_pos_iff.mpr nonempty
    simp only [List.length_append]
    omega
  have first := getElem?_license pre post nonempty
  apply findNewline_of_last _ inside
  rw [List.append_assoc] at first ⊢
  have whole := (lastNewline_append pre (text ++ post) newline).mpr last
  refine ⟨Nat.lt_succ_of_lt whole.before, whole.here, fun i after before => ?_⟩
  rcases Nat.lt_succ_iff_lt_or_eq.mp before with inFront | rfl
  · exact whole.last i after inFront
  · exact first ▸ head

theorem formatLicense_eq (post : List Char) (plain : '\x00' ∉ pre ++ text)
    (head : text.head? ≠ some '\n') (long : 2 ≤ text.length)
    (last : LastNewline pre pre.length newline)
    (line : newline + 1 = pre.length ∨
      ((lineStart (pre ++ text) newline).dropWhile isSpace).any isSpace = true) :
    ∃ buffer blanked,
      formatLicense (pre ++ text ++ '\x00' :: post) pre.length text.length = .ok buffer ∧
      (newline + 1 = pre.length → blanked = text) ∧
      (newline + 1 ≠ pre.length →
        Blanked (commentOf (lineStart (pre ++ text) newline)) text blanked) ∧
      cstring (buffer.drop pre.length) = squeeze false blanked := by
  have nonempty : text ≠ [] := List.length_pos_iff.mp (by omega)
  have found := findNewline_license ('\x00' :: post) head nonempty last
  obtain ⟨blanked, plainBlanked, length, whole, steps, removed⟩ :=
    removeComments_eq post plain long last line
  obtain ⟨buffer, replaced, str⟩ := replaceSpaces_eq pre post plainBlanked
  refine ⟨buffer, blanked, ?_, whole, steps, str⟩
  unfold formatLicense
  rw [found]
  change Except.bind (removeComments _ _ _) _ = _
  rw [removed, ← length]
  exact replaced

theorem line_of_formatLicense {buffer : List Char} (plain : '\x00' ∉ pre ++ text)
    (head : text.head? ≠ some '\n') (long : 2 ≤ text.length)
    (run : formatLicense (pre ++ text ++ post) pre.length text.length = .ok buffer) :
    ∃ newline, LastNewline pre pre.length newline ∧ (newline + 1 = pre.length ∨
      ((lineStart (pre ++ text) newline).dropWhile isSpace).any isSpace = true) := by
  have nonempty : text ≠ [] := List.length_pos_iff.mp (by omega)
  unfold formatLicense at run
  rcases exists_lastNewline pre pre.length with ⟨newline, last⟩ | none
  · refine ⟨newline, last, ?_⟩
    by_contra other
    rw [findNewline_license post head nonempty last] at run
    change Except.bind (removeComments _ _ _) _ = _ at run
    rw [removeComments_outside plain long last other] at run
    cases run
  · have outside : findNewline (pre ++ text ++ post) pre.length = .error .outside := by
      apply findNewline_of_none _ (by rw [List.length_append, List.length_append]; omega)
      intro i before
      rcases Nat.lt_or_eq_of_le before with inFront | rfl
      · rw [List.append_assoc, List.getElem?_append_left inFront]
        exact none i inFront
      · rw [getElem?_license pre post nonempty]
        exact head
    rw [outside] at run
    cases run

end Format

/-! ## From one text to the other -/

section Analyze

variable {buffer pre text tail : List Char} {begStr endStr newline : Nat}

/-- Where the license lies in the buffer. -/
theorem exists_split (begins : strstr licenseBeg (cstring buffer) = some begStr)
    (ends : strstr licenseEnd (cstring buffer) = some endStr) (inOrder : begStr < endStr) :
    ∃ pre text tail, buffer = pre ++ text ++ tail ∧ pre.length = begStr ∧
      text.length = endStr - begStr + licenseEnd.length ∧ '\x00' ∉ pre ++ text ∧
      licenseBeg <+: text := by
  obtain ⟨before, after, whole, rfl⟩ := strstr_eq_some begins
  obtain ⟨beforeEnd, afterEnd, wholeEnd, rfl⟩ := strstr_eq_some ends
  have lengths := congrArg List.length (whole.symm.trans wholeEnd)
  simp only [List.length_append] at lengths
  have shorter : licenseBeg.length ≤ licenseEnd.length := by decide
  have plain := plain_cstring buffer
  have parts := List.take_append_drop (beforeEnd.length - before.length + licenseEnd.length)
    (licenseBeg ++ after)
  refine ⟨before, (licenseBeg ++ after).take (beforeEnd.length - before.length + licenseEnd.length),
    (licenseBeg ++ after).drop (beforeEnd.length - before.length + licenseEnd.length) ++
      buffer.dropWhile (· != '\x00'), ?_, rfl, ?_, ?_, ?_⟩
  · rw [List.append_assoc, ← List.append_assoc (List.take _ _), parts, ← List.append_assoc,
      ← List.append_assoc, ← whole]
    exact List.takeWhile_append_dropWhile.symm
  · rw [List.length_take, List.length_append]
    omega
  · rw [whole, List.append_assoc, ← parts, ← List.append_assoc] at plain
    exact fun member => plain (List.mem_append_left _ member)
  · exact List.prefix_take_iff.mpr ⟨List.prefix_append _ _, by omega⟩

/-- What is left to do once both texts are found in order. -/
theorem analyzeLicense_of_found (begins : strstr licenseBeg (cstring buffer) = some begStr)
    (ends : strstr licenseEnd (cstring buffer) = some endStr) (inOrder : begStr < endStr) :
    analyzeLicense buffer = (do
      let buffer ← writeAt buffer (begStr + (endStr - begStr + licenseEnd.length)) '\x00'
      let buffer ← formatLicense buffer begStr (endStr - begStr + licenseEnd.length)
      pure (some (begStr, buffer))) := by
  unfold analyzeLicense strstrAt
  rw [List.drop_zero, begins, ends]
  simp only [Nat.zero_add]
  exact if_pos inOrder

theorem aborted_of_found (begins : strstr licenseBeg (cstring buffer) = some begStr)
    (ends : strstr licenseEnd (cstring buffer) = some endStr) (disorder : ¬begStr < endStr) :
    analyzeLicense buffer = .error .aborted := by
  unfold analyzeLicense strstrAt
  rw [List.drop_zero, begins, ends]
  simp only [Nat.zero_add]
  exact if_neg disorder

theorem head?_of_licenseBeg (start : licenseBeg <+: text) : text.head? ≠ some '\n' := by
  obtain ⟨rest, rfl⟩ := start
  have first : (licenseBeg ++ rest).head? = some 'R' := rfl
  rw [first]
  decide

theorem three_le_of_licenseBeg (start : licenseBeg <+: text) : 3 ≤ text.length :=
  (show 3 ≤ licenseBeg.length by decide).trans start.length_le

/-- The line that the license begins on, seen without what follows the license. -/
theorem lineStart_license (long : 3 ≤ text.length) (last : LastNewline pre pre.length newline) :
    lineStart (pre ++ text ++ tail) newline = lineStart (pre ++ text) newline := by
  have before := last.before
  exact lineStart_append (by rw [List.length_append]; omega) tail

theorem lastNewline_license :
    LastNewline (pre ++ text ++ tail) pre.length newline ↔ LastNewline pre pre.length newline := by
  rw [List.append_assoc]
  exact lastNewline_append pre (text ++ tail) newline

/-- Formatting gives the normalised license. -/
theorem normalised_of_formatLicense (tail post : List Char) (plain : '\x00' ∉ pre ++ text)
    (start : licenseBeg <+: text) (length : text.length = endStr - pre.length + licenseEnd.length)
    (last : LastNewline pre pre.length newline)
    (line : newline + 1 = pre.length ∨
      ((lineStart (pre ++ text) newline).dropWhile isSpace).any isSpace = true) :
    ∃ after, formatLicense (pre ++ text ++ '\x00' :: post) pre.length text.length = .ok after ∧
      Normalised (pre ++ text ++ tail) pre.length endStr (cstring (after.drop pre.length)) := by
  have long := three_le_of_licenseBeg start
  obtain ⟨after, blanked, run, whole, steps, str⟩ := formatLicense_eq post plain
    (head?_of_licenseBeg start) (Nat.le_of_succ_le long) last line
  have license : licenseOf (pre ++ text ++ tail) pre.length endStr = text := by
    unfold licenseOf
    rw [← length, List.append_assoc, List.drop_left, List.take_left]
  refine ⟨after, run, ?_⟩
  rw [str]
  constructor
  · exact singleSpaced_squeeze false blanked
  · intro other otherLast atStart
    have same := (lastNewline_license.mp otherLast).unique last
    rw [license, whole (same ▸ atStart)]
  · intro other otherLast inside
    have same := (lastNewline_license.mp otherLast).unique last
    rw [license, same, lineStart_license long last]
    have replaced := steps (same ▸ inside)
    refine ⟨fun occurs => ?_, blanked, replaced, replaced.not_infix, rfl⟩
    have newline : '\n' ∈ squeeze false blanked := occurs.subset List.mem_cons_self
    rcases isSpace_of_mem_squeeze newline with blank | ⟨_, letter⟩
    · exact absurd blank (by decide)
    · exact absurd letter (by decide)

theorem formattable_of_analyzeLicense {after : List Char} (size : buffer.length = licenseMaxLen)
    (begins : strstr licenseBeg (cstring buffer) = some begStr)
    (ends : strstr licenseEnd (cstring buffer) = some endStr)
    (run : analyzeLicense buffer = .ok (some (begStr, after))) :
    Formattable buffer begStr endStr := by
  by_cases inOrder : begStr < endStr
  · obtain ⟨pre, text, tail, rfl, rfl, length, plain, start⟩ := exists_split begins ends inOrder
    have long := three_le_of_licenseBeg start
    rw [analyzeLicense_of_found begins ends inOrder, ← length] at run
    rw [List.length_append, List.length_append] at size
    cases tail with
    | nil =>
        have outside : writeAt (pre ++ text ++ []) (pre.length + text.length) '\x00' =
            .error .outside := if_neg (by simp)
        rw [outside] at run
        cases run
    | cons old post =>
        have written := writeAt_append (pre ++ text) old '\x00' post
        rw [List.length_append] at written
        rw [written] at run
        change Except.bind (formatLicense _ _ _) _ = _ at run
        cases formatted : formatLicense (pre ++ text ++ '\x00' :: post) pre.length text.length with
        | error stop =>
            rw [formatted] at run
            cases run
        | ok buffer =>
            obtain ⟨newline, last, line⟩ := line_of_formatLicense plain
              (head?_of_licenseBeg start) (Nat.le_of_succ_le long) formatted
            refine ⟨inOrder, ⟨newline, lastNewline_license.mpr last, ?_⟩, ?_⟩
            · rw [lineStart_license long last]
              exact line
            · rw [List.length_cons] at size
              omega
  · rw [aborted_of_found begins ends inOrder] at run
    cases run

theorem normalised_of_formattable (size : buffer.length = licenseMaxLen)
    (begins : strstr licenseBeg (cstring buffer) = some begStr)
    (ends : strstr licenseEnd (cstring buffer) = some endStr)
    (formattable : Formattable buffer begStr endStr) :
    ∃ after, analyzeLicense buffer = .ok (some (begStr, after)) ∧
      Normalised buffer begStr endStr (cstring (after.drop begStr)) := by
  obtain ⟨inOrder, ⟨newline, last, line⟩, room⟩ := formattable
  obtain ⟨pre, text, tail, rfl, rfl, length, plain, start⟩ := exists_split begins ends inOrder
  have long := three_le_of_licenseBeg start
  rw [List.length_append, List.length_append] at size
  rw [lastNewline_license] at last
  rw [lineStart_license long last] at line
  rw [analyzeLicense_of_found begins ends inOrder, ← length]
  cases tail with
  | nil =>
      rw [List.length_nil] at size
      omega
  | cons old post =>
      obtain ⟨after, run, normalised⟩ :=
        normalised_of_formatLicense (old :: post) post plain start length last line
      have written := writeAt_append (pre ++ text) old '\x00' post
      rw [List.length_append] at written
      refine ⟨after, ?_, normalised⟩
      rw [written]
      change Except.bind (formatLicense _ _ _) _ = _
      rw [run]
      rfl

/-- The license of a file is normalised exactly if it can be formatted. -/
theorem analyzeLicense_exact {content : List Char}
    (begins : strstr licenseBeg (cstring (readFile content)) = some begStr)
    (ends : strstr licenseEnd (cstring (readFile content)) = some endStr) :
    (∃ after, analyzeLicense (readFile content) = .ok (some (begStr, after)) ∧
      Normalised (readFile content) begStr endStr (cstring (after.drop begStr))) ↔
    Formattable (readFile content) begStr endStr :=
  ⟨fun ⟨_, run, _⟩ => formattable_of_analyzeLicense (length_readFile content) begins ends run,
    normalised_of_formattable (length_readFile content) begins ends⟩

/-- A license in a C comment. -/
def commented : List Char :=
  "/*\n * Redistribution and use in\n * THE POSSIBILITY OF SUCH DAMAGE.\n */\n".toList

theorem cstring_commented : cstring (readFile commented) = commented :=
  cstring_readFile (by decide) (by decide)

theorem formattable_commented : Formattable (readFile commented) 6 35 where
  inOrder := by decide
  line := by
    refine ⟨2, ⟨by decide, rfl, fun i after before => ?_⟩, .inr ?_⟩
    · have between : i = 3 ∨ i = 4 ∨ i = 5 := by omega
      rcases between with rfl | rfl | rfl <;> decide
    · rfl
  room := by decide

theorem analyzeLicense_small :
    ∃ after, analyzeLicense (readFile commented) = .ok (some (6, after)) ∧
      Normalised (readFile commented) 6 35 (cstring (after.drop 6)) :=
  (analyzeLicense_exact (by rw [cstring_commented]; decide) (by rw [cstring_commented]; decide)).mpr
    formattable_commented

/-- The same license without the comment, at the start of its file. -/
def uncommented : List Char :=
  "Redistribution and use in\nTHE POSSIBILITY OF SUCH DAMAGE.\n".toList

theorem cstring_uncommented : cstring (readFile uncommented) = uncommented :=
  cstring_readFile (by decide) (by decide)

/-- The walk back from a license at the start of its file leaves the buffer. -/
theorem analyzeLicense_leaves_buffer :
    ¬∀ content begStr endStr, strstr licenseBeg (cstring (readFile content)) = some begStr →
      strstr licenseEnd (cstring (readFile content)) = some endStr → begStr < endStr →
      ∃ after, analyzeLicense (readFile content) = .ok (some (begStr, after)) ∧
        Normalised (readFile content) begStr endStr (cstring (after.drop begStr)) := by
  intro all
  have begins : strstr licenseBeg (cstring (readFile uncommented)) = some 0 := by
    rw [cstring_uncommented]
    decide
  have ends : strstr licenseEnd (cstring (readFile uncommented)) = some 26 := by
    rw [cstring_uncommented]
    decide
  obtain ⟨after, run, _⟩ := all uncommented 0 26 begins ends (by decide)
  have formattable := formattable_of_analyzeLicense (length_readFile _) begins ends run
  obtain ⟨newline, last, _⟩ := formattable.line
  exact Nat.not_lt_zero newline last.before

end Analyze

end Utils
end Vmem
