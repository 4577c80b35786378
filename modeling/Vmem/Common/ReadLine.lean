import Vmem.Library.Lines
import Vmem.Library.Signed
import Vmem.Library.Text

/-!
# Reading lines of any length

`util_readline` puts a line together from what several calls of `fgets` read.  The buffer doubles
before each call, and a call may fill half of it.  Where a line, or its CRLF, ends exactly with
such a piece, the line is lost or the CRLF stays.
-/

namespace Vmem
namespace Common

open Text

/-- A `FILE`: the characters that follow, and whether a read has met the end. -/
structure Stream where
  rest : List Char
  eof : Bool

/-- `fgets`: what is put into the buffer, before a zero, or `none` for `NULL`.  The end of the
file is met by a read that wants more characters than there are. -/
def stdFgets (max : Int) (stream : Stream) : Option (List Char) × Stream :=
  if max ≤ 0 then (none, stream)
  else if max = 1 then (some [], stream)
  else if stream.rest = [] then (none, { stream with eof := true })
  else
    let room := max.toNat - 1
    let taken := Lines.takeLine room stream.rest
    (some taken.1,
      { rest := taken.2,
        eof := stream.eof || (taken.1.length < room && taken.1.getLast? != some '\n') })

/-- What `util_fgets` does to the characters that were read. -/
def convertCrlf (str : List Char) : List Char :=
  let len := strlen str
  if len < 2 then str
  else if str[len - 2]? = some '\r' ∧ str[len - 1]? = some '\n' then
    (str.set (len - 2) '\n').set (len - 1) '\x00'
  else str

/-- `util_fgets`. -/
def utilFgets (max : Int) (stream : Stream) : Option (List Char) × Stream :=
  match stdFgets max stream with
  | (none, after) => (none, after)
  | (some str, after) => (some (convertCrlf str), after)

/-- `PARSER_MAX_LINE`, with a `PATH_MAX` of 4096. -/
def parserMaxLine : Nat := 4096 + 1024

/-- An access to the bytes `first`, ..., `stop - 1` of a buffer of some size. -/
structure Access where
  first : Int
  stop : Int
  size : Nat

/-- The bytes are those of the buffer. -/
def Access.Inside (access : Access) : Prop := 0 ≤ access.first ∧ access.stop ≤ access.size

/-- The result of `util_readline`, the stream afterwards and the accesses to the buffer. -/
structure Readline where
  line : Option (List Char)
  stream : Stream
  accesses : List Access

/-- `buffer[position - 1]`; `before` is the byte in front of the buffer. -/
def lastChar (before : Char) (buffer : List Char) (position : Nat) : Char :=
  match position with
  | 0 => before
  | place + 1 => buffer.getD place '\x00'

/-- What a round of the loop of `util_readline` ends with: the function returns, or there is another
round with the position and the buffer. -/
inductive Round
  | returns (line : Option (List Char))
  | goesOn (position : Nat) (buffer : List Char)

/-- A round of the loop of `util_readline`, the stream afterwards and the accesses to the buffer.
`reallocs` says which sizes `Realloc` has memory for. -/
def readlineRound (reallocs : Nat → Bool) (before : Char) (bufsize position : Nat)
    (buffer : List Char) (stream : Stream) : Round × Stream × List Access :=
  if reallocs bufsize then
    let max := (toInt32 bufsize).tdiv 2
    let write : Access := ⟨position, position + max, bufsize⟩
    match utilFgets max stream with
    | (none, stream) => (.returns none, stream, [write])
    | (some str, stream) =>
        let buffer := buffer.take position ++ str
        let position := strlen buffer
        let read : Access := ⟨(position : Int) - 1, position, bufsize⟩
        if !stream.eof && lastChar before buffer position != '\n' then
          (.goesOn position buffer, stream, [write, read])
        else (.returns (some (cstring buffer)), stream, [write, read])
  else (.returns none, stream, [])

/-- The loop of `util_readline`.  It ends after twenty rounds, when half of `(int)bufsize` is
negative. -/
def utilReadlineLoop (reallocs : Nat → Bool) (before : Char) :
    Nat → Nat → Nat → List Char → Stream → Readline
  | 0, _, _, _, stream => ⟨none, stream, []⟩
  | fuel + 1, bufsize, position, buffer, stream =>
      match readlineRound reallocs before bufsize position buffer stream with
      | (.returns line, stream, accesses) => ⟨line, stream, accesses⟩
      | (.goesOn position buffer, stream, accesses) =>
          let later := utilReadlineLoop reallocs before fuel (2 * bufsize) position buffer stream
          { later with accesses := accesses ++ later.accesses }

/-- `util_readline`. -/
def utilReadline (reallocs : Nat → Bool) (before : Char) (stream : Stream) : Readline :=
  utilReadlineLoop reallocs before 20 parserMaxLine 0 [] stream

/-- What is read by calls of `util_readline` until one returns `NULL`, and all accesses. -/
def readAll (reallocs : Nat → Bool) (before : Char) :
    Nat → Stream → List (List Char) × List Access
  | 0, _ => ([], [])
  | calls + 1, stream =>
      let readline := utilReadline reallocs before stream
      match readline.line with
      | none => ([], readline.accesses)
      | some line =>
          let later := readAll reallocs before calls readline.stream
          (line :: later.1, readline.accesses ++ later.2)

/-! ## The lines that are read as a whole -/

/-- A line with a CRLF at its end turned into LF. -/
def crlfToLf (line : List Char) : List Char :=
  if line.drop (line.length - 2) = ['\r', '\n'] then line.take (line.length - 2) ++ ['\n']
  else line

/-- The size of the buffer in a round. -/
def bufsizeAt : Nat → Nat
  | 0 => parserMaxLine
  | round + 1 => 2 * bufsizeAt round

/-- How much of a line the rounds before one read if they are filled: 2559, 7678, 17917, ... -/
def readBefore : Nat → Nat
  | 0 => 0
  | round + 1 => readBefore round + (bufsizeAt round / 2 - 1)

/-- A line that many characters long ends exactly with a round. -/
def EndsRound (length : Nat) : Prop := ∃ round, 0 < round ∧ round ≤ 19 ∧ length = readBefore round

/-- The line is not too long; if it has no end, it does not fill the rounds that read it; and its
CRLF, if it has one, is not parted by the end of a round. -/
structure ReadWhole (line : List Char) : Prop where
  fits : line.length ≤ readBefore 19
  unended : line.getLast? ≠ some '\n' → ¬EndsRound line.length
  crlf : line.drop (line.length - 2) = ['\r', '\n'] → ¬EndsRound (line.length - 1)

/-! ## Strings -/

section Strings

variable {str body buffer : List Char} {before : Char}

theorem length_convertCrlf (str : List Char) : (convertCrlf str).length = str.length := by
  simp only [convertCrlf]
  split
  · rfl
  · split
    · rw [List.length_set, List.length_set]
    · rfl

/-- Without the end of a line there is nothing to convert. -/
theorem convertCrlf_of_unended (unended : '\n' ∉ str) : convertCrlf str = str := by
  simp only [convertCrlf]
  split
  · rfl
  · rw [if_neg]
    rintro ⟨_, last⟩
    exact unended (List.mem_of_getElem? last)

theorem convertCrlf_singleton (ch : Char) : convertCrlf [ch] = [ch] := by
  have short : strlen [ch] < 2 := Nat.lt_succ_of_le (length_cstring_le [ch])
  simp only [convertCrlf]
  rw [if_pos short]

theorem crlfToLf_append_pair (body : List Char) (first second : Char) :
    crlfToLf (body ++ [first, second]) =
      if first = '\r' ∧ second = '\n' then body ++ ['\n'] else body ++ [first, second] := by
  unfold crlfToLf
  rw [List.length_append, show body.length + [first, second].length - 2 = body.length from rfl,
    List.drop_left, List.take_left]
  simp only [List.cons.injEq, and_true]

theorem exists_last_two (long : 2 ≤ str.length) :
    ∃ body first second, str = body ++ [first, second] := by
  obtain rfl | ⟨start, second, rfl⟩ := List.eq_nil_or_concat' str
  · exact absurd long (by decide)
  · obtain rfl | ⟨body, first, rfl⟩ := List.eq_nil_or_concat' start
    · exact absurd long (Nat.lt_irrefl 1)
    · exact ⟨body, first, second, List.append_assoc body [first] [second]⟩

/-- The conversion in place, up to the `\0` that ends the string. -/
theorem cstring_convertCrlf (plain : '\x00' ∉ str) (long : 2 ≤ str.length) :
    cstring (convertCrlf str) = crlfToLf str := by
  have len := strlen_of_plain plain
  have unchanged := cstring_of_plain plain
  obtain ⟨body, first, second, rfl⟩ := exists_last_two long
  have size : (body ++ [first, second]).length = body.length + 2 := List.length_append
  have bodyPlain : '\x00' ∉ body := fun member => plain (List.mem_append_left _ member)
  simp only [convertCrlf]
  rw [crlfToLf_append_pair, if_neg (by omega), len, size, Nat.add_sub_cancel,
    show body.length + 2 - 1 = body.length + 1 from rfl, List.getElem?_append_right (by omega),
    List.getElem?_append_right (by omega), Nat.sub_self, Nat.add_sub_cancel_left]
  simp only [List.getElem?_cons_zero, List.getElem?_cons_succ, Option.some.injEq]
  by_cases pair : first = '\r' ∧ second = '\n'
  · rw [if_pos pair, if_pos pair, List.set_append_right _ _ (by omega), Nat.sub_self,
      List.set_append_right _ _ (by omega), Nat.add_sub_cancel_left]
    change cstring (body ++ ['\n', '\x00']) = body ++ ['\n']
    unfold cstring
    rw [List.takeWhile_append_of_pos]
    · rfl
    · intro ch member
      exact bne_iff_ne.mpr fun same => bodyPlain (same ▸ member)
  · rw [if_neg pair, if_neg pair, unchanged]

/-- Only the last two characters matter. -/
theorem crlfToLf_append (buffer : List Char) (long : 2 ≤ str.length) :
    crlfToLf (buffer ++ str) = buffer ++ crlfToLf str := by
  obtain ⟨body, first, second, rfl⟩ := exists_last_two long
  rw [← List.append_assoc, crlfToLf_append_pair, crlfToLf_append_pair]
  split
  · exact List.append_assoc buffer body _
  · exact List.append_assoc buffer body _

/-- The converted line ends like the line. -/
theorem exists_crlfToLf_ended (body : List Char) :
    ∃ start, crlfToLf (body ++ ['\n']) = start ++ ['\n'] := by
  unfold crlfToLf
  split
  · exact ⟨_, rfl⟩
  · exact ⟨_, rfl⟩

/-- A line without an end has no CRLF. -/
theorem crlfToLf_of_unended (unended : '\n' ∉ str) : crlfToLf str = str := by
  unfold crlfToLf
  rw [if_neg]
  intro pair
  have member : '\n' ∈ str.drop (str.length - 2) := by
    rw [pair]
    exact List.mem_cons_of_mem _ List.mem_cons_self
  exact unended (List.mem_of_mem_drop member)

end Strings

/-! ## Rounds -/

theorem bufsizeAt_pos (round : Nat) : 5120 ≤ bufsizeAt round := by
  induction round with
  | zero => exact Nat.le_refl _
  | succ round inductionHypothesis =>
      unfold bufsizeAt
      omega

theorem bufsizeAt_le {round later : Nat} (le : round ≤ later) :
    bufsizeAt round ≤ bufsizeAt later := by
  induction later with
  | zero => rw [Nat.le_zero.mp le]
  | succ later inductionHypothesis =>
      rcases Nat.lt_or_eq_of_le le with less | same
      · have before := inductionHypothesis (Nat.le_of_lt_succ less)
        rw [bufsizeAt]
        omega
      · rw [same]

/-- What a round may read. -/
def roomAt (round : Nat) : Nat := bufsizeAt round / 2 - 1

theorem roomAt_pos (round : Nat) : 2 ≤ roomAt round := by
  have large := bufsizeAt_pos round
  unfold roomAt
  omega

theorem readBefore_succ (round : Nat) :
    readBefore (round + 1) = readBefore round + roomAt round := rfl

theorem readBefore_lt {round later : Nat} (less : round < later) :
    readBefore round < readBefore later := by
  induction later with
  | zero => cases less
  | succ later inductionHypothesis =>
      have positive := roomAt_pos later
      rw [readBefore_succ]
      rcases Nat.lt_or_eq_of_le (Nat.le_of_lt_succ less) with before | same
      · have lower := inductionHypothesis before
        omega
      · rw [same]
        omega

theorem readBefore_le {round later : Nat} (le : round ≤ later) :
    readBefore round ≤ readBefore later := by
  rcases Nat.lt_or_eq_of_le le with less | same
  · exact Nat.le_of_lt (readBefore_lt less)
  · rw [same]

/-- No round ends inside another one. -/
theorem not_endsRound {round length : Nat} (lower : readBefore round < length)
    (upper : length < readBefore (round + 1)) : ¬EndsRound length := by
  rintro ⟨other, _, _, same⟩
  rcases Nat.lt_or_ge round other with after | before
  · have order : readBefore (round + 1) ≤ readBefore other := readBefore_le after
    omega
  · have order := readBefore_le before
    omega

/-- The number that `fgets` is given in the rounds before the last one. -/
theorem max_of_lt {round : Nat} (less : round < 19) :
    (toInt32 (bufsizeAt round)).tdiv 2 = (roomAt round + 1 : Nat) := by
  have large := bufsizeAt_pos round
  have small : bufsizeAt round ≤ bufsizeAt 18 := bufsizeAt_le (by omega)
  have last : bufsizeAt 18 = 1342177280 := by decide
  rw [toInt32_of_fits (by omega) (by omega), Int.tdiv_eq_ediv_of_nonneg (by omega)]
  unfold roomAt
  omega

/-- In the last round that is negative. -/
theorem max_last : (toInt32 (bufsizeAt 19)).tdiv 2 = -805306368 := by decide

/-! ## What `fgets` reads -/

section Fgets

variable {room : Nat} {body rest : List Char}

theorem stdFgets_eq {file : List Char} (positive : 0 < room) (nonempty : file ≠ []) :
    stdFgets (room + 1 : Nat) ⟨file, false⟩ =
      (some (Lines.takeLine room file).1,
        ⟨(Lines.takeLine room file).2, (Lines.takeLine room file).1.length < room &&
          (Lines.takeLine room file).1.getLast? != some '\n'⟩) := by
  unfold stdFgets
  rw [if_neg (by omega), if_neg (by omega), if_neg nonempty]
  simp only [Int.toNat_natCast, Nat.add_sub_cancel, Bool.false_or]

/-- A line that does not fit is cut, and the end of the file is not met. -/
theorem utilFgets_of_long (tail : List Char) (positive : 0 < room) (unended : '\n' ∉ body)
    (long : room ≤ body.length) :
    utilFgets (room + 1 : Nat) ⟨body ++ tail, false⟩ =
      (some (body.take room), ⟨body.drop room ++ tail, false⟩) := by
  have nonempty : body ++ tail ≠ [] := by
    intro empty
    rw [List.append_eq_nil_iff] at empty
    rw [empty.1, List.length_nil] at long
    omega
  have first : '\n' ∉ body.take room := fun member => unended (List.mem_of_mem_take member)
  have full : ¬(body.take room).length < room := by
    rw [List.length_take_of_le long]
    exact Nat.lt_irrefl room
  simp only [utilFgets, stdFgets_eq positive nonempty, Lines.takeLine_of_long unended long,
    convertCrlf_of_unended first, decide_eq_false full, Bool.false_and]

/-- A line that fits is read with its end. -/
theorem utilFgets_of_ended (rest : List Char) (unended : '\n' ∉ body) (fits : body.length < room) :
    utilFgets (room + 1 : Nat) ⟨body ++ '\n' :: rest, false⟩ =
      (some (convertCrlf (body ++ ['\n'])), ⟨rest, false⟩) := by
  have nonempty : body ++ '\n' :: rest ≠ [] := List.append_ne_nil_of_right_ne_nil _ nofun
  have taken : Lines.takeLine room (body ++ '\n' :: rest) = (body ++ ['\n'], rest) := by
    rw [Lines.takeLine_append _ unended (Nat.le_of_lt fits),
      show room - body.length = room - body.length - 1 + 1 by omega, Lines.takeLine, if_pos rfl]
  simp only [utilFgets, stdFgets_eq (Nat.zero_lt_of_lt fits) nonempty, taken,
    List.getLast?_concat, bne_self_eq_false, Bool.and_false]

/-- The last line, if it fits and has no end, is read with the end of the file. -/
theorem utilFgets_of_unended (unended : '\n' ∉ body) (nonempty : body ≠ [])
    (fits : body.length < room) :
    utilFgets (room + 1 : Nat) ⟨body, false⟩ = (some body, ⟨[], true⟩) := by
  have taken : Lines.takeLine room body = (body, []) := by
    have whole := Lines.takeLine_append [] unended (Nat.le_of_lt fits)
    rwa [Lines.takeLine_nil, List.append_nil] at whole
  have last : body.getLast? ≠ some '\n' := fun ends => unended (List.mem_of_getLast? ends)
  simp only [utilFgets, stdFgets_eq (Nat.zero_lt_of_lt fits) nonempty, taken,
    convertCrlf_of_unended unended, decide_eq_true fits, bne_iff_ne.mpr last, Bool.and_true]

theorem utilFgets_of_end (eof : Bool) (positive : 0 < room) :
    utilFgets (room + 1 : Nat) ⟨[], eof⟩ = (none, ⟨[], true⟩) := by
  unfold utilFgets stdFgets
  rw [if_neg (by omega), if_neg (by omega), if_pos rfl]

theorem utilFgets_of_nonpos {max : Int} (stream : Stream) (nonpos : max ≤ 0) :
    utilFgets max stream = (none, stream) := by
  unfold utilFgets stdFgets
  rw [if_pos nonpos]

end Fgets

/-! ## The loop -/

section Loop

variable {reallocs : Nat → Bool} {before : Char} {fuel bufsize position : Nat}
  {buffer str start : List Char} {stream after : Stream} {ch : Char}

/-- `buffer[position - 1]` is the last character of the string. -/
theorem lastChar_strlen (last : cstring buffer = start ++ [ch]) :
    lastChar before buffer (strlen buffer) = ch := by
  have whole : buffer = start ++ [ch] ++ buffer.dropWhile (· != '\x00') := by
    rw [← last]
    exact List.takeWhile_append_dropWhile.symm
  have length : strlen buffer = start.length + 1 := by
    unfold strlen
    rw [last, List.length_append, List.length_singleton]
  rw [length]
  change buffer.getD start.length '\x00' = ch
  rw [List.getD_eq_getElem?_getD, whole, List.append_assoc,
    List.getElem?_append_right (Nat.le_refl _), Nat.sub_self]
  rfl

theorem lastChar_ne (before : Char) (plain : '\x00' ∉ buffer) (unended : '\n' ∉ buffer)
    (nonempty : buffer ≠ []) :
    lastChar before buffer (strlen buffer) ≠ '\n' := by
  obtain rfl | ⟨start, ch, rfl⟩ := List.eq_nil_or_concat' buffer
  · exact absurd rfl nonempty
  · rw [lastChar_strlen (cstring_of_plain plain)]
    intro same
    exact unended (same ▸ List.mem_append_right start List.mem_cons_self)

theorem round_of_none (succeeds : reallocs bufsize = true)
    (read : utilFgets ((toInt32 bufsize).tdiv 2) stream = (none, after)) :
    readlineRound reallocs before bufsize position buffer stream =
      (.returns none, after, [⟨position, position + (toInt32 bufsize).tdiv 2, bufsize⟩]) := by
  simp only [readlineRound, succeeds, read, ite_true]

theorem round_of_some {kept : List Char} (succeeds : reallocs bufsize = true)
    (read : utilFgets ((toInt32 bufsize).tdiv 2) stream = (some str, after))
    (take : buffer.take position = kept) :
    readlineRound reallocs before bufsize position buffer stream =
      (if !after.eof && lastChar before (kept ++ str) (strlen (kept ++ str)) != '\n' then
          .goesOn (strlen (kept ++ str)) (kept ++ str)
        else .returns (some (cstring (kept ++ str))), after,
        [⟨position, position + (toInt32 bufsize).tdiv 2, bufsize⟩,
          ⟨(strlen (kept ++ str) : Int) - 1, strlen (kept ++ str), bufsize⟩]) := by
  simp only [readlineRound, succeeds, read, ite_true, take]
  split <;> rfl

/-- A round that reads no end goes on to the next one. -/
theorem round_goes_on (before : Char) (succeeds : reallocs bufsize = true)
    (read : utilFgets ((toInt32 bufsize).tdiv 2) stream = (some str, after))
    (more : after.eof = false) (plain : '\x00' ∉ buffer ++ str) (unended : '\n' ∉ buffer ++ str)
    (nonempty : buffer ++ str ≠ []) :
    ∃ accesses, readlineRound reallocs before bufsize buffer.length buffer stream =
      (.goesOn (buffer ++ str).length (buffer ++ str), after, accesses) := by
  have last := lastChar_ne before plain unended nonempty
  rw [round_of_some succeeds read List.take_length, more, bne_iff_ne.mpr last,
    strlen_of_plain plain]
  exact ⟨_, rfl⟩

/-- A round that reads the end of the line, or of the file, is the last one. -/
theorem round_returns (before : Char) (buffer : List Char) (succeeds : reallocs bufsize = true)
    (read : utilFgets ((toInt32 bufsize).tdiv 2) stream = (some str, after))
    (ends : after.eof = true ∨ ∃ start, cstring (buffer ++ str) = start ++ ['\n']) :
    ∃ accesses, readlineRound reallocs before bufsize buffer.length buffer stream =
      (.returns (some (cstring (buffer ++ str))), after, accesses) := by
  rw [round_of_some succeeds read List.take_length]
  rcases ends with met | ⟨start, last⟩
  · rw [met]
    exact ⟨_, rfl⟩
  · rw [lastChar_strlen last, bne_self_eq_false, Bool.and_false]
    exact ⟨_, rfl⟩

end Loop

/-- What is expected of a call: it returns the line if that is read whole, and only then. -/
def ReadsFirst (line : List Char) (after : Stream) (readline : Readline) : Prop :=
  (ReadWhole line → readline.line = some (crlfToLf line) ∧ readline.stream = after) ∧
    (readline.line = some (crlfToLf line) → ReadWhole line)

/-! ## Lines and rounds -/

section FirstLine

variable {buffer body : List Char} {round : Nat}

/-- A line that ends with the rounds before one is not read whole. -/
theorem not_readWhole_of_unended (unended : '\n' ∉ buffer) (positive : 0 < round)
    (bound : round ≤ 19) (length : buffer.length = readBefore round) : ¬ReadWhole buffer := by
  intro whole
  exact whole.unended (fun last => unended (List.mem_of_getLast? last))
    ⟨round, positive, bound, length⟩

/-- A line without an end that ends inside a round is read whole. -/
theorem readWhole_of_unended (unended : '\n' ∉ body) (bound : round < 19)
    (lower : readBefore round < body.length) (upper : body.length < readBefore (round + 1)) :
    ReadWhole body := by
  have order := readBefore_le (show round + 1 ≤ 19 from bound)
  refine ⟨by omega, fun _ => not_endsRound lower upper, ?_⟩
  intro pair
  have member : '\n' ∈ body.drop (body.length - 2) := by
    rw [pair]
    exact List.mem_cons_of_mem _ List.mem_cons_self
  exact absurd (List.mem_of_mem_drop member) unended

/-- A line whose end, and what is before it, are read in one round is read whole. -/
theorem readWhole_of_ended (bound : round < 19) (lower : readBefore round < body.length)
    (upper : body.length < readBefore (round + 1)) : ReadWhole (body ++ ['\n']) := by
  have order := readBefore_le (show round + 1 ≤ 19 from bound)
  have length : (body ++ ['\n']).length = body.length + 1 := List.length_append
  refine ⟨by omega, fun last => absurd List.getLast?_concat last, fun _ => ?_⟩
  rw [length, Nat.add_sub_cancel]
  exact not_endsRound lower upper

/-- A line whose end is alone in a round is read whole unless that parts its CRLF. -/
theorem readWhole_iff_of_end_alone (bound : round < 19)
    (length : buffer.length = readBefore round) :
    ReadWhole (buffer ++ ['\n']) ↔ crlfToLf (buffer ++ ['\n']) = buffer ++ ['\n'] := by
  have order := readBefore_le (show round + 1 ≤ 19 from bound)
  have room := roomAt_pos round
  have next := readBefore_succ round
  have size : (buffer ++ ['\n']).length = buffer.length + 1 := List.length_append
  obtain rfl | ⟨start, ch, rfl⟩ := List.eq_nil_or_concat' buffer
  · exact ⟨fun _ => rfl, fun _ => ⟨by omega, nofun, nofun⟩⟩
  · have positive : 0 < round := by
      rcases Nat.eq_zero_or_pos round with zero | positive
      · rw [zero, List.length_append] at length
        cases length
      · exact positive
    constructor
    · intro whole
      unfold crlfToLf
      rw [if_neg]
      intro pair
      exact whole.crlf pair ⟨round, positive, Nat.le_of_lt bound, by omega⟩
    · intro same
      refine ⟨by omega, fun last => absurd List.getLast?_concat last, ?_⟩
      intro pair
      have startSize : (start ++ [ch]).length = start.length + 1 := List.length_append
      have shorter := congrArg List.length same
      unfold crlfToLf at shorter
      rw [if_pos pair, List.length_append, List.length_take, List.length_singleton] at shorter
      omega

end FirstLine

section LoopRun

variable {reallocs : Nat → Bool} {before : Char} {fuel round : Nat} {buffer body tail : List Char}

/-- What the rounds before this one have read is in the buffer; what follows of the line is at the
start of the stream. -/
structure InLine (round : Nat) (buffer body tail : List Char) : Prop where
  length : buffer.length = readBefore round
  plain : '\x00' ∉ buffer ++ body
  unended : '\n' ∉ buffer ++ body
  shape : tail = [] ∨ ∃ rest, tail = '\n' :: rest
  nonempty : 0 < round ∨ body ++ tail ≠ []

/-- The rest of a line that does not fit is what the next round finds. -/
theorem InLine.next (here : InLine round buffer body tail) (long : roomAt round ≤ body.length) :
    InLine (round + 1) (buffer ++ body.take (roomAt round)) (body.drop (roomAt round)) tail := by
  have whole : buffer ++ body.take (roomAt round) ++ body.drop (roomAt round) = buffer ++ body := by
    rw [List.append_assoc, List.take_append_drop]
  refine ⟨?_, whole ▸ here.plain, whole ▸ here.unended, here.shape, .inl (Nat.succ_pos _)⟩
  rw [List.length_append, List.length_take_of_le long, here.length, readBefore_succ]

/-- A round that reads the end of a line. -/
theorem InLine.returns_of_ended {rest : List Char} (succeeds : ∀ size, reallocs size = true)
    (bound : round < 19) (here : InLine round buffer body ('\n' :: rest))
    (fits : body.length < roomAt round) :
    ReadsFirst (buffer ++ body ++ ['\n']) ⟨rest, false⟩
      (utilReadlineLoop reallocs before (fuel + 1) (bufsizeAt round) buffer.length buffer
        ⟨body ++ '\n' :: rest, false⟩) := by
  have unended : '\n' ∉ body := fun member => here.unended (List.mem_append_right _ member)
  have plain : '\x00' ∉ buffer := fun member => here.plain (List.mem_append_left _ member)
  have read := utilFgets_of_ended rest unended fits
  rw [← max_of_lt bound] at read
  by_cases alone : body = []
  · subst alone
    have string : cstring (buffer ++ ['\n']) = buffer ++ ['\n'] := cstring_append plain ['\n']
    rw [List.nil_append, List.nil_append, convertCrlf_singleton] at read
    obtain ⟨accesses, step⟩ := round_returns before buffer
      (succeeds (bufsizeAt round)) read (.inr ⟨buffer, string⟩)
    have exact := readWhole_iff_of_end_alone bound here.length
    rw [List.append_nil, ReadsFirst, utilReadlineLoop, List.nil_append, step, string, exact]
    exact ⟨fun same => ⟨congrArg some same.symm, rfl⟩, fun same => (Option.some.inj same).symm⟩
  · have linePlain : '\x00' ∉ body ++ ['\n'] := by
      intro member
      rcases List.mem_append.mp member with inBody | inEnd
      · exact here.plain (List.mem_append_right _ inBody)
      · exact absurd (List.mem_singleton.mp inEnd) (by decide)
    have long : 2 ≤ (body ++ ['\n']).length := by
      rw [List.length_append]
      exact Nat.succ_le_succ (List.length_pos_iff.mpr alone)
    have string : cstring (buffer ++ convertCrlf (body ++ ['\n'])) =
        crlfToLf (buffer ++ body ++ ['\n']) := by
      rw [cstring_append plain, cstring_convertCrlf linePlain long, List.append_assoc,
        crlfToLf_append buffer long]
    obtain ⟨start, last⟩ := exists_crlfToLf_ended (buffer ++ body)
    obtain ⟨accesses, step⟩ := round_returns before buffer
      (succeeds (bufsizeAt round)) read (.inr ⟨start, string.trans last⟩)
    have size : (buffer ++ body).length = buffer.length + body.length := List.length_append
    have length := here.length
    have next := readBefore_succ round
    have positive := List.length_pos_iff.mpr alone
    have whole : ReadWhole (buffer ++ body ++ ['\n']) :=
      readWhole_of_ended bound (by omega) (by omega)
    rw [ReadsFirst, utilReadlineLoop, step, string]
    exact ⟨fun _ => ⟨rfl, rfl⟩, fun _ => whole⟩

/-- A round that reads the end of the file. -/
theorem InLine.returns_of_unended (succeeds : ∀ size, reallocs size = true)
    (bound : round < 19) (here : InLine round buffer body []) (some : body ≠ [])
    (fits : body.length < roomAt round) :
    ReadsFirst (buffer ++ body) ⟨[], true⟩
      (utilReadlineLoop reallocs before (fuel + 1) (bufsizeAt round) buffer.length buffer
        ⟨body, false⟩) := by
  have unended : '\n' ∉ body := fun member => here.unended (List.mem_append_right _ member)
  have size : (buffer ++ body).length = buffer.length + body.length := List.length_append
  have length := here.length
  have next := readBefore_succ round
  have positive := List.length_pos_iff.mpr some
  have whole : ReadWhole (buffer ++ body) :=
    readWhole_of_unended here.unended bound (by omega) (by omega)
  have read := utilFgets_of_unended unended some fits
  rw [← max_of_lt bound] at read
  obtain ⟨accesses, step⟩ := round_returns before buffer
    (succeeds (bufsizeAt round)) read (.inl rfl)
  rw [ReadsFirst, utilReadlineLoop, step, crlfToLf_of_unended here.unended,
    cstring_of_plain here.plain]
  exact ⟨fun _ => ⟨rfl, rfl⟩, fun _ => whole⟩

theorem ReadsFirst.of_none {line : List Char} {after : Stream} {readline : Readline}
    (lost : ¬ReadWhole line) (none : readline.line = none) : ReadsFirst line after readline :=
  ⟨fun whole => absurd whole lost, fun some => absurd (none.symm.trans some) nofun⟩

/-- What is left for the last round is of a line that is not read whole. -/
theorem not_readWhole_of_last (here : InLine 19 buffer body tail) :
    ¬ReadWhole (buffer ++ body ++ tail.take 1) := by
  by_cases none : body ++ tail.take 1 = []
  · have noEnd := fun member => here.unended (List.mem_append_left _ member)
    rw [List.append_assoc, none, List.append_nil]
    exact not_readWhole_of_unended noEnd (by decide) (Nat.le_refl 19) here.length
  · intro whole
    have positive := List.length_pos_iff.mpr none
    have fits := whole.fits
    rw [List.append_assoc, List.length_append, here.length] at fits
    omega

/-- The loop reads the rest of the line. -/
theorem loop_readsFirst (rounds : round + fuel = 20) (succeeds : ∀ size, reallocs size = true)
    (bound : round ≤ 19) (here : InLine round buffer body tail) :
    ReadsFirst (buffer ++ body ++ tail.take 1) ⟨tail.drop 1, tail.isEmpty⟩
      (utilReadlineLoop reallocs before fuel (bufsizeAt round) buffer.length buffer
        ⟨body ++ tail, false⟩) := by
  induction fuel generalizing round buffer body with
  | zero => omega
  | succ fuel inductionHypothesis =>
      have unended : '\n' ∉ body := fun member => here.unended (List.mem_append_right _ member)
      by_cases last : round = 19
      · -- The last round reads nothing, and what the others have read is lost.
        subst last
        have read := utilFgets_of_nonpos ⟨body ++ tail, false⟩
          (show (toInt32 (bufsizeAt 19)).tdiv 2 ≤ 0 by decide)
        apply ReadsFirst.of_none
        · exact not_readWhole_of_last here
        · rw [utilReadlineLoop, round_of_none (succeeds _) read]
      · have less : round < 19 := Nat.lt_of_le_of_ne bound last
        have room := roomAt_pos round
        by_cases long : roomAt round ≤ body.length
        · have read := utilFgets_of_long tail (by omega) unended long
          rw [← max_of_lt less] at read
          have next := here.next long
          have nextPlain := fun member => next.plain (List.mem_append_left _ member)
          have nextUnended := fun member => next.unended (List.mem_append_left _ member)
          have nextLength := next.length
          have grows := readBefore_succ round
          obtain ⟨accesses, step⟩ := round_goes_on before (succeeds (bufsizeAt round))
            read rfl nextPlain nextUnended (List.ne_nil_of_length_pos (by omega))
          have later := inductionHypothesis (by omega) less next
          rw [List.append_assoc buffer, List.take_append_drop] at later
          rw [utilReadlineLoop, step]
          exact later
        · have fits : body.length < roomAt round := Nat.lt_of_not_le long
          rcases here.shape with rfl | ⟨rest, rfl⟩
          · rw [List.take_nil, List.append_nil, List.append_nil]
            by_cases none : body = []
            · subst none
              have read := utilFgets_of_end false (show 0 < roomAt round by omega)
              rw [← max_of_lt less] at read
              have positive : 0 < round := here.nonempty.resolve_right (fun some => some rfl)
              apply ReadsFirst.of_none
              · rw [List.append_nil]
                have noEnd := fun member => here.unended (List.mem_append_left _ member)
                exact not_readWhole_of_unended noEnd positive bound here.length
              · rw [utilReadlineLoop, round_of_none (succeeds _) read]
            · exact here.returns_of_unended succeeds less none fits
          · exact here.returns_of_ended succeeds less fits

end LoopRun

/-! ## All lines -/

section AllLines

variable {reallocs : Nat → Bool} {before : Char}

/-- A call reads the first line of a text. -/
theorem utilReadline_readsFirst (before : Char) (succeeds : ∀ size, reallocs size = true)
    {body tail : List Char} (plain : '\x00' ∉ body) (unended : '\n' ∉ body)
    (shape : tail = [] ∨ ∃ rest, tail = '\n' :: rest) (nonempty : body ++ tail ≠ []) :
    ReadsFirst (body ++ tail.take 1) ⟨tail.drop 1, tail.isEmpty⟩
      (utilReadline reallocs before ⟨body ++ tail, false⟩) :=
  loop_readsFirst (show 0 + 20 = 20 from rfl) succeeds (by decide)
    (show InLine 0 [] body tail from ⟨rfl, plain, unended, shape, .inr nonempty⟩)

theorem utilReadline_end (succeeds : ∀ size, reallocs size = true) (eof : Bool) :
    (utilReadline reallocs before ⟨[], eof⟩).line = none := by
  have read := utilFgets_of_end eof (show 0 < roomAt 0 by decide)
  rw [← max_of_lt (by decide)] at read
  change (utilReadlineLoop reallocs before (19 + 1) (bufsizeAt 0) 0 [] ⟨[], eof⟩).line = none
  rw [utilReadlineLoop, round_of_none (succeeds _) read]

/-- The lines are read exactly if each is read whole. -/
theorem readAll_eq_iff (succeeds : ∀ size, reallocs size = true) {calls : Nat} {stream : Stream}
    (ended : stream.eof = true → stream.rest = []) (plain : '\x00' ∉ stream.rest)
    (enough : stream.rest.length < calls) :
    (readAll reallocs before calls stream).1 = (Lines.linesOf stream.rest).map crlfToLf ↔
      ∀ line ∈ Lines.linesOf stream.rest, ReadWhole line := by
  induction calls generalizing stream with
  | zero => cases enough
  | succ calls inductionHypothesis =>
      obtain ⟨rest, eof⟩ := stream
      by_cases none : rest = []
      · subst none
        simp only [readAll, utilReadline_end succeeds]
        exact ⟨fun _ => nofun, fun _ => rfl⟩
      · have unmet : eof = false := Bool.eq_false_iff.mpr fun met => none (ended met)
        obtain ⟨body, tail, rfl, unended, shape⟩ := Lines.exists_first_line rest
        subst unmet
        have bodyPlain := fun member => plain (List.mem_append_left tail member)
        have restPlain : '\x00' ∉ tail.drop 1 := fun member =>
          plain (List.mem_append_right body (List.mem_of_mem_drop member))
        have met : tail.isEmpty = true → tail.drop 1 = [] := by
          intro empty
          rw [List.isEmpty_iff.mp empty, List.drop_nil]
        have shorter : (tail.drop 1).length < calls := by
          have some := List.length_pos_iff.mpr none
          simp only [List.length_append, List.length_drop] at enough some ⊢
          omega
        obtain ⟨good, only⟩ := utilReadline_readsFirst before succeeds bodyPlain unended
          shape none
        have later := @inductionHypothesis ⟨tail.drop 1, tail.isEmpty⟩ met restPlain
          shorter
        rw [Lines.linesOf_append unended shape none, List.map_cons, List.forall_mem_cons, readAll]
        cases result : (utilReadline reallocs before ⟨body ++ tail, false⟩).line with
        | none =>
            refine ⟨nofun, fun whole => ?_⟩
            rw [result] at good
            exact absurd (good whole.1).1 nofun
        | some line =>
            rw [result] at good only
            simp only [List.cons.injEq]
            constructor
            · rintro ⟨first, others⟩
              have whole := only (congrArg some first)
              rw [(good whole).2] at others
              exact ⟨whole, later.mp others⟩
            · rintro ⟨whole, others⟩
              obtain ⟨first, after⟩ := good whole
              rw [after]
              exact ⟨Option.some.inj first, later.mpr others⟩

end AllLines

/-! ## Accesses -/

section Accesses

variable {reallocs : Nat → Bool} {before : Char} {fuel round position : Nat}
  {buffer str : List Char} {stream after : Stream} {max : Int}

theorem cstring_convertCrlf_ne_nil (plain : '\x00' ∉ str) (nonempty : str ≠ []) :
    cstring (convertCrlf str) ≠ [] := by
  cases str with
  | nil => exact absurd rfl nonempty
  | cons first others =>
      cases others with
      | nil =>
          rw [convertCrlf_singleton, cstring_of_plain plain]
          exact nonempty
      | cons second others =>
          rw [cstring_convertCrlf plain (Nat.le_add_left 2 _)]
          unfold crlfToLf
          split
          · exact List.append_ne_nil_of_right_ne_nil _ nofun
          · exact nonempty

/-- What `util_fgets` reads fits into what it is given, and is not empty. -/
theorem utilFgets_some {room : Nat} (plain : '\x00' ∉ stream.rest) (positive : 0 < room)
    (read : utilFgets (room + 1 : Nat) stream = (some str, after)) :
    str.length ≤ room ∧ cstring str ≠ [] ∧ '\x00' ∉ after.rest := by
  obtain ⟨rest, eof⟩ := stream
  by_cases none : rest = []
  · rw [none, utilFgets_of_end eof positive] at read
    cases read
  · obtain ⟨whole, fits⟩ := Lines.takeLine_split room rest
    have shorter := Lines.length_takeLine_lt positive none
    unfold utilFgets stdFgets at read
    rw [if_neg (by omega), if_neg (by omega), if_neg none] at read
    cases read
    rw [Int.toNat_natCast, Nat.add_sub_cancel]
    refine ⟨?_, ?_, ?_⟩
    · rw [length_convertCrlf]
      exact fits
    · apply cstring_convertCrlf_ne_nil
      · exact fun member => plain (whole ▸ List.mem_append_left _ member)
      · intro empty
        rw [empty, List.nil_append] at whole
        rw [whole] at shorter
        exact Nat.lt_irrefl _ shorter
    · exact fun member => plain (whole ▸ List.mem_append_right _ member)

theorem utilFgets_none (plain : '\x00' ∉ stream.rest)
    (read : utilFgets max stream = (none, after)) : '\x00' ∉ after.rest := by
  unfold utilFgets stdFgets at read
  split at read
  · rename_i fgets
    cases read
    split at fgets
    · cases fgets
      exact plain
    · split at fgets
      · cases fgets
      · split at fgets <;> cases fgets
        exact plain
  · cases read

theorem take_strlen (buffer : List Char) : buffer.take (strlen buffer) = cstring buffer :=
  (List.prefix_iff_eq_take.mp (List.takeWhile_prefix _)).symm

/-- Half of the buffer is free for what a round reads. -/
theorem write_inside (bound : round ≤ 19) (half : 2 * position ≤ bufsizeAt round) :
    Access.Inside ⟨position, position + (toInt32 (bufsizeAt round)).tdiv 2, bufsizeAt round⟩ := by
  have large := bufsizeAt_pos round
  refine ⟨Int.natCast_nonneg position, ?_⟩
  change (position : Int) + (toInt32 (bufsizeAt round)).tdiv 2 ≤ bufsizeAt round
  rcases Nat.lt_or_eq_of_le bound with less | last
  · rw [max_of_lt less]
    unfold roomAt
    omega
  · subst last
    rw [max_last]
    omega

/-- The string of the buffer after a round that reads something. -/
theorem strlen_append_bounds {room : Nat} (buffer : List Char) (nonempty : cstring str ≠ [])
    (fits : str.length ≤ room) :
    0 < strlen (cstring buffer ++ str) ∧
      strlen (cstring buffer ++ str) ≤ strlen buffer + room := by
  have positive := List.length_pos_iff.mpr nonempty
  have shorter := length_cstring_le str
  have length : strlen (cstring buffer ++ str) = strlen buffer + (cstring str).length := by
    unfold strlen
    rw [cstring_append (plain_cstring buffer), List.length_append]
  omega

/-- The loop touches bytes of the buffer only. -/
theorem loop_inside (succeeds : ∀ size, reallocs size = true) (rounds : round + fuel ≤ 20)
    (plain : '\x00' ∉ stream.rest) (half : 2 * strlen buffer ≤ bufsizeAt round) :
    (∀ access ∈ (utilReadlineLoop reallocs before fuel (bufsizeAt round) (strlen buffer) buffer
        stream).accesses, access.Inside) ∧
      '\x00' ∉ (utilReadlineLoop reallocs before fuel (bufsizeAt round) (strlen buffer) buffer
        stream).stream.rest := by
  induction fuel generalizing round buffer stream with
  | zero => exact ⟨nofun, plain⟩
  | succ fuel inductionHypothesis =>
      have bound : round ≤ 19 := by omega
      have write := write_inside bound half
      rw [utilReadlineLoop]
      cases read : utilFgets ((toInt32 (bufsizeAt round)).tdiv 2) stream with
      | mk str after =>
          cases str with
          | none =>
              rw [round_of_none (succeeds _) read]
              exact ⟨List.forall_mem_singleton.mpr write, utilFgets_none plain read⟩
          | some str =>
              have less : round < 19 := by
                rcases Nat.lt_or_eq_of_le bound with less | last
                · exact less
                · rw [last, max_last, utilFgets_of_nonpos stream (by decide)] at read
                  cases read
              have piece := read
              rw [max_of_lt less] at piece
              obtain ⟨fits, nonempty, afterPlain⟩ :=
                utilFgets_some plain (Nat.zero_lt_of_lt (roomAt_pos round)) piece
              obtain ⟨some, small⟩ := strlen_append_bounds buffer nonempty fits
              have room : roomAt round = bufsizeAt round / 2 - 1 := rfl
              have lastRead : Access.Inside ⟨(strlen (cstring buffer ++ str) : Int) - 1,
                  strlen (cstring buffer ++ str), bufsizeAt round⟩ :=
                ⟨by simp only []; omega, by simp only []; omega⟩
              have here := List.forall_mem_cons.mpr
                ⟨write, List.forall_mem_singleton.mpr lastRead⟩
              rw [round_of_some (succeeds _) read (take_strlen buffer)]
              by_cases goesOn : (!after.eof && lastChar before (cstring buffer ++ str)
                  (strlen (cstring buffer ++ str)) != '\n') = true
              · have doubled : bufsizeAt (round + 1) = 2 * bufsizeAt round := rfl
                obtain ⟨later, laterPlain⟩ := @inductionHypothesis (round + 1)
                  (cstring buffer ++ str) after (by omega) afterPlain (by omega)
                rw [if_pos goesOn]
                exact ⟨List.forall_mem_append.mpr ⟨here, later⟩, laterPlain⟩
              · rw [if_neg goesOn]
                exact ⟨here, afterPlain⟩

/-- All calls touch bytes of their buffers only. -/
theorem readAll_inside (succeeds : ∀ size, reallocs size = true) (calls : Nat)
    (plain : '\x00' ∉ stream.rest) :
    ∀ access ∈ (readAll reallocs before calls stream).2, access.Inside := by
  induction calls generalizing stream with
  | zero => nofun
  | succ calls inductionHypothesis =>
      obtain ⟨here, afterPlain⟩ : (∀ access ∈ (utilReadline reallocs before stream).accesses,
          access.Inside) ∧ '\x00' ∉ (utilReadline reallocs before stream).stream.rest :=
        loop_inside succeeds (show 0 + 20 ≤ 20 from Nat.le_refl 20) plain
          (show 2 * strlen [] ≤ bufsizeAt 0 from Nat.zero_le _)
      rw [readAll]
      cases (utilReadline reallocs before stream).line with
      | none => exact here
      | some line => exact List.forall_mem_append.mpr ⟨here, inductionHypothesis afterPlain⟩

end Accesses

/-- `util_readline` never leaves its buffer.  Its calls return the lines of a text, with each CRLF
turned into LF, exactly if each line is read whole: none is longer than 1342174701 characters, one
without an end does not end with a round, and no round parts a CRLF. -/
theorem utilReadline_exact (reallocs : Nat → Bool) (succeeds : ∀ size, reallocs size = true)
    (before : Char) (file : List Char) (plain : '\x00' ∉ file) (calls : Nat)
    (enough : file.length < calls) :
    ((readAll reallocs before calls ⟨file, false⟩).1 = (Lines.linesOf file).map crlfToLf ↔
      ∀ line ∈ Lines.linesOf file, ReadWhole line) ∧
    ∀ access ∈ (readAll reallocs before calls ⟨file, false⟩).2, access.Inside :=
  ⟨readAll_eq_iff succeeds nofun plain enough, readAll_inside succeeds calls plain⟩

/-- A line with a CRLF and one without an end. -/
theorem utilReadline_exact_small :
    (readAll (fun _ => true) 'x' 6 ⟨['a', '\r', '\n', 'b'], false⟩).1 = [['a', '\n'], ['b']] :=
  (utilReadline_exact (fun _ => true) (fun _ => rfl) 'x' ['a', '\r', '\n', 'b'] (by decide) 6
    (by decide)).1.mpr (List.forall_mem_cons.mpr
      ⟨readWhole_of_ended (show 0 < 19 by decide) (show readBefore 0 < ['a', '\r'].length by decide)
        (by decide),
        List.forall_mem_singleton.mpr
          (readWhole_of_unended (by decide) (show 0 < 19 by decide)
            (show readBefore 0 < ['b'].length by decide) (by decide))⟩)

/-- A line of 2559 characters without an end is lost. -/
theorem utilReadline_loses_line :
    ∃ (file : List Char) (calls : Nat), '\x00' ∉ file ∧ file.length < calls ∧
      (readAll (fun _ => true) 'x' calls ⟨file, false⟩).1 ≠
        (Lines.linesOf file).map crlfToLf := by
  have plain : '\x00' ∉ List.replicate 2559 'a' := by
    rw [List.mem_replicate]
    rintro ⟨_, same⟩
    exact absurd same (by decide)
  have unended : '\n' ∉ List.replicate 2559 'a' := by
    rw [List.mem_replicate]
    rintro ⟨_, same⟩
    exact absurd same (by decide)
  have length : (List.replicate 2559 'a').length = readBefore 1 := List.length_replicate
  refine ⟨List.replicate 2559 'a', 2560, plain, by rw [List.length_replicate]; decide, ?_⟩
  intro same
  have whole := (readAll_eq_iff (fun _ => rfl) (fun met => absurd met Bool.false_ne_true) plain
    (by rw [List.length_replicate]; decide)).mp same
  rw [Lines.linesOf_of_unended unended (List.ne_nil_of_length_pos (by rw [length]; decide)),
    List.forall_mem_singleton] at whole
  exact not_readWhole_of_unended unended (by decide) (by decide) length whole

end Common
end Vmem
