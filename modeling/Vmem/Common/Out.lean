import Vmem.Library.Text

/-!
# Log lines

`out_common` and `out_error` put a log line together in a buffer of `MAXPRINT` characters: a prefix
with the place in the source, spaces up to an alignment that the environment sets, and a message.
The position `cc` moves on by what `Vsnprintf` returns, which is the length of a text and not what
was written of it.

A call is described by what it does to its buffers, one event after the other.
-/

namespace Vmem
namespace Common

open Text

/-- `MAXPRINT`. -/
def maxprint : Nat := 8192

/-- What the variables of the module are made from.  `logAlign` is `PMDK_LOG_ALIGN` as `atoi` reads
it, and `debug` whether the module was compiled with `DEBUG`. -/
structure OutState where
  logPrefix : CString
  logLevel : Int
  logAlign : Option (BitVec 32)
  debug : Bool

/-- `Log_alignment`, as `out_init` sets it. -/
def OutState.logAlignment (state : OutState) : Nat :=
  match state.logAlign with
  | none => 0
  | some align => if 0 < align.toInt then align.toNat else 0

/-- What a function does to its buffers. -/
inductive OutEvent
  /-- `cc` becomes another value. -/
  | position (cc : Nat)
  /-- `Vsnprintf` is given a position and a size. -/
  | format (cc size : Nat)
  /-- `memset` fills the buffer from a position on. -/
  | pad (cc count : Nat)
  /-- A buffer is read as a string, by `%s` or by `Print`. -/
  | readString (buf : Memory)
  /-- `Print` gets a constant. -/
  | printConstant

/-- The position and what is touched are inside the buffer, a size that is left is not a wrapped
one, and a string ends in the buffer. -/
def OutEvent.Safe : OutEvent → Prop
  | .position cc => cc ≤ maxprint
  | .format cc size => cc ≤ maxprint ∧ cc + size ≤ maxprint
  | .pad cc count => cc + count ≤ maxprint
  | .readString buf => Terminated buf maxprint
  | .printConstant => True

/-- All events of a call are safe. -/
def AllSafe (events : List OutEvent) : Prop := ∀ event ∈ events, event.Safe

/-- `cc += (unsigned)ret`. -/
def advance (cc ret : Nat) : Nat := (cc + ret) % 4294967296

/-- `MAXPRINT - cc`, an `unsigned`. -/
def sizeLeft (cc : Nat) : Nat := (maxprint + 4294967296 - cc) % 4294967296

/-- The name after the last separator, which `strrchr` finds. -/
def baseName (file : List Char) : List Char := (file.reverse.takeWhile (· != '/')).reverse

/-- `"<%s>: <%d> [%s:%d %s] "`. -/
def prefixText (logPrefix : CString) (level : Int) (file : CString) (line : Int)
    (func : CString) : List Char :=
  ['<'] ++ logPrefix.1 ++ ['>', ':', ' ', '<'] ++ decimal level ++ ['>', ' ', '['] ++
    baseName file.1 ++ [':'] ++ decimal line ++ [' '] ++ func.1 ++ [']', ' ']

/-- A log line that is being put together: the position, the buffer and what happened so far.
`ended` is a `goto end`. -/
structure LogLine where
  cc : Nat
  buf : Memory
  events : List OutEvent
  ended : Bool

/-- The part of both functions under `if (file)`. -/
def outPrefix (state : OutState) (buf : Memory) (file : Option CString) (line : Int)
    (func : CString) (level : Int) : LogLine :=
  match file with
  | none => ⟨0, buf, [], false⟩
  | some file =>
      let text := prefixText state.logPrefix level file line func
      let buf := snprintf buf 0 maxprint text
      match intLength text with
      | none => ⟨0, buf, [.format 0 maxprint, .printConstant], true⟩
      | some ret =>
          let cc := advance 0 ret
          if cc < state.logAlignment then
            ⟨state.logAlignment, memset buf cc ' ' (state.logAlignment - cc),
              [.format 0 maxprint, .position cc, .pad cc (state.logAlignment - cc),
                .position state.logAlignment], false⟩
          else ⟨cc, buf, [.format 0 maxprint, .position cc], false⟩

/-- A format without the `!` that asks for the text of `errno`, and the texts that stand for it. -/
def splitFormat (fmt : List Char) (strerror : CString) : List Char × List Char × List Char :=
  match fmt with
  | '!' :: rest => (rest, [':', ' '], strerror.1)
  | _ => (fmt, [], [])

/-- The end of `out_common`: the last text, and `Print`. -/
def printLine (cc : Nat) (buf : Memory) (text : List Char) : List OutEvent :=
  [.format cc (sizeLeft cc), .readString (snprintf buf cc (sizeLeft cc) text)]

/-- What `out_common` does after the prefix.  `render` gives the text of a format with the arguments
of the call, or `none` where that fails, and `strerror` is what `util_strerror` writes. -/
def outMessage (cc : Nat) (buf : Memory) (suffix : CString) (fmt : Option (List Char))
    (render : List Char → Option (List Char)) (strerror : CString) : List OutEvent :=
  match fmt with
  | none => printLine cc buf suffix.1
  | some fmt =>
      let (fmt, sep, errstr) := splitFormat fmt strerror
      let call : OutEvent := .format cc (sizeLeft cc)
      match render fmt with
      | none => [call, .printConstant]
      | some text =>
          match intLength text with
          | none => [call, .printConstant]
          | some ret =>
              let buf := snprintf buf cc (sizeLeft cc) text
              let cc := advance cc ret
              call :: .position cc :: printLine cc buf (sep ++ errstr ++ suffix.1)

/-- `out_common`; `buf` is what the buffer holds at first. -/
def outCommon (state : OutState) (buf : Memory) (file : Option CString) (line : Int)
    (func : CString) (level : Int) (suffix : CString) (fmt : Option (List Char))
    (render : List Char → Option (List Char)) (strerror : CString) : List OutEvent :=
  let start := outPrefix state buf file line func level
  if start.ended then start.events
  else start.events ++ outMessage start.cc start.buf suffix fmt render strerror

/-- The buffer of the last error message: it holds a string. -/
abbrev Errormsg := { memory : Memory // Terminated memory maxprint }

/-- The characters of a buffer up to the `\0`. -/
def stringOf (memory : Memory) : List Char :=
  ((List.range maxprint).map memory).takeWhile (· != '\x00')

/-- `"Vsnprintf failed"`. -/
def vsnprintfFailed : List Char := "Vsnprintf failed".toList

/-- The part of `out_error` under `if (fmt)`: the message, what happened, and whether the function
goes on. -/
def outErrormsg (errormsg : Memory) (fmt : Option (List Char))
    (render : List Char → Option (List Char)) (strerror : CString) :
    Memory × List OutEvent × Bool :=
  match fmt with
  | none => (errormsg, [], true)
  | some fmt =>
      let (fmt, sep, errstr) := splitFormat fmt strerror
      let failed := put errormsg 0 (vsnprintfFailed ++ ['\x00'])
      match render fmt with
      | none => (failed, [.format 0 maxprint], false)
      | some text =>
          match intLength text with
          | none => (failed, [.format 0 maxprint], false)
          | some ret =>
              let errormsg := snprintf errormsg 0 maxprint text
              let cc := advance 0 ret
              (snprintf errormsg cc (sizeLeft cc) (sep ++ errstr),
                [.format 0 maxprint, .position cc, .format cc (sizeLeft cc)], true)

/-- `out_error`: the message afterwards, and what happened. -/
def outError (state : OutState) (errormsg : Errormsg) (buf : Memory) (file : Option CString)
    (line : Int) (func : CString) (suffix : CString) (fmt : Option (List Char))
    (render : List Char → Option (List Char)) (strerror : CString) : Memory × List OutEvent :=
  let (message, events, goesOn) := outErrormsg errormsg.1 fmt render strerror
  if goesOn && state.debug && 1 ≤ state.logLevel then
    let start := outPrefix state buf file line func 1
    if start.ended then (message, events ++ start.events)
    else
      (message, events ++ start.events ++ [.readString message] ++
        printLine start.cc start.buf (stringOf message ++ suffix.1))
  else (message, events)

/-! ## When everything fits -/

/-- The length of the message, or `none` where `Vsnprintf` fails. -/
def messageLength (fmt : Option (List Char)) (render : List Char → Option (List Char))
    (strerror : CString) : Option Nat :=
  match fmt with
  | none => some 0
  | some fmt => (render (splitFormat fmt strerror).1).bind intLength

/-- What `out_common` needs: the prefix, the alignment and, unless it fails, the message behind
them fit into the buffer; and an alignment that adds spaces leaves a place for the `\0`. -/
def CommonFits (state : OutState) (file : Option CString) (line : Int) (func : CString)
    (level : Int) (message : Option Nat) : Prop :=
  match file with
  | none => ∀ length, message = some length → length ≤ maxprint
  | some file =>
      let start := (prefixText state.logPrefix level file line func).length
      start ≤ 2147483647 →
        start ≤ maxprint ∧ (start < state.logAlignment → state.logAlignment ≤ maxprint) ∧
        ∀ length, message = some length → max start state.logAlignment + length ≤ maxprint ∧
          (start < state.logAlignment → state.logAlignment < maxprint)

/-- What `out_error` needs: the message fits into its buffer, and the prefix and the alignment,
where they are printed, fit into theirs. -/
def ErrorFits (state : OutState) (file : Option CString) (line : Int) (func : CString)
    (message : Option Nat) : Prop :=
  ∀ length, message = some length → length ≤ maxprint ∧
    (state.debug = true → 1 ≤ state.logLevel → ∀ file', file = some file' →
      let start := (prefixText state.logPrefix 1 file' line func).length
      start ≤ 2147483647 →
        start ≤ maxprint ∧ (start < state.logAlignment → state.logAlignment < maxprint))

/-! ## Positions and sizes -/

theorem logAlignment_le (state : OutState) : state.logAlignment ≤ 2147483647 := by
  unfold OutState.logAlignment
  split
  · exact Nat.zero_le _
  · rename_i align _
    split
    · have value := BitVec.toInt_eq_toNat_cond align
      have bound := align.isLt
      split at value <;> omega
    · exact Nat.zero_le _

theorem advance_eq {cc ret : Nat} (ccBound : cc ≤ 2147483647) (retBound : ret ≤ 2147483647) :
    advance cc ret = cc + ret :=
  Nat.mod_eq_of_lt (by omega)

theorem sizeLeft_eq {cc : Nat} (inside : cc ≤ maxprint) : sizeLeft cc = maxprint - cc := by
  unfold sizeLeft maxprint at *
  omega

/-- Behind the buffer the size that is left is a wrapped one. -/
theorem format_safe_iff (cc : Nat) : (OutEvent.format cc (sizeLeft cc)).Safe ↔ cc ≤ maxprint := by
  constructor
  · exact fun safe => safe.1
  · intro inside
    refine ⟨inside, ?_⟩
    rw [sizeLeft_eq inside]
    omega

theorem intLength_eq_some {text : List Char} {ret : Nat} (returned : intLength text = some ret) :
    ret = text.length ∧ ret ≤ 2147483647 := by
  unfold intLength at returned
  split at returned
  · cases returned
    exact ⟨rfl, ‹_›⟩
  · cases returned

theorem allSafe_cons {event : OutEvent} {events : List OutEvent} :
    AllSafe (event :: events) ↔ event.Safe ∧ AllSafe events :=
  List.forall_mem_cons

theorem allSafe_nil : AllSafe [] := nofun

theorem allSafe_append {first second : List OutEvent} :
    AllSafe (first ++ second) ↔ AllSafe first ∧ AllSafe second :=
  List.forall_mem_append

/-- A text that is added at the end of the buffer has no place for its `\0`; elsewhere it brings
one. -/
theorem terminated_snprintf_iff {cc : Nat} {buf : Memory} {text : List Char}
    (inside : cc ≤ maxprint) :
    Terminated (snprintf buf cc (sizeLeft cc) text) maxprint ↔
      (cc = maxprint → Terminated buf maxprint) := by
  rw [sizeLeft_eq inside]
  rcases Nat.lt_or_eq_of_le inside with less | last
  · have ends := terminated_snprintf buf cc text (show 0 < maxprint - cc by omega)
    rw [Nat.add_sub_cancel' inside] at ends
    exact ⟨fun _ same => absurd same (Nat.ne_of_lt less), fun _ => ends⟩
  · rw [last, Nat.sub_self, snprintf_zero]
    exact ⟨fun ends _ => ends, fun ends => ends rfl⟩

theorem printLine_safe_iff {cc : Nat} {buf : Memory} {text : List Char} :
    AllSafe (printLine cc buf text) ↔
      cc ≤ maxprint ∧ (cc = maxprint → Terminated buf maxprint) := by
  rw [printLine, allSafe_cons, allSafe_cons, format_safe_iff]
  constructor
  · rintro ⟨inside, ends, _⟩
    exact ⟨inside, (terminated_snprintf_iff inside).mp ends⟩
  · rintro ⟨inside, ends⟩
    exact ⟨inside, (terminated_snprintf_iff inside).mpr ends, allSafe_nil⟩

/-! ## The functions -/

section Functions

variable {state : OutState} {cc : Nat} {buf : Memory} {line level : Int} {func suffix : CString}
  {fmt : Option (List Char)} {render : List Char → Option (List Char)} {strerror : CString}

/-- The message fits behind the prefix. -/
theorem outMessage_safe_iff (bound : cc ≤ 2147483647) :
    AllSafe (outMessage cc buf suffix fmt render strerror) ↔
      cc ≤ maxprint ∧ ∀ length, messageLength fmt render strerror = some length →
        cc + length ≤ maxprint ∧ (cc = maxprint → Terminated buf maxprint) := by
  cases fmt with
  | none =>
      rw [outMessage, printLine_safe_iff]
      constructor
      · rintro ⟨inside, ends⟩
        refine ⟨inside, fun length same => ?_⟩
        cases same
        exact ⟨inside, ends⟩
      · rintro ⟨inside, fits⟩
        exact ⟨inside, (fits 0 rfl).2⟩
  | some fmt =>
      simp only [outMessage, messageLength]
      cases rendered : render (splitFormat fmt strerror).1 with
      | none =>
          simp only [allSafe_cons, format_safe_iff]
          exact ⟨fun safe => ⟨safe.1, nofun⟩, fun fits => ⟨fits.1, trivial, allSafe_nil⟩⟩
      | some text =>
          simp only [Option.bind_some]
          cases returned : intLength text with
          | none =>
              simp only [allSafe_cons, format_safe_iff]
              exact ⟨fun safe => ⟨safe.1, nofun⟩, fun fits => ⟨fits.1, trivial, allSafe_nil⟩⟩
          | some ret =>
              have retBound := (intLength_eq_some returned).2
              simp only [allSafe_cons, format_safe_iff, printLine_safe_iff,
                advance_eq bound retBound]
              constructor
              · rintro ⟨inside, _, fits, ends⟩
                refine ⟨inside, fun length same => ?_⟩
                cases same
                refine ⟨fits, fun last => ?_⟩
                exact (terminated_snprintf_iff inside).mp (ends (by omega)) last
              · rintro ⟨inside, fits⟩
                obtain ⟨both, ends⟩ := fits ret rfl
                exact ⟨inside, both, both, fun _ => (terminated_snprintf_iff inside).mpr ends⟩

/-- A prefix that was written leaves the buffer a string. -/
theorem terminated_prefix (buf : Memory) (text : List Char) :
    Terminated (snprintf buf 0 maxprint text) maxprint := by
  have ends := terminated_snprintf buf 0 text (show 0 < maxprint by decide)
  rwa [Nat.zero_add] at ends

/-- Spaces up to the end of the buffer leave no `\0` behind a prefix. -/
theorem not_terminated_padded {text : List Char} (plain : '\x00' ∉ text)
    (fits : text.length < maxprint) :
    ¬Terminated (memset (snprintf buf 0 maxprint text) text.length ' ' (maxprint - text.length))
      maxprint := by
  rintro ⟨i, inside, ends⟩
  unfold memset at ends
  by_cases behind : text.length ≤ i
  · rw [if_pos ⟨behind, by omega⟩] at ends
    exact absurd ends (by decide)
  · have before : i < text.length := Nat.lt_of_not_le behind
    have written := snprintf_of_fits buf 0 fits before
    rw [Nat.zero_add] at written
    rw [if_neg (by omega), written] at ends
    exact plain (ends ▸ List.getElem_mem before)

theorem plain_prefixText (logPrefix : CString) (level : Int) (file : CString) (line : Int)
    (func : CString) : '\x00' ∉ prefixText logPrefix level file line func := by
  have base : '\x00' ∉ baseName file.1 := by
    intro member
    rw [baseName, List.mem_reverse] at member
    exact file.2 (List.mem_reverse.mp ((List.takeWhile_sublist _).mem member))
  simp [prefixText, base, plain_decimal, logPrefix.2, func.2]

variable {file : CString}

theorem intLength_of_le {text : List Char} (fits : text.length ≤ 2147483647) :
    intLength text = some text.length :=
  if_pos fits

theorem intLength_of_gt {text : List Char} (long : ¬text.length ≤ 2147483647) :
    intLength text = none :=
  if_neg long

theorem outPrefix_of_failure (buf : Memory)
    (long : ¬(prefixText state.logPrefix level file line func).length ≤ 2147483647) :
    (outPrefix state buf (some file) line func level).ended = true ∧
      AllSafe (outPrefix state buf (some file) line func level).events := by
  simp only [outPrefix, intLength_of_gt long, allSafe_cons]
  exact ⟨trivial, ⟨Nat.zero_le _, Nat.le_refl _⟩, trivial, allSafe_nil⟩

/-- A prefix that reaches the alignment. -/
theorem outPrefix_of_long
    (fits : (prefixText state.logPrefix level file line func).length ≤ 2147483647)
    (long : ¬(prefixText state.logPrefix level file line func).length < state.logAlignment) :
    outPrefix state buf (some file) line func level =
      ⟨(prefixText state.logPrefix level file line func).length,
        snprintf buf 0 maxprint (prefixText state.logPrefix level file line func),
        [.format 0 maxprint, .position (prefixText state.logPrefix level file line func).length],
        false⟩ := by
  simp only [outPrefix, intLength_of_le fits, advance_eq (Nat.zero_le _) fits, Nat.zero_add,
    if_neg long]

/-- A prefix with spaces up to the alignment. -/
theorem outPrefix_of_short
    (fits : (prefixText state.logPrefix level file line func).length ≤ 2147483647)
    (short : (prefixText state.logPrefix level file line func).length < state.logAlignment) :
    outPrefix state buf (some file) line func level =
      ⟨state.logAlignment,
        memset (snprintf buf 0 maxprint (prefixText state.logPrefix level file line func))
          (prefixText state.logPrefix level file line func).length ' '
          (state.logAlignment - (prefixText state.logPrefix level file line func).length),
        [.format 0 maxprint, .position (prefixText state.logPrefix level file line func).length,
          .pad (prefixText state.logPrefix level file line func).length
            (state.logAlignment - (prefixText state.logPrefix level file line func).length),
          .position state.logAlignment], false⟩ := by
  simp only [outPrefix, intLength_of_le fits, advance_eq (Nat.zero_le _) fits, Nat.zero_add,
    if_pos short]

theorem format_start_safe : (OutEvent.format 0 maxprint).Safe :=
  ⟨Nat.zero_le _, Nat.le_of_eq (Nat.zero_add _)⟩

/-- With spaces up to an alignment there is a `\0` only if the alignment leaves a place for it. -/
theorem padded_terminated_iff {text : List Char} {alignment : Nat} (plain : '\x00' ∉ text)
    (short : text.length < alignment) (inside : alignment ≤ maxprint) :
    (alignment = maxprint → Terminated (memset (snprintf buf 0 maxprint text) text.length ' '
      (alignment - text.length)) maxprint) ↔ alignment < maxprint := by
  constructor
  · intro ends
    rcases Nat.lt_or_eq_of_le inside with less | same
    · exact less
    · have here := ends same
      rw [same] at here
      exact absurd here (not_terminated_padded plain (same ▸ short))
  · exact fun less same => absurd same (Nat.ne_of_lt less)

/-- `out_common` stays inside its buffer exactly if everything fits. -/
theorem outCommon_safe_iff (state : OutState) (buf : Memory) (file : Option CString) (line : Int)
    (func : CString) (level : Int) (suffix : CString) (fmt : Option (List Char))
    (render : List Char → Option (List Char)) (strerror : CString) :
    AllSafe (outCommon state buf file line func level suffix fmt render strerror) ↔
      CommonFits state file line func level (messageLength fmt render strerror) := by
  cases file with
  | none =>
      simp only [outCommon, outPrefix, Bool.false_eq_true, if_false, List.nil_append, CommonFits]
      rw [outMessage_safe_iff (Nat.zero_le _)]
      constructor
      · rintro ⟨_, fits⟩ length same
        have bound := (fits length same).1
        omega
      · intro fits
        refine ⟨Nat.zero_le _, fun length same => ⟨?_, nofun⟩⟩
        have bound := fits length same
        omega
  | some file =>
      by_cases fits : (prefixText state.logPrefix level file line func).length ≤ 2147483647
      · by_cases short : (prefixText state.logPrefix level file line func).length <
            state.logAlignment
        · have plain := plain_prefixText state.logPrefix level file line func
          simp only [outCommon, outPrefix_of_short fits short, Bool.false_eq_true, if_false,
            allSafe_append, allSafe_cons, outMessage_safe_iff (logAlignment_le state), CommonFits]
          constructor
          · rintro ⟨⟨_, startInside, _⟩, inside, message⟩ _
            refine ⟨startInside, fun _ => inside, fun length same => ?_⟩
            obtain ⟨bound, ends⟩ := message length same
            rw [Nat.max_eq_right (Nat.le_of_lt short)]
            exact ⟨bound, fun _ => (padded_terminated_iff plain short inside).mp ends⟩
          · intro needed
            obtain ⟨startInside, alignmentInside, message⟩ := needed fits
            have inside := alignmentInside short
            refine ⟨⟨format_start_safe, startInside, ?_, inside, allSafe_nil⟩, inside,
              fun length same => ?_⟩
            · exact Nat.le_trans (Nat.le_of_eq (Nat.add_sub_cancel' (Nat.le_of_lt short))) inside
            · obtain ⟨bound, place⟩ := message length same
              rw [Nat.max_eq_right (Nat.le_of_lt short)] at bound
              exact ⟨bound, (padded_terminated_iff plain short inside).mpr (place short)⟩
        · have reached := Nat.le_of_not_lt short
          simp only [outCommon, outPrefix_of_long fits short, Bool.false_eq_true, if_false,
            allSafe_append, allSafe_cons, outMessage_safe_iff fits, CommonFits]
          constructor
          · rintro ⟨_, inside, message⟩ _
            refine ⟨inside, fun less => absurd less short, fun length same => ?_⟩
            rw [Nat.max_eq_left reached]
            exact ⟨(message length same).1, fun less => absurd less short⟩
          · intro needed
            obtain ⟨inside, _, message⟩ := needed fits
            refine ⟨⟨format_start_safe, inside, allSafe_nil⟩, inside, fun length same => ?_⟩
            have bound := (message length same).1
            rw [Nat.max_eq_left reached] at bound
            exact ⟨bound, fun _ => terminated_prefix buf _⟩
      · obtain ⟨ended, safe⟩ := outPrefix_of_failure buf fits
        simp only [outCommon, ended, if_true]
        exact ⟨fun _ small => absurd small fits, fun _ => safe⟩

/-- A message that `Vsnprintf` fails on ends `out_error`. -/
theorem outErrormsg_of_failure (errormsg : Memory)
    (failure : messageLength fmt render strerror = none) :
    (outErrormsg errormsg fmt render strerror).2 = ([.format 0 maxprint], false) := by
  cases fmt with
  | none => cases failure
  | some fmt =>
      simp only [messageLength] at failure
      simp only [outErrormsg]
      cases rendered : render (splitFormat fmt strerror).1 with
      | none => rfl
      | some text =>
          rw [rendered, Option.bind_some] at failure
          simp only [failure]

/-- Another one stays inside its buffer exactly if it fits, and leaves it a string. -/
theorem outErrormsg_of_length (errormsg : Errormsg) {length : Nat}
    (returned : messageLength fmt render strerror = some length) :
    (outErrormsg errormsg.1 fmt render strerror).2.2 = true ∧
      (AllSafe (outErrormsg errormsg.1 fmt render strerror).2.1 ↔ length ≤ maxprint) ∧
      (length ≤ maxprint →
        Terminated (outErrormsg errormsg.1 fmt render strerror).1 maxprint) := by
  cases fmt with
  | none =>
      cases returned
      exact ⟨rfl, ⟨fun _ => Nat.zero_le _, fun _ => allSafe_nil⟩, fun _ => errormsg.2⟩
  | some fmt =>
      simp only [messageLength] at returned
      simp only [outErrormsg]
      cases rendered : render (splitFormat fmt strerror).1 with
      | none =>
          rw [rendered] at returned
          cases returned
      | some text =>
          rw [rendered, Option.bind_some] at returned
          have bound := (intLength_eq_some returned).2
          simp only [returned, allSafe_cons, format_safe_iff, advance_eq (Nat.zero_le _) bound,
            Nat.zero_add]
          refine ⟨trivial, ⟨fun safe => safe.2.1, ?_⟩, ?_⟩
          · exact fun fits => ⟨format_start_safe, fits, fits, allSafe_nil⟩
          · exact fun fits => (terminated_snprintf_iff fits).mpr fun _ => terminated_prefix _ _

/-- A log line without a message, as `out_common` would print it. -/
theorem outCommon_empty_safe_iff (state : OutState) (buf : Memory) (file : Option CString)
    (line : Int) (func : CString) (level : Int) :
    AllSafe (outCommon state buf file line func level ⟨[], List.not_mem_nil⟩ none (fun _ => none)
      ⟨[], List.not_mem_nil⟩) ↔ CommonFits state file line func level (some 0) :=
  outCommon_safe_iff state buf file line func level _ none _ _

/-- The log line of an error stays inside its buffer exactly if the prefix and the alignment fit. -/
theorem errorLine_safe_iff {file : Option CString} (text : List Char)
    (goesOn : (outPrefix state buf file line func level).ended = false) :
    AllSafe ((outPrefix state buf file line func level).events ++
        printLine (outPrefix state buf file line func level).cc
          (outPrefix state buf file line func level).buf text) ↔
      CommonFits state file line func level (some 0) := by
  have common := outCommon_empty_safe_iff state buf file line func level
  simp only [outCommon, goesOn, Bool.false_eq_true, if_false, outMessage, allSafe_append,
    printLine_safe_iff] at common
  rw [allSafe_append, printLine_safe_iff]
  exact common

theorem endedLine_safe_iff {file : Option CString}
    (ended : (outPrefix state buf file line func level).ended = true) :
    AllSafe (outPrefix state buf file line func level).events ↔
      CommonFits state file line func level (some 0) := by
  have common := outCommon_empty_safe_iff state buf file line func level
  simp only [outCommon, ended, if_true] at common
  exact common

/-- Without a message the alignment only has to leave a place for the `\0`. -/
theorem commonFits_zero_iff (file : Option CString) :
    CommonFits state file line func level (some 0) ↔
      ∀ file', file = some file' →
        let start := (prefixText state.logPrefix level file' line func).length
        start ≤ 2147483647 →
          start ≤ maxprint ∧ (start < state.logAlignment → state.logAlignment < maxprint) := by
  cases file with
  | none =>
      refine ⟨fun _ => nofun, fun _ length same => ?_⟩
      cases same
      exact Nat.zero_le _
  | some file =>
      simp only [CommonFits, Option.some.injEq, forall_eq']
      constructor
      · intro needed fits
        obtain ⟨inside, _, message⟩ := needed fits
        exact ⟨inside, message.2⟩
      · intro needed fits
        obtain ⟨inside, place⟩ := needed fits
        refine ⟨inside, fun short => Nat.le_of_lt (place short), ?_, place⟩
        omega

/-- `out_error` stays inside its buffers exactly if everything fits. -/
theorem outError_safe_iff (state : OutState) (errormsg : Errormsg) (buf : Memory)
    (file : Option CString) (line : Int) (func suffix : CString) (fmt : Option (List Char))
    (render : List Char → Option (List Char)) (strerror : CString) :
    AllSafe (outError state errormsg buf file line func suffix fmt render strerror).2 ↔
      ErrorFits state file line func (messageLength fmt render strerror) := by
  cases message : messageLength fmt render strerror with
  | none =>
      have failure := outErrormsg_of_failure errormsg.1 message
      simp only [outError, failure, Bool.false_and, Bool.false_eq_true, if_false]
      exact ⟨fun _ => nofun, fun _ => allSafe_cons.mpr ⟨format_start_safe, allSafe_nil⟩⟩
  | some length =>
      obtain ⟨goesOn, safe, ends⟩ := outErrormsg_of_length errormsg message
      have needed : ErrorFits state file line func (some length) ↔ length ≤ maxprint ∧
          (state.debug = true → 1 ≤ state.logLevel →
            CommonFits state file line func 1 (some 0)) := by
        simp only [ErrorFits, Option.some.injEq, forall_eq', commonFits_zero_iff]
      rw [needed]
      simp only [outError, goesOn, Bool.true_and, Bool.and_eq_true, decide_eq_true_eq]
      by_cases prints : state.debug = true ∧ 1 ≤ state.logLevel
      · rw [if_pos prints]
        cases ended : (outPrefix state buf file line func 1).ended with
        | true =>
            rw [if_pos rfl, allSafe_append, safe, endedLine_safe_iff ended]
            exact and_congr_right fun _ =>
              ⟨fun fits _ _ => fits, fun fits => fits prints.1 prints.2⟩
        | false =>
            have line := errorLine_safe_iff
              (stringOf (outErrormsg errormsg.1 fmt render strerror).1 ++ suffix.1) ended
            rw [allSafe_append] at line
            rw [if_neg Bool.false_ne_true]
            simp only [allSafe_append, allSafe_cons, safe]
            constructor
            · rintro ⟨⟨⟨fits, first⟩, _⟩, last⟩
              exact ⟨fits, fun _ _ => line.mp ⟨first, last⟩⟩
            · rintro ⟨fits, rest⟩
              obtain ⟨first, last⟩ := line.mpr (rest prints.1 prints.2)
              exact ⟨⟨⟨fits, first⟩, ends fits, allSafe_nil⟩, last⟩
      · rw [if_neg prints, safe]
        exact ⟨fun fits => ⟨fits, fun debug level => absurd ⟨debug, level⟩ prints⟩,
          fun fits => fits.1⟩

end Functions

/-- Log formatting stays inside its buffers exactly if everything fits: prefix, alignment and
message in the line of `out_common`, the message of `out_error` in its own buffer, and prefix and
alignment in the line of `out_error`. -/
theorem out_inside_iff (state : OutState) (errormsg : Errormsg) (buf : Memory)
    (file : Option CString) (line : Int) (func : CString) (level : Int) (suffix : CString)
    (fmt : Option (List Char)) (render : List Char → Option (List Char)) (strerror : CString) :
    (AllSafe (outCommon state buf file line func level suffix fmt render strerror) ↔
      CommonFits state file line func level (messageLength fmt render strerror)) ∧
    (AllSafe (outError state errormsg buf file line func suffix fmt render strerror).2 ↔
      ErrorFits state file line func (messageLength fmt render strerror)) :=
  ⟨outCommon_safe_iff state buf file line func level suffix fmt render strerror,
    outError_safe_iff state errormsg buf file line func suffix fmt render strerror⟩

/-- A message of 8193 characters, without a prefix. -/
theorem out_leaves_buffer :
    ∃ (state : OutState) (errormsg : Errormsg) (buf : Memory) (suffix : CString)
      (fmt : Option (List Char)) (render : List Char → Option (List Char)) (strerror : CString),
      ¬AllSafe (outCommon state buf none 0 suffix 0 suffix fmt render strerror) ∧
      ¬AllSafe (outError state errormsg buf none 0 suffix suffix fmt render strerror).2 := by
  have long : messageLength (some ['%', 's']) (fun _ => some (List.replicate 8193 'a'))
      ⟨[], List.not_mem_nil⟩ = some 8193 := by
    simp only [messageLength, Option.bind_some]
    rw [intLength_of_le (by rw [List.length_replicate]; decide), List.length_replicate]
  refine ⟨⟨⟨[], List.not_mem_nil⟩, 0, none, false⟩, ⟨fun _ => '\x00', 0, by decide, rfl⟩,
    fun _ => 'x', ⟨[], List.not_mem_nil⟩, some ['%', 's'],
    fun _ => some (List.replicate 8193 'a'), ⟨[], List.not_mem_nil⟩, ?_, ?_⟩
  · rw [outCommon_safe_iff]
    intro fits
    exact absurd (fits 8193 long) (by decide)
  · rw [outError_safe_iff]
    intro fits
    exact absurd (fits 8193 long).1 (by decide)

end Common
end Vmem
