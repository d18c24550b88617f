/-
**Reading the delay file.**

`read_delay_file` calls `fscanf` until it returns `EOF` and puts a pair into `app_time_table` after every
other call, also after one that converted fewer than two numbers: `task_id` and `max_time` then still hold
what an earlier call left there.

* `readDelays`, `readDelayFile`, `installRuntime` — the loop, the function and its caller.
* `fscanf_line` — a call on a line reads its two numbers and the white space behind them.
* `readDelays_stuck` — a character that no number has is never passed, so the loop does not end.
* `readDelays_ends` — without such a character every call takes something.
* `read_delay_file_iff` — the loop ends exactly on texts of numeral characters, and the table of a file of
  lines has the last time of each task.
-/

import Mathlib.Algebra.Ring.Int.Defs
import Mathlib.Algebra.Ring.Nat
import Mathlib.Data.List.AList
import Mathlib.Data.List.Induction
import MinSmt.Library.Scanf

namespace MinSmt

open MinSmt.Library

/-! ### The function -/

/-- How `fscanf` stores a number into an `int` and into an `unsigned int`. A number outside the range of the
type is stored as some value. -/
structure Conversions where
  int : Int → Int
  unsigned : Int → Nat
  int_eq : ∀ n, -2 ^ 31 ≤ n → n < 2 ^ 31 → int n = n
  unsigned_eq : ∀ n : Nat, n < 2 ^ 32 → unsigned n = n

/-- `app_time_table`: tasks and the pointers stored for them. -/
abbrev AppTimeTable := AList fun _ : Int => Nat

/-- `GUINT_TO_POINTER((int)max_time)`: the sign of the `int` fills the upper half. -/
def guintToPointer (maxTime : Nat) : Nat := if maxTime < 2 ^ 31 then maxTime else maxTime + (2 ^ 64 - 2 ^ 32)

/-- `GPOINTER_TO_UINT`. -/
def gpointerToUint (pointer : Nat) : Nat := pointer % 2 ^ 32

/-- The format `"%d %u\n"`. -/
def delayFormat : List Directive := [.number, .space, .number, .space]

/-- The loop of `read_delay_file`, on what is left of the file; `taskId` and `maxTime` are the two
variables. -/
def readDelays (lib : Conversions) : Nat → List Char → Int → Nat → AppTimeTable → Option AppTimeTable
  | 0, _, _, _, _ => none
  | fuel + 1, input, taskId, maxTime, table =>
    let scanned := fscanf delayFormat input
    if scanned.returns = none then some table
    else
      let taskId := (scanned.values[0]?).elim taskId lib.int
      let maxTime := (scanned.values[1]?).elim maxTime lib.unsigned
      readDelays lib fuel scanned.rest taskId maxTime (table.insert taskId (guintToPointer maxTime))

/-- `read_delay_file`: the result is the size of the table, beside the table itself. `none` as the file
means that it could not be opened. -/
def readDelayFile (lib : Conversions) (fuel : Nat) (file : Option (List Char)) (taskId : Int) (maxTime : Nat) :
    Option (Nat × AppTimeTable) :=
  match file with
  | none => some (0, ∅)
  | some content => (readDelays lib fuel content taskId maxTime ∅).map fun table => (table.entries.length, table)

/-- `InstallRuntime`: what `enforce_delays` is afterwards. -/
def installRuntime (lib : Conversions) (fuel : Nat) (file : Option (List Char)) (taskId : Int) (maxTime : Nat)
    (enforceDelays : Bool) : Option Bool :=
  if enforceDelays then (readDelayFile lib fuel file taskId maxTime).map fun result => result.1 != 0
  else some false

/-! ### Ending -/

section Ending

variable {lib : Conversions} {input : List Char} {taskId : Int} {maxTime : Nat} {table : AppTimeTable}

/-- **A character that no number has is never passed**: every call leaves it in the input, and none of them
returns `EOF`. -/
theorem readDelays_stuck {c : Char} (inside : c ∈ input) (other : isNumeralChar c = false) (fuel : Nat) :
    readDelays lib fuel input taskId maxTime table = none := by
  induction fuel generalizing input taskId maxTime table with
  | zero => rfl
  | succ fuel ih =>
    have stays : c ∈ (fscanf delayFormat input).rest := (Reads.fscanf _ _).mem inside other
    have going : (fscanf delayFormat input).returns ≠ none := fun eof => by
      rw [rest_of_eof eof] at stays
      cases stays
    rw [readDelays, if_neg going]
    exact ih stays

/-- **Without such a character every call takes something**, until the end of the file. -/
theorem readDelays_ends (fits : ∀ c ∈ input, isNumeralChar c = true) {fuel : Nat} (enough : input.length < fuel) :
    (readDelays lib fuel input taskId maxTime table).isSome = true := by
  induction fuel generalizing input taskId maxTime table with
  | zero => cases enough
  | succ fuel ih =>
    rw [readDelays]
    cases input with
    | nil => rfl
    | cons c input =>
      split
      · rfl
      · have shrinks := fscanf_number_shrinks [.space, .number, .space] input (fits c List.mem_cons_self)
        exact ih ((Reads.fscanf delayFormat (c :: input)).all fits)
          (Nat.lt_of_lt_of_le shrinks (Nat.le_of_lt_succ enough))

end Ending

/-! ### Files of lines -/

/-- A line `task time` of decimal numbers that fit the variables. -/
structure DelayLine where
  negative : Bool
  task : List Char
  time : List Char
  taskDigits : IsNumeral task
  timeDigits : IsNumeral time
  taskFits : -2 ^ 31 ≤ signed negative (decimal task) ∧ signed negative (decimal task) < 2 ^ 31
  timeFits : decimal time < 2 ^ 32

namespace DelayLine

/-- The task that the line is for. -/
def taskId (line : DelayLine) : Int := signed line.negative (decimal line.task)

/-- The time that it gives. -/
def maxTime (line : DelayLine) : Nat := decimal line.time

/-- The text of the line. -/
def text (line : DelayLine) : List Char :=
  (if line.negative then ['-'] else []) ++ line.task ++ ' ' :: line.time

end DelayLine

/-- The text of a file of lines; the last of them need not end with a newline. -/
def fileText (lastNewline : Bool) : List DelayLine → List Char
  | [] => []
  | [line] => line.text ++ if lastNewline then ['\n'] else []
  | line :: next :: lines => line.text ++ '\n' :: fileText lastNewline (next :: lines)

/-- The time of the last line for a task. -/
def lastTime (lines : List DelayLine) (task : Int) : Option Nat :=
  (lines.reverse.find? fun line => line.taskId = task).map DelayLine.maxTime

/-- What a line leaves in the table. -/
def DelayLine.insert (table : AppTimeTable) (line : DelayLine) : AppTimeTable :=
  table.insert line.taskId (guintToPointer line.maxTime)

theorem gpointerToUint_guintToPointer {time : Nat} (fits : time < 2 ^ 32) :
    gpointerToUint (guintToPointer time) = time := by
  unfold gpointerToUint guintToPointer
  split <;> omega

/-- A line starts with no white space. -/
theorem DelayLine.skipSpaces_text (line : DelayLine) (after : List Char) :
    skipSpaces (line.text ++ after) = line.text ++ after := by
  unfold DelayLine.text
  rw [List.append_assoc, List.append_assoc]
  cases line.negative with
  | true => rfl
  | false => exact (skip_numeral line.taskDigits _).1

/-- **A call on a line** reads its two numbers, and the white space behind it. -/
theorem fscanf_line (line : DelayLine) {after : List Char} (ends : NoDigitFirst after) :
    fscanf delayFormat (line.text ++ after) = ⟨[line.taskId, line.maxTime], false, skipSpaces after⟩ := by
  have blank : NoDigitFirst (' ' :: (line.time ++ after)) := by simp [NoDigitFirst]
  have first : scanNumber (line.text ++ after) = (.converted line.taskId, ' ' :: (line.time ++ after)) := by
    simpa [DelayLine.text, DelayLine.taskId] using scanNumber_numeral line.negative line.taskDigits blank
  have skipped : skipSpaces (' ' :: (line.time ++ after)) = line.time ++ after :=
    (skip_numeral line.timeDigits after).1
  have second : scanNumber (line.time ++ after) = (.converted line.maxTime, after) :=
    scanNumber_numeral false line.timeDigits ends
  simp only [delayFormat, fscanf, first, skipped, second]

/-- A file of lines is its first line and, behind the white space, the others. -/
theorem fileText_cons (lastNewline : Bool) (line : DelayLine) (lines : List DelayLine) :
    ∃ after, fileText lastNewline (line :: lines) = line.text ++ after ∧ NoDigitFirst after ∧
      skipSpaces after = fileText lastNewline lines := by
  cases lines with
  | nil =>
    refine ⟨if lastNewline then ['\n'] else [], rfl, ?_, ?_⟩
    · cases lastNewline <;> simp [NoDigitFirst]
    · cases lastNewline <;> rfl
  | cons next lines =>
    refine ⟨'\n' :: fileText lastNewline (next :: lines), rfl, by simp [NoDigitFirst], ?_⟩
    obtain ⟨after, isText, -⟩ := fileText_cons lastNewline next lines
    rw [isText]
    exact next.skipSpaces_text after

/-- **The loop on a file of lines** inserts the lines in their order. -/
theorem readDelays_lines (lib : Conversions) (lastNewline : Bool) (lines : List DelayLine) {fuel : Nat}
    (enough : lines.length < fuel) (taskId : Int) (maxTime : Nat) (table : AppTimeTable) :
    readDelays lib fuel (fileText lastNewline lines) taskId maxTime table =
      some (lines.foldl DelayLine.insert table) := by
  induction lines generalizing fuel taskId maxTime table with
  | nil =>
    obtain ⟨fuel, rfl⟩ := Nat.exists_eq_succ_of_ne_zero (Nat.ne_zero_of_lt enough)
    rfl
  | cons line lines ih =>
    obtain ⟨fuel, rfl⟩ := Nat.exists_eq_succ_of_ne_zero (Nat.ne_zero_of_lt enough)
    obtain ⟨after, isText, ends, isRest⟩ := fileText_cons lastNewline line lines
    have isTask : lib.int line.taskId = line.taskId := lib.int_eq _ line.taskFits.1 line.taskFits.2
    have isTime : lib.unsigned line.maxTime = line.maxTime := lib.unsigned_eq _ line.timeFits
    rw [readDelays, isText, fscanf_line line ends, isRest]
    simp only [Scanned.returns, Bool.false_eq_true, false_and, if_false, reduceCtorEq, List.getElem?_cons_zero,
      List.getElem?_cons_succ, Option.elim_some, isTask, isTime]
    exact ih (Nat.lt_of_succ_lt_succ enough) ..

/-- The table has the last time of each task. -/
theorem lookup_lines (lines : List DelayLine) (task : Int) :
    ((lines.foldl DelayLine.insert ∅).lookup task).map gpointerToUint = lastTime lines task := by
  induction lines using List.reverseRecOn with
  | nil => rfl
  | append_singleton lines line ih =>
    rw [List.foldl_append, List.foldl_cons, List.foldl_nil, DelayLine.insert, lastTime, List.reverse_append,
      List.reverse_singleton, List.singleton_append]
    by_cases same : line.taskId = task
    · subst same
      rw [AList.lookup_insert, List.find?_cons_of_pos (by simp)]
      exact congrArg some (gpointerToUint_guintToPointer line.timeFits)
    · rw [AList.lookup_insert_ne (Ne.symm same), List.find?_cons_of_neg (by simpa using same)]
      exact ih

/-! ### The whole file -/

/-- **When reading the delay file ends, and what it reads.** The loop ends exactly when the file has
white space, digits and signs only; and a file of lines gives each task the time of its last line, and
no other task any. -/
theorem read_delay_file_iff (lib : Conversions) (content : List Char) (taskId : Int) (maxTime : Nat) :
    ((∃ fuel, (readDelayFile lib fuel (some content) taskId maxTime).isSome = true) ↔
      ∀ c ∈ content, isNumeralChar c = true) ∧
    ∀ lines lastNewline, ∃ table : AppTimeTable,
      (∀ fuel, lines.length < fuel → readDelayFile lib fuel (some (fileText lastNewline lines)) taskId maxTime =
        some (table.entries.length, table)) ∧
      ∀ task, (table.lookup task).map gpointerToUint = lastTime lines task := by
  refine ⟨⟨fun ⟨fuel, ends⟩ c inside => ?_, fun fits => ⟨content.length + 1, ?_⟩⟩, fun lines lastNewline => ?_⟩
  · by_contra other
    rw [readDelayFile, readDelays_stuck inside (by simpa using other)] at ends
    cases ends
  · rw [readDelayFile, Option.isSome_map]
    exact readDelays_ends fits (Nat.lt_succ_self _)
  · refine ⟨lines.foldl DelayLine.insert ∅, fun fuel enough => ?_, lookup_lines lines⟩
    rw [readDelayFile, readDelays_lines lib lastNewline lines enough, Option.map_some]

/-- With a file of lines the delays stay enforced exactly when there is a line. -/
theorem installRuntime_lines (lib : Conversions) (lines : List DelayLine) (lastNewline : Bool) {fuel : Nat}
    (enough : lines.length < fuel) (taskId : Int) (maxTime : Nat) :
    installRuntime lib fuel (some (fileText lastNewline lines)) taskId maxTime true = some (!lines.isEmpty) := by
  rw [installRuntime, if_pos rfl, readDelayFile, readDelays_lines lib lastNewline lines enough]
  clear enough
  rcases List.eq_nil_or_concat' lines with rfl | ⟨lines, line, rfl⟩
  · rfl
  · simp [DelayLine.insert]

/-- The conversions of a library that goes through `long` and `unsigned long`. -/
def longConversions : Conversions where
  int n := (max (-2 ^ 63) (min n (2 ^ 63 - 1)) + 2 ^ 31) % 2 ^ 32 - 2 ^ 31
  unsigned n := if n.natAbs < 2 ^ 64 then (n % 2 ^ 32).toNat else 2 ^ 32 - 1
  int_eq n low high := by omega
  unsigned_eq n small := by
    rw [if_pos (by omega)]
    omega

example : ((readDelayFile longConversions 4 (some "1 20\n-2 30\n1 40\n".toList) 0 0).map fun result =>
    (result.1, (result.2.lookup 1).map gpointerToUint)) = some (2, some 40) := by decide

/-- **A word in a line is enough for the loop to go on forever.** -/
theorem delay_with_unit : ¬ ∃ fuel,
    (readDelayFile longConversions fuel (some ['5', ' ', 'm', 's', '\n']) 0 0).isSome = true := by
  rintro ⟨fuel, ends⟩
  rw [readDelayFile, readDelays_stuck (c := 'm') (by decide) (by decide)] at ends
  cases ends

end MinSmt
