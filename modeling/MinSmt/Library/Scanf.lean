/-
**Reading numbers from text, as `fscanf` does.**

A text is a list of characters; a byte is the character with its code.

* `isSpace`, `skipSpaces` — the white space of the C locale.
* `splitSign`, `decimal`, `scanNumber` — the directive `%d` (and `%u`, which accepts the same text):
  white space, an optional sign and digits. The input item is the longest text that can still become a
  number, so a sign is taken although no digit follows; the character that does not fit stays in the
  input.
* `fscanf` — a format, directive by directive. `Scanned.returns` is the value of the call, `none` for `EOF`.
* `Reads.fscanf` — a call takes nothing but numeral characters.
* `fscanf_number_shrinks` — a call for a number takes something when a numeral character comes next.
* `scanNumber_numeral` — what a numeral is read as.
-/

import Mathlib.Data.List.TakeWhile

namespace MinSmt.Library

/-! ### Characters and numerals -/

/-- `isspace`. -/
def isSpace (c : Char) : Bool := c == ' ' || (9 ≤ c.toNat && c.toNat ≤ 13)

/-- What is left after the white space. -/
def skipSpaces (input : List Char) : List Char := input.dropWhile isSpace

/-- The number that decimal digits write. -/
def decimal (digits : List Char) : Nat := digits.foldl (fun n c => 10 * n + (c.toNat - '0'.toNat)) 0

/-- An optional sign: whether it is a minus, and the text behind it. -/
def splitSign : List Char → Bool × List Char
  | '-' :: rest => (true, rest)
  | '+' :: rest => (false, rest)
  | input => (false, input)

/-- The number with a sign. -/
def signed (negative : Bool) (magnitude : Nat) : Int := if negative then -magnitude else magnitude

/-- The characters that a directive for a number can take. -/
def isNumeralChar (c : Char) : Bool := isSpace c || c.isDigit || c == '+' || c == '-'

/-! ### Directives -/

/-- How a directive ends. -/
inductive Conversion
  | inputFailure
  | matchingFailure
  | converted (value : Int)
  deriving DecidableEq, Repr

/-- `%d` and `%u`: how it ends and the rest of the input. -/
def scanNumber (input : List Char) : Conversion × List Char :=
  let (negative, item) := splitSign (skipSpaces input)
  let digits := item.takeWhile Char.isDigit
  (if skipSpaces input = [] then .inputFailure
    else if digits = [] then .matchingFailure
    else .converted (signed negative (decimal digits)), item.dropWhile Char.isDigit)

/-- The directives of a format. -/
inductive Directive
  | number
  | space
  deriving DecidableEq, Repr

/-- What a call of `fscanf` did: the numbers it converted, whether an input failure ended it, and the
input that it left. -/
structure Scanned where
  values : List Int
  inputFailed : Bool
  rest : List Char
  deriving DecidableEq, Repr

/-- `fscanf` with a format. -/
def fscanf : List Directive → List Char → Scanned
  | [], input => ⟨[], false, input⟩
  | .space :: format, input => fscanf format (skipSpaces input)
  | .number :: format, input =>
    match (scanNumber input).1 with
    | .inputFailure => ⟨[], true, (scanNumber input).2⟩
    | .matchingFailure => ⟨[], false, (scanNumber input).2⟩
    | .converted value =>
      { fscanf format (scanNumber input).2 with values := value :: (fscanf format (scanNumber input).2).values }

/-- The value of the call: `EOF` when an input failure came before the first conversion, else how many
numbers were converted. -/
def Scanned.returns (s : Scanned) : Option Nat :=
  if s.inputFailed = true ∧ s.values = [] then none else some s.values.length

/-! ### What is taken -/

/-- A part of the input has been taken, with numeral characters only. -/
def Reads (input rest : List Char) : Prop :=
  ∃ taken, input = taken ++ rest ∧ ∀ c ∈ taken, isNumeralChar c = true

theorem isNumeralChar_of_isSpace {c : Char} (space : isSpace c = true) : isNumeralChar c = true := by
  simp [isNumeralChar, space]

theorem isNumeralChar_of_isDigit {c : Char} (digit : c.isDigit = true) : isNumeralChar c = true := by
  simp [isNumeralChar, digit]

namespace Reads

variable {input middle rest : List Char}

theorem refl (input : List Char) : Reads input input := ⟨[], rfl, by simp⟩

theorem trans (first : Reads input middle) (second : Reads middle rest) : Reads input rest := by
  obtain ⟨taken, rfl, fits⟩ := first
  obtain ⟨taken', rfl, fits'⟩ := second
  refine ⟨taken ++ taken', (List.append_assoc ..).symm, fun c inside => ?_⟩
  exact (List.mem_append.mp inside).elim (fits c) (fits' c)

theorem length_le (reads : Reads input rest) : rest.length ≤ input.length := by
  obtain ⟨taken, rfl, -⟩ := reads
  simp

/-- A character that no number has is not taken. -/
theorem mem (reads : Reads input rest) {c : Char} (inside : c ∈ input) (other : isNumeralChar c = false) :
    c ∈ rest := by
  obtain ⟨taken, rfl, fits⟩ := reads
  refine (List.mem_append.mp inside).resolve_left fun inTaken => ?_
  rw [fits c inTaken] at other
  cases other

/-- What is left of numeral characters is numeral characters. -/
theorem all (reads : Reads input rest) (fits : ∀ c ∈ input, isNumeralChar c = true) :
    ∀ c ∈ rest, isNumeralChar c = true := by
  obtain ⟨taken, rfl, -⟩ := reads
  exact fun c inside => fits c (List.mem_append_right _ inside)

theorem dropWhile {p : Char → Bool} (fits : ∀ c, p c = true → isNumeralChar c = true) (input : List Char) :
    Reads input (input.dropWhile p) :=
  ⟨input.takeWhile p, List.takeWhile_append_dropWhile.symm, fun c inside => fits c (List.mem_takeWhile_imp inside)⟩

theorem skipSpaces (input : List Char) : Reads input (skipSpaces input) :=
  dropWhile (fun _ => isNumeralChar_of_isSpace) input

theorem splitSign (input : List Char) : Reads input (splitSign input).2 := by
  unfold Library.splitSign
  split
  · exact ⟨['-'], rfl, List.forall_mem_singleton.mpr rfl⟩
  · exact ⟨['+'], rfl, List.forall_mem_singleton.mpr rfl⟩
  · exact refl _

theorem scanNumber (input : List Char) : Reads input (scanNumber input).2 :=
  ((skipSpaces input).trans (splitSign _)).trans (dropWhile (fun _ => isNumeralChar_of_isDigit) _)

/-- **A call takes nothing but numeral characters.** -/
theorem fscanf (format : List Directive) (input : List Char) : Reads input (fscanf format input).rest := by
  induction format generalizing input with
  | nil => exact refl input
  | cons directive format ih =>
    cases directive with
    | space => exact (skipSpaces input).trans (ih _)
    | number =>
      unfold Library.fscanf
      split
      · exact scanNumber input
      · exact scanNumber input
      · exact (scanNumber input).trans (ih _)

end Reads

/-! ### Progress and failure -/

/-- The directive for a number takes something when a numeral character comes next. -/
theorem scanNumber_shrinks {c : Char} (input : List Char) (fits : isNumeralChar c = true) :
    (scanNumber (c :: input)).2.length < (c :: input).length := by
  have after : ∀ item : List Char, (item.dropWhile Char.isDigit).length ≤ item.length := fun item =>
    (List.dropWhile_sublist _).length_le
  by_cases space : isSpace c = true
  · have skipped : skipSpaces (c :: input) = skipSpaces input := List.dropWhile_cons_of_pos space
    have reads := Reads.scanNumber input
    have same : (scanNumber (c :: input)).2 = (scanNumber input).2 := by
      simp only [scanNumber, skipped]
    rw [same]
    exact Nat.lt_succ_of_le reads.length_le
  · have skipped : skipSpaces (c :: input) = c :: input := List.dropWhile_cons_of_neg space
    show (List.dropWhile Char.isDigit (splitSign (skipSpaces (c :: input))).2).length < _
    rw [skipped]
    unfold splitSign
    split
    case h_1 rest same =>
      rw [same]
      exact Nat.lt_succ_of_le (after rest)
    case h_2 rest same =>
      rw [same]
      exact Nat.lt_succ_of_le (after rest)
    case h_3 notMinus notPlus =>
      have digit : c.isDigit = true := by
        have isPlus : c ≠ '+' := fun same => notPlus input (same ▸ rfl)
        have isMinus : c ≠ '-' := fun same => notMinus input (same ▸ rfl)
        simpa [isNumeralChar, space, isPlus, isMinus] using fits
      rw [List.dropWhile_cons_of_pos digit]
      exact Nat.lt_succ_of_le (after input)

/-- **A call for a number takes something** when a numeral character comes next. -/
theorem fscanf_number_shrinks (format : List Directive) {c : Char} (input : List Char)
    (fits : isNumeralChar c = true) :
    (fscanf (.number :: format) (c :: input)).rest.length < (c :: input).length := by
  have shrinks := scanNumber_shrinks input fits
  unfold fscanf
  split
  · exact shrinks
  · exact shrinks
  · exact Nat.lt_of_le_of_lt (Reads.fscanf format _).length_le shrinks

theorem scanNumber_inputFailure {input : List Char} (failed : (scanNumber input).1 = .inputFailure) :
    (scanNumber input).2 = [] := by
  have spaces : skipSpaces input = [] := by
    simp only [scanNumber] at failed
    by_contra more
    rw [if_neg more] at failed
    split at failed <;> cases failed
  simp [scanNumber, spaces, splitSign]

/-- An input failure comes at the end of the input only. -/
theorem fscanf_inputFailed {format : List Directive} {input : List Char}
    (failed : (fscanf format input).inputFailed = true) : (fscanf format input).rest = [] := by
  induction format generalizing input with
  | nil => cases failed
  | cons directive format ih =>
    cases directive with
    | space => exact ih failed
    | number =>
      unfold fscanf at failed ⊢
      split at failed
      · exact scanNumber_inputFailure ‹_›
      · cases failed
      · exact ih failed

/-- `EOF` is returned at the end of the input only. -/
theorem rest_of_eof {format : List Directive} {input : List Char}
    (eof : (fscanf format input).returns = none) : (fscanf format input).rest = [] := by
  refine fscanf_inputFailed ?_
  unfold Scanned.returns at eof
  split at eof
  case isTrue failed => exact failed.1
  case isFalse => cases eof

@[simp] theorem fscanf_number_nil (format : List Directive) : (fscanf (.number :: format) []).returns = none := by
  rfl

/-! ### What a numeral is read as -/

/-- A nonempty text of digits. -/
def IsNumeral (text : List Char) : Prop := text ≠ [] ∧ ∀ c ∈ text, c.isDigit = true

instance (text : List Char) : Decidable (IsNumeral text) :=
  decidable_of_iff (text ≠ [] ∧ text.all Char.isDigit = true) (and_congr_right' List.all_eq_true)

/-- The text starts with no digit. -/
def NoDigitFirst (text : List Char) : Prop := ∀ c ∈ text.head?, c.isDigit = false

theorem takeWhile_numeral {text after : List Char} (numeral : IsNumeral text) (ends : NoDigitFirst after) :
    (text ++ after).takeWhile Char.isDigit = text ∧ (text ++ after).dropWhile Char.isDigit = after := by
  rw [List.takeWhile_append_of_pos numeral.2, List.dropWhile_append_of_pos numeral.2]
  cases after with
  | nil => simp
  | cons c after =>
    have other : c.isDigit = false := ends c rfl
    simp [other]

theorem digit_toNat {c : Char} (digit : c.isDigit = true) : 48 ≤ c.toNat ∧ c.toNat ≤ 57 := by
  have range : c.val ≥ 48 ∧ c.val ≤ 57 := by simpa [Char.isDigit] using digit
  exact ⟨UInt32.le_iff_toNat_le.mp range.1, UInt32.le_iff_toNat_le.mp range.2⟩

theorem not_isSpace_of_isDigit {c : Char} (digit : c.isDigit = true) : isSpace c = false := by
  have range := digit_toNat digit
  have notBlank : c ≠ ' ' := fun same => by
    rw [same] at digit
    cases digit
  simp only [isSpace, Bool.or_eq_false_iff, beq_eq_false_iff_ne, Bool.and_eq_false_iff, decide_eq_false_iff_not]
  exact ⟨notBlank, Or.inr (by omega)⟩

/-- A numeral starts with no white space and no sign. -/
theorem skip_numeral {text : List Char} (numeral : IsNumeral text) (after : List Char) :
    skipSpaces (text ++ after) = text ++ after ∧ splitSign (text ++ after) = (false, text ++ after) := by
  obtain ⟨nonempty, digits⟩ := numeral
  obtain ⟨c, text', rfl⟩ := List.exists_cons_of_ne_nil nonempty
  have digit := digits c List.mem_cons_self
  constructor
  · exact List.dropWhile_cons_of_neg (by simp [not_isSpace_of_isDigit digit])
  · unfold splitSign
    split
    case h_1 same =>
      cases same
      cases digit
    case h_2 same =>
      cases same
      cases digit
    case h_3 => rfl

/-- **A numeral with an optional minus is read as its number**, and the text behind it stays. -/
theorem scanNumber_numeral (negative : Bool) {text after : List Char} (numeral : IsNumeral text)
    (ends : NoDigitFirst after) :
    scanNumber ((if negative then ['-'] else []) ++ text ++ after) =
      (.converted (signed negative (decimal text)), after) := by
  obtain ⟨isText, isAfter⟩ := takeWhile_numeral numeral ends
  have nonempty := numeral.1
  cases negative with
  | true =>
    have skipped : skipSpaces ('-' :: (text ++ after)) = '-' :: (text ++ after) := rfl
    simp [scanNumber, skipped, splitSign, isText, isAfter, nonempty]
  | false =>
    obtain ⟨skipped, unsigned⟩ := skip_numeral numeral after
    simp [scanNumber, skipped, unsigned, isText, isAfter, nonempty]

end MinSmt.Library
