/-
**Reading options from a file and from the environment** (the C++ code that `lib/common/gen-opt.pl` writes).

The options that the code knows, with their types, are a parameter: the script takes them from the file of
defaults, one test of `read_option_inter` for each.

* `getline`, `parseNextOption`, `readOptions` — the entries are the lines of a file. Comments and blank
  lines are passed over, until the stream is at its end.
* `parseNextEnvOption`, `readEnvOptions` — the entries of `TERN_OPTIONS` are separated by colons. A
  blank entry is taken for the end.
* `readOptions_segments`, `readEnvOptions_segments` — what each of them applies of a list of entries.
* `env_agrees_iff` — when the two leave the same values.
-/

import Mathlib.Algebra.Ring.Int.Defs
import Mathlib.Algebra.Ring.Nat
import Mathlib.Data.List.Induction
import Mathlib.Logic.Function.Basic
import MinSmt.Library.Scanf

namespace MinSmt

open MinSmt.Library

/-! ### Values -/

/-- The types of options, from `opt_type`. -/
inductive OptType
  | int
  | unsigned
  | string
  deriving DecidableEq, Repr

/-- The value of an option. -/
inductive OptionValue
  | int (n : Int)
  | unsigned (n : Nat)
  | string (text : List Char)
  deriving DecidableEq, Repr

/-- The options that `read_option_inter` tests for, in its order. -/
abbrev OptionTypes := List (List Char × OptType)

/-- The variables of the namespace `options`. -/
abbrev OptionState := List Char → OptionValue

/-- The value of a digit in a base up to 16. -/
def digitValue (c : Char) : Nat :=
  if c.isDigit then c.toNat - '0'.toNat
  else if 'a' ≤ c ∧ c ≤ 'z' then c.toNat - 'a'.toNat + 10
  else if 'A' ≤ c ∧ c ≤ 'Z' then c.toNat - 'A'.toNat + 10
  else 36

/-- The base that a text is written in, and its digits and what follows them. -/
def basedDigits : List Char → Nat × List Char
  | '0' :: x :: rest =>
    if (x = 'x' ∨ x = 'X') ∧ (rest.head?.any fun c => digitValue c < 16) = true then (16, rest)
    else (8, x :: rest)
  | text => (10, text)

/-- `strtoul(text, 0, 0)`, on 64 bits. -/
def strtoul (text : List Char) : Nat :=
  let (negative, body) := splitSign (skipSpaces text)
  let (base, digits) := basedDigits body
  let value := (digits.takeWhile fun c => digitValue c < base).foldl (fun n c => base * n + digitValue c) 0
  if 2 ^ 64 ≤ value then 2 ^ 64 - 1 else if negative then (2 ^ 64 - value) % 2 ^ 64 else value

/-- `(int)` of an `unsigned long`. -/
def castInt (n : Nat) : Int := ((n : Int) + 2 ^ 31) % 2 ^ 32 - 2 ^ 31

/-- What the branch of `read_option_inter` for an option of the type assigns. -/
def OptType.convert (text : List Char) : OptType → OptionValue
  | .string => .string text
  | .int => .int (castInt (strtoul text))
  | .unsigned => .unsigned (castInt (strtoul text) % 2 ^ 32).toNat

/-- `read_option_inter`: whether the option is known, and the options afterwards. -/
def readOptionInter (types : OptionTypes) (key val : List Char) (s : OptionState) : Bool × OptionState :=
  match types.lookup key with
  | some type => (true, Function.update s key (type.convert val))
  | none => (false, s)

/-! ### Entries -/

/-- `line.erase(remove_if(.., ::isspace), line.end())`. -/
def stripSpaces (line : List Char) : List Char := line.filter fun c => !isSpace c

/-- `split_key_val`; an error is a failed assertion. -/
def splitKeyVal (line : List Char) : Except String (List Char × List Char) :=
  match line.dropWhile (· != '=') with
  | [] => .error "invalid option"
  | _ :: val =>
    if line.takeWhile (· != '=') = [] then .error "empty key"
    else if val = [] then .error "empty value"
    else .ok (line.takeWhile (· != '='), val)

/-- An `ifstream` that has been opened: what is left to read, and `eof()`. -/
structure IfStream where
  rest : List Char
  eof : Bool := false
  deriving DecidableEq, Repr

/-- How much there is still to do with a stream. -/
def IfStream.size (f : IfStream) : Nat := if f.eof then 0 else f.rest.length + 1

/-- `getline(f, line)` on a stream that is not at its end. -/
def getline (f : IfStream) : List Char × IfStream :=
  (f.rest.takeWhile (· != '\n'),
    match f.rest.dropWhile (· != '\n') with
    | [] => { rest := [], eof := true }
    | _ :: rest => { rest := rest })

theorem getline_size {f : IfStream} (more : f.eof = false) : (getline f).2.size < f.size := by
  have bound := (List.dropWhile_sublist (· != '\n') (l := f.rest)).length_le
  unfold getline
  cases left : f.rest.dropWhile (· != '\n') with
  | nil => simp [IfStream.size, more]
  | cons c rest =>
    rw [left, List.length_cons] at bound
    simp only [IfStream.size, more, Bool.false_eq_true, if_false]
    omega

/-- The loop of `parse_next_option`: the next line that is not empty without its comment and its spaces,
or an empty line at the end of the stream. -/
def nextLine (f : IfStream) : List Char × IfStream :=
  if _more : f.eof = false then
    let line := stripSpaces ((getline f).1.takeWhile (· != '#'))
    if line = [] then nextLine (getline f).2 else (line, (getline f).2)
  else ([], f)
termination_by f.size
decreasing_by exact getline_size ‹_›

/-- `parse_next_option`: the entry, `none` for the result `0`. -/
def parseNextOption (f : IfStream) : Except String (Option (List Char × List Char) × IfStream) :=
  if (nextLine f).1 = [] then .ok (none, (nextLine f).2)
  else (splitKeyVal (nextLine f).1).map fun entry => (some entry, (nextLine f).2)

/-- `parse_next_env_option`: the entry and what is left of the string. -/
def parseNextEnvOption (env : List Char) : Except String (Option (List Char × List Char) × List Char) :=
  let line := stripSpaces (env.takeWhile (· != ':'))
  let rest := (env.dropWhile (· != ':')).tail
  if line = [] then .ok (none, rest)
  else (splitKeyVal line).map fun entry => (some entry, rest)

theorem nextLine_size {f : IfStream} (found : (nextLine f).1 ≠ []) : (nextLine f).2.size < f.size := by
  induction f using nextLine.induct with
  | case1 f more line blank ih =>
    rw [nextLine, dif_pos more, if_pos blank] at found ⊢
    exact (ih found).trans (getline_size more)
  | case2 f more line full =>
    rw [nextLine, dif_pos more, if_neg full]
    exact getline_size more
  | case3 f ended =>
    rw [nextLine, dif_neg ended] at found
    exact absurd rfl found

theorem parseNextOption_size {f f' : IfStream} {entry : List Char × List Char}
    (parsed : parseNextOption f = .ok (some entry, f')) : f'.size < f.size := by
  unfold parseNextOption at parsed
  split at parsed
  · cases parsed
  · rename_i found
    cases split : splitKeyVal (nextLine f).1 with
    | error text =>
      rw [split] at parsed
      cases parsed
    | ok result =>
      rw [split] at parsed
      cases parsed
      exact nextLine_size found

theorem parseNextEnvOption_length {env rest : List Char} {entry : List Char × List Char}
    (parsed : parseNextEnvOption env = .ok (some entry, rest)) : rest.length < env.length := by
  have bound := (List.dropWhile_sublist (· != ':') (l := env)).length_le
  unfold parseNextEnvOption at parsed
  dsimp only at parsed
  split at parsed
  · cases parsed
  · rename_i found
    have nonempty : env ≠ [] := fun isNil => found (by rw [isNil]; rfl)
    cases split : splitKeyVal (stripSpaces (env.takeWhile (· != ':'))) with
    | error text =>
      rw [split] at parsed
      cases parsed
    | ok result =>
      rw [split] at parsed
      cases parsed
      have positive := List.length_pos_iff.mpr nonempty
      rw [List.length_tail]
      omega

/-! ### The two readers -/

/-- The loop of `read_options`. -/
def readEntries (types : OptionTypes) (f : IfStream) (s : OptionState) : Except String OptionState :=
  match _parsed : parseNextOption f with
  | .error text => .error text
  | .ok (none, _) => .ok s
  | .ok (some entry, f') => readEntries types f' (readOptionInter types entry.1 entry.2 s).2
termination_by f.size
decreasing_by exact parseNextOption_size ‹_›

/-- The loop of `read_env_options`. -/
def readEnvEntries (types : OptionTypes) (env : List Char) (s : OptionState) : Except String OptionState :=
  match _parsed : parseNextEnvOption env with
  | .error text => .error text
  | .ok (none, _) => .ok s
  | .ok (some entry, rest) => readEnvEntries types rest (readOptionInter types entry.1 entry.2 s).2
termination_by env.length
decreasing_by exact parseNextEnvOption_length ‹_›

/-- `read_options`: its result and the options afterwards. `none` is a file that cannot be opened. -/
def readOptions (types : OptionTypes) (file : Option (List Char)) (s : OptionState) :
    Except String (Bool × OptionState) :=
  match file with
  | none => .ok (false, s)
  | some content => (readEntries types { rest := content } s).map fun s => (true, s)

/-- `read_env_options`: its result and the options afterwards. `none` is a `TERN_OPTIONS` that is not
set. -/
def readEnvOptions (types : OptionTypes) (env : Option (List Char)) (s : OptionState) :
    Except String (Bool × OptionState) :=
  match env with
  | none => .ok (false, s)
  | some text => (readEnvEntries types text s).map fun s => (true, s)

/-! ### Entries that are joined -/

/-- A segment: it has no separator and no comment, and is blank or an entry. -/
structure Segment where
  text : List Char
  clean : ∀ c ∈ text, c ≠ ':' ∧ c ≠ '\n' ∧ c ≠ '#'
  form : stripSpaces text = [] ∨ ∃ key val, stripSpaces text = key ++ '=' :: val ∧ '=' ∉ key ∧ key ≠ [] ∧ val ≠ []

namespace Segment

/-- The segment is only white space. -/
def blank (g : Segment) : Bool := (stripSpaces g.text).isEmpty

/-- The key and the value of an entry. -/
def entry (g : Segment) : List Char × List Char :=
  ((stripSpaces g.text).takeWhile (· != '='), ((stripSpaces g.text).dropWhile (· != '=')).tail)

/-- Set the option that the segment is for. -/
def apply (types : OptionTypes) (s : OptionState) (g : Segment) : OptionState :=
  if g.blank then s else (readOptionInter types g.entry.1 g.entry.2 s).2

/-- The value that the segment gives to an option of a type. -/
def valueFor (name : List Char) (type : OptType) (g : Segment) : Option OptionValue :=
  if g.blank = false ∧ g.entry.1 = name then some (type.convert g.entry.2) else none

end Segment

/-- Segments with a separator between them. -/
def joinSegments (sep : Char) : List Segment → List Char
  | [] => []
  | [g] => g.text
  | g :: next :: segments => g.text ++ sep :: joinSegments sep (next :: segments)

/-- Apply all segments in order. -/
def applySegments (types : OptionTypes) (segments : List Segment) (s : OptionState) : OptionState :=
  segments.foldl (Segment.apply types) s

/-- The value that the last of the segments for an option gives it. -/
def lastValue (types : OptionTypes) (segments : List Segment) (name : List Char) : Option OptionValue :=
  (types.lookup name).bind fun type => segments.reverse.findSome? (Segment.valueFor name type)

section Split

variable {sep : Char} {first : List Char} (clean : sep ∉ first)

include clean

theorem takeWhile_sep (rest : List Char) :
    (first ++ sep :: rest).takeWhile (· != sep) = first ∧
      (first ++ sep :: rest).dropWhile (· != sep) = sep :: rest := by
  have all : ∀ c ∈ first, (c != sep) = true := fun c inside => by
    simpa using fun same : c = sep => clean (same ▸ inside)
  rw [List.takeWhile_append_of_pos all, List.dropWhile_append_of_pos all]
  simp

theorem takeWhile_no_sep :
    first.takeWhile (· != sep) = first ∧ first.dropWhile (· != sep) = [] := by
  have all : ∀ c ∈ first, (c != sep) = true := fun c inside => by
    simpa using fun same : c = sep => clean (same ▸ inside)
  exact ⟨List.takeWhile_eq_self_iff.mpr all, List.dropWhile_eq_nil_iff.mpr all⟩

end Split

namespace Segment

variable (g : Segment)

theorem no_sep {sep : Char} (isSep : sep = ':' ∨ sep = '\n' ∨ sep = '#') : sep ∉ g.text := fun inside => by
  obtain ⟨notColon, notNewline, notHash⟩ := g.clean sep inside
  rcases isSep with rfl | rfl | rfl
  · exact notColon rfl
  · exact notNewline rfl
  · exact notHash rfl

theorem blank_iff : g.blank = true ↔ stripSpaces g.text = [] := List.isEmpty_iff

/-- An entry is split into its key and its value. -/
theorem splitKeyVal_eq (full : g.blank = false) : splitKeyVal (stripSpaces g.text) = .ok g.entry := by
  have nonempty : stripSpaces g.text ≠ [] := fun isNil => by
    rw [g.blank_iff.mpr isNil] at full
    cases full
  obtain ⟨key, val, isText, noSep, key_ne, val_ne⟩ := g.form.resolve_left nonempty
  obtain ⟨isKey, isRest⟩ := takeWhile_sep noSep val
  unfold splitKeyVal entry
  rw [isText, isKey, isRest]
  simp [key_ne, val_ne]

end Segment

/-- Up to the next separator there is the first segment, and behind it the others. -/
theorem join_cons {sep : Char} (isSep : sep = ':' ∨ sep = '\n' ∨ sep = '#') (g : Segment)
    (segments : List Segment) :
    (joinSegments sep (g :: segments)).takeWhile (· != sep) = g.text ∧
      (joinSegments sep (g :: segments)).dropWhile (· != sep) =
        if segments = [] then [] else sep :: joinSegments sep segments := by
  cases segments with
  | nil => exact takeWhile_no_sep (g.no_sep isSep)
  | cons next segments => exact takeWhile_sep (g.no_sep isSep) _

/-! ### What the readers apply -/

section Readers

variable (types : OptionTypes)

/-- The stream before the segments, or at its end. -/
def streamOf : List Segment → IfStream
  | [] => { rest := [], eof := true }
  | segments => { rest := joinSegments '\n' segments }

theorem getline_streamOf (g : Segment) (segments : List Segment) :
    getline (streamOf (g :: segments)) = (g.text, streamOf segments) := by
  obtain ⟨isLine, isRest⟩ := join_cons (Or.inr (Or.inl rfl)) g segments
  have rest : (streamOf (g :: segments)).rest = joinSegments '\n' (g :: segments) := rfl
  unfold getline
  rw [rest, isLine, isRest]
  cases segments with
  | nil => rfl
  | cons next segments => rfl

theorem nextLine_streamOf (g : Segment) (segments : List Segment) :
    nextLine (streamOf (g :: segments)) =
      if g.blank then nextLine (streamOf segments) else (stripSpaces g.text, streamOf segments) := by
  have noHash : g.text.takeWhile (· != '#') = g.text := (takeWhile_no_sep (g.no_sep (by simp))).1
  have more : (streamOf (g :: segments)).eof = false := rfl
  rw [nextLine, dif_pos more, getline_streamOf]
  dsimp only
  rw [noHash]
  simp only [g.blank_iff]

/-- `parse_next_option` passes over a blank line and gives an entry. -/
theorem parseNextOption_streamOf (g : Segment) (segments : List Segment) :
    parseNextOption (streamOf (g :: segments)) =
      if g.blank then parseNextOption (streamOf segments) else .ok (some g.entry, streamOf segments) := by
  unfold parseNextOption
  rw [nextLine_streamOf]
  cases isBlank : g.blank with
  | true => rfl
  | false =>
    have full : stripSpaces g.text ≠ [] := fun isNil => by
      rw [g.blank_iff.mpr isNil] at isBlank
      cases isBlank
    simp only [Bool.false_eq_true, if_false, full, g.splitKeyVal_eq isBlank]
    rfl

theorem readEntries_congr {f f' : IfStream} (same : parseNextOption f = parseNextOption f') (s : OptionState) :
    readEntries types f s = readEntries types f' s := by
  rw [readEntries, readEntries, same]

/-- **`read_options` applies all segments.** -/
theorem readEntries_streamOf (segments : List Segment) (s : OptionState) :
    readEntries types (streamOf segments) s = .ok (applySegments types segments s) := by
  induction segments generalizing s with
  | nil =>
    have ended : parseNextOption (streamOf []) = .ok (none, streamOf []) := by
      simp [parseNextOption, nextLine, streamOf]
    rw [readEntries, ended]
    rfl
  | cons g segments ih =>
    have parsed := parseNextOption_streamOf g segments
    rw [applySegments, List.foldl_cons, Segment.apply]
    cases isBlank : g.blank with
    | true =>
      rw [isBlank, if_pos rfl] at parsed
      rw [readEntries_congr types parsed, if_pos rfl]
      exact ih s
    | false =>
      rw [isBlank, if_neg Bool.false_ne_true] at parsed
      rw [readEntries, parsed, if_neg Bool.false_ne_true]
      exact ih _

theorem readOptions_segments (segments : List Segment) (s : OptionState) :
    readOptions types (some (joinSegments '\n' segments)) s = .ok (true, applySegments types segments s) := by
  rw [readOptions]
  cases segments with
  | nil =>
    have ended : parseNextOption { rest := [] } = parseNextOption (streamOf []) := by
      simp [parseNextOption, nextLine, streamOf, getline, stripSpaces]
    rw [joinSegments, readEntries_congr types ended, readEntries_streamOf]
    rfl
  | cons g segments =>
    have start : ({ rest := joinSegments '\n' (g :: segments) } : IfStream) = streamOf (g :: segments) := rfl
    rw [start, readEntries_streamOf]
    rfl

/-- `parse_next_env_option` ends the loop at a blank segment. -/
theorem parseNextEnvOption_join (g : Segment) (segments : List Segment) :
    parseNextEnvOption (joinSegments ':' (g :: segments)) =
      .ok (if g.blank then none else some g.entry, joinSegments ':' segments) := by
  obtain ⟨isLine, isRest⟩ := join_cons (Or.inl rfl) g segments
  have rest : (if segments = [] then [] else ':' :: joinSegments ':' segments).tail =
      joinSegments ':' segments := by
    by_cases isNil : segments = []
    · rw [if_pos isNil, isNil]
      rfl
    · rw [if_neg isNil, List.tail_cons]
  unfold parseNextEnvOption
  dsimp only
  rw [isLine, isRest, rest]
  cases isBlank : g.blank with
  | true => rw [if_pos (g.blank_iff.mp isBlank), if_pos rfl]
  | false =>
    have full : stripSpaces g.text ≠ [] := fun isNil => by
      rw [g.blank_iff.mpr isNil] at isBlank
      cases isBlank
    rw [if_neg full, g.splitKeyVal_eq isBlank]
    rfl

/-- **`read_env_options` applies the segments before the first blank one.** -/
theorem readEnvEntries_join (segments : List Segment) (s : OptionState) :
    readEnvEntries types (joinSegments ':' segments) s =
      .ok (applySegments types (segments.takeWhile fun g => !g.blank) s) := by
  induction segments generalizing s with
  | nil =>
    have ended : parseNextEnvOption (joinSegments ':' []) = .ok (none, []) := rfl
    rw [readEnvEntries, ended]
    rfl
  | cons g segments ih =>
    have parsed := parseNextEnvOption_join g segments
    rw [readEnvEntries, parsed]
    cases isBlank : g.blank with
    | true => simp [isBlank, applySegments]
    | false =>
      simp only [isBlank, Bool.false_eq_true, if_false, List.takeWhile_cons, Bool.not_false, if_true,
        applySegments, List.foldl_cons, Segment.apply]
      exact ih _

theorem readEnvOptions_segments (segments : List Segment) (s : OptionState) :
    readEnvOptions types (some (joinSegments ':' segments)) s =
      .ok (true, applySegments types (segments.takeWhile fun g => !g.blank) s) := by
  rw [readEnvOptions, readEnvEntries_join]
  rfl

end Readers

/-! ### Agreement -/

section Agreement

variable (types : OptionTypes)

/-- The value of an option after segments: the last one given, or the one before. -/
theorem applySegments_eq (segments : List Segment) (s : OptionState) (name : List Char) :
    applySegments types segments s name = (lastValue types segments name).getD (s name) := by
  induction segments using List.reverseRecOn with
  | nil =>
    cases known : types.lookup name <;> simp [applySegments, lastValue, known]
  | append_singleton segments g ih =>
    rw [applySegments, List.foldl_append, List.foldl_cons, List.foldl_nil, ← applySegments, lastValue,
      List.reverse_append, List.reverse_singleton, List.singleton_append]
    unfold lastValue at ih
    unfold Segment.apply readOptionInter
    cases isBlank : g.blank with
    | true => simpa [Segment.valueFor, isBlank, List.findSome?_cons] using ih
    | false =>
      by_cases same : g.entry.1 = name
      · subst same
        cases known : types.lookup g.entry.1 with
        | none => simpa [known] using ih
        | some type => simp [Segment.valueFor, isBlank]
      · cases known : types.lookup g.entry.1 with
        | none => simpa [Segment.valueFor, isBlank, same, List.findSome?_cons] using ih
        | some type =>
          simpa [Segment.valueFor, isBlank, same, List.findSome?_cons,
            Function.update_of_ne (Ne.symm same)] using ih

/-- Segments change nothing exactly when the last ones for each option give it the value that it has. -/
theorem applySegments_eq_self_iff (segments : List Segment) (s : OptionState) :
    applySegments types segments s = s ↔
      ∀ name value, lastValue types segments name = some value → s name = value := by
  constructor
  · intro same name value given
    have here := congrFun same name
    rw [applySegments_eq, given] at here
    exact here.symm
  · intro kept
    funext name
    rw [applySegments_eq]
    cases given : lastValue types segments name with
    | none => rfl
    | some value => exact (kept name value given).symm

theorem applySegments_append (ahead behind : List Segment) (s : OptionState) :
    applySegments types (ahead ++ behind) s = applySegments types behind (applySegments types ahead s) :=
  List.foldl_append

/-- The environment and a file agree when the segments behind the first blank one change nothing. -/
theorem env_eq_file_iff (segments : List Segment) (s : OptionState) :
    readEnvOptions types (some (joinSegments ':' segments)) s =
        readOptions types (some (joinSegments '\n' segments)) s ↔
      applySegments types (segments.dropWhile fun g => !g.blank)
          (applySegments types (segments.takeWhile fun g => !g.blank) s) =
        applySegments types (segments.takeWhile fun g => !g.blank) s := by
  have split : applySegments types segments s = applySegments types (segments.dropWhile fun g => !g.blank)
      (applySegments types (segments.takeWhile fun g => !g.blank) s) := by
    rw [← applySegments_append, List.takeWhile_append_dropWhile]
  rw [readEnvOptions_segments, readOptions_segments, split]
  constructor
  · intro same
    injection same with same
    injection same with _ same
    exact same.symm
  · intro same
    rw [same]

/-- **When the environment and a file leave the same values.** They do exactly when each option that is set
behind the first blank segment is set there, at last, to the value that it has before that segment. The file
always leaves what all segments give, in order. -/
theorem env_agrees_iff (segments : List Segment) (s : OptionState) :
    (readEnvOptions types (some (joinSegments ':' segments)) s =
        readOptions types (some (joinSegments '\n' segments)) s ∧
      readOptions types (some (joinSegments '\n' segments)) s = .ok (true, applySegments types segments s)) ↔
    ∀ name value, lastValue types (segments.dropWhile fun g => !g.blank) name = some value →
      (lastValue types (segments.takeWhile fun g => !g.blank) name).getD (s name) = value := by
  rw [and_iff_left (readOptions_segments types segments s), env_eq_file_iff, applySegments_eq_self_iff]
  simp only [applySegments_eq]

/-- Blank segments at the end do no harm. -/
theorem agrees_of_blank_end {segments : List Segment}
    (ends : ∀ g ∈ segments.dropWhile fun g => !g.blank, g.blank = true) (s : OptionState) :
    readEnvOptions types (some (joinSegments ':' segments)) s =
      readOptions types (some (joinSegments '\n' segments)) s := by
  refine (env_eq_file_iff types segments s).mpr ((applySegments_eq_self_iff types _ _).mpr ?_)
  intro name value given
  obtain ⟨type, -, found⟩ := Option.bind_eq_some_iff.mp given
  obtain ⟨g, inside, isValue⟩ := List.exists_of_findSome?_eq_some found
  rw [Segment.valueFor, ends g (List.mem_reverse.mp inside)] at isValue
  simp at isValue

end Agreement

/-- **A blank segment ends the environment.** With two colons in a row the second option is dropped,
while the file with an empty line sets it. -/
theorem blank_segment_in_environment : ∃ segments : List Segment,
    joinSegments ':' segments = "DMT=1::exec_sleep=1".toList ∧
    joinSegments '\n' segments = "DMT=1\n\nexec_sleep=1".toList ∧
    readEnvOptions [("DMT".toList, .int), ("exec_sleep".toList, .int)] (some (joinSegments ':' segments))
        (fun _ => .int 0) ≠
      readOptions [("DMT".toList, .int), ("exec_sleep".toList, .int)] (some (joinSegments '\n' segments))
        (fun _ => .int 0) := by
  refine ⟨[⟨"DMT=1".toList, by simp, Or.inr ⟨"DMT".toList, ['1'], rfl, by simp, by simp, by simp⟩⟩,
    ⟨[], by simp, Or.inl rfl⟩,
    ⟨"exec_sleep=1".toList, by simp, Or.inr ⟨"exec_sleep".toList, ['1'], rfl, by simp, by simp, by simp⟩⟩],
    rfl, rfl, fun same => ?_⟩
  have kept := (applySegments_eq_self_iff _ _ _).mp ((env_eq_file_iff _ _ _).mp same)
  have value := kept "exec_sleep".toList (.int 1) (by decide)
  exact absurd value (by decide)

end MinSmt
