/-
**Options that are dumped to a file and read back** (`print_options` of `lib/common/gen-opt.pl`, and the
file `default.options` that the script is given).

* `OptionTable`, `defaultOptions` — the file of defaults: the options, their types and their first values.
* `printOptions` — what is written to the file.
* `Typed` — the values that the readers can set, in any run of them (`typed_run`).
* `strtoul_toDigits` — a printed number is read as itself.
* `restores_iff` — the printed value of an option gives the option the same value, unless it has a `#`.
* `readEntries_dump` — what the reader makes of a dump, line by line.
* `dump_reads_back_iff` — a dump is read back as it was written, exactly when no string has a `#`.
* `OptionTable.clean_run` — a `#` comes from the environment only.
-/

import MinSmt.Library.Run
import MinSmt.Options.OptionParser

namespace MinSmt

open MinSmt.Library

/-! ### The file of defaults -/

/-- A line of the file of defaults: an option and the text of its value, without quotes. -/
structure OptionDefault where
  name : List Char
  text : List Char
  deriving DecidableEq, Repr

/-- `opt_type`. -/
def optType (value : List Char) : OptType :=
  if IsNumeral (splitSign value).2 then .int
  else if value.take 2 = ['0', 'x'] ∧ value.drop 2 ≠ [] ∧ (value.drop 2).all (digitValue · < 16) then
    .unsigned
  else .string

/-- A character that is not white space and does not begin a comment. -/
def plain (c : Char) : Bool := !isSpace c && c != '#'

/-- What `read_optf` makes of the file of defaults, in the order of the keys. A key is the name of a
variable in the generated code, and a value is not empty. -/
structure OptionTable where
  entries : List OptionDefault
  distinct : (entries.map OptionDefault.name).Nodup
  named : ∀ d ∈ entries, d.name ≠ [] ∧ ∀ c ∈ d.name, plain c = true ∧ c ≠ '='
  valued : ∀ d ∈ entries, d.text ≠ [] ∧ ∀ c ∈ d.text, plain c = true

/-- The names of a table, tested. -/
theorem named_of_all {entries : List OptionDefault}
    (all : entries.all fun d => !d.name.isEmpty && d.name.all fun c => plain c && c != '=') :
    ∀ d ∈ entries, d.name ≠ [] ∧ ∀ c ∈ d.name, plain c = true ∧ c ≠ '=' := by
  intro d inside
  have tested := List.all_eq_true.mp all d inside
  simp only [Bool.and_eq_true, List.all_eq_true, bne_iff_ne, Bool.not_eq_true',
    List.isEmpty_eq_false_iff] at tested
  exact tested

/-- The values of a table, tested. -/
theorem valued_of_all {entries : List OptionDefault}
    (all : entries.all fun d => !d.text.isEmpty && d.text.all plain) :
    ∀ d ∈ entries, d.text ≠ [] ∧ ∀ c ∈ d.text, plain c = true := by
  intro d inside
  have tested := List.all_eq_true.mp all d inside
  simp only [Bool.and_eq_true, List.all_eq_true, Bool.not_eq_true', List.isEmpty_eq_false_iff] at tested
  exact tested

namespace OptionTable

/-- The tests of `read_option_inter`. -/
def types (table : OptionTable) : OptionTypes := table.entries.map fun d => (d.name, optType d.text)

/-- The variables when the program starts. A numeral of the generated code has the value that `strtoul`
gives it. -/
def defaults (table : OptionTable) : OptionState := fun name =>
  ((table.entries.find? fun d => d.name == name).map fun d => (optType d.text).convert d.text).getD (.int 0)

end OptionTable

/-- `default.options`, with its keys in order. -/
def defaultOptions : OptionTable where
  entries := [
    ⟨"DMT".toList, "1".toList⟩,
    ⟨"RR_ignore_rw_regular_file".toList, "1".toList⟩,
    ⟨"backtrace_level".toList, "0".toList⟩,
    ⟨"disable_soba".toList, "0".toList⟩,
    ⟨"dync_geteip".toList, "0".toList⟩,
    ⟨"enforce_annotations".toList, "1".toList⟩,
    ⟨"enforce_delays".toList, "0".toList⟩,
    ⟨"enforce_dummy_sync".toList, "0".toList⟩,
    ⟨"enforce_ext_turn".toList, "0".toList⟩,
    ⟨"enforce_next_n_annotations".toList, "0".toList⟩,
    ⟨"enforce_no_cswhole_annotations".toList, "0".toList⟩,
    ⟨"enforce_no_wait_non_det_annotations".toList, "0".toList⟩,
    ⟨"enforce_non_det_annotations".toList, "0".toList⟩,
    ⟨"enforce_non_det_clock_bound".toList, "0".toList⟩,
    ⟨"enforce_turn_type".toList, "2".toList⟩,
    ⟨"exec_sleep".toList, "0".toList⟩,
    ⟨"generate_per_sync_stats".toList, "0".toList⟩,
    ⟨"high_priority_yield".toList, "0".toList⟩,
    ⟨"launch_idle_thread".toList, "2".toList⟩,
    ⟨"log_sync".toList, "0".toList⟩,
    ⟨"log_task_time".toList, "0".toList⟩,
    ⟨"log_type".toList, "txt".toList⟩,
    ⟨"nanosec_per_turn".toList, "3000".toList⟩,
    ⟨"non_block_recv".toList, "0".toList⟩,
    ⟨"non_det_clock_bound".toList, "1000".toList⟩,
    ⟨"non_det_for_single_thread".toList, "0".toList⟩,
    ⟨"output_dir".toList, "./dmt_out".toList⟩,
    ⟨"pid_in_logfilename".toList, "1".toList⟩,
    ⟨"rdtsc_output_dir".toList, "./dmt_rdtsc_out".toList⟩,
    ⟨"record_rdtsc".toList, "0".toList⟩,
    ⟨"record_runtime_stat".toList, "0".toList⟩,
    ⟨"scheduler_seed".toList, "0x12345".toList⟩,
    ⟨"scheduling_policy".toList, "0".toList⟩,
    ⟨"set_mutex_errorcheck".toList, "0".toList⟩,
    ⟨"wakeamap_plus".toList, "0".toList⟩,
    ⟨"whole_stack_eip_signature".toList, "0".toList⟩]
  distinct := by decide +kernel
  named := named_of_all (by decide +kernel)
  valued := valued_of_all (by decide +kernel)

/-! ### Printing -/

/-- `o << options::name`. -/
def OptionValue.print : OptionValue → List Char
  | .int n => (if n < 0 then ['-'] else []) ++ Nat.toDigits 10 n.natAbs
  | .unsigned n => Nat.toDigits 10 n
  | .string text => text

/-- A line for an option, without its end. -/
def printOption (s : OptionState) (name : List Char) : List Char := name ++ " = ".toList ++ (s name).print

/-- `print_options_to_stream`. -/
def printOptionsToStream (types : OptionTypes) (s : OptionState) : List Char :=
  types.flatMap fun option => printOption s option.1 ++ ['\n']

/-- `print_options(file)`: the content of the file. -/
def printOptions (types : OptionTypes) (s : OptionState) : List Char :=
  printOptionsToStream types s ++ "\n#DO NOT DELETE\n".toList

/-! ### Runs of the readers -/

/-- A call of a reader, with what it is given. -/
inductive OptionReading
  | file (content : Option (List Char))
  | env (text : Option (List Char))
  deriving DecidableEq, Repr

/-- The options after a call; `none` is a failed assertion. -/
def OptionReading.step (types : OptionTypes) (s : OptionState) : OptionReading → Option OptionState
  | .file content => (readOptions types content s).toOption.map Prod.snd
  | .env text => (readEnvOptions types text s).toOption.map Prod.snd

/-- The dump of `s` is read, from `start`, as `s` again. -/
def OptionTable.ReadsBack (table : OptionTable) (s start : OptionState) : Prop :=
  ∃ s', readOptions table.types (some (printOptions table.types s)) start = .ok (true, s') ∧
    ∀ option ∈ table.types, s' option.1 = s option.1

/-! ### The values that can be set -/

/-- A value for an option of a type, with strings of allowed characters. -/
def OptionValue.Fits (allowed : Char → Bool) : OptType → OptionValue → Prop
  | .int, .int n => -2 ^ 31 ≤ n ∧ n < 2 ^ 31
  | .unsigned, .unsigned n => n < 2 ^ 32
  | .string, .string text => text ≠ [] ∧ ∀ c ∈ text, allowed c = true
  | _, _ => False

/-- Every option has a value of its type. -/
def Typed (allowed : Char → Bool) (types : OptionTypes) (s : OptionState) : Prop :=
  ∀ name type, types.lookup name = some type → (s name).Fits allowed type

/-- The characters that a reader can take from what it is given are allowed. -/
def OptionReading.Allows (allowed : Char → Bool) : OptionReading → Prop
  | .file _ => ∀ c, plain c = true → allowed c = true
  | .env text => ∀ c ∈ text.getD [], isSpace c = false → allowed c = true

theorem plain_iff {c : Char} : plain c = true ↔ isSpace c = false ∧ c ≠ '#' := by
  simp [plain]

theorem mem_stripSpaces {c : Char} {line : List Char} : c ∈ stripSpaces line ↔ c ∈ line ∧ isSpace c = false := by
  simp [stripSpaces]

theorem castInt_range (n : Nat) : -2 ^ 31 ≤ castInt n ∧ castInt n < 2 ^ 31 := by
  unfold castInt
  omega

theorem map_eq_ok {α β : Type*} {x : Except String α} {f : α → β} {b : β} (isOk : x.map f = .ok b) :
    ∃ a, x = .ok a ∧ b = f a := by
  cases x with
  | error text => cases isOk
  | ok a => exact ⟨a, rfl, (Except.ok.inj isOk).symm⟩

theorem ok_of_toOption {α : Type*} {x : Except String α} {a : α} (found : x.toOption = some a) : x = .ok a := by
  cases x with
  | error text => cases found
  | ok b => exact congrArg Except.ok (Option.some.inj found)

/-- A known option is set. -/
theorem readOptionInter_known {types : OptionTypes} {key : List Char} {type : OptType} (s : OptionState)
    (val : List Char) (known : types.lookup key = some type) :
    (readOptionInter types key val s).2 key = type.convert val := by
  rw [readOptionInter, known]
  exact Function.update_self _ _ _

/-- No other option is set. -/
theorem readOptionInter_of_ne (types : OptionTypes) {key name : List Char} (s : OptionState) (val : List Char)
    (other : name ≠ key) : (readOptionInter types key val s).2 name = s name := by
  unfold readOptionInter
  split
  · exact Function.update_of_ne other _ _
  · rfl

section Fits

variable {allowed : Char → Bool} {types : OptionTypes} {s s' : OptionState}

theorem convert_fits {text : List Char} (full : text ≠ []) (all : ∀ c ∈ text, allowed c = true)
    (type : OptType) : (type.convert text).Fits allowed type := by
  cases type with
  | int => exact castInt_range _
  | unsigned =>
    show (castInt (strtoul text) % 2 ^ 32).toNat < 2 ^ 32
    omega
  | string => exact ⟨full, all⟩

theorem Typed.readOptionInter (typed : Typed allowed types s) {key val : List Char} (full : val ≠ [])
    (all : ∀ c ∈ val, allowed c = true) : Typed allowed types (readOptionInter types key val s).2 := by
  intro name type known
  by_cases same : name = key
  · subst same
    rw [readOptionInter_known s val known]
    exact convert_fits full all type
  · rw [readOptionInter_of_ne types s val same]
    exact typed name type known

/-- The value of an entry is not empty, and is a part of the line. -/
theorem splitKeyVal_ok {line : List Char} {entry : List Char × List Char}
    (split : splitKeyVal line = .ok entry) : entry.2 ≠ [] ∧ ∀ c ∈ entry.2, c ∈ line := by
  unfold splitKeyVal at split
  split at split
  case h_1 => cases split
  case h_2 val isRest =>
    split_ifs at split with noKey noVal
    obtain rfl := Except.ok.inj split
    refine ⟨noVal, fun c inside => ?_⟩
    have inRest : c ∈ line.dropWhile (· != '=') := isRest ▸ List.mem_cons_of_mem _ inside
    exact (List.dropWhile_sublist _).subset inRest

theorem nextLine_plain {f : IfStream} : ∀ c ∈ (nextLine f).1, plain c = true := by
  induction f using nextLine.induct with
  | case1 f more line blank ih =>
    rw [nextLine, dif_pos more, if_pos blank]
    exact ih
  | case2 f more line full =>
    rw [nextLine, dif_pos more, if_neg full]
    intro c inside
    obtain ⟨inLine, notSpace⟩ := mem_stripSpaces.mp inside
    have notHash := List.mem_takeWhile_imp inLine
    exact plain_iff.mpr ⟨notSpace, by simpa using notHash⟩
  | case3 f ended =>
    rw [nextLine, dif_neg ended]
    simp

/-- What is read from a file has neither white space nor a `#`. -/
theorem parseNextOption_plain {f f' : IfStream} {entry : List Char × List Char}
    (parsed : parseNextOption f = .ok (some entry, f')) :
    entry.2 ≠ [] ∧ ∀ c ∈ entry.2, plain c = true := by
  unfold parseNextOption at parsed
  split_ifs at parsed
  · cases parsed
  · obtain ⟨result, split, same⟩ := map_eq_ok parsed
    cases same
    obtain ⟨full, inLine⟩ := splitKeyVal_ok split
    exact ⟨full, fun c inside => nextLine_plain c (inLine c inside)⟩

/-- What is read from the environment has no white space. -/
theorem parseNextEnvOption_bare {env rest : List Char} {entry : List Char × List Char}
    (parsed : parseNextEnvOption env = .ok (some entry, rest)) :
    (entry.2 ≠ [] ∧ ∀ c ∈ entry.2, c ∈ env ∧ isSpace c = false) ∧ ∀ c ∈ rest, c ∈ env := by
  unfold parseNextEnvOption at parsed
  dsimp only at parsed
  split_ifs at parsed
  · cases parsed
  · obtain ⟨result, split, same⟩ := map_eq_ok parsed
    cases same
    obtain ⟨full, inLine⟩ := splitKeyVal_ok split
    refine ⟨⟨full, fun c inside => ?_⟩, fun c inside => ?_⟩
    · obtain ⟨here, notSpace⟩ := mem_stripSpaces.mp (inLine c inside)
      exact ⟨(List.takeWhile_sublist _).subset here, notSpace⟩
    · exact (List.dropWhile_sublist _).subset (List.mem_of_mem_tail inside)

theorem Typed.readEntries (typed : Typed allowed types s) {f : IfStream}
    (allows : ∀ c, plain c = true → allowed c = true) (read : readEntries types f s = .ok s') :
    Typed allowed types s' := by
  induction f, s using MinSmt.readEntries.induct types with
  | case1 f s text parsed =>
    rw [MinSmt.readEntries, parsed] at read
    cases read
  | case2 f s f' parsed =>
    rw [MinSmt.readEntries, parsed] at read
    cases read
    exact typed
  | case3 f s entry f' parsed ih =>
    rw [MinSmt.readEntries, parsed] at read
    obtain ⟨full, all⟩ := parseNextOption_plain parsed
    exact ih (typed.readOptionInter full fun c inside => allows c (all c inside)) read

theorem Typed.readEnvEntries (typed : Typed allowed types s) {env : List Char}
    (allows : ∀ c ∈ env, isSpace c = false → allowed c = true) (read : readEnvEntries types env s = .ok s') :
    Typed allowed types s' := by
  induction env, s using MinSmt.readEnvEntries.induct types with
  | case1 env s text parsed =>
    rw [MinSmt.readEnvEntries, parsed] at read
    cases read
  | case2 env s rest parsed =>
    rw [MinSmt.readEnvEntries, parsed] at read
    cases read
    exact typed
  | case3 env s entry rest parsed ih =>
    rw [MinSmt.readEnvEntries, parsed] at read
    obtain ⟨⟨full, all⟩, shorter⟩ := parseNextEnvOption_bare parsed
    refine ih (typed.readOptionInter full fun c inside => ?_) (fun c inside => allows c (shorter c inside)) read
    exact allows c (all c inside).1 (all c inside).2

/-- **What the readers keep**: every option has a value of its type. -/
theorem Typed.step (typed : Typed allowed types s) {reading : OptionReading}
    (allows : reading.Allows allowed) (read : reading.step types s = some s') : Typed allowed types s' := by
  cases reading with
  | file content =>
    obtain ⟨⟨_, next⟩, isOk, rfl⟩ := Option.map_eq_some_iff.mp read
    have isOk := ok_of_toOption isOk
    cases content with
    | none =>
      cases isOk
      exact typed
    | some content =>
      obtain ⟨_, done, same⟩ := map_eq_ok isOk
      cases same
      exact typed.readEntries allows done
  | env text =>
    obtain ⟨⟨_, next⟩, isOk, rfl⟩ := Option.map_eq_some_iff.mp read
    have isOk := ok_of_toOption isOk
    cases text with
    | none =>
      cases isOk
      exact typed
    | some text =>
      obtain ⟨_, done, same⟩ := map_eq_ok isOk
      cases same
      exact typed.readEnvEntries allows done

end Fits

/-- The type of an option goes with its default. -/
theorem lookup_types (entries : List OptionDefault) (name : List Char) :
    (entries.map fun d => (d.name, optType d.text)).lookup name =
      (entries.find? fun d => d.name == name).map fun d => optType d.text := by
  induction entries with
  | nil => rfl
  | cons d entries ih =>
    by_cases same : d.name = name
    · simp [same]
    · have other : (name == d.name) = false := beq_false_of_ne (Ne.symm same)
      simp [List.lookup_cons, other, same, ih]

theorem OptionTable.typed_defaults {allowed : Char → Bool} (table : OptionTable)
    (allows : ∀ c, plain c = true → allowed c = true) : Typed allowed table.types table.defaults := by
  intro name type known
  rw [types, lookup_types] at known
  obtain ⟨d, found, rfl⟩ := Option.map_eq_some_iff.mp known
  obtain ⟨full, all⟩ := table.valued d (List.mem_of_find?_eq_some found)
  rw [defaults, found]
  exact convert_fits full (fun c inside => allows c (all c inside)) _

/-- **The values after any run of the readers.** -/
theorem OptionTable.typed_run {allowed : Char → Bool} (table : OptionTable)
    (allows : ∀ c, plain c = true → allowed c = true) {readings : List OptionReading} {s : OptionState}
    (each : ∀ reading ∈ readings, reading.Allows allowed)
    (ran : exec (OptionReading.step table.types) table.defaults readings = some s) :
    Typed allowed table.types s :=
  exec_invariant (Typed allowed table.types) (fun _ _ _ typed allows read => typed.step allows read)
    (table.typed_defaults allows) (along_of_labels each _) ran

/-! ### Numbers that are printed -/

theorem numeral_toDigits (n : Nat) : IsNumeral (Nat.toDigits 10 n) :=
  ⟨Nat.toDigits_ne_nil, fun _ inside => Nat.isDigit_of_mem_toDigits (by decide) (by decide) inside⟩

theorem digitValue_of_isDigit {c : Char} (digit : c.isDigit = true) :
    digitValue c = c.toNat - '0'.toNat ∧ digitValue c < 10 := by
  have range := digit_toNat digit
  have isValue : digitValue c = c.toNat - '0'.toNat := if_pos digit
  have zero : '0'.toNat = 48 := rfl
  rw [isValue]
  omega

/-- A numeral starts with a zero only when it is zero. -/
theorem head_toDigits {n : Nat} (positive : 0 < n) : (Nat.toDigits 10 n).head? ≠ some '0' := by
  induction n using Nat.strong_induction_on with
  | h n ih =>
    rw [Nat.toDigits_eq_if (by decide)]
    by_cases small : n < 10
    · have digits : ∀ d < 10, 0 < d → Nat.digitChar d ≠ '0' := by decide
      rw [if_pos small]
      simpa using digits n small positive
    · rw [if_neg small, List.head?_append_of_ne_nil _ Nat.toDigits_ne_nil]
      exact ih (n / 10) (Nat.div_lt_self positive (by decide)) (Nat.div_pos (by omega) (by decide))

/-- No printed number is taken for one of another base. -/
theorem basedDigits_toDigits (n : Nat) : basedDigits (Nat.toDigits 10 n) = (10, Nat.toDigits 10 n) := by
  unfold basedDigits
  split
  case h_1 x rest same =>
    rcases Nat.eq_zero_or_pos n with rfl | positive
    · cases same
    · exact absurd (by rw [same]; rfl) (head_toDigits positive)
  case h_2 => rfl

/-- **`strtoul` reads a printed number as itself**, modulo `2 ^ 64` when it is negative. -/
theorem strtoul_toDigits (negative : Bool) {n : Nat} (small : n < 2 ^ 64) :
    strtoul ((if negative then ['-'] else []) ++ Nat.toDigits 10 n) =
      if negative then (2 ^ 64 - n) % 2 ^ 64 else n := by
  have numeral := numeral_toDigits n
  have all : (Nat.toDigits 10 n).takeWhile (fun c => digitValue c < 10) = Nat.toDigits 10 n :=
    List.takeWhile_eq_self_iff.mpr fun c inside => decide_eq_true (digitValue_of_isDigit (numeral.2 c inside)).2
  have value : (Nat.toDigits 10 n).foldl (fun n c => 10 * n + digitValue c) 0 = n := by
    calc (Nat.toDigits 10 n).foldl (fun n c => 10 * n + digitValue c) 0
        = Nat.ofDigitChars 10 (Nat.toDigits 10 n) 0 := List.foldl_ext _ _ _ fun m c inside => by
          rw [(digitValue_of_isDigit (numeral.2 c inside)).1]
      _ = n := Nat.ofDigitChars_ten_toDigits
  have read : strtoul ((if negative then ['-'] else []) ++ Nat.toDigits 10 n) =
      if 2 ^ 64 ≤ n then 2 ^ 64 - 1 else if negative then (2 ^ 64 - n) % 2 ^ 64 else n := by
    have signs : splitSign (skipSpaces ((if negative then ['-'] else []) ++ Nat.toDigits 10 n)) =
        (negative, Nat.toDigits 10 n) := by
      cases negative with
      | true => rfl
      | false =>
        have skipped := skip_numeral numeral []
        rw [List.append_nil] at skipped
        show splitSign (skipSpaces (Nat.toDigits 10 n)) = _
        rw [skipped.1, skipped.2]
    unfold strtoul
    rw [signs]
    dsimp only
    rw [basedDigits_toDigits]
    dsimp only
    rw [all, value]
  rw [read, if_neg (Nat.not_le.mpr small)]

/-! ### What a printed value gives its option -/

/-- A line up to its comment. -/
def cut (line : List Char) : List Char := line.takeWhile (· != '#')

theorem cut_eq_self_iff {line : List Char} : cut line = line ↔ '#' ∉ line := by
  rw [cut, List.takeWhile_eq_self_iff]
  constructor
  · intro all inside
    simpa using all '#' inside
  · intro absent c inside
    simpa using fun same : c = '#' => absurd (same ▸ inside) absent

/-- The characters of a printed number. -/
theorem isNumeral_chars {negative : Bool} {n : Nat} :
    ∀ c ∈ (if negative then ['-'] else []) ++ Nat.toDigits 10 n, isSpace c = false ∧ c ≠ '#' := by
  intro c inside
  rcases List.mem_append.mp inside with sign | digit
  · cases negative with
    | true =>
      obtain rfl := List.mem_singleton.mp sign
      decide
    | false => cases sign
  · have isDigit := (numeral_toDigits n).2 c digit
    refine ⟨not_isSpace_of_isDigit isDigit, fun same => ?_⟩
    rw [same] at isDigit
    cases isDigit

/-- A number is printed as a sign and digits. -/
theorem print_number {v : OptionValue} (number : ∀ text, v ≠ .string text) :
    ∃ (negative : Bool) (n : Nat), v.print = (if negative then ['-'] else []) ++ Nat.toDigits 10 n := by
  cases v with
  | int n => exact ⟨decide (n < 0), n.natAbs, by simp [OptionValue.print]⟩
  | unsigned n => exact ⟨false, n, rfl⟩
  | string text => exact absurd rfl (number text)

theorem cut_print_number {v : OptionValue} (number : ∀ text, v ≠ .string text) : cut v.print = v.print := by
  obtain ⟨negative, n, isPrint⟩ := print_number number
  rw [cut_eq_self_iff, isPrint]
  exact fun inside => (isNumeral_chars '#' inside).2 rfl

theorem print_number_ne_nil {v : OptionValue} (number : ∀ text, v ≠ .string text) : v.print ≠ [] := by
  obtain ⟨negative, n, isPrint⟩ := print_number number
  rw [isPrint]
  exact List.append_ne_nil_of_right_ne_nil _ Nat.toDigits_ne_nil

/-- `(int)strtoul` of a printed `int`. -/
theorem castInt_print {n : Int} (range : -2 ^ 31 ≤ n ∧ n < 2 ^ 31) :
    castInt (strtoul (OptionValue.int n).print) = n := by
  have shape : (OptionValue.int n).print = (if decide (n < 0) then ['-'] else []) ++ Nat.toDigits 10 n.natAbs := by
    simp [OptionValue.print]
  rw [shape, strtoul_toDigits _ (by omega)]
  unfold castInt
  by_cases negative : n < 0
  · rw [if_pos (decide_eq_true negative)]
    omega
  · rw [if_neg (by simpa using negative)]
    omega

/-- What is printed has no white space. -/
theorem print_bare {type : OptType} {v : OptionValue} (fits : v.Fits (fun c => !isSpace c) type) :
    ∀ c ∈ v.print, isSpace c = false := by
  by_cases number : ∀ text, v ≠ .string text
  · obtain ⟨negative, n, isPrint⟩ := print_number number
    rw [isPrint]
    exact fun c inside => (isNumeral_chars c inside).1
  · obtain ⟨text, isText⟩ := not_forall.mp number
    obtain rfl := not_not.mp isText
    cases type with
    | string => exact fun c inside => by simpa using fits.2 c inside
    | int => cases fits
    | unsigned => cases fits

/-- `(int)strtoul` of a printed `unsigned`, as an `unsigned`. -/
theorem castInt_print_unsigned {n : Nat} (small : n < 2 ^ 32) :
    (castInt (strtoul (OptionValue.unsigned n).print) % 2 ^ 32).toNat = n := by
  have isNumber : strtoul (OptionValue.unsigned n).print = n := strtoul_toDigits false (by omega)
  rw [isNumber]
  unfold castInt
  omega

/-- A printed number gives its option the same value. -/
theorem convert_print_number {type : OptType} {v : OptionValue} (fits : v.Fits (fun c => !isSpace c) type)
    (number : ∀ text, v ≠ .string text) : type.convert v.print = v := by
  cases v with
  | int n =>
    cases type with
    | int => exact congrArg OptionValue.int (castInt_print fits)
    | unsigned => cases fits
    | string => cases fits
  | unsigned n =>
    cases type with
    | int => cases fits
    | unsigned => exact congrArg OptionValue.unsigned (castInt_print_unsigned fits)
    | string => cases fits
  | string text => exact absurd rfl (number text)

/-- **A printed value gives its option the same value**, unless it is a string with a `#`. -/
theorem restores_iff {type : OptType} {v : OptionValue} (fits : v.Fits (fun c => !isSpace c) type) :
    (cut v.print ≠ [] ∧ type.convert (cut v.print) = v) ↔ ∀ text, v = .string text → '#' ∉ text := by
  by_cases number : ∀ text, v ≠ .string text
  · rw [cut_print_number number]
    refine iff_of_true ⟨print_number_ne_nil number, convert_print_number fits number⟩ ?_
    exact fun text isText => absurd isText (number text)
  · obtain ⟨text, isText⟩ := not_forall.mp number
    obtain rfl := not_not.mp isText
    cases type with
    | int => cases fits
    | unsigned => cases fits
    | string =>
      constructor
      · rintro ⟨-, same⟩ text' isText'
        cases isText'
        exact cut_eq_self_iff.mp (OptionValue.string.inj same)
      · intro absent
        have same : cut text = text := cut_eq_self_iff.mpr (absent text rfl)
        exact ⟨fun isNil => fits.1 (same ▸ isNil), congrArg OptionValue.string same⟩

/-! ### Reading a dump -/

/-- What the lines for some options set. -/
def readBack (types : OptionTypes) (s : OptionState) (options : OptionTypes) (u : OptionState) : OptionState :=
  options.foldl (fun u option => (readOptionInter types option.1 (cut (s option.1).print) u).2) u

section Reading

variable (types : OptionTypes) {s u : OptionState} {name rest : List Char}
  (full : name ≠ []) (named : ∀ c ∈ name, plain c = true ∧ c ≠ '=')
  (bare : ∀ c ∈ (s name).print, isSpace c = false)

include named bare

/-- A line of a dump without its comment and its spaces. -/
theorem nextLine_printOption : nextLine { rest := printOption s name ++ '\n' :: rest } =
    (name ++ '=' :: cut (s name).print, { rest := rest }) := by
  have noNewline : '\n' ∉ printOption s name := fun inside => by
    rcases List.mem_append.mp inside with inside | inside
    · rcases List.mem_append.mp inside with inside | inside
      · exact absurd (named '\n' inside).1 (by decide)
      · exact absurd inside (by decide)
    · exact absurd (bare '\n' inside) (by decide)
  have isLine : getline { rest := printOption s name ++ '\n' :: rest } =
      (printOption s name, { rest := rest }) := by
    obtain ⟨isFirst, isRest⟩ := takeWhile_sep noNewline rest
    unfold getline
    rw [isFirst, isRest]
  have kept : ∀ c ∈ name ++ " = ".toList, (c != '#') = true := fun c inside => by
    rcases List.mem_append.mp inside with inside | inside
    · simpa using (plain_iff.mp (named c inside).1).2
    · have between : (" = ".toList.all (· != '#')) = true := by decide
      exact List.all_eq_true.mp between c inside
  have isCut : (printOption s name).takeWhile (· != '#') = name ++ " = ".toList ++ cut (s name).print :=
    List.takeWhile_append_of_pos kept
  have stripped : stripSpaces (name ++ " = ".toList ++ cut (s name).print) =
      name ++ '=' :: cut (s name).print := by
    have ofName : stripSpaces name = name :=
      List.filter_eq_self.mpr fun c inside => by simpa using (plain_iff.mp (named c inside).1).1
    have ofValue : stripSpaces (cut (s name).print) = cut (s name).print :=
      List.filter_eq_self.mpr fun c inside => by
        simpa using bare c ((List.takeWhile_sublist _).subset inside)
    have between : stripSpaces " = ".toList = ['='] := by decide
    unfold stripSpaces at *
    rw [List.filter_append, List.filter_append, ofName, ofValue, between]
    simp
  rw [nextLine, dif_pos rfl, isLine]
  dsimp only
  rw [isCut, stripped, if_neg (by simp)]

include full

/-- A line of a dump gives its option the printed value up to a `#`; nothing may be left of it. -/
theorem readEntries_printOption : readEntries types { rest := printOption s name ++ '\n' :: rest } u =
    if cut (s name).print = [] then .error "empty value"
    else readEntries types { rest := rest } (readOptionInter types name (cut (s name).print) u).2 := by
  have noSep : '=' ∉ name := fun inside => (named '=' inside).2 rfl
  obtain ⟨isKey, isValue⟩ := takeWhile_sep noSep (cut (s name).print)
  have parsed : parseNextOption { rest := printOption s name ++ '\n' :: rest } =
      if cut (s name).print = [] then .error "empty value"
      else .ok (some (name, cut (s name).print), { rest := rest }) := by
    unfold parseNextOption splitKeyVal
    rw [nextLine_printOption named bare, if_neg (by simp)]
    dsimp only
    rw [isKey, isValue]
    dsimp only
    rw [if_neg full]
    split <;> rfl
  rw [readEntries, parsed]
  by_cases nothing : cut (s name).print = []
  · rw [if_pos nothing, if_pos nothing]
  · rw [if_neg nothing, if_neg nothing]

end Reading

section Dump

variable {types options : OptionTypes} {s u : OptionState}

/-- The end of a dump sets nothing. -/
theorem readEntries_footer : readEntries types { rest := "\n#DO NOT DELETE\n".toList } u = .ok u := by
  have passes : ∀ f : IfStream, f.eof = false → stripSpaces ((getline f).1.takeWhile (· != '#')) = [] →
      nextLine f = nextLine (getline f).2 := fun f more blank => by
    rw [nextLine, dif_pos more]
    exact if_pos blank
  have nothing : nextLine { rest := "\n#DO NOT DELETE\n".toList } = ([], { rest := [], eof := true }) := by
    rw [passes _ rfl (by decide), passes _ rfl (by decide), passes _ rfl (by decide), nextLine]
    exact dif_neg (by decide)
  have ended : parseNextOption { rest := "\n#DO NOT DELETE\n".toList } =
      .ok (none, { rest := [], eof := true }) := by
    rw [parseNextOption, nothing]
    rfl
  rw [readEntries, ended]

/-- **What the reader makes of a dump.** Each line sets its option, and a value with nothing before its
`#` fails an assertion. -/
theorem readEntries_dump (named : ∀ option ∈ options, option.1 ≠ [] ∧ ∀ c ∈ option.1, plain c = true ∧ c ≠ '=')
    (bare : ∀ option ∈ options, ∀ c ∈ (s option.1).print, isSpace c = false) :
    readEntries types { rest := printOptionsToStream options s ++ "\n#DO NOT DELETE\n".toList } u =
      if ∀ option ∈ options, cut (s option.1).print ≠ [] then .ok (readBack types s options u)
      else .error "empty value" := by
  induction options generalizing u with
  | nil => exact readEntries_footer.trans (if_pos (by simp)).symm
  | cons option options ih =>
    obtain ⟨⟨full, chars⟩, named⟩ := List.forall_mem_cons.mp named
    obtain ⟨here, bare⟩ := List.forall_mem_cons.mp bare
    have line : printOptionsToStream (option :: options) s ++ "\n#DO NOT DELETE\n".toList =
        printOption s option.1 ++ '\n' :: (printOptionsToStream options s ++ "\n#DO NOT DELETE\n".toList) := by
      simp only [printOptionsToStream, List.flatMap_cons, List.append_assoc, List.cons_append,
        List.nil_append]
    rw [line, readEntries_printOption types full chars here]
    by_cases nothing : cut (s option.1).print = []
    · rw [if_pos nothing, if_neg fun all => all option List.mem_cons_self nothing]
    · rw [if_neg nothing, ih named bare]
      simp only [List.forall_mem_cons, ne_eq, nothing, not_false_iff, true_and]
      rfl

theorem readBack_of_notMem {name : List Char} (outside : name ∉ options.map Prod.fst) :
    readBack types s options u name = u name := by
  induction options generalizing u with
  | nil => rfl
  | cons option options ih =>
    obtain ⟨other, outside⟩ := not_or.mp (mt List.mem_cons.mpr outside)
    exact (ih outside).trans (readOptionInter_of_ne types u _ other)

/-- Each line sets its own option. -/
theorem readBack_of_mem (known : ∀ option ∈ options, types.lookup option.1 = some option.2)
    (distinct : (options.map Prod.fst).Nodup) {option : List Char × OptType} (inside : option ∈ options) :
    readBack types s options u option.1 = option.2.convert (cut (s option.1).print) := by
  induction options generalizing u with
  | nil => cases inside
  | cons first options ih =>
    obtain ⟨isKnown, known⟩ := List.forall_mem_cons.mp known
    obtain ⟨fresh, distinct⟩ := List.nodup_cons.mp distinct
    rcases List.mem_cons.mp inside with rfl | inside
    · exact (readBack_of_notMem fresh).trans (readOptionInter_known u _ isKnown)
    · exact ih known distinct inside

end Dump

namespace OptionTable

variable (table : OptionTable)

theorem distinct_types : (table.types.map Prod.fst).Nodup := by
  have same : table.types.map Prod.fst = table.entries.map OptionDefault.name := by simp [types]
  exact same ▸ table.distinct

theorem lookup_of_mem {option : List Char × OptType} (inside : option ∈ table.types) :
    table.types.lookup option.1 = some option.2 := by
  obtain ⟨ahead, behind, split⟩ := List.append_of_mem inside
  have distinct := table.distinct_types
  rw [split, List.map_append, List.map_cons] at distinct
  refine List.lookup_eq_some_iff.mpr ⟨ahead, behind, split, fun other early => ?_⟩
  have apart := (List.nodup_append.mp distinct).2.2 other.1 (List.mem_map_of_mem early) option.1 (by simp)
  simpa using apart.symm

theorem named_types : ∀ option ∈ table.types, option.1 ≠ [] ∧ ∀ c ∈ option.1, plain c = true ∧ c ≠ '=' := by
  intro option inside
  obtain ⟨d, isEntry, rfl⟩ := List.mem_map.mp inside
  exact table.named d isEntry

/-- The dump is read back when each printed value gives its option the same value. -/
theorem readsBack_iff_restores {s start : OptionState}
    (bare : ∀ option ∈ table.types, ∀ c ∈ (s option.1).print, isSpace c = false) :
    table.ReadsBack s start ↔ ∀ option ∈ table.types,
      cut (s option.1).print ≠ [] ∧ option.2.convert (cut (s option.1).print) = s option.1 := by
  have dumped := @readEntries_dump table.types table.types s start table.named_types bare
  have set := fun option inside =>
    @readBack_of_mem table.types table.types s start (fun _ => table.lookup_of_mem) table.distinct_types option
      inside
  unfold ReadsBack printOptions readOptions
  dsimp only
  rw [dumped]
  split
  case isTrue full =>
    constructor
    · rintro ⟨s', isOk, same⟩ option inside
      cases isOk
      exact ⟨full option inside, (set option inside).symm.trans (same option inside)⟩
    · intro restores
      exact ⟨_, rfl, fun option inside => (set option inside).trans (restores option inside).2⟩
  case isFalse notFull =>
    refine iff_of_false ?_ fun restores => notFull fun option inside => (restores option inside).1
    rintro ⟨s', isOk, -⟩
    cases isOk

/-- **When a dump is read back**: no string has a `#`. -/
theorem readsBack_iff {s : OptionState} (typed : Typed (fun c => !isSpace c) table.types s) (start : OptionState) :
    table.ReadsBack s start ↔ ∀ option ∈ table.types, ∀ text, s option.1 = .string text → '#' ∉ text := by
  have fits : ∀ option ∈ table.types, (s option.1).Fits (fun c => !isSpace c) option.2 := fun option inside =>
    typed option.1 option.2 (table.lookup_of_mem inside)
  rw [table.readsBack_iff_restores fun option inside => print_bare (fits option inside)]
  constructor
  · intro restores option inside
    exact (restores_iff (fits option inside)).mp (restores option inside)
  · intro absent option inside
    exact (restores_iff (fits option inside)).mpr (absent option inside)

/-- No reader sets a string with white space. -/
theorem bare_run {readings : List OptionReading} {s : OptionState}
    (ran : exec (OptionReading.step table.types) table.defaults readings = some s) :
    Typed (fun c => !isSpace c) table.types s := by
  have allows : ∀ c, plain c = true → (!isSpace c) = true := fun c isPlain => by simp [(plain_iff.mp isPlain).1]
  refine table.typed_run allows (fun reading _ => ?_) ran
  cases reading with
  | file content => exact allows
  | env text => exact fun c _ notSpace => by simp [notSpace]

/-- **Files bring no `#`**: there is none when the environment has none. -/
theorem clean_run {readings : List OptionReading} {s : OptionState}
    (clean : ∀ text, .env (some text) ∈ readings → '#' ∉ text)
    (ran : exec (OptionReading.step table.types) table.defaults readings = some s) :
    ∀ option ∈ table.types, ∀ text, s option.1 = .string text → '#' ∉ text := by
  have typed : Typed (fun c => c != '#') table.types s := by
    refine table.typed_run (fun c isPlain => by simpa using (plain_iff.mp isPlain).2)
      (fun reading inside => ?_) ran
    cases reading with
    | file content => exact fun c isPlain => by simpa using (plain_iff.mp isPlain).2
    | env text =>
      cases text with
      | none => exact fun c absent => absurd absent List.not_mem_nil
      | some text => exact fun c here _ => by simpa using fun same : c = '#' => clean text inside (same ▸ here)
  intro option inside text isText hash
  have fits := typed option.1 option.2 (table.lookup_of_mem inside)
  rw [isText] at fits
  cases isType : option.2 with
  | string =>
    rw [isType] at fits
    simpa using fits.2 '#' hash
  | int =>
    rw [isType] at fits
    cases fits
  | unsigned =>
    rw [isType] at fits
    cases fits

/-- The dump of a run whose environment has no `#` is read back. -/
theorem readsBack_of_clean {readings : List OptionReading} {s : OptionState}
    (clean : ∀ text, .env (some text) ∈ readings → '#' ∉ text)
    (ran : exec (OptionReading.step table.types) table.defaults readings = some s) (start : OptionState) :
    table.ReadsBack s start :=
  (table.readsBack_iff (table.bare_run ran) start).mpr (table.clean_run clean ran)

end OptionTable

/-! ### What is read back -/

/-- **A dump is read back exactly when no string has a `#`.** The options have been set by any calls of
the readers, and the dump is read over any options. -/
theorem dump_reads_back_iff (table : OptionTable) {readings : List OptionReading} {s : OptionState}
    (ran : exec (OptionReading.step table.types) table.defaults readings = some s) (start : OptionState) :
    table.ReadsBack s start ↔ ∀ option ∈ table.types, ∀ text, s option.1 = .string text → '#' ∉ text :=
  table.readsBack_iff (table.bare_run ran) start

/-- An environment that sets the directory of the logs. -/
theorem environment_sets {val : List Char} {entry : List Char} (parsed : parseNextEnvOption entry =
      .ok (some ("output_dir".toList, val), [])) :
    ∃ s, exec (OptionReading.step defaultOptions.types) defaultOptions.defaults [.env (some entry)] = some s ∧
      s "output_dir".toList = .string val := by
  have ended : parseNextEnvOption [] = .ok (none, []) := rfl
  have read : readEnvOptions defaultOptions.types (some entry) defaultOptions.defaults =
      .ok (true, (readOptionInter defaultOptions.types "output_dir".toList val defaultOptions.defaults).2) := by
    rw [readEnvOptions, readEnvEntries, parsed]
    dsimp only
    rw [readEnvEntries, ended]
    rfl
  have known : defaultOptions.types.lookup "output_dir".toList = some .string := by decide +kernel
  refine ⟨_, by rw [exec, OptionReading.step, read]; rfl, ?_⟩
  exact readOptionInter_known _ _ known

theorem dump_reads_back_iff_equalsSign : ∃ s, exec (OptionReading.step defaultOptions.types)
    defaultOptions.defaults [.env (some "output_dir=a=b".toList)] = some s ∧
      s "output_dir".toList = .string "a=b".toList ∧ defaultOptions.ReadsBack s fun _ => .int 7 := by
  have parsed : parseNextEnvOption "output_dir=a=b".toList =
      .ok (some ("output_dir".toList, "a=b".toList), []) := by
    decide
  obtain ⟨s, ran, isText⟩ := environment_sets parsed
  refine ⟨s, ran, isText, (dump_reads_back_iff defaultOptions ran _).mpr (defaultOptions.clean_run ?_ ran)⟩
  intro text inside
  have isEntry : text = "output_dir=a=b".toList := by simpa using inside
  rw [isEntry]
  decide

/-- **A `#` from the environment is lost**: what is behind it is a comment in the dump. -/
theorem hash_is_not_read_back : ∃ s, exec (OptionReading.step defaultOptions.types) defaultOptions.defaults
    [.env (some "output_dir=a#b".toList)] = some s ∧ ¬ defaultOptions.ReadsBack s defaultOptions.defaults := by
  have parsed : parseNextEnvOption "output_dir=a#b".toList =
      .ok (some ("output_dir".toList, "a#b".toList), []) := by
    decide
  obtain ⟨s, ran, isText⟩ := environment_sets parsed
  refine ⟨s, ran, fun same => ?_⟩
  have absent := (defaultOptions.readsBack_iff (defaultOptions.bare_run ran) _).mp same
    ("output_dir".toList, .string) (by decide +kernel) _ isText
  exact absent (by decide)

end MinSmt
