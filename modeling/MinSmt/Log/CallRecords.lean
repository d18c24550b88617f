/-
**The records of a call** (`BinLogger::logCall` in `lib/runtime/record-log.cpp`,
`include/tern/logdefs.h`).

A call is logged as one `CallRec` with its first arguments and as many `ExtraArgsRec`s as the others
need. The reader has the same division of the arguments in `numArgsInRec`, from the `narg` and `seq` of
each record, and tells the number of records of the call from any of them (`numRecForInst`). `short`
values are written as integers with an explicit wrap; `MAX_INLINE_ARGS` and `MAX_EXTRA_ARGS` are
unsigned, so that what is computed with them wraps at `2^32`; `seq` is a byte in the record and a
`short` in the writer.

The log region is zero-filled, so a record starts out as `{}`; the writer never sets the `flags` of an
`ExtraArgsRec`. A record's 24 bytes after the common prefix are three words: an `ExtraArgsRec` has three
arguments there, a `CallRec` its function id and two arguments.

* `copyArgs_eq`, `extraLoop_spec` — what the two loops of the writer leave in the records.
* **`call_records_iff`** — what was logged reads back as it should exactly when there are at most 767
  arguments, and the call returns or has no extra record.
* `no_return_with_extra_args` — otherwise the counts of the records differ.
-/

import Mathlib.Data.List.GetD
import Mathlib.Tactic.Common

namespace MinSmt

/-! ### Integers -/

/-- Conversion to `short`. -/
def toShort (x : Int) : Int := (x + 32768) % 65536 - 32768

/-- Conversion to `unsigned`. -/
def toUnsigned (x : Int) : Int := x % 4294967296

/-- `MAX_INLINE_ARGS`. -/
def maxInlineArgs : Int := 2

/-- `MAX_EXTRA_ARGS`. -/
def maxExtraArgs : Int := 3

/-- `CallIndirect`. -/
def callIndirect : UInt8 := 1

/-- `CallNoReturn`. -/
def callNoReturn : UInt8 := 2

/-- `NumExtraArgsRecords`. -/
def numExtraArgsRecords (narg : Int) : Int :=
  toUnsigned (narg - maxInlineArgs + maxExtraArgs - 1) / maxExtraArgs

theorem toShort_of_range {x : Int} (low : -32768 ≤ x) (high : x < 32768) : toShort x = x := by
  unfold toShort
  omega

theorem toUnsigned_of_range {x : Int} (low : 0 ≤ x) (high : x < 4294967296) : toUnsigned x = x :=
  Int.emod_eq_of_lt low high

/-- The offsets cancel out: there is an extra record for every three arguments. -/
theorem numExtraArgsRecords_eq {narg : Int} (low : 0 ≤ narg) (high : narg < 32768) :
    numExtraArgsRecords narg = narg / 3 := by
  have offsets : narg - maxInlineArgs + maxExtraArgs - 1 = narg := by
    simp only [maxInlineArgs, maxExtraArgs]
    omega
  rw [numExtraArgsRecords, offsets, toUnsigned_of_range low (by omega), maxExtraArgs]

/-! ### Records -/

/-- The record types that a call has, and the type `0` of an empty record. -/
inductive RecTy
  | insidRec
  | callRec
  | extraArgsRec
  | returnRec
  deriving DecidableEq, Repr

/-- `CallRec` and `ExtraArgsRec`. -/
structure Rec where
  insid : Nat := 0
  type : RecTy := .insidRec
  flags : UInt8 := 0
  seq : Nat := 0
  narg : Int := 0
  words : Nat → UInt64 := fun _ => 0

namespace Rec

/-- `InsidRec::setInsid`; its assertion is compiled out, and the field has 29 bits. -/
def setInsid (r : Rec) (id : Nat) : Rec :=
  { r with insid := if id = 4294967295 then 536870911 else id % 536870912 }

/-- `InsidRec::numRecForInst`. -/
def numRecForInst (r : Rec) : Int :=
  match r.type with
  | .insidRec => 1
  | _ => 1 + numExtraArgsRecords r.narg + if r.flags &&& callNoReturn = 0 then 1 else 0

/-- `CallRec::numArgsInRec`. -/
def callNumArgsInRec (r : Rec) : Int := min r.narg maxInlineArgs

/-- `ExtraArgsRec::numArgsInRec`. -/
def extraNumArgsInRec (r : Rec) : Int :=
  min (toShort (toUnsigned (r.narg - maxInlineArgs - ((r.seq : Int) - 1) * maxExtraArgs))) maxExtraArgs

/-- The arguments that a reader finds in a `CallRec`. -/
def callArgs (r : Rec) : List UInt64 :=
  (List.range r.callNumArgsInRec.toNat).map fun i => r.words (1 + i)

/-- The arguments that a reader finds in an `ExtraArgsRec`. -/
def extraArgs (r : Rec) : List UInt64 :=
  (List.range r.extraNumArgsInRec.toNat).map fun i => r.words (0 + i)

end Rec

/-! ### The writer -/

/-- The functions that the logger knows: `exit` and `pthread_exit`, and the ids in `funcs`. -/
structure LogFuncs where
  exit : Nat
  pthreadExit : Nat
  funcs : Nat → Nat

/-- The flags that `logCall` writes. -/
def LogFuncs.flagsOf (fns : LogFuncs) (flags : UInt8) (func : Nat) : UInt8 :=
  if flags &&& callIndirect ≠ 0 ∧ (func = fns.exit ∨ func = fns.pthreadExit) then flags ||| callNoReturn
  else flags

/-- `while(i<rec_narg)`: take arguments off the list into the words from `place` on. `none` is a
`va_arg` past the last argument. -/
def copyArgs (recNarg : Int) (place : Nat) (i : Int) (words : Nat → UInt64) :
    List UInt64 → Option ((Nat → UInt64) × Int × List UInt64)
  | [] => if i < recNarg then none else some (words, i, [])
  | arg :: args =>
    if i < recNarg then
      copyArgs recNarg (place + 1) (toShort (i + 1)) (Function.update words place arg) args
    else some (words, i, arg :: args)

/-- The loop over the extra records, with the number of rounds that are left at most. -/
def extraLoop (insid : Nat) (narg nextra : Int) : Nat → Int → Int → List UInt64 → Option (List Rec)
  | 0, _, _, _ => none
  | fuel + 1, seq, i, args =>
    if seq ≤ nextra then
      let extra : Rec := { Rec.setInsid {} insid with
        type := .extraArgsRec, seq := (seq % 256).toNat, narg := narg }
      let recNarg := min narg (toShort (toUnsigned (maxInlineArgs + maxExtraArgs * seq)))
      (copyArgs recNarg 0 i extra.words args).bind fun (words, i, args) =>
        (extraLoop insid narg nextra fuel (toShort (seq + 1)) i args).map fun recs =>
          { extra with words := words } :: recs
    else some []

/-- `BinLogger::logCall`; the result is the log with the new records behind the old ones. -/
def logCall (fns : LogFuncs) (log : List Rec) (flags : UInt8) (insid : Nat) (narg : Int) (func : Nat)
    (args : List UInt64) : Option (List Rec) :=
  let flags := fns.flagsOf flags func
  let nextra := toShort (numExtraArgsRecords narg)
  let call : Rec := { Rec.setInsid {} insid with
    type := .callRec, flags := flags, seq := 0, narg := narg
    words := Function.update (fun _ => 0) 0 (UInt64.ofNat (fns.funcs func)) }
  (copyArgs (min narg maxInlineArgs) 1 0 call.words args).bind fun (words, i, args) =>
    (extraLoop insid narg nextra (nextra.toNat + 1) 1 i args).map fun recs =>
      log ++ { call with words := words } :: recs

/-! ### The reader -/

/-- All arguments, as a reader puts them together. -/
def readArgs : List Rec → List UInt64
  | [] => []
  | call :: extras => call.callArgs ++ extras.flatMap Rec.extraArgs

/-- **The records read back as the call that was logged.** -/
structure ReadsBack (recs : List Rec) (args : List UInt64) (flags : UInt8) : Prop where
  types : recs.map Rec.type =
    .callRec :: List.replicate (numExtraArgsRecords args.length).toNat .extraArgsRec
  args : readArgs recs = args
  seqs : recs.map Rec.seq = List.range recs.length
  counts : ∀ r ∈ recs, r.numRecForInst = recs.length + if flags &&& callNoReturn = 0 then 1 else 0

/-! ### What the loops write -/

/-- The words after so many arguments have been copied. -/
def withArgs (words : Nat → UInt64) (place : Nat) (args : List UInt64) : Nat → UInt64 := fun w =>
  if place ≤ w ∧ w < place + args.length then args.getD (w - place) 0 else words w

@[simp] theorem withArgs_nil (words : Nat → UInt64) (place : Nat) : withArgs words place [] = words := by
  funext w
  refine if_neg fun inside => ?_
  simp only [List.length_nil] at inside
  omega

theorem withArgs_cons (words : Nat → UInt64) (place : Nat) (arg : UInt64) (args : List UInt64) :
    withArgs words place (arg :: args) = withArgs (Function.update words place arg) (place + 1) args := by
  funext w
  by_cases first : w = place
  · subst first
    have here : w ≤ w ∧ w < w + (arg :: args).length := ⟨Nat.le_refl w, by simp⟩
    have before : ¬(w + 1 ≤ w ∧ w < w + 1 + args.length) := by omega
    simp only [withArgs, if_pos here, if_neg before]
    simp
  · by_cases later : place + 1 ≤ w ∧ w < place + 1 + args.length
    · have inside : place ≤ w ∧ w < place + (arg :: args).length := by
        rw [List.length_cons]
        omega
      simp only [withArgs, if_pos later, if_pos inside]
      rw [show w - place = (w - (place + 1)) + 1 by omega, List.getD_cons_succ]
    · have outside : ¬(place ≤ w ∧ w < place + (arg :: args).length) := by
        rw [List.length_cons]
        omega
      simp only [withArgs, if_neg later, if_neg outside, Function.update_of_ne first]

theorem withArgs_read (words : Nat → UInt64) (place : Nat) (args : List UInt64) :
    (List.range args.length).map (fun i => withArgs words place args (place + i)) = args := by
  refine List.ext_getElem (by simp) fun i inRange _ => ?_
  have small : i < args.length := by simpa using inRange
  simp [withArgs, small]

/-- **The copying loop takes as many arguments as it should**, when there are enough. -/
theorem copyArgs_eq {recNarg i : Int} (low : 0 ≤ i) (high : i < 32768) (most : recNarg < 32768)
    (place : Nat) (words : Nat → UInt64) {args : List UInt64} (enough : recNarg ≤ i + args.length) :
    copyArgs recNarg place i words args = some (withArgs words place (args.take (recNarg - i).toNat),
      max i recNarg, args.drop (recNarg - i).toNat) := by
  induction args generalizing i place words with
  | nil =>
    have done : ¬ i < recNarg := by simpa using enough
    rw [copyArgs, if_neg done, show max i recNarg = i by omega]
    simp
  | cons arg args ih =>
    rw [copyArgs]
    by_cases more : i < recNarg
    · obtain ⟨n, isCount⟩ : ∃ n, (recNarg - i).toNat = n + 1 := ⟨(recNarg - i).toNat - 1, by omega⟩
      have rest : recNarg ≤ i + 1 + args.length := by
        rw [List.length_cons] at enough
        omega
      rw [if_pos more, toShort_of_range (by omega) (by omega),
        ih (by omega) (by omega) (place + 1) _ rest, isCount, List.take_succ_cons, List.drop_succ_cons,
        withArgs_cons, show (recNarg - (i + 1)).toNat = n by omega,
        show max (i + 1) recNarg = max i recNarg by omega]
    · rw [if_neg more, show max i recNarg = i by omega, show (recNarg - i).toNat = 0 by omega]
      simp

/-- What the reader makes of the place of an extra record, when its number fits the field. -/
theorem extraNumArgsInRec_eq {r : Rec} {k : Nat} (isSeq : r.seq = k) (first : 1 ≤ k)
    (within : 3 * (k : Int) ≤ r.narg) (high : r.narg < 32768) :
    r.extraNumArgsInRec = min (r.narg - 3 * k + 1) 3 := by
  have rest : r.narg - maxInlineArgs - ((r.seq : Int) - 1) * maxExtraArgs = r.narg - 3 * k + 1 := by
    rw [isSeq, maxInlineArgs, maxExtraArgs]
    omega
  rw [Rec.extraNumArgsInRec, rest, toUnsigned_of_range (by omega) (by omega),
    toShort_of_range (by omega) (by omega), maxExtraArgs]

/-- The bound of the copying loop in the extra record of this number: it wraps at the very last one. -/
theorem extraBound_eq {k : Nat} (small : k ≤ 10921) :
    toShort (toUnsigned (maxInlineArgs + maxExtraArgs * (k : Int))) = 3 * k + 2 := by
  rw [maxInlineArgs, maxExtraArgs, toUnsigned_of_range (by omega) (by omega),
    toShort_of_range (by omega) (by omega)]
  omega

theorem extraBound_le (k : Nat) : toShort (toUnsigned (maxInlineArgs + maxExtraArgs * (k : Int))) < 32768 := by
  unfold toShort
  omega

/-- **What the writer leaves in the extra records**, from the `k`-th on. -/
theorem extraLoop_spec {narg : Int} (low : 0 ≤ narg) (high : narg < 32768) (insid : Nat) {fuel k : Nat}
    {i : Int} {args : List UInt64} (first : 1 ≤ k) (within : (k : Int) ≤ narg / 3 + 1)
    (enough : narg / 3 + 1 < k + fuel)
    (state : k ≤ 10922 → i = min narg (3 * k - 1) ∧ (args.length : Int) = narg - i) :
    ∃ recs, extraLoop insid narg (narg / 3) fuel k i args = some recs ∧
      (recs.length : Int) = narg / 3 + 1 - k ∧
      recs.map Rec.seq = (List.range' k recs.length).map (· % 256) ∧
      (∀ r ∈ recs, r.type = .extraArgsRec ∧ r.narg = narg ∧ r.flags = 0) ∧
      (narg ≤ 767 → recs.flatMap Rec.extraArgs = args) := by
  induction fuel generalizing k i args with
  | zero => omega
  | succ fuel ih =>
    rw [extraLoop]
    by_cases more : (k : Int) ≤ narg / 3
    · obtain ⟨isI, isLength⟩ := state (by omega)
      have isI' : i = 3 * k - 1 := by omega
      generalize isBound : toShort (toUnsigned (maxInlineArgs + maxExtraArgs * (k : Int))) = bound
      have boundLt : bound < 32768 := isBound ▸ extraBound_le k
      have boundEq : k ≤ 10921 → bound = 3 * k + 2 := fun small => isBound ▸ extraBound_eq small
      rw [if_pos more]
      dsimp only
      rw [copyArgs_eq (by omega) (by omega) (by omega) 0 _ (by omega), Option.bind_some]
      have nextSeq : toShort ((k : Int) + 1) = ((k + 1 : Nat) : Int) := by
        rw [toShort_of_range (by omega) (by omega)]
        omega
      have state' : k + 1 ≤ 10922 → max i (min narg bound) = min narg (3 * ((k + 1 : Nat) : Int) - 1) ∧
          ((args.drop (min narg bound - i).toNat).length : Int) = narg - max i (min narg bound) := fun small => by
        have exact := boundEq (by omega)
        refine ⟨by omega, ?_⟩
        rw [List.length_drop]
        omega
      obtain ⟨recs, isRest, length, seqs, fields, reads⟩ := ih (by omega) (by omega) (by omega) state'
      rw [nextSeq, isRest, Option.map_some]
      refine ⟨_, rfl, ?_, ?_, ?_, fun few => ?_⟩
      · rw [List.length_cons]
        omega
      · rw [List.map_cons, List.length_cons, List.range'_succ, List.map_cons, seqs]
        congr 1
      · intro r inside
        rcases List.mem_cons.mp inside with rfl | later
        · exact ⟨rfl, rfl, rfl⟩
        · exact fields r later
      · rw [List.flatMap_cons, reads few]
        have exact := boundEq (by omega)
        have count : (args.take (min narg bound - i).toNat).length = (min (narg - 3 * k + 1) 3).toNat := by
          rw [List.length_take]
          omega
        rw [Rec.extraArgs, extraNumArgsInRec_eq (k := k) (by show ((k : Int) % 256).toNat = k; omega)
          first (by show 3 * (k : Int) ≤ narg; omega) high]
        show (List.range (min (narg - 3 * k + 1) 3).toNat).map
          (fun j => withArgs _ 0 (args.take (min narg bound - i).toNat) (0 + j)) ++ _ = args
        rw [← count, withArgs_read, List.take_append_drop]
    · rw [if_neg more]
      refine ⟨[], rfl, by simp; omega, rfl, by simp, fun few => ?_⟩
      obtain ⟨isI, isLength⟩ := state (by omega)
      have none : args.length = 0 := by omega
      rw [List.length_eq_zero_iff.mp none]
      rfl

/-! ### Calls -/

/-- **What `logCall` leaves in the log**: a `CallRec` and, for every three arguments, an extra record. -/
theorem logCall_spec (fns : LogFuncs) (log : List Rec) (flags : UInt8) (insid func : Nat)
    {args : List UInt64} (short : args.length ≤ 32767) :
    ∃ call extras, logCall fns log flags insid args.length func args = some (log ++ call :: extras) ∧
      (call.type = .callRec ∧ call.narg = (args.length : Int) ∧ call.flags = fns.flagsOf flags func ∧
        call.seq = 0) ∧
      call.callArgs = args.take 2 ∧ extras.length = args.length / 3 ∧
      extras.map Rec.seq = (List.range' 1 extras.length).map (· % 256) ∧
      (∀ r ∈ extras, r.type = .extraArgsRec ∧ r.narg = (args.length : Int) ∧ r.flags = 0) ∧
      (args.length ≤ 767 → extras.flatMap Rec.extraArgs = args.drop 2) := by
  have nextra : toShort (numExtraArgsRecords args.length) = (args.length : Int) / 3 := by
    rw [numExtraArgsRecords_eq (by omega) (by omega), toShort_of_range (by omega) (by omega)]
  have inline : (min (args.length : Int) maxInlineArgs - 0).toNat = min 2 args.length := by
    rw [maxInlineArgs]
    omega
  have taken : args.take (min 2 args.length) = args.take 2 := by simp
  have left : args.drop (min 2 args.length) = args.drop 2 := by
    by_cases few : args.length ≤ 2
    · rw [Nat.min_eq_right few, List.drop_length, List.drop_of_length_le few]
    · rw [Nat.min_eq_left (by omega)]
  have enough : min (args.length : Int) maxInlineArgs ≤ 0 + args.length := by omega
  have copied := copyArgs_eq (Int.le_refl 0) (by omega) (by omega) 1
    (Function.update (fun _ => 0) 0 (UInt64.ofNat (fns.funcs func))) enough
  rw [inline, taken, left] at copied
  have rounds : (args.length : Int) / 3 + 1 <
      ((1 : Nat) : Int) + ((((args.length : Int) / 3).toNat + 1 : Nat) : Int) := by omega
  have state : 1 ≤ 10922 →
      max 0 (min (args.length : Int) maxInlineArgs) = min (args.length : Int) (3 * ((1 : Nat) : Int) - 1) ∧
        ((args.drop 2).length : Int) = args.length - max 0 (min (args.length : Int) maxInlineArgs) := fun _ => by
    rw [List.length_drop, maxInlineArgs]
    omega
  obtain ⟨extras, isExtras, length, seqs, fields, reads⟩ :=
    extraLoop_spec (by omega) (by omega) insid (Nat.le_refl 1) (by omega) rounds state
  refine ⟨{ Rec.setInsid {} insid with
      type := .callRec, flags := fns.flagsOf flags func, seq := 0, narg := args.length
      words := withArgs (Function.update (fun _ => 0) 0 (UInt64.ofNat (fns.funcs func))) 1 (args.take 2) },
    extras, ?_, ⟨rfl, rfl, rfl, rfl⟩, ?_, by omega, seqs, fields, fun few => reads (by omega)⟩
  · rw [logCall]
    dsimp only
    rw [copied, Option.bind_some, nextra]
    exact congrArg (Option.map _) isExtras
  · have count : (args.take 2).length = (min (args.length : Int) maxInlineArgs).toNat := by
      rw [List.length_take, maxInlineArgs]
      omega
    show (List.range (min (args.length : Int) maxInlineArgs).toNat).map
      (fun i => withArgs _ 1 (args.take 2) (1 + i)) = _
    rw [← count, withArgs_read]

/-- The numbers of the records are right as long as they fit a byte. -/
theorem seqs_iff (n : Nat) : (0 :: (List.range' 1 n).map (· % 256) = List.range (n + 1)) ↔ n ≤ 255 := by
  have positions : ∀ i, i < n → ((List.range' 1 n).map (· % 256))[i]? = some ((i + 1) % 256) := by
    intro i small
    simp [small, Nat.add_comm]
  rw [List.range_eq_range', List.range'_succ, List.cons.injEq, and_iff_right rfl, Nat.zero_add]
  constructor
  · intro same
    by_contra many
    have atLast := positions 255 (by omega)
    rw [same, List.getElem?_range' (by omega)] at atLast
    exact absurd (Option.some.inj atLast) (by decide)
  · intro few
    refine (List.map_congr_left fun k inside => ?_).trans (List.map_id _)
    rw [List.mem_range'_1] at inside
    exact Nat.mod_eq_of_lt (by omega)

/-- **What was logged of a call reads back as it should exactly when there are at most 767 arguments,
and the call returns or its arguments fit its `CallRec`.** -/
theorem call_records_iff (fns : LogFuncs) (log : List Rec) (flags : UInt8) (insid func : Nat)
    {args : List UInt64} (short : args.length ≤ 32767) :
    ∃ recs, logCall fns log flags insid args.length func args = some (log ++ recs) ∧
      (ReadsBack recs args (fns.flagsOf flags func) ↔
        args.length ≤ 767 ∧ (args.length ≤ 2 ∨ fns.flagsOf flags func &&& callNoReturn = 0)) := by
  obtain ⟨call, extras, logged, ⟨isCall, isNarg, isFlags, isSeq⟩, inline, length, seqs, fields, reads⟩ :=
    logCall_spec fns log flags insid func short
  have nextra : numExtraArgsRecords args.length = (args.length : Int) / 3 :=
    numExtraArgsRecords_eq (by omega) (by omega)
  have callCount : call.numRecForInst = 1 + (args.length : Int) / 3 +
      if fns.flagsOf flags func &&& callNoReturn = 0 then 1 else 0 := by
    rw [Rec.numRecForInst, isCall, isNarg, isFlags, nextra]
  have extraCount : ∀ r ∈ extras, r.numRecForInst = 1 + (args.length : Int) / 3 + 1 := by
    intro r inside
    obtain ⟨isExtra, narg, noFlags⟩ := fields r inside
    rw [Rec.numRecForInst, isExtra, narg, noFlags, nextra]
    rfl
  have total : ((call :: extras).length : Int) = 1 + (args.length : Int) / 3 := by
    rw [List.length_cons]
    omega
  refine ⟨_, logged, fun back => ⟨?_, ?_⟩, fun ⟨few, returns⟩ => ⟨?_, ?_, ?_, ?_⟩⟩
  · have numbered := back.seqs
    rw [List.map_cons, isSeq, seqs, List.length_cons, seqs_iff] at numbered
    omega
  · by_contra neither
    obtain ⟨many, noReturn⟩ := not_or.mp neither
    obtain ⟨r, inside⟩ := List.exists_mem_of_length_pos (show 0 < extras.length by omega)
    have count := back.counts r (List.mem_cons_of_mem _ inside)
    rw [extraCount r inside, total, if_neg noReturn] at count
    omega
  · rw [List.map_cons, isCall, nextra]
    refine congrArg _ (List.eq_replicate_iff.mpr ⟨by rw [List.length_map]; omega, fun type isType => ?_⟩)
    obtain ⟨r, inside, rfl⟩ := List.mem_map.mp isType
    exact (fields r inside).1
  · rw [readArgs, inline, reads few, List.take_append_drop]
  · rw [List.map_cons, isSeq, seqs, List.length_cons, seqs_iff]
    omega
  · intro r inside
    rw [total]
    rcases List.mem_cons.mp inside with rfl | extra
    · exact callCount
    · rw [extraCount r extra]
      rcases returns with fits | returns
      · exact absurd (List.length_pos_of_mem extra) (by omega)
      · rw [if_pos returns]

/-- It applies to a call with two arguments. -/
theorem call_records_iff_two : ∃ recs, logCall ⟨1, 2, id⟩ [] 0 7 2 9 [10, 20] = some recs ∧
    ReadsBack recs [10, 20] 0 := by
  have short : List.length [(10 : UInt64), 20] ≤ 32767 := by decide
  obtain ⟨recs, logged, back⟩ := call_records_iff ⟨1, 2, id⟩ [] 0 7 9 short
  exact ⟨recs, logged, back.mpr (by decide)⟩

/-- **A call that does not return, with three arguments**: its `CallRec` tells two records and its
`ExtraArgsRec` three. -/
theorem no_return_with_extra_args : ∃ recs,
    logCall ⟨1, 2, id⟩ [] callNoReturn 7 3 9 [10, 20, 30] = some recs ∧
    recs.map Rec.numRecForInst = [2, 3] ∧ ¬ ReadsBack recs [10, 20, 30] callNoReturn := by
  refine ⟨_, rfl, by decide, fun back => ?_⟩
  have counts := back.counts _ (List.mem_cons_of_mem _ List.mem_cons_self)
  revert counts
  decide

end MinSmt
