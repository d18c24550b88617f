/-
**The three sleep functions** (`__sleep`, `__usleep`, `__nanosleep`).

Each of them makes a `timespec` and waits for the number of turns that `relTimeToTurn` gives. `__usleep`
computes its nanoseconds as `1000 * usec`, a product of two `unsigned`, so from `4294968` microseconds
on the product has lost a multiple of `2 ^ 32`.

* `sleepTurns` — for how many turns a sleep waits (`sleeps_for`).
* `KeepsLength` — the arguments of `__usleep` whose product keeps its number of turns.
* **`sleeps_agree_iff`** — for exactly these `__usleep` agrees with `__nanosleep` and `__sleep`, and
  waits no less than for a shorter time.
* `long_usleep_is_cut` — a sleep of `4.3` seconds waits for fewer turns than one of a second.
-/

import MinSmt.Runtime.Calls
import MinSmt.Runtime.Deadlines

namespace MinSmt

/-- The time that a sleep function converts. -/
def Call.sleepTime : Call → Option Timespec
  | .sleep seconds => some (sleepTimespec seconds)
  | .usleep usec => some (usleepTimespec usec)
  | .nanosleep req => req
  | _ => none

/-- The call is one of the three sleep functions. -/
def Call.sleeps : Call → Bool
  | .sleep _ => true
  | .usleep _ => true
  | .nanosleep _ => true
  | _ => false

/-- **For how many turns a sleep waits**; `none` when the conversion ends the process. -/
def sleepTurns (o : Options) (nthread : Nat) (call : Call) : Option Nat :=
  relTimeToTurn o nthread call.sleepTime

/-- That many microseconds, as `__nanosleep` gets them. -/
def microseconds (usec : Nat) : Timespec := ⟨(usec / 1000000 : Nat), (usec % 1000000 * 1000 : Nat)⟩

/-- **The product of `__usleep` keeps its number of turns**: it does not wrap around, or both its value and
what is left of it are clamped to the same end, or the process ends in `time2turn` anyway. -/
def KeepsLength (o : Options) (nthread usec : Nat) : Prop :=
  o.launchIdleThread = 0 ∨ 1000 * usec < unsignedMod ∨
    1000 * usec / o.nanosecPerTurn ≤ 5 * nthread + 1 ∨
    maxRel ≤ 1000 * usec % unsignedMod / o.nanosecPerTurn ∨ maxRel ≤ 5 * nthread + 1

section Sleeps

variable {σ : Type} {S : Serializer σ} {o : Options} {tid nthread : Nat} {e : Env σ}

/-- **A sleep function waits for that many turns.** -/
theorem sleeps_for (timed : 0 < o.enforceTurnType) {call : Call} (sleeps : call.sleeps = true) {turns : Nat}
    (isTurns : sleepTurns o (S.core e.sched).tm.nthread call = some turns) :
    callTurn S o tid e call =
      (e, .wait none (((S.core e.sched).getTurnCount + turns) % unsignedMod) .slept) := by
  have sleepsFor : callTurn S o tid e call = sleepFor S o e call.sleepTime := by
    cases call with
    | sleep seconds | usleep usec | nanosleep req => rfl
    | _ => cases sleeps
  rw [sleepsFor, sleepFor, if_pos timed, Env.deadline]
  rw [sleepTurns] at isTurns
  rw [isTurns]
  rfl

/-- The turns of a sleep, when the time in nanoseconds fits. -/
theorem turns_of_ns (idle : o.launchIdleThread ≠ 0) (positive : 0 < o.nanosecPerTurn) {time : Timespec}
    {ns : Nat} (isNs : time.ns = ns) (fits : ns < 18446744073709551616) :
    relTimeToTurn o nthread (some time) = some (clampedTurns o.nanosecPerTurn nthread ns).toNat := by
  rw [relTimeToTurn_eq, if_neg (by omega), isNs, Int.emod_eq_of_lt (by omega) (by omega)]

theorem usleep_ns (usec : Nat) : (usleepTimespec usec).ns = (1000 * usec % unsignedMod : Nat) := by
  unfold usleepTimespec Timespec.ns
  dsimp only
  omega

theorem microseconds_ns (usec : Nat) : (microseconds usec).ns = (1000 * usec : Nat) := by
  unfold microseconds Timespec.ns
  dsimp only
  omega

theorem sleep_ns (seconds : Nat) : (sleepTimespec seconds).ns = (1000 * (seconds * 1000000) : Nat) := by
  unfold sleepTimespec Timespec.ns
  dsimp only
  omega

/-- Clamped turns of lengths in nanoseconds, as natural numbers. -/
theorem toNat_clampedTurns (nanosecPerTurn nthread ns : Nat) :
    (clampedTurns nanosecPerTurn nthread ns).toNat =
      max (5 * nthread + 1) (min 1000000 (ns / nanosecPerTurn)) := by
  unfold clampedTurns
  rw [← Int.natCast_ediv]
  omega

/-- **What is left of the product gives the same turns exactly when the product keeps its length.** A turn
is shorter than what the product loses. -/
theorem keepsLength_iff (idle : o.launchIdleThread ≠ 0) (positive : 0 < o.nanosecPerTurn)
    (small : o.nanosecPerTurn < 2147483648) (usec : Nat) :
    (clampedTurns o.nanosecPerTurn nthread (1000 * usec % unsignedMod : Nat)).toNat =
      (clampedTurns o.nanosecPerTurn nthread (1000 * usec : Nat)).toNat ↔
    KeepsLength o nthread usec := by
  rw [toNat_clampedTurns, toNat_clampedTurns]
  unfold KeepsLength maxRel
  by_cases short : 1000 * usec < unsignedMod
  · rw [Nat.mod_eq_of_lt short]
    exact ⟨fun _ => Or.inr (Or.inl short), fun _ => rfl⟩
  · have lost : 1000 * usec % unsignedMod + o.nanosecPerTurn ≤ 1000 * usec := by
      have division := Nat.mod_add_div (1000 * usec) unsignedMod
      have wraps : 1 ≤ 1000 * usec / unsignedMod := Nat.div_pos (by omega) (by decide)
      have product : unsignedMod * 1 ≤ unsignedMod * (1000 * usec / unsignedMod) :=
        Nat.mul_le_mul_left _ wraps
      unfold unsignedMod at division product ⊢
      omega
    have fewer : 1000 * usec % unsignedMod / o.nanosecPerTurn + 1 ≤ 1000 * usec / o.nanosecPerTurn := by
      rw [← Nat.add_div_right _ positive]
      exact Nat.div_le_div_right lost
    omega

/-- What is left of the product never gives more turns. -/
theorem usleep_turns_le (usec : Nat) :
    (clampedTurns o.nanosecPerTurn nthread (1000 * usec % unsignedMod : Nat)).toNat ≤
      (clampedTurns o.nanosecPerTurn nthread (1000 * usec : Nat)).toNat := by
  rw [toNat_clampedTurns, toNat_clampedTurns]
  have fewer : 1000 * usec % unsignedMod / o.nanosecPerTurn ≤ 1000 * usec / o.nanosecPerTurn :=
    Nat.div_le_div_right (Nat.mod_le _ _)
  omega

end Sleeps

/-- **The sleep functions agree exactly when the product keeps its length**: `__usleep` with `__nanosleep`
and with `__sleep`; then no shorter sleep waits for more turns. -/
theorem sleeps_agree_iff (o : Options) (timed : 0 < o.enforceTurnType) (positive : 0 < o.nanosecPerTurn)
    (small : o.nanosecPerTurn < 2147483648) (nthread usec : Nat) (fits : usec < unsignedMod) :
    ((sleepTurns o nthread (.usleep usec) = sleepTurns o nthread (.nanosleep (some (microseconds usec))) ∧
        (∀ seconds, seconds * 1000000 = usec →
          sleepTurns o nthread (.sleep seconds) = sleepTurns o nthread (.usleep usec)) ∧
        ∀ shorter ≤ usec, ∀ turns turns', sleepTurns o nthread (.usleep shorter) = some turns →
          sleepTurns o nthread (.usleep usec) = some turns' → turns ≤ turns') ↔
      KeepsLength o nthread usec) ∧
    ∀ {σ : Type} (S : Serializer σ) (tid : Tid) (e : Env σ) (call : Call) (turns : Nat),
      call.sleeps = true → sleepTurns o (S.core e.sched).tm.nthread call = some turns →
      callTurn S o tid e call =
        (e, .wait none (((S.core e.sched).getTurnCount + turns) % unsignedMod) .slept) := by
  refine ⟨?_, fun S tid e call turns sleeps isTurns => sleeps_for timed sleeps isTurns⟩
  by_cases idle : o.launchIdleThread = 0
  · -- without an idle thread every conversion ends the process
    have ends : ∀ time, relTimeToTurn o nthread (some time) = none := fun time => by
      rw [relTimeToTurn_eq, if_pos (Or.inl idle)]
    refine iff_of_true ⟨?_, fun seconds _ => ?_, fun shorter _ turns turns' isTurns => ?_⟩ (Or.inl idle)
    · exact (ends _).trans (ends _).symm
    · exact (ends _).trans (ends _).symm
    · rw [sleepTurns, Call.sleepTime, ends] at isTurns
      cases isTurns
  · have long : 1000 * usec < 18446744073709551616 := by
      unfold unsignedMod at fits
      omega
    have exact_turns : ∀ {time : Timespec}, time.ns = (1000 * usec : Nat) →
        relTimeToTurn o nthread (some time) =
          some (clampedTurns o.nanosecPerTurn nthread (1000 * usec : Nat)).toNat :=
      fun isNs => turns_of_ns idle positive isNs long
    have cut_turns : ∀ usec, relTimeToTurn o nthread (some (usleepTimespec usec)) =
        some (clampedTurns o.nanosecPerTurn nthread (1000 * usec % unsignedMod : Nat)).toNat := by
      intro usec
      refine turns_of_ns idle positive (usleep_ns usec) ?_
      have bound : 1000 * usec % unsignedMod < unsignedMod := Nat.mod_lt _ (by decide)
      unfold unsignedMod at bound ⊢
      omega
    have same := @keepsLength_iff o nthread idle positive small usec
    constructor
    · rintro ⟨agree, -, -⟩
      refine same.mp ?_
      rw [sleepTurns, sleepTurns, Call.sleepTime, Call.sleepTime, cut_turns,
        exact_turns (microseconds_ns usec)] at agree
      exact Option.some.inj agree
    · intro keeps
      have turns_eq := same.mpr keeps
      refine ⟨?_, fun seconds isUsec => ?_, fun shorter le turns turns' isTurns isTurns' => ?_⟩
      · rw [sleepTurns, sleepTurns, Call.sleepTime, Call.sleepTime, cut_turns,
          exact_turns (microseconds_ns usec), turns_eq]
      · rw [sleepTurns, sleepTurns, Call.sleepTime, Call.sleepTime, cut_turns,
          exact_turns (by rw [sleep_ns, isUsec]), turns_eq]
      · rw [sleepTurns, Call.sleepTime, cut_turns] at isTurns isTurns'
        cases isTurns
        cases isTurns'
        rw [turns_eq]
        refine le_trans (usleep_turns_le shorter) ?_
        have mono : clampedTurns o.nanosecPerTurn nthread (1000 * shorter : Nat) ≤
            clampedTurns o.nanosecPerTurn nthread (1000 * usec : Nat) :=
          clampedTurns_mono nthread (by omega) (by omega)
        exact Int.toNat_le_toNat mono

/-- A second, in all three ways. -/
theorem sleeps_agree_iff_oneSecond :
    sleepTurns {} 2 (.usleep 1000000) = some 333333 ∧ sleepTurns {} 2 (.sleep 1) = some 333333 ∧
      sleepTurns {} 2 (.usleep 1000000) = sleepTurns {} 2 (.nanosleep (some (microseconds 1000000))) :=
  have agree := (sleeps_agree_iff {} (by decide) (by decide) (by decide) 2 1000000 (by decide)).1.mpr
    (Or.inr (Or.inl (by decide)))
  ⟨by decide +kernel, by decide +kernel, agree.1⟩

/-- **`4.295` seconds wait for eleven turns**, as few as no time at all, and fewer than one second. -/
theorem long_usleep_is_cut :
    sleepTurns {} 2 (.usleep 4294968) = some 11 ∧
      sleepTurns {} 2 (.nanosleep (some (microseconds 4294968))) = some 1000000 ∧
      sleepTurns {} 2 (.usleep 1000000) = some 333333 := by
  decide +kernel

end MinSmt
