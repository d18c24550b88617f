/-
**How an absolute deadline becomes a number of turns** (`time_diff`, `time2turn`, `relTimeToTurn`).

The comments ask for a clamp: at most `MAX_REL` turns, and `5 * nthread + 1` turns when the result is
"too small or negative". The nanoseconds are an `int64_t`, computed with wrap-around, and they reach
`time2turn` as a `uint64_t`; a negative difference is a very large one there.

* `Timespec.ns` — a time in nanoseconds, over the integers.
* `clampedTurns` — the clamp that the comments ask for, over the integers.
* `KeepsOrder` — the differences whose class modulo `2 ^ 64` is clamped to the same turn.
* **`deadline_clamped_iff`** — these are exactly the deadlines that are converted as the comments say.
* `past_deadline_waits_longest` — a deadline one second before the base time gives `MAX_REL` turns.
-/

import Mathlib.Algebra.Order.Group.Unbundled.Int
import MinSmt.Runtime.Objects

namespace MinSmt

/-! ### The conversion over the integers -/

/-- A time in nanoseconds. -/
def Timespec.ns (t : Timespec) : Int := t.sec * 1000000000 + t.nsec

/-- **The clamp over the integers.** -/
def clampedTurns (nanosecPerTurn nthread : Nat) (ns : Int) : Int :=
  max (5 * nthread + 1) (min 1000000 (ns / nanosecPerTurn))

/-- How a timed wrapper converts a deadline. -/
def deadlineTurns (o : Options) (nthread : Nat) (base abstime : Timespec) : Option Nat :=
  relTimeToTurn o nthread (some (timeDiff base abstime))

/-- The difference is one that `uint64_t` holds, or its class modulo `2 ^ 64` is clamped as it should
be: to the least number of turns when it is negative, to the greatest one when it is too large. -/
def KeepsOrder (nanosecPerTurn nthread : Nat) (ns : Int) : Prop :=
  (0 ≤ ns ∧ ns < 18446744073709551616) ∨
  (ns < 0 ∧ ns % 18446744073709551616 / nanosecPerTurn ≤ 5 * nthread + 1) ∨
  (18446744073709551616 ≤ ns ∧ 1000000 ≤ ns % 18446744073709551616 / nanosecPerTurn)

section Conversion

variable {o : Options} {nthread : Nat} {base abstime : Timespec} {ns : Int}

/-- The borrow of `time_diff` does not change the difference. -/
theorem timeDiff_ns (base abstime : Timespec) :
    (timeDiff base abstime).ns = abstime.ns - base.ns := by
  unfold timeDiff Timespec.ns
  split
  · dsimp only
    omega
  · dsimp only
    omega

/-- What `relTimeToTurn` computes, over the integers: the same clamp, of the class modulo `2 ^ 64`. -/
theorem relTimeToTurn_eq (o : Options) (nthread : Nat) (reltime : Timespec) :
    relTimeToTurn o nthread (some reltime) =
      if o.launchIdleThread = 0 ∨ o.nanosecPerTurn = 0 then none
      else some (clampedTurns o.nanosecPerTurn nthread
        (reltime.ns % 18446744073709551616)).toNat := by
  have positive : 0 ≤ reltime.ns % 18446744073709551616 := Int.emod_nonneg _ (by decide)
  obtain ⟨nsec, isNsec⟩ := Int.eq_ofNat_of_zero_le positive
  show Option.map _ (time2turn o (reltime.ns % 18446744073709551616).toNat) = _
  rw [isNsec]
  unfold time2turn clampedTurns maxRel
  rw [Int.toNat_natCast, ← Int.natCast_ediv]
  split
  · rfl
  · split
    · simp only [Option.map_some, Option.some.injEq]
      split <;> omega
    · simp only [Option.map_some, Option.some.injEq]
      split <;> omega

theorem deadlineTurns_eq (o : Options) (nthread : Nat) (base abstime : Timespec) :
    deadlineTurns o nthread base abstime =
      if o.launchIdleThread = 0 ∨ o.nanosecPerTurn = 0 then none
      else some (clampedTurns o.nanosecPerTurn nthread
        ((abstime.ns - base.ns) % 18446744073709551616)).toNat := by
  rw [deadlineTurns, relTimeToTurn_eq, timeDiff_ns]

theorem clampedTurns_pos (nanosecPerTurn nthread : Nat) (ns : Int) :
    0 < clampedTurns nanosecPerTurn nthread ns := by
  unfold clampedTurns
  omega

/-- The clamp is monotone. -/
theorem clampedTurns_mono {nanosecPerTurn : Nat} (nthread : Nat) {ns ns' : Int}
    (positive : 0 < (nanosecPerTurn : Int)) (le : ns ≤ ns') :
    clampedTurns nanosecPerTurn nthread ns ≤ clampedTurns nanosecPerTurn nthread ns' := by
  have quotients : ns / (nanosecPerTurn : Int) ≤ ns' / nanosecPerTurn :=
    Int.ediv_le_ediv positive le
  unfold clampedTurns
  omega

/-- A deadline at or before the base time gives the least number of turns. -/
theorem clampedTurns_of_nonpos {nanosecPerTurn : Nat} (nthread : Nat)
    (positive : 0 < (nanosecPerTurn : Int)) (past : ns ≤ 0) :
    clampedTurns nanosecPerTurn nthread ns = 5 * nthread + 1 := by
  have quotient : ns / (nanosecPerTurn : Int) ≤ 0 := by
    simpa using Int.ediv_le_ediv positive past
  unfold clampedTurns
  omega

/-- **The class modulo `2 ^ 64` is clamped to the same turn exactly when the order is kept.** The
least number of turns is never `MAX_REL`, since it is not a multiple of five. -/
theorem clampedTurns_emod_iff {nanosecPerTurn nthread : Nat} (positive : 0 < nanosecPerTurn)
    (small : nanosecPerTurn < 2147483648) (few : 5 * nthread + 1 ≤ 1000000) (ns : Int) :
    clampedTurns nanosecPerTurn nthread (ns % 18446744073709551616) =
      clampedTurns nanosecPerTurn nthread ns ↔ KeepsOrder nanosecPerTurn nthread ns := by
  have perTurn : 0 < (nanosecPerTurn : Int) := by omega
  unfold KeepsOrder
  by_cases past : ns < 0
  · have least := clampedTurns_of_nonpos nthread perTurn past.le
    rw [least]
    unfold clampedTurns
    omega
  · by_cases fits : ns < 18446744073709551616
    · rw [Int.emod_eq_of_lt (by omega) fits]
      exact ⟨fun _ => Or.inl ⟨by omega, fits⟩, fun _ => rfl⟩
    · have far : 1000000 ≤ ns / (nanosecPerTurn : Int) := by
        refine (Int.le_ediv_iff_mul_le perTurn).mpr ?_
        have bound : 1000000 * (nanosecPerTurn : Int) ≤ 1000000 * 2147483648 := by omega
        omega
      unfold clampedTurns
      omega

end Conversion

/-! ### The deadlines of the wrappers -/

/-- **A deadline is converted as the comments say exactly when there is an idle thread and the
difference keeps its order**; among these, a later deadline never gives fewer turns, and one at or
before the base time gives the least number of turns. -/
theorem deadline_clamped_iff (o : Options) (nthread : Nat) (base abstime : Timespec)
    (positive : 0 < o.nanosecPerTurn) (small : o.nanosecPerTurn < 2147483648)
    (few : 5 * nthread + 1 ≤ 1000000) :
    ((∃ turns, deadlineTurns o nthread base abstime = some turns ∧
        (turns : Int) = clampedTurns o.nanosecPerTurn nthread (abstime.ns - base.ns)) ↔
      o.launchIdleThread ≠ 0 ∧ KeepsOrder o.nanosecPerTurn nthread (abstime.ns - base.ns)) ∧
    (o.launchIdleThread ≠ 0 → KeepsOrder o.nanosecPerTurn nthread (abstime.ns - base.ns) →
      (abstime.ns ≤ base.ns → deadlineTurns o nthread base abstime = some (5 * nthread + 1)) ∧
      ∀ later : Timespec, abstime.ns ≤ later.ns →
        KeepsOrder o.nanosecPerTurn nthread (later.ns - base.ns) →
        ∃ turns turns', deadlineTurns o nthread base abstime = some turns ∧
          deadlineTurns o nthread base later = some turns' ∧ turns ≤ turns') := by
  have converted : ∀ when : Timespec, o.launchIdleThread ≠ 0 →
      deadlineTurns o nthread base when = some (clampedTurns o.nanosecPerTurn nthread
        ((when.ns - base.ns) % 18446744073709551616)).toNat := by
    intro when idle
    rw [deadlineTurns_eq, if_neg (by omega)]
  have perTurn : 0 < (o.nanosecPerTurn : Int) := by omega
  have modulo := fun ns => @clampedTurns_emod_iff o.nanosecPerTurn nthread positive small few ns
  refine ⟨⟨?_, ?_⟩, ?_⟩
  · rintro ⟨turns, isTurns, clamped⟩
    have idle : o.launchIdleThread ≠ 0 := by
      intro noIdle
      rw [deadlineTurns_eq, if_pos (Or.inl noIdle)] at isTurns
      cases isTurns
    refine ⟨idle, (modulo _).mp ?_⟩
    rw [converted abstime idle] at isTurns
    rw [← clamped, ← Option.some.inj isTurns]
    exact (Int.toNat_of_nonneg (clampedTurns_pos _ _ _).le).symm
  · rintro ⟨idle, keeps⟩
    refine ⟨_, converted abstime idle, ?_⟩
    rw [(modulo _).mpr keeps]
    exact Int.toNat_of_nonneg (clampedTurns_pos _ _ _).le
  · intro idle keeps
    refine ⟨fun past => ?_, fun later order keepsLater => ?_⟩
    · rw [converted abstime idle, (modulo _).mpr keeps,
        clampedTurns_of_nonpos nthread perTurn (by omega)]
      congr 1
    · refine ⟨_, _, converted abstime idle, converted later idle, ?_⟩
      rw [(modulo _).mpr keeps, (modulo _).mpr keepsLater]
      exact Int.toNat_le_toNat (clampedTurns_mono nthread perTurn (by omega))

/-- One second after the base time, with the default options. -/
theorem deadline_clamped_iff_oneSecond :
    deadlineTurns { nanosecPerTurn := 3000 } 2 ⟨1, 0⟩ ⟨2, 0⟩ = some 333333 ∧
      (deadlineTurns { nanosecPerTurn := 3000 } 2 ⟨1, 0⟩ ⟨1, 0⟩ = some 11) := by
  have contract := deadline_clamped_iff { nanosecPerTurn := 3000 } 2 ⟨1, 0⟩
  refine ⟨by decide +kernel, ?_⟩
  refine ((contract ⟨1, 0⟩ (by decide) (by decide) (by decide)).2 (by decide) ?_).1 (by decide)
  exact Or.inl (by decide)

/-- **A deadline one second before the base time gives `MAX_REL` turns** and not the least number. -/
theorem past_deadline_waits_longest :
    deadlineTurns { nanosecPerTurn := 3000 } 2 ⟨2, 0⟩ ⟨1, 0⟩ = some 1000000 ∧
      clampedTurns 3000 2 ((⟨1, 0⟩ : Timespec).ns - (⟨2, 0⟩ : Timespec).ns) = 11 := by
  decide +kernel

end MinSmt
