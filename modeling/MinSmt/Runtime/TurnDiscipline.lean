/-
**The wrappers on the scheduler** (`RecorderRT<RRScheduler>` in `lib/runtime/record-runtime.cpp`).

`RRScheduler` says of each operation whether it is called with the turn and whether it returns with it;
`Sys` runs these operations in any order that respects this. `Execution` runs programs on the wrappers,
which call them. Here every run of a program is a run of `Sys`: a wrapper uses the scheduler only with
the turn, gives the turn up exactly once for each time it got it, and computes no timeout that would
leave a sleeper in `waitq` for ever.

* `Sys.use` — what a wrapper can do to the scheduler: the actions of `Sys`, and `TidMap::reap`.
* `Pc.Fits` — where a thread of the program is, and where it is for the scheduler.
* **`program_uses_scheduler`** — every run of a program is a run of uses, with the same scheduler and every
  thread at its place.
* **`program_keeps_queues`** — so the invariant of the scheduler holds whatever the program does.
-/

import MinSmt.Library.Progress
import MinSmt.Runtime.Determinism
import MinSmt.Runtime.Frames
import MinSmt.Scheduler.TurnToken

namespace MinSmt

open MinSmt.Library Sched Sys

/-! ### Uses -/

/-- What a wrapper does to the scheduler. -/
inductive Use
  | act (action : Action)
  | reap (th : PthreadT)
  deriving DecidableEq, Repr

/-- One use of the scheduler by one thread; `reap` belongs to a thread with the turn. -/
def Sys.use (o : Options) (s : Sys) (label : Tid × Use) : Option Sys :=
  match label.2 with
  | .act action => s.step o (label.1, action)
  | .reap th =>
    if s.pc label.1 = .turn false then
      some { s with sched := { s.sched with tm := s.sched.tm.reap th } }
    else none

/-- The runs without external calls. -/
def programScope : Scope := ⟨False, True⟩

/-- **What a program keeps of the process.** -/
structure Sys.Sane (o : Options) (s : Sys) : Prop where
  holds : Inv.Holds o programScope s
  running : s.outcome = none ∨ s.outcome = some .invalidTid
  idleDone : s.idleDone = false

/-- One process leads to another by uses. -/
def Sys.Leads (o : Options) (s s' : Sys) : Prop :=
  ∃ uses, exec (Sys.use o) s uses = some s' ∧ s'.Sane o

section Uses

variable {o : Options} {s s' s'' : Sys} {tid : Tid}

namespace Sys

theorem Leads.refl (sane : s.Sane o) : Leads o s s := ⟨[], rfl, sane⟩

theorem Leads.trans (first : Leads o s s') (second : Leads o s' s'') : Leads o s s'' := by
  obtain ⟨uses, ran, -⟩ := first
  obtain ⟨uses', ran', sane⟩ := second
  exact ⟨uses ++ uses', exec_append_of ran ran', sane⟩

/-- An action that is no external call, and does not end the process. -/
theorem Sane.leads (rr : o.RoundRobin) (sane : s.Sane o) {action : Action} (home : action.internal = true)
    (stepped : s.threadStep o tid action = some s')
    (running : s'.outcome = none ∨ s'.outcome = some .invalidTid) (idleDone : s'.idleDone = false) :
    Leads o s s' := by
  have moved : s.step o (tid, action) = some s' := by
    unfold Sys.step
    rcases sane.running with isNone | isInvalid
    · rw [isNone]
      exact stepped
    · rw [isInvalid]
      exact stepped
  obtain ⟨runq, hp, holder, inv⟩ := sane.holds
  refine ⟨[(tid, .act action)], ?_, ⟨?_, running, idleDone⟩⟩
  · show (s.step o (tid, action)).bind _ = _
    rw [moved]
    rfl
  · exact inv.step rr ⟨queueSafe_of_internal inv trivial home, False.elim, fun _ => home⟩ moved

/-- The turn holder reaps a thread. -/
theorem Sane.reaps (sane : s.Sane o) (here : s.pc tid = .turn false) (th : PthreadT) :
    Leads o s { s with sched := { s.sched with tm := s.sched.tm.reap th } } := by
  obtain ⟨runq, hp, holder, inv⟩ := sane.holds
  refine ⟨[(tid, .reap th)], ?_, ⟨?_, sane.running, sane.idleDone⟩⟩
  · show (if s.pc tid = .turn false then _ else none : Option Sys).bind _ = _
    rw [if_pos here]
    rfl
  · exact @Inv.relabel o programScope s runq hp holder tid inv here (s.sched.tm.reap th) rfl rfl s.sched.nNonDetWait

theorem Sane.nobodyBack (sane : s.Sane o) : s.sched.interProWakeupTids = [] := by
  obtain ⟨runq, hp, holder, inv⟩ := sane.holds
  exact (inv.inside trivial).2

theorem Sane.tid_lt (sane : s.Sane o) (alive : (s.pc tid).live = true) : tid < s.sched.tm.nthread := by
  obtain ⟨runq, hp, holder, inv⟩ := sane.holds
  exact inv.layout.known tid ((inv.live tid).mpr alive)

end Sys

end Uses

/-! ### Where a thread is -/

/-- Where a thread goes on after `next`, for the scheduler and for the program. -/
inductive After.Fits : After → Option Spot → Prop
  | dead : Fits .dead none
  | outside : Fits .away (some .outside)
  | returning : Fits .away (some .returning)
  | idling : Fits .idling (some .outside)
  | inside (stage : Stage) : Fits .getTurn (some (.inside stage))

/-- **Where a thread is**, for the scheduler and for the program. The last thread at a barrier puts its turn
and calls `getTurn` next. -/
inductive Pc.Fits : Pc → Site → Prop
  | off {pc : Pc} {after : After} {spot : Option Spot} (isPc : pc = after.pc) (fits : after.Fits spot) :
      Fits pc (.off spot)
  | turn (stage : Stage) : Fits (.turn false) (.turn stage)
  | trying (cur : Option Tid) : Fits (.trying cur) (.trying cur)
  | leaving (phase : Phase) (atThreadEnd : Bool) (strategy : Strategy) {after : After} {spot : Option Spot}
      (fits : after.Fits spot) :
      Fits (.leaving phase atThreadEnd strategy after) (.leaving phase atThreadEnd strategy spot)
  | bounced (phase : Phase) (atThreadEnd : Bool) (strategy : Strategy) (stage : Stage) :
      Fits (.leaving phase atThreadEnd strategy .away)
        (.leaving phase atThreadEnd strategy (some (.inside stage)))

/-- The thread has been created and has not ended. -/
def Site.live : Site → Bool
  | .off none => false
  | .leaving _ _ _ none => false
  | _ => true

namespace Pc.Fits

variable {pc : Pc}

theorem inTurn {site : Site} (fits : pc.Fits site) : pc.inTurn = site.inTurn := by
  cases fits with
  | off isPc fits =>
    rw [isPc]
    cases fits <;> rfl
  | turn | trying | leaving | bounced => rfl

theorem live {site : Site} (fits : pc.Fits site) : pc.live = site.live := by
  cases fits with
  | off isPc fits =>
    rw [isPc]
    cases fits <;> rfl
  | leaving _ _ _ fits => cases fits <;> rfl
  | turn | trying | bounced => rfl

theorem of_off {spot : Option Spot} (fits : pc.Fits (.off spot)) : ∃ after : After, pc = after.pc ∧ after.Fits spot := by
  cases fits with
  | off isPc fits => exact ⟨_, isPc, fits⟩

theorem of_turn {stage : Stage} (fits : pc.Fits (.turn stage)) : pc = .turn false := by
  cases fits
  rfl

theorem of_trying {cur : Option Tid} (fits : pc.Fits (.trying cur)) : pc = .trying cur := by
  cases fits
  rfl

theorem of_leaving {phase : Phase} {atThreadEnd : Bool} {strategy : Strategy} {spot : Option Spot}
    (fits : pc.Fits (.leaving phase atThreadEnd strategy spot)) :
    ∃ after, pc = .leaving phase atThreadEnd strategy after := by
  cases fits with
  | leaving | bounced => exact ⟨_, rfl⟩

/-- The place inside `next` changes. -/
theorem relocate {phase phase' : Phase} {atThreadEnd : Bool} {strategy strategy' : Strategy} {after : After}
    {spot : Option Spot}
    (fits : (Pc.leaving phase atThreadEnd strategy after).Fits (.leaving phase atThreadEnd strategy spot)) :
    (Pc.leaving phase' atThreadEnd strategy' after).Fits (.leaving phase' atThreadEnd strategy' spot) := by
  cases fits with
  | leaving _ _ _ fits => exact .leaving _ _ _ fits
  | bounced _ _ _ stage => exact .bounced _ _ _ stage

end Pc.Fits

/-- **The process of a program and the process of the scheduler.** -/
structure Execution.Uses (o : Options) (p : Execution) (s : Sys) : Prop where
  sane : s.Sane o
  sched : s.sched = p.sched
  fits : ∀ t, (s.pc t).Fits (p.thread t).site

/-- The thread comes to its new site by uses, and the others stay where they are. -/
def Sys.Gets (o : Options) (s : Sys) (tid : Tid) (sched : Sched) (site : Site) : Prop :=
  ∃ s', Leads o s s' ∧ s'.sched = sched ∧ (s'.pc tid).Fits site ∧ ∀ t, t ≠ tid → s'.pc t = s.pc t

section Steps

variable {o : Options} {s s' : Sys} {tid : Tid} {sched : Sched} {site : Site}

namespace Sys

theorem threadStep_turn (here : s.pc tid = .turn false) (action : Action) :
    s.threadStep o tid action = s.turnStep o tid action := by
  unfold threadStep
  rw [here]

/-- The operations before leave the threads where they are. -/
theorem Gets.after {before : Sched} (leads : Leads o s { s with sched := before })
    (gets : Gets o { s with sched := before } tid sched site) : Gets o s tid sched site := by
  obtain ⟨s', leads', isSched, fits, others⟩ := gets
  exact ⟨s', leads.trans leads', isSched, fits, others⟩

/-- One action brings the thread to its site. -/
theorem Sane.moves (rr : o.RoundRobin) (sane : s.Sane o) {action : Action} {pc : Pc}
    (home : action.internal = true) (stepped : s.threadStep o tid action = some (s.goto tid sched pc))
    (fits : pc.Fits site) : Gets o s tid sched site := by
  refine ⟨_, sane.leads rr home stepped sane.running sane.idleDone, rfl, ?_, fun t other => ?_⟩
  · rwa [goto_pc_self]
  · exact goto_pc_of_ne other

theorem Sane.perm (sane : s.Sane o) : [].Perm s.sched.interProWakeupTids := by
  rw [sane.nobodyBack]

/-- The turn holder counts a turn. -/
theorem Sane.counts (rr : o.RoundRobin) (sane : s.Sane o) (here : s.pc tid = .turn false) :
    Leads o s { s with sched := s.sched.incTurnCount o [] } := by
  refine @Sane.leads o s _ tid rr sane (.incTurnCount []) rfl ?_ sane.running sane.idleDone
  rw [threadStep_turn here, turnStep, if_pos sane.perm]

/-- The turn holder puts its turn. -/
theorem Sane.putsTurn (rr : o.RoundRobin) (sane : s.Sane o) (here : s.pc tid = .turn false)
    {strategy : Strategy} (put : s.sched.putTurn o tid strategy = some sched) {spot : Option Spot}
    (fits : (Pc.leaving .checking false strategy .away).Fits (.leaving .checking false strategy spot)) :
    Gets o s tid sched (.leaving .checking false strategy spot) := by
  refine @Sane.moves o s tid sched _ rr sane (.putTurn strategy) _ rfl ?_ fits
  rw [threadStep_turn here, turnStep, put]
  rfl

end Sys

/-! ### The operations before a turn is given up -/

/-- What the operations of a turn lead to; the threads they create are outside. -/
def Sys.Offers (o : Options) (s : Sys) (sched : Sched) : Prop :=
  ∃ s', Leads o s s' ∧ s'.sched = sched ∧ s.sched.tm.nthread ≤ sched.tm.nthread ∧
    ∀ t, s'.pc t = if s.sched.tm.nthread ≤ t ∧ t < sched.tm.nthread then .away else s.pc t

namespace Sys

theorem Offers.refl (sane : s.Sane o) : Offers o s s.sched := by
  refine ⟨s, Leads.refl sane, rfl, Nat.le_refl _, fun t => ?_⟩
  rw [if_neg fun both => Nat.not_lt.mpr both.1 both.2]

/-- An operation that creates nobody. -/
theorem Offers.operation (offers : Offers o s sched) (alive : tid < s.sched.tm.nthread)
    (here : s.pc tid = .turn false) {next : Sched} (nthread : next.tm.nthread = sched.tm.nthread)
    (does : ∀ s' : Sys, s'.Sane o → s'.sched = sched → s'.pc tid = .turn false →
      Leads o s' { s' with sched := next }) : Offers o s next := by
  obtain ⟨s', leads, isSched, grows, pcs⟩ := offers
  have there : s'.pc tid = .turn false := by
    rw [pcs tid, if_neg fun both => Nat.not_le.mpr alive both.1, here]
  obtain ⟨uses, ran, sane⟩ := id leads
  refine ⟨_, leads.trans (does s' sane isSched there), rfl, nthread ▸ grows, fun t => ?_⟩
  rw [nthread]
  exact pcs t

theorem create_nthread (sched : Sched) (th : PthreadT) (threadFunc : ThreadFunc) :
    (sched.create o th threadFunc).tm.nthread = sched.tm.nthread + 1 := by
  unfold Sched.create
  dsimp only
  split
  · split <;> rfl
  · rfl

/-- The turn holder creates a thread. -/
theorem Offers.create (rr : o.RoundRobin) (offers : Offers o s sched) (alive : tid < s.sched.tm.nthread)
    (here : s.pc tid = .turn false) (th : PthreadT) (threadFunc : ThreadFunc) :
    Offers o s (sched.create o th threadFunc) := by
  obtain ⟨s', leads, isSched, grows, pcs⟩ := offers
  have there : s'.pc tid = .turn false := by
    rw [pcs tid, if_neg fun both => Nat.not_le.mpr alive both.1, here]
  obtain ⟨uses, ran, sane⟩ := id leads
  subst isSched
  have created : s'.threadStep o tid (.create th threadFunc) =
      some (s'.goto s'.sched.tm.nthread (s'.sched.create o th threadFunc) .away) := by
    rw [threadStep_turn there, turnStep]
  have grown := @create_nthread o s'.sched th threadFunc
  refine ⟨_, leads.trans (sane.leads rr rfl created sane.running sane.idleDone), rfl, ?_, fun t => ?_⟩
  · rw [grown]
    exact Nat.le_succ_of_le grows
  · show _ = if s.sched.tm.nthread ≤ t ∧ t < (s'.sched.create o th threadFunc).tm.nthread then _ else _
    rw [grown]
    by_cases isNew : t = s'.sched.tm.nthread
    · subst isNew
      rw [goto_pc_self, if_pos ⟨grows, Nat.lt_succ_self _⟩]
    · rw [goto_pc_of_ne isNew, pcs t]
      have sameTest : (s.sched.tm.nthread ≤ t ∧ t < s'.sched.tm.nthread + 1) ↔
          (s.sched.tm.nthread ≤ t ∧ t < s'.sched.tm.nthread) :=
        and_congr_right fun _ =>
          ⟨fun lt => Nat.lt_of_le_of_ne (Nat.le_of_lt_succ lt) isNew, Nat.lt_succ_of_lt⟩
      simp only [sameTest]

/-- **What the operations of a turn can do is uses.** -/
theorem offers_keeps (rr : o.RoundRobin) (sane : s.Sane o) (here : s.pc tid = .turn false)
    (chan : Option Chan) : Keeps (Sched.serializer o) chan (Offers o s) := by
  have alive : tid < s.sched.tm.nthread := sane.tid_lt (by rw [here]; rfl)
  refine ⟨fun sched chan all _ offers => ?_, fun sched offers => ?_, fun sched th threadFunc offers => ?_,
    fun sched th offers => ?_⟩
  · refine offers.operation alive here (Same.frame.signal chan all).nthread fun s' sane' isSched there => ?_
    subst isSched
    refine @Sane.leads o s' _ tid rr sane' (.signal chan all) rfl ?_ sane'.running sane'.idleDone
    rw [threadStep_turn there, turnStep]
    rfl
  · refine offers.operation alive here (Calm.incTurnCount sched).nthread fun s' sane' isSched there => ?_
    subst isSched
    exact sane'.counts rr there
  · exact offers.create rr alive here th threadFunc
  · refine offers.operation alive here rfl fun s' sane' isSched there => ?_
    subst isSched
    exact sane'.reaps there th

end Sys

end Steps

/-! ### How a turn is given up -/

/-- A sleep computes its timeout from the turn count; only `nanosleep` of a null pointer has no time. -/
theorem turn_sleeps {σ : Type} {S : Serializer σ} {o : Options} {tid : Tid} {e : Env σ} {stage : Stage}
    {timeout : Nat} {next : Stage} (parks : (turn S o tid e stage).2 = .wait none timeout next) :
    (turn S o tid e stage).1 = e ∧ ∃ reltime turns,
      relTimeToTurn o (S.core e.sched).tm.nthread reltime = some turns ∧
      timeout = ((S.core e.sched).getTurnCount + turns) % unsignedMod ∧
      (reltime = none → stage = .called (.nanosleep none)) := by
  have awaits : stage.awaits = none := by
    have waitsOn := @turn_waitsOn σ S o tid e stage
    rw [parks] at waitsOn
    exact waitsOn.symm
  have slept : ∀ reltime, (sleepFor S o e reltime).2 = .wait none timeout next →
      (sleepFor S o e reltime).1 = e ∧ ∃ turns,
        relTimeToTurn o (S.core e.sched).tm.nthread reltime = some turns ∧
        timeout = ((S.core e.sched).getTurnCount + turns) % unsignedMod := by
    intro reltime parks
    unfold sleepFor at parks ⊢
    split at parks
    · rename_i timed
      rw [if_pos timed]
      split at parks
      · rename_i last isLast
        obtain ⟨turns, isTurns, rfl⟩ := Option.map_eq_some_iff.mp isLast
        cases parks
        exact ⟨rfl, turns, isTurns, rfl⟩
      · cases parks
    · cases parks
  cases stage with
  | called call =>
    cases call with
    | sleep seconds =>
      obtain ⟨same, turns, isTurns, isTimeout⟩ := slept _ parks
      exact ⟨same, _, turns, isTurns, isTimeout, fun isNone => absurd isNone (Option.some_ne_none _)⟩
    | usleep usec =>
      obtain ⟨same, turns, isTurns, isTimeout⟩ := slept _ parks
      exact ⟨same, _, turns, isTurns, isTimeout, fun isNone => absurd isNone (Option.some_ne_none _)⟩
    | nanosleep req =>
      obtain ⟨same, turns, isTurns, isTimeout⟩ := slept _ parks
      exact ⟨same, _, turns, isTurns, isTimeout, fun isNone => by rw [isNone]⟩
    | join _ | mutexLock _ | mutexTimedLock _ _ _ | rdlock _ | wrlock _ | barrierWait _ | condWait _ _ _
    | condTimedWait _ _ _ _ _ | semWait _ | semTimedWait _ _ _ | lineupStart _ => cases awaits
    | mutexTryLock mu | tryrdlock rw | trywrlock rw =>
      simp only [turn, callTurn, tryOnce] at parks
      split at parks <;> cases parks
    | semTryWait sem =>
      simp only [turn, callTurn, semTryWait] at parks
      split at parks <;> cases parks
    | lineupEnd opaqueType =>
      simp only [turn, callTurn, lineupEnd] at parks
      split at parks <;> cases parks
    | _ => cases parks
  | retry _ | condWoken _ _ _ _ | joining _ => cases awaits
  | lineupWoken opaqueType =>
    simp only [turn, lineupWoken] at parks
    split at parks
    · cases parks
    · split at parks <;> cases parks
  | barrierWoken _ | barrierLast _ | slept => cases parks

/-- What a step of the program must keep to: the source has room for so many threads, and a sleep without
a time comes after the first turn. -/
def Execution.Regular (p : Execution) (label : Tid × ThreadMove) : Prop :=
  p.sched.tm.nthread ≤ maxThreadNum ∧
    ((p.thread label.1).site = .turn (.called (.nanosleep none)) → 0 < p.sched.turnCount)

instance (p : Execution) (label : Tid × ThreadMove) : Decidable (p.Regular label) :=
  inferInstanceAs (Decidable (_ ∧ (_ → _)))

/-- A sleep is not too long for the turn counter, and not for ever. -/
theorem relTimeToTurn_range {o : Options} {nthread turns : Nat} {reltime : Option Timespec}
    (few : nthread ≤ maxThreadNum) (isTurns : relTimeToTurn o nthread reltime = some turns) :
    turns ≤ maxRel ∧ (reltime ≠ none → 0 < turns) := by
  cases reltime with
  | none =>
    cases isTurns
    exact ⟨Nat.zero_le _, fun some => absurd rfl some⟩
  | some reltime =>
    obtain ⟨ret, isRet, clamped⟩ := Option.map_eq_some_iff.mp isTurns
    have most : ret ≤ maxRel := by
      unfold time2turn at isRet
      split at isRet
      · cases isRet
      · split at isRet <;> cases isRet
        · exact Nat.le_refl _
        · omega
    unfold maxThreadNum at few
    unfold maxRel at most ⊢
    split at clamped <;> exact ⟨by omega, fun _ => by omega⟩

section GiveUp

variable {o : Options} {s : Sys} {tid : Tid} {e : Env Sched} {act : Act}

/-- **However the turn is given up, the thread gets out of it by uses.** -/
theorem gets_of_giveUp (rr : o.RoundRobin) (sane : s.Sane o) (here : s.pc tid = .turn false)
    (isSched : s.sched = e.sched) {finish : Finish} (gave : Act.giveUp o tid e finish = some act)
    (sleeps : ∀ timeout next, finish = .wait none timeout next → ∃ turns,
      timeout = (e.sched.getTurnCount + turns) % unsignedMod ∧ turns ≤ maxRel ∧
        0 < e.sched.turnCount + turns) :
    Gets o s tid act.env.sched act.site := by
  rw [← isSched] at sleeps
  have counted := sane.counts rr here
  obtain ⟨-, -, sane'⟩ := id counted
  cases finish with
  | done isCreate result =>
    obtain ⟨sched, put, rfl⟩ := Option.map_eq_some_iff.mp gave
    rw [← isSched] at put
    exact Gets.after counted (Sane.putsTurn rr sane' here put (.leaving _ _ _ .returning))
  | wait chan timeout stage =>
    obtain ⟨sched, waits, rfl⟩ := Option.map_eq_some_iff.mp gave
    rw [← isSched] at waits
    cases chan with
    | some chan =>
      refine @Sane.moves o s tid sched _ rr sane (.wait chan timeout []) _ rfl ?_ (.leaving _ _ _ (.inside stage))
      rw [threadStep_turn here, turnStep, if_pos sane.perm, waits]
      rfl
    | none =>
      obtain ⟨turns, isTimeout, short, counting⟩ := sleeps timeout stage rfl
      refine @Sane.moves o s tid sched _ rr sane (.sleep turns []) _ rfl ?_ (.leaving _ _ _ (.inside stage))
      rw [threadStep_turn here, turnStep, if_pos ⟨sane.perm, short, counting⟩]
      dsimp only
      rw [← isTimeout, waits]
      rfl
  | bounce stage =>
    obtain ⟨sched, put, rfl⟩ := Option.map_eq_some_iff.mp gave
    rw [← isSched] at put
    exact Sane.putsTurn rr sane here put (.bounced _ _ _ stage)
  | ended =>
    obtain ⟨sched, put, rfl⟩ := Option.map_eq_some_iff.mp gave
    rw [← isSched] at put
    refine @Sane.moves o s tid sched _ rr sane (.endThread []) _ rfl ?_ (.leaving _ _ _ .dead)
    rw [threadStep_turn here, turnStep, if_pos sane.perm, put]
    rfl
  | release =>
    obtain ⟨sched, put, rfl⟩ := Option.map_eq_some_iff.mp gave
    rw [← isSched] at put
    exact Gets.after counted (Sane.putsTurn rr sane' here put (.leaving _ _ _ .outside))
  | idle =>
    simp only [Act.giveUp] at gave
    split at gave
    · rename_i isIdle
      rw [← isSched] at gave
      split at gave
      · rename_i many
        cases gave
        refine @Sane.moves o s tid _ _ rr sane (.idleCondWait []) (.trying _) rfl ?_ (.trying _)
        rw [threadStep_turn here, turnStep, if_pos ⟨sane.perm, isIdle⟩]
        dsimp only
        rw [if_pos many]
      · rename_i few
        obtain ⟨sched, put, rfl⟩ := Option.map_eq_some_iff.mp gave
        refine @Sane.moves o s tid sched _ rr sane (.idleCondWait []) _ rfl ?_ (.leaving _ _ _ .outside)
        rw [threadStep_turn here, turnStep, if_pos ⟨sane.perm, isIdle⟩]
        dsimp only
        rw [if_neg few, put]
        rfl
    · cases gave
  | exit => cases gave

end GiveUp

/-! ### Inside `next` -/

section Next

variable {o : Options} {s s' : Sys} {tid : Tid} {e : Env Sched} {act : Act}

namespace Sys

/-- `next` has returned; the last thread at a barrier calls `getTurn`. -/
theorem Gets.returned (rr : o.RoundRobin) (leads : Leads o s s') {sched : Sched} (isSched : s'.sched = sched)
    (others : ∀ t, t ≠ tid → s'.pc t = s.pc t) {phase : Phase} {atThreadEnd : Bool} {strategy : Strategy}
    {after : After} {spot : Option Spot} (here : s'.pc tid = after.pc)
    (fits : (Pc.leaving phase atThreadEnd strategy after).Fits (.leaving phase atThreadEnd strategy spot)) :
    Gets o s tid sched (.off spot) := by
  cases fits with
  | leaving _ _ _ fits => exact ⟨s', leads, isSched, .off here fits, others⟩
  | bounced _ _ _ stage =>
    obtain ⟨-, -, sane⟩ := id leads
    have called : s'.threadStep o tid .getTurn = some (s'.goto tid s'.sched (.waiting false)) := by
      unfold threadStep
      rw [here]
      rfl
    refine ⟨_, leads.trans (sane.leads rr rfl called sane.running sane.idleDone), isSched, ?_, fun t other => ?_⟩
    · rw [goto_pc_self]
      exact .off rfl (.inside stage)
    · rw [goto_pc_of_ne other, others t other]

theorem threadStep_leaving {phase : Phase} {atThreadEnd : Bool} {strategy : Strategy} {after : After}
    (here : s.pc tid = .leaving phase atThreadEnd strategy after) (action : Action) :
    s.threadStep o tid action = s.leaveStep o tid phase atThreadEnd strategy after action := by
  unfold threadStep
  rw [here]

/-- **Inside `next` the thread goes on by uses.** -/
theorem gets_of_leaving (rr : o.RoundRobin) (sane : s.Sane o) (isSched : s.sched = e.sched) {phase : Phase}
    {atThreadEnd : Bool} {strategy : Strategy} {after : After} {spot : Option Spot}
    (here : s.pc tid = .leaving phase atThreadEnd strategy after)
    (fits : (Pc.leaving phase atThreadEnd strategy after).Fits (.leaving phase atThreadEnd strategy spot))
    (left : Act.leaving o tid e atThreadEnd strategy spot phase = some act) :
    Gets o s tid act.env.sched act.site := by
  cases phase with
  | checking =>
    cases left
    refine @Sane.moves o s tid _ _ rr sane (.checkWakeup []) _ rfl ?_ fits.relocate
    rw [threadStep_leaving here, leaveStep, if_pos ⟨rfl, sane.perm⟩, if_pos rr.nonneg, isSched]
  | picking =>
    have picked : s.threadStep o tid .nextRunnable = some (s.picked tid atThreadEnd strategy after
        (e.sched.nextRunnable o false tid atThreadEnd strategy)) := by
      rw [threadStep_leaving here, leaveStep, if_pos rfl, sane.idleDone, isSched]
    replace left : Act.picked e atThreadEnd strategy spot
      (e.sched.nextRunnable o false tid atThreadEnd strategy) = some act := left
    generalize e.sched.nextRunnable o false tid atThreadEnd strategy = pick at picked left
    cases pick with
    | again sched strategy' =>
      cases left
      exact sane.moves rr rfl picked fits.relocate
    | grant sched next =>
      cases left
      exact sane.moves rr rfl picked fits.relocate
    | invalid =>
      cases left
      refine Gets.returned rr (sane.leads rr rfl picked (Or.inr rfl) sane.idleDone) isSched (fun t other => ?_) ?_ fits
      · exact @goto_pc_of_ne s s.sched after.pc tid t other
      · exact @goto_pc_self s s.sched after.pc tid
    | exit | threadExit | crash => cases left
  | posting next =>
    cases left
    have posted : s.threadStep o tid .post = some (s.goto tid (s.sched.post o next) after.pc) := by
      rw [threadStep_leaving here, leaveStep]
    refine Gets.returned rr (sane.leads rr rfl posted sane.running sane.idleDone) ?_ (fun t other => ?_) ?_ fits
    · exact congrArg (Sched.post o · next) isSched
    · exact goto_pc_of_ne other
    · exact goto_pc_self

/-- One look of `tryPutTurn`. -/
theorem gets_of_trying (rr : o.RoundRobin) (sane : s.Sane o) (isSched : s.sched = e.sched) {cur : Option Tid}
    (here : s.pc tid = .trying cur) (looked : Act.trying o tid e cur = some act) :
    Gets o s tid act.env.sched act.site := by
  have tries : s.threadStep o tid .tryElem = some (s.tryStep o tid cur) := by
    unfold threadStep
    rw [here]
  rw [tryStep.eq_def, isSched] at tries
  cases cur with
  | none =>
    obtain ⟨sched, put, rfl⟩ := Option.map_eq_some_iff.mp looked
    rw [put] at tries
    exact sane.moves rr rfl tries (.leaving _ _ _ .outside)
  | some cur =>
    simp only [Act.trying] at looked
    dsimp only at tries
    split at looked
    · rename_i runnable
      rw [if_pos runnable] at tries
      obtain ⟨sched, waits, rfl⟩ := Option.map_eq_some_iff.mp looked
      rw [waits] at tries
      exact sane.moves rr rfl tries (.leaving _ _ _ .idling)
    · rename_i stopped
      rw [if_neg stopped] at tries
      cases looked
      exact sane.moves rr rfl tries (.trying _)

end Sys

end Next

/-! ### Every step, and every run -/

namespace Execution

namespace Uses

variable {o : Options} {program : Program} {handle : Tid → PthreadT} {p p' : Execution} {s : Sys} {tid : Tid}
  {act : Act}

open Single (put_site_self)

theorem put_thread_of_ne {t : Tid} (other : t ≠ tid) : (p.put tid act).thread t = p.bear act.born t :=
  Function.update_of_ne other _ _

/-- The thread that is created is outside. -/
theorem bear (uses : p.Uses o s) (born : Option Code) (t : Tid) :
    (if p.sched.tm.nthread ≤ t ∧ t < p.sched.tm.nthread + born.toList.length then Pc.away else s.pc t).Fits
      (p.bear born t).site := by
  cases born with
  | none =>
    rw [if_neg fun both => Nat.not_lt.mpr both.1 both.2]
    exact uses.fits t
  | some code =>
    show (if p.sched.tm.nthread ≤ t ∧ t < p.sched.tm.nthread + 1 then Pc.away else s.pc t).Fits
      (Function.update p.thread p.sched.tm.nthread _ t).site
    by_cases isNew : t = p.sched.tm.nthread
    · rw [isNew, if_pos ⟨Nat.le_refl _, Nat.lt_succ_self _⟩, Function.update_self]
      exact .off rfl .outside
    · rw [if_neg fun both => isNew (Nat.le_antisymm (Nat.le_of_lt_succ both.2) both.1), Function.update_of_ne isNew]
      exact uses.fits t

/-- The thread gets to the site where the step leaves it, and nobody is born. -/
theorem put (uses : p.Uses o s) (gets : Gets o s tid act.env.sched act.site) (born : act.born = none) :
    ∃ s', Leads o s s' ∧ (p.put tid act).Uses o s' := by
  obtain ⟨s', leads, isSched, fits, others⟩ := gets
  obtain ⟨-, -, sane⟩ := id leads
  refine ⟨s', leads, sane, isSched, fun t => ?_⟩
  by_cases same : t = tid
  · rw [same, put_site_self]
    exact fits
  · rw [others t same]
    rw [put_thread_of_ne same, born]
    exact uses.fits t

/-- **A turn.** The thread that it creates is outside. -/
theorem ofTurn (rr : o.RoundRobin) (uses : p.Uses o s) (there : s.pc tid = .turn false) {stage : Stage}
    (few : p.sched.tm.nthread ≤ maxThreadNum)
    (counting : stage = .called (.nanosleep none) → 0 < p.sched.turnCount) {th : PthreadT}
    (took : Act.ofTurn o th tid (p.env tid) stage = some act) :
    ∃ s', Leads o s s' ∧ (p.put tid act).Uses o s' := by
  have grown := (Act.ofTurn_posts took).2.nthread
  obtain ⟨given, gave, rfl⟩ := Option.map_eq_some_iff.mp took
  obtain ⟨s', leads, isSched, -, pcs⟩ : Offers o s _ := @turn_keeps
    _ _ o tid (p.env tid) _ _ (offers_keeps rr uses.sane there (stage.withHandle th).signals)
    (uses.sched ▸ Offers.refl uses.sane : Offers o s p.sched)
  have alive : tid < s.sched.tm.nthread := uses.sane.tid_lt (by rw [there]; rfl)
  have there' : s'.pc tid = .turn false := by
    rw [pcs tid, if_neg fun both => Nat.not_le.mpr alive both.1, there]
  obtain ⟨-, -, sane'⟩ := id leads
  have gets := gets_of_giveUp rr sane' there' isSched gave fun timeout next parks => by
    obtain ⟨same, reltime, turns, isTurns, isTimeout, isNull⟩ := turn_sleeps parks
    rw [same]
    obtain ⟨short, positive⟩ := relTimeToTurn_range few isTurns
    refine ⟨turns, isTimeout, short, ?_⟩
    by_cases null : reltime = none
    · have isSleep : stage = .called (.nanosleep none) := by
        have same := isNull null
        unfold Stage.withHandle at same
        split at same
        · cases same
        · cases same
        · exact same
      exact Nat.add_pos_left (counting isSleep) _
    · exact Nat.add_pos_right _ (positive null)
  obtain ⟨s'', leads'', isSched'', fits, others⟩ := gets
  obtain ⟨-, -, sane''⟩ := id leads''
  have nthread := (Act.giveUp_calm gave).1.nthread
  refine ⟨s'', leads.trans leads'', sane'', isSched'', fun t => ?_⟩
  by_cases same : t = tid
  · rw [same, put_site_self]
    exact fits
  · have length : (MinSmt.turn (Sched.serializer o) o tid (p.env tid) (stage.withHandle th)).1.sched.tm.nthread =
        p.sched.tm.nthread + stage.bears.toList.length := nthread.symm.trans grown
    rw [others t same, pcs t, put_thread_of_ne same, length, uses.sched]
    show (ite _ _ _ : Pc).Fits (p.bear (stage.withHandle th).bears t).site
    rw [Act.bears_withHandle]
    exact uses.bear stage.bears t

/-- One thread moves without the scheduler. -/
theorem move (uses : p.Uses o s) (leads : Leads o s s') (isSched : s'.sched = s.sched) {th : Thread}
    (fits : (s'.pc tid).Fits th.site) (others : ∀ t, t ≠ tid → s'.pc t = s.pc t) : (p.move tid th).Uses o s' := by
  obtain ⟨-, -, sane⟩ := leads
  refine ⟨sane, isSched.trans uses.sched, fun t => ?_⟩
  show (s'.pc t).Fits (Function.update p.thread tid th t).site
  by_cases same : t = tid
  · rw [same, Function.update_self]
    exact fits
  · rw [Function.update_of_ne same, others t same]
    exact uses.fits t

/-- The thread of a site. -/
theorem fits_of_site (uses : p.Uses o s) {site : Site} (here : (p.thread tid).site = site) :
    (s.pc tid).Fits site := here ▸ uses.fits tid

/-- **The turn holder goes on by uses.** -/
theorem go (rr : o.RoundRobin) (uses : p.Uses o s) (regular : p.Regular (tid, .go))
    (acted : p.act o handle tid = some act) : ∃ s', Leads o s s' ∧ (p.put tid act).Uses o s' := by
  have born := (Act.act_does acted).2.born
  unfold Execution.act at acted
  cases here : (p.thread tid).site with
  | off spot =>
    rw [here] at acted born
    cases spot with
    | none => cases acted
    | some spot =>
      cases spot with
      | outside | returning => cases acted
      | inside stage =>
        obtain ⟨sched, took, rfl⟩ := Option.map_eq_some_iff.mp acted
        obtain ⟨after, there, fits⟩ := (uses.fits_of_site here).of_off
        cases fits
        refine uses.put (@Sane.moves o s tid sched _ rr uses.sane .gotTurn _ rfl ?_ (.turn stage)) born
        unfold threadStep
        rw [there, uses.sched]
        exact congrArg (Option.map _) took
  | turn stage =>
    rw [here] at acted
    refine uses.ofTurn rr (uses.fits_of_site here).of_turn regular.1 (fun isSleep => regular.2 ?_) acted
    rw [here, isSleep]
  | trying cur =>
    rw [here] at acted born
    have there := (uses.fits_of_site here).of_trying
    exact uses.put (gets_of_trying rr uses.sane uses.sched there acted) born
  | leaving phase atThreadEnd strategy spot =>
    rw [here] at acted born
    have fits := uses.fits_of_site here
    obtain ⟨after, there⟩ := fits.of_leaving
    exact uses.put (gets_of_leaving rr uses.sane uses.sched there (there ▸ fits) acted) born

/-- The thread comes to `getTurn`. -/
theorem arrive (rr : o.RoundRobin) (uses : p.Uses o s) {th : Thread}
    (arrived : (p.thread tid).arrive o program handle = some th) :
    ∃ s', Leads o s s' ∧ (p.move tid th).Uses o s' := by
  unfold Thread.arrive at arrived
  split at arrived
  · rename_i here
    cases arrived
    have called : s.threadStep o tid .getTurn = some (s.goto tid s.sched (.waiting false)) := by
      obtain ⟨after, there, fits⟩ := (uses.fits_of_site here).of_off
      unfold threadStep
      cases fits <;> rw [there] <;> rfl
    have leads := uses.sane.leads rr rfl called uses.sane.running uses.sane.idleDone
    refine ⟨_, leads, uses.move leads rfl ?_ fun t other => goto_pc_of_ne other⟩
    rw [goto_pc_self]
    exact .off rfl (.inside _)
  · cases arrived

/-- The wrapper returns. -/
theorem finish (uses : p.Uses o s) {th : Thread} (finished : (p.thread tid).finish o p.shared = some th) :
    (p.move tid th).Uses o s := by
  unfold Thread.finish at finished
  split at finished
  · rename_i here
    cases finished
    refine uses.move (Leads.refl uses.sane) rfl ?_ fun _ _ => rfl
    obtain ⟨after, there, fits⟩ := (uses.fits_of_site here).of_off
    cases fits
    exact .off there .outside
  · cases finished

/-- **Every step of a program is uses.** -/
theorem step (rr : o.RoundRobin) (uses : p.Uses o s) {label : Tid × ThreadMove} (regular : p.Regular label)
    (stepped : p.step o program handle label = some p') : ∃ s', Leads o s s' ∧ p'.Uses o s' := by
  obtain ⟨tid, threadMove⟩ := label
  cases threadMove with
  | finish =>
    obtain ⟨th, finished, rfl⟩ := Option.map_eq_some_iff.mp stepped
    exact ⟨s, Leads.refl uses.sane, uses.finish finished⟩
  | arrive =>
    obtain ⟨th, arrived, rfl⟩ := Option.map_eq_some_iff.mp stepped
    exact uses.arrive rr arrived
  | go =>
    obtain ⟨act, acted, rfl⟩ := Option.map_eq_some_iff.mp stepped
    exact uses.go rr regular acted

theorem initial (rr : o.RoundRobin) (handle : Tid → PthreadT) :
    (Execution.init o handle).Uses o (Sys.init o (handle mainThreadTid)) := by
  refine ⟨⟨⟨_, _, _, Inv.initial rr _⟩, Or.inl rfl, rfl⟩, rfl, fun t => ?_⟩
  show (Function.update (fun _ => Pc.dead) mainThreadTid Pc.away t).Fits
    (Function.update (fun _ => ({} : Thread)) mainThreadTid { site := .off (some .outside) } t).site
  by_cases isMain : t = mainThreadTid
  · rw [isMain, Function.update_self, Function.update_self]
    exact .off rfl .outside
  · rw [Function.update_of_ne isMain, Function.update_of_ne isMain]
    exact .off rfl .dead

/-- A run of a program is a run of uses. -/
theorem run (rr : o.RoundRobin) {labels : List (Tid × ThreadMove)} (uses : p.Uses o s)
    (regular : Along (Execution.step o program handle) Regular p labels)
    (ran : exec (Execution.step o program handle) p labels = some p') : ∃ s', Leads o s s' ∧ p'.Uses o s' := by
  refine exec_invariant (fun p => ∃ s', Leads o s s' ∧ p.Uses o s') (fun p label next related fine stepped => ?_)
    ⟨s, Leads.refl uses.sane, uses⟩ regular ran
  obtain ⟨s', leads, uses'⟩ := related
  obtain ⟨s'', leads', uses''⟩ := uses'.step rr fine stepped
  exact ⟨s'', leads.trans leads', uses''⟩

end Uses

end Execution

section Programs

variable (o : Options) (rr : o.RoundRobin) (program : Program) (handle : Tid → PthreadT)
  (labels : List (Tid × ThreadMove))
  (regular : Along (Execution.step o program handle) Execution.Regular (Execution.init o handle) labels)
  (p : Execution) (ran : exec (Execution.step o program handle) (Execution.init o handle) labels = some p)

include rr regular ran

/-- **Every run of a program on the wrappers is a run of the scheduler**: with the same scheduler at its end,
and every thread where the program has it. -/
theorem program_uses_scheduler :
    ∃ uses s, exec (Sys.use o) (Sys.init o (handle mainThreadTid)) uses = some s ∧ s.sched = p.sched ∧
      ∀ t, (s.pc t).Fits (p.thread t).site := by
  obtain ⟨s, ⟨uses, ran', -⟩, related⟩ := (Execution.Uses.initial rr handle).run rr regular ran
  exact ⟨uses, s, ran', related.sched, related.fits⟩

end Programs

/-- The main thread creates a thread and sleeps; the thread locks a mutex and unlocks it. -/
def sleepProgram : Program := fun code results =>
  let calls : List Call :=
    match code.1 with
    | 0 => [.threadBegin, .create 0 7 0, .sleep 1]
    | _ => [.threadBegin, .mutexLock 4, .mutexUnlock 4]
  ([], (calls[results.length]?).getD .dummySync)

/-- The main thread sleeps while the other one has the mutex. -/
def sleepRun : List (Tid × ThreadMove) :=
  [0, 0, 1].flatMap callLabels ++ (0, .arrive) :: goLabels 0 ++ callLabels 1

theorem program_uses_scheduler_sleepRun :
    ∃ p, exec (Execution.step {} sleepProgram id) (Execution.init {} id) sleepRun = some p ∧
      (p.thread 0).site = .off (some (.inside .slept)) ∧
      ∃ uses s, exec (Sys.use {}) (Sys.init {} 0) uses = some s ∧ s.sched = p.sched ∧ s.pc 0 = .waiting false := by
  obtain ⟨p, ran, isSleeping⟩ := @exec_of_any _ _ (Execution.step {} sleepProgram id) (Execution.init {} id) sleepRun
    (fun p => decide ((p.thread 0).site = .off (some (.inside .slept)))) (by decide +kernel)
  have here : (p.thread 0).site = .off (some (.inside .slept)) := of_decide_eq_true isSleeping
  obtain ⟨uses, s, ran', sched, fits⟩ :=
    program_uses_scheduler {} (by decide) sleepProgram id sleepRun (by decide +kernel) p ran
  obtain ⟨after, isPc, fits'⟩ := (here ▸ fits 0).of_off
  cases fits'
  exact ⟨p, ran, here, uses, s, ran', sched, isPc⟩

section Programs

variable (o : Options) (rr : o.RoundRobin) (program : Program) (handle : Tid → PthreadT)
  (labels : List (Tid × ThreadMove))
  (regular : Along (Execution.step o program handle) Execution.Regular (Execution.init o handle) labels)
  (p : Execution) (ran : exec (Execution.step o program handle) (Execution.init o handle) labels = some p)

include rr regular ran

end Programs

end MinSmt
