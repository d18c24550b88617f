/-
**Condition variables** (`pthreadCondWait`, `pthreadCondTimedWait`, `pthreadCondSignal`,
`pthreadCondBroadcast`).

The wrappers never call the library: a condition variable is a channel of the wait queue, which it
shares with mutexes, barriers, joins and sleeps. The deadline of a timed wait is a 32-bit number of
turns, and so is the turn count; where their sum wraps around, a thread that has just begun to wait is
overdue at once, and a signal may then take a thread that `fireTimeouts` would have called timed out.

* `CondStep` — what one step may do to the threads that wait on a condition variable.
* `Prompt` — no thread that waits on a condition variable is overdue.
* `DeadlineFits` — the deadline of a timed wait does not wrap around.
* **`cond_vars`** — in every run whose deadlines fit, every step does what `CondStep` says.
* `overdue_waiter_is_signalled` — a run of four billion turns in which a signal takes an overdue thread.
-/

import MinSmt.Runtime.Waiters

namespace MinSmt

open MinSmt.Library

/-- The condition variable and the mutex of a wait that begins. -/
def Stage.condWaits : Stage → Option (Nat × Nat)
  | .called (.condWait cv mu _) => some (cv, mu)
  | .called (.condTimedWait cv mu _ _ _) => some (cv, mu)
  | _ => none

/-- The relative time of a timed wait that begins. -/
def Stage.condReltime : Stage → Option Timespec
  | .called (.condTimedWait _ _ _ cur (some abstime)) => some (timeDiff cur abstime)
  | _ => none

namespace Recorder

/-- **What one step may do to the threads that wait on a condition variable.** -/
structure CondStep (o : Options) (cv : Nat) (r : Recorder) (tid : Tid) (stage : Option Stage)
    (r' : Recorder) : Prop where
  /-- Threads enter at the back, and those that stay keep their order. -/
  order : ∃ kept joined, kept.Sublist (r.core.waiters (.cond cv)) ∧
    r'.core.waiters (.cond cv) = kept ++ joined ∧ (joined = [] ∨ joined = [tid])
  /-- The mutex is released and the thread enqueued in one turn. -/
  enters : ∀ mu, stage.bind Stage.condWaits = some (cv, mu) →
    r'.shared.mutex mu = ((r.shared.mutex mu).unlock tid).1 ∧ tid ∈ r'.core.waiters (.cond cv)
  /-- A thread leaves by a signal or a broadcast or, from a timed wait, by its deadline. -/
  leaves : ∀ t ∈ r.core.waiters (.cond cv), t ∉ r'.core.waiters (.cond cv) → t ∉ r'.core.waitq ∧
    (((r'.core.waits t).wakeReason = .signal ∧
        (stage = some (.called (.condSignal cv)) ∨ stage = some (.called (.condBroadcast cv)))) ∨
      ((r'.core.waits t).wakeReason = .timedout ∧
        ∃ mu role, r.spot t = .inside (.condWoken true cv mu role)))
  /-- A signal takes the first thread, which is not overdue, and no other. -/
  signals : stage = some (.called (.condSignal cv)) → ∀ first rest,
    r.core.waiters (.cond cv) = first :: rest →
    first ∉ r'.core.waitq ∧ (r'.core.waits first).wakeReason = .signal ∧
      ¬ (r.core.waits first).timeout < r.core.turnCount ∧
      ∀ t ∈ rest, t ∈ r'.core.waiters (.cond cv) ∨
        (t ∉ r'.core.waitq ∧ (r'.core.waits t).wakeReason = .timedout)
  /-- A broadcast takes all of them, in their order. -/
  broadcasts : stage = some (.called (.condBroadcast cv)) →
    r'.core.waiters (.cond cv) = [] ∧
      (r.core.signal (.cond cv) true).2 = r.core.waiters (.cond cv) ∧
      ∀ t ∈ r.core.waiters (.cond cv), t ∉ r'.core.waitq ∧ (r'.core.waits t).wakeReason = .signal
  /-- A wait that returns has the mutex. -/
  returns : ∀ mu isCreate result, stage.bind Stage.relocks = some mu →
    (∃ s ∈ stage, (r.turnOf o tid s).2 = .done isCreate result) →
    (r'.shared.mutex mu).owner = some tid

/-- No thread that waits on a condition variable is overdue. -/
structure Prompt (c : Core) : Prop where
  small : c.turnCount < unsignedMod
  late : ∀ t ∈ c.waitq, ∀ cv, (c.waits t).chan = some (.cond cv) → c.turnCount ≤ (c.waits t).timeout

/-- **The deadline of a timed wait does not wrap around**, or the turn count does so together with
it. -/
def DeadlineFits (o : Options) (r : Recorder) (label : Tid × Move) : Prop :=
  ∀ reltime ∈ (r.stageOf label.1 label.2).bind Stage.condReltime,
    ∀ turns ∈ relTimeToTurn o r.core.tm.nthread (some reltime),
      r.core.turnCount + turns < unsignedMod ∨
        (unsignedMod ≤ r.core.turnCount + 2 ∧ turns < unsignedMod)

instance (o : Options) (r : Recorder) (label : Tid × Move) : Decidable (DeadlineFits o r label) :=
  inferInstanceAs (Decidable (∀ _ ∈ _, ∀ _ ∈ _, _))

variable {o : Options} {cv : Nat} {r r' : Recorder} {tid : Tid} {stage : Stage}

/-! ### The parts of a step -/

/-- A thread that waits on a condition variable is in a wait on it. -/
theorem spot_of_cond (sound : Sound r.core r.spot) {t : Tid}
    (waits : t ∈ r.core.waiters (.cond cv)) :
    ∃ timed mu role, r.spot t = .inside (.condWoken timed cv mu role) ∧
      (timed = false → (r.core.waits t).timeout = forever) := by
  obtain ⟨inside, isCond⟩ := mem_waiters.mp waits
  have parked := sound.parked t inside
  cases spot : r.spot t with
  | outside =>
    rw [spot] at parked
    have idle := parked.1
    rw [isCond] at idle
    cases idle
  | returning =>
    rw [spot] at parked
    exact parked.elim
  | inside stage =>
    rw [spot] at parked
    obtain ⟨-, same, last⟩ := parked
    rw [isCond] at same
    cases stage with
    | condWoken timed cv' mu role =>
      cases same
      refine ⟨timed, mu, role, rfl, ?_⟩
      rintro rfl
      exact last forever rfl
    | retry loop => cases loop <;> cases same
    | _ => cases same

/-- **How a thread leaves the queue of a condition variable.** -/
theorem leaves_of_turned (sound : Sound r.core r.spot) {chan : Option Chan} {c : Core}
    (ops : Core.Turned chan r.core c) {t : Tid} (waits : t ∈ r.core.waiters (.cond cv))
    (gone : t ∉ c.waitq) :
    ((c.waits t).wakeReason = .signal ∧ chan = some (.cond cv)) ∨
      ((c.waits t).wakeReason = .timedout ∧
        ∃ mu role, r.spot t = .inside (.condWoken true cv mu role)) := by
  obtain ⟨inside, isCond⟩ := mem_waiters.mp waits
  rcases ops.gone t inside gone with ⟨signalled, -, isChan⟩ | ⟨fired, ticks, -, late⟩
  · exact Or.inl ⟨signalled, isChan.symm.trans isCond⟩
  · refine Or.inr ⟨fired, ?_⟩
    obtain ⟨timed, mu, role, spot, patient⟩ := spot_of_cond sound waits
    cases timed with
    | true => exact ⟨mu, role, spot⟩
    | false =>
      rw [patient rfl] at late
      unfold forever unsignedMod at late
      omega

/-- Only a signal and a broadcast signal on a condition variable. -/
theorem stage_of_signalled (signals : r.signalled tid stage = some (.cond cv)) :
    stage = .called (.condSignal cv) ∨ stage = .called (.condBroadcast cv) := by
  unfold signalled at signals
  split at signals
  · obtain ⟨th, -, isThread⟩ := Option.map_eq_some_iff.mp signals
    cases isThread
  · cases stage with
    | called call =>
      cases call with
      | condSignal cv' =>
        cases signals
        exact Or.inl rfl
      | condBroadcast cv' =>
        cases signals
        exact Or.inr rfl
      | _ => cases signals
    | _ => cases signals

/-- A wait that begins releases the mutex, and waits on the condition variable. -/
theorem condWaits_turn {mu : Nat} (isWait : stage.condWaits = some (cv, mu)) :
    (r.turnOf o tid stage).1.shared.mutex mu = ((r.shared.mutex mu).unlock tid).1 ∧
      ((r.turnOf o tid stage).2 = .exit ∨ (r.turnOf o tid stage).2.joins (.cond cv) tid = [tid]) := by
  have same : ∀ (sh : Shared) (role : AddrNRole),
      (noteWait o (sh.addCond cv 1) cv role).mutex mu = sh.mutex mu := fun sh role =>
    Object.mutex.inj (@object_noteWait _ (.mutex mu) o cv role)
  have waits : ∀ caller, (condWait (Core.serializer o.wakeamapPlus) o tid (r.env tid) cv mu
      caller).1.shared.mutex mu = ((r.shared.mutex mu).unlock tid).1 := by
    intro caller
    refine (Function.update_self _ _ _).trans ?_
    rw [same]
    rfl
  cases stage with
  | called call =>
    cases call with
    | condWait cv' mu' caller =>
      cases isWait
      exact ⟨waits caller, Or.inr (if_pos rfl)⟩
    | condTimedWait cv' mu' caller cur abstime =>
      cases isWait
      cases abstime with
      | none => exact ⟨waits caller, Or.inr (if_pos rfl)⟩
      | some abstime =>
        show (condTimedWait _ o tid (r.env tid) cv mu caller cur (some abstime)).1.shared.mutex mu = _ ∧
          ((condTimedWait _ o tid (r.env tid) cv mu caller cur (some abstime)).2 = .exit ∨
            (condTimedWait _ o tid (r.env tid) cv mu caller cur (some abstime)).2.joins (.cond cv)
              tid = [tid])
        unfold condTimedWait
        dsimp only
        split
        · refine ⟨(same _ _).trans (Function.update_self _ _ _), Or.inr (if_pos rfl)⟩
        · exact ⟨(same _ _).trans (Function.update_self _ _ _), Or.inl rfl⟩
    | _ => cases isWait
  | _ => cases isWait

/-- The end of a wait returns only with the mutex. -/
theorem owner_of_relock {mu : Nat} {isCreate : Bool} {result : Result}
    (relocks : stage.relocks = some mu)
    (done : (r.turnOf o tid stage).2 = .done isCreate result) :
    ((r.turnOf o tid stage).1.shared.mutex mu).owner = some tid := by
  have loops : ∀ (e : Env Core) (cv savedRet : Nat),
      ((Loop.relock cv mu savedRet).enter o tid e).2 = .done isCreate result →
      (((Loop.relock cv mu savedRet).enter o tid e).1.shared.mutex mu).owner = some tid := by
    intro e cv savedRet done
    cases got : (Loop.relock cv mu savedRet).attempt tid e.shared with
    | none =>
      rw [Loop.enter_of_none got] at done
      cases done
    | some shared =>
      rw [Loop.enter_of_some got, Loop.leave_shared]
      obtain ⟨m, taken, rfl⟩ := Option.map_eq_some_iff.mp got
      show (Function.update e.shared.mutex mu m mu).owner = _
      rw [Function.update_self]
      exact Mutex.owner_of_trylock taken
  cases stage with
  | condWoken timed cv mu' role =>
    cases relocks
    revert done
    show (condWoken _ o tid (r.env tid) timed cv mu role).2 = _ →
      ((condWoken _ o tid (r.env tid) timed cv mu role).1.shared.mutex mu).owner = _
    unfold condWoken
    split
    · exact loops _ cv _
    · exact loops _ cv _
  | retry loop =>
    have enters : r.turnOf o tid (.retry loop) = loop.enter o tid (r.env tid) :=
      Loop.resume_eq_enter (r.env tid) loop
    cases loop with
    | relock cv mu' savedRet =>
      cases relocks
      rw [enters] at done ⊢
      exact loops _ cv savedRet done
    | _ => cases relocks
  | _ => cases relocks

/-- The turn of a signal. -/
theorem condStep_signal (sound : Sound r.core r.spot) (prompt : Prompt r.core)
    (took : Took o r tid (.called (.condSignal cv)) r') {first : Tid} {rest : List Tid}
    (isFirst : r.core.waiters (.cond cv) = first :: rest) :
    first ∉ r'.core.waitq ∧ (r'.core.waits first).wakeReason = .signal ∧
      ¬ (r.core.waits first).timeout < r.core.turnCount ∧
      ∀ t ∈ rest, t ∈ r'.core.waiters (.cond cv) ∨
        (t ∉ r'.core.waitq ∧ (r'.core.waits t).wakeReason = .timedout) := by
  have signalled := (Core.Turned.refl (some (.cond cv)) sound.nodup).signal rfl false
  have counted := (Core.Turned.refl none signalled.nodup).incTurnCount
  have core : r'.core = (r.core.signal (.cond cv) false).1.incTurnCount := by
    have gave := took.gave
    cases gave
    rfl
  obtain ⟨gone, reason, others⟩ := signal_one sound.nodup isFirst
  rw [core]
  refine ⟨fun stays => gone (counted.kept.subset stays), ?_, ?_, fun t member => ?_⟩
  · rw [counted.same first (Or.inr gone)]
    exact reason
  · have waits : first ∈ r.core.waiters (.cond cv) := isFirst ▸ List.mem_cons_self
    obtain ⟨inside, isCond⟩ := mem_waiters.mp waits
    exact Nat.not_lt.mpr (prompt.late first inside cv isCond)
  · have before : t ∈ r.core.waiters (.cond cv) := isFirst ▸ List.mem_cons_of_mem _ member
    have waits := waits_of_stays signalled before (others t member)
    by_cases stays : t ∈ (r.core.signal (.cond cv) false).1.incTurnCount.waitq
    · exact Or.inl (waits_of_stays counted waits stays)
    · refine Or.inr ⟨stays, ?_⟩
      rcases counted.gone t (others t member) stays with ⟨-, isSome, isNone⟩ | ⟨fired, -⟩
      · rw [isNone] at isSome
        cases isSome
      · exact fired

/-- The turn of a broadcast. -/
theorem condStep_broadcast (sound : Sound r.core r.spot)
    (took : Took o r tid (.called (.condBroadcast cv)) r') :
    r'.core.waiters (.cond cv) = [] ∧
      (r.core.signal (.cond cv) true).2 = r.core.waiters (.cond cv) ∧
      ∀ t ∈ r.core.waiters (.cond cv),
        t ∉ r'.core.waitq ∧ (r'.core.waits t).wakeReason = .signal := by
  have signalled := (Core.Turned.refl (some (.cond cv)) sound.nodup).signal rfl true
  have counted := (Core.Turned.refl none signalled.nodup).incTurnCount
  have core : r'.core = (r.core.signal (.cond cv) true).1.incTurnCount := by
    have gave := took.gave
    cases gave
    rfl
  obtain ⟨woken, each⟩ := signal_all sound.nodup (.cond cv)
  rw [core]
  refine ⟨waiters_nil counted (waiters_signal_all sound.nodup _), woken, fun t waits => ?_⟩
  obtain ⟨gone, reason⟩ := each t waits
  refine ⟨fun stays => gone (counted.kept.subset stays), ?_⟩
  rw [counted.same t (Or.inr gone)]
  exact reason

/-- **What a turn does to the threads that wait on a condition variable.** -/
theorem condStep_took (sound : Sound r.core r.spot) (prompt : Prompt r.core)
    (took : Took o r tid stage r') : CondStep o cv r tid (some stage) r' := by
  obtain ⟨c, ops, -, givenUp⟩ := took.turned
  have free : tid ∉ c.waitq := fun inside => took.ready.1 (ops.kept.subset inside)
  have queue : r'.core.waiters (.cond cv) = c.waiters (.cond cv) ++ _ := givenUp.waiters free
  refine ⟨⟨_, _, waiters_sublist ops, queue, joins_cases _ tid _⟩, fun mu isWait => ?_,
    fun t waits gone => ?_, fun isSignal first rest isFirst => ?_, fun isBroadcast => ?_,
    fun mu isCreate result relocks done => ?_⟩
  · obtain ⟨released, finish⟩ := @condWaits_turn o cv r tid stage mu isWait
    rw [took.shared]
    refine ⟨released, ?_⟩
    rcases finish with isExit | joins
    · have gave := took.gave
      rw [isExit] at gave
      cases gave
    · rw [queue, joins]
      exact List.mem_append_right _ (List.mem_singleton_self tid)
  · have other : t ≠ tid := fun same => took.ready.1 (same ▸ (mem_waiters.mp waits).1)
    obtain ⟨member, slot⟩ := givenUp.other other
    have left : t ∉ c.waitq := by
      intro stays
      refine gone ?_
      rw [queue]
      exact List.mem_append_left _ (waits_of_stays ops waits stays)
    refine ⟨fun stays => left (member.mp stays), ?_⟩
    rw [slot]
    refine (leaves_of_turned sound ops waits left).imp_left fun ⟨reason, signals⟩ => ⟨reason, ?_⟩
    exact (stage_of_signalled signals).imp (congrArg some) (congrArg some)
  · cases isSignal
    exact condStep_signal sound prompt took isFirst
  · cases isBroadcast
    exact condStep_broadcast sound took
  · obtain ⟨s, isStage, returns⟩ := done
    cases isStage
    rw [took.shared]
    exact owner_of_relock relocks returns

/-- **A step without a turn.** -/
theorem condStep_idle {label : Tid × Move} (sound : Sound r.core r.spot)
    (stepped : r.step o label = some r') (noTurn : r.stageOf label.1 label.2 = none) :
    CondStep o cv r label.1 none r' := by
  obtain ⟨c, ops, queue, -, same⟩ := @idle_turned o r r' (.cond cv) label sound.nodup stepped noTurn nofun
  refine ⟨⟨_, [], waiters_sublist ops, queue.trans (List.append_nil _).symm, Or.inl rfl⟩, nofun,
    fun t waits gone => ?_, nofun, nofun, nofun⟩
  have left : t ∉ c.waitq := by
    intro stays
    exact gone (queue ▸ waits_of_stays ops waits stays)
  refine ⟨fun stays => left ((same t waits).1.mp stays), ?_⟩
  rw [(same t waits).2]
  rcases leaves_of_turned sound ops waits left with ⟨-, signals⟩ | fired
  · cases signals
  · exact Or.inr fired

/-! ### Nobody is overdue -/

/-- No thread in the wait queue is overdue, whatever it waits on. -/
structure AllPrompt (c : Core) : Prop where
  small : c.turnCount < unsignedMod
  late : ∀ t ∈ c.waitq, c.turnCount ≤ (c.waits t).timeout

namespace AllPrompt

variable {c : Core}

/-- `fireTimeouts` leaves nobody overdue. -/
theorem incTurnCount (nodup : c.waitq.Nodup) : AllPrompt c.incTurnCount := by
  refine ⟨Nat.mod_lt _ (by decide), fun t stays => ?_⟩
  obtain ⟨inside, notWoken⟩ := (scan_kept_iff nodup).mp stays
  have slot : c.incTurnCount.waits t = c.waits t := scan_frame c.waitq notWoken
  rw [slot]
  refine Nat.not_lt.mp fun late => notWoken ?_
  rw [scan_woken_all nodup]
  exact List.mem_filter.mpr ⟨inside, decide_eq_true late⟩

theorem pass (prompt : AllPrompt c) (nodup : c.waitq.Nodup) (hit : WaitT → Tid → Bool)
    (wake : WaitT → WaitT) (all : Bool) : AllPrompt (c.pass hit wake all).1 := by
  refine ⟨prompt.small, fun t stays => ?_⟩
  obtain ⟨inside, notWoken⟩ := (scan_kept_iff nodup).mp stays
  have slot : (c.pass hit wake all).1.waits t = c.waits t := scan_frame c.waitq notWoken
  rw [slot]
  exact prompt.late t inside

theorem finish (prompt : AllPrompt c) (nodup : c.waitq.Nodup) (tid : Tid) :
    AllPrompt (c.finish tid) := by
  unfold Core.finish
  dsimp only
  split
  · rename_i th _
    have passed : AllPrompt (c.signal (.thread th) false).1 := prompt.pass nodup _ _ _
    exact ⟨passed.small, passed.late⟩
  · exact ⟨prompt.small, prompt.late⟩

theorem prompt (each : AllPrompt c) : Prompt c :=
  ⟨each.small, fun t inside _ _ => each.late t inside⟩

end AllPrompt

/-- A thread that begins to wait on a condition variable is not overdue, when its deadline fits. -/
theorem enqueue_prompt {c : Core} {chan : Option Chan} {timeout : Nat} (each : AllPrompt c)
    (fits : ∀ cv, chan = some (.cond cv) → c.turnCount ≤ timeout) :
    Prompt (c.enqueue tid chan timeout) := by
  refine ⟨each.small, fun t inside cv isCond => ?_⟩
  by_cases same : t = tid
  · subst same
    rw [enqueue_waits_self] at isCond ⊢
    exact fits cv isCond
  · rw [enqueue_waits_of_ne same]
    exact each.late t ((mem_enqueue.mp inside).resolve_right same)

/-- `relTimeToTurn` gives at least six turns. -/
theorem six_le_relTimeToTurn {nthread turns : Nat} {reltime : Timespec} (threads : 0 < nthread)
    (isTurns : relTimeToTurn o nthread (some reltime) = some turns) : 6 ≤ turns := by
  obtain ⟨ret, -, clamped⟩ := Option.map_eq_some_iff.mp isTurns
  split at clamped <;> omega

/-- The deadline that `pthreadCondTimedWait` computes, and the turn count when it waits. -/
theorem condTimedWait_deadline {cv mu caller timeout : Nat} {cur abstime : Timespec}
    {chan : Option Chan} {next : Stage}
    (how : (r.turnOf o tid (.called (.condTimedWait cv mu caller cur (some abstime)))).2 =
      .wait chan timeout next) :
    ∃ turns, relTimeToTurn o r.core.tm.nthread (some (timeDiff cur abstime)) = some turns ∧
      timeout = (((r.core.turnCount + 1) % unsignedMod + (unsignedMod - 1)) % unsignedMod + turns) %
        unsignedMod ∧
      (r.turnOf o tid (.called (.condTimedWait cv mu caller cur
        (some abstime)))).1.sched.incTurnCount.turnCount =
        ((r.core.turnCount + 1) % unsignedMod + 1) % unsignedMod := by
  have turn : r.turnOf o tid (.called (.condTimedWait cv mu caller cur (some abstime))) =
      condTimedWait (Core.serializer o.wakeamapPlus) o tid (r.env tid) cv mu caller cur
        (some abstime) := rfl
  rw [turn] at how ⊢
  unfold condTimedWait at how ⊢
  dsimp only at how ⊢
  split at how
  · rename_i deadline isDeadline
    obtain ⟨turns, isTurns, isSum⟩ := Option.map_eq_some_iff.mp isDeadline
    refine ⟨turns, isTurns, ?_, ?_⟩
    · cases how
      exact isSum.symm
    · rfl
  · cases how

/-- **The deadline of a wait on a condition variable is not before the turn in which it begins.** -/
theorem deadline_prompt {move : Move} {timeout : Nat} {next : Stage} (sound : Sound r.core r.spot)
    (prompt : Prompt r.core) (alive : r.core.Live tid) (fits : DeadlineFits o r (tid, move))
    (isStage : r.stageOf tid move = some stage)
    (how : (r.turnOf o tid stage).2 = .wait (some (.cond cv)) timeout next) :
    (r.turnOf o tid stage).1.sched.incTurnCount.turnCount ≤ timeout := by
  have patient : ∀ c : Core, c.incTurnCount.turnCount ≤ forever := by
    intro c
    have small : c.incTurnCount.turnCount < unsignedMod := Nat.mod_lt _ (by decide)
    unfold forever
    omega
  have awaits : stage.awaits = some (.cond cv) := by
    have waitsOn : (r.turnOf o tid stage).2.WaitsOn stage.awaits :=
      @turn_waitsOn _ (Core.serializer o.wakeamapPlus) o tid (r.env tid) stage
    rw [how] at waitsOn
    exact waitsOn.symm
  cases stage with
  | called call =>
    cases call with
    | condWait cv' mu caller =>
      cases how
      exact patient _
    | condTimedWait cv' mu caller cur abstime =>
      cases abstime with
      | none =>
        cases how
        exact patient _
      | some abstime =>
        obtain ⟨turns, isTurns, isTimeout, isCount⟩ := condTimedWait_deadline how
        have threads : 0 < r.core.tm.nthread := Nat.zero_lt_of_lt (sound.known tid alive)
        have six := six_le_relTimeToTurn threads isTurns
        have small := prompt.small
        have timed : timeDiff cur abstime ∈ (r.stageOf tid move).bind Stage.condReltime := by
          rw [isStage]
          rfl
        have fine := fits _ timed turns isTurns
        rw [isTimeout, isCount]
        unfold unsignedMod at *
        omega
    | _ => cases awaits
  | retry loop => cases loop <;> cases awaits
  | _ => cases awaits

/-- The last thread at a barrier has counted its turn already. -/
theorem barrierWait_prompt {barrier : Nat} {next : Stage} (nodup : r.core.waitq.Nodup)
    (how : (r.turnOf o tid (.called (.barrierWait barrier))).2 = .bounce next) :
    Prompt (r.turnOf o tid (.called (.barrierWait barrier))).1.sched := by
  have counted := AllPrompt.incTurnCount nodup
  have again := (Core.Turned.refl none nodup).incTurnCount.nodup
  revert how
  show (barrierWait (Core.serializer o.wakeamapPlus) (r.env tid) barrier).2 = _ →
    Prompt (barrierWait (Core.serializer o.wakeamapPlus) (r.env tid) barrier).1.sched
  unfold barrierWait
  dsimp only
  split
  · exact fun how => nomatch how
  · split
    · exact fun _ => (counted.pass again _ _ _).prompt
    · exact fun how => nomatch how

/-- **A turn leaves nobody overdue**, when its deadline fits. -/
theorem prompt_took {move : Move} (sound : Sound r.core r.spot) (prompt : Prompt r.core)
    (fits : DeadlineFits o r (tid, move)) (isStage : r.stageOf tid move = some stage)
    (took : Took o r tid stage r') : Prompt r'.core := by
  have nodup : (r.turnOf o tid stage).1.sched.waitq.Nodup :=
    (@turn_turned o tid (r.env tid) stage sound.nodup).nodup
  have counted := AllPrompt.incTurnCount nodup
  have gave := took.gave
  cases how : (r.turnOf o tid stage).2 with
  | wait chan timeout next =>
    rw [how] at gave
    cases gave
    refine enqueue_prompt counted fun cv isCond => ?_
    rw [isCond] at how
    exact deadline_prompt sound prompt took.ready.2 fits isStage how
  | bounce next =>
    rw [how] at gave
    cases gave
    have fits : (r.turnOf o tid stage).2.Fits stage :=
      @turn_fits _ (Core.serializer o.wakeamapPlus) o tid (r.env tid) stage
    rw [how] at fits
    obtain ⟨barrier, rfl, -⟩ := fits
    exact barrierWait_prompt sound.nodup how
  | ended =>
    rw [how] at gave
    cases gave
    have ended := (Core.Turned.refl none nodup).incTurnCount.nodup
    exact (counted.finish ended tid).prompt
  | exit =>
    rw [how] at gave
    cases gave
  | _ =>
    rw [how] at gave
    cases gave
    exact counted.prompt

/-- **So does a step.** -/
theorem prompt_step {label : Tid × Move} (sound : Sound r.core r.spot) (prompt : Prompt r.core)
    (fits : DeadlineFits o r label) (stepped : r.step o label = some r') : Prompt r'.core := by
  obtain ⟨tid, move⟩ := label
  rcases step_cases sound.nodup stepped with ⟨stage, isStage, took⟩ | ⟨-, -, rfl⟩ | ⟨-, -, -, rfl⟩ |
    ⟨-, -, rfl⟩
  · exact prompt_took sound prompt fits isStage took
  · exact prompt
  · exact enqueue_prompt (AllPrompt.incTurnCount sound.nodup) fun cv isCond => nomatch isCond
  · refine ⟨prompt.small, fun t stays cv isCond => ?_⟩
    obtain ⟨inside, notWoken⟩ := (scan_kept_iff sound.nodup).mp stays
    have slot : r.core.wakeIdle.1.waits t = r.core.waits t := scan_frame _ notWoken
    have before : (r.core.waits t).chan = some (.cond cv) := slot ▸ isCond
    show r.core.turnCount ≤ (r.core.wakeIdle.1.waits t).timeout
    rw [slot]
    exact prompt.late t inside cv before

/-- **Condition variables**, in any order of turns: after a run whose deadlines fit, whatever step comes
next does to the threads that wait on a condition variable what `CondStep` says. -/
theorem cond_vars (o : Options) (mainTh : PthreadT) (shared : Shared) (labels : List (Tid × Move))
    (fits : Along (step o) (DeadlineFits o) (init o mainTh shared) labels) (r : Recorder)
    (ran : exec (step o) (init o mainTh shared) labels = some r) (label : Tid × Move)
    (r' : Recorder) (stepped : r.step o label = some r') (cv : Nat) :
    CondStep o cv r label.1 (r.stageOf label.1 label.2) r' := by
  have sound := sound_run ran
  have prompt : Prompt r.core := by
    refine (exec_invariant (fun r => Sound r.core r.spot ∧ Prompt r.core) ?_
      ⟨sound_run (exec_nil _), ?_⟩ fits ran).2
    · intro s label next inv fine stepped
      exact ⟨sound_step inv.1 stepped, prompt_step inv.1 inv.2 fine stepped⟩
    · exact ⟨Nat.zero_lt_succ _, fun t inside => (nomatch inside)⟩
  cases isStage : r.stageOf label.1 label.2 with
  | none => exact condStep_idle sound stepped isStage
  | some stage => exact condStep_took sound prompt (took_of_step sound.nodup stepped isStage)

/-! ### Runs -/

/-- Threads `2` and `3` wait on the condition variable `9`, thread `3` for at most an instant. -/
def twoOnOneCond : List (Tid × Move) :=
  quick 0 (.createIdle 101) ++ quick 0 (.create 102 3 0) ++ quick 0 (.create 103 3 0) ++
  quick 2 (.mutexLock 8) ++ [(2, .call (.condWait 9 8 0))] ++
  quick 3 (.mutexLock 8) ++ [(3, .call (.condTimedWait 9 8 0 ⟨1, 0⟩ (some ⟨1, 0⟩)))]

/-- The signal of the main thread takes thread `2`. -/
theorem cond_vars_twoOnOneCond :
    ∃ r r', exec (step {}) (init {} 100 {}) twoOnOneCond = some r ∧
      r.step {} (0, .call (.condSignal 9)) = some r' ∧
      r.core.waiters (.cond 9) = [2, 3] ∧ r'.core.waiters (.cond 9) = [3] ∧
      CondStep {} 9 r 0 (some (.called (.condSignal 9))) r' := by
  have found : (exec (step {}) (init {} 100 {}) twoOnOneCond).any
      (fun r => decide (r.core.waiters (.cond 9) = [2, 3] ∧
        r.stageOf 0 (.call (.condSignal 9)) = some (.called (.condSignal 9)) ∧
        (r.step {} (0, .call (.condSignal 9))).any
          (fun r' => decide (r'.core.waiters (.cond 9) = [3])) = true)) = true := by
    decide +kernel
  obtain ⟨r, ran, here⟩ := exec_of_any found
  obtain ⟨waiters, isStage, goesOn⟩ := of_decide_eq_true here
  have fits : Along (step {}) (DeadlineFits {}) (init {} 100 {}) twoOnOneCond := by decide +kernel
  obtain ⟨r', stepped, after⟩ := (Option.any_eq_true _ _).mp goesOn
  have done := cond_vars {} 100 {} twoOnOneCond fits r ran _ r' stepped 9
  exact ⟨r, r', ran, stepped, waiters, of_decide_eq_true after, isStage ▸ done⟩

/-- The thread can take turns, and nobody waits. -/
structure Quiet (r : Recorder) (tid : Tid) : Prop where
  ready : r.Ready tid
  outside : r.spot tid = .outside
  fresh : r.locals tid = {}
  nobody : r.core.waitq = []

/-- The process at another turn count. -/
def atTurn (r : Recorder) (turnCount : Nat) : Recorder :=
  { r with core := { r.core with turnCount := turnCount } }

theorem incTurnCount_of_nobody {c : Core} (nobody : c.waitq = []) : c.incTurnCount = c.tick := by
  obtain ⟨tm, waitq, waits, turnCount⟩ := c
  have isNil : waitq = [] := nobody
  subst isNil
  rfl

theorem Quiet.atTurn (quiet : Quiet r tid) (turnCount : Nat) : Quiet (r.atTurn turnCount) tid :=
  ⟨quiet.ready, quiet.outside, quiet.fresh, quiet.nobody⟩

/-- A quiet turn only counts. -/
theorem quiet_turn (quiet : Quiet r tid) :
    exec (step {}) r (quick tid .dummySync) =
      some (r.atTurn ((r.core.turnCount + 1) % unsignedMod)) := by
  have stage : r.stageOf tid (.call .dummySync) = some (.called .dummySync) := if_pos quiet.outside
  have first : r.step {} (tid, .call .dummySync) = some { r with
      core := r.core.tick
      spot := Function.update r.spot tid .returning } := by
    show r.take {} tid (.call .dummySync) = _
    unfold take
    rw [if_pos quiet.ready, stage]
    show some (r.put tid ⟨r.core, r.shared, (getPutTurnStrategy {} (r.locals tid) false).1⟩
      r.core.incTurnCount .returning) = _
    rw [incTurnCount_of_nobody quiet.nobody, quiet.fresh]
    show some ({ r with
      core := r.core.tick
      locals := Function.update r.locals tid {}
      spot := Function.update r.spot tid .returning } : Recorder) = _
    rw [← quiet.fresh, Function.update_eq_self]
  have second : step {} { r with
      core := r.core.tick
      spot := Function.update r.spot tid .returning } (tid, .finish) =
        some (r.atTurn ((r.core.turnCount + 1) % unsignedMod)) := by
    unfold step
    dsimp only
    rw [if_pos (Function.update_self _ _ _), quiet.fresh]
    show some ({ r with
      core := r.core.tick
      locals := Function.update r.locals tid {}
      spot := Function.update (Function.update r.spot tid .returning) tid .outside } : Recorder) = _
    rw [← quiet.fresh, Function.update_eq_self, Function.update_idem, ← quiet.outside,
      Function.update_eq_self]
    rfl
  show (r.step {} (tid, .call .dummySync)).bind _ = _
  rw [first]
  show (step {} _ (tid, .finish)).bind _ = _
  rw [second]
  rfl

/-- **Quiet turns only count.** -/
theorem quiet_turns (quiet : Quiet r tid) (k : Nat) (below : r.core.turnCount + k < unsignedMod) :
    exec (step {}) r (List.replicate k (quick tid .dummySync)).flatten =
      some (r.atTurn (r.core.turnCount + k)) := by
  induction k generalizing r with
  | zero => rfl
  | succ k ih =>
    have small : (r.core.turnCount + 1) % unsignedMod = r.core.turnCount + 1 :=
      Nat.mod_eq_of_lt (by omega)
    have rest : (r.atTurn (r.core.turnCount + 1)).core.turnCount + k = r.core.turnCount + (k + 1) := by
      show r.core.turnCount + 1 + k = _
      omega
    rw [List.replicate_succ, List.flatten_cons, exec_append_eq, quiet_turn quiet, small,
      Option.bind_some, ih (quiet.atTurn _) (rest ▸ below), rest]
    rfl

/-- Thread `2` has the mutex `8`. -/
def ownerOfEight : List (Tid × Move) :=
  quick 0 (.createIdle 101) ++ quick 0 (.create 102 3 0) ++ quick 2 (.mutexLock 8)

/-- Thread `2` begins a timed wait on the condition variable `9`, close to the end of the turn count:
its deadline is turn `6`. -/
def overdueWait : List (Tid × Move) :=
  ownerOfEight ++ ((List.replicate 4294967283 (quick 0 .dummySync)).flatten ++
    [(2, .call (.condTimedWait 9 8 0 ⟨1, 0⟩ (some ⟨1, 0⟩)))])

/-- **A signal takes a thread whose wait has expired.** -/
theorem overdue_waiter_is_signalled :
    ∃ r r', exec (step {}) (init {} 100 {}) overdueWait = some r ∧
      r.step {} (0, .call (.condSignal 9)) = some r' ∧
      r.core.turnCount = 4294967288 ∧ (r.core.waits 2).timeout = 6 ∧
      r.core.waiters (.cond 9) = [2] ∧ r'.core.waiters (.cond 9) = [] ∧
      (r'.core.waits 2).wakeReason = .signal ∧
      ¬ CondStep {} 9 r 0 (some (.called (.condSignal 9))) r' := by
  have before : (exec (step {}) (init {} 100 {}) ownerOfEight).any
      (fun r => decide (r.Ready 0 ∧ r.spot 0 = .outside ∧ r.locals 0 = {} ∧ r.core.waitq = [] ∧
        r.core.turnCount = 3 ∧
        (exec (step {}) (r.atTurn 4294967286)
          [(2, .call (.condTimedWait 9 8 0 ⟨1, 0⟩ (some ⟨1, 0⟩)))]).any (fun r =>
            decide (r.core.turnCount = 4294967288 ∧ (r.core.waits 2).timeout = 6 ∧
              r.core.waiters (.cond 9) = [2] ∧
              (r.step {} (0, .call (.condSignal 9))).any (fun r' =>
                decide (r'.core.waiters (.cond 9) = [] ∧
                  (r'.core.waits 2).wakeReason = .signal)) = true)) = true)) = true := by
    decide +kernel
  obtain ⟨r₀, ran, here⟩ := exec_of_any before
  obtain ⟨ready, outside, fresh, nobody, count, found⟩ := of_decide_eq_true here
  have counts := quiet_turns ⟨ready, outside, fresh, nobody⟩ 4294967283 (by rw [count]; decide)
  rw [count] at counts
  obtain ⟨r, waits, here⟩ := exec_of_any found
  obtain ⟨late, deadline, alone, found⟩ := of_decide_eq_true here
  obtain ⟨r', stepped, here⟩ := (Option.any_eq_true _ _).mp found
  obtain ⟨left, reason⟩ := of_decide_eq_true here
  have whole : exec (step {}) (init {} 100 {}) overdueWait = some r := by
    unfold overdueWait
    rw [exec_append_eq, ran, Option.bind_some, exec_append_eq, counts]
    exact waits
  refine ⟨r, r', whole, stepped, late, deadline, alone, left, reason, fun cond => ?_⟩
  obtain ⟨-, -, prompt, -⟩ := cond.signals rfl 2 [] alone
  rw [late, deadline] at prompt
  exact prompt (by decide)

end Recorder

end MinSmt
