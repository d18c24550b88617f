/-
**The threads of a process around one scheduler**, as a step function.

`Sys` is the scheduler and, for every thread, where it is (`Pc`): outside the scheduler, in an
external call, in `getTurn`, holding the turn, or inside `next` on its way to post the next thread.
`Sys.step o s (tid, action)` is one step of the thread `tid`; `none` says that the thread cannot
take this step there.

**The steps are as small as the locks.** A thread without the turn writes only the status of its own
element (`interProStart`, `interProEnd`) and the side set (`wakeup`), so the code of the turn holder
is cut where it reads these: at each `check_wakeup`, at each round of `nextRunnable`, and at each
element that `tryPutTurn` looks at. `create`, `putTurn`, `wait`, `block` and the other operations may
come in any order and with any argument; the wrappers of the runtime are some of these orders.

`outcome` records how the hand-over of turns ended: `nextRunnable` returned `InvalidTid`, or the process
ended inside it. `idle_done` is set by `__tern_prog_end` of the main thread.
-/

import MinSmt.Library.Run
import MinSmt.Scheduler.Release

namespace MinSmt

/-- What a thread does when its call of `next` returns. -/
inductive After
  /-- `putTurn` returns. -/
  | away
  /-- `wait` calls `getTurn`. -/
  | getTurn
  /-- `block` returns, and the external call starts. -/
  | inCall
  /-- `block` returns, and the non-det region starts. -/
  | nonDet
  /-- `idleThreadCondWait` waits for `idle_cond`. -/
  | idling
  /-- The thread ends. -/
  | dead
  deriving DecidableEq, Repr

/-- Where a thread is inside `next`. -/
inductive Phase
  /-- Before `check_wakeup`. -/
  | checking
  /-- In the loop of `nextRunnable`. -/
  | picking
  /-- Before `waits[next].post()`. -/
  | posting (next : Tid)
  deriving DecidableEq, Repr

/-- Where a thread is. -/
inductive Pc
  /-- Not created yet, or ended. -/
  | dead
  /-- Outside the scheduler. -/
  | away
  /-- Back from `wakeup`, with no other call since. -/
  | woken
  /-- In `pthread_cond_wait(&idle_cond, ..)`. -/
  | idling
  /-- In a non-det region. -/
  | nonDet
  /-- In an external call, after `interProStart` (and `block`). -/
  | inCall
  /-- Between `interProEnd` and `wakeup`. -/
  | callDone
  /-- In `getTurn`, called by `block` after `interProStart` or by anyone else. -/
  | waiting (blocking : Bool)
  /-- Back from `getTurn`. -/
  | turn (blocking : Bool)
  /-- In the loop of `tryPutTurn`, at this element. -/
  | trying (cur : Option Tid)
  /-- In `next`. -/
  | leaving (phase : Phase) (atThreadEnd : Bool) (strategy : Strategy) (after : After)
  /-- Ended by `pthread_exit` inside `wakeUpIdleThread`. -/
  | exited (after : After)
  deriving DecidableEq, Repr

/-- Where a thread is after `next`. -/
def After.pc : After → Pc
  | .away => .away
  | .getTurn => .waiting false
  | .inCall => .inCall
  | .nonDet => .nonDet
  | .idling => .idling
  | .dead => .dead

/-- The strategy that `nextRunnable` goes by. -/
def Pc.strategy : Pc → Strategy
  | .leaving _ _ strategy _ => strategy
  | _ => .default

/-- How the hand-over of turns ended. -/
inductive Outcome
  /-- `nextRunnable` returned `InvalidTid`. -/
  | invalidTid
  /-- `pthread_exit(0)` in `wakeUpIdleThread`. -/
  | threadExited
  /-- `exit(1)` in `nextRunnable`. -/
  | exited
  /-- A null pointer or the end of a map was followed. -/
  | crashed
  deriving DecidableEq, Repr

/-- A process: its scheduler and its threads. -/
structure Sys where
  sched : Sched
  pc : Tid → Pc
  outcome : Option Outcome := none
  idleDone : Bool := false

/-- What a thread can do. `order` is the order in which `check_wakeup` meets the side set. -/
inductive Action
  | getTurn
  | gotTurn
  | incTurnCount (order : List Tid)
  | signal (chan : Chan) (all : Bool)
  | create (th : PthreadT) (threadFunc : ThreadFunc)
  | changeRole (th : PthreadT) (roleFunc : ThreadFunc)
  | nonDetWait (more : Bool)
  | putTurn (strategy : Strategy)
  | endThread (order : List Tid)
  | wait (chan : Chan) (timeout : Nat) (order : List Tid)
  | sleep (turns : Nat) (order : List Tid)
  | block (order : List Tid)
  | idleCondWait (order : List Tid)
  | tryElem
  | checkWakeup (order : List Tid)
  | nextRunnable
  | post
  | interProStart
  | interProEnd
  | wakeup
  | progEnd
  deriving DecidableEq, Repr

/-- The action belongs neither to an external call nor to a non-det region. -/
def Action.internal : Action → Bool
  | .block _ => false
  | .interProStart => false
  | .interProEnd => false
  | .wakeup => false
  | .nonDetWait _ => false
  | _ => true

namespace Sched

/-- The end of `getTurn`: the thread takes its post. -/
def take (o : Options) (s : Sched) (tid : Tid) : Option Sched :=
  ((s.waits tid).take o).bind fun w =>
    if o.enforceTurnType < 0 then
      if s.inSync then none else some { s with inSync := true }
    else some { s with waits := Function.update s.waits tid w }

/-- The element after the head, where `tryPutTurn` starts. -/
def second (s : Sched) : Option Tid := s.runq.head.bind fun head => (s.elems head).next

end Sched

namespace Sys

variable (o : Options) (s : Sys) (tid : Tid)

/-- Replace the scheduler and move one thread. -/
def goto (sched : Sched) (pc : Pc) : Sys :=
  { s with sched := sched, pc := Function.update s.pc tid pc }

/-- Enter `next`; without a scheduler the process has crashed. -/
def leave (sched : Option Sched) (atThreadEnd : Bool) (strategy : Strategy) (after : After) : Sys :=
  match sched with
  | some sched => s.goto tid sched (.leaving .checking atThreadEnd strategy after)
  | none => { s with outcome := some .crashed }

/-- The end of `nextRunnable`, or another round of it. -/
def picked (atThreadEnd : Bool) (strategy : Strategy) (after : After) : Sched.Pick → Sys
  | .again sched strategy => s.goto tid sched (.leaving .picking atThreadEnd strategy after)
  | .grant sched next => s.goto tid sched (.leaving (.posting next) atThreadEnd strategy after)
  | .invalid => { s.goto tid s.sched after.pc with outcome := some .invalidTid }
  | .exit => { s with outcome := some .exited }
  | .threadExit => { s.goto tid s.sched (.exited after) with outcome := some .threadExited }
  | .crash => { s with outcome := some .crashed }

/-- The step of a thread that holds the turn for an ordinary operation. -/
def turnStep : Action → Option Sys
  | .incTurnCount order =>
    if order.Perm s.sched.interProWakeupTids then
      some { s with sched := s.sched.incTurnCount o order }
    else none
  | .signal chan all => some { s with sched := s.sched.signal o chan all }
  | .create th threadFunc =>
    some (s.goto s.sched.tm.nthread (s.sched.create o th threadFunc) .away)
  | .changeRole th roleFunc =>
    some { s with sched := { s.sched with tm := s.sched.tm.changeRole th roleFunc } }
  | .nonDetWait more =>
    some { s with sched := { s.sched with
      nNonDetWait := if more then s.sched.nNonDetWait + 1 else s.sched.nNonDetWait - 1 } }
  | .putTurn strategy => some (s.leave tid (s.sched.putTurn o tid strategy) false strategy .away)
  | .endThread order =>
    if order.Perm s.sched.interProWakeupTids then
      some (s.leave tid ((s.sched.incTurnCount o order).putTurnAtEnd o tid) true .default .dead)
    else none
  | .wait chan timeout order =>
    if order.Perm s.sched.interProWakeupTids then
      some (s.leave tid (s.sched.wait o tid (some chan) timeout order) false .default .getTurn)
    else none
  | .sleep turns order =>
    -- `relTimeToTurn` gives at most `MAX_REL`, and `0` only for a null pointer; by then
    -- `threadBegin` of the main thread has counted a turn
    if order.Perm s.sched.interProWakeupTids ∧ turns ≤ maxRel ∧ 0 < s.sched.turnCount + turns then
      let timeout := (s.sched.getTurnCount + turns) % unsignedMod
      some (s.leave tid (s.sched.wait o tid none timeout order) false .default .getTurn)
    else none
  | .block order =>
    if order.Perm s.sched.interProWakeupTids then
      some (s.leave tid (s.sched.block o tid order) false .default .nonDet)
    else none
  | .idleCondWait order =>
    if order.Perm s.sched.interProWakeupTids ∧ tid = idleThreadTid then
      let sched := s.sched.incTurnCount o order
      if 2 ≤ sched.runq.numElements then some (s.goto tid sched (.trying sched.second))
      else some (s.leave tid (sched.putTurn o tid .default) false .default .away)
    else none
  | _ => none

/-- One look of `tryPutTurn` at an element, and what `idleThreadCondWait` does with the answer. -/
def tryStep : Option Tid → Sys
  | none => s.leave tid (s.sched.putTurn o tid .default) false .default .away
  | some cur =>
    if (s.sched.elems cur).status = .runnable then
      s.leave tid ((s.sched.setStatus cur .runningReg).idleEnqueue o tid) false .default .idling
    else s.goto tid s.sched (.trying (s.sched.elems cur).next)

/-- A step inside `next`. -/
def leaveStep (phase : Phase) (atThreadEnd : Bool) (strategy : Strategy) (after : After) :
    Action → Option Sys
  | .checkWakeup order =>
    if phase = .checking ∧ order.Perm s.sched.interProWakeupTids then
      let sched := s.sched.checkWakeup o order
      if 0 ≤ o.enforceTurnType then
        some (s.goto tid sched (.leaving .picking atThreadEnd strategy after))
      else some (s.goto tid { sched with inSync := false } after.pc)
    else none
  | .nextRunnable =>
    if phase = .picking then
      some (s.picked tid atThreadEnd strategy after
        (s.sched.nextRunnable o s.idleDone tid atThreadEnd strategy))
    else none
  | .post =>
    match phase with
    | .posting next => some (s.goto tid (s.sched.post o next) after.pc)
    | _ => none
  | _ => none

/-- The step of a thread outside the scheduler. -/
def awayStep : Action → Option Sys
  | .getTurn => some (s.goto tid s.sched (.waiting false))
  | .interProStart =>
    let r := s.sched.interProStart tid
    some (s.goto tid r.2 (if r.1 then .waiting true else .inCall))
  | .progEnd => if tid = mainThreadTid then some { s with idleDone := true } else none
  | _ => none

/-- One step of one thread, when the process is there. -/
def threadStep (action : Action) : Option Sys :=
  match s.pc tid, action with
  | .away, action => s.awayStep tid action
  | .woken, action => s.awayStep tid action
  | .idling, .getTurn => some (s.goto tid s.sched (.waiting false))
  | .nonDet, .wakeup => some (s.goto tid (s.sched.wakeup tid) .woken)
  | .inCall, .interProEnd => some (s.goto tid (s.sched.interProEnd tid) .callDone)
  | .callDone, .wakeup => some (s.goto tid (s.sched.wakeup tid) .woken)
  | .waiting blocking, .gotTurn => (s.sched.take o tid).map fun sched =>
      s.goto tid sched (.turn blocking)
  | .turn false, action => s.turnStep o tid action
  | .turn true, .block order =>
    if order.Perm s.sched.interProWakeupTids then
      some (s.leave tid (s.sched.block o tid order) false .default .inCall)
    else none
  | .trying cur, .tryElem => some (s.tryStep o tid cur)
  | .leaving phase atThreadEnd strategy after, action =>
    s.leaveStep o tid phase atThreadEnd strategy after action
  | _, _ => none

/-! ### What a thread that holds the turn can do

The steps that count a turn are guarded by the order of the pass over `inter_pro_wakeup_tids`.
-/

section holder

variable {o : Options} {s s' : Sys} {tid : Tid} {order : List Tid}

theorem turnStep_incTurnCount (stepped : s.turnStep o tid (.incTurnCount order) = some s') :
    order.Perm s.sched.interProWakeupTids ∧
      s' = { s with sched := s.sched.incTurnCount o order } := by
  obtain ⟨perm, result⟩ := Option.ite_none_right_eq_some.mp stepped
  exact ⟨perm, (Option.some.inj result).symm⟩

theorem turnStep_endThread (stepped : s.turnStep o tid (.endThread order) = some s') :
    order.Perm s.sched.interProWakeupTids ∧
      s' = s.leave tid ((s.sched.incTurnCount o order).putTurnAtEnd o tid) true .default .dead := by
  obtain ⟨perm, result⟩ := Option.ite_none_right_eq_some.mp stepped
  exact ⟨perm, (Option.some.inj result).symm⟩

theorem turnStep_wait {chan : Chan} {timeout : Nat}
    (stepped : s.turnStep o tid (.wait chan timeout order) = some s') :
    order.Perm s.sched.interProWakeupTids ∧
      s' = s.leave tid (s.sched.wait o tid (some chan) timeout order) false .default .getTurn := by
  obtain ⟨perm, result⟩ := Option.ite_none_right_eq_some.mp stepped
  exact ⟨perm, (Option.some.inj result).symm⟩

theorem turnStep_sleep {turns : Nat} (stepped : s.turnStep o tid (.sleep turns order) = some s') :
    (order.Perm s.sched.interProWakeupTids ∧ turns ≤ maxRel ∧ 0 < s.sched.turnCount + turns) ∧
      s' = s.leave tid (s.sched.wait o tid none ((s.sched.getTurnCount + turns) % unsignedMod) order)
        false .default .getTurn := by
  obtain ⟨enabled, result⟩ := Option.ite_none_right_eq_some.mp stepped
  exact ⟨enabled, (Option.some.inj result).symm⟩

theorem turnStep_block (stepped : s.turnStep o tid (.block order) = some s') :
    order.Perm s.sched.interProWakeupTids ∧
      s' = s.leave tid (s.sched.block o tid order) false .default .nonDet := by
  obtain ⟨perm, result⟩ := Option.ite_none_right_eq_some.mp stepped
  exact ⟨perm, (Option.some.inj result).symm⟩

/-- The idle thread tries to pass its turn on when it is not alone, and puts it otherwise. -/
theorem turnStep_idleCondWait (stepped : s.turnStep o tid (.idleCondWait order) = some s') :
    (order.Perm s.sched.interProWakeupTids ∧ tid = idleThreadTid) ∧
      (2 ≤ (s.sched.incTurnCount o order).runq.numElements ∧
          s' = s.goto tid (s.sched.incTurnCount o order)
            (.trying (s.sched.incTurnCount o order).second) ∨
        ¬ 2 ≤ (s.sched.incTurnCount o order).runq.numElements ∧
          s' = s.leave tid ((s.sched.incTurnCount o order).putTurn o tid .default)
            false .default .away) := by
  obtain ⟨enabled, result⟩ := Option.ite_none_right_eq_some.mp stepped
  refine ⟨enabled, ?_⟩
  split at result
  · rename_i many
    exact Or.inl ⟨many, (Option.some.inj result).symm⟩
  · rename_i few
    exact Or.inr ⟨few, (Option.some.inj result).symm⟩

end holder

/-! ### What a thread inside `next` can do -/

section leaver

variable {o : Options} {s s' : Sys} {tid : Tid} {phase : Phase} {atThreadEnd : Bool}
  {strategy : Strategy} {after : After}

/-- With a turn order the thread goes on to `nextRunnable`; without one it is done. -/
theorem leaveStep_checkWakeup_cases {order : List Tid}
    (stepped : s.leaveStep o tid phase atThreadEnd strategy after (.checkWakeup order) = some s') :
    (phase = .checking ∧ order.Perm s.sched.interProWakeupTids) ∧
      (0 ≤ o.enforceTurnType ∧
          s' = s.goto tid (s.sched.checkWakeup o order) (.leaving .picking atThreadEnd strategy after) ∨
        ¬ 0 ≤ o.enforceTurnType ∧
          s' = s.goto tid { s.sched.checkWakeup o order with inSync := false } after.pc) := by
  obtain ⟨enabled, result⟩ := Option.ite_none_right_eq_some.mp stepped
  refine ⟨enabled, ?_⟩
  split at result
  · rename_i nonneg
    exact Or.inl ⟨nonneg, (Option.some.inj result).symm⟩
  · rename_i negative
    exact Or.inr ⟨negative, (Option.some.inj result).symm⟩

theorem leaveStep_checkWakeup {order : List Tid} (nonneg : 0 ≤ o.enforceTurnType)
    (stepped : s.leaveStep o tid phase atThreadEnd strategy after (.checkWakeup order) = some s') :
    (phase = .checking ∧ order.Perm s.sched.interProWakeupTids) ∧
      s' = s.goto tid (s.sched.checkWakeup o order) (.leaving .picking atThreadEnd strategy after) := by
  obtain ⟨enabled, ⟨-, result⟩ | ⟨negative, -⟩⟩ := leaveStep_checkWakeup_cases stepped
  · exact ⟨enabled, result⟩
  · exact absurd nonneg negative

theorem leaveStep_nextRunnable
    (stepped : s.leaveStep o tid phase atThreadEnd strategy after .nextRunnable = some s') :
    phase = .picking ∧ s' = s.picked tid atThreadEnd strategy after
      (s.sched.nextRunnable o s.idleDone tid atThreadEnd strategy) := by
  obtain ⟨isPicking, result⟩ := Option.ite_none_right_eq_some.mp stepped
  exact ⟨isPicking, (Option.some.inj result).symm⟩

theorem leaveStep_post
    (stepped : s.leaveStep o tid phase atThreadEnd strategy after .post = some s') :
    ∃ next, phase = .posting next ∧ s' = s.goto tid (s.sched.post o next) after.pc := by
  cases phase with
  | posting next => exact ⟨next, rfl, (Option.some.inj stepped).symm⟩
  | _ => cases stepped

end leaver

/-- **One step of the process.** -/
def step (label : Tid × Action) : Option Sys :=
  match s.outcome with
  | some .exited => none
  | some .crashed => none
  | _ => s.threadStep o label.1 label.2

theorem threadStep_of_step {o : Options} {s s' : Sys} {tid : Tid} {action : Action}
    (stepped : s.step o (tid, action) = some s') : s.threadStep o tid action = some s' := by
  unfold step at stepped
  split at stepped
  · cases stepped
  · cases stepped
  · exact stepped

/-- The process after the scheduler has been made: the main thread has the first turn. -/
def init (mainTh : PthreadT) : Sys :=
  { sched := Sched.init o mainTh
    pc := Function.update (fun _ => .dead) mainThreadTid .away }

end Sys

end MinSmt
