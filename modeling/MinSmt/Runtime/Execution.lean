/-
**A multithreaded program on the round-robin scheduler.**

Every thread runs a program: what it calls next is a function of what its calls have returned. It
computes and comes to `getTurn` at its own pace, takes a post when it gets there, and executes what
follows `putTurn` in `SCHED_TIMER_END` at its own pace; all else it does while it has the turn. There
are no external calls and no non-det regions, so `check_wakeup` finds nobody; nobody proposes roles, and
the main thread does not run `__tern_prog_end`.

* `Program` — threads as functions of their results. The program names a thread by its tid, and
  `handle tid` is the `pthread_t` that `pthread_create` returns for it.
* `Act.act` — what the turn holder does next: one wrapper body up to its call of `next`, or one step
  inside `next`.
* `Execution.step` — one step of one thread: it ends an operation, comes to `getTurn`, or goes on with
  the turn.
* `Execution.turns` — the turns of a run: the turn count, the thread, the operation, and its result when
  it has one.
-/

import MinSmt.Library.Trace
import MinSmt.Runtime.Recorder
import MinSmt.Scheduler.Threads

namespace MinSmt

open MinSmt.Library

/-! ### Programs -/

/-- What a thread does to its own variables before a call. -/
inductive Directive
  /-- `set_slock_next_n`. -/
  | slockNextN (nextNTurns : Int)
  /-- `slock_n_turns += 2` in `pthreadCreate`, when it has created the idle thread. -/
  | compensate
  deriving DecidableEq, Repr

/-- A thread function with its argument. -/
abbrev Code := ThreadFunc × Nat

/-- **A program whose threads are functions of their results**: what a thread that runs this code, and
whose calls have returned this, does before its next call, and the call. It names threads by their
tids. -/
abbrev Program := Code → List Result → List Directive × Call

/-- The annotation is executed. -/
def Directive.apply (o : Options) (l : Local) : Directive → Local
  | .slockNextN nextNTurns => setSlockNextN o l nextNTurns
  | .compensate => { l with slockNTurns := l.slockNTurns + 2 }

/-- A call with the handle of the thread that it names; `pthread_create` names none yet. -/
def Call.named (handle : Tid → PthreadT) : Call → Call
  | .join t => .join (handle t)
  | call => call

/-- The handle that `pthread_create` gives. -/
def Stage.withHandle (th : PthreadT) : Stage → Stage
  | .called (.create _ threadFunc arg) => .called (.create th threadFunc arg)
  | .called (.createIdle _) => .called (.createIdle th)
  | stage => stage

/-- The code of the thread that is created. -/
def Stage.bears : Stage → Option Code
  | .called (.create _ threadFunc arg) => some (threadFunc, arg)
  | .called (.createIdle _) => some (idleThreadFunc, 0)
  | _ => none

/-! ### Threads -/

/-- Where a thread is. -/
inductive Site
  /-- It does not have the turn. Without a spot it has not been created, or has ended. A thread that
  waits for `idle_cond` is outside. -/
  | off (spot : Option Spot)
  /-- It has the turn, and goes on at the stage. -/
  | turn (stage : Stage)
  /-- In the loop of `tryPutTurn`, at this element. -/
  | trying (cur : Option Tid)
  /-- In `next`. -/
  | leaving (phase : Phase) (atThreadEnd : Bool) (strategy : Strategy) (after : Option Spot)
  deriving DecidableEq, Repr

/-- The thread has the turn. -/
def Site.inTurn : Site → Bool
  | .off _ => false
  | _ => true

/-- A thread: where it is, its variables, its code, and what its calls have returned. -/
structure Thread where
  site : Site := .off none
  self : Local := {}
  code : Code := (0, 0)
  results : List Result := []
  deriving DecidableEq, Repr

namespace Thread

variable (o : Options) (sh : Shared) (program : Program) (handle : Tid → PthreadT) (th : Thread)

/-- What follows `putTurn` in `SCHED_TIMER_END`. -/
def finish : Option Thread :=
  if th.site = .off (some .returning) then
    some { th with self := afterPutTurn o sh th.self, site := .off (some .outside) }
  else none

/-- The thread comes to the `getTurn` of its next call. -/
def arrive : Option Thread :=
  if th.site = .off (some .outside) then
    let next := program th.code th.results
    some
      { th with
        self := next.1.foldl (Directive.apply o) th.self
        site := .off (some (.inside (.called (next.2.named handle)))) }
  else none

end Thread

/-! ### The turn holder -/

/-- **A turn**, as it is recorded: `op` says where the thread takes it, and `result` what the call
returns, when it does not wait for another turn. -/
structure Turn where
  turnCount : Nat
  tid : Tid
  op : Stage
  result : Option Result
  deriving DecidableEq, Repr

/-- What a step of the turn holder leaves: the scheduler, the shared maps, its own variables and its
site; what a call returned, the code of the thread it created, and the turn it took. -/
structure Act where
  env : Env Sched
  site : Site
  returned : Option Result := none
  born : Option Code := none
  took : Option Turn := none

/-- The scheduler that the wrappers run on. -/
def Sched.serializer (o : Options) : Serializer Sched where
  core := Sched.toCore
  signal := Sched.signal o
  incTurnCount s := s.incTurnCount o []
  create := Sched.create o
  join s th := { s with tm := s.tm.reap th }

namespace Act

/-- The thread enters `next`. -/
def leave (e : Env Sched) (sched : Option Sched) (atThreadEnd : Bool) (strategy : Strategy) (after : Option Spot)
    (returned : Option Result) : Option Act :=
  sched.map fun sched =>
    { env := { e with sched := sched }
      site := .leaving .checking atThreadEnd strategy after
      returned := returned }

/-- The thread gives the turn up. Only the idle thread calls `idle_cond_wait`. -/
def giveUp (o : Options) (tid : Tid) (e : Env Sched) : Finish → Option Act
  | .done isCreate result =>
    let chosen := getPutTurnStrategy o e.self isCreate
    leave { e with self := chosen.1 } ((e.sched.incTurnCount o []).putTurn o tid chosen.2) false chosen.2
      (some .returning) (some result)
  | .wait chan timeout stage =>
    leave e (e.sched.wait o tid chan timeout []) false .default (some (.inside stage)) none
  | .bounce stage => leave e (e.sched.putTurn o tid .default) false .default (some (.inside stage)) none
  | .ended => leave e ((e.sched.incTurnCount o []).putTurnAtEnd o tid) true .default none none
  | .release =>
    leave e ((e.sched.incTurnCount o []).putTurn o tid .default) false .default (some .outside) (some {})
  | .idle =>
    if tid = idleThreadTid then
      let sched := e.sched.incTurnCount o []
      if 2 ≤ sched.runq.numElements then
        some { env := { e with sched := sched }, site := .trying sched.second, returned := some {} }
      else leave e (sched.putTurn o tid .default) false .default (some .outside) (some {})
    else none
  | .exit => none

/-- The turn of a thread at a stage, where it may create the thread with the handle `th`. -/
def ofTurn (o : Options) (th : PthreadT) (tid : Tid) (e : Env Sched) (stage : Stage) : Option Act :=
  let stage := stage.withHandle th
  let r := MinSmt.turn (Sched.serializer o) o tid e stage
  (giveUp o tid r.1 r.2).map fun act =>
    { act with
      born := stage.bears
      took := some { turnCount := e.sched.turnCount, tid := tid, op := stage, result := act.returned } }

/-- The end of a round of `nextRunnable`. -/
def picked (e : Env Sched) (atThreadEnd : Bool) (strategy : Strategy) (after : Option Spot) :
    Sched.Pick → Option Act
  | .again sched strategy =>
    some { env := { e with sched := sched }, site := .leaving .picking atThreadEnd strategy after }
  | .grant sched next =>
    some { env := { e with sched := sched }, site := .leaving (.posting next) atThreadEnd strategy after }
  | .invalid => some { env := e, site := .off after }
  | _ => none

/-- A step inside `next`. -/
def leaving (o : Options) (tid : Tid) (e : Env Sched) (atThreadEnd : Bool) (strategy : Strategy)
    (after : Option Spot) : Phase → Option Act
  | .checking =>
    some
      { env := { e with sched := e.sched.checkWakeup o [] }
        site := .leaving .picking atThreadEnd strategy after }
  | .picking => picked e atThreadEnd strategy after (e.sched.nextRunnable o false tid atThreadEnd strategy)
  | .posting next => some { env := { e with sched := e.sched.post o next }, site := .off after }

/-- One look of `tryPutTurn` at an element. -/
def trying (o : Options) (tid : Tid) (e : Env Sched) : Option Tid → Option Act
  | none => leave e (e.sched.putTurn o tid .default) false .default (some .outside) none
  | some cur =>
    if (e.sched.elems cur).status = .runnable then
      leave e ((e.sched.setStatus cur .runningReg).idleEnqueue o tid) false .default (some .outside) none
    else some { env := e, site := .trying (e.sched.elems cur).next }

/-- **What the turn holder does next**; a thread in `getTurn` takes its post. `none` when it cannot go
on, or when the process ends. -/
def act (o : Options) (th : PthreadT) (tid : Tid) (e : Env Sched) : Site → Option Act
  | .off (some (.inside stage)) =>
    (e.sched.take o tid).map fun sched => { env := { e with sched := sched }, site := .turn stage }
  | .off _ => none
  | .turn stage => ofTurn o th tid e stage
  | .trying cur => trying o tid e cur
  | .leaving phase atThreadEnd strategy after => leaving o tid e atThreadEnd strategy after phase

end Act

/-! ### Processes -/

/-- A process. -/
structure Execution where
  sched : Sched
  shared : Shared := {}
  thread : Tid → Thread

/-- What a thread can do. -/
inductive ThreadMove
  /-- Execute what follows `putTurn` in `SCHED_TIMER_END`. -/
  | finish
  /-- Compute up to the `getTurn` of the next call. -/
  | arrive
  /-- Take the turn, or go on with it. -/
  | go
  deriving DecidableEq, Repr

namespace Execution

variable (o : Options) (program : Program) (handle : Tid → PthreadT) (p : Execution) (tid : Tid)

/-- The state as the thread sees it. -/
def env : Env Sched := ⟨p.sched, p.shared, (p.thread tid).self⟩

/-- The threads with the one that has been created. -/
def bear : Option Code → Tid → Thread
  | none => p.thread
  | some code =>
    Function.update p.thread p.sched.tm.nthread { site := .off (some .outside), code := code }

/-- The process after a step of the turn holder. -/
def put (act : Act) : Execution where
  sched := act.env.sched
  shared := act.env.shared
  thread := Function.update (p.bear act.born) tid
    { p.thread tid with
      site := act.site
      self := act.env.self
      results := (p.thread tid).results ++ act.returned.toList }

/-- One thread moves. -/
def move (th : Thread) : Execution := { p with thread := Function.update p.thread tid th }

/-- A step of the turn holder. -/
def act : Option Act := Act.act o (handle p.sched.tm.nthread) tid (p.env tid) (p.thread tid).site

/-- **One step of one thread.** -/
def step (label : Tid × ThreadMove) : Option Execution :=
  match label.2 with
  | .finish => ((p.thread label.1).finish o p.shared).map (p.move label.1)
  | .arrive => ((p.thread label.1).arrive o program handle).map (p.move label.1)
  | .go => (p.act o handle label.1).map (p.put label.1)

/-- The turn that a step takes. -/
def turnOf (label : Tid × ThreadMove) : Option Turn :=
  match label.2 with
  | .go => (p.act o handle label.1).bind Act.took
  | _ => none

/-- **The turns of a run.** -/
def turns (labels : List (Tid × ThreadMove)) : List Turn :=
  trace (step o program handle) (turnOf o handle) p labels

/-- The process at the start: the main thread has the first turn. -/
def init : Execution where
  sched := Sched.init o (handle mainThreadTid)
  thread := Function.update (fun _ => {}) mainThreadTid { site := .off (some .outside) }

end Execution

end MinSmt
