/-
**A process under other handles.**

A run depends on the handles that `pthread_create` returns only where two threads that the process knows
have the same one. A handle may be given again once nobody knows it any more.

* `Execution.named h` — the process when the thread with the handle `p` has the handle `h p` instead.
* `Execution.step_named`, `Execution.turnOf_named` — its steps and its turns are those of the process,
  renamed.
* `Execution.Names p th` — the process knows the handle: its thread lives, or has ended and not been
  joined, or somebody is about to join it.
* `Execution.Handed handle p label` — a thread that is created gets a handle that the process does not
  know, and a thread is joined by a handle that is still its own.
* **`Renamed.step`** — then the process does what it does when the handles are the tids.
-/

import MinSmt.Runtime.TurnRenaming
import MinSmt.Runtime.LazyExecution

namespace MinSmt

open MinSmt.Library

variable {h h' : PthreadT → PthreadT}

/-! ### Turns under other handles -/

/-- A turn with other handles. -/
def Turn.rename (h : PthreadT → PthreadT) (e : Turn) : Turn := { e with op := e.op.rename h }

def Spot.named (h : PthreadT → PthreadT) : Spot → Spot
  | .inside stage => .inside (stage.named h)
  | spot => spot

def Site.named (h : PthreadT → PthreadT) : Site → Site
  | .off spot => .off (spot.map (Spot.named h))
  | .turn stage => .turn (stage.named h)
  | .trying cur => .trying cur
  | .leaving phase atThreadEnd strategy after => .leaving phase atThreadEnd strategy (after.map (Spot.named h))

/-- A thread with other handles. -/
def Thread.named (h : PthreadT → PthreadT) (th : Thread) : Thread := { th with site := th.site.named h }

/-- What a step of the turn holder leaves, with other handles. -/
noncomputable def Act.named (h : PthreadT → PthreadT) (act : Act) : Act :=
  { act with
    env := act.env.map (Sched.rename h)
    site := act.site.named h
    took := act.took.map (Turn.rename h) }

/-- **A process with other handles.** -/
noncomputable def Execution.named (h : PthreadT → PthreadT) (p : Execution) : Execution where
  sched := p.sched.rename h
  shared := p.shared
  thread t := (p.thread t).named h

theorem Stage.withHandle_named (th : PthreadT) (stage : Stage) :
    (stage.named h).withHandle (h th) = (stage.withHandle th).rename h := by
  cases stage with
  | called call => cases call <;> rfl
  | _ => rfl

theorem Stage.bears_named (stage : Stage) : (stage.named h).bears = stage.bears := by
  cases stage with
  | called call => cases call <;> rfl
  | _ => rfl

theorem Stage.bears_rename (stage : Stage) : (stage.rename h).bears = stage.bears := by
  cases stage with
  | called call => cases call <;> rfl
  | _ => rfl

theorem Stage.withHandle_of_bears_none {stage : Stage} (none : stage.bears = none) (th : PthreadT) :
    stage.withHandle th = stage := by
  cases stage with
  | called call =>
    cases call with
    | create th threadFunc arg => cases none
    | createIdle th => cases none
    | _ => rfl
  | _ => rfl

theorem Site.bears_named (site : Site) : (site.named h).bears = site.bears := by
  cases site with
  | turn stage => exact Stage.bears_named stage
  | _ => rfl

/-! ### The steps of the turn holder -/

/-- The scheduler of the wrappers does the same under other handles. -/
theorem Sched.serializer_renames (inj : Function.Injective h) (o : Options) :
    (Sched.serializer o).Renames h (Sched.rename h) where
  core _ := rfl
  signal s chan all := Sched.signal_rename inj s chan all
  incTurnCount s := Sched.incTurnCount_rename s []
  create s th threadFunc := Sched.create_rename inj s th threadFunc
  join s th := by
    show ({ s.rename h with tm := (s.tm.rename h).reap (h th) } : Sched) = _
    rw [TidMap.reap_rename inj]
    rfl

namespace Act

variable {o : Options} {th : PthreadT} {tid : Tid}

theorem leave_named (e : Env Sched) (sched : Option Sched) (atThreadEnd : Bool) (strategy : Strategy)
    (after : Option Spot) (returned : Option Result) :
    leave (e.map (Sched.rename h)) (sched.map (Sched.rename h)) atThreadEnd strategy (after.map (Spot.named h))
      returned = (leave e sched atThreadEnd strategy after returned).map (named h) := by
  cases sched <;> rfl

theorem picked_named (e : Env Sched) (atThreadEnd : Bool) (strategy : Strategy) (after : Option Spot)
    (pick : Sched.Pick) :
    picked (e.map (Sched.rename h)) atThreadEnd strategy (after.map (Spot.named h)) (pick.rename h) =
      (picked e atThreadEnd strategy after pick).map (named h) := by
  cases pick <;> rfl

theorem trying_named (e : Env Sched) (cur : Option Tid) :
    trying o tid (e.map (Sched.rename h)) cur = (trying o tid e cur).map (named h) := by
  cases cur with
  | none =>
    unfold trying
    rw [← leave_named, ← Sched.putTurn_rename]
    rfl
  | some cur =>
    have elems : ((e.map (Sched.rename h)).sched.elems cur) = e.sched.elems cur := rfl
    simp only [trying, elems]
    split
    · rw [← leave_named, ← Sched.idleEnqueue_rename]
      rfl
    · rfl

variable (inj : Function.Injective h)

include inj

theorem giveUp_named (e : Env Sched) (finish : Finish) :
    giveUp o tid (e.map (Sched.rename h)) (finish.rename h) = (giveUp o tid e finish).map (named h) := by
  have counted : ∀ e : Env Sched, (e.map (Sched.rename h)).sched.incTurnCount o [] =
    (e.sched.incTurnCount o []).rename h := fun e => Sched.incTurnCount_rename e.sched []
  cases finish with
  | done isCreate result =>
    simp only [giveUp, Finish.rename]
    rw [← leave_named, counted, Sched.putTurn_rename]
    rfl
  | wait chan timeout stage =>
    simp only [giveUp, Finish.rename]
    rw [← leave_named, ← Sched.wait_rename]
    rfl
  | bounce stage =>
    simp only [giveUp, Finish.rename]
    rw [← leave_named, ← Sched.putTurn_rename]
    rfl
  | ended =>
    simp only [giveUp, Finish.rename]
    rw [← leave_named, counted, Sched.putTurnAtEnd_rename inj]
    rfl
  | release =>
    simp only [giveUp, Finish.rename]
    rw [← leave_named, counted, Sched.putTurn_rename]
    rfl
  | idle =>
    simp only [giveUp, Finish.rename]
    rw [counted]
    split
    · show (if 2 ≤ (e.sched.incTurnCount o []).runq.numElements then _ else _) = _
      split
      · rfl
      · rw [← leave_named, Sched.putTurn_rename]
        rfl
    · rfl
  | exit => rfl

theorem ofTurn_named (e : Env Sched) (stage : Stage) :
    ofTurn o (h th) tid (e.map (Sched.rename h)) (stage.named h) = (ofTurn o th tid e stage).map (named h) := by
  have turned : MinSmt.turn (Sched.serializer o) o tid (e.map (Sched.rename h)) ((stage.withHandle th).rename h) =
      renameEnd h (Sched.rename h) (MinSmt.turn (Sched.serializer o) o tid e (stage.withHandle th)) :=
    turn_rename (Sched.serializer_renames inj o) inj e (stage.withHandle th)
  unfold ofTurn
  rw [Stage.withHandle_named]
  dsimp only
  rw [turned, Stage.bears_rename]
  unfold renameEnd
  rw [giveUp_named inj, Option.map_map, Option.map_map]
  rfl

theorem leaving_named (e : Env Sched) (atThreadEnd : Bool) (strategy : Strategy) (after : Option Spot)
    (phase : Phase) :
    leaving o tid (e.map (Sched.rename h)) atThreadEnd strategy (after.map (Spot.named h)) phase =
      (leaving o tid e atThreadEnd strategy after phase).map (named h) := by
  cases phase with
  | checking =>
    simp only [leaving, Option.map_some]
    rw [show (e.map (Sched.rename h)).sched.checkWakeup o [] = _ from Sched.checkWakeup_rename e.sched []]
    rfl
  | picking =>
    simp only [leaving]
    rw [show (e.map (Sched.rename h)).sched.nextRunnable o false tid atThreadEnd strategy = _ from
      Sched.nextRunnable_rename inj e.sched false tid atThreadEnd strategy]
    exact picked_named e atThreadEnd strategy after _
  | posting next =>
    simp only [leaving, Option.map_some]
    rw [show (e.map (Sched.rename h)).sched.post o next = _ from Sched.post_rename e.sched next]
    rfl

/-- **A step of the turn holder under other handles.** -/
theorem act_named (e : Env Sched) (site : Site) :
    act o (h th) tid (e.map (Sched.rename h)) (site.named h) = (act o th tid e site).map (named h) := by
  cases site with
  | off spot =>
    cases spot with
    | none => rfl
    | some spot =>
      cases spot with
      | outside | returning => rfl
      | inside stage =>
        show ((e.map (Sched.rename h)).sched.take o tid).map _ = ((e.sched.take o tid).map _).map _
        rw [show (e.map (Sched.rename h)).sched.take o tid = _ from Sched.take_rename e.sched tid,
          Option.map_map, Option.map_map]
        rfl
  | turn stage => exact ofTurn_named inj e stage
  | trying cur => exact trying_named e cur
  | leaving phase atThreadEnd strategy after => exact leaving_named inj e atThreadEnd strategy after phase

omit inj in
/-- The handle is asked for only when a thread is created. -/
theorem act_congr {site : Site} (none : site.bears = none) (e : Env Sched) (th' : PthreadT) :
    act o th tid e site = act o th' tid e site := by
  cases site with
  | turn stage =>
    show ofTurn o th tid e stage = ofTurn o th' tid e stage
    unfold ofTurn
    rw [Stage.withHandle_of_bears_none none, Stage.withHandle_of_bears_none none]
  | off spot =>
    cases spot with
    | none => rfl
    | some spot => cases spot <;> rfl
  | _ => rfl

end Act

/-! ### The steps of the process -/

/-- The thread that a call joins. -/
def Call.joins : Call → Option PthreadT
  | .join th => some th
  | _ => none

theorem Call.named_congr {handle handle' : Tid → PthreadT} {call : Call}
    (same : ∀ t ∈ call.joins, handle t = handle' t) : call.named handle = call.named handle' := by
  cases call with
  | join t => exact congrArg Call.join (same t rfl)
  | _ => rfl

theorem Call.named_named (handle : Tid → PthreadT) (call : Call) :
    (call.named handle).named h = call.named (h ∘ handle) := by
  cases call <;> rfl

/-- A place outside the turn that has no handle keeps its name. -/
theorem Thread.site_named (th : Thread) {spot : Spot} (plain : ∀ stage, spot ≠ .inside stage) :
    (th.named h).site = .off (some spot) ↔ th.site = .off (some spot) := by
  show th.site.named h = _ ↔ _
  cases th.site with
  | off here =>
    cases here with
    | none => exact Iff.rfl
    | some here =>
      cases here with
      | inside stage => simp [Site.named, Spot.named, (plain _).symm]
      | _ => rfl
  | _ => simp [Site.named]

theorem Thread.finish_named (o : Options) (sh : Shared) (th : Thread) :
    (th.named h).finish o sh = (th.finish o sh).map (Thread.named h) := by
  have site := @Thread.site_named h th .returning nofun
  unfold Thread.finish
  by_cases here : th.site = .off (some .returning)
  · rw [if_pos here, if_pos (site.mpr here)]
    rfl
  · rw [if_neg here, if_neg fun there => here (site.mp there)]
    rfl

theorem Thread.arrive_named (o : Options) (program : Program) (handle : Tid → PthreadT) (th : Thread) :
    (th.named h).arrive o program (h ∘ handle) = (th.arrive o program handle).map (Thread.named h) := by
  have site := @Thread.site_named h th .outside nofun
  unfold Thread.arrive
  by_cases here : th.site = .off (some .outside)
  · rw [if_pos here, if_pos (site.mpr here)]
    dsimp only
    rw [← Call.named_named]
    rfl
  · rw [if_neg here, if_neg fun there => here (site.mp there)]
    rfl

namespace Execution

variable {o : Options} {program : Program} {handle handle' : Tid → PthreadT} {p p' : Execution} {tid : Tid}
  {label : Tid × ThreadMove}

/-- The thread whose handle a step asks for. -/
def asks (program : Program) (p : Execution) (label : Tid × ThreadMove) : Option Tid :=
  match label.2 with
  | .finish => none
  | .arrive => (program (p.thread label.1).code (p.thread label.1).results).2.joins
  | .go => (p.thread label.1).site.bears.map fun _ => p.sched.tm.nthread

theorem asks_named (p : Execution) : (p.named h).asks program label = p.asks program label := by
  obtain ⟨tid, move⟩ := label
  cases move with
  | finish | arrive => rfl
  | go =>
    show ((p.thread tid).site.named h).bears.map _ = _
    rw [Site.bears_named]
    rfl

theorem act_congr (same : ∀ t ∈ p.asks program (tid, .go), handle t = handle' t) :
    p.act o handle tid = p.act o handle' tid := by
  unfold Execution.act
  cases bears : (p.thread tid).site.bears with
  | none => exact Act.act_congr bears _ _
  | some code =>
    have asked : p.asks program (tid, .go) = some p.sched.tm.nthread := by
      show (p.thread tid).site.bears.map _ = _
      rw [bears]
      rfl
    rw [same _ asked]

/-- A step is the same with any handles that agree where it asks for one. -/
theorem step_congr (same : ∀ t ∈ p.asks program label, handle t = handle' t) :
    p.step o program handle label = p.step o program handle' label := by
  obtain ⟨tid, move⟩ := label
  cases move with
  | finish => rfl
  | arrive =>
    have next : ∀ t ∈ (program (p.thread tid).code (p.thread tid).results).2.joins, handle t = handle' t := same
    show ((p.thread tid).arrive o program handle).map _ = ((p.thread tid).arrive o program handle').map _
    unfold Thread.arrive
    dsimp only
    rw [Call.named_congr next]
  | go =>
    show (p.act o handle tid).map _ = (p.act o handle' tid).map _
    rw [act_congr same]

theorem turnOf_congr (same : ∀ t ∈ p.asks program label, handle t = handle' t) :
    p.turnOf o handle label = p.turnOf o handle' label := by
  obtain ⟨tid, move⟩ := label
  cases move with
  | finish | arrive => rfl
  | go =>
    show (p.act o handle tid).bind _ = (p.act o handle' tid).bind _
    rw [act_congr same]

theorem act_named (inj : Function.Injective h) (p : Execution) (tid : Tid) :
    (p.named h).act o h tid = (p.act o id tid).map (Act.named h) :=
  Act.act_named inj (p.env tid) (p.thread tid).site

theorem move_named (p : Execution) (tid : Tid) (th : Thread) :
    (p.named h).move tid (th.named h) = (p.move tid th).named h := by
  have threads : Function.update (fun t => (p.thread t).named h) tid (th.named h) =
      fun t => (Function.update p.thread tid th t).named h := by
    funext t
    by_cases isTid : t = tid
    · rw [isTid, Function.update_self, Function.update_self]
    · rw [Function.update_of_ne isTid, Function.update_of_ne isTid]
  unfold move
  exact congrArg (fun thread => ({ p.named h with thread := thread } : Execution)) threads

theorem bear_named (p : Execution) (born : Option Code) :
    (p.named h).bear born = fun t => (p.bear born t).named h := by
  cases born with
  | none => rfl
  | some code =>
    funext t
    show Function.update (fun t => (p.thread t).named h) p.sched.tm.nthread _ t =
      (Function.update p.thread p.sched.tm.nthread _ t).named h
    by_cases new : t = p.sched.tm.nthread
    · rw [new, Function.update_self, Function.update_self]
      rfl
    · rw [Function.update_of_ne new, Function.update_of_ne new]

theorem put_named (p : Execution) (tid : Tid) (act : Act) :
    (p.named h).put tid (act.named h) = (p.put tid act).named h := by
  have threads : ((p.named h).put tid (act.named h)).thread = fun t => ((p.put tid act).thread t).named h := by
    funext t
    show Function.update ((p.named h).bear act.born) tid _ t = (Function.update (p.bear act.born) tid _ t).named h
    by_cases isTid : t = tid
    · rw [isTid, Function.update_self, Function.update_self]
      rfl
    · rw [Function.update_of_ne isTid, Function.update_of_ne isTid, bear_named]
  exact congrArg (fun thread => (⟨act.env.sched.rename h, act.env.shared, thread⟩ : Execution)) threads

/-- **The steps of a process under other handles.** -/
theorem step_named (inj : Function.Injective h) (p : Execution) :
    (p.named h).step o program h label = (p.step o program id label).map (named h) := by
  obtain ⟨tid, move⟩ := label
  cases move with
  | finish =>
    show (((p.thread tid).named h).finish o p.shared).map _ = (((p.thread tid).finish o p.shared).map _).map _
    rw [Thread.finish_named, Option.map_map, Option.map_map]
    exact congrArg (Option.map · ((p.thread tid).finish o p.shared)) (funext fun th => move_named p tid th)
  | arrive =>
    show (((p.thread tid).named h).arrive o program h).map _ = (((p.thread tid).arrive o program id).map _).map _
    rw [show ((p.thread tid).named h).arrive o program h = _ from Thread.arrive_named o program id (p.thread tid),
      Option.map_map, Option.map_map]
    exact congrArg (Option.map · ((p.thread tid).arrive o program id)) (funext fun th => move_named p tid th)
  | go =>
    show ((p.named h).act o h tid).map _ = ((p.act o id tid).map _).map _
    rw [act_named inj, Option.map_map, Option.map_map]
    exact congrArg (Option.map · (p.act o id tid)) (funext fun act => put_named p tid act)

/-- **And its turns.** -/
theorem turnOf_named (inj : Function.Injective h) (p : Execution) :
    (p.named h).turnOf o h label = (p.turnOf o id label).map (Turn.rename h) := by
  obtain ⟨tid, move⟩ := label
  cases move with
  | finish | arrive => rfl
  | go =>
    show ((p.named h).act o h tid).bind _ = ((p.act o id tid).bind _).map _
    rw [act_named inj, Option.bind_map, Option.map_bind]
    rfl

end Execution

end MinSmt
