/-
**The runtime on the scheduler is the runtime under some order of turns.**

`Recorder` is the runtime without run queues: any thread that can take a turn may take the next one.
`Execution` runs the wrappers on `RRScheduler`, which hands the turns out, and cuts a turn at every access to
what the threads without it can write. Here every run of a program is a run of `Recorder`: what has been
proved of all orders of turns holds of the order of the scheduler.

* `Execution.Records` — the recorder that a process shows. While the idle thread is in `tryPutTurn` it has
  counted a turn that the recorder has not: only at the end of the loop it is known which step it was.
* `Execution.moveOf` — the step of the recorder that a step of a process shows.
* `Execution.IdleWaits` — the idle thread stands in `waitq` for `idle_cond` only.
* **`program_runs_recorder`** — every run of a program is a run of the recorder.
* **`program_loses_no_wakeup`** — so nobody waits in `waitq` for a lock that is to be had, unless a thread out
  of it is about to try for it.
-/

import MinSmt.Library.Trace
import MinSmt.Runtime.LostWakeups
import MinSmt.Runtime.TurnDiscipline
import MinSmt.Runtime.TurnProjection

namespace MinSmt

open MinSmt.Library Sched Sys

/-! ### Where a thread is -/

/-- A thread that is to take the first turn of a call has not called yet. -/
def Stage.spot : Stage → Spot
  | .called _ => .outside
  | stage => .inside stage

def Spot.recorded : Spot → Spot
  | .inside stage => stage.spot
  | spot => spot

/-- Where a thread goes on after `next`. -/
def Site.goesOn : Option Spot → Spot
  | none => .outside
  | some spot => spot.recorded

/-- **Where the recorder has the thread.** -/
def Site.spot : Site → Spot
  | .off spot => goesOn spot
  | .turn stage => stage.spot
  | .trying _ => .outside
  | .leaving _ _ _ spot => goesOn spot

/-- The thread is in the loop of `tryPutTurn`. -/
def Site.tries : Site → Bool
  | .trying _ => true
  | _ => false

/-- The stage at which a thread with the turn goes on. -/
def Site.atTurn : Site → Option Stage
  | .turn stage => some stage
  | _ => none

/-! ### What a process shows -/

/-- **The recorder that a process shows.** While the idle thread tries to pass its turn on, the turn that it
has counted is still to come. -/
structure Execution.Records (p : Execution) (r : Recorder) : Prop where
  core : p.sched.bare = if (p.thread idleThreadTid).site.tries then r.core.incTurnCount else r.core
  tries : ∀ t, (p.thread t).site.tries = true → t = idleThreadTid ∧ r.Ready t
  shared : r.shared = p.shared
  locals : ∀ t, r.locals t = (p.thread t).self.unlocked
  spots : ∀ t, r.spot t = (p.thread t).site.spot
  fresh : ∀ t, p.sched.tm.nthread ≤ t → r.locals t = {} ∧ (p.thread t).site = .off none
  sound : Recorder.Sound r.core r.spot

/-- A turn at the stage, as the recorder has it. -/
def Stage.move : Stage → Move
  | .called call => .call call
  | _ => .resume

/-- **The move that a step of the turn holder shows.** The start of `tryPutTurn` shows nothing yet. -/
def Act.move (th : PthreadT) (before : Sched) (act : Act) : Site → Option Move
  | .turn stage => if act.site.tries then none else some (stage.withHandle th).move
  | .trying none => some (.call .idleCondWait)
  | .trying (some _) => if act.site.tries then none else some .idleWait
  | .leaving .picking _ _ _ =>
    if idleThreadTid ∈ before.waitq ∧ idleThreadTid ∉ act.env.sched.waitq then some .wakeIdle else none
  | _ => none

/-- **The step of the recorder that a step shows.** -/
def Execution.moveOf (o : Options) (handle : Tid → PthreadT) (p : Execution) (label : Tid × ThreadMove) :
    Option (Tid × Move) :=
  match label.2 with
  | .finish => some (label.1, .finish)
  | .arrive => none
  | .go =>
    (p.act o handle label.1).bind fun act =>
      (act.move (handle p.sched.tm.nthread) p.sched (p.thread label.1).site).map (Prod.mk label.1)

/-- **The idle thread stands in `waitq` for `idle_cond` only.** The mutex that `idle_thread` locks is its own,
so it never waits for that. -/
def Execution.IdleWaits (o : Options) (p : Execution) (_ : Tid × ThreadMove) : Prop :=
  o.launchIdleThread ≠ 0 → idleThreadTid ∈ p.sched.waitq → (p.sched.waits idleThreadTid).chan = some .idleCond

instance (o : Options) (p : Execution) (label : Tid × ThreadMove) : Decidable (p.IdleWaits o label) :=
  inferInstanceAs (Decidable (_ → _ → _))

/-! ### The wait queue of the recorder -/

section WaitQueue

variable {c : Core} {hit : WaitT → Tid → Bool} {wake : WaitT → WaitT} {all : Bool}

/-- A pass that takes nobody. -/
theorem scan_of_missed {waits : Tid → WaitT} {queue : List Tid}
    (missed : ∀ t ∈ queue, hit (waits t) t = false) : scan hit wake all waits queue = ⟨waits, queue, []⟩ := by
  induction queue with
  | nil => rfl
  | cons t rest ih =>
    rw [scan_cons_miss (missed t List.mem_cons_self)]
    rw [ih fun t inside => missed t (List.mem_cons_of_mem _ inside)]

theorem pass_of_missed (missed : ∀ t ∈ c.waitq, hit (c.waits t) t = false) : (c.pass hit wake all).1 = c := by
  unfold Core.pass
  dsimp only
  rw [scan_of_missed missed]

/-- The idle thread is woken. -/
theorem wakeIdle_waitq (nodup : c.waitq.Nodup) : idleThreadTid ∉ c.wakeIdle.1.waitq := by
  intro stays
  obtain ⟨inside, notWoken⟩ := (scan_kept_iff nodup).mp stays
  rw [scan_woken_one] at notWoken
  cases found : c.waitq.find? fun t => t == idleThreadTid with
  | none => exact absurd (beq_self_eq_true idleThreadTid) (List.find?_eq_none.mp found _ inside)
  | some t =>
    have isHit := List.find?_some found
    have isIdle : t = idleThreadTid := eq_of_beq isHit
    rw [found, isIdle] at notWoken
    exact notWoken (List.mem_singleton_self _)

theorem wakeIdle_of_awake (awake : idleThreadTid ∉ c.waitq) : c.wakeIdle.1 = c :=
  pass_of_missed fun _ inside => beq_eq_false_iff_ne.mpr fun same => awake (same ▸ inside)

/-- Nobody in a wrapper waits for `non_det_cv`. -/
theorem stage_chan_ne_nonDet (stage : Stage) : stage.chan ≠ some .nonDetCV := by
  intro same
  cases stage with
  | retry loop => cases loop <;> cases same
  | _ => cases same

/-- So its broadcast wakes nobody. -/
theorem Recorder.Sound.broadcast_nonDet {spot : Tid → Spot} (sound : Recorder.Sound c spot) :
    (c.signal .nonDetCV true).1 = c := by
  refine pass_of_missed fun t inside => beq_eq_false_iff_ne.mpr fun same => ?_
  have parked := sound.parked t inside
  cases here : spot t with
  | inside stage =>
    rw [here] at parked
    exact stage_chan_ne_nonDet stage (parked.2.1.symm.trans same)
  | outside =>
    rw [here] at parked
    cases parked.1.symm.trans same
  | returning =>
    rw [here] at parked
    exact parked

end WaitQueue

/-- The recorder has nobody inside a call that is still to be made. -/
theorem Site.spot_ne_called (site : Site) (call : Call) : site.spot ≠ .inside (.called call) := by
  have ofStage : ∀ stage : Stage, stage.spot ≠ .inside (.called call) := fun stage inside => by
    cases stage <;> cases inside
  have after : ∀ spot, goesOn spot ≠ .inside (.called call) := fun spot inside => by
    cases spot with
    | none => cases inside
    | some spot =>
      cases spot with
      | inside stage => exact ofStage stage inside
      | outside | returning => cases inside
  cases site with
  | off spot => exact after spot
  | turn stage => exact ofStage stage
  | trying cur => exact fun inside => by cases inside
  | leaving phase atThreadEnd strategy spot => exact after spot

/-! ### The turns of the recorder -/

section Turns

variable {o : Options} {r r' : Recorder} {tid : Tid} {p : Execution} {act : Act} {stage : Stage}

namespace Recorder

theorem put_congr {e e' : Env Core} {core core' : Core} {spot spot' : Spot} (shared : e.shared = e'.shared)
    (self : e.self = e'.self) (same : core = core') (here : spot = spot') :
    r.put tid e core spot = r.put tid e' core' spot' := by
  subst same here
  unfold Recorder.put
  rw [shared, self]

/-- **The turn of a thread at the stage where the recorder has it.** -/
theorem step_of_turn (ready : r.Ready tid) (here : r.spot tid = stage.spot)
    (gave : r.giveUp o tid (r.turnOf o tid stage).1 (r.turnOf o tid stage).2 = some r') :
    r.step o (tid, stage.move) = some r' := by
  have taken : ∀ move, r.stageOf tid move = some stage → r.take o tid move = some r' := fun move isStage => by
    rw [take, if_pos ready, isStage]
    exact gave
  cases stage with
  | called call => exact taken (.call call) (if_pos here)
  | _ =>
    refine taken .resume ?_
    unfold stageOf
    dsimp only
    rw [here]
    rfl

end Recorder

/-- Only `idle_cond_wait` gives the turn up like that. -/
def Finish.Idles (stage : Stage) : Finish → Prop
  | .idle => stage = .called .idleCondWait
  | _ => True

section Idles

variable {σ : Type} {S : Serializer σ} {e : Env σ}

theorem Loop.enter_idles (e : Env σ) (loop : Loop) : (loop.enter o tid e).2.Idles stage := by
  unfold Loop.enter
  split
  · cases loop <;> trivial
  · trivial

theorem sleepFor_idles (e : Env σ) (ts : Option Timespec) : (sleepFor S o e ts).2.Idles stage := by
  unfold sleepFor
  split
  · split <;> trivial
  · trivial

theorem pthreadJoin_idles (e : Env σ) (th : PthreadT) : (pthreadJoin S e th).2.Idles stage := by
  unfold pthreadJoin
  split <;> trivial

theorem tryOnce_idles (e : Env σ) (attempt : Option Shared) : (tryOnce e attempt).2.Idles stage := by
  cases attempt <;> trivial

theorem callTurn_idles (e : Env σ) (call : Call) : (callTurn S o tid e call).2.Idles (.called call) := by
  cases call with
  | idleCondWait => exact rfl
  | join th => exact pthreadJoin_idles e th
  | mutexTryLock _ | tryrdlock _ | trywrlock _ => exact tryOnce_idles e _
  | mutexLock _ | rdlock _ | wrlock _ | semWait _ => exact Loop.enter_idles e _
  | mutexTimedLock mu cur abstime =>
    show (mutexTimedLock S o tid e mu cur abstime).2.Idles _
    unfold mutexTimedLock
    split
    · exact Loop.enter_idles e _
    · split
      · exact Loop.enter_idles e _
      · trivial
  | semTimedWait sem cur abstime =>
    show (semTimedWait S o tid e sem cur abstime).2.Idles _
    unfold semTimedWait
    split
    · exact Loop.enter_idles e _
    · split
      · exact Loop.enter_idles e _
      · trivial
  | barrierWait barrier =>
    show (barrierWait S e barrier).2.Idles _
    unfold barrierWait
    dsimp only
    repeat' split
    all_goals trivial
  | condTimedWait cv mu caller cur abstime =>
    show (condTimedWait S o tid e cv mu caller cur abstime).2.Idles _
    unfold condTimedWait
    split
    · trivial
    · dsimp only
      split <;> trivial
  | semTryWait sem =>
    show (semTryWait e sem).2.Idles _
    unfold semTryWait
    split <;> trivial
  | lineupStart opaqueType =>
    show (lineupStart S e opaqueType).2.Idles _
    unfold lineupStart
    dsimp only
    repeat' split
    all_goals trivial
  | lineupEnd opaqueType =>
    show (lineupEnd e opaqueType).2.Idles _
    unfold lineupEnd
    split <;> trivial
  | sleep _ | usleep _ | nanosleep _ => exact sleepFor_idles e _
  | _ => trivial

theorem turn_idles (e : Env σ) (stage : Stage) : (turn S o tid e stage).2.Idles stage := by
  cases stage with
  | called call => exact callTurn_idles e call
  | retry loop =>
    show (loop.resume S o tid e).2.Idles _
    rw [Loop.resume_eq_enter]
    exact Loop.enter_idles e loop
  | condWoken timed cv mu role =>
    show (condWoken S o tid e timed cv mu role).2.Idles _
    unfold condWoken
    split <;> exact Loop.enter_idles _ _
  | joining th => exact pthreadJoin_idles e th
  | lineupWoken opaqueType =>
    show (lineupWoken S e opaqueType).2.Idles _
    unfold lineupWoken
    repeat' split
    all_goals trivial
  | _ => trivial

end Idles

/-- Where a thread waits, the recorder has it inside. -/
theorem spot_of_waits (waits : stage.waits = true) : stage.spot = .inside stage := by
  cases stage with
  | called call => cases waits
  | _ => rfl

/-- **The turn is given up in the recorder as on the scheduler.** -/
theorem giveUp_shows (nonneg : 0 ≤ o.enforceTurnType) {e : Env Sched} {finish : Finish}
    (gave : Act.giveUp o tid e finish = some act) (goes : act.site.tries = false) (fits : finish.Fits stage) :
    r.giveUp o tid (e.project Sched.bare) finish =
      some (r.put tid (act.env.project Sched.bare) act.env.sched.bare act.site.spot) := by
  have counted := @incTurnCount_bare o nonneg e.sched []
  cases finish with
  | done isCreate result =>
    obtain ⟨sched, put, rfl⟩ := Option.map_eq_some_iff.mp gave
    have same : sched.bare = e.sched.bare.incTurnCount := (putTurn_bare put).trans counted
    exact congrArg some (Recorder.put_congr rfl (getPutTurnStrategy_unlocked o e.self isCreate) same.symm rfl)
  | wait chan timeout next =>
    obtain ⟨sched, waits, rfl⟩ := Option.map_eq_some_iff.mp gave
    exact congrArg some (Recorder.put_congr rfl rfl (wait_bare nonneg waits).symm (spot_of_waits fits.1).symm)
  | bounce next =>
    obtain ⟨sched, put, rfl⟩ := Option.map_eq_some_iff.mp gave
    obtain ⟨barrier, -, isLast⟩ := fits
    refine congrArg some (Recorder.put_congr rfl rfl (putTurn_bare put).symm ?_)
    rw [isLast]
    rfl
  | ended =>
    obtain ⟨sched, put, rfl⟩ := Option.map_eq_some_iff.mp gave
    have same : sched.bare = e.sched.bare.incTurnCount.finish tid := by
      rw [putTurnAtEnd_bare nonneg put, counted]
    exact congrArg some (Recorder.put_congr rfl rfl same.symm rfl)
  | release =>
    obtain ⟨sched, put, rfl⟩ := Option.map_eq_some_iff.mp gave
    have same : sched.bare = e.sched.bare.incTurnCount := (putTurn_bare put).trans counted
    exact congrArg some (Recorder.put_congr rfl rfl same.symm rfl)
  | idle =>
    simp only [Act.giveUp] at gave
    split at gave
    · split at gave
      · cases gave
        cases goes
      · obtain ⟨sched, put, rfl⟩ := Option.map_eq_some_iff.mp gave
        have same : sched.bare = e.sched.bare.incTurnCount := (putTurn_bare put).trans counted
        exact congrArg some (Recorder.put_congr rfl rfl same.symm rfl)
    · cases gave
  | exit => cases gave

/-- The start of `tryPutTurn`. -/
theorem giveUp_tries {e : Env Sched} {finish : Finish} (gave : Act.giveUp o tid e finish = some act)
    (tries : act.site.tries = true) :
    finish = .idle ∧ tid = idleThreadTid ∧ act.env = { e with sched := e.sched.incTurnCount o [] } := by
  cases finish with
  | idle =>
    simp only [Act.giveUp] at gave
    split at gave
    · rename_i isIdle
      split at gave
      · cases gave
        exact ⟨rfl, isIdle, rfl⟩
      · obtain ⟨sched, put, rfl⟩ := Option.map_eq_some_iff.mp gave
        cases tries
    · cases gave
  | exit => cases gave
  | _ =>
    obtain ⟨sched, put, rfl⟩ := Option.map_eq_some_iff.mp gave
    cases tries

end Turns

/-! ### Every step, and every run -/

namespace Execution

/-- Nobody but `tid` moves; a thread that is created is outside. -/
structure Moved (p p' : Execution) (tid : Tid) : Prop where
  alive : tid < p.sched.tm.nthread
  grown : p.sched.tm.nthread ≤ p'.sched.tm.nthread
  others : ∀ t, t ≠ tid → p'.thread t = p.thread t ∨
    (p.sched.tm.nthread ≤ t ∧ t < p'.sched.tm.nthread) ∧
      ∃ code, p'.thread t = { site := .off (some .outside), code := code }

section Steps

variable {o : Options} {program : Program} {handle : Tid → PthreadT} {p p' : Execution} {r r' : Recorder}
  {s : Sys} {tid : Tid} {act : Act}

namespace Moved

theorem put (alive : tid < p.sched.tm.nthread) (acted : p.act o handle tid = some act) :
    Moved p (p.put tid act) tid := by
  obtain ⟨born, nthread⟩ := (Act.act_does acted).2
  rw [← born] at nthread
  have grown : p.sched.tm.nthread ≤ act.env.sched.tm.nthread := nthread ▸ Nat.le_add_right _ _
  refine ⟨alive, grown, fun t other => ?_⟩
  rw [Uses.put_thread_of_ne other]
  cases isBorn : act.born with
  | none => exact Or.inl rfl
  | some code =>
    rw [isBorn] at nthread
    by_cases isNew : t = p.sched.tm.nthread
    · subst isNew
      exact Or.inr ⟨⟨Nat.le_refl _, nthread ▸ Nat.lt_succ_self _⟩, code, Function.update_self _ _ _⟩
    · exact Or.inl (Function.update_of_ne isNew _ _)

theorem tries_of_ne (moved : Moved p p' tid) {t : Tid} (other : t ≠ tid)
    (tries : (p'.thread t).site.tries = true) :
    (p.thread t).site.tries = true := by
  rcases moved.others t other with same | ⟨-, code, isNew⟩
  · rwa [same] at tries
  · rw [isNew] at tries
    cases tries

end Moved

/-- **What is left to show of a step.** -/
theorem Records.moved (records : p.Records r) (moved : Moved p p' tid)
    (core : p'.sched.bare = if (p'.thread idleThreadTid).site.tries then r'.core.incTurnCount else r'.core)
    (tries : ∀ t, (p'.thread t).site.tries = true → t = idleThreadTid ∧ r'.Ready t)
    (shared : r'.shared = p'.shared)
    (locals : r'.locals = Function.update r.locals tid (p'.thread tid).self.unlocked)
    (spots : r'.spot = Function.update r.spot tid (p'.thread tid).site.spot)
    (sound : Recorder.Sound r'.core r'.spot) : p'.Records r' := by
  have kept : ∀ t, t ≠ tid → r'.locals t = r.locals t ∧ r'.spot t = r.spot t := fun t other => by
    rw [locals, spots]
    exact ⟨Function.update_of_ne other _ _, Function.update_of_ne other _ _⟩
  have here : ∀ t, r'.locals t = (p'.thread t).self.unlocked ∧ r'.spot t = (p'.thread t).site.spot := by
    intro t
    by_cases same : t = tid
    · rw [same, locals, spots, Function.update_self, Function.update_self]
      exact ⟨rfl, rfl⟩
    · rw [(kept t same).1, (kept t same).2]
      rcases moved.others t same with stays | ⟨⟨isNew, -⟩, code, isThread⟩
      · rw [stays]
        exact ⟨records.locals t, records.spots t⟩
      · obtain ⟨noLocals, noThread⟩ := records.fresh t isNew
        rw [isThread, noLocals, records.spots, noThread]
        exact ⟨rfl, rfl⟩
  refine ⟨core, tries, shared, fun t => (here t).1, fun t => (here t).2, fun t isNew => ?_, sound⟩
  have before := moved.grown.trans isNew
  have other : t ≠ tid := fun same => Nat.not_lt.mpr before (same ▸ moved.alive)
  rw [(kept t other).1]
  rcases moved.others t other with stays | ⟨⟨-, notNew⟩, -⟩
  · rw [stays]
    exact records.fresh t before
  · exact absurd notNew (Nat.not_lt.mpr isNew)

/-- A thread that is somewhere has been created. -/
theorem Records.alive (records : p.Records r) {site : Site} (here : (p.thread tid).site = site)
    (created : site ≠ .off none) : tid < p.sched.tm.nthread := by
  by_contra isNew
  exact created (here.symm.trans (records.fresh tid (Nat.le_of_not_lt isNew)).2)

/-- A step after which no thread tries. -/
theorem Records.calm (records : p.Records r) (moved : Moved p p' tid)
    (alone : ∀ t, t ≠ tid → (p.thread t).site.tries = false) (after : (p'.thread tid).site.tries = false)
    (core : p'.sched.bare = r'.core) (shared : r'.shared = p'.shared)
    (locals : r'.locals = Function.update r.locals tid (p'.thread tid).self.unlocked)
    (spots : r'.spot = Function.update r.spot tid (p'.thread tid).site.spot)
    (sound : Recorder.Sound r'.core r'.spot) : p'.Records r' := by
  have nobody : ∀ t, (p'.thread t).site.tries = false := fun t => by
    by_cases same : t = tid
    · rw [same, after]
    · exact Bool.eq_false_iff.mpr fun tries =>
        Bool.false_ne_true ((alone t same).symm.trans (moved.tries_of_ne same tries))
  refine records.moved moved ?_ (fun t tries => ?_) shared locals spots sound
  · rw [nobody, if_neg Bool.false_ne_true, core]
  · rw [nobody] at tries
    cases tries

/-- A step of a thread outside `tryPutTurn` that leaves the wait queue as it is. -/
theorem Records.still (records : p.Records r) (alive : tid < p.sched.tm.nthread)
    (others : ∀ t, t ≠ tid → p'.thread t = p.thread t) (before : (p.thread tid).site.tries = false)
    (after : (p'.thread tid).site.tries = false) (same : p'.sched.bare = p.sched.bare) (core : r'.core = r.core)
    (shared : r'.shared = p'.shared)
    (locals : r'.locals = Function.update r.locals tid (p'.thread tid).self.unlocked)
    (spots : r'.spot = Function.update r.spot tid (p'.thread tid).site.spot)
    (sound : Recorder.Sound r'.core r'.spot) : p'.Records r' := by
  have nthread : p'.sched.bare.tm.nthread = p.sched.bare.tm.nthread := by rw [same]
  have sites : ∀ t, (p'.thread t).site.tries = (p.thread t).site.tries := fun t => by
    by_cases isTid : t = tid
    · rw [isTid, before, after]
    · rw [others t isTid]
  have moved : Moved p p' tid := ⟨alive, nthread.ge, fun t other => Or.inl (others t other)⟩
  refine records.moved moved ?_ (fun t tries => ?_) shared locals spots sound
  · rw [same, sites, core]
    exact records.core
  · rw [sites] at tries
    unfold Recorder.Ready
    rw [core]
    exact records.tries t tries

/-- A step inside `tryPutTurn`, or the one that leads there. -/
theorem Records.tried (records : p.Records r) (moved : Moved p p' idleThreadTid)
    (alone : ∀ t, t ≠ idleThreadTid → (p.thread t).site.tries = false)
    (after : (p'.thread idleThreadTid).site.tries = true) (ready : r.Ready idleThreadTid)
    (core : p'.sched.bare = r.core.incTurnCount) (shared : p'.shared = p.shared)
    (self : (p'.thread idleThreadTid).self = (p.thread idleThreadTid).self)
    (outside : r.spot idleThreadTid = .outside) : p'.Records r := by
  obtain ⟨cur, here⟩ : ∃ cur, (p'.thread idleThreadTid).site = .trying cur := by
    cases here : (p'.thread idleThreadTid).site with
    | trying cur => exact ⟨cur, rfl⟩
    | off _ | turn _ | leaving _ _ _ _ =>
      rw [here] at after
      cases after
  refine records.moved moved ?_ (fun t tries => ?_) (records.shared.trans shared.symm) ?_ ?_ records.sound
  · rw [after, if_pos rfl, core]
  · by_cases same : t = idleThreadTid
    · exact ⟨same, same ▸ ready⟩
    · cases (alone t same).symm.trans (moved.tries_of_ne same tries)
  · rw [self, ← records.locals]
    exact (Function.update_eq_self _ _).symm
  · rw [here]
    show r.spot = Function.update r.spot idleThreadTid .outside
    rw [← outside]
    exact (Function.update_eq_self _ _).symm

/-- While a thread has the turn, no other thread is in `tryPutTurn`. -/
theorem Uses.alone (uses : p.Uses o s) {site : Site} (here : (p.thread tid).site = site)
    (inTurn : site.inTurn = true) (t : Tid) (other : t ≠ tid) : (p.thread t).site.tries = false := by
  rw [← here] at inTurn
  obtain ⟨runq, hp, holder, inv⟩ := uses.sane.holds
  have mine : holder = some tid := inv.token.holder_eq ((uses.fits tid).inTurn.trans inTurn)
  refine Bool.eq_false_iff.mpr fun tries => other ?_
  have inTurn' : (p.thread t).site.inTurn = true := by
    cases here : (p.thread t).site with
    | trying cur => rfl
    | off _ | turn _ | leaving _ _ _ _ =>
      rw [here] at tries
      cases tries
  exact Option.some.inj ((inv.token.holder_eq ((uses.fits t).inTurn.trans inTurn')).symm.trans mine)

/-- With nobody in `tryPutTurn`, the wait queue is the recorder's. -/
theorem Records.core_eq (records : p.Records r) (nobody : ∀ t, (p.thread t).site.tries = false) :
    p.sched.bare = r.core := by
  rw [records.core, nobody, if_neg Bool.false_ne_true]

/-- The thread that takes a turn can take it in the recorder. -/
theorem Records.ready {stage : Stage} (records : p.Records r) (uses : p.Uses o s)
    (here : (p.thread tid).site = .turn stage) : p.sched.bare = r.core ∧ r.Ready tid := by
  have core : p.sched.bare = r.core := records.core_eq fun t => by
    by_cases same : t = tid
    · rw [same, here]
      rfl
    · exact uses.alone here rfl t same
  have there := (uses.fits_of_site here).of_turn
  obtain ⟨runq, hp, holder, inv⟩ := uses.sane.holds
  refine ⟨core, fun inside => ?_, ?_⟩
  · rw [← core, show p.sched.bare.waitq = p.sched.waitq from rfl, ← uses.sched] at inside
    have waits := inv.waiting tid inside
    rw [there] at waits
    cases waits
  · rw [← core]
    show p.sched.Live tid
    rw [← uses.sched]
    refine (inv.live tid).mpr ?_
    rw [there]
    rfl

/-! ### One step of a thread -/

/-- What a step shows. -/
def Shows (o : Options) (r : Recorder) (p' : Execution) (shown : Option (Tid × Move)) : Prop :=
  (shown = none ∧ p'.Records r) ∨
    ∃ label r', shown = some label ∧ r.step o label = some r' ∧ p'.Records r'

/-- The wrapper returns. -/
theorem Records.finish (records : p.Records r) {th : Thread}
    (finished : (p.thread tid).finish o p.shared = some th) :
    Shows o r (p.move tid th) (some (tid, .finish)) := by
  unfold Thread.finish at finished
  split at finished
  · rename_i here
    cases finished
    have returning : r.spot tid = .returning := by
      rw [records.spots, here]
      rfl
    have stepped : r.step o (tid, .finish) = some _ := if_pos returning
    refine Or.inr ⟨_, _, rfl, stepped, ?_⟩
    refine records.still (records.alive here (by simp)) (fun t other => Function.update_of_ne other _ _)
      (by rw [here]; rfl) ?_ rfl rfl records.shared ?_ ?_ (Recorder.sound_step records.sound stepped)
    · unfold Execution.move
      dsimp only
      rw [Function.update_self]
      rfl
    · unfold Execution.move
      dsimp only
      rw [Function.update_self, records.shared, records.locals, afterPutTurn_unlocked]
    · unfold Execution.move
      dsimp only
      rw [Function.update_self]
      rfl
  · cases finished

/-- The directives before a call write nothing that the recorder has. -/
theorem foldl_unlocked (directives : List Directive) (l : Local) :
    (directives.foldl (Directive.apply o) l).unlocked = l.unlocked := by
  induction directives generalizing l with
  | nil => rfl
  | cons directive directives ih => exact (ih _).trans (Directive.apply_unlocked o l directive)

/-- A thread that comes to `getTurn` has not called yet. -/
theorem Records.arrive (records : p.Records r) {th : Thread}
    (arrived : (p.thread tid).arrive o program handle = some th) : Shows o r (p.move tid th) none := by
  unfold Thread.arrive at arrived
  split at arrived
  · rename_i here
    cases arrived
    refine Or.inl ⟨rfl, records.still (records.alive here (by simp))
      (fun t other => Function.update_of_ne other _ _) (by rw [here]; rfl) ?_ rfl rfl records.shared ?_ ?_
      records.sound⟩
    · unfold Execution.move
      dsimp only
      rw [Function.update_self]
      rfl
    · unfold Execution.move
      dsimp only
      rw [Function.update_self, foldl_unlocked, ← records.locals]
      exact (Function.update_eq_self _ _).symm
    · unfold Execution.move
      dsimp only
      rw [Function.update_self]
      show r.spot = Function.update r.spot tid .outside
      rw [← show r.spot tid = .outside by rw [records.spots, here]; rfl]
      exact (Function.update_eq_self _ _).symm
  · cases arrived

/-- What the turn holder does leaves it at the site, with these variables. -/
theorem put_self : ((p.put tid act).thread tid).self = act.env.self := by
  show (Function.update (p.bear act.born) tid _ tid).self = _
  rw [Function.update_self]

open Single (put_site_self)

/-- A step of the turn holder outside `tryPutTurn` that shows nothing. -/
theorem Records.silent (records : p.Records r) (alive : tid < p.sched.tm.nthread)
    (born : act.born = none) (before : (p.thread tid).site.tries = false) (after : act.site.tries = false)
    (same : act.env.sched.bare = p.sched.bare) (shared : act.env.shared = p.shared)
    (self : act.env.self = (p.thread tid).self) (spot : act.site.spot = (p.thread tid).site.spot) :
    (p.put tid act).Records r := by
  refine records.still alive (fun t other => ?_) before ?_ same rfl (records.shared.trans shared.symm) ?_ ?_
    records.sound
  · rw [Uses.put_thread_of_ne other, born]
    rfl
  · rw [put_site_self, after]
  · rw [put_self, self, ← records.locals]
    exact (Function.update_eq_self _ _).symm
  · rw [put_site_self, spot, ← records.spots]
    exact (Function.update_eq_self _ _).symm

/-- `getTurn` returns. -/
theorem Records.take (rr : o.RoundRobin) (records : p.Records r) {stage : Stage}
    (here : (p.thread tid).site = .off (some (.inside stage)))
    (acted : p.act o handle tid = some act) : (p.put tid act).Records r := by
  unfold Execution.act at acted
  rw [here] at acted
  obtain ⟨sched, took, rfl⟩ := Option.map_eq_some_iff.mp acted
  exact records.silent (records.alive here (by simp)) rfl (by rw [here]; rfl) rfl (take_bare rr took) rfl rfl
    (by rw [here]; rfl)

/-- **A turn is a turn of the recorder.** -/
theorem Records.turn (nonneg : 0 ≤ o.enforceTurnType) (records : p.Records r) (uses : p.Uses o s)
    {stage : Stage} (here : (p.thread tid).site = .turn stage) (acted : p.act o handle tid = some act) :
    Shows o r (p.put tid act)
      ((act.move (handle p.sched.tm.nthread) p.sched (p.thread tid).site).map (Prod.mk tid)) := by
  obtain ⟨core, ready⟩ := records.ready uses here
  have alone := uses.alone here rfl
  have moved : Moved p (p.put tid act) tid := .put (records.alive here (by simp)) acted
  unfold Execution.act at acted
  rw [here] at acted
  obtain ⟨given, gave, rfl⟩ := Option.map_eq_some_iff.mp acted
  have spots : r.spot tid = (stage.withHandle (handle p.sched.tm.nthread)).spot := by
    rw [records.spots, here]
    unfold Stage.withHandle
    split <;> rfl
  generalize isStage : stage.withHandle (handle p.sched.tm.nthread) = named at gave spots moved
  have env : r.env tid = (p.env tid).project Sched.bare := by
    unfold Recorder.env
    rw [← core, records.shared, records.locals]
    rfl
  have turned : r.turnOf o tid named =
      projectEnd Sched.bare (MinSmt.turn (Sched.serializer o) o tid (p.env tid) named) := by
    unfold Recorder.turnOf
    rw [env]
    exact turn_project (serializer_projects nonneg) (p.env tid) named
  have fits := @turn_fits _ (Sched.serializer o) o tid (p.env tid) named
  rw [here]
  unfold Act.move
  cases tries : given.site.tries with
  | true =>
    obtain ⟨isFinish, isTid, isEnv⟩ := giveUp_tries gave tries
    have idles := @turn_idles o tid _ (Sched.serializer o) (p.env tid) named
    rw [isFinish] at idles
    subst isTid
    rw [show named = .called .idleCondWait from idles] at isEnv spots
    refine Or.inl ⟨rfl, records.tried moved alone ?_ ready ?_ ?_ ?_ spots⟩
    · rw [put_site_self, tries]
    · show given.env.sched.bare = _
      rw [isEnv, ← core]
      exact incTurnCount_bare nonneg p.sched []
    · show given.env.shared = _
      rw [isEnv]
      rfl
    · rw [put_self, isEnv]
      rfl
  | false =>
    have gave' : r.giveUp o tid (r.turnOf o tid named).1 (r.turnOf o tid named).2 =
        some (r.put tid (given.env.project Sched.bare) given.env.sched.bare given.site.spot) := by
      rw [turned]
      exact giveUp_shows nonneg gave tries fits
    have stepped := Recorder.step_of_turn ready spots gave'
    refine Or.inr ⟨_, _, ?_, stepped, records.calm moved alone ?_ rfl rfl ?_ ?_
      (Recorder.sound_step records.sound stepped)⟩
    · rw [← isStage]
      rfl
    · rw [put_site_self, tries]
    · rw [put_self]
      rfl
    · rw [put_site_self]
      rfl

/-- **`tryPutTurn`.** At its end it is known which step of the recorder it was. -/
theorem Records.trying (records : p.Records r) (uses : p.Uses o s) {cur : Option Tid}
    (here : (p.thread tid).site = .trying cur) (acted : p.act o handle tid = some act) :
    Shows o r (p.put tid act)
      ((act.move (handle p.sched.tm.nthread) p.sched (p.thread tid).site).map (Prod.mk tid)) := by
  have alone := uses.alone here rfl
  have moved : Moved p (p.put tid act) tid := .put (records.alive here (by simp)) acted
  obtain ⟨isTid, ready⟩ := records.tries tid (by rw [here]; rfl)
  have counted : p.sched.bare = r.core.incTurnCount := by
    rw [records.core, ← isTid, here]
    rfl
  have outside : r.spot tid = .outside := by
    rw [records.spots, here]
    rfl
  have own : r.locals tid = (p.thread tid).self.unlocked := records.locals tid
  unfold Execution.act at acted
  rw [here] at acted ⊢
  cases cur with
  | none =>
    obtain ⟨sched, put, rfl⟩ := Option.map_eq_some_iff.mp acted
    have stepped : r.step o (tid, (Stage.called .idleCondWait).move) = some _ :=
      @Recorder.step_of_turn o r _ tid (.called .idleCondWait) ready outside rfl
    refine Or.inr ⟨_, _, rfl, stepped, records.calm moved alone ?_ ?_ records.shared ?_ ?_
      (Recorder.sound_step records.sound stepped)⟩
    · rw [put_site_self]
      rfl
    · exact (putTurn_bare put).trans counted
    · rw [put_self]
      show Function.update r.locals tid (r.locals tid) = _
      rw [own]
      rfl
    · rw [put_site_self]
      rfl
  | some cur =>
    simp only [Act.act, Act.trying] at acted
    split at acted
    · obtain ⟨sched, waits, rfl⟩ := Option.map_eq_some_iff.mp acted
      have stepped : r.step o (tid, .idleWait) = some _ := if_pos ⟨ready, outside, isTid⟩
      refine Or.inr ⟨_, _, rfl, stepped, records.calm moved alone ?_ ?_ records.shared ?_ ?_
        (Recorder.sound_step records.sound stepped)⟩
      · rw [put_site_self]
        rfl
      · show sched.bare = _
        rw [idleEnqueue_bare waits, ← counted]
        rfl
      · rw [put_self]
        show r.locals = Function.update r.locals tid (p.thread tid).self.unlocked
        rw [← own]
        exact (Function.update_eq_self _ _).symm
      · rw [put_site_self]
        show r.spot = Function.update r.spot tid .outside
        rw [← outside]
        exact (Function.update_eq_self _ _).symm
    · cases acted
      subst isTid
      refine Or.inl ⟨rfl, records.tried moved alone ?_ ready counted rfl ?_ outside⟩
      · rw [put_site_self]
        rfl
      · rw [put_self]
        rfl

/-- A round of `nextRunnable` wakes at most the idle thread and those that pause before a non-det region. -/
theorem roused_of_picked {e : Env Sched} {atThreadEnd : Bool} {strategy : Strategy} {after : Option Spot}
    {pick : Pick} (shows : ∃ c, Roused o e.sched.bare c ∧ pick.Shows c)
    (picked : Act.picked e atThreadEnd strategy after pick = some act) :
    Roused o e.sched.bare act.env.sched.bare ∧ act.env.shared = e.shared ∧ act.env.self = e.self ∧
      act.born = none ∧ act.site.tries = false ∧ act.site.spot = Site.goesOn after := by
  obtain ⟨c, roused, shown⟩ := shows
  cases pick with
  | again sched strategy' =>
    cases picked
    obtain rfl : sched.bare = c := shown
    exact ⟨roused, rfl, rfl, rfl, rfl, rfl⟩
  | grant sched next =>
    cases picked
    obtain rfl : sched.bare = c := shown
    exact ⟨roused, rfl, rfl, rfl, rfl, rfl⟩
  | invalid =>
    cases picked
    exact ⟨.nobody, rfl, rfl, rfl, rfl, rfl⟩
  | exit | threadExit | crash => cases picked

/-- **A step inside `next`.** It shows something only when it wakes the idle thread. -/
theorem Records.leaving (rr : o.RoundRobin) (records : p.Records r) (uses : p.Uses o s) {phase : Phase}
    {atThreadEnd : Bool} {strategy : Strategy} {after : Option Spot}
    (here : (p.thread tid).site = .leaving phase atThreadEnd strategy after)
    (acted : p.act o handle tid = some act) (idles : p.IdleWaits o (tid, .go)) :
    Shows o r (p.put tid act)
      ((act.move (handle p.sched.tm.nthread) p.sched (p.thread tid).site).map (Prod.mk tid)) := by
  have alone := uses.alone here rfl
  have before : (p.thread tid).site.tries = false := by rw [here]; rfl
  have core : p.sched.bare = r.core := records.core_eq fun t => by
    by_cases same : t = tid
    · rw [same, before]
    · exact alone t same
  have alive := records.alive here (by simp)
  have moved : Moved p (p.put tid act) tid := .put alive acted
  unfold Execution.act at acted
  cases phase with
  | checking =>
    have silent := fun born => @Records.silent p r tid act records alive born before
    rw [here] at acted silent ⊢
    cases acted
    exact Or.inl ⟨rfl, silent rfl rfl (checkWakeup_bare rr.nonneg p.sched []) rfl rfl rfl⟩
  | posting next =>
    have silent := fun born => @Records.silent p r tid act records alive born before
    rw [here] at acted silent ⊢
    cases acted
    exact Or.inl ⟨rfl, silent rfl rfl (post_bare rr p.sched next) rfl rfl rfl⟩
  | picking =>
    rw [here] at acted
    obtain ⟨roused, shared, self, born, after', spot⟩ :=
      roused_of_picked (nextRunnable_shows rr.nonneg p.sched false tid atThreadEnd strategy) acted
    replace roused : Roused o p.sched.bare act.env.sched.bare := roused
    have silent : act.env.sched.bare = p.sched.bare → (p.put tid act).Records r := fun same =>
      records.silent alive born before after' same shared self (by rw [spot, here]; rfl)
    rw [here]
    unfold Act.move
    dsimp only
    generalize isLast : act.env.sched.bare = last at roused
    have waitq : act.env.sched.waitq = last.waitq := by rw [← isLast]; rfl
    have none_of : last = p.sched.bare → Shows o r (p.put tid act)
        ((if idleThreadTid ∈ p.sched.waitq ∧ idleThreadTid ∉ act.env.sched.waitq then some Move.wakeIdle
          else none).map (Prod.mk tid)) := fun same => by
      rw [if_neg fun both => both.2 (by rw [waitq, same]; exact both.1)]
      exact Or.inl ⟨rfl, silent (isLast.trans same)⟩
    cases roused with
    | nobody => exact none_of rfl
    | nonDet =>
      refine none_of ?_
      rw [core]
      exact records.sound.broadcast_nonDet
    | idle launched =>
      by_cases asleep : idleThreadTid ∈ p.sched.waitq
      · have woken : idleThreadTid ∉ act.env.sched.waitq := by
          rw [waitq, core]
          exact wakeIdle_waitq records.sound.nodup
        rw [if_pos ⟨asleep, woken⟩]
        have waits : (r.core.waits idleThreadTid).chan = some .idleCond := by
          rw [← core]
          exact idles launched asleep
        have stepped : r.step o (tid, .wakeIdle) = some _ := if_pos waits
        refine Or.inr ⟨_, _, rfl, stepped, records.calm moved alone ?_ ?_ ?_ ?_ ?_
          (Recorder.sound_step records.sound stepped)⟩
        · rw [put_site_self, after']
        · exact isLast.trans (by rw [core])
        · exact records.shared.trans shared.symm
        · rw [put_self, self]
          show r.locals = Function.update r.locals tid (p.thread tid).self.unlocked
          rw [← records.locals]
          exact (Function.update_eq_self _ _).symm
        · rw [put_site_self, spot]
          show r.spot = Function.update r.spot tid (Site.leaving .picking atThreadEnd strategy after).spot
          rw [← here, ← records.spots]
          exact (Function.update_eq_self _ _).symm
      · refine none_of (wakeIdle_of_awake ?_)
        exact asleep

/-- **Every step is a step of the recorder, or shows nothing.** -/
theorem Records.step (rr : o.RoundRobin) (records : p.Records r) (uses : p.Uses o s)
    {label : Tid × ThreadMove} (idles : p.IdleWaits o label)
    (stepped : p.step o program handle label = some p') : Shows o r p' (p.moveOf o handle label) := by
  obtain ⟨tid, threadMove⟩ := label
  cases threadMove with
  | finish =>
    obtain ⟨th, finished, rfl⟩ := Option.map_eq_some_iff.mp stepped
    exact records.finish finished
  | arrive =>
    obtain ⟨th, arrived, rfl⟩ := Option.map_eq_some_iff.mp stepped
    exact records.arrive arrived
  | go =>
    obtain ⟨act, acted, rfl⟩ := Option.map_eq_some_iff.mp stepped
    have shown : p.moveOf o handle (tid, .go) =
        (act.move (handle p.sched.tm.nthread) p.sched (p.thread tid).site).map (Prod.mk tid) := by
      show (p.act o handle tid).bind _ = _
      rw [acted]
      rfl
    rw [shown]
    cases here : (p.thread tid).site with
    | off spot =>
      have isStage : ∃ stage, spot = some (.inside stage) := by
        unfold Execution.act at acted
        rw [here] at acted
        cases spot with
        | none => cases acted
        | some spot =>
          cases spot with
          | inside stage => exact ⟨stage, rfl⟩
          | outside | returning => cases acted
      obtain ⟨stage, rfl⟩ := isStage
      exact Or.inl ⟨rfl, records.take rr here acted⟩
    | turn stage => exact here ▸ records.turn rr.nonneg uses here acted
    | trying cur => exact here ▸ records.trying uses here acted
    | leaving phase atThreadEnd strategy after => exact here ▸ records.leaving rr uses here acted idles

theorem Records.initial (rr : o.RoundRobin) (handle : Tid → PthreadT) :
    (Execution.init o handle).Records (Recorder.init o (handle mainThreadTid) {}) := by
  have sites : ∀ t, ((Execution.init o handle).thread t).site.tries = false ∧
      ((Execution.init o handle).thread t).site.spot = .outside ∧
      ((Execution.init o handle).thread t).self = {} := by
    intro t
    show (Function.update (fun _ => ({} : Thread)) mainThreadTid _ t).site.tries = false ∧ _
    unfold Execution.init
    dsimp only
    by_cases isMain : t = mainThreadTid
    · rw [isMain, Function.update_self]
      exact ⟨rfl, rfl, rfl⟩
    · rw [Function.update_of_ne isMain]
      exact ⟨rfl, rfl, rfl⟩
  refine ⟨?_, fun t tries => ?_, rfl, fun t => ?_, fun t => (sites t).2.1.symm, fun t isNew => ⟨rfl, ?_⟩,
    Recorder.sound_run (exec_nil _)⟩
  · rw [(sites _).1, if_neg Bool.false_ne_true]
    exact post_bare rr _ mainThreadTid
  · cases (sites t).1.symm.trans tries
  · rw [(sites t).2.2]
    rfl
  · have other : t ≠ mainThreadTid := by
      rintro rfl
      exact Nat.not_le.mpr Nat.zero_lt_one isNew
    show (Function.update (fun _ => ({} : Thread)) mainThreadTid _ t).site = _
    rw [Function.update_of_ne other]

end Steps

section Runs

variable {o : Options} (rr : o.RoundRobin) {program : Program} {handle : Tid → PthreadT}
  {labels : List (Tid × ThreadMove)} {p : Execution} {good : Execution → Tid × ThreadMove → Prop}
  {good' : Recorder → Tid × Move → Prop}

include rr

/-- A run of a program is a run of the recorder, by steps as good as what is known of those that show them. -/
theorem runs_recorder
    (regular : Along (Execution.step o program handle) Regular (Execution.init o handle) labels)
    (idles : Along (Execution.step o program handle) (IdleWaits o) (Execution.init o handle) labels)
    (fine : Along (Execution.step o program handle) good (Execution.init o handle) labels)
    (shown : ∀ p s r label label', p.Uses o s → p.Records r → good p label →
      p.moveOf o handle label = some label' → good' r label')
    (ran : exec (Execution.step o program handle) (Execution.init o handle) labels = some p) :
    ∃ r, exec (Recorder.step o) (Recorder.init o (handle mainThreadTid) {})
        (trace (Execution.step o program handle) (moveOf o handle) (Execution.init o handle) labels) = some r ∧
      Along (Recorder.step o) good' (Recorder.init o (handle mainThreadTid) {})
        (trace (Execution.step o program handle) (moveOf o handle) (Execution.init o handle) labels) ∧
      p.Records r := by
  have follows : ∀ (p : Execution) (r : Recorder) (label : Tid × ThreadMove) (next : Execution),
      (∃ s, p.Uses o s) ∧ p.Records r → (p.Regular label ∧ p.IdleWaits o label) ∧ good p label →
      p.step o program handle label = some next →
      (p.moveOf o handle label = none ∧ (∃ s, next.Uses o s) ∧ next.Records r) ∨
      ∃ label' r', p.moveOf o handle label = some label' ∧ good' r label' ∧ r.step o label' = some r' ∧
        (∃ s, next.Uses o s) ∧ next.Records r' := by
    rintro p r label next ⟨⟨s, uses⟩, records⟩ ⟨⟨few, idle⟩, isGood⟩ stepped
    obtain ⟨s', -, uses'⟩ := uses.step rr few stepped
    rcases records.step rr uses idle stepped with ⟨nothing, still⟩ | ⟨label', r', isShown, stepped', there⟩
    · exact Or.inl ⟨nothing, ⟨s', uses'⟩, still⟩
    · have fine' := shown p s r label label' uses records isGood isShown
      exact Or.inr ⟨label', r', isShown, fine', stepped', ⟨s', uses'⟩, there⟩
  obtain ⟨r, ran', along, -, records⟩ := exec_follows (fun p r => (∃ s, p.Uses o s) ∧ p.Records r) follows
    ⟨⟨_, Uses.initial rr handle⟩, Records.initial rr handle⟩ ((regular.and idles).and fine) ran
  exact ⟨r, ran', along, records⟩

end Runs

/-- A turn initialises a lock only while no thread waits on it. -/
def InitialisesUnused (p : Execution) (label : Tid × ThreadMove) : Prop :=
  ∀ on ∈ (p.thread label.1).site.atTurn.bind Stage.initialises, ∀ t ∈ p.sched.waitq,
    (p.sched.waits t).chan ≠ some on

instance (p : Execution) (label : Tid × ThreadMove) : Decidable (p.InitialisesUnused label) :=
  inferInstanceAs (Decidable (∀ _ ∈ _, _))

/-- The threads that a signal on the channel took out of the wait queue and that have not tried again. -/
def woken (p : Execution) (chan : Chan) : Finset Tid :=
  wokenOn p.sched.toCore (fun t => (p.thread t).site.spot.aim) chan

section Balance

variable {o : Options} {handle : Tid → PthreadT} {p : Execution} {r : Recorder} {s : Sys}

/-- Only a call initialises. -/
theorem called_of_initialises {move : Move} {stage : Stage} {on : Chan} (records : p.Records r) {tid : Tid}
    (isStage : r.stageOf tid move = some stage) (initialises : stage.initialises = some on) :
    ∃ call, move = .call call ∧ call.initialises = some on := by
  cases stage with
  | called call =>
    cases move with
    | call call' =>
      unfold Recorder.stageOf at isStage
      dsimp only at isStage
      split at isStage
      · cases isStage
        exact ⟨call, rfl, initialises⟩
      · cases isStage
    | resume =>
      unfold Recorder.stageOf at isStage
      dsimp only at isStage
      split at isStage
      · rename_i stage inside
        cases isStage
        rw [records.spots] at inside
        exact absurd inside (Site.spot_ne_called _ call)
      · cases isStage
    | finish | idleWait | wakeIdle => cases isStage
  | _ => cases initialises

/-- So does the turn of the recorder. -/
theorem Records.unused (records : p.Records r) (uses : p.Uses o s) {label : Tid × ThreadMove}
    (unused : p.InitialisesUnused label) {label' : Tid × Move} (shown : p.moveOf o handle label = some label') :
    r.InitialisesUnused label' := by
  obtain ⟨tid, threadMove⟩ := label
  rintro on member t inside
  obtain ⟨named, isNamed, initialises⟩ := Option.bind_eq_some_iff.mp member
  obtain ⟨call, isCall, ofCall⟩ := called_of_initialises records isNamed initialises
  cases threadMove with
  | finish =>
    cases shown
    cases isCall
  | arrive => cases shown
  | go =>
    obtain ⟨act, acted, shown⟩ := Option.bind_eq_some_iff.mp shown
    obtain ⟨move, isMove, rfl⟩ := Option.map_eq_some_iff.mp shown
    obtain rfl : move = .call call := isCall
    cases here : (p.thread tid).site with
    | turn stage =>
      rw [here] at isMove
      obtain ⟨core, -⟩ := records.ready uses here
      rw [← core] at inside ⊢
      refine unused on ?_ t inside
      rw [here]
      show stage.initialises = some on
      unfold Act.move at isMove
      dsimp only at isMove
      split at isMove
      · cases isMove
      · cases stage with
        | called call' =>
          cases call' with
          | create _ _ _ | createIdle _ =>
            cases isMove
            cases ofCall
          | _ =>
            cases isMove
            exact ofCall
        | _ => cases isMove
    | off _ =>
      rw [here] at isMove
      cases isMove
    | trying cur =>
      rw [here] at isMove
      cases cur with
      | none =>
        cases isMove
        cases ofCall
      | some cur =>
        unfold Act.move at isMove
        dsimp only at isMove
        split at isMove <;> cases isMove
    | leaving phase _ _ _ =>
      rw [here] at isMove
      cases phase with
      | picking =>
        unfold Act.move at isMove
        dsimp only at isMove
        split at isMove <;> cases isMove
      | checking | posting _ => cases isMove

/-- The balance of the recorder is that of the process. -/
theorem Records.balanced (records : p.Records r) (balanced : Recorder.Balanced r) :
    Fair p.sched.toCore p.shared (fun t => (p.thread t).site.spot.aim) none := by
  have spots : (fun t => (r.spot t).aim) = fun t => (p.thread t).site.spot.aim :=
    funext fun t => congrArg Spot.aim (records.spots t)
  have fair : Fair r.core p.shared (fun t => (p.thread t).site.spot.aim) none := by
    rw [← records.shared, ← spots]
    exact balanced
  show Fair p.sched.bare p.shared (fun t => (p.thread t).site.spot.aim) none
  rw [records.core]
  split
  · exact fair.turned (Core.Turned.refl none records.sound.nodup).incTurnCount
  · exact fair

end Balance

end Execution

section Programs

variable (o : Options) (rr : o.RoundRobin) (program : Program) (handle : Tid → PthreadT)
  (labels : List (Tid × ThreadMove))
  (regular : Along (Execution.step o program handle) Execution.Regular (Execution.init o handle) labels)
  (idles : Along (Execution.step o program handle) (Execution.IdleWaits o) (Execution.init o handle)
    labels)
  (p : Execution) (ran : exec (Execution.step o program handle) (Execution.init o handle) labels = some p)

include rr regular idles ran

/-- **Every run of a program on the scheduler is a run of the recorder**: along the moves that its steps show,
it ends with the same maps, the same wait queue, and every thread where it is. -/
theorem program_runs_recorder :
    ∃ r, exec (Recorder.step o) (Recorder.init o (handle mainThreadTid) {})
        (trace (Execution.step o program handle) (Execution.moveOf o handle) (Execution.init o handle) labels) =
          some r ∧ p.Records r := by
  obtain ⟨r, ran', -, records⟩ := @Execution.runs_recorder o rr program handle labels p (fun _ _ => True)
    (fun _ _ => True) regular idles (along_of_labels (fun _ _ => trivial) _)
    (fun _ _ _ _ _ _ _ _ _ => trivial) ran
  exact ⟨r, ran', records⟩

end Programs

/-- The main thread, which takes the mutex, and two threads that want it; the idle thread locks its own and
waits for `idle_cond`. -/
def contendedProgram : Program := fun code results =>
  let calls : List Call :=
    if code.1 = idleThreadFunc then [.threadBegin, .mutexLock 9, .idleCondWait]
    else if code.1 = 0 then
      [.threadBegin, .createIdle 0, .mutexLock 4, .create 0 7 0, .create 0 7 0, .mutexUnlock 4]
    else [.mutexLock 4]
  ([], (calls[results.length]?).getD .dummySync)

/-- The mutex has been given back, and the thread that was signalled has not tried again. -/
def contendedRun : List (Tid × ThreadMove) :=
  [0, 0, 1, 0, 1, 0].flatMap callLabels ++ (1, .arrive) :: List.replicate 6 (1, .go) ++
    (2, .arrive) :: goLabels 2 ++ callLabels 0 ++ (3, .arrive) :: goLabels 3 ++ callLabels 0

theorem program_runs_recorder_contendedRun :
    ∃ p r, exec (Execution.step {} contendedProgram id) (Execution.init {} id) contendedRun = some p ∧
      exec (Recorder.step {}) (Recorder.init {} 0 {}) (trace (Execution.step {} contendedProgram id)
        (Execution.moveOf {} id) (Execution.init {} id) contendedRun) = some r ∧
      p.sched.waitq = [1, 3] ∧ r.spot 1 = .outside ∧ r.spot 2 = .inside (.retry (.mutexLock 4)) := by
  obtain ⟨p, ran, isWaiting⟩ := @exec_of_any _ _ (Execution.step {} contendedProgram id) (Execution.init {} id)
    contendedRun (fun p => decide (p.sched.waitq = [1, 3] ∧ (p.thread 1).site.spot = .outside ∧
      (p.thread 2).site.spot = .inside (.retry (.mutexLock 4)))) (by decide +kernel)
  obtain ⟨waits, first, second⟩ := of_decide_eq_true isWaiting
  obtain ⟨r, ran', records⟩ := program_runs_recorder {} (by decide) contendedProgram id contendedRun
    (by decide +kernel) (by decide +kernel) p ran
  exact ⟨p, r, ran, ran', waits, (records.spots 1).trans first, (records.spots 2).trans second⟩

section Programs

variable (o : Options) (rr : o.RoundRobin) (program : Program) (handle : Tid → PthreadT)
  (labels : List (Tid × ThreadMove))
  (regular : Along (Execution.step o program handle) Execution.Regular (Execution.init o handle) labels)
  (idles : Along (Execution.step o program handle) (Execution.IdleWaits o) (Execution.init o handle)
    labels)
  (p : Execution) (ran : exec (Execution.step o program handle) (Execution.init o handle) labels = some p)

include rr regular idles ran

/-- **On the scheduler no wake-up is lost.** Who waits in `waitq` on a mutex or on a reader-writer lock waits
for a lock that is held, or a thread that was signalled on it has not tried again; and as long as a thread
waits on a semaphore, its value is at most the number of such threads. -/
theorem program_loses_no_wakeup
    (unused : Along (Execution.step o program handle) Execution.InitialisesUnused (Execution.init o handle)
      labels)
    (t : Tid) (inside : t ∈ p.sched.waitq) :
    (∀ mu, (p.sched.waits t).chan = some (.mutex mu) →
      (p.shared.mutex mu).held = true ∨ (p.woken (.mutex mu)).Nonempty) ∧
    (∀ rw, (p.sched.waits t).chan = some (.rwlock rw) →
      (p.shared.rwlock rw).held = true ∨ (p.woken (.rwlock rw)).Nonempty) ∧
    (∀ sem, (p.sched.waits t).chan = some (.sem sem) → p.shared.sem sem ≤ (p.woken (.sem sem)).card) := by
  obtain ⟨r, ran', along, records⟩ := @Execution.runs_recorder o rr program handle labels p
    Execution.InitialisesUnused Recorder.InitialisesUnused regular idles unused
    (fun _ _ _ _ _ uses records unused shown => records.unused uses unused shown) ran
  have fair := records.balanced (Recorder.balanced_run along ran')
  have lock : ∀ (held : Bool) (chan : Chan), (if held then 0 else 1) ≤ (p.woken chan).card →
      held = true ∨ (p.woken chan).Nonempty := by
    intro held chan balance
    cases held with
    | true => exact Or.inl rfl
    | false => exact Or.inr (Finset.card_pos.mp balance)
  refine ⟨fun mu waits => ?_, fun rw waits => ?_, fun sem waits => ?_⟩
  · exact lock _ _ (fair _ ⟨t, inside, waits⟩)
  · exact lock _ _ (fair _ ⟨t, inside, waits⟩)
  · exact fair _ ⟨t, inside, waits⟩

end Programs

theorem program_loses_no_wakeup_contendedRun :
    ∃ p, exec (Execution.step {} contendedProgram id) (Execution.init {} id) contendedRun = some p ∧
      p.sched.waitq = [1, 3] ∧ (p.shared.mutex 4).held = false ∧ (p.woken (.mutex 4)).Nonempty := by
  obtain ⟨p, ran, isWaiting⟩ := @exec_of_any _ _ (Execution.step {} contendedProgram id) (Execution.init {} id)
    contendedRun (fun p => decide (p.sched.waitq = [1, 3] ∧ (p.shared.mutex 4).held = false ∧
      (p.sched.waits 3).chan = some (.mutex 4))) (by decide +kernel)
  obtain ⟨waits, free, isMutex⟩ := of_decide_eq_true isWaiting
  have fair := (program_loses_no_wakeup {} (by decide) contendedProgram id contendedRun (by decide +kernel)
    (by decide +kernel) p ran (by decide +kernel) 3 (by rw [waits]; decide)).1 4 isMutex
  exact ⟨p, ran, waits, free, fair.resolve_left (by rw [free]; exact Bool.false_ne_true)⟩

end MinSmt
