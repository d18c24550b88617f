/-
**The runtime under any order of turns.**

`Recorder` is a process of `RecorderRT` without the run queues: the wait queue and its slots, the shared
maps, and for every thread its own variables and where it is in a wrapper. `Recorder.step o r (tid, move)`
is one turn of a thread that is not in the wait queue, whichever thread that is; so what holds after
every run of it does not depend on how the turns are handed out.

* `Core.serializer` — the scheduler that the wrappers run on here.
* `turn_turned` — every turn does to the wait queue what `Core.Turned` says.
* `Recorder.Sound` — the wait queue agrees with where the threads are, in every state (`sound_run`).
-/

import MinSmt.Library.Run
import MinSmt.Scheduler.Waking
import MinSmt.Runtime.Calls

namespace MinSmt

open MinSmt.Library

namespace Core

/-- The scheduler without its run queues. -/
def serializer (wakeamapPlus : Bool) : Serializer Core where
  core := id
  signal c chan all := (c.signal chan all).1
  incTurnCount := incTurnCount
  create c th threadFunc := { c with tm := c.tm.create wakeamapPlus th threadFunc }
  join c th := { c with tm := c.tm.reap th }

end Core

/-! ### What a turn does to the wait queue -/

namespace Core.Turned

/-- **The scheduler's operations do no more than that.** -/
theorem keeps (wakeamapPlus : Bool) (chan : Option Chan) (c : Core) :
    Keeps (Core.serializer wakeamapPlus) chan (Turned chan c) :=
  ⟨fun _ _ all isChan turned => turned.signal isChan all, fun _ turned => turned.incTurnCount,
    fun _ th threadFunc turned => turned.create wakeamapPlus th threadFunc,
    fun _ th turned => turned.join th⟩

end Core.Turned

/-- **Every turn does no more than that.** -/
theorem turn_turned {o : Options} {tid : Tid} {e : Env Core} {stage : Stage}
    (nodup : e.sched.waitq.Nodup) :
    Core.Turned stage.signals e.sched
      (turn (Core.serializer o.wakeamapPlus) o tid e stage).1.sched :=
  turn_keeps (Core.Turned.keeps o.wakeamapPlus stage.signals e.sched)
    (Core.Turned.refl stage.signals nodup)

/-! ### The process -/

/-- Where a thread is. -/
inductive Spot
  /-- Outside the wrappers. -/
  | outside
  /-- In a wrapper, at the stage where it goes on when it has the turn. -/
  | inside (stage : Stage)
  /-- At the end of a wrapper, after `putTurn`. -/
  | returning
  deriving DecidableEq, Repr

/-- A process, without its run queues. -/
structure Recorder where
  core : Core
  shared : Shared
  locals : Tid → Local := fun _ => {}
  spot : Tid → Spot := fun _ => .outside

/-- What a thread can do. -/
inductive Move
  /-- Call a wrapper, and take the first turn in it. -/
  | call (call : Call)
  /-- Take the next turn in a wrapper. -/
  | resume
  /-- Execute what follows `putTurn` in `SCHED_TIMER_END`. -/
  | finish
  /-- `idleThreadCondWait` of the idle thread. -/
  | idleWait
  /-- `wakeUpIdleThread`. -/
  | wakeIdle
  deriving DecidableEq, Repr

namespace Recorder

variable (o : Options) (r : Recorder) (tid : Tid)

/-- The state as the thread sees it. -/
def env : Env Core := ⟨r.core, r.shared, r.locals tid⟩

/-- **The turn of a thread at a stage.** -/
def turnOf (stage : Stage) : Env Core × Finish :=
  turn (Core.serializer o.wakeamapPlus) o tid (r.env tid) stage

/-- The process after a turn. -/
def put (e : Env Core) (core : Core) (spot : Spot) : Recorder where
  core := core
  shared := e.shared
  locals := Function.update r.locals tid e.self
  spot := Function.update r.spot tid spot

/-- The thread gives the turn up. -/
def giveUp (e : Env Core) : Finish → Option Recorder
  | .done isCreate _ =>
    some (r.put tid { e with self := (getPutTurnStrategy o e.self isCreate).1 }
      e.sched.incTurnCount .returning)
  | .wait chan timeout stage =>
    some (r.put tid e (e.sched.incTurnCount.enqueue tid chan timeout) (.inside stage))
  | .bounce stage => some (r.put tid e e.sched (.inside stage))
  | .ended => some (r.put tid e (e.sched.incTurnCount.finish tid) .outside)
  | .release => some (r.put tid e e.sched.incTurnCount .outside)
  | .idle => some (r.put tid e e.sched.incTurnCount .outside)
  | .exit => none

/-- The thread can take the turn. -/
def Ready : Prop := tid ∉ r.core.waitq ∧ r.core.Live tid

instance : Decidable (r.Ready tid) := inferInstanceAs (Decidable (_ ∧ _))

/-- The stage at which a move takes the turn. -/
def stageOf : Move → Option Stage
  | .call call => if r.spot tid = .outside then some (.called call) else none
  | .resume =>
    match r.spot tid with
    | .inside stage => some stage
    | _ => none
  | _ => none

/-- A thread takes the turn and gives it up. -/
def take (move : Move) : Option Recorder :=
  if r.Ready tid then
    (r.stageOf tid move).bind fun stage =>
      r.giveUp o tid (r.turnOf o tid stage).1 (r.turnOf o tid stage).2
  else none

/-- **One step.** The idle thread waits in `idleThreadCondWait` only, so it is woken only from there. -/
def step (label : Tid × Move) : Option Recorder :=
  match label.2 with
  | .finish =>
    if r.spot label.1 = .returning then
      some { r with
        locals := Function.update r.locals label.1 (afterPutTurn o r.shared (r.locals label.1))
        spot := Function.update r.spot label.1 .outside }
    else none
  | .idleWait =>
    if r.Ready label.1 ∧ r.spot label.1 = .outside ∧ label.1 = idleThreadTid then
      some { r with core := r.core.incTurnCount.enqueue label.1 (some .idleCond) forever }
    else none
  | .wakeIdle =>
    if (r.core.waits idleThreadTid).chan = some .idleCond then
      some { r with core := r.core.wakeIdle.1 }
    else none
  | move => r.take o label.1 move

/-- The main thread alone, with any objects. -/
def init (mainTh : PthreadT) (shared : Shared) : Recorder where
  core := { tm := TidMap.init o.wakeamapPlus mainTh }
  shared := shared

/-! ### What a step can do -/

/-- What a turn signals; a thread that ends signals its joiner. -/
def signalled (stage : Stage) : Option Chan :=
  if stage = .called .threadEnd then (r.core.tm.tToP tid).map .thread else stage.signals

/-- How the core and the thread are left after a turn whose operations led to the core `c`. -/
inductive GivenUp (c : Core) : Finish → Core → Spot → Prop
  | done (isCreate : Bool) (result : Result) : GivenUp c (.done isCreate result) c .returning
  | wait (chan : Option Chan) (timeout : Nat) (stage : Stage) :
      GivenUp c (.wait chan timeout stage) (c.enqueue tid chan timeout) (.inside stage)
  | bounce (stage : Stage) : GivenUp c (.bounce stage) c (.inside stage)
  | ended : GivenUp c .ended { c with tm := c.tm.zombify tid } .outside
  | release : GivenUp c .release c .outside
  | idle : GivenUp c .idle c .outside

/-- **What a turn leaves.** -/
structure Took (stage : Stage) (r' : Recorder) : Prop where
  ready : r.Ready tid
  gave : r.giveUp o tid (r.turnOf o tid stage).1 (r.turnOf o tid stage).2 = some r'
  turned : ∃ c, Core.Turned (r.signalled tid stage) r.core c ∧
    (∃ chan, Core.Turned chan (r.turnOf o tid stage).1.sched c) ∧
    GivenUp tid c (r.turnOf o tid stage).2 r'.core (r'.spot tid)
  shared : r'.shared = (r.turnOf o tid stage).1.shared
  spots : ∀ t, t ≠ tid → r'.spot t = r.spot t

variable {o r tid} {r' : Recorder}

theorem put_spot_self {e : Env Core} {core : Core} {spot : Spot} :
    (r.put tid e core spot).spot tid = spot := Function.update_self _ _ _

theorem put_spot_of_ne {e : Env Core} {core : Core} {spot : Spot} (t : Tid) (other : t ≠ tid) :
    (r.put tid e core spot).spot t = r.spot t := Function.update_of_ne other _ _

/-- The operations of a turn that does not end the thread. -/
theorem turned_of_turn (nodup : r.core.waitq.Nodup) {stage : Stage}
    (going : (r.turnOf o tid stage).2 ≠ .ended) :
    Core.Turned (r.signalled tid stage) r.core (r.turnOf o tid stage).1.sched := by
  have notEnd : stage ≠ .called .threadEnd := fun isEnd => going (by rw [isEnd]; rfl)
  rw [signalled, if_neg notEnd]
  exact @turn_turned o tid (r.env tid) stage nodup

/-- The operations after a turn that ends the thread. -/
theorem turned_of_end {c : Core} (nodup : c.waitq.Nodup) :
    ∃ c', Core.Turned ((c.tm.tToP tid).map .thread) c c' ∧
      c.incTurnCount.finish tid = { c' with tm := c'.tm.zombify tid } := by
  have counted := (Core.Turned.refl none nodup).incTurnCount
  unfold Core.finish
  have sameTm : c.incTurnCount.tm = c.tm := rfl
  rw [sameTm]
  cases handle : c.tm.tToP tid with
  | some th => exact ⟨_, (counted.weaken _).signal rfl false, rfl⟩
  | none => exact ⟨_, counted, rfl⟩

/-- **A turn leaves no more than `Took` says.** -/
theorem took_of_gave {stage : Stage} (nodup : r.core.waitq.Nodup) (ready : r.Ready tid)
    (gave : r.giveUp o tid (r.turnOf o tid stage).1 (r.turnOf o tid stage).2 = some r') :
    Took o r tid stage r' := by
  have turned := @turned_of_turn o r tid nodup stage
  have ended : (r.turnOf o tid stage).1.sched.waitq.Nodup :=
    (@turn_turned o tid (r.env tid) stage nodup).nodup
  have stays := Core.Turned.refl none ended
  have gaveUp := gave
  cases how : (r.turnOf o tid stage).2 with
  | done isCreate result =>
    rw [how] at gaveUp
    cases gaveUp
    refine ⟨ready, gave, ⟨_, (turned (by rw [how]; nofun)).incTurnCount,
      ⟨none, stays.incTurnCount⟩, ?_⟩, rfl, put_spot_of_ne⟩
    rw [how, put_spot_self]
    exact .done isCreate result
  | wait chan timeout next =>
    rw [how] at gaveUp
    cases gaveUp
    refine ⟨ready, gave, ⟨_, (turned (by rw [how]; nofun)).incTurnCount,
      ⟨none, stays.incTurnCount⟩, ?_⟩, rfl, put_spot_of_ne⟩
    rw [how, put_spot_self]
    exact .wait chan timeout next
  | bounce next =>
    rw [how] at gaveUp
    cases gaveUp
    refine ⟨ready, gave, ⟨_, turned (by rw [how]; nofun), ⟨none, stays⟩, ?_⟩, rfl, put_spot_of_ne⟩
    rw [how, put_spot_self]
    exact .bounce next
  | ended =>
    rw [how] at gaveUp
    cases gaveUp
    have isEnd : stage = .called .threadEnd := by
      have fits := @turn_fits _ (Core.serializer o.wakeamapPlus) o tid (r.env tid) stage
      have ended : (turn (Core.serializer o.wakeamapPlus) o tid (r.env tid) stage).2 = .ended := how
      rwa [ended] at fits
    subst isEnd
    obtain ⟨c, led, same⟩ := @turned_of_end tid r.core nodup
    refine ⟨ready, gave, ⟨c, ?_, ⟨_, led⟩, ?_⟩, rfl, put_spot_of_ne⟩
    · rw [signalled, if_pos rfl]
      exact led
    · rw [how, put_spot_self]
      show GivenUp tid c .ended (r.core.incTurnCount.finish tid) .outside
      rw [same]
      exact .ended
  | release =>
    rw [how] at gaveUp
    cases gaveUp
    refine ⟨ready, gave, ⟨_, (turned (by rw [how]; nofun)).incTurnCount,
      ⟨none, stays.incTurnCount⟩, ?_⟩, rfl, put_spot_of_ne⟩
    rw [how, put_spot_self]
    exact .release
  | idle =>
    rw [how] at gaveUp
    cases gaveUp
    refine ⟨ready, gave, ⟨_, (turned (by rw [how]; nofun)).incTurnCount,
      ⟨none, stays.incTurnCount⟩, ?_⟩, rfl, put_spot_of_ne⟩
    rw [how, put_spot_self]
    exact .idle
  | exit =>
    rw [how] at gaveUp
    cases gaveUp

theorem took_of_take {move : Move} (nodup : r.core.waitq.Nodup)
    (stepped : r.take o tid move = some r') :
    ∃ stage, r.stageOf tid move = some stage ∧ Took o r tid stage r' := by
  unfold take at stepped
  split at stepped
  · rename_i ready
    obtain ⟨stage, isStage, gave⟩ := Option.bind_eq_some_iff.mp stepped
    exact ⟨stage, isStage, took_of_gave nodup ready gave⟩
  · cases stepped

/-! ### The wait queue agrees with the threads -/

/-- Where a thread in the wait queue is, and what its slot says. -/
def Parked : Spot → WaitT → Prop
  | .inside stage, w => stage.waits = true ∧ w.chan = stage.chan ∧
      ∀ last, stage.timeout = some last → w.timeout = last
  | .outside, w => w.chan = some .idleCond ∧ w.timeout = forever
  | .returning, _ => False

/-- **The invariant.** -/
structure Sound (c : Core) (spot : Tid → Spot) : Prop where
  nodup : c.waitq.Nodup
  known : ∀ t, c.Live t → t < c.tm.nthread
  live : ∀ t ∈ c.waitq, c.Live t
  parked : ∀ t ∈ c.waitq, Parked (spot t) (c.waits t)

theorem enqueue_waits_self {c : Core} {chan : Option Chan} {timeout : Nat} :
    (c.enqueue tid chan timeout).waits tid =
      { c.waits tid with chan := chan, timeout := timeout } := Function.update_self _ _ _

theorem enqueue_waits_of_ne {c : Core} {chan : Option Chan} {timeout : Nat} {t : Tid}
    (other : t ≠ tid) : (c.enqueue tid chan timeout).waits t = c.waits t :=
  Function.update_of_ne other _ _

theorem mem_enqueue {c : Core} {chan : Option Chan} {timeout : Nat} {t : Tid} :
    t ∈ (c.enqueue tid chan timeout).waitq ↔ t ∈ c.waitq ∨ t = tid := by
  show t ∈ c.waitq ++ [tid] ↔ _
  rw [List.mem_append, List.mem_singleton]

namespace Sound

variable {c c' : Core} {spot spot' : Tid → Spot}

/-- The operations of a turn keep the threads in the wait queue where they are. -/
theorem turned (sound : Sound c spot) {chan : Option Chan} (ops : Core.Turned chan c c')
    (free : tid ∉ c.waitq) (spots : ∀ t, t ≠ tid → spot' t = spot t) : Sound c' spot' := by
  refine ⟨ops.nodup, ops.known sound.known,
    fun t inside => ops.live t (sound.live t (ops.kept.subset inside)), fun t inside => ?_⟩
  have before := ops.kept.subset inside
  rw [spots t fun same => free (same ▸ before), ops.same t (Or.inl inside)]
  exact sound.parked t before

/-- A thread that was not in the wait queue enters it. -/
theorem enqueue (sound : Sound c spot) (free : tid ∉ c.waitq) (alive : c.Live tid)
    {chan : Option Chan} {timeout : Nat}
    (fits : Parked (spot tid) { c.waits tid with chan := chan, timeout := timeout }) :
    Sound (c.enqueue tid chan timeout) spot := by
  refine ⟨?_, sound.known, fun t inside => ?_, fun t inside => ?_⟩
  · show (c.waitq ++ [tid]).Nodup
    rw [List.nodup_append]
    refine ⟨sound.nodup, List.nodup_singleton tid, fun t inside u isTid => ?_⟩
    rw [List.mem_singleton.mp isTid]
    exact fun same => free (same ▸ inside)
  · rcases mem_enqueue.mp inside with old | rfl
    · exact sound.live t old
    · exact alive
  · rcases mem_enqueue.mp inside with old | rfl
    · have other : t ≠ tid := fun same => free (same ▸ old)
      rw [enqueue_waits_of_ne other]
      exact sound.parked t old
    · rw [enqueue_waits_self]
      exact fits

/-- A thread that is not in the wait queue ends. -/
theorem zombify (sound : Sound c spot) (free : tid ∉ c.waitq) :
    Sound { c with tm := c.tm.zombify tid } spot := by
  refine ⟨sound.nodup, fun t alive => ?_, fun t inside => ?_, sound.parked⟩
  · show t < (c.tm.zombify tid).nthread
    rw [TidMap.zombify_nthread]
    refine sound.known t ?_
    have still : ((c.tm.zombify tid).tToP t).isSome = true := alive
    rw [TidMap.zombify_tToP] at still
    by_cases same : t = tid
    · rw [same, Function.update_self] at still
      cases still
    · rwa [Function.update_of_ne same] at still
  · have other : t ≠ tid := fun same => free (same ▸ inside)
    show ((c.tm.zombify tid).tToP t).isSome = true
    rw [TidMap.zombify_tToP, Function.update_of_ne other]
    exact sound.live t inside

/-- What a turn leaves is sound. -/
theorem took (sound : Sound r.core r.spot) {stage : Stage} (took : Took o r tid stage r') :
    Sound r'.core r'.spot := by
  obtain ⟨free, alive⟩ := took.ready
  obtain ⟨c, ops, -, givenUp⟩ := took.turned
  have here := sound.turned ops free took.spots
  have still : tid ∉ c.waitq := fun inside => free (ops.kept.subset inside)
  have fits := @turn_fits _ (Core.serializer o.wakeamapPlus) o tid (r.env tid) stage
  generalize ended : r'.core = core at givenUp ⊢
  generalize left : r'.spot tid = spot at givenUp
  generalize how : (r.turnOf o tid stage).2 = finish at givenUp
  cases givenUp with
  | wait chan timeout next =>
    refine here.enqueue still (ops.live tid alive) ?_
    have parks : (turn (Core.serializer o.wakeamapPlus) o tid (r.env tid) stage).2 =
      .wait chan timeout next := how
    rw [parks] at fits
    rw [left]
    exact fits
  | ended => exact here.zombify still
  | _ => exact here

/-- A pass over the wait queue leaves the others as they are. -/
theorem pass (sound : Sound c spot) (hit : WaitT → Tid → Bool) (wake : WaitT → WaitT) (all : Bool) :
    Sound (c.pass hit wake all).1 spot := by
  have shorter := @scan_kept_sublist hit wake all c.waits c.waitq
  refine ⟨sound.nodup.sublist shorter, sound.known, fun t inside => ?_, fun t inside => ?_⟩
  · exact sound.live t (shorter.subset inside)
  · have stays := (@scan_kept_iff hit wake all c.waits c.waitq sound.nodup t).mp inside
    have slot : (c.pass hit wake all).1.waits t = c.waits t := scan_frame c.waitq stays.2
    rw [slot]
    exact sound.parked t stays.1

/-- `idleThreadCondWait` leaves a sound state. -/
theorem idleWait (sound : Sound r.core r.spot) (ready : r.Ready tid)
    (outside : r.spot tid = .outside) :
    Sound (r.core.incTurnCount.enqueue tid (some .idleCond) forever) r.spot := by
  have ops := (Core.Turned.refl none sound.nodup).incTurnCount
  have counted := sound.turned ops ready.1 fun _ _ => rfl
  refine counted.enqueue (fun inside => ready.1 (ops.kept.subset inside)) ready.2 ?_
  rw [outside]
  exact ⟨rfl, rfl⟩

end Sound

/-- **What a step can do.** -/
theorem step_cases {move : Move} (nodup : r.core.waitq.Nodup)
    (stepped : r.step o (tid, move) = some r') :
    (∃ stage, r.stageOf tid move = some stage ∧ Took o r tid stage r') ∨
    (move = .finish ∧ r.spot tid = .returning ∧ r' = { r with
      locals := Function.update r.locals tid (afterPutTurn o r.shared (r.locals tid))
      spot := Function.update r.spot tid .outside }) ∨
    (move = .idleWait ∧ r.Ready tid ∧ r.spot tid = .outside ∧ r' = { r with
      core := r.core.incTurnCount.enqueue tid (some .idleCond) forever }) ∨
    (move = .wakeIdle ∧ (r.core.waits idleThreadTid).chan = some .idleCond ∧
      r' = { r with core := r.core.wakeIdle.1 }) := by
  cases move with
  | call call => exact Or.inl (took_of_take nodup stepped)
  | resume => exact Or.inl (took_of_take nodup stepped)
  | finish =>
    simp only [step] at stepped
    split at stepped
    · rename_i returning
      exact Or.inr (Or.inl ⟨rfl, returning, (Option.some.inj stepped).symm⟩)
    · cases stepped
  | idleWait =>
    simp only [step] at stepped
    split at stepped
    · rename_i enabled
      exact Or.inr (Or.inr (Or.inl ⟨rfl, enabled.1, enabled.2.1, (Option.some.inj stepped).symm⟩))
    · cases stepped
  | wakeIdle =>
    simp only [step] at stepped
    split at stepped
    · rename_i idle
      exact Or.inr (Or.inr (Or.inr ⟨rfl, idle, (Option.some.inj stepped).symm⟩))
    · cases stepped

/-- Giving the turn up writes the thread's own slot only, and only when it waits. -/
theorem GivenUp.other {c core : Core} {finish : Finish} {spot : Spot}
    (givenUp : GivenUp tid c finish core spot) {t : Tid} (other : t ≠ tid) :
    (t ∈ core.waitq ↔ t ∈ c.waitq) ∧ core.waits t = c.waits t := by
  cases givenUp with
  | wait chan timeout stage =>
    exact ⟨mem_enqueue.trans (or_iff_left other), enqueue_waits_of_ne other⟩
  | _ => exact ⟨Iff.rfl, rfl⟩

/-- A thread moves by its own steps only. -/
theorem step_spot {move : Move} (nodup : r.core.waitq.Nodup)
    (stepped : r.step o (tid, move) = some r') {t : Tid} (other : t ≠ tid) :
    r'.spot t = r.spot t := by
  rcases step_cases nodup stepped with ⟨stage, _, took⟩ | ⟨_, _, rfl⟩ | ⟨_, _, _, rfl⟩ | ⟨_, _, rfl⟩
  · exact took.spots t other
  · exact Function.update_of_ne other _ _
  · rfl
  · rfl

/-- What a thread keeps in its own variables when it gives the turn up; `getPutTurnStrategy` clears
`yield_this`. -/
theorem took_locals {stage : Stage} (took : Took o r tid stage r') :
    ∃ yieldThis, r'.locals tid = { (r.turnOf o tid stage).1.self with yieldThis := yieldThis } := by
  have gave := took.gave
  cases how : (r.turnOf o tid stage).2 with
  | done isCreate result =>
    rw [how] at gave
    cases gave
    refine ⟨(getPutTurnStrategy o (r.turnOf o tid stage).1.self isCreate).1.yieldThis, ?_⟩
    refine (Function.update_self _ _ _).trans ?_
    show (getPutTurnStrategy o _ isCreate).1 = _
    unfold getPutTurnStrategy
    repeat' split
    all_goals rfl
  | exit =>
    rw [how] at gave
    cases gave
  | _ =>
    rw [how] at gave
    cases gave
    exact ⟨_, Function.update_self _ _ _⟩

/-- The process goes on after a turn that a step takes. -/
theorem Took.goes {stage : Stage} (took : Took o r tid stage r') : (r.turnOf o tid stage).2 ≠ .exit := by
  intro isExit
  have gave := took.gave
  rw [isExit] at gave
  cases gave

/-- A turn writes its own thread's variables only. -/
theorem Took.locals {stage : Stage} (took : Took o r tid stage r') (t : Tid) (other : t ≠ tid) :
    r'.locals t = r.locals t := by
  have gave := took.gave
  cases how : (r.turnOf o tid stage).2 with
  | exit => exact absurd how took.goes
  | _ =>
    rw [how] at gave
    cases gave
    exact Function.update_of_ne other _ _

/-- A thread's own variables are written by its own steps only. -/
theorem step_locals {move : Move} (nodup : r.core.waitq.Nodup)
    (stepped : r.step o (tid, move) = some r') {t : Tid} (other : t ≠ tid) :
    r'.locals t = r.locals t := by
  rcases step_cases nodup stepped with ⟨stage, _, took⟩ | ⟨_, _, rfl⟩ | ⟨_, _, _, rfl⟩ | ⟨_, _, rfl⟩
  · exact took.locals t other
  · exact Function.update_of_ne other _ _
  · rfl
  · rfl

/-- **A thread that is not in the wait queue stays out of it, unless it enters it itself.** -/
theorem step_frame {move : Move} (nodup : r.core.waitq.Nodup)
    (stepped : r.step o (tid, move) = some r') {t : Tid} (other : t ≠ tid ∨ move = .wakeIdle)
    (free : t ∉ r.core.waitq) : t ∉ r'.core.waitq ∧ r'.core.waits t = r.core.waits t := by
  rcases step_cases nodup stepped with ⟨stage, isStage, took⟩ | ⟨_, _, rfl⟩ | ⟨isIdle, _, _, rfl⟩ |
    ⟨_, _, rfl⟩
  · have different : t ≠ tid := by
      rcases other with different | isWake
      · exact different
      · rw [isWake] at isStage
        cases isStage
    obtain ⟨c, ops, -, givenUp⟩ := took.turned
    obtain ⟨member, slot⟩ := givenUp.other different
    have still : t ∉ c.waitq := fun inside => free (ops.kept.subset inside)
    exact ⟨fun inside => still (member.mp inside), slot.trans (ops.same t (Or.inr free))⟩
  · exact ⟨free, rfl⟩
  · have different : t ≠ tid := by
      rcases other with different | isWake
      · exact different
      · rw [isIdle] at isWake
        cases isWake
    have ops := (Core.Turned.refl none nodup).incTurnCount
    refine ⟨fun inside => ?_, (enqueue_waits_of_ne different).trans (ops.same t (Or.inr free))⟩
    rcases mem_enqueue.mp inside with before | same
    · exact free (ops.kept.subset before)
    · exact different same
  · refine ⟨fun inside => free (scan_kept_subset _ _ inside), ?_⟩
    exact scan_frame _ fun woken => free (scan_woken_subset _ _ woken)

/-- **Every step keeps the wait queue and the threads in agreement.** -/
theorem sound_step {label : Tid × Move} (sound : Sound r.core r.spot)
    (stepped : r.step o label = some r') : Sound r'.core r'.spot := by
  obtain ⟨tid, move⟩ := label
  rcases step_cases sound.nodup stepped with ⟨stage, _, took⟩ | ⟨_, returning, rfl⟩ |
    ⟨_, ready, outside, rfl⟩ | ⟨_, _, rfl⟩
  · exact sound.took took
  · refine ⟨sound.nodup, sound.known, sound.live, fun t inside => ?_⟩
    have parked := sound.parked t inside
    have other : t ≠ tid := by
      rintro rfl
      rw [returning] at parked
      exact parked
    show Parked (Function.update r.spot tid .outside t) (r.core.waits t)
    rwa [Function.update_of_ne other]
  · exact sound.idleWait ready outside
  · exact sound.pass _ _ _

/-- **So does every run.** -/
theorem sound_run {mainTh : PthreadT} {shared : Shared} {labels : List (Tid × Move)}
    (ran : exec (step o) (init o mainTh shared) labels = some r) : Sound r.core r.spot := by
  refine exec_invariant (fun r => Sound r.core r.spot)
    (fun s label next sound _ stepped => sound_step sound stepped) ?_
    (along_of_labels (fun label _ => trivial) (init o mainTh shared)) ran
  refine ⟨List.nodup_nil, fun t alive => ?_, fun t inside => ?_, fun t inside => ?_⟩
  · rw [(TidMap.init_live o.wakeamapPlus mainTh t).mp alive]
    exact Nat.zero_lt_one
  · cases inside
  · cases inside

/-- A thread calls a wrapper that returns in the same turn. -/
def quick (tid : Tid) (call : Call) : List (Tid × Move) := [(tid, .call call), (tid, .finish)]

end Recorder

end MinSmt
