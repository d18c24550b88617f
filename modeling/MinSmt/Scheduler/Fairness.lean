/-
**Round robin with bounded bypass** (bit `0x04` of `scheduling_policy` clear, every strategy `0`).

The turn goes to the front of `runq`. Whoever gives it up takes its own element off the front and, if it
stays runnable, puts it at the end; every other way into `runq` is at the end as well, and the only
other way out is that a round of `nextRunnable` drops a front that is in an external call.

* `Sched.Queue s runq` — the traversal of `runq`.
* `QueueStep` — what a step can do to it; `queue_step` — every step is like that.
* `QueueStep.rank` — while a thread stays in `runq`, its position and the pass in progress go down
  together with the passes that are completed.
* **`bounded_bypass`** — who enters is behind those already there; a pass brings everybody else forward;
  a thread at position `k` that makes no external call gets the turn within `k` passes.
-/

import MinSmt.Scheduler.Conservation
import MinSmt.Scheduler.Exclusion
import MinSmt.Scheduler.IdleThread
import MinSmt.Scheduler.BlockDelay

namespace MinSmt

open MinSmt.Library Sched Sys

/-- **The tids in `runq`**, the front first. -/
def Sched.Queue (s : Sched) (runq : List Tid) : Prop :=
  Forward (fun t => (s.elems t).next) s.runq.head runq

/-- The strategy of every `putTurn` is `0`. -/
def Action.plain : Action → Bool
  | .putTurn strategy => decide (strategy = .default)
  | _ => true

/-! ### The operations -/

section Operations

variable {o : Options} {late runq rest hp : List Tid} {tid : Tid} {s s' : Sched}

theorem Sched.Layout.queue (layout : Layout o late s runq hp) : s.Queue runq :=
  layout.linked.queue.forward

theorem Sched.Queue.unique {other : List Tid} (queue : s.Queue runq) (queue' : s.Queue other) :
    other = runq := Forward.unique queue' queue

/-- What has been appended to a queue was not in it. -/
theorem fresh_of_append {more : List Tid} (layout : Layout o late s (runq ++ more) hp) :
    ∀ t ∈ more, t ∉ runq := by
  have nodup := layout.linked.queue.queue.nodup
  exact fun t inside member => (List.nodup_append.mp nodup).2.2 t member t inside rfl

/-- **The caller's own element is the front of `runq`, and is popped.** -/
theorem popOwn_queue (unflagged : (s.waits tid).wokenUpFromHpQueueFlag = false)
    (linked : Linked s.elems s.runq s.hpRunq (tid :: rest) hp) (popped : s.popOwn tid = some s') :
    Linked s'.elems s'.runq s'.hpRunq rest hp := by
  obtain ⟨elems, q, isPopped, linked', -⟩ := linked.popFront
  rw [popOwn, unflagged, if_neg Bool.false_ne_true, popRunq, isPopped] at popped
  cases popped
  exact linked'

theorem nextPop_queue (rr : 0 ≤ o.enforceTurnType) (unflagged : (s.waits tid).wokenUpFromHpQueueFlag = false)
    (linked : Linked s.elems s.runq s.hpRunq (tid :: rest) hp) (popped : s.nextPop o tid = some s') :
    Linked s'.elems s'.runq s'.hpRunq rest hp := by
  rw [nextPop, if_pos rr] at popped
  refine popOwn_queue ?_ ?_ popped
  · exact unflagged
  · exact linked.setStatus _ _

/-- Without `hp_runq` no flag is set. -/
theorem Sched.Layout.unflagged (layout : Layout o late s runq hp) (off : o.highPriority = false) (t : Tid) :
    (s.waits t).wokenUpFromHpQueueFlag = false := by
  by_contra set
  have head := layout.flag t (by simpa using set)
  rw [layout.off off] at head
  cases head

/-- The front is still there when the queue has grown. -/
theorem cons_of_longer {longer : List Tid} (grown : tid :: rest <+: longer) :
    ∃ more, longer = tid :: (rest ++ more) := by
  obtain ⟨more, rfl⟩ := grown
  exact ⟨more, rfl⟩

section Giving

variable (rr : 0 ≤ o.enforceTurnType) (off : o.highPriority = false)

include rr off

/-- **`putTurn`** takes the caller from the front to the end. -/
theorem putTurn_queue (layout : Layout o [] s (tid :: rest) hp) (put : s.putTurn o tid .default = some s') :
    ∃ more, s'.Queue (rest ++ more) ∧ ∀ t ∈ more, t = tid ∨ t ∉ tid :: rest := by
  have layout₀ := layout.setStatus tid .runnable
  have unflagged := layout₀.unflagged off tid
  have front : AtFront (s.setStatus tid .runnable) (tid :: rest) hp tid := by
    rw [AtFront, unflagged]
    rfl
  obtain ⟨s₁, runq₁, hp₁, requeued, layout₁, -⟩ := layout₀.requeue front .default
  -- the general lemma does not say which list `runq₁` is
  obtain ⟨s₂, popped, isPushed⟩ := Option.map_eq_some_iff.mp requeued
  have linked := popOwn_queue unflagged layout₀.linked popped
  have notRest : tid ∉ rest := (List.nodup_cons.mp layout.linked.queue.queue.nodup).1
  have pushed := linked.pushBack notRest (layout.linked.apart tid List.mem_cons_self)
  have isRunq : runq₁ = rest ++ [tid] := by
    refine Forward.unique layout₁.linked.queue.forward ?_
    rw [← isPushed]
    exact pushed.queue.forward
  subst isRunq
  obtain ⟨⟨more, layout₂⟩, -⟩ := layout₁.checkNonDetBound rr
  rw [putTurn, if_pos rr, requeued] at put
  cases put
  refine ⟨[tid] ++ more, by simpa using layout₂.queue, fun t inside => ?_⟩
  rcases List.mem_append.mp inside with isTid | later
  · exact Or.inl (List.mem_singleton.mp isTid)
  · refine Or.inr fun member => fresh_of_append layout₂ t later ?_
    simpa [or_comm] using member

/-- **`wait`** takes the caller off the front. -/
theorem wait_queue (layout : Layout o [] s (tid :: rest) hp) (noLone : (s.tickAndFire o).NoLone)
    {order : List Tid} (perm : order.Perm s.interProWakeupTids) {chan : Option Chan} {timeout : Nat}
    (waits : s.wait o tid chan timeout order = some s') :
    ∃ more, s'.Queue (rest ++ more) ∧ ∀ t ∈ more, t ∉ tid :: rest := by
  obtain ⟨⟨runq₁, hp₁, longer, -, layout₁, -⟩, -⟩ := layout.incTurnCount rr noLone perm
  obtain ⟨more, rfl⟩ := cons_of_longer longer
  rw [Sched.wait, enterWaitq_eq rr] at waits
  have linked : Linked s'.elems s'.runq s'.hpRunq (rest ++ more) hp₁ := by
    refine nextPop_queue rr ?_ ?_ waits
    · simpa [Core.enqueue] using layout₁.unflagged off tid
    · exact layout₁.linked
  exact ⟨more, linked.queue.forward, fresh_of_append layout₁⟩

/-- **`block`** takes the caller off the front. -/
theorem block_queue (layout : Layout o [] s (tid :: rest) hp)
    (noLone : ((s.enterNonDet o tid).tickAndFire o).NoLone) {order : List Tid}
    (perm : order.Perm s.interProWakeupTids) (blocked : s.block o tid order = some s') :
    ∃ more, s'.Queue (rest ++ more) ∧ ∀ t ∈ more, t ∉ tid :: rest := by
  obtain ⟨layout₀, -⟩ := layout.enterNonDet tid
  rw [← @enterNonDet_wakeups o s tid] at perm
  obtain ⟨⟨runq₁, hp₁, longer, -, layout₁, -⟩, -⟩ := layout₀.incTurnCount rr noLone perm
  obtain ⟨more, rfl⟩ := cons_of_longer longer
  obtain ⟨s₁, popped, rfl⟩ := Option.map_eq_some_iff.mp blocked
  have linked := nextPop_queue rr (layout₁.unflagged off tid) layout₁.linked popped
  refine ⟨more, ?_, fresh_of_append layout₁⟩
  rw [if_pos rr]
  exact linked.queue.forward

/-- **A thread that ends** is taken off the front. -/
theorem putTurnAtEnd_queue (layout : Layout o [] s (tid :: rest) hp)
    (put : s.putTurnAtEnd o tid = some s') :
    ∃ more, s'.Queue (rest ++ more) ∧ ∀ t ∈ more, t ∉ tid :: rest := by
  obtain ⟨runq₁, hp₁, longer, -, layout₁, -⟩ := layout.signalJoiner rr tid
  obtain ⟨⟨more, layout₂⟩, -⟩ := layout₁.checkNonDetBound rr
  obtain ⟨more', isLonger⟩ := cons_of_longer (longer.trans (List.prefix_append _ more))
  rw [isLonger] at layout₂
  rw [putTurnAtEnd, finish, checkNonDetBound_tm] at put
  have linked : Linked s'.elems s'.runq s'.hpRunq (rest ++ more') hp₁ := by
    refine nextPop_queue rr ?_ ?_ put
    · exact layout₂.unflagged off tid
    · exact layout₂.linked
  exact ⟨more', linked.queue.forward, fresh_of_append layout₂⟩

/-- **The idle thread that goes to sleep** is taken off the front. -/
theorem idleEnqueue_queue (layout : Layout o [] s (tid :: rest) hp)
    (waits : s.idleEnqueue o tid = some s') : s'.Queue rest := by
  have linked : Linked s'.elems s'.runq s'.hpRunq rest hp := by
    refine nextPop_queue rr ?_ ?_ waits
    · simpa [enterIdle, Core.enqueue] using layout.unflagged off tid
    · exact layout.linked
  exact linked.queue.forward

/-! ### A round of `nextRunnable` -/

/-- What a round does to `runq`: it drops a stopped front, or leaves the front and appends; at the end
nobody is there. -/
def RoundQueue (s : Sched) (runq : List Tid) : Pick → Prop
  | .again s' strategy => strategy = .default ∧ ((∃ head rest more, runq = head :: rest ∧
      (s.elems head).status = .interProStop ∧ s'.Queue (rest ++ more) ∧ ∀ t ∈ more, t ∉ runq) ∨
    runq = [] ∧ ∃ more, s'.Queue more)
  | .grant s' _ => ∃ more, s'.Queue (runq ++ more) ∧ ∀ t ∈ more, t ∉ runq
  | .invalid => runq = []
  | .threadExit => runq = []
  | _ => True

omit rr off in
theorem pickRunq_queue {more : List Tid} (layout : Layout o [] s' (runq ++ more) hp)
    (status : ∀ t, (s'.elems t).status = (s.elems t).status) :
    RoundQueue s runq (s'.pickRunq o .default) := by
  have fresh := fresh_of_append layout
  unfold Sched.pickRunq
  rw [layout.linked.queue.head_eq]
  cases isLonger : runq ++ more with
  | nil => trivial
  | cons head rest =>
    rw [isLonger] at layout
    show RoundQueue s runq (if (s'.elems head).status = .interProStop then _ else _)
    split
    · rename_i stopped
      obtain ⟨elems, q, popped, layout', -⟩ := layout.drop_runq stopped
      rw [popped]
      refine ⟨rfl, ?_⟩
      cases runq with
      | nil => exact Or.inr ⟨rfl, rest, layout'.queue⟩
      | cons first others =>
        obtain ⟨rfl, rfl⟩ := List.cons_eq_cons.mp isLonger
        exact Or.inl ⟨first, others, more, rfl, status first ▸ stopped, layout'.queue, fresh⟩
    · obtain ⟨links, sameRunq, -⟩ := grantHead_same s' head
      refine ⟨more, ?_, fresh⟩
      rw [isLonger]
      unfold Sched.Queue
      rw [sameRunq]
      exact layout.queue.congr fun t _ => links t

/-- **One round.** -/
theorem nextRunnable_queue (layout : Layout o [] s runq hp) (idleDone atThreadEnd : Bool) (self : Tid) :
    RoundQueue s runq (s.nextRunnable o idleDone self atThreadEnd .default) := by
  have notHp : ¬ FromHpRunq o s self .default := fun fromHp => by
    rw [fromHp.1] at off
    cases off
  have notRole : ¬ ((Strategy.default = .currentRole) ∧ s.runq.empty = false) := fun role => by
    cases role.1
  unfold Sched.nextRunnable
  rw [if_neg notHp, if_neg notRole]
  split
  · rename_i isEmpty
    have nothing := layout.runq_empty_iff.mp isEmpty
    split
    · exact nothing
    · split
      · trivial
      · split
        · exact nothing
        · obtain ⟨runq₁, hp₁, ⟨more, rfl⟩, -, layout₁, quiet⟩ := layout.wakeUpIdleThread rr
          exact pickRunq_queue layout₁ quiet.status
  · split
    · obtain ⟨runq₁, hp₁, ⟨more, rfl⟩, -, layout₁, quiet⟩ := layout.signal rr .nonDetCV true
      exact pickRunq_queue layout₁ quiet.status
    · refine @pickRunq_queue o runq hp s s [] ?_ fun _ => rfl
      rw [List.append_nil]
      exact layout

end Giving

end Operations

/-! ### The steps -/

/-- **What a step can do to `runq`.** Whatever is added stands at the end and was not in `runq` before,
except for the thread that gives up the turn. -/
inductive QueueStep (s : Sys) (tid : Tid) (action : Action) (s' : Sys) (runq : List Tid) : List Tid → Prop
  | grew (more : List Tid) (fresh : ∀ t ∈ more, t ∉ runq)
      (next : (s'.pc tid).inNext = (s.pc tid).inNext) (notPost : action ≠ .post) :
      QueueStep s tid action s' runq (runq ++ more)
  | popped (rest more : List Tid) (isRunq : runq = tid :: rest) (fresh : ∀ t ∈ more, t = tid ∨ t ∉ runq)
      (before : (s.pc tid).inTurn = true ∧ (s.pc tid).inNext = false)
      (after : (s'.pc tid).inNext = true) (notPost : action ≠ .post) :
      QueueStep s tid action s' runq (rest ++ more)
  | dropped (head : Tid) (rest more : List Tid) (isRunq : runq = head :: rest)
      (stopped : (s.sched.elems head).status = .interProStop) (fresh : ∀ t ∈ more, t ∉ runq)
      (before : (s.pc tid).inNext = true) (after : (s'.pc tid).inNext = true) (notPost : action ≠ .post) :
      QueueStep s tid action s' runq (rest ++ more)
  | posted (next : Tid) (front : runq.head? = some next) (chosen : (s.pc tid).grantee = some next)
      (isPost : action = .post) (after : (s'.pc tid).inNext = false) : QueueStep s tid action s' runq runq
  | ended (nobody : runq = []) (notPost : action ≠ .post) : QueueStep s tid action s' runq runq

section Steps

variable {o : Options} {scope : Scope} {s s' : Sys} {runq rest hp : List Tid} {holder : Option Tid} {tid : Tid}
  {action : Action}

namespace QueueStep

theorem same (next : (s'.pc tid).inNext = (s.pc tid).inNext) (notPost : action ≠ .post) :
    QueueStep s tid action s' runq runq := by
  have grown : QueueStep s tid action s' runq (runq ++ []) := grew [] (by simp) next notPost
  rwa [List.append_nil] at grown

end QueueStep

/-- The holder enters `next`, with its own element popped. -/
theorem queue_leave {sched : Option Sched} (queue : s.sched.Queue (tid :: rest))
    (before : (s.pc tid).inTurn = true ∧ (s.pc tid).inNext = false) (notPost : action ≠ .post)
    (atThreadEnd : Bool) (strategy : Strategy) (after : After)
    (each : ∀ sched', sched = some sched' →
      ∃ more, sched'.Queue (rest ++ more) ∧ ∀ t ∈ more, t = tid ∨ t ∉ tid :: rest) :
    ∃ runq', (s.leave tid sched atThreadEnd strategy after).sched.Queue runq' ∧
      QueueStep s tid action (s.leave tid sched atThreadEnd strategy after) (tid :: rest) runq' := by
  cases sched with
  | none => exact ⟨tid :: rest, queue, .same rfl notPost⟩
  | some sched =>
    obtain ⟨more, queue', fresh⟩ := each sched rfl
    refine ⟨_, queue', .popped rest more rfl fresh before ?_ notPost⟩
    show (Function.update s.pc tid _ tid).inNext = true
    rw [Function.update_self]
    rfl

/-- The threads that have come in while the holder still stood at the front. -/
theorem fresh_append {front more more' : List Tid} (first : ∀ t ∈ more, t ∉ front)
    (second : ∀ t ∈ more', t = tid ∨ t ∉ front ++ more) : ∀ t ∈ more ++ more', t = tid ∨ t ∉ front := by
  intro t inside
  rcases List.mem_append.mp inside with early | late
  · exact Or.inr (first t early)
  · exact (second t late).imp_right fun outside member => outside (List.mem_append_left more member)

/-- The holder stays where it is, and `runq` grows. -/
theorem queue_grown (notPost : action ≠ .post) (next : (s'.pc tid).inNext = (s.pc tid).inNext)
    (grown : Grown o [] s.sched s'.sched runq hp) :
    ∃ runq', s'.sched.Queue runq' ∧ QueueStep s tid action s' runq runq' := by
  obtain ⟨runq', hp', ⟨more, rfl⟩, -, layout', -⟩ := grown
  exact ⟨_, layout'.queue, .grew more (fresh_of_append layout') next notPost⟩

theorem front_of_turn (off : o.highPriority = false) (inv : Inv o scope s runq hp holder)
    (before : (s.pc tid).inTurn = true ∧ (s.pc tid).inNext = false) : ∃ rest, runq = tid :: rest := by
  have front := (inv.turn_front before.1 before.2).1
  rw [AtFront, inv.layout.unflagged off tid, if_neg Bool.false_ne_true] at front
  cases runq with
  | nil => cases front
  | cons head rest => exact ⟨rest, by rw [Option.some.inj front]⟩

section Each

variable (rr : o.RoundRobin) (off : o.highPriority = false) (inv : Inv o scope s runq hp holder)

include rr off inv

theorem queue_turnStep (here : s.pc tid = .turn false) (plain : action.plain = true)
    (stepped : s.turnStep o tid action = some s') :
    ∃ runq', s'.sched.Queue runq' ∧ QueueStep s tid action s' runq runq' := by
  have before : (s.pc tid).inTurn = true ∧ (s.pc tid).inNext = false := by
    rw [here]
    exact ⟨rfl, rfl⟩
  have safe := queueSafe_of_off rr inv off (tid, action)
  have layout := inv.layout
  have notPost : action ≠ .post := by
    rintro rfl
    cases stepped
  obtain ⟨rest, rfl⟩ := front_of_turn off inv before
  cases action with
  | incTurnCount order =>
    obtain ⟨perm, rfl⟩ := Sys.turnStep_incTurnCount stepped
    exact queue_grown notPost rfl (layout.incTurnCount rr.nonneg safe perm).1
  | signal chan all =>
    cases stepped
    exact queue_grown notPost rfl (layout.signal rr.nonneg chan all)
  | create th threadFunc =>
    cases stepped
    obtain ⟨more, more', layout', -⟩ := layout.create rr.nonneg th threadFunc
    refine ⟨_, layout'.queue, .grew more (fresh_of_append layout') ?_ notPost⟩
    have notNew : tid ≠ s.sched.tm.nthread :=
      Nat.ne_of_lt (layout.known tid (inv.turn_front before.1 before.2).2.1)
    rw [goto_pc_of_ne notNew]
  | changeRole th roleFunc =>
    cases stepped
    exact ⟨_, layout.queue, .same rfl notPost⟩
  | nonDetWait more =>
    cases stepped
    exact ⟨_, layout.queue, .same rfl notPost⟩
  | putTurn strategy =>
    obtain rfl : strategy = .default := of_decide_eq_true plain
    cases stepped
    exact queue_leave layout.queue before notPost _ _ _ fun sched' put => putTurn_queue rr.nonneg off layout put
  | endThread order =>
    obtain ⟨perm, rfl⟩ := Sys.turnStep_endThread stepped
    refine queue_leave layout.queue before notPost _ _ _ fun sched' put => ?_
    obtain ⟨⟨runq₁, hp₁, longer, -, layout₁, -⟩, -⟩ := layout.incTurnCount rr.nonneg safe perm
    obtain ⟨more, rfl⟩ := cons_of_longer longer
    obtain ⟨more', queue, fresh⟩ := putTurnAtEnd_queue rr.nonneg off layout₁ put
    exact ⟨more ++ more', by rwa [← List.append_assoc],
      fresh_append (fresh_of_append layout₁) fun t inside => Or.inr (fresh t inside)⟩
  | wait chan timeout order =>
    obtain ⟨perm, rfl⟩ := Sys.turnStep_wait stepped
    refine queue_leave layout.queue before notPost _ _ _ fun sched' waits => ?_
    obtain ⟨more, queue, fresh⟩ := wait_queue rr.nonneg off layout safe perm waits
    exact ⟨more, queue, fun t inside => Or.inr (fresh t inside)⟩
  | sleep turns order =>
    obtain ⟨enabled, rfl⟩ := Sys.turnStep_sleep stepped
    refine queue_leave layout.queue before notPost _ _ _ fun sched' waits => ?_
    obtain ⟨more, queue, fresh⟩ := wait_queue rr.nonneg off layout safe enabled.1 waits
    exact ⟨more, queue, fun t inside => Or.inr (fresh t inside)⟩
  | block order =>
    obtain ⟨perm, rfl⟩ := Sys.turnStep_block stepped
    refine queue_leave layout.queue before notPost _ _ _ fun sched' blocked => ?_
    obtain ⟨more, queue, fresh⟩ := block_queue rr.nonneg off layout safe perm blocked
    exact ⟨more, queue, fun t inside => Or.inr (fresh t inside)⟩
  | idleCondWait order =>
    obtain ⟨enabled, taken⟩ := Sys.turnStep_idleCondWait stepped
    have grown := (layout.incTurnCount rr.nonneg safe enabled.1).1
    obtain ⟨-, rfl⟩ | ⟨-, rfl⟩ := taken
    · refine queue_grown notPost ?_ grown
      rw [goto_pc_self, here]
      rfl
    · refine queue_leave layout.queue before notPost _ _ _ fun sched' put => ?_
      obtain ⟨runq₁, hp₁, longer, -, layout₁, -⟩ := grown
      obtain ⟨more, rfl⟩ := cons_of_longer longer
      obtain ⟨more', queue, fresh⟩ := putTurn_queue rr.nonneg off layout₁ put
      exact ⟨more ++ more', by rwa [← List.append_assoc], fresh_append (fresh_of_append layout₁) fresh⟩
  | _ => cases stepped

theorem queue_tryStep {cur : Option Tid} (here : s.pc tid = .trying cur) :
    ∃ runq', (s.tryStep o tid cur).sched.Queue runq' ∧
      QueueStep s tid .tryElem (s.tryStep o tid cur) runq runq' := by
  have before : (s.pc tid).inTurn = true ∧ (s.pc tid).inNext = false := by
    rw [here]
    exact ⟨rfl, rfl⟩
  have layout := inv.layout
  have notPost : Action.tryElem ≠ .post := by simp
  obtain ⟨rest, rfl⟩ := front_of_turn off inv before
  cases cur with
  | none =>
    exact queue_leave layout.queue before notPost _ _ _ fun sched' put => putTurn_queue rr.nonneg off layout put
  | some cur =>
    simp only [Sys.tryStep]
    split
    · refine queue_leave layout.queue before notPost _ _ _ fun sched' waits => ⟨[], ?_, by simp⟩
      rw [List.append_nil]
      exact idleEnqueue_queue rr.nonneg off (layout.setStatus cur .runningReg) waits
    · refine ⟨_, layout.queue, .same ?_ (by simp)⟩
      rw [goto_pc_self, here]
      rfl

theorem queue_leaveStep {phase : Phase} {atThreadEnd : Bool} {after : After}
    (here : s.pc tid = .leaving phase atThreadEnd .default after)
    (stepped : s.leaveStep o tid phase atThreadEnd .default after action = some s') :
    ∃ runq', s'.sched.Queue runq' ∧ QueueStep s tid action s' runq runq' := by
  have inNext : (s.pc tid).inNext = true := by
    rw [here]
    rfl
  have layout := inv.layout
  have safe := queueSafe_of_off rr inv off (tid, action)
  cases action with
  | checkWakeup order =>
    obtain ⟨enabled, rfl⟩ := Sys.leaveStep_checkWakeup rr.nonneg stepped
    obtain ⟨⟨more, layout'⟩, -⟩ := layout.checkWakeup rr.nonneg safe enabled.2
    refine ⟨_, layout'.queue, .grew more (fresh_of_append layout') ?_ (by simp)⟩
    rw [goto_pc_self, inNext]
    rfl
  | nextRunnable =>
    obtain ⟨-, rfl⟩ := Sys.leaveStep_nextRunnable stepped
    have round := nextRunnable_queue rr.nonneg off layout s.idleDone atThreadEnd tid
    revert round
    generalize s.sched.nextRunnable o s.idleDone tid atThreadEnd .default = pick
    intro round
    cases pick with
    | again sched strategy =>
      obtain ⟨-, ⟨head, rest, more, isRunq, stopped, queue, fresh⟩ | ⟨nobody, more, queue⟩⟩ := round
      · refine ⟨_, queue, .dropped head rest more isRunq stopped fresh inNext ?_ (by simp)⟩
        rw [Sys.picked, goto_pc_self]
        rfl
      · subst nobody
        have grown : QueueStep s tid .nextRunnable
            (s.picked tid atThreadEnd .default after (.again sched strategy)) [] ([] ++ more) := by
          refine .grew more (fun _ _ => List.not_mem_nil) ?_ (by simp)
          rw [Sys.picked, goto_pc_self, inNext]
          rfl
        exact ⟨more, queue, grown⟩
    | grant sched next =>
      obtain ⟨more, queue, fresh⟩ := round
      refine ⟨_, queue, .grew more fresh ?_ (by simp)⟩
      rw [Sys.picked, goto_pc_self, inNext]
      rfl
    | invalid => exact ⟨_, layout.queue, .ended round (by simp)⟩
    | threadExit => exact ⟨_, layout.queue, .ended round (by simp)⟩
    | exit => exact ⟨_, layout.queue, .same rfl (by simp)⟩
    | crash => exact ⟨_, layout.queue, .same rfl (by simp)⟩
  | post =>
    obtain ⟨next, rfl, rfl⟩ := Sys.leaveStep_post stepped
    have chosen : (s.pc tid).grantee = some next := by
      rw [here]
      rfl
    have isHolder := inv.holder_eq (inTurn_of_grantee chosen)
    have front := (inv.next tid next isHolder chosen).1
    rw [AtFront, layout.unflagged off next, if_neg Bool.false_ne_true] at front
    refine ⟨_, layout.queue, .posted next front chosen rfl ?_⟩
    rw [goto_pc_self]
    cases after <;> rfl
  | _ => cases stepped

omit rr off in
theorem queue_awayStep (here : s.pc tid = .away ∨ s.pc tid = .woken) (stepped : s.awayStep tid action = some s') :
    ∃ runq', s'.sched.Queue runq' ∧ QueueStep s tid action s' runq runq' := by
  have outside : (s.pc tid).inNext = false := by
    rcases here with isAway | isWoken
    · rw [isAway]
      rfl
    · rw [isWoken]
      rfl
  cases action with
  | getTurn =>
    cases stepped
    refine ⟨_, inv.layout.queue, .same ?_ (by simp)⟩
    rw [goto_pc_self, outside]
    rfl
  | interProStart =>
    cases stepped
    refine ⟨runq, ?_, .same ?_ (by simp)⟩
    · show (s.sched.interProStart tid).2.Queue runq
      unfold Sched.interProStart
      split <;> exact (inv.layout.setStatus tid _).queue
    · rw [goto_pc_self, outside]
      split <;> rfl
  | progEnd =>
    simp only [Sys.awayStep] at stepped
    split at stepped
    · cases stepped
      exact ⟨_, inv.layout.queue, .same rfl (by simp)⟩
    · cases stepped
  | _ => cases stepped

/-- **Every step is like that.** -/
theorem queue_step (strategy : (s.pc tid).strategy = .default) (plain : action.plain = true)
    (stepped : s.step o (tid, action) = some s') :
    ∃ runq', s'.sched.Queue runq' ∧ QueueStep s tid action s' runq runq' := by
  have layout := inv.layout
  have safe := queueSafe_of_off rr inv off (tid, action)
  -- a thread that stays outside of `next`, in a step that leaves the links alone
  have aside : ∀ (sched : Sched) (pc : Pc), (s.pc tid).inNext = false → pc.inNext = false → action ≠ .post →
      sched.Queue runq → ∃ runq', (s.goto tid sched pc).sched.Queue runq' ∧
        QueueStep s tid action (s.goto tid sched pc) runq runq' := by
    intro sched pc before after notPost queue
    refine ⟨_, queue, .same ?_ notPost⟩
    rw [goto_pc_self, before, after]
  replace stepped := Sys.threadStep_of_step stepped
  unfold Sys.threadStep at stepped
  split at stepped
  · rename_i here
    exact queue_awayStep inv (Or.inl here) stepped
  · rename_i here
    exact queue_awayStep inv (Or.inr here) stepped
  · rename_i here
    cases stepped
    exact aside _ _ (by rw [here]; rfl) rfl (by simp) layout.queue
  · rename_i here
    cases stepped
    exact aside _ _ (by rw [here]; rfl) rfl (by simp) layout.queue
  · rename_i here
    cases stepped
    exact aside _ _ (by rw [here]; rfl) rfl (by simp) (layout.setStatus tid .runnable).queue
  · rename_i here
    cases stepped
    exact aside _ _ (by rw [here]; rfl) rfl (by simp) layout.queue
  · rename_i blocking here
    obtain ⟨sched, taken, rfl⟩ := Option.map_eq_some_iff.mp stepped
    refine aside _ _ (by rw [here]; rfl) rfl (by simp) ?_
    obtain ⟨w, -, isSched⟩ := Option.bind_eq_some_iff.mp taken
    rw [if_neg (Int.not_lt.mpr rr.nonneg)] at isSched
    cases isSched
    exact layout.queue
  · rename_i here
    exact queue_turnStep rr off inv here plain stepped
  · rename_i order here
    have before : (s.pc tid).inTurn = true ∧ (s.pc tid).inNext = false := by
      rw [here]
      exact ⟨rfl, rfl⟩
    have notPost : Action.block order ≠ .post := by simp
    split at stepped
    · rename_i perm
      cases stepped
      obtain ⟨rest, rfl⟩ := front_of_turn off inv before
      refine queue_leave layout.queue before notPost _ _ _ fun sched' blocked => ?_
      obtain ⟨more, queue, fresh⟩ := block_queue rr.nonneg off layout safe perm blocked
      exact ⟨more, queue, fun t inside => Or.inr (fresh t inside)⟩
    · cases stepped
  · rename_i here
    cases stepped
    exact queue_tryStep rr off inv here
  · rename_i phase atThreadEnd strategy' after here
    rw [here] at strategy
    obtain rfl : strategy' = .default := strategy
    exact queue_leaveStep rr off inv here stepped
  · cases stepped

/-! ### Strategies -/

omit rr off inv in
theorem plain_goto (plains : ∀ t, (s.pc t).strategy = .default) (sched : Sched) {pc : Pc}
    (own : pc.strategy = .default) (actor t : Tid) : ((s.goto actor sched pc).pc t).strategy = .default := by
  by_cases same : t = actor
  · rw [same, goto_pc_self]
    exact own
  · rw [goto_pc_of_ne same]
    exact plains t

omit rr off inv in
theorem plain_leave (plains : ∀ t, (s.pc t).strategy = .default) (sched : Option Sched) (atThreadEnd : Bool)
    (after : After) (t : Tid) :
    ((s.leave tid sched atThreadEnd .default after).pc t).strategy = .default := by
  cases sched with
  | none => exact plains t
  | some sched => exact plain_goto plains sched rfl tid t

omit rr off inv in
theorem plain_turnStep (plains : ∀ t, (s.pc t).strategy = .default) (plain : action.plain = true)
    (stepped : s.turnStep o tid action = some s') (t : Tid) : (s'.pc t).strategy = .default := by
  cases action with
  | incTurnCount order =>
    obtain ⟨-, rfl⟩ := Sys.turnStep_incTurnCount stepped
    exact plains t
  | signal chan all | changeRole th roleFunc | nonDetWait more =>
    cases stepped
    exact plains t
  | create th threadFunc =>
    cases stepped
    exact plain_goto plains _ rfl _ t
  | putTurn strategy =>
    obtain rfl : strategy = .default := of_decide_eq_true plain
    cases stepped
    exact plain_leave plains _ _ _ t
  | endThread order | wait chan timeout order | sleep turns order | block order =>
    simp only [Sys.turnStep] at stepped
    split at stepped <;> cases stepped
    exact plain_leave plains _ _ _ t
  | idleCondWait order =>
    obtain ⟨-, ⟨-, rfl⟩ | ⟨-, rfl⟩⟩ := Sys.turnStep_idleCondWait stepped
    · exact plain_goto plains _ rfl _ t
    · exact plain_leave plains _ _ _ t
  | _ => cases stepped

theorem plain_leaveStep {phase : Phase} {atThreadEnd : Bool} {after : After}
    (plains : ∀ t, (s.pc t).strategy = .default)
    (stepped : s.leaveStep o tid phase atThreadEnd .default after action = some s') (t : Tid) :
    (s'.pc t).strategy = .default := by
  have away : after.pc.strategy = .default := by cases after <;> rfl
  cases action with
  | checkWakeup order =>
    obtain ⟨-, ⟨-, rfl⟩ | ⟨-, rfl⟩⟩ := Sys.leaveStep_checkWakeup_cases stepped
    · exact plain_goto plains _ rfl _ t
    · exact plain_goto plains _ away _ t
  | nextRunnable =>
    obtain ⟨-, rfl⟩ := Sys.leaveStep_nextRunnable stepped
    have round := nextRunnable_queue rr.nonneg off inv.layout s.idleDone atThreadEnd tid
    revert round
    generalize s.sched.nextRunnable o s.idleDone tid atThreadEnd .default = pick
    intro round
    cases pick with
    | again sched strategy =>
      have own : (Pc.leaving .picking atThreadEnd strategy after).strategy = .default := round.1
      exact plain_goto plains _ own _ t
    | grant sched next => exact plain_goto plains _ rfl _ t
    | invalid => exact plain_goto plains s.sched away _ t
    | threadExit => exact plain_goto plains s.sched rfl _ t
    | exit | crash => exact plains t
  | post =>
    obtain ⟨next, -, rfl⟩ := Sys.leaveStep_post stepped
    exact plain_goto plains _ away _ t
  | _ => cases stepped

/-- Every strategy in use stays `0`. -/
theorem plain_step (plains : ∀ t, (s.pc t).strategy = .default) (plain : action.plain = true)
    (stepped : s.step o (tid, action) = some s') (t : Tid) : (s'.pc t).strategy = .default := by
  have away : ∀ s', s.awayStep tid action = some s' → (s'.pc t).strategy = .default := by
    intro s' stepped
    cases action with
    | getTurn =>
      cases stepped
      exact plain_goto plains _ rfl _ t
    | interProStart =>
      cases stepped
      exact plain_goto plains _ (by split <;> rfl) _ t
    | progEnd =>
      simp only [Sys.awayStep] at stepped
      split at stepped <;> cases stepped
      exact plains t
    | _ => cases stepped
  replace stepped := Sys.threadStep_of_step stepped
  unfold Sys.threadStep at stepped
  split at stepped
  · exact away s' stepped
  · exact away s' stepped
  · cases stepped
    exact plain_goto plains _ rfl _ t
  · cases stepped
    exact plain_goto plains _ rfl _ t
  · cases stepped
    exact plain_goto plains _ rfl _ t
  · cases stepped
    exact plain_goto plains _ rfl _ t
  · obtain ⟨sched, -, rfl⟩ := Option.map_eq_some_iff.mp stepped
    exact plain_goto plains _ rfl _ t
  · exact plain_turnStep plains plain stepped t
  · split at stepped <;> cases stepped
    exact plain_leave plains _ _ _ t
  · cases stepped
    rename_i cur here
    cases cur with
    | none => exact plain_leave plains _ _ _ t
    | some cur =>
      simp only [Sys.tryStep]
      split
      · exact plain_leave plains _ _ _ t
      · exact plain_goto plains _ rfl _ t
  · rename_i phase atThreadEnd strategy after here
    have isDefault := plains tid
    rw [here] at isDefault
    obtain rfl : strategy = .default := isDefault
    exact plain_leaveStep rr off inv plains stepped t
  · cases stepped

end Each

/-! ### The rank of a waiting position -/

/-- Somebody is about to pass the turn on. -/
def Sys.Passing (s : Sys) : Prop := ∃ t, (s.pc t).inNext = true

open Classical in
/-- `1` while a pass of the turn is in progress. -/
noncomputable def Sys.passing (s : Sys) : Nat := if s.Passing then 1 else 0

/-- The passes of the turn that a run completes. -/
def passes (labels : List (Tid × Action)) : Nat := labels.countP fun label => decide (label.2 = .post)

theorem passes_cons (label : Tid × Action) (labels : List (Tid × Action)) :
    passes (label :: labels) = passes [label] + passes labels := by
  simp [passes, List.countP_cons, Nat.add_comm]

/-- A thread inside `next` is the only one there. -/
theorem inNext_unique (inv : Inv o scope s runq hp holder) (inTurn : (s.pc tid).inTurn = true) {t : Tid}
    (other : t ≠ tid) : (s.pc t).inNext = false := by
  have notHolder : holder ≠ some t := by
    rw [inv.holder_eq inTurn]
    exact fun same => other (Option.some.inj same).symm
  cases inside : (s.pc t).inNext with
  | false => rfl
  | true =>
    have turn : (s.pc t).inTurn = true := by
      cases here : s.pc t with
      | leaving phase atThreadEnd strategy after => rfl
      | _ =>
        rw [here] at inside
        cases inside
    exact absurd (inv.holder_eq turn) notHolder

/-- A step moves its own thread, and at most a new one into the process. -/
theorem inNext_others (inv : Inv o scope s runq hp holder) (stepped : s.step o (tid, action) = some s') {t : Tid}
    (other : t ≠ tid) : (s'.pc t).inNext = (s.pc t).inNext := by
  cases Moves.of_step stepped with
  | crash _ _ _ samePc => rw [samePc]
  | move pcs => rw [pcs, Function.update_of_ne other]
  | create here _ pcs =>
    rw [pcs]
    by_cases new : t = s.sched.tm.nthread
    · rw [new, Function.update_self, ← new, inNext_unique inv here other]
      rfl
    · rw [Function.update_of_ne new]
  | take _ _ pcs => rw [pcs, Function.update_of_ne other]
  | post _ _ pcs => rw [pcs, Function.update_of_ne other]
  | release _ _ _ pcs => rw [pcs, Function.update_of_ne other]

theorem passing_of_inNext (inNext : (s.pc tid).inNext = true) : s.passing = 1 := if_pos ⟨tid, inNext⟩

theorem passing_of_not (outside : ∀ t, (s.pc t).inNext = false) : s.passing = 0 := by
  refine if_neg ?_
  rintro ⟨t, inside⟩
  rw [outside t] at inside
  cases inside

/-- Who is not the front is further back. -/
theorem behind_front {front t : Tid} {k : Nat} (position : (front :: rest)[k]? = some t) (other : t ≠ front) :
    ∃ j, k = j + 1 ∧ rest[j]? = some t := by
  cases k with
  | zero => exact absurd (Option.some.inj position).symm other
  | succ j => exact ⟨j, rfl, position⟩

theorem getElem?_append_of_some {more : List Tid} {t : Tid} {k : Nat} (position : rest[k]? = some t) :
    (rest ++ more)[k]? = some t := by
  rw [List.getElem?_append_left (List.getElem?_eq_some_iff.mp position).1]
  exact position

/-- **While a thread stays in `runq`, its position and the pass in progress go down with the passes that are
completed.** -/
theorem QueueStep.rank {runq' : List Tid} (inv : Inv o scope s runq hp holder)
    (stepped : s.step o (tid, action) = some s') (queued : QueueStep s tid action s' runq runq') {t : Tid}
    {k : Nat} (position : runq[k]? = some t) (stays : t ∈ runq')
    (gives : (s.pc tid).inTurn = true → (s.pc tid).inNext = false → t ≠ tid) :
    ∃ k', runq'[k']? = some t ∧ k' + s'.passing + passes [(tid, action)] ≤ k + s.passing ∧
      (action ≠ .post → 1 ≤ k + s.passing → 1 ≤ k' + s'.passing) := by
  have others := fun t => @inNext_others o scope s s' runq hp holder tid action inv stepped t
  cases queued with
  | grew more fresh next notPost =>
    have samePassing : s'.passing = s.passing := by
      unfold Sys.passing Sys.Passing
      refine congrArg (fun p : Prop => @ite Nat p (Classical.propDecidable p) 1 0) (propext ?_)
      refine exists_congr fun u => ?_
      by_cases own : u = tid
      · rw [own, next]
      · rw [others u own]
    refine ⟨k, getElem?_append_of_some position, ?_, fun _ => by rw [samePassing]; exact id⟩
    simp [passes, notPost, samePassing]
  | popped rest more isRunq fresh before after notPost =>
    subst isRunq
    have nobody : s.passing = 0 := by
      refine passing_of_not fun u => ?_
      by_cases own : u = tid
      · rw [own]
        exact before.2
      · exact inNext_unique inv before.1 own
    obtain ⟨j, rfl, position'⟩ := behind_front position (gives before.1 before.2)
    refine ⟨j, getElem?_append_of_some position', ?_, fun _ _ => by simp [passing_of_inNext after]⟩
    simp [passes, notPost, nobody, passing_of_inNext after]
  | dropped head rest more isRunq stopped fresh before after notPost =>
    subst isRunq
    have notHead : t ≠ head := by
      rintro rfl
      rcases List.mem_append.mp stays with inside | inside
      · exact (List.nodup_cons.mp inv.layout.linked.queue.queue.nodup).1 inside
      · exact fresh t inside List.mem_cons_self
    obtain ⟨j, rfl, position'⟩ := behind_front position notHead
    refine ⟨j, getElem?_append_of_some position', ?_, fun _ _ => by simp [passing_of_inNext after]⟩
    simp [passes, notPost, passing_of_inNext before, passing_of_inNext after]
  | posted next front chosen isPost after =>
    have inTurn := inTurn_of_grantee chosen
    have nobody : s'.passing = 0 := by
      refine passing_of_not fun u => ?_
      by_cases own : u = tid
      · rw [own]
        exact after
      · rw [others u own]
        exact inNext_unique inv inTurn own
    have inNext : (s.pc tid).inNext = true := by
      cases here : s.pc tid with
      | leaving phase atThreadEnd strategy after => rfl
      | _ =>
        rw [here] at chosen
        cases chosen
    refine ⟨k, position, ?_, fun notPost => absurd isPost notPost⟩
    simp [passes, isPost, nobody, passing_of_inNext inNext]
  | ended nobody notPost =>
    rw [nobody] at stays
    cases stays


/-- A thread that is not the front when the turn is given up stays in `runq`, unless it is in an
external call or gets the turn. -/
theorem QueueStep.stays {runq' : List Tid} (queued : QueueStep s tid action s' runq runq') {t : Tid}
    (member : t ∈ runq) (gives : (s.pc tid).inTurn = true → (s.pc tid).inNext = false → t ≠ tid)
    (awake : (s.sched.elems t).status ≠ .interProStop) : t ∈ runq' := by
  cases queued with
  | grew more => exact List.mem_append_left more member
  | popped rest more isRunq fresh before =>
    subst isRunq
    exact List.mem_append_left more ((List.mem_cons.mp member).resolve_left (gives before.1 before.2))
  | dropped head rest more isRunq stopped =>
    subst isRunq
    refine List.mem_append_left more ((List.mem_cons.mp member).resolve_left ?_)
    rintro rfl
    exact awake stopped
  | posted => exact member
  | ended => exact member

/-- The thread gives up the turn in this step. -/
def GivesUp (s s' : Sys) (t : Tid) : Prop := (s.pc t).inNext = false ∧ (s'.pc t).inNext = true

theorem lt_of_append {kept more : List Tid} {t u : Tid} {j k : Nat}
    (apart : u ∉ more) (outside : t ∉ kept) (first : (kept ++ more)[j]? = some u)
    (second : (kept ++ more)[k]? = some t) : j < k := by
  have early : j < kept.length := by
    by_contra late
    rw [List.getElem?_append_right (by omega)] at first
    exact apart (List.mem_of_getElem? first)
  have late : kept.length ≤ k := by
    by_contra early
    rw [List.getElem?_append_left (by omega)] at second
    exact outside (List.mem_of_getElem? second)
  omega

/-- **Who enters is behind those who stay.** -/
theorem QueueStep.behind {runq' : List Tid} (nodup : runq.Nodup)
    (queued : QueueStep s tid action s' runq runq') {t u : Tid} {j k : Nat}
    (enters : t ∉ runq ∨ t = tid ∧ GivesUp s s' t) (member : u ∈ runq) (keeps : u = tid → ¬ GivesUp s s' u)
    (first : runq'[j]? = some u) (second : runq'[k]? = some t) : j < k := by
  cases queued with
  | grew more fresh next notPost =>
    have outside : t ∉ runq := enters.resolve_right fun own => by
      obtain ⟨rfl, before, after⟩ := own
      rw [next, before] at after
      cases after
    exact lt_of_append (fun inside => fresh u inside member) outside first second
  | popped rest more isRunq fresh before after notPost =>
    subst isRunq
    have notOwn : u ≠ tid := by
      rintro rfl
      exact keeps rfl ⟨before.2, after⟩
    have apart : u ∉ more := fun inside => (fresh u inside).elim notOwn fun outside => outside member
    refine lt_of_append apart ?_ first second
    rcases enters with outside | ⟨rfl, -⟩
    · exact fun inside => outside (List.mem_cons_of_mem _ inside)
    · exact (List.nodup_cons.mp nodup).1
  | dropped head rest more isRunq stopped fresh before after notPost =>
    subst isRunq
    have outside : t ∉ head :: rest := enters.resolve_right fun own => by
      obtain ⟨rfl, notNext, -⟩ := own
      rw [before] at notNext
      cases notNext
    have apart : u ∉ more := fun inside => fresh u inside member
    exact lt_of_append apart (fun member => outside (List.mem_cons_of_mem _ member)) first second
  | posted next front chosen isPost after =>
    have inside := List.mem_of_getElem? second
    obtain ⟨rfl, -, inNext⟩ := enters.resolve_left fun outside => outside inside
    rw [after] at inNext
    cases inNext
  | ended nobody notPost =>
    rw [nobody] at member
    cases member

end Steps

/-! ### Runs -/

/-- The invariant of runs in which every strategy is `0`. -/
def InOrder (o : Options) (s : Sys) : Prop :=
  Inv.Holds o ⟨False, False⟩ s ∧ ∀ t, (s.pc t).strategy = .default

section Runs

variable {o : Options} {s s' : Sys} {labels : List (Tid × Action)} {t : Tid} {runq : List Tid} {k : Nat}
  (rr : o.RoundRobin) (off : o.highPriority = false)

include rr off

theorem InOrder.step (inOrder : InOrder o s) {label : Tid × Action} (plain : label.2.plain = true)
    (stepped : s.step o label = some s') : InOrder o s' := by
  obtain ⟨⟨runq, hp, holder, inv⟩, plains⟩ := inOrder
  have good : GoodStep o ⟨False, False⟩ s label :=
    ⟨queueSafe_of_off rr inv off label, False.elim, False.elim⟩
  exact ⟨inv.step rr good stepped, plain_step rr off inv plains plain stepped⟩

theorem InOrder.run {mainTh : PthreadT} (plain : ∀ label ∈ labels, label.2.plain = true)
    (ran : exec (Sys.step o) (Sys.init o mainTh) labels = some s) : InOrder o s := by
  refine exec_invariant (InOrder o) (fun s label s' inOrder plain stepped => inOrder.step rr off plain stepped)
    ⟨⟨_, _, _, Inv.initial rr mainTh⟩, fun t => ?_⟩ (along_of_labels plain _) ran
  by_cases isMain : t = mainThreadTid
  · simp [Sys.init, isMain, Pc.strategy]
  · simp [Sys.init, isMain, Pc.strategy]

/-- What a step does to `runq`. -/
theorem InOrder.queue_step (inOrder : InOrder o s) (queue : s.sched.Queue runq) {label : Tid × Action}
    (plain : label.2.plain = true) (stepped : s.step o label = some s') :
    ∃ hp holder runq', Inv o ⟨False, False⟩ s runq hp holder ∧ s'.sched.Queue runq' ∧
      QueueStep s label.1 label.2 s' runq runq' := by
  obtain ⟨⟨runq₀, hp, holder, inv⟩, plains⟩ := inOrder
  obtain rfl := queue.unique inv.layout.queue
  obtain ⟨runq', queue', queued⟩ := MinSmt.queue_step rr off inv (plains label.1) plain stepped
  exact ⟨hp, holder, runq', inv, queue', queued⟩

/-- **Along a run in which a thread stays in `runq`**, its rank goes down with the passes. -/
theorem rank_run (inOrder : InOrder o s) (plain : ∀ label ∈ labels, label.2.plain = true)
    (ran : exec (Sys.step o) s labels = some s')
    (gives : Along (Sys.step o) (fun s label => (s.pc label.1).inTurn = true → t ≠ label.1) s labels)
    (stays : Throughout (Sys.step o) (fun s => ∃ runq, s.sched.Queue runq ∧ t ∈ runq) s labels)
    (queue : s.sched.Queue runq) (position : runq[k]? = some t) :
    ∃ runq' k', s'.sched.Queue runq' ∧ runq'[k']? = some t ∧
      k' + s'.passing + passes labels ≤ k + s.passing := by
  induction labels generalizing s runq k with
  | nil =>
    cases ran
    exact ⟨runq, k, queue, position, by simp [passes]⟩
  | cons label labels ih =>
    obtain ⟨tid, action⟩ := label
    obtain ⟨next, stepped, rest⟩ := exec_cons ran
    have isPlain := plain (tid, action) List.mem_cons_self
    obtain ⟨hp, holder, runq₁, inv, queue₁, queued⟩ := inOrder.queue_step rr off queue isPlain stepped
    have later := stays.2 next stepped
    obtain ⟨runq₂, queue₂, member⟩ : ∃ runq, next.sched.Queue runq ∧ t ∈ runq := by
      cases labels with
      | nil => exact later
      | cons => exact later.1
    obtain rfl := queue₂.unique queue₁
    obtain ⟨k₁, position₁, lower, -⟩ :=
      queued.rank inv stepped position member fun inTurn _ => gives.1 inTurn
    obtain ⟨runq', k', queue', position', lower'⟩ := ih (inOrder.step rr off isPlain stepped)
      (fun other member => plain other (List.mem_cons_of_mem _ member)) rest (gives.2 next stepped) later
      queue₁ position₁
    refine ⟨runq', k', queue', position', ?_⟩
    rw [passes_cons]
    omega

/-- **A thread that makes no external call gets the turn** within as many passes as its rank. -/
theorem granted_within (inOrder : InOrder o s) (plain : ∀ label ∈ labels, label.2.plain = true)
    (ran : exec (Sys.step o) s labels = some s')
    (awake : Throughout (Sys.step o) (fun s => (s.sched.elems t).status ≠ .interProStop) s labels)
    (queue : s.sched.Queue runq) (position : runq[k]? = some t) (waits : 1 ≤ k + s.passing)
    (enough : k + s.passing ≤ passes labels) :
    ∃ first x second middle, labels = first ++ (x, .post) :: second ∧
      exec (Sys.step o) s first = some middle ∧ (middle.pc x).grantee = some t ∧
      passes first < k + s.passing := by
  induction labels generalizing s runq k with
  | nil =>
    simp only [passes, List.countP_nil] at enough
    omega
  | cons label labels ih =>
    obtain ⟨tid, action⟩ := label
    obtain ⟨next, stepped, rest⟩ := exec_cons ran
    have isPlain := plain (tid, action) List.mem_cons_self
    obtain ⟨hp, holder, runq₁, inv, queue₁, queued⟩ := inOrder.queue_step rr off queue isPlain stepped
    by_cases chosen : action = .post ∧ (s.pc tid).grantee = some t
    · obtain ⟨rfl, isT⟩ := chosen
      exact ⟨[], tid, labels, s, rfl, rfl, isT, by simp only [passes, List.countP_nil]; omega⟩
    -- who gives up the turn is the front, and nobody passes the turn on then
    have gives : (s.pc tid).inTurn = true → (s.pc tid).inNext = false → t ≠ tid := by
      rintro inTurn notNext rfl
      have nobody : s.passing = 0 := passing_of_not fun u => by
        by_cases own : u = t
        · rw [own]
          exact notNext
        · exact inNext_unique inv inTurn own
      obtain ⟨others, rfl⟩ := front_of_turn off inv ⟨inTurn, notNext⟩
      obtain ⟨j, rfl⟩ : ∃ j, k = j + 1 := ⟨k - 1, by omega⟩
      exact (List.nodup_cons.mp inv.layout.linked.queue.queue.nodup).1 (List.mem_of_getElem? position)
    have awakeNow : (s.sched.elems t).status ≠ .interProStop := awake.1
    have stays := queued.stays (List.mem_of_getElem? position) gives awakeNow
    obtain ⟨k₁, position₁, lower, still⟩ := queued.rank inv stepped position stays gives
    have waits₁ : 1 ≤ k₁ + next.passing := by
      by_cases isPost : action = .post
      · by_contra none
        obtain rfl : k₁ = 0 := by omega
        refine chosen ⟨isPost, ?_⟩
        cases queued with
        | posted granted front isGrantee =>
          rw [← List.head?_eq_getElem?, front] at position₁
          rw [isGrantee, position₁]
        | grew _ _ _ notPost => exact absurd isPost notPost
        | popped _ _ _ _ _ _ notPost => exact absurd isPost notPost
        | dropped _ _ _ _ _ _ _ _ notPost => exact absurd isPost notPost
        | ended _ notPost => exact absurd isPost notPost
      · exact still isPost waits
    rw [passes_cons] at enough
    obtain ⟨first, x, second, middle, rfl, ranFirst, isT, few⟩ := ih (inOrder.step rr off isPlain stepped)
      (fun other member => plain other (List.mem_cons_of_mem _ member)) rest (awake.2 next stepped) queue₁
      position₁ waits₁ (by omega)
    refine ⟨(tid, action) :: first, x, second, middle, rfl, ?_, isT, ?_⟩
    · show (s.step o (tid, action)).bind _ = some middle
      rw [stepped]
      exact ranFirst
    · rw [passes_cons]
      omega

omit off in
/-- Without a post the turn stays where it is. -/
theorem exclusive_run {holder : Option Tid} (exclusive : Exclusive o s holder)
    (noPost : ∀ label ∈ labels, label.2 ≠ .post) (ran : exec (Sys.step o) s labels = some s') :
    Exclusive o s' holder :=
  exec_invariant (fun s => Exclusive o s holder)
    (fun _ _ _ exclusive notPost stepped => exclusive.kept rr notPost stepped) exclusive
    (along_of_labels noPost s) ran

omit off in
/-- **One thread has the turn until it passes it on.** -/
theorem holder_of_pass {mainTh : PthreadT} {before : List (Tid × Action)} {x : Tid}
    (ran : exec (Sys.step o) (Sys.init o mainTh) before = some s) (noPost : ∀ label ∈ labels, label.2 ≠ .post)
    (ranPass : exec (Sys.step o) s (labels ++ [(x, .post)]) = some s') :
    Along (Sys.step o) (fun s label => (s.pc label.1).inTurn = true → label.1 = x) s
      (labels ++ [(x, .post)]) := by
  obtain ⟨holder, exclusive⟩ := Exclusive.run (Or.inl rr) ran
  obtain ⟨middle, ranDuring, ranPost⟩ := exec_append ranPass
  obtain ⟨next, posts, -⟩ := exec_cons ranPost
  have inTurn : (middle.pc x).inTurn = true := by
    have stepped := Sys.threadStep_of_step posts
    cases here : middle.pc x with
    | leaving phase atThreadEnd strategy after => rfl
    | turn blocking => rfl
    | trying cur => rfl
    | _ => simp [Sys.threadStep, here, Sys.awayStep] at stepped
  obtain rfl := (exclusive_run rr exclusive noPost ranDuring).holder_eq inTurn
  clear ran ranPass ranDuring
  induction labels generalizing s with
  | nil => exact ⟨fun _ => rfl, fun _ _ => trivial⟩
  | cons label labels ih =>
    refine ⟨fun turn => (Option.some.inj (exclusive.holder_eq turn)).symm, fun next stepped => ?_⟩
    have notPost := noPost label List.mem_cons_self
    exact ih (fun other member => noPost other (List.mem_cons_of_mem _ member))
      (exclusive.kept rr notPost stepped)

end Runs

/-- The thread has the turn, or is owed it. -/
def HasTurn (o : Options) (s : Sys) (t : Tid) : Prop :=
  0 < (s.sched.waits t).posts o ∨ (s.pc t).inTurn = true

/-- **Round robin with bounded bypass.** In every state of a run with policy `0`: a thread that enters
`runq` in a step stands behind all those that stay there. From a state in which the turn is not being
passed on, a pass brings every thread forward that stays in `runq` and does not give up the turn, and
the front has the turn. The thread at position `k`, if it makes no external call, gets the turn within
`k` passes, not counting a pass that is in progress. -/
theorem bounded_bypass (o : Options) (rr : o.RoundRobin) (policy : o.schedulingPolicy = 0) (mainTh : PthreadT)
    (labels : List (Tid × Action)) (plain : ∀ label ∈ labels, label.2.plain = true) (s : Sys)
    (ran : exec (Sys.step o) (Sys.init o mainTh) labels = some s) :
    ∃ runq, s.sched.Queue runq ∧
      (∀ label s' runq', label.2.plain = true → s.step o label = some s' → s'.sched.Queue runq' →
        ∀ t u (j k : Nat), t ∉ runq ∨ t = label.1 ∧ GivesUp s s' t → u ∈ runq → (u = label.1 → ¬ GivesUp s s' u) →
          runq'[j]? = some u → runq'[k]? = some t → j < k) ∧
      ((∀ t, (s.pc t).inNext = false) →
        (∀ (during : List (Tid × Action)) x s' t (k : Nat),
          (∀ label ∈ during, label.2.plain = true ∧ label.2 ≠ .post) →
          exec (Sys.step o) s (during ++ [(x, .post)]) = some s' → t ≠ x → runq[k]? = some t →
          Throughout (Sys.step o) (fun s => ∃ runq, s.sched.Queue runq ∧ t ∈ runq) s (during ++ [(x, .post)]) →
          ∃ runq' k', s'.sched.Queue runq' ∧ runq'[k']? = some t ∧ k' < k) ∧
        ∀ t, s.outcome = none → runq[0]? = some t → HasTurn o s t) ∧
      ∀ (later : List (Tid × Action)) s' t (k : Nat), (∀ label ∈ later, label.2.plain = true) →
        exec (Sys.step o) s later = some s' → runq[k]? = some t → 0 < k + s.passing →
        Throughout (Sys.step o) (fun s => (s.sched.elems t).status ≠ .interProStop) s later →
        k + s.passing ≤ passes later →
        ∃ first x second middle, later = first ++ (x, .post) :: second ∧
          exec (Sys.step o) s first = some middle ∧ (middle.pc x).grantee = some t ∧
          passes first < k + s.passing := by
  have off : o.highPriority = false := by
    unfold Options.highPriority
    rw [policy]
    rfl
  have inOrder : InOrder o s := InOrder.run rr off plain ran
  obtain ⟨⟨runq, hp, holder, inv⟩, plains⟩ := id inOrder
  have queue := inv.layout.queue
  refine ⟨runq, queue, ?_, fun calm => ⟨?_, ?_⟩, ?_⟩
  · intro label s' runq' isPlain stepped queue' t u j k enters member keeps first second
    obtain ⟨-, -, runq₁, -, queue₁, queued⟩ := inOrder.queue_step rr off queue isPlain stepped
    obtain rfl := queue₁.unique queue'
    exact queued.behind inv.layout.linked.queue.queue.nodup enters member keeps first second
  · intro during x s' t k each ranPass other position stays
    have passed : passes (during ++ [(x, .post)]) = 1 := by
      have nothing : passes during = 0 := List.countP_eq_zero.mpr fun label member => by
        simpa using (each label member).2
      simp only [passes, List.countP_append] at nothing ⊢
      rw [nothing]
      rfl
    have gives := holder_of_pass rr ran (fun label member => (each label member).2) ranPass
    have isPlain : ∀ label ∈ during ++ [(x, Action.post)], label.2.plain = true := by
      intro label member
      rcases List.mem_append.mp member with inside | isPost
      · exact (each label inside).1
      · rw [List.mem_singleton.mp isPost]
        rfl
    obtain ⟨runq', k', queue', position', lower⟩ := rank_run rr off inOrder isPlain ranPass
      (gives.mono fun u label isX inTurn same => other (same.trans (isX inTurn))) stays queue position
    rw [passing_of_not calm, passed] at lower
    exact ⟨runq', k', queue', position', by omega⟩
  · intro t running position
    cases isHolder : holder with
    | none =>
      rcases inv.lost isHolder with ended | ⟨ended, -⟩
      · rw [running] at ended
        cases ended
      · rw [running] at ended
        cases ended
    | some h =>
      have front := (inv.front h isHolder (calm h)).1
      rw [AtFront, inv.layout.unflagged off h, if_neg Bool.false_ne_true, List.head?_eq_getElem?,
        position] at front
      obtain rfl := Option.some.inj front
      have token := inv.token t
      rw [isHolder, if_pos rfl] at token
      unfold HasTurn
      cases turn : (s.pc t).inTurn with
      | true => exact Or.inr rfl
      | false =>
        rw [turn] at token
        exact Or.inl (by simp at token; omega)
  · intro later s' t k isPlain ranLater position waits awake enough
    exact granted_within rr off inOrder isPlain ranLater awake queue position waits enough

/-- The main thread creates two threads. -/
def threeQueued : List (Tid × Action) := enterTurn 0 ++ [(0, .create 101 7), (0, .create 102 7)]

/-- The turn is passed twice. -/
def twoPasses : List (Tid × Action) := giveTurn 0 .default 1 ++ enterTurn 1 ++ giveTurn 1 .default 1

/-- The third in the queue gets the turn at the second pass. -/
theorem bounded_bypass_threeQueued : ∃ s runq,
    exec (Sys.step {}) (Sys.init {} 100) threeQueued = some s ∧ s.sched.Queue runq ∧ runq[2]? = some 2 ∧
    ∃ first x second middle, twoPasses = first ++ (x, .post) :: second ∧
      exec (Sys.step {}) s first = some middle ∧ (middle.pc x).grantee = some 2 ∧ passes first < 2 := by
  have found : (exec (Sys.step {}) (Sys.init {} 100) threeQueued).any (fun s =>
      decide (s.pc 0 = .turn false ∧ s.sched.runq.head = some 0 ∧ (s.sched.elems 0).next = some 1 ∧
        (s.sched.elems 1).next = some 2 ∧ (s.sched.elems 2).next = none) &&
      decide (Throughout (Sys.step {}) (fun s => (s.sched.elems 2).status ≠ .interProStop) s twoPasses) &&
      (exec (Sys.step {}) s twoPasses).isSome) = true := by decide +kernel
  obtain ⟨s, ran, facts⟩ := exec_of_any found
  obtain ⟨facts, isSome⟩ := Bool.and_eq_true_iff.mp facts
  obtain ⟨links, awake⟩ := Bool.and_eq_true_iff.mp facts
  obtain ⟨here, head, next, next', last⟩ := of_decide_eq_true links
  obtain ⟨s', ranPasses⟩ := Option.isSome_iff_exists.mp isSome
  obtain ⟨runq, queue, -, -, within⟩ := bounded_bypass {} (by decide) rfl 100 threeQueued (by decide) s ran
  have isRunq : runq = [0, 1, 2] := by
    refine Forward.unique queue ?_
    simp [head, next, next', last]
  subst isRunq
  refine ⟨s, _, ran, queue, rfl, ?_⟩
  have calm : ∀ t, (s.pc t).inNext = false := by
    obtain ⟨⟨_, _, _, inv⟩, -⟩ := InOrder.run (by decide) (by decide) (by decide) ran
    intro t
    by_cases isMain : t = 0
    · rw [isMain, here]
      rfl
    · exact inNext_unique inv (by rw [here]; rfl) isMain
  rw [passing_of_not calm] at within
  exact within twoPasses s' 2 2 (by decide) ranPasses rfl (by decide) (of_decide_eq_true awake) (by decide)

end MinSmt
