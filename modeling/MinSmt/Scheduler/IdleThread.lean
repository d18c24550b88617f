/-
**The idle thread hands the turn over** (`idle_cond_wait`, `idleThreadCondWait`, `tryPutTurn`).

The idle thread may leave `runq` only when some other thread will take the turn. `tryPutTurn` looks for
a thread that is runnable and lets it run at once, while it still waits in the queue: from then on that
thread cannot drop out of the queue by itself, because `interProStart` of a running thread makes it ask for
the turn. So the round of `nextRunnable` that follows finds it, or another thread before it.

* `step_aside` — what a step of another thread can change while somebody has the turn: its own status and
  the side set.
* `Handing` — from `idle_cond_wait` to the post: the thread that `tryPutTurn` let run is queued and running,
  and the idle thread waits; or the idle thread is in `runq`.
* **`idle_hands_off`** — along a run that keeps the queues apart (`QueueSafe`), every round of
  `nextRunnable` after `tryPutTurn` returned true grants the turn to another thread or drops a stopped one,
  and when `tryPutTurn` returned false the idle thread stays in `runq`.
* `reservation_is_lost` — with both queues broken, the reserved thread is not found and the loop follows a
  null pointer.
-/

import MinSmt.Scheduler.TwoQueues

namespace MinSmt

open MinSmt.Library Sched Sys

variable {o : Options} {scope : Scope} {s s' : Sys} {runq hp : List Tid} {holder : Option Tid}
  {tid : Tid}

/-- The elements of both run queues. -/
def Sched.queued (sched : Sched) : Nat := sched.runq.numElements + sched.hpRunq.numElements

theorem Sched.Layout.queued_eq {late : List Tid} {sched : Sched} (layout : Layout o late sched runq hp) :
    sched.queued = runq.length + hp.length := by
  unfold Sched.queued
  rw [layout.linked.queue.size, layout.linked.second.size]

theorem Granted.awake {status : ThdStatus} (granted : Granted status) : status ≠ .interProStop := by
  rcases granted with rfl | rfl <;> nofun

/-! ### The other threads -/

/-- What a step of a thread without the turn leaves of the scheduler. -/
structure StepAside (tid : Tid) (before after : Sched) : Prop where
  same : ∃ status tids flag, after = { before with
    elems := MinSmt.setStatus before.elems tid status
    interProWakeupTids := tids
    interProWakeupFlag := flag }
  granted : Granted (before.elems tid).status → Granted (after.elems tid).status

namespace StepAside

variable {before after : Sched}

/-- Neither the links nor the status change. -/
theorem of_wakeups (tid : Tid) (sched : Sched) (tids : List Tid) (flag : Bool) :
    StepAside tid sched { sched with interProWakeupTids := tids, interProWakeupFlag := flag } := by
  refine ⟨⟨(sched.elems tid).status, tids, flag, ?_⟩, id⟩
  unfold MinSmt.setStatus
  rw [Function.update_eq_self]

theorem refl (tid : Tid) (sched : Sched) : StepAside tid sched sched :=
  of_wakeups tid sched sched.interProWakeupTids sched.interProWakeupFlag

theorem of_status {sched : Sched} {tid : Tid} (status : ThdStatus)
    (granted : Granted (sched.elems tid).status → Granted status) :
    StepAside tid sched (sched.setStatus tid status) := by
  refine ⟨⟨status, sched.interProWakeupTids, sched.interProWakeupFlag, rfl⟩, fun was => ?_⟩
  rw [setStatus_self]
  exact granted was

/-- The queues and the waiting threads are the same. -/
theorem frame (aside : StepAside tid before after) : after.toCore = before.toCore ∧
    after.runq = before.runq ∧ after.hpRunq = before.hpRunq ∧ after.removed = before.removed ∧
    ∀ t, (after.elems t).next = (before.elems t).next := by
  obtain ⟨status, tids, flag, rfl⟩ := aside.same
  refine ⟨rfl, rfl, rfl, rfl, fun t => ?_⟩
  by_cases own : t = tid
  · subst own
    simp [MinSmt.setStatus]
  · simp [MinSmt.setStatus, Function.update_of_ne own]

/-- Who runs goes on running. -/
theorem keeps_granted (aside : StepAside tid before after) {t : Tid}
    (was : Granted (before.elems t).status) : Granted (after.elems t).status := by
  by_cases own : t = tid
  · subst own
    exact aside.granted was
  · obtain ⟨status, tids, flag, rfl⟩ := aside.same
    simpa [MinSmt.setStatus, Function.update_of_ne own] using was

end StepAside

/-- **A thread that neither has the turn nor is owed it** changes only its own status and the side set. -/
theorem aside_of_not_holder (rr : o.RoundRobin) (inv : Inv o scope s runq hp holder) {action : Action}
    (notMine : holder ≠ some tid) (stepped : s.step o (tid, action) = some s') :
    StepAside tid s.sched s'.sched ∧ ∀ t, t ≠ tid → s'.pc t = s.pc t := by
  have outTurn : (s.pc tid).inTurn = false := by
    by_contra mine
    exact notMine (inv.holder_eq (by simpa using mine))
  have fits := inv.status tid
  have away : ∀ s', s.awayStep tid action = some s' → s.pc tid = .away ∨ s.pc tid = .woken →
      StepAside tid s.sched s'.sched ∧ ∀ t, t ≠ tid → s'.pc t = s.pc t := by
    intro s' stepped here
    cases action with
    | getTurn =>
      cases stepped
      exact ⟨StepAside.refl _ _, fun t own => goto_pc_of_ne own⟩
    | interProStart =>
      cases stepped
      refine ⟨?_, fun t own => goto_pc_of_ne own⟩
      show StepAside tid s.sched (s.sched.interProStart tid).2
      unfold Sched.interProStart
      split
      · rename_i isRunnable
        refine StepAside.of_status _ fun was => ?_
        rw [isRunnable] at was
        rcases was with isReg | isInterPro
        · cases isReg
        · cases isInterPro
      · exact StepAside.of_status _ fun _ => Or.inr rfl
    | progEnd =>
      simp only [Sys.awayStep] at stepped
      split at stepped
      · cases stepped
        exact ⟨StepAside.refl _ _, fun t _ => rfl⟩
      · cases stepped
    | _ => cases stepped
  replace stepped := Sys.threadStep_of_step stepped
  unfold Sys.threadStep at stepped
  split at stepped
  · rename_i here
    exact away s' stepped (Or.inl here)
  · rename_i here
    exact away s' stepped (Or.inr here)
  · cases stepped
    exact ⟨StepAside.refl _ _, fun t own => goto_pc_of_ne own⟩
  · cases stepped
    exact ⟨StepAside.of_wakeups _ _ _ _, fun t own => goto_pc_of_ne own⟩
  · rename_i here
    cases stepped
    refine ⟨StepAside.of_status _ fun was => ?_, fun t own => goto_pc_of_ne own⟩
    rw [here] at fits
    rw [show (s.sched.elems tid).status = .interProStop from fits] at was
    rcases was with isReg | isInterPro
    · cases isReg
    · cases isInterPro
  · cases stepped
    exact ⟨StepAside.of_wakeups _ _ _ _, fun t own => goto_pc_of_ne own⟩
  · obtain ⟨sched, taken, -⟩ := Option.map_eq_some_iff.mp stepped
    unfold Sched.take at taken
    obtain ⟨w, took, -⟩ := Option.bind_eq_some_iff.mp taken
    have posted := (posts_take rr took).1
    exact absurd (inv.token.holder_of_posts (by omega)) notMine
  all_goals first
    | cases stepped; done
    | rename_i here; rw [here] at outTurn; cases outTurn

/-- **While somebody has the turn, the others change only their own status and the side set.** -/
theorem step_aside (rr : o.RoundRobin) (inv : Inv o scope s runq hp holder) {action : Action}
    {other : Tid} (inTurn : (s.pc other).inTurn = true) (different : tid ≠ other)
    (stepped : s.step o (tid, action) = some s') :
    StepAside tid s.sched s'.sched ∧ ∀ t, t ≠ tid → s'.pc t = s.pc t := by
  refine aside_of_not_holder rr inv ?_ stepped
  rw [inv.holder_eq inTurn]
  exact fun same => different (Option.some.inj same).symm

/-- The layout of the queues is a matter of the links. -/
theorem lists_unique {sched sched' : Sched} {late late' runq' hp' : List Tid}
    (layout : Layout o late sched runq hp) (layout' : Layout o late' sched' runq' hp')
    (links : ∀ t, (sched'.elems t).next = (sched.elems t).next) (sameRunq : sched'.runq = sched.runq)
    (sameHp : sched'.hpRunq = sched.hpRunq) : runq' = runq ∧ hp' = hp := by
  have walk := layout'.linked.queue.forward
  have walkHp := layout'.linked.second.forward
  rw [sameRunq] at walk
  rw [sameHp] at walkHp
  exact ⟨(walk.congr fun t _ => (links t).symm).unique layout.linked.queue.forward,
    (walkHp.congr fun t _ => (links t).symm).unique layout.linked.second.forward⟩

theorem setStatus_next (sched : Sched) (t : Tid) (status : ThdStatus) (u : Tid) :
    ((sched.setStatus t status).elems u).next = (sched.elems u).next := by
  by_cases same : u = t
  · subst same
    simp [Sched.setStatus, MinSmt.setStatus]
  · rw [setStatus_of_ne same]

theorem grantHead_same (sched : Sched) (t : Tid) :
    (∀ u, ((sched.grantHead t).elems u).next = (sched.elems u).next) ∧
      (sched.grantHead t).runq = sched.runq ∧ (sched.grantHead t).hpRunq = sched.hpRunq := by
  unfold Sched.grantHead
  split
  · exact ⟨setStatus_next sched t _, rfl, rfl⟩
  · exact ⟨fun _ => rfl, rfl, rfl⟩

/-! ### A round of `nextRunnable` -/

/-- **A round with the default strategy**, when one of the queues it looks at is not empty: it drops a
stopped head or grants the turn to a queued thread. -/
inductive Round (o : Options) (s : Sched) (runq hp : List Tid) : Pick → Prop
  | dropped {s' : Sched} {runq' hp' : List Tid} (layout : Layout o [] s' runq' hp') (quiet : Quiet s s')
      (waitq : s'.waitq = s.waitq)
      (runqKept : ∀ t ∈ runq, (s.elems t).status ≠ .interProStop → t ∈ runq')
      (hpKept : ∀ t ∈ hp, (s.elems t).status ≠ .interProStop → t ∈ hp')
      (shorter : runq'.length + hp'.length + 1 = runq.length + hp.length) :
      Round o s runq hp (.again s' .default)
  | granted {s' : Sched} {next : Tid} (queued : next ∈ runq ∨ next ∈ hp)
      (kept : ∀ runq' hp', Layout o [] s' runq' hp' → ∀ t ∈ runq, t ∈ runq') :
      Round o s runq hp (.grant s' next)

theorem noteRemoved_waitq (sched : Sched) (t : Tid) : (sched.noteRemoved o t).waitq = sched.waitq := by
  unfold Sched.noteRemoved Sched.enterNonDet
  split <;> rfl

/-- A member of a queue whose head is dropped. -/
theorem mem_rest {head t : Tid} {rest : List Tid} {sched : Sched}
    (stopped : (sched.elems head).status = .interProStop) (member : t ∈ head :: rest)
    (awake : (sched.elems t).status ≠ .interProStop) : t ∈ rest := by
  rcases List.mem_cons.mp member with rfl | inside
  · exact absurd stopped awake
  · exact inside

theorem round_pickRunq {sched : Sched} {head : Tid} {rest : List Tid}
    (layout : Layout o [] sched (head :: rest) hp) :
    Round o sched (head :: rest) hp (sched.pickRunq o .default) := by
  unfold Sched.pickRunq
  rw [layout.linked.queue.head_eq]
  show Round o sched (head :: rest) hp (if (sched.elems head).status = .interProStop then _ else _)
  split
  · rename_i stopped
    obtain ⟨elems, q, popped, layout', quiet⟩ := layout.drop_runq stopped
    rw [popped]
    refine .dropped layout' quiet (noteRemoved_waitq _ _) (fun t member awake => ?_)
      (fun t member _ => member) ?_
    · exact mem_rest stopped member awake
    · rw [List.length_cons]
      omega
  · obtain ⟨links, sameRunq, sameHp⟩ := grantHead_same sched head
    refine .granted (Or.inl List.mem_cons_self) fun runq' hp' layout' t member => ?_
    rwa [(lists_unique layout layout' links sameRunq sameHp).1]

theorem round_pickHp {sched : Sched} {head : Tid} {rest : List Tid}
    (layout : Layout o [] sched runq (head :: rest))
    (fresh : (sched.elems head).status = .interProStop →
      (sched.waits head).wokenUpFromHpQueueFlag = false) :
    Round o sched runq (head :: rest) (sched.pickHp o .default) := by
  unfold Sched.pickHp
  rw [layout.linked.second.head_eq]
  show Round o sched runq (head :: rest) (if (sched.elems head).status = .interProStop then _ else _)
  split
  · rename_i stopped
    obtain ⟨elems, h, popped, layout', quiet, -⟩ := layout.drop_hp stopped (fresh stopped)
    rw [popped]
    refine .dropped layout' quiet (noteRemoved_waitq _ _) (fun t member _ => member)
      (fun t member awake => ?_) ?_
    · exact mem_rest stopped member awake
    · rw [List.length_cons]
      omega
  · obtain ⟨links, sameRunq, sameHp⟩ := grantHead_same sched head
    refine .granted (Or.inr List.mem_cons_self) fun runq' hp' layout' t member => ?_
    rwa [(lists_unique layout layout' links sameRunq sameHp).1]

/-- **One round.** When the idle thread wakes the threads that wait to enter a non-det region, it is the
head itself. -/
theorem round_nextRunnable (rr : 0 ≤ o.enforceTurnType) {sched : Sched} {self : Tid}
    (layout : Layout o [] sched runq hp)
    (noStale : NoStale o sched self .default)
    (queued : FromHpRunq o sched self .default ∨ runq ≠ [])
    (awake : (sched.elems idleThreadTid).status ≠ .interProStop) (idleDone atThreadEnd : Bool) :
    Round o sched runq hp (sched.nextRunnable o idleDone self atThreadEnd .default) := by
  unfold Sched.nextRunnable
  by_cases fromHp : FromHpRunq o sched self .default
  · rw [if_pos fromHp]
    cases hp with
    | nil =>
      have empty := layout.hpRunq_empty_iff.mpr rfl
      rw [fromHp.2.1] at empty
      cases empty
    | cons head rest =>
      exact round_pickHp layout (noStale fromHp head layout.linked.second.head_eq)
  · rw [if_neg fromHp, if_neg fun role => by cases role.1]
    have nonempty : runq ≠ [] := queued.resolve_left fromHp
    have notEmpty : sched.runq.empty = false :=
      Bool.eq_false_iff.mpr fun empty => nonempty (layout.runq_empty_iff.mp empty)
    rw [notEmpty, if_neg Bool.false_ne_true]
    cases runq with
    | nil => exact absurd rfl nonempty
    | cons head rest =>
      split
      · rename_i releases
        obtain ⟨runq₁, hp₁, longer, -, layout₁, quiet⟩ := layout.signal rr .nonDetCV true
        have isIdle : head = idleThreadTid := by
          have isHead := releases.2.2.2.2
          rw [layout.linked.queue.head_eq] at isHead
          exact Option.some.inj isHead
        unfold Sched.pickRunq
        rw [layout₁.linked.queue.head_eq, head_of_prefix longer rfl]
        show Round o sched (head :: rest) hp
          (if ((sched.signal o .nonDetCV true).elems head).status = .interProStop then _ else _)
        rw [quiet.status head, isIdle, if_neg awake]
        obtain ⟨links, sameRunq, sameHp⟩ := grantHead_same (sched.signal o .nonDetCV true) idleThreadTid
        refine .granted (Or.inl List.mem_cons_self) fun runq' hp' layout' t member => ?_
        rw [(lists_unique layout₁ layout' links sameRunq sameHp).1]
        rw [← isIdle] at member
        exact longer.subset member
      · exact round_pickRunq layout

/-! ### From `idle_cond_wait` to the post -/

/-- **Where the idle thread is between `idle_cond_wait` and its post.** -/
inductive Handing (o : Options) (s : Sys) : Prop
  /-- In `tryPutTurn`. -/
  | looking {runq hp : List Tid} (inv : Inv o ⟨False, False⟩ s runq hp (some idleThreadTid))
      {cur : Option Tid} (here : s.pc idleThreadTid = .trying cur) (found : ∀ t, cur = some t → t ∈ runq)
  /-- Inside `next`, after `tryPutTurn` has let a thread run. -/
  | reserved {runq hp : List Tid} (inv : Inv o ⟨False, False⟩ s runq hp (some idleThreadTid))
      {phase : Phase} (here : s.pc idleThreadTid = .leaving phase false .default .idling)
      (early : ∀ next, phase ≠ .posting next) (waits : idleThreadTid ∈ s.sched.waitq) {cur : Tid}
      (queued : cur ∈ runq ∨ cur ∈ hp) (granted : Granted (s.sched.elems cur).status)
  /-- The same, when the next thread has been chosen. -/
  | chosen {runq hp : List Tid} (inv : Inv o ⟨False, False⟩ s runq hp (some idleThreadTid)) {next : Tid}
      (here : s.pc idleThreadTid = .leaving (.posting next) false .default .idling)
      (other : next ≠ idleThreadTid) (live : s.sched.Live next)
  /-- Inside `next`, after `tryPutTurn` has found nobody. -/
  | stayed {runq hp : List Tid} (inv : Inv o ⟨False, False⟩ s runq hp (some idleThreadTid))
      {phase : Phase} (here : s.pc idleThreadTid = .leaving phase false .default .away)
      (queued : idleThreadTid ∈ runq)

namespace Handing

theorem inTurn (handing : Handing o s) : (s.pc idleThreadTid).inTurn = true := by
  cases handing with
  | looking inv here found => rw [here]; rfl
  | reserved inv here early waits queued granted => rw [here]; rfl
  | chosen inv here other live => rw [here]; rfl
  | stayed inv here queued => rw [here]; rfl

theorem holds (handing : Handing o s) : Inv.Holds o ⟨False, False⟩ s := by
  cases handing with
  | looking inv here found => exact ⟨_, _, _, inv⟩
  | reserved inv here early waits queued granted => exact ⟨_, _, _, inv⟩
  | chosen inv here other live => exact ⟨_, _, _, inv⟩
  | stayed inv here queued => exact ⟨_, _, _, inv⟩

/-- The other threads do not disturb it. -/
theorem aside (rr : o.RoundRobin) (handing : Handing o s) {action : Action}
    (different : tid ≠ idleThreadTid) (safe : QueueSafe o s (tid, action))
    (stepped : s.step o (tid, action) = some s') : Handing o s' := by
  obtain ⟨_, _, _, inv⟩ := handing.holds
  have turn := handing.inTurn
  obtain ⟨aside, pcs⟩ := step_aside rr inv turn different stepped
  obtain ⟨sameCore, sameRunq, sameHp, -, links⟩ := aside.frame
  obtain ⟨runq', hp', holder', inv'⟩ := inv.step rr ⟨safe, False.elim, False.elim⟩ stepped
  have samePc : s'.pc idleThreadTid = s.pc idleThreadTid := pcs _ different.symm
  have isHolder : holder' = some idleThreadTid := inv'.holder_eq (samePc ▸ turn)
  subst isHolder
  have lists : ∀ {runq hp : List Tid}, Inv o ⟨False, False⟩ s runq hp (some idleThreadTid) →
      Inv o ⟨False, False⟩ s' runq hp (some idleThreadTid) := by
    intro runq hp inv
    obtain ⟨rfl, rfl⟩ := lists_unique inv.layout inv'.layout links sameRunq sameHp
    exact inv'
  cases handing with
  | looking inv here found => exact .looking (lists inv) (samePc.trans here) found
  | reserved inv here early waits queued granted =>
    refine .reserved (lists inv) (samePc.trans here) early ?_ queued (aside.keeps_granted granted)
    rw [sameCore]
    exact waits
  | chosen inv here other live =>
    refine .chosen (lists inv) (samePc.trans here) other ?_
    unfold Live at live ⊢
    rw [sameCore]
    exact live
  | stayed inv here queued => exact .stayed (lists inv) (samePc.trans here) queued

/-- The steps of the idle thread in `tryPutTurn`. -/
theorem look (rr : o.RoundRobin) (inv : Inv o ⟨False, False⟩ s runq hp (some idleThreadTid))
    {cur : Option Tid} (here : s.pc idleThreadTid = .trying cur) (found : ∀ t, cur = some t → t ∈ runq) :
    Handing o (s.tryStep o idleThreadTid cur) := by
  have inTurn : (s.pc idleThreadTid).inTurn = true := by rw [here]; rfl
  have notNext : (s.pc idleThreadTid).inNext = false := by rw [here]; rfl
  obtain ⟨front, alive, notWaiting⟩ := inv.turn_front inTurn notNext
  obtain ⟨runq', hp', holder', inv'⟩ := inv.tryStep rr here
  cases cur with
  | none =>
    obtain ⟨sched, runq₁, hp₁, result, layout, -, -, -, -, -, queued⟩ :=
      inv.layout.putTurn rr.nonneg front .default
    have place : s.tryStep o idleThreadTid none =
        s.goto idleThreadTid sched (.leaving .checking false .default .away) := by
      unfold Sys.tryStep
      rw [result]
      rfl
    rw [place] at inv' ⊢
    obtain ⟨rfl, rfl⟩ := lists_unique layout inv'.layout (fun _ => rfl) rfl rfl
    obtain rfl : holder' = some idleThreadTid := inv'.holder_eq (by rw [goto_pc_self]; rfl)
    exact .stayed inv' goto_pc_self (queued rfl)
  | some cur =>
    by_cases isRunnable : (s.sched.elems cur).status = .runnable
    · have inQueue := inv.layout.runq_live (found cur rfl)
      have other : cur ≠ idleThreadTid := by
        intro same
        have fits := inv.status idleThreadTid
        rw [here, ← same, isRunnable] at fits
        cases fits
      obtain ⟨sched, runq₁, hp₁, result, layout, moved, -, waitq, -, -⟩ :=
        (inv.layout.setStatus cur .runningReg).idleEnqueue rr.nonneg front (inv.settled _ _ here)
      have place : s.tryStep o idleThreadTid (some cur) =
          s.goto idleThreadTid sched (.leaving .checking false .default .idling) := by
        unfold Sys.tryStep
        simp only [if_pos isRunnable, result]
        rfl
      rw [place] at inv' ⊢
      obtain rfl : holder' = some idleThreadTid := inv'.holder_eq (by rw [goto_pc_self]; rfl)
      have status : (sched.elems cur).status = .runningReg := by
        rw [moved.status cur other, setStatus_self]
      have waits : idleThreadTid ∈ sched.waitq := by
        rw [waitq]
        exact List.mem_append_right _ (List.mem_singleton_self _)
      have queued : cur ∈ runq' ∨ cur ∈ hp' := by
        by_contra neither
        have removed : cur ∈ sched.removed := by
          refine inv'.layout.removed_of_live ((moved.live cur other).mpr inQueue.1)
            (fun inside => neither (Or.inl inside)) (fun inside => neither (Or.inr inside)) fun inside => ?_
          exact inQueue.2.1 (moved.waiting cur other inside)
        rcases moved.removed cur other removed with before | stopped
        · exact inQueue.2.2 before
        · rw [setStatus_self] at stopped
          cases stopped
      exact .reserved inv' goto_pc_self (fun next => by simp) waits queued (Or.inl status)
    · have place : s.tryStep o idleThreadTid (some cur) =
          s.goto idleThreadTid s.sched (.trying (s.sched.elems cur).next) := by
        unfold Sys.tryStep
        simp only [if_neg isRunnable]
      rw [place] at inv' ⊢
      obtain ⟨rfl, rfl⟩ := lists_unique inv.layout inv'.layout (fun _ => rfl) rfl rfl
      obtain rfl : holder' = some idleThreadTid := inv'.holder_eq (by rw [goto_pc_self]; rfl)
      refine .looking inv' goto_pc_self fun t isNext => ?_
      exact inv.layout.linked.queue.forward.next_mem (found cur rfl) isNext

theorem checkWakeup_waitq {sched : Sched} (order : List Tid) :
    (sched.checkWakeup o order).waitq = sched.waitq := by
  have each : ∀ (sched : Sched) t, (sched.bringBack o t).waitq = sched.waitq := by
    intro sched t
    unfold Sched.bringBack
    split
    · rfl
    · dsimp only
      split <;> split <;> rfl
  unfold Sched.checkWakeup
  split
  · have all : ∀ sched : Sched, (order.foldl (bringBack o) sched).waitq = sched.waitq := by
      induction order with
      | nil => exact fun _ => rfl
      | cons t order ih => exact fun sched => (ih (sched.bringBack o t)).trans (each sched t)
    exact all sched
  · rfl

/-- A step of the idle thread inside `next`, before it posts. -/
theorem own_leave (rr : o.RoundRobin) {phase : Phase} {after : After}
    (inv : Inv o ⟨False, False⟩ s runq hp (some idleThreadTid))
    (here : s.pc idleThreadTid = .leaving phase false .default after) {action : Action}
    (safe : QueueSafe o s (idleThreadTid, action)) (notPost : action ≠ .post)
    (awake : (s.sched.elems idleThreadTid).status ≠ .interProStop)
    (looks : FromHpRunq o s.sched idleThreadTid .default ∨ runq ≠ [])
    (stepped : s.step o (idleThreadTid, action) = some s') :
    ∃ runq' hp', Inv o ⟨False, False⟩ s' runq' hp' (some idleThreadTid) ∧
      ((∃ phase, s'.pc idleThreadTid = .leaving phase false .default after ∧
          (∀ next, phase ≠ .posting next) ∧ s'.sched.waitq = s.sched.waitq ∧
          (∀ t, (s'.sched.elems t).status = (s.sched.elems t).status) ∧
          (∀ t ∈ runq, (s.sched.elems t).status ≠ .interProStop → t ∈ runq') ∧
          (∀ t ∈ hp, (s.sched.elems t).status ≠ .interProStop → t ∈ hp') ∧
          (action = .nextRunnable → phase = .picking ∧ s'.sched.queued + 1 = s.sched.queued)) ∨
        ∃ next, s'.pc idleThreadTid = .leaving (.posting next) false .default after ∧
          (next ∈ runq ∨ next ∈ hp) ∧ s'.sched.tm = s.sched.tm ∧ ∀ t ∈ runq, t ∈ runq') := by
  obtain ⟨runq', hp', holder', inv'⟩ := inv.step rr ⟨safe, False.elim, False.elim⟩ stepped
  have moves := Sys.threadStep_of_step stepped
  simp only [Sys.threadStep, here] at moves
  cases action with
  | checkWakeup order =>
    obtain ⟨enabled, rfl⟩ := Sys.leaveStep_checkWakeup rr.nonneg moves
    obtain rfl : holder' = some idleThreadTid := inv'.holder_eq (by rw [goto_pc_self]; rfl)
    obtain ⟨⟨more, layout⟩, quiet, -⟩ := inv.layout.checkWakeup rr.nonneg safe enabled.2
    obtain ⟨rfl, rfl⟩ := lists_unique layout inv'.layout (fun _ => rfl) rfl rfl
    refine ⟨_, _, inv', Or.inl ⟨.picking, goto_pc_self, fun next => by simp, checkWakeup_waitq order,
      quiet.status, fun t member _ => List.mem_append_left _ member, fun t member _ => member,
      fun isRound => by cases isRound⟩⟩
  | nextRunnable =>
    obtain ⟨picking, rfl⟩ := Sys.leaveStep_nextRunnable moves
    have stale : NoStale o s.sched idleThreadTid .default := by
      have noStale : NoStale o s.sched idleThreadTid (s.pc idleThreadTid).strategy := safe
      rw [here] at noStale
      exact noStale
    have round := round_nextRunnable rr.nonneg inv.layout stale looks awake s.idleDone false
    have picked := inv.layout.nextRunnable rr.nonneg s.idleDone idleThreadTid false .default stale
    revert inv' picked round
    generalize s.sched.nextRunnable o s.idleDone idleThreadTid false .default = pick
    intro inv' round picked
    cases round with
    | dropped layout quiet waitq runqKept hpKept shorter =>
      obtain ⟨rfl, rfl⟩ := lists_unique layout inv'.layout (fun _ => rfl) rfl rfl
      obtain rfl : holder' = some idleThreadTid := inv'.holder_eq (by
        show ((s.goto _ _ _).pc idleThreadTid).inTurn = true
        rw [goto_pc_self]
        rfl)
      refine ⟨_, _, inv', Or.inl ⟨.picking, goto_pc_self, fun next => by simp, waitq, quiet.status,
        runqKept, hpKept, fun _ => ⟨rfl, ?_⟩⟩⟩
      rw [inv'.layout.queued_eq, inv.layout.queued_eq]
      exact shorter
    | granted queued kept =>
      obtain rfl : holder' = some idleThreadTid := inv'.holder_eq (by
        show ((s.goto _ _ _).pc idleThreadTid).inTurn = true
        rw [goto_pc_self]
        rfl)
      exact ⟨_, _, inv', Or.inr ⟨_, goto_pc_self, queued, picked.2.2.2.1, kept _ _ inv'.layout⟩⟩
  | post => exact absurd rfl notPost
  | _ => cases moves

/-- A waiting thread looks at `hp_runq` first. -/
theorem looks_of_waiting (inv : Inv o ⟨False, False⟩ s runq hp (some idleThreadTid))
    (waits : idleThreadTid ∈ s.sched.waitq) {cur : Tid} (queued : cur ∈ runq ∨ cur ∈ hp) :
    FromHpRunq o s.sched idleThreadTid .default ∨ runq ≠ [] := by
  rcases queued with inRunq | inHp
  · exact Or.inr (List.ne_nil_of_mem inRunq)
  · refine Or.inl ⟨?_, ?_, ?_, nofun⟩
    · cases policy : o.highPriority with
      | true => rfl
      | false =>
        rw [inv.layout.off policy] at inHp
        cases inHp
    · exact Bool.eq_false_iff.mpr fun empty =>
        List.ne_nil_of_mem inHp (inv.layout.hpRunq_empty_iff.mp empty)
    · have unflagged : (s.sched.waits idleThreadTid).wokenUpFromHpQueueFlag = false := by
        by_contra flagged
        have isHead := inv.layout.flag idleThreadTid (by simpa using flagged)
        exact (inv.layout.hp_live (List.mem_of_head? isHead)).2.1 waits
      rw [unflagged]
      rfl

/-- What the idle thread does after `next`. -/
def after : Pc → Option After
  | .leaving _ _ _ after => some after
  | _ => none

theorem idle_awake (inv : Inv o ⟨False, False⟩ s runq hp (some idleThreadTid))
    (place : after (s.pc idleThreadTid) = some .idling ∨ after (s.pc idleThreadTid) = some .away) :
    (s.sched.elems idleThreadTid).status ≠ .interProStop := by
  have fits := inv.status idleThreadTid
  cases here : s.pc idleThreadTid with
  | leaving phase atThreadEnd strategy next =>
    rw [here] at fits place
    have either : (s.sched.elems idleThreadTid).status = .runnable ∨
        (s.sched.elems idleThreadTid).status = .runningReg := by
      rcases place with isAfter | isAfter
      · cases isAfter
        exact fits
      · cases isAfter
        exact fits
    rcases either with isRunnable | isReg
    · rw [isRunnable]
      nofun
    · rw [isReg]
      nofun
  | _ =>
    rw [here] at place
    rcases place with isAfter | isAfter <;> cases isAfter

/-- **The idle thread's own steps.** -/
theorem own (rr : o.RoundRobin) (handing : Handing o s) {action : Action}
    (safe : QueueSafe o s (idleThreadTid, action)) (notPost : action ≠ .post)
    (stepped : s.step o (idleThreadTid, action) = some s') : Handing o s' := by
  cases handing with
  | looking inv here found =>
    have moves := Sys.threadStep_of_step stepped
    simp only [Sys.threadStep, here] at moves
    cases action with
    | tryElem =>
      cases moves
      exact look rr inv here found
    | _ => cases moves
  | @reserved _ _ inv _ here early waits cur queued granted =>
    have running := granted.awake
    have awake := idle_awake inv (by rw [here]; exact Or.inl rfl)
    obtain ⟨runq', hp', inv', goesOn | ⟨next, place, queuedNext, tm, -⟩⟩ := own_leave rr inv here safe
      notPost awake (looks_of_waiting inv waits queued) stepped
    · obtain ⟨phase, place, early', waitq, status, runqKept, hpKept, -⟩ := goesOn
      refine .reserved inv' place early' (waitq ▸ waits)
        (queued.imp (fun inside => runqKept _ inside running) fun inside => hpKept _ inside running) ?_
      rw [status]
      exact granted
    · have live : s.sched.Live next ∧ next ∉ s.sched.waitq := by
        rcases queuedNext with inside | inside
        · exact ⟨(inv.layout.runq_live inside).1, (inv.layout.runq_live inside).2.1⟩
        · exact ⟨(inv.layout.hp_live inside).1, (inv.layout.hp_live inside).2.1⟩
      refine .chosen inv' place (fun same => live.2 (same ▸ waits)) ?_
      unfold Live
      rw [tm]
      exact live.1
  | chosen inv here other live =>
    have moves := Sys.threadStep_of_step stepped
    simp only [Sys.threadStep, here] at moves
    cases action with
    | post => exact absurd rfl notPost
    | _ => simp [Sys.leaveStep] at moves
  | stayed inv here queued =>
    have awake := idle_awake inv (by rw [here]; exact Or.inr rfl)
    obtain ⟨runq', hp', inv', goesOn | ⟨next, place, -, -, kept⟩⟩ := own_leave rr inv here safe notPost
      awake (Or.inr (List.ne_nil_of_mem queued)) stepped
    · obtain ⟨phase, place, -, -, -, runqKept, -, -⟩ := goesOn
      exact .stayed inv' place (runqKept _ queued awake)
    · exact .stayed inv' place (kept _ queued)

/-- The element after the head is queued. -/
theorem second_mem {sched : Sched} (layout : Layout o [] sched runq hp) {t : Tid}
    (isSecond : sched.second = some t) : t ∈ runq := by
  unfold Sched.second at isSecond
  obtain ⟨head, isHead, isNext⟩ := Option.bind_eq_some_iff.mp isSecond
  rw [layout.linked.queue.head_eq] at isHead
  exact layout.linked.queue.forward.next_mem (List.mem_of_head? isHead) isNext

/-- **`idle_cond_wait` leads there.** -/
theorem start (rr : o.RoundRobin) (inv : Inv o ⟨False, False⟩ s runq hp holder) {order : List Tid}
    (safe : QueueSafe o s (idleThreadTid, .idleCondWait order))
    (stepped : s.step o (idleThreadTid, .idleCondWait order) = some s') : Handing o s' := by
  obtain ⟨runq', hp', holder', inv'⟩ := inv.step rr ⟨safe, False.elim, False.elim⟩ stepped
  have moves := Sys.threadStep_of_step stepped
  have here : s.pc idleThreadTid = .turn false := by
    cases place : s.pc idleThreadTid with
    | turn blocking =>
      cases blocking with
      | false => rfl
      | true => simp [Sys.threadStep, place] at moves
    | _ => simp [Sys.threadStep, place, Sys.awayStep, Sys.leaveStep] at moves
  have inTurn : (s.pc idleThreadTid).inTurn = true := by rw [here]; rfl
  have notNext : (s.pc idleThreadTid).inNext = false := by rw [here]; rfl
  obtain ⟨front, -, -⟩ := inv.turn_front inTurn notNext
  simp only [Sys.threadStep, here] at moves
  obtain ⟨enabled, taken⟩ := Sys.turnStep_idleCondWait moves
  obtain ⟨⟨runq₁, hp₁, longer, longer', layout₁, quiet⟩, -⟩ :=
    inv.layout.incTurnCount rr.nonneg safe enabled.1
  obtain ⟨-, rfl⟩ | ⟨-, puts⟩ := taken
  · obtain ⟨rfl, rfl⟩ := lists_unique layout₁ inv'.layout (fun _ => rfl) rfl rfl
    obtain rfl : holder' = some idleThreadTid := inv'.holder_eq (by rw [goto_pc_self]; rfl)
    exact .looking inv' goto_pc_self fun t => second_mem inv'.layout
  · obtain ⟨sched, runq₂, hp₂, result, layout₂, -, -, -, -, -, queued⟩ :=
      layout₁.putTurn rr.nonneg (front.mono longer longer' (quiet.flag _)) .default
    rw [result] at puts
    subst puts
    obtain ⟨rfl, rfl⟩ := lists_unique layout₂ inv'.layout (fun _ => rfl) rfl rfl
    obtain rfl : holder' = some idleThreadTid := inv'.holder_eq (by
      show ((s.goto _ _ _).pc idleThreadTid).inTurn = true
      rw [goto_pc_self]
      rfl)
    exact .stayed inv' goto_pc_self (queued rfl)

/-- **It stays there until the idle thread posts.** -/
theorem run (rr : o.RoundRobin) {more : List (Tid × Action)} (handing : Handing o s)
    (safe : Along (Sys.step o) (QueueSafe o) s more) (unposted : (idleThreadTid, .post) ∉ more)
    (ran : exec (Sys.step o) s more = some s') : Handing o s' := by
  induction more generalizing s with
  | nil =>
    cases ran
    exact handing
  | cons label more ih =>
    obtain ⟨next, stepped, rest⟩ := exec_cons ran
    obtain ⟨tid, action⟩ := label
    refine ih ?_ (safe.2 next stepped) (fun inside => unposted (List.mem_cons_of_mem _ inside)) rest
    by_cases own : tid = idleThreadTid
    · subst own
      refine handing.own rr safe.1 (fun isPost => ?_) stepped
      rw [isPost] at unposted
      exact unposted List.mem_cons_self
    · exact handing.aside rr own safe.1 stepped

/-- The others neither add nor remove elements. -/
theorem aside_queued (rr : o.RoundRobin) (handing : Handing o s) {action : Action}
    (different : tid ≠ idleThreadTid) (stepped : s.step o (tid, action) = some s') :
    s'.sched.queued = s.sched.queued ∧ s'.pc idleThreadTid = s.pc idleThreadTid := by
  obtain ⟨_, _, _, inv⟩ := handing.holds
  obtain ⟨aside, pcs⟩ := step_aside rr inv handing.inTurn different stepped
  obtain ⟨-, sameRunq, sameHp, -, -⟩ := aside.frame
  refine ⟨?_, pcs _ different.symm⟩
  unfold Sched.queued
  rw [sameRunq, sameHp]

/-- **The rounds that are left**: at most one for each queued element. -/
def roundsLeft (s : Sys) : Nat :=
  if s.pc idleThreadTid = .leaving .picking false .default .idling then s.sched.queued else 0

/-- **A round chooses the next thread, or leaves one round less.** -/
theorem round (rr : o.RoundRobin) (handing : Handing o s)
    (here : s.pc idleThreadTid = .leaving .picking false .default .idling)
    (safe : QueueSafe o s (idleThreadTid, .nextRunnable))
    (stepped : s.step o (idleThreadTid, .nextRunnable) = some s') :
    roundsLeft s' + 1 ≤ roundsLeft s ∧
      ((∃ next, s'.pc idleThreadTid = .leaving (.posting next) false .default .idling) ∨
        s'.pc idleThreadTid = .leaving .picking false .default .idling) := by
  have place : roundsLeft s = s.sched.queued := if_pos here
  cases handing with
  | @reserved _ _ inv _ _ early waits cur queued granted =>
    have awake := idle_awake inv (by rw [here]; exact Or.inl rfl)
    obtain ⟨runq', hp', inv', goesOn | ⟨next, chosen, queuedNext, -, -⟩⟩ := own_leave rr inv here safe
      (by nofun) awake (looks_of_waiting inv waits queued) stepped
    · obtain ⟨phase, isPhase, -, -, -, -, -, shorter⟩ := goesOn
      obtain ⟨rfl, less⟩ := shorter rfl
      have place' : roundsLeft s' = s'.sched.queued := if_pos isPhase
      exact ⟨by omega, Or.inr isPhase⟩
    · have place' : roundsLeft s' = 0 := if_neg (by rw [chosen]; nofun)
      have some_queued : 0 < s.sched.queued := by
        rw [inv.layout.queued_eq]
        rcases queuedNext with inside | inside
        · exact Nat.add_pos_left (List.length_pos_of_mem inside) _
        · exact Nat.add_pos_right _ (List.length_pos_of_mem inside)
      exact ⟨by omega, Or.inl ⟨next, chosen⟩⟩
  | looking _ there _ => rw [here] at there; cases there
  | chosen _ there _ _ => rw [here] at there; cases there
  | stayed _ there _ => rw [here] at there; cases there

/-- Once `check_wakeup` is behind it, the idle thread goes through no more rounds than that. -/
theorem rounds_le (rr : o.RoundRobin) {more : List (Tid × Action)} (handing : Handing o s)
    (late : (∃ next, s.pc idleThreadTid = .leaving (.posting next) false .default .idling) ∨
      s.pc idleThreadTid = .leaving .picking false .default .idling)
    (safe : Along (Sys.step o) (QueueSafe o) s more) (unposted : (idleThreadTid, .post) ∉ more)
    (ran : exec (Sys.step o) s more = some s') :
    more.count (idleThreadTid, .nextRunnable) ≤ roundsLeft s := by
  induction more generalizing s with
  | nil => exact Nat.zero_le _
  | cons label more ih =>
    obtain ⟨next, stepped, rest⟩ := exec_cons ran
    obtain ⟨tid, action⟩ := label
    have unposted' : (idleThreadTid, .post) ∉ more := fun inside =>
      unposted (List.mem_cons_of_mem _ inside)
    by_cases own : tid = idleThreadTid
    · subst own
      have notPost : action ≠ .post := fun isPost => by
        rw [isPost] at unposted
        exact unposted List.mem_cons_self
      have moves := Sys.threadStep_of_step stepped
      rcases late with ⟨chosen, here⟩ | here
      · simp only [Sys.threadStep, here] at moves
        cases action with
        | post => exact absurd rfl notPost
        | _ => simp [Sys.leaveStep] at moves
      · have isRound : action = .nextRunnable := by
          simp only [Sys.threadStep, here] at moves
          cases action with
          | nextRunnable => rfl
          | _ => simp [Sys.leaveStep] at moves
        subst isRound
        obtain ⟨fewer, late'⟩ := handing.round rr here safe.1 stepped
        have left := ih (handing.own rr safe.1 notPost stepped) late' (safe.2 next stepped) unposted' rest
        rw [List.count_cons_self]
        omega
    · obtain ⟨sameQueued, samePc⟩ := handing.aside_queued rr own stepped
      have sameLeft : roundsLeft next = roundsLeft s := by
        unfold roundsLeft
        rw [sameQueued, samePc]
      have left := ih (handing.aside rr own safe.1 stepped) (samePc.symm ▸ late) (safe.2 next stepped)
        unposted' rest
      rw [List.count_cons_of_ne fun same => own (congrArg Prod.fst same)]
      omega

end Handing

/-! ### Whole runs -/

/-- A round of `nextRunnable` returns another thread that exists, or drops a stopped one. -/
def HandsOver (sched : Sched) : Pick → Prop
  | .grant _ next => next ≠ idleThreadTid ∧ sched.Live next
  | .again sched' strategy => strategy = .default ∧ sched'.queued + 1 = sched.queued
  | _ => False

/-- **What the idle thread does with the answer of `tryPutTurn`.** -/
inductive HandsOff (o : Options) (s : Sys) : Prop
  /-- There is no answer yet. -/
  | looking {cur : Option Tid} (here : s.pc idleThreadTid = .trying cur)
  /-- It returned true: `nextRunnable` does not come to the branch for empty queues, and hands over. -/
  | found {phase : Phase} (here : s.pc idleThreadTid = .leaving phase false .default .idling)
      (queued : FromHpRunq o s.sched idleThreadTid .default ∨ s.sched.runq.empty = false)
      (round : NoStale o s.sched idleThreadTid .default →
        HandsOver s.sched (s.sched.nextRunnable o s.idleDone idleThreadTid false .default))
  /-- The same, when it has returned. -/
  | chosen {next : Tid} (here : s.pc idleThreadTid = .leaving (.posting next) false .default .idling)
      (other : next ≠ idleThreadTid) (live : s.sched.Live next)
  /-- It returned false, or was not asked: the idle thread is in `runq`. -/
  | stayed {phase : Phase} (here : s.pc idleThreadTid = .leaving phase false .default .away)
      {runq : List Tid} (walk : Forward (fun t => (s.sched.elems t).next) s.sched.runq.head runq)
      (queued : idleThreadTid ∈ runq)

theorem Handing.handsOff (rr : o.RoundRobin) (handing : Handing o s) : HandsOff o s := by
  cases handing with
  | looking inv here found => exact .looking here
  | reserved inv here early waits queued granted =>
    have looks := looks_of_waiting inv waits queued
    refine .found here (looks.imp_right fun nonempty => ?_) fun noStale => ?_
    · exact Bool.eq_false_iff.mpr fun empty => nonempty (inv.layout.runq_empty_iff.mp empty)
    · have awake := idle_awake inv (by rw [here]; exact Or.inl rfl)
      have round := round_nextRunnable rr.nonneg inv.layout noStale looks awake s.idleDone false
      revert round
      generalize s.sched.nextRunnable o s.idleDone idleThreadTid false .default = pick
      intro round
      cases round with
      | dropped layout quiet waitq runqKept hpKept shorter =>
        refine ⟨rfl, ?_⟩
        rw [layout.queued_eq, inv.layout.queued_eq]
        exact shorter
      | @granted _ next queued' kept =>
        have live : s.sched.Live next ∧ next ∉ s.sched.waitq := by
          rcases queued' with inside | inside
          · exact ⟨(inv.layout.runq_live inside).1, (inv.layout.runq_live inside).2.1⟩
          · exact ⟨(inv.layout.hp_live inside).1, (inv.layout.hp_live inside).2.1⟩
        exact ⟨fun same => live.2 (same ▸ waits), live.1⟩
  | chosen inv here other live => exact .chosen here other live
  | stayed inv here queued => exact .stayed here inv.layout.linked.queue.forward queued

/-- **The idle thread hands the turn over or stays in `runq`.** The loop of `nextRunnable` ends: it has at
most as many rounds as there are queued elements. -/
theorem idle_hands_off (o : Options) (rr : o.RoundRobin) (mainTh : PthreadT)
    (labels more : List (Tid × Action)) (order : List Tid)
    (safe : Along (Sys.step o) (QueueSafe o) (Sys.init o mainTh)
      (labels ++ (idleThreadTid, .idleCondWait order) :: more))
    (unposted : (idleThreadTid, .post) ∉ more) (s : Sys)
    (ran : exec (Sys.step o) (Sys.init o mainTh)
      (labels ++ (idleThreadTid, .idleCondWait order) :: more) = some s) :
    HandsOff o s ∧
      ∀ rest s', Along (Sys.step o) (QueueSafe o) s rest → (idleThreadTid, .post) ∉ rest →
        exec (Sys.step o) s rest = some s' →
        s.pc idleThreadTid = .leaving .picking false .default .idling →
        rest.count (idleThreadTid, .nextRunnable) ≤ s.sched.queued := by
  obtain ⟨before, ranBefore, ranAfter⟩ := exec_append ran
  obtain ⟨safeBefore, safeAfter⟩ := safe.append ranBefore
  obtain ⟨started, stepped, ranMore⟩ := exec_cons ranAfter
  obtain ⟨runq, hp, holder, inv⟩ : Inv.Holds o ⟨False, False⟩ before :=
    Inv.run rr (fun s label _ fine => ⟨fine, False.elim, False.elim⟩) safeBefore ranBefore
  have handing : Handing o s :=
    (Handing.start rr inv safeAfter.1 stepped).run rr (safeAfter.2 started stepped) unposted ranMore
  refine ⟨handing.handsOff rr, fun rest s' safeRest unposted' ranRest here => ?_⟩
  have bound := handing.rounds_le rr (Or.inr here) safeRest unposted' ranRest
  rwa [show Handing.roundsLeft s = s.sched.queued from if_pos here] at bound

/-- The main thread makes the idle thread and thread `2`, and gives the turn away. -/
def makeTwo : List (Tid × Action) :=
  enterTurn 0 ++ [(0, .create 101 7), (0, .create 102 7)] ++ giveTurn 0 .default 1 ++ enterTurn 1

/-- `tryPutTurn` lets thread `2` run, which then starts an external call. -/
theorem idle_hands_off_makeTwo :
    ∃ s, exec (Sys.step {}) (Sys.init {} 100) (makeTwo ++ (idleThreadTid, .idleCondWait []) ::
        [(1, .tryElem), (2, .interProStart), (1, .checkWakeup [])]) = some s ∧
      s.pc 1 = .leaving .picking false .default .idling ∧ HandsOff {} s := by
  have found : (exec (Sys.step {}) (Sys.init {} 100) (makeTwo ++ (idleThreadTid, .idleCondWait []) ::
      [(1, .tryElem), (2, .interProStart), (1, .checkWakeup [])])).any
      (fun s => decide (s.pc 1 = .leaving .picking false .default .idling)) = true := by decide +kernel
  obtain ⟨s, ran, here⟩ := exec_of_any found
  exact ⟨s, ran, of_decide_eq_true here,
    (idle_hands_off {} (by decide) 100 makeTwo _ [] (by decide +kernel) (by decide) s ran).1⟩

/-! ### A reservation that is lost -/

/-- The main thread is popped from `hp_runq` while it is in an external call, and keeps its flag. So it pops
thread `4` instead of itself and is in `runq` twice. Then it sleeps, is woken into `hp_runq`, creates thread
`5` and starts a call. -/
def twiceQueued : List (Tid × Action) :=
  enterTurn 0 ++ [(0, .create 101 7), (0, .create 102 7), (0, .create 103 7)] ++
  giveTurn 0 .default 1 ++ enterTurn 1 ++ giveTurn 1 .default 1 ++ enterTurn 2 ++ giveTurn 2 .default 1 ++
  enterTurn 3 ++ giveTurn 3 .default 1 ++ [(3, .interProStart)] ++
  enterTurn 0 ++ [(0, .wait (.cond 5) forever [])] ++ passTurn 0 1 ++
  enterTurn 1 ++ giveTurn 1 .default 1 ++
  enterTurn 2 ++ [(2, .signal (.cond 5) false)] ++ giveTurn 2 .default 1 ++
  [(0, .gotTurn)] ++ giveTurn 0 .currentThread 1 ++
  enterTurn 0 ++ [(0, .create 104 7)] ++ giveTurn 0 .create 2 ++ [(0, .interProStart)] ++
  enterTurn 1 ++ giveTurn 1 .default 2 ++ enterTurn 4 ++ giveTurn 4 .default 1 ++
  [(0, .interProEnd), (0, .wakeup)] ++
  enterTurn 2 ++ [(2, .incTurnCount [0]), (2, .putTurn .default)] ++ passTurn 2 1 ++
  enterTurn 1 ++ giveTurn 1 .default 1 ++
  enterTurn 4 ++ [(4, .wait (.cond 6) forever [])] ++ passTurn 4 1 ++
  enterTurn 0 ++ [(0, .signal (.cond 6) false)] ++ giveTurn 0 .default 1 ++
  enterTurn 0 ++ [(0, .sleep 1 [])] ++ passTurn 0 1 ++
  enterTurn 2 ++ [(2, .wait (.cond 7) forever [])] ++ passTurn 2 1 ++
  [(0, .gotTurn)] ++ giveTurn 0 .currentThread 1 ++
  enterTurn 0 ++ [(0, .create 105 7)] ++ giveTurn 0 .create 1 ++ [(0, .interProStart)] ++ enterTurn 1

/-- The idle thread finds thread `5`, while thread `3` comes back from a call and starts another one. -/
def fiveReserved : List (Tid × Action) :=
  [(1, .tryElem), (1, .tryElem), (3, .interProEnd), (3, .wakeup), (1, .checkWakeup [3]),
    (3, .interProStart), (1, .nextRunnable), (1, .nextRunnable), (1, .nextRunnable)]

/-- The options of that run. -/
def twoQueuesIdle : Options := { enforceTurnType := 0, schedulingPolicy := 4 }

/-- **`tryPutTurn` returned true, and `nextRunnable` follows a null pointer.** -/
theorem reservation_is_lost : twoQueuesIdle.RoundRobin ∧
    ∃ s s', exec (Sys.step twoQueuesIdle) (Sys.init twoQueuesIdle 100)
        (twiceQueued ++ (idleThreadTid, .idleCondWait []) :: fiveReserved) = some s ∧
      s.pc 1 = .leaving .picking false .default .idling ∧ (s.sched.elems 5).status = .runningReg ∧
      s.step twoQueuesIdle (1, .nextRunnable) = some s' ∧ s'.outcome = some .crashed := by
  have found : (exec (Sys.step twoQueuesIdle) (Sys.init twoQueuesIdle 100)
      (twiceQueued ++ (idleThreadTid, .idleCondWait []) :: fiveReserved)).any (fun s =>
        decide (s.pc 1 = .leaving .picking false .default .idling) &&
          decide ((s.sched.elems 5).status = .runningReg) &&
          (s.step twoQueuesIdle (1, .nextRunnable)).any fun s' =>
            decide (s'.outcome = some .crashed)) = true := by decide +kernel
  obtain ⟨s, ran, here⟩ := exec_of_any found
  simp only [Bool.and_eq_true, decide_eq_true_eq, Option.any_eq_true] at here
  obtain ⟨⟨place, running⟩, s', stepped, crashed⟩ := here
  exact ⟨by decide, s, s', ran, place, running, stepped, crashed⟩

end MinSmt
