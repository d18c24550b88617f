/-
**`putTurn` with `CURRENT_THREAD`**: the caller stays at the front of its queue and posts itself.

`putTurn` leaves the caller's element where it is, so its flag names the queue whose front it is;
`nextRunnable` reads the strategy and the flag together, and looks at the front of that queue first.
Meanwhile `checkNonDetBound`, `check_wakeup` and the signal on `nonDetCV` append to the queues, and the
other threads write their own statuses and the side set.

* `nextRunnable_kept` — the first round returns the caller.
* `KeepsTurn` — where the caller is from `putTurn` to its own post; `KeepsTurn.step` — every step of the
  process in between keeps it.
* `KeepsTurn.proceeds` — the caller's next step, in each phase of `next`.
-/

import MinSmt.Scheduler.IdleThread

namespace MinSmt

open MinSmt.Library Sched Sys

variable {o : Options} {scope : Scope} {s s' : Sys} {runq hp : List Tid} {tid : Tid}

/-! ### The round -/

section Round

variable {sched sched' : Sched}

/-- Whatever the queues of a scheduler with these links are, these ones are in front of them. -/
def Extends (o : Options) (sched' : Sched) (runq hp : List Tid) : Prop :=
  ∀ runq' hp', Layout o [] sched' runq' hp' → runq <+: runq' ∧ hp <+: hp'

theorem Extends.of_layout {runq' hp' : List Tid} (layout : Layout o [] sched runq' hp') (longer : runq <+: runq')
    (longer' : hp <+: hp') (links : ∀ t, (sched'.elems t).next = (sched.elems t).next)
    (sameRunq : sched'.runq = sched.runq) (sameHp : sched'.hpRunq = sched.hpRunq) :
    Extends o sched' runq hp := by
  intro runq'' hp'' layout''
  obtain ⟨rfl, rfl⟩ := lists_unique layout layout'' links sameRunq sameHp
  exact ⟨longer, longer'⟩

theorem Extends.of_layout_append {more : List Tid} (layout : Layout o [] sched (runq ++ more) hp) :
    Extends o sched runq hp :=
  .of_layout layout (List.prefix_append _ _) (List.prefix_refl _) (fun _ => rfl) rfl rfl

/-- **The caller is returned by the first round.** -/
theorem nextRunnable_kept (rr : 0 ≤ o.enforceTurnType) (layout : Layout o [] sched runq hp)
    (front : sched.front tid = some tid) (awake : (sched.elems tid).status ≠ .interProStop) (idleDone : Bool) :
    ∃ sched', sched.nextRunnable o idleDone tid false .currentThread = .grant sched' tid ∧
      Extends o sched' runq hp := by
  have notRole : ¬ ((Strategy.currentThread = .currentRole) ∧ sched.runq.empty = false) := nofun
  unfold Sched.nextRunnable
  cases flag : (sched.waits tid).wokenUpFromHpQueueFlag with
  | true =>
    have isHead : sched.hpRunq.head = some tid := by
      rwa [Sched.front, flag, if_pos rfl] at front
    have notNil : hp ≠ [] := fun isNil => by
      rw [layout.linked.second.head_eq, isNil] at isHead
      cases isHead
    have fromHp : FromHpRunq o sched tid .currentThread := by
      refine ⟨?_, Bool.eq_false_iff.mpr fun empty => notNil (layout.hpRunq_empty_iff.mp empty), flag.symm, nofun⟩
      by_contra off
      exact notNil (layout.off (by simpa using off))
    obtain ⟨links, sameRunq, sameHp⟩ := grantHead_same sched tid
    refine ⟨(sched.grantHead tid).setFlag tid true, ?_, ?_⟩
    · rw [if_pos fromHp, Sched.pickHp, isHead]
      exact if_neg awake
    · exact .of_layout layout (List.prefix_refl _) (List.prefix_refl _) links sameRunq sameHp
  | false =>
    have isHead : sched.runq.head = some tid := by
      rwa [Sched.front, flag, if_neg Bool.false_ne_true] at front
    have notHp : ¬ FromHpRunq o sched tid .currentThread := fun fromHp => by
      have set := fromHp.2.2.1
      rw [flag] at set
      cases set
    have notEmpty : sched.runq.empty = false := Bool.eq_false_iff.mpr fun empty => by
      rw [layout.linked.queue.head_eq, layout.runq_empty_iff.mp empty] at isHead
      cases isHead
    rw [if_neg notHp, if_neg notRole, notEmpty, if_neg Bool.false_ne_true]
    split
    · obtain ⟨runq', hp', longer, longer', layout', quiet⟩ := layout.signal rr .nonDetCV true
      obtain ⟨links, sameRunq, sameHp⟩ := grantHead_same (sched.signal o .nonDetCV true) tid
      refine ⟨(sched.signal o .nonDetCV true).grantHead tid, ?_, ?_⟩
      · rw [Sched.pickRunq, layout'.linked.queue.head_eq,
          head_of_prefix longer (layout.linked.queue.head_eq ▸ isHead)]
        exact if_neg (by rwa [quiet.status tid])
      · exact .of_layout layout' longer longer' links sameRunq sameHp
    · obtain ⟨links, sameRunq, sameHp⟩ := grantHead_same sched tid
      refine ⟨sched.grantHead tid, ?_, ?_⟩
      · rw [Sched.pickRunq, isHead]
        exact if_neg awake
      · exact .of_layout layout (List.prefix_refl _) (List.prefix_refl _) links sameRunq sameHp

end Round

/-! ### From `putTurn` to the post -/

/-- **The caller of `putTurn` with `CURRENT_THREAD`, until its post**: nobody else is about to be
posted, and the threads that were in the queues are there in the same order, in front of any others. -/
structure KeepsTurn (o : Options) (s : Sys) (tid : Tid) (runq hp : List Tid) : Prop where
  here : ∃ phase, s.pc tid = .leaving phase false .currentThread .away ∧
    ∀ next, phase = .posting next → next = tid
  inv : Inv.Holds o ⟨False, False⟩ s
  queues : Extends o s.sched runq hp
  alive : s.outcome ≠ some .exited ∧ s.outcome ≠ some .crashed

/-- The queues hold these threads, in this order and in front of any others. -/
def Sched.Behind (sched : Sched) (runq hp : List Tid) : Prop :=
  ∃ runq' hp', Forward (fun t => (sched.elems t).next) sched.runq.head runq' ∧
    Forward (fun t => (sched.elems t).next) sched.hpRunq.head hp' ∧ runq <+: runq' ∧ hp <+: hp'

/-- What the caller does next, in each phase of `next`. -/
def Proceeds (o : Options) (s : Sys) (tid : Tid) (runq hp : List Tid) : Phase → Prop
  | .checking => ∀ order : List Tid, order.Perm s.sched.interProWakeupTids → ∃ s',
      s.step o (tid, .checkWakeup order) = some s' ∧ s'.pc tid = .leaving .picking false .currentThread .away
  | .picking => ∃ s', s.step o (tid, .nextRunnable) = some s' ∧
      s'.pc tid = .leaving (.posting tid) false .currentThread .away
  | .posting next => next = tid ∧ ∃ s', s.step o (tid, .post) = some s' ∧
      (∀ t, (s'.sched.waits t).posts o + (s'.pc t).inTurn.toNat = if t = tid then 1 else 0) ∧
      s'.sched.Behind runq hp

namespace KeepsTurn

theorem behind (keeps : KeepsTurn o s tid runq hp) : s.sched.Behind runq hp := by
  obtain ⟨runq', hp', _, inv⟩ := keeps.inv
  obtain ⟨longer, longer'⟩ := keeps.queues runq' hp' inv.layout
  exact ⟨runq', hp', inv.layout.linked.queue.forward, inv.layout.linked.second.forward, longer, longer'⟩

theorem inTurn (keeps : KeepsTurn o s tid runq hp) : (s.pc tid).inTurn = true := by
  obtain ⟨phase, here, -⟩ := keeps.here
  rw [here]
  rfl

/-- The caller is still at the front of the queue its flag names, and in no external call. -/
theorem ready (keeps : KeepsTurn o s tid runq hp) :
    s.sched.front tid = some tid ∧ (s.sched.elems tid).status ≠ .interProStop := by
  obtain ⟨phase, here, -⟩ := keeps.here
  obtain ⟨_, _, _, inv⟩ := keeps.inv
  refine ⟨inv.kept tid (by rw [here]; rfl), fun stopped => ?_⟩
  have fits := inv.status tid
  rw [here, stopped] at fits
  rcases fits with runnable | running
  · cases runnable
  · cases running

end KeepsTurn

/-- The process has not ended inside `nextRunnable`. -/
theorem alive_of_step {label : Tid × Action} (stepped : s.step o label = some s') :
    s.outcome ≠ some .exited ∧ s.outcome ≠ some .crashed := by
  refine ⟨fun ended => ?_, fun ended => ?_⟩
  · simp [Sys.step, ended] at stepped
  · simp [Sys.step, ended] at stepped

/-- Only a thread with the turn can end the process. -/
theorem outcome_of_aside {action : Action} (outTurn : (s.pc tid).inTurn = false)
    (stepped : s.step o (tid, action) = some s') : s'.outcome = s.outcome := by
  have moved := Sys.threadStep_of_step stepped
  have away : ∀ s', s.awayStep tid action = some s' → s'.outcome = s.outcome := by
    intro s' moved
    cases action with
    | getTurn =>
      cases moved
      rfl
    | interProStart =>
      cases moved
      rfl
    | progEnd =>
      simp only [Sys.awayStep] at moved
      split at moved
      · cases moved
        rfl
      · cases moved
    | _ => cases moved
  unfold Sys.threadStep at moved
  split at moved
  · exact away s' moved
  · exact away s' moved
  · cases moved
    rfl
  · cases moved
    rfl
  · cases moved
    rfl
  · cases moved
    rfl
  · obtain ⟨sched, -, rfl⟩ := Option.map_eq_some_iff.mp moved
    rfl
  all_goals first
    | cases moved; done
    | rename_i here; rw [here] at outTurn; cases outTurn

section Steps

variable (rr : o.RoundRobin)

include rr

/-- **`putTurn`.** -/
theorem KeepsTurn.start {holder : Option Tid} (inv : Inv o ⟨False, False⟩ s runq hp holder)
    (here : s.pc tid = .turn false) (stepped : s.step o (tid, .putTurn .currentThread) = some s') :
    KeepsTurn o s' tid runq hp := by
  have safe : QueueSafe o s (tid, .putTurn .currentThread) := trivial
  have alive := alive_of_step stepped
  have holds := inv.step rr ⟨safe, False.elim, False.elim⟩ stepped
  have turned := Sys.threadStep_of_step stepped
  obtain ⟨⟨more, layout⟩, -⟩ := (inv.layout.setStatus tid .runnable).checkNonDetBound rr.nonneg
  have put : s.sched.putTurn o tid .currentThread =
      some ((s.sched.setStatus tid .runnable).checkNonDetBound o) := by
    rw [Sched.putTurn, if_pos rr.nonneg]
    rfl
  simp only [Sys.threadStep, here, Sys.turnStep, put, Sys.leave, Option.some.injEq] at turned
  subst turned
  exact ⟨⟨.checking, goto_pc_self, by simp⟩, holds, .of_layout_append layout, alive⟩

namespace KeepsTurn

/-- **Every step of the process before the post.** -/
theorem step (keeps : KeepsTurn o s tid runq hp) {label : Tid × Action} (safe : QueueSafe o s label)
    (before : label ≠ (tid, .post)) (stepped : s.step o label = some s') : KeepsTurn o s' tid runq hp := by
  obtain ⟨front, awake⟩ := keeps.ready
  obtain ⟨runq₀, hp₀, holder, inv⟩ := keeps.inv
  obtain ⟨longer, longer'⟩ := keeps.queues runq₀ hp₀ inv.layout
  have holds := inv.step rr ⟨safe, False.elim, False.elim⟩ stepped
  obtain ⟨t, action⟩ := label
  by_cases own : t = tid
  · subst own
    obtain ⟨phase, here, itself⟩ := keeps.here
    have left := Sys.threadStep_of_step stepped
    simp only [Sys.threadStep, here] at left
    cases action with
    | checkWakeup order =>
      obtain ⟨allowed, rfl⟩ := Sys.leaveStep_checkWakeup rr.nonneg left
      obtain ⟨⟨more, layout⟩, -⟩ := inv.layout.checkWakeup rr.nonneg safe allowed.2
      refine ⟨⟨.picking, goto_pc_self, by simp⟩, holds, ?_, keeps.alive⟩
      exact .of_layout layout (longer.trans (List.prefix_append _ _)) longer' (fun _ => rfl) rfl rfl
    | nextRunnable =>
      obtain ⟨-, next⟩ := Sys.leaveStep_nextRunnable left
      obtain ⟨sched', grants, further⟩ := nextRunnable_kept rr.nonneg inv.layout front awake s.idleDone
      rw [grants] at next
      subst next
      refine ⟨⟨.posting t, goto_pc_self, fun next isNext => (Phase.posting.inj isNext).symm⟩, holds, ?_,
        keeps.alive⟩
      intro runq' hp' layout'
      obtain ⟨more, more'⟩ := further runq' hp' layout'
      exact ⟨longer.trans more, longer'.trans more'⟩
    | post => exact absurd rfl before
    | _ => cases left
  · obtain ⟨aside, pcs⟩ := step_aside rr inv keeps.inTurn own stepped
    obtain ⟨-, sameRunq, sameHp, -, links⟩ := aside.frame
    obtain ⟨phase, here, itself⟩ := keeps.here
    have outTurn : (s.pc t).inTurn = false := Bool.eq_false_iff.mpr fun turn =>
      own (Option.some.inj ((inv.holder_eq turn).symm.trans (inv.holder_eq keeps.inTurn)))
    refine ⟨⟨phase, (pcs tid (Ne.symm own)).trans here, itself⟩, holds, ?_, ?_⟩
    · exact .of_layout inv.layout longer longer' links sameRunq sameHp
    · rw [outcome_of_aside outTurn stepped]
      exact keeps.alive

theorem run {labels : List (Tid × Action)} (keeps : KeepsTurn o s tid runq hp)
    (safe : Along (Sys.step o) (QueueSafe o) s labels) (before : (tid, .post) ∉ labels)
    (ran : exec (Sys.step o) s labels = some s') : KeepsTurn o s' tid runq hp := by
  have notPost : Along (Sys.step o) (fun _ label => label ≠ (tid, .post)) s labels :=
    along_of_labels (fun label member => ne_of_mem_of_not_mem member before) s
  exact exec_invariant (fun s => KeepsTurn o s tid runq hp)
    (fun _ _ _ keeps good stepped => keeps.step rr good.1 good.2 stepped) keeps (safe.and notPost) ran

/-- **The caller goes on to post itself.** -/
theorem proceeds (keeps : KeepsTurn o s tid runq hp) :
    ∃ phase, s.pc tid = .leaving phase false .currentThread .away ∧ Proceeds o s tid runq hp phase := by
  obtain ⟨front, awake⟩ := keeps.ready
  obtain ⟨runq₀, hp₀, holder, inv⟩ := keeps.inv
  obtain ⟨phase, here, itself⟩ := keeps.here
  have stepEq : ∀ action, s.step o (tid, action) = s.leaveStep o tid phase false .currentThread .away action := by
    intro action
    obtain ⟨notExited, notCrashed⟩ := keeps.alive
    have sameStep : s.step o (tid, action) = s.threadStep o tid action := by
      unfold Sys.step
      split
      · exact absurd ‹_› notExited
      · exact absurd ‹_› notCrashed
      · rfl
    simp only [sameStep, Sys.threadStep, here]
  refine ⟨phase, here, ?_⟩
  cases phase with
  | checking =>
    intro order perm
    refine ⟨s.goto tid (s.sched.checkWakeup o order) (.leaving .picking false .currentThread .away), ?_,
      goto_pc_self⟩
    rw [stepEq, Sys.leaveStep, if_pos ⟨rfl, perm⟩]
    exact if_pos rr.nonneg
  | picking =>
    obtain ⟨sched', grants, -⟩ := nextRunnable_kept rr.nonneg inv.layout front awake s.idleDone
    refine ⟨s.goto tid sched' (.leaving (.posting tid) false .currentThread .away), ?_, goto_pc_self⟩
    rw [stepEq, Sys.leaveStep, if_pos rfl, grants]
    rfl
  | posting next =>
    obtain rfl := itself next rfl
    have stepped : s.step o (next, .post) = some (s.goto next (s.sched.post o next) .away) := stepEq .post
    refine ⟨rfl, _, stepped, fun t => ?_, ?_⟩
    · refine ((inv.post rr here).token t).trans ?_
      simp only [Option.some.injEq, eq_comm]
    · exact keeps.behind

end KeepsTurn

end Steps

end MinSmt
