/-
**The bound on the threads outside** (`checkNonDetBound`, `enforce_non_det_clock_bound`).

A thread that stays in an external call or in a non-det region for more than `non_det_clock_bound` turns
is to be put back into `runq`, so that the deterministic part waits for it.

* `Absences` — a process, and for each thread the clock at which it left its run queue for the call or
  region that it is still inside.
* `Bounded` — when `putTurn` has chosen the next thread, no thread is outside past the bound.
* `Timely` — what has to be so when `putTurn` looks: `checkNonDetBound` puts one thread back, the first
  of the set, and goes by the clock of its last removal; a round that meets a thread inside its call
  drops it again.
* `Caught` — inside `next`: before `check_wakeup` every thread past the bound is in the side set, and
  after it there is none.
* **`non_det_bound_kept`** — a run whose steps are timely stays bounded.
* `two_threads_past_the_bound` — a run of the main thread and two workers that does not.
-/

import MinSmt.Scheduler.NonDetThreads
import MinSmt.Scheduler.NextThread

namespace MinSmt

open MinSmt.Library Sched Sys

/-! ### Threads that are outside -/

/-- The call of `next` is the end of a `block`. -/
def After.absent : After → Bool
  | .inCall => true
  | .nonDet => true
  | _ => false

/-- The thread is inside an external call or a non-det region: `wakeup` has not been called yet. -/
def Pc.absent : Pc → Bool
  | .nonDet => true
  | .inCall => true
  | .callDone => true
  | .leaving _ _ _ after => after.absent
  | .exited after => after.absent
  | _ => false

/-- The call of `next` is the end of a `putTurn`. -/
def After.puts : After → Bool
  | .away => true
  | .dead => true
  | _ => false

/-- The thread is inside the `next` of a `putTurn`. -/
def Pc.puts : Pc → Bool
  | .leaving _ _ _ after => after.puts
  | _ => false

/-- A process, and the clock at which each thread first left its run queue for the call that it is
inside. -/
structure Absences where
  sys : Sys
  left : Tid → Option Nat

namespace Absences

/-- The note of a thread after a step: a thread that has just been taken off a run queue is given the
clock with which it was put into the set, when it has none from before. -/
def noted (r : Absences) (s' : Sys) (t : Tid) : Option Nat :=
  if (s'.pc t).absent then
    if t ∉ r.sys.sched.removed ∧ t ∈ s'.sched.removed then (r.left t).or (some (s'.sched.nonDetThds.clock t))
    else r.left t
  else none

/-- One step. -/
def step (o : Options) (r : Absences) (label : Tid × Action) : Option Absences :=
  (r.sys.step o label).map fun s' => { sys := s', left := r.noted s' }

/-- Nobody is outside at first. -/
def init (o : Options) (mainTh : PthreadT) : Absences := { sys := Sys.init o mainTh, left := fun _ => none }

end Absences

/-- **When `putTurn` has chosen the next thread, no thread is outside past the bound.** -/
def Bounded (o : Options) (r : Absences) : Prop :=
  ∀ t, (r.sys.pc t).puts = true → (r.sys.pc t).grantee.isSome = true →
    ∀ u ∈ r.sys.sched.removed, ∀ c ∈ r.left u, r.sys.sched.turnCount ≤ c + o.nonDetClockBound

/-! ### What `putTurn` looks at -/

/-- The thread has been away for more turns than the bound. -/
def Overdue (o : Options) (left : Tid → Option Nat) (s : Sched) (t : Tid) : Prop :=
  ∃ c ∈ left t, c + o.nonDetClockBound < s.turnCount

instance (o : Options) (left : Tid → Option Nat) (s : Sched) (t : Tid) : Decidable (Overdue o left s t) :=
  inferInstanceAs (Decidable (∃ c ∈ left t, c + o.nonDetClockBound < s.turnCount))

/-- The scheduler when the step comes to `checkNonDetBound`. What `putTurn` does before changes neither
the set nor the side set nor the turn count. -/
def Sys.boundChecked (o : Options) (s : Sys) (label : Tid × Action) : Option Sched :=
  match s.pc label.1, label.2 with
  | .turn false, .putTurn _ => some s.sched
  | .turn false, .endThread order => some (s.sched.incTurnCount o order)
  | .turn false, .idleCondWait order =>
    -- with a second element in `runq` the idle thread tries it first
    if 2 ≤ (s.sched.incTurnCount o order).runq.numElements then none
    else some (s.sched.incTurnCount o order)
  | .trying none, .tryElem => some s.sched
  | _, _ => none

/-- The head that a round of `nextRunnable` looks at. -/
def Sched.roundHead (o : Options) (s : Sched) (self : Tid) (strategy : Strategy) : Option Tid :=
  if FromHpRunq o s self strategy then s.hpRunq.head
  else if s.runq.empty then (s.wakeUpIdleThread o).runq.head
  else s.runq.head

/-- **Every thread past the bound is the first of the set**, or is back already: the one thread that
`checkNonDetBound` puts back is the only one to put back. -/
def OneAtMost (o : Options) (left : Tid → Option Nat) (s : Sched) : Prop :=
  ∀ t ∈ s.removed, Overdue o left s t → t ∈ s.interProWakeupTids ∨
    (s.nonDetThds.tids.head? = some t ∧ s.nonDetThds.clock t + o.nonDetClockBound < s.turnCount)

instance (o : Options) (left : Tid → Option Nat) (s : Sched) : Decidable (OneAtMost o left s) :=
  inferInstanceAs (Decidable (∀ _ ∈ _, _ → _ ∨ _))

/-- **The condition on a step of `putTurn`**: one thread at most is to be put back, and no round meets a
thread that is past the bound and still inside its call. -/
def Timely (o : Options) (r : Absences) (label : Tid × Action) : Prop :=
  (∀ s ∈ r.sys.boundChecked o label, OneAtMost o r.left s) ∧
    (label.2 = .nextRunnable → (r.sys.pc label.1).puts = true →
      ∀ head ∈ r.sys.sched.roundHead o label.1 (r.sys.pc label.1).strategy,
        (r.sys.sched.elems head).status = .interProStop → ¬ Overdue o r.left r.sys.sched head)

instance (o : Options) (r : Absences) (label : Tid × Action) : Decidable (Timely o r label) :=
  inferInstanceAs (Decidable (_ ∧ (_ → _ → _)))

/-! ### What is left of the threads past the bound -/

/-- **Inside the `next` of a `putTurn`**: the threads past the bound are in the side set, and once that
has been emptied there are none. -/
def Caught (o : Options) (left : Tid → Option Nat) (s : Sched) : Phase → Prop
  | .checking => ∀ t ∈ s.removed, Overdue o left s t → t ∈ s.interProWakeupTids
  | _ => ∀ t ∈ s.removed, ¬ Overdue o left s t

section Scheduler

variable {o : Options} {s s' : Sched} {left left' : Tid → Option Nat} {runq hp : List Tid} {t tid : Tid}

theorem Overdue.congr (overdue : Overdue o left' s' t) (clocks : ∀ c ∈ left' t, c ∈ left t)
    (turnCount : s'.turnCount = s.turnCount) : Overdue o left s t := by
  obtain ⟨c, isLeft, past⟩ := overdue
  exact ⟨c, clocks c isLeft, turnCount ▸ past⟩

/-- Fewer threads are outside, no longer than before. -/
theorem Caught.mono {phase : Phase} (caught : Caught o left s phase) (removed : ∀ u ∈ s'.removed, u ∈ s.removed)
    (turnCount : s'.turnCount = s.turnCount)
    (wakeups : ∀ u ∈ s.interProWakeupTids, u ∈ s'.interProWakeupTids)
    (clocks : ∀ u ∈ s'.removed, ∀ c ∈ left' u, c ∈ left u) : Caught o left' s' phase := by
  cases phase with
  | checking =>
    intro u outside overdue
    exact wakeups u (caught u (removed u outside) (overdue.congr (clocks u outside) turnCount))
  | _ =>
    intro u outside overdue
    exact caught u (removed u outside) (overdue.congr (clocks u outside) turnCount)

theorem Caught.keep {phase : Phase} (caught : Caught o left s phase) (keeps : KeepsNonDet s s') :
    Caught o left s' phase :=
  caught.mono (fun _ outside => keeps.removed ▸ outside) keeps.turnCount
    (fun _ inside => keeps.wakeups.symm ▸ inside) fun _ _ _ isLeft => isLeft

theorem OneAtMost.keep (one : OneAtMost o left s) (keeps : KeepsNonDet s s') : OneAtMost o left s' := by
  unfold OneAtMost Overdue
  rw [keeps.set, keeps.removed, keeps.turnCount, keeps.wakeups]
  exact one

theorem Sched.Mirrors.removed_nodup (mirrors : Mirrors [] s) : s.removed.Nodup := by
  refine List.nodup_iff_count_le_one.mpr fun u => ?_
  have once := List.nodup_iff_count_le_one.mp mirrors.ordered.nodup u
  have count := mirrors.members u
  rw [List.count_nil] at count
  omega

section Holder

variable (rr : 0 ≤ o.enforceTurnType) (on : o.enforceNonDetClockBound = true)

include rr on

/-- **`checkNonDetBound` catches the one thread that there may be.** -/
theorem checkNonDetBound_caught (mirrors : Mirrors [] s) (one : OneAtMost o left s) :
    Caught o left (s.checkNonDetBound o) .checking ∧ (∀ u ∈ (s.checkNonDetBound o).removed, u ∈ s.removed) ∧
      (s.checkNonDetBound o).turnCount = s.turnCount := by
  unfold Sched.checkNonDetBound
  rw [on]
  cases isFirst : s.nonDetThds.tids with
  | nil =>
    refine ⟨fun u outside overdue => ?_, fun u outside => outside, rfl⟩
    rcases one u outside overdue with back | ⟨isHead, -⟩
    · exact back
    · rw [isFirst] at isHead
      cases isHead
  | cons first rest =>
    dsimp only
    rw [if_pos rr]
    split
    · -- the first thread is put back
      refine ⟨fun u outside overdue => ?_, fun u outside => List.mem_of_mem_erase outside, rfl⟩
      have member : u ≠ first ∧ u ∈ s.removed := mirrors.removed_nodup.mem_erase_iff.mp outside
      rcases one u member.2 overdue with back | ⟨isHead, -⟩
      · exact back
      · rw [isFirst, List.head?_cons] at isHead
        exact absurd (Option.some.inj isHead).symm member.1
    · -- nobody is put back: the first thread's own clock is within the bound
      rename_i within
      refine ⟨fun u outside overdue => ?_, fun u outside => outside, rfl⟩
      rcases one u outside overdue with back | ⟨isHead, past⟩
      · exact back
      · rw [isFirst, List.head?_cons] at isHead
        cases isHead
        exact absurd (Nat.lt_of_le_of_lt (Nat.mod_le _ _) past) within

theorem putTurn_caught {strategy : Strategy} (mirrors : Mirrors [] s) (one : OneAtMost o left s)
    (put : s.putTurn o tid strategy = some s') : Caught o left s' .checking ∧
      ∀ u ∈ s'.removed, u ∈ s.removed := by
  rw [Sched.putTurn, if_pos rr] at put
  obtain ⟨s₁, requeued, rfl⟩ := Option.map_eq_some_iff.mp put
  have status : KeepsNonDet s (s.setStatus tid .runnable) := ⟨rfl, rfl, rfl, rfl⟩
  have keeps := status.trans (KeepsNonDet.requeue requeued)
  obtain ⟨caught, removed, -⟩ := checkNonDetBound_caught rr on (mirrors.keep keeps) (one.keep keeps)
  exact ⟨caught, fun u outside => keeps.removed ▸ removed u outside⟩

theorem putTurnAtEnd_caught (mirrors : Mirrors [] s) (one : OneAtMost o left s)
    (put : s.putTurnAtEnd o tid = some s') : Caught o left s' .checking ∧
      ∀ u ∈ s'.removed, u ∈ s.removed := by
  have zombie : KeepsNonDet (s.signalJoiner o tid)
      { s.signalJoiner o tid with tm := (s.signalJoiner o tid).tm.zombify tid } := ⟨rfl, rfl, rfl, rfl⟩
  have keeps : KeepsNonDet s _ := KeepsNonDet.signalJoiner.trans zombie
  obtain ⟨caught, removed, -⟩ := checkNonDetBound_caught rr on (mirrors.keep keeps) (one.keep keeps)
  have popped := KeepsNonDet.nextPop put
  refine ⟨caught.keep popped, fun u outside => ?_⟩
  rw [popped.removed] at outside
  exact keeps.removed ▸ removed u outside

/-- `check_wakeup` removes nobody. -/
theorem checkWakeup_fewer (layout : Layout o [] s runq hp) (noLone : s.NoLone) {order : List Tid}
    (perm : order.Perm s.interProWakeupTids) : (∀ u ∈ (s.checkWakeup o order).removed, u ∈ s.removed) ∧
      (s.checkWakeup o order).turnCount = s.turnCount := by
  obtain ⟨s₁, returns, -, removed, turnCount⟩ := layout.checkWakeup_returns rr on noLone perm
  rw [removed, turnCount]
  clear removed turnCount
  induction returns with
  | refl => exact ⟨fun _ outside => outside, rfl⟩
  | tail _ last ih =>
    obtain ⟨u, -, rfl⟩ := last
    exact ⟨fun v outside => ih.1 v (List.mem_of_mem_erase outside), ih.2⟩

/-- Nor does `incTurnCount`. -/
theorem incTurnCount_fewer (layout : Layout o [] s runq hp) (noLone : (s.tickAndFire o).NoLone)
    {order : List Tid} (perm : order.Perm s.interProWakeupTids) :
    ∀ u ∈ (s.incTurnCount o order).removed, u ∈ s.removed := by
  obtain ⟨_, _, _, _, layout', _⟩ := layout.tickAndFire rr
  have fired : KeepsNonDet { s with toCore := s.toCore.tick } (s.tickAndFire o) := KeepsNonDet.fire
  rw [← @tickAndFire_wakeups o s] at perm
  intro u outside
  have before := (checkWakeup_fewer rr on layout' noLone perm).1 u outside
  rwa [fired.removed] at before

/-- **`check_wakeup` puts the rest back.** -/
theorem checkWakeup_caught (layout : Layout o [] s runq hp) (noLone : s.NoLone) {order : List Tid}
    (perm : order.Perm s.interProWakeupTids) (caught : Caught o left s .checking) :
    Caught o left (s.checkWakeup o order) .picking := by
  have back : ∀ u ∈ s.interProWakeupTids, u ∉ (s.checkWakeup o order).removed := by
    intro u inside
    unfold Sched.checkWakeup
    rw [if_pos (layout.wakeupFlag (List.ne_nil_of_mem inside))]
    obtain ⟨more, layout', -, queued⟩ := layout.foldl_bringBack rr fun v visited =>
      have side := perm.mem_iff.mp visited
      ⟨(layout.wakeups v side).1, (layout.wakeups v side).2, noLone.linked layout side⟩
    rcases queued u (perm.mem_iff.mpr inside) with inRunq | inHp
    · exact (layout'.runq_live inRunq).2.2
    · exact (layout'.hp_live inHp).2.2.1
  obtain ⟨fewer, turnCount⟩ := checkWakeup_fewer rr on layout noLone perm
  intro u outside overdue
  exact back u (caught u (fewer u outside) (overdue.congr (fun _ isLeft => isLeft) turnCount)) outside

end Holder

/-! ### The rounds of `nextRunnable` -/

/-- A round removes no thread but the head it met, when that is inside its call. -/
def PickDrops (s : Sched) (head : Option Tid) : Pick → Prop
  | .again s' _ => s'.turnCount = s.turnCount ∧ (s'.removed = s.removed ∨ ∃ u ∈ head,
      (s.elems u).status = .interProStop ∧ s'.removed = s.removed ++ [u] ∧
        s'.nonDetThds.clock u = s.turnCount)
  | .grant s' _ => s'.turnCount = s.turnCount ∧ s'.removed = s.removed
  | _ => True

section Rounds

variable (on : o.enforceNonDetClockBound = true)

include on

theorem noteRemoved_drops (keeps : KeepsNonDet s s') (tid : Tid) :
    (s'.noteRemoved o tid).turnCount = s.turnCount ∧ (s'.noteRemoved o tid).removed = s.removed ++ [tid] ∧
      (s'.noteRemoved o tid).nonDetThds.clock tid = s.turnCount := by
  rw [← keeps.turnCount, ← keeps.removed, Sched.noteRemoved, Sched.enterNonDet, if_pos on]
  exact ⟨rfl, rfl, Function.update_self _ _ _⟩

theorem pickRunq_drops (keeps : KeepsNonDet s s') (status : ∀ u, (s'.elems u).status = (s.elems u).status)
    (strategy : Strategy) : PickDrops s s'.runq.head (s'.pickRunq o strategy) := by
  unfold Sched.pickRunq
  split
  · trivial
  · rename_i head isHead
    split
    · rename_i stopped
      split
      · rename_i popped
        obtain ⟨turnCount, removed, clock⟩ :=
          noteRemoved_drops on (keeps.trans (KeepsNonDet.popRunq popped)) head
        exact ⟨turnCount, Or.inr ⟨head, isHead, status head ▸ stopped, removed, clock⟩⟩
      · trivial
    · have granted : KeepsNonDet s (s'.grantHead head) := keeps.trans KeepsNonDet.grantHead
      exact ⟨granted.turnCount, granted.removed⟩

theorem pickHp_drops (strategy : Strategy) : PickDrops s s.hpRunq.head (s.pickHp o strategy) := by
  unfold Sched.pickHp
  split
  · trivial
  · rename_i head isHead
    split
    · rename_i stopped
      split
      · rename_i popped
        obtain ⟨turnCount, removed, clock⟩ := noteRemoved_drops on (KeepsNonDet.popHpRunq popped) head
        exact ⟨turnCount, Or.inr ⟨head, isHead, stopped, removed, clock⟩⟩
      · trivial
    · have granted : KeepsNonDet s (s.grantHead head) := KeepsNonDet.grantHead
      exact ⟨granted.turnCount, granted.removed⟩

theorem pickRole_drops (self : Tid) (strategy : Strategy) :
    PickDrops s s.runq.head (s.pickRole o self strategy) := by
  unfold Sched.pickRole
  split
  · rename_i role head isRole isHead
    split
    · rename_i stopped
      split
      · rename_i popped
        obtain ⟨turnCount, removed, clock⟩ := noteRemoved_drops on (KeepsNonDet.popRunq popped) head
        exact ⟨turnCount, Or.inr ⟨head, isHead, stopped, removed, clock⟩⟩
      · trivial
    · split
      · trivial
      · split
        · have granted : KeepsNonDet s (s.grantHead head) := KeepsNonDet.grantHead
          exact ⟨granted.turnCount, granted.removed⟩
        · split
          · rename_i popped
            have keeps := KeepsNonDet.popRunq popped
            exact ⟨keeps.turnCount, Or.inl keeps.removed⟩
          · trivial
  · trivial

/-- **A round of `nextRunnable`.** -/
theorem nextRunnable_drops (rr : 0 ≤ o.enforceTurnType) (layout : Layout o [] s runq hp) (idleDone : Bool)
    (self : Tid) (atThreadEnd : Bool) (strategy : Strategy) : PickDrops s (s.roundHead o self strategy)
      (s.nextRunnable o idleDone self atThreadEnd strategy) := by
  unfold Sched.nextRunnable Sched.roundHead
  by_cases fromHp : FromHpRunq o s self strategy
  · rw [if_pos fromHp, if_pos fromHp]
    exact pickHp_drops on strategy
  · rw [if_neg fromHp, if_neg fromHp]
    by_cases isEmpty : s.runq.empty = true
    · rw [if_pos isEmpty, if_neg fun byRole => by simp [isEmpty] at byRole, if_pos isEmpty]
      split
      · trivial
      · split
        · trivial
        · split
          · trivial
          · obtain ⟨_, _, _, _, _, quiet⟩ := layout.wakeUpIdleThread rr
            exact pickRunq_drops on KeepsNonDet.wakeUpIdleThread quiet.status _
    · rw [if_neg isEmpty, if_neg isEmpty]
      split
      · exact pickRole_drops on self strategy
      · split
        · rename_i onlyIdle
          -- the idle thread wakes the threads that wait for a region, and is still the head
          have isHead := onlyIdle.2.2.2.2
          obtain ⟨still, status⟩ := foldl_makeRunnable_head (o := o) (s.toCore.signal .nonDetCV true).2
            (s := { s with toCore := (s.toCore.signal .nonDetCV true).1 }) isHead
          rw [isHead, ← still]
          exact pickRunq_drops on (KeepsNonDet.signal _ _) status _
        · exact pickRunq_drops on (KeepsNonDet.refl s) (fun _ => rfl) _

end Rounds

end Scheduler

/-! ### Threads without the turn -/

/-- The thread moves, and only adds to the side set. -/
structure StepsAside (tid : Tid) (s s' : Sys) : Prop where
  removed : s'.sched.removed = s.sched.removed
  turnCount : s'.sched.turnCount = s.sched.turnCount
  wakeups : ∀ u ∈ s.sched.interProWakeupTids, u ∈ s'.sched.interProWakeupTids
  outNext : (s'.pc tid).puts = false
  others : ∀ t, t ≠ tid → s'.pc t = s.pc t

namespace StepsAside

variable {o : Options} {s s' : Sys} {tid : Tid}

theorem goto {sched : Sched} {pc : Pc} (keeps : KeepsNonDet s.sched sched) (outNext : pc.puts = false) :
    StepsAside tid s (s.goto tid sched pc) :=
  ⟨keeps.removed, keeps.turnCount, fun _ inside => keeps.wakeups.symm ▸ inside, by rwa [goto_pc_self],
    fun _ other => goto_pc_of_ne other⟩

theorem wakeup : StepsAside tid s (s.goto tid (s.sched.wakeup tid) .woken) := by
  refine ⟨rfl, rfl, fun u inside => ?_, by rw [goto_pc_self]; rfl, fun _ other => goto_pc_of_ne other⟩
  show u ∈ if tid ∈ s.sched.interProWakeupTids then _ else _
  split
  · exact inside
  · exact List.mem_append_left _ inside

theorem awayStep {action : Action} (outNext : (s.pc tid).puts = false)
    (stepped : s.awayStep tid action = some s') : StepsAside tid s s' := by
  cases action with
  | getTurn =>
    cases stepped
    exact goto (KeepsNonDet.refl _) rfl
  | interProStart =>
    cases stepped
    refine goto ?_ (by split <;> rfl)
    unfold Sched.interProStart
    split <;> exact ⟨rfl, rfl, rfl, rfl⟩
  | progEnd =>
    simp only [Sys.awayStep] at stepped
    split at stepped
    · cases stepped
      exact ⟨rfl, rfl, fun _ inside => inside, outNext, fun _ _ => rfl⟩
    · cases stepped
  | _ => cases stepped

/-- **A step of a thread without the turn.** -/
theorem of_step {action : Action} (outTurn : (s.pc tid).inTurn = false)
    (stepped : s.threadStep o tid action = some s') : StepsAside tid s s' := by
  unfold Sys.threadStep at stepped
  split at stepped <;> rename_i here
  · exact awayStep (by rw [here]; rfl) stepped
  · exact awayStep (by rw [here]; rfl) stepped
  · cases stepped
    exact goto (KeepsNonDet.refl _) rfl
  · cases stepped
    exact wakeup
  · cases stepped
    exact goto ⟨rfl, rfl, rfl, rfl⟩ rfl
  · cases stepped
    exact wakeup
  · obtain ⟨sched, taken, rfl⟩ := Option.map_eq_some_iff.mp stepped
    exact goto (KeepsNonDet.take taken) rfl
  · rw [here] at outTurn
    cases outTurn
  · rw [here] at outTurn
    cases outTurn
  · rw [here] at outTurn
    cases outTurn
  · rw [here] at outTurn
    cases outTurn
  · cases stepped

end StepsAside

/-! ### Steps -/

namespace Absences

variable {r : Absences} {s' : Sys} {t : Tid} {c : Nat}

/-- A thread that was outside before keeps its note, or loses it. -/
theorem noted_old (outside : t ∈ r.sys.sched.removed) (isNoted : c ∈ r.noted s' t) : c ∈ r.left t := by
  unfold noted at isNoted
  split at isNoted
  · rwa [if_neg fun new => new.1 outside] at isNoted
  · cases isNoted

/-- A thread that is taken off a run queue is outside since then, or since before. -/
theorem noted_new (isNoted : c ∈ r.noted s' t) : c ∈ r.left t ∨ c = s'.sched.nonDetThds.clock t := by
  unfold noted at isNoted
  split at isNoted
  · split at isNoted
    · rcases Option.or_eq_some_iff.mp isNoted with before | ⟨-, now⟩
      · exact Or.inl before
      · exact Or.inr (Option.some.inj now).symm
    · exact Or.inl isNoted
  · cases isNoted

end Absences

/-- Where the thread is inside the `next` of a `putTurn`, the threads past the bound are caught. -/
def CaughtAt (o : Options) (left : Tid → Option Nat) (s : Sys) (tid : Tid) : Prop :=
  ∀ phase atThreadEnd strategy after, s.pc tid = .leaving phase atThreadEnd strategy after →
    after.puts = true → Caught o left s.sched phase

section Steps

variable {o : Options} {r : Absences} {s' : Sys} {runq hp : List Tid} {holder : Option Tid} {tid : Tid}

/-- A thread that is not inside the `next` of a `putTurn`. -/
theorem caughtAt_of_not_puts {left : Tid → Option Nat} {s : Sys} (elsewhere : (s.pc tid).puts = false) :
    CaughtAt o left s tid := by
  intro phase atThreadEnd strategy after here puts
  rw [here] at elsewhere
  exact absurd puts (by simpa [Pc.puts] using elsewhere)

/-- A thread that has entered another `next`. -/
theorem caughtAt_leave_other {left : Tid → Option Nat} {s : Sys} {sched : Option Sched} {atThreadEnd : Bool}
    {strategy : Strategy} {after : After} (outNext : (s.pc tid).puts = false) (other : after.puts = false) :
    CaughtAt o left (s.leave tid sched atThreadEnd strategy after) tid := by
  cases sched with
  | none => exact caughtAt_of_not_puts outNext
  | some sched =>
    refine caughtAt_of_not_puts ?_
    rw [show (s.leave tid (some sched) atThreadEnd strategy after).pc tid = _ from goto_pc_self]
    exact other

/-- A thread that has entered the `next` of a `putTurn`. -/
theorem caughtAt_leave {sched : Option Sched} {atThreadEnd : Bool} {strategy : Strategy} {after : After}
    (outNext : (r.sys.pc tid).puts = false)
    (caught : ∀ sched', sched = some sched' →
      Caught o r.left sched' .checking ∧ ∀ u ∈ sched'.removed, u ∈ r.sys.sched.removed) :
    CaughtAt o (r.noted (r.sys.leave tid sched atThreadEnd strategy after))
      (r.sys.leave tid sched atThreadEnd strategy after) tid := by
  cases sched with
  | none => exact caughtAt_of_not_puts outNext
  | some sched =>
    obtain ⟨caught, removed⟩ := caught sched rfl
    intro phase _ _ _ here puts
    rw [show (r.sys.leave tid (some sched) atThreadEnd strategy after).pc tid = _ from goto_pc_self] at here
    cases here
    exact caught.mono (fun _ outside => outside) rfl (fun _ inside => inside)
      fun u outside c isNoted => Absences.noted_old (removed u outside) isNoted

/-- A thread that stays inside `next`. -/
theorem caughtAt_goto {left : Tid → Option Nat} {s : Sys} {sched : Sched} {phase : Phase} {atThreadEnd : Bool}
    {strategy : Strategy} {after : After} (caught : after.puts = true → Caught o left sched phase) :
    CaughtAt o left (s.goto tid sched (.leaving phase atThreadEnd strategy after)) tid := by
  intro phase' _ _ _ here puts
  rw [goto_pc_self] at here
  cases here
  exact caught puts

theorem after_not_puts (after : After) : after.pc.puts = false := by
  cases after <;> rfl

/-- **A round of `nextRunnable`** leaves nobody outside past the bound. -/
theorem caughtAt_picked {atThreadEnd : Bool} {strategy : Strategy} {after : After} {pick : Pick}
    (here : r.sys.pc tid = .leaving .picking atThreadEnd strategy after)
    (stopped : after.puts = true → ∀ head ∈ r.sys.sched.roundHead o tid strategy,
      (r.sys.sched.elems head).status = .interProStop → ¬ Overdue o r.left r.sys.sched head)
    (before : CaughtAt o r.left r.sys tid)
    (drops : PickDrops r.sys.sched (r.sys.sched.roundHead o tid strategy) pick) :
    CaughtAt o (r.noted (r.sys.picked tid atThreadEnd strategy after pick))
      (r.sys.picked tid atThreadEnd strategy after pick) tid := by
  have same : CaughtAt o (r.noted r.sys) r.sys tid := fun phase _ _ _ isLeaving puts =>
    (before _ _ _ _ isLeaving puts).mono (fun _ outside => outside) rfl (fun _ inside => inside)
      fun _ outside _ isNoted => Absences.noted_old outside isNoted
  cases pick with
  | again sched strategy' =>
    obtain ⟨turnCount, removed⟩ := drops
    refine caughtAt_goto fun puts => ?_
    have caught := before _ _ _ _ here puts
    rcases removed with none | ⟨head, isHead, status, added, clock⟩
    · intro u outside overdue
      rw [none] at outside
      exact caught u outside (overdue.congr (fun c isNoted => Absences.noted_old outside isNoted) turnCount)
    · intro u outside overdue
      rw [added] at outside
      rcases List.mem_append.mp outside with old | isNew
      · exact caught u old (overdue.congr (fun c isNoted => Absences.noted_old old isNoted) turnCount)
      · rw [List.mem_singleton.mp isNew] at overdue
        obtain ⟨c, isNoted, past⟩ := overdue
        rw [turnCount] at past
        rcases Absences.noted_new isNoted with since | now
        · exact stopped puts head isHead status ⟨c, since, past⟩
        · rw [now] at past
          have isClock : ((r.sys.picked tid atThreadEnd strategy after
            (.again sched strategy')).sched.nonDetThds.clock head) = r.sys.sched.turnCount := clock
          omega
  | grant sched next =>
    obtain ⟨turnCount, removed⟩ := drops
    refine caughtAt_goto fun puts u outside overdue => ?_
    rw [removed] at outside
    exact before _ _ _ _ here puts u outside
      (overdue.congr (fun c isNoted => Absences.noted_old outside isNoted) turnCount)
  | invalid =>
    refine caughtAt_of_not_puts ?_
    show ((r.sys.goto tid r.sys.sched after.pc).pc tid).puts = false
    rw [goto_pc_self]
    exact after_not_puts after
  | threadExit =>
    refine caughtAt_of_not_puts ?_
    show ((r.sys.goto tid r.sys.sched (.exited after)).pc tid).puts = false
    rw [goto_pc_self]
    rfl
  | exit | crash => exact same

variable (rr : o.RoundRobin) (on : o.enforceNonDetClockBound = true)
  (inv : Inv o ⟨False, False⟩ r.sys runq hp holder) (mirrors : Mirrors [] r.sys.sched)

include rr on inv mirrors

theorem caughtAt_turnStep {action : Action} (here : r.sys.pc tid = .turn false)
    (safe : QueueSafe o r.sys (tid, action)) (below : CountsBelow r.sys (tid, action))
    (timely : Timely o r (tid, action)) (stepped : r.sys.turnStep o tid action = some s') :
    CaughtAt o (r.noted s') s' tid := by
  have nonneg := rr.nonneg
  have outNext : (r.sys.pc tid).puts = false := by rw [here]; rfl
  have checks := timely.1
  unfold Sys.boundChecked at checks
  rw [here] at checks
  cases action with
  | putTurn strategy =>
    cases stepped
    exact caughtAt_leave outNext fun sched' put => putTurn_caught nonneg on mirrors (checks _ rfl) put
  | endThread order =>
    obtain ⟨perm, rfl⟩ := Sys.turnStep_endThread stepped
    have counted := mirrors.incTurnCount nonneg on inv.layout safe perm (below rfl)
    have fewer := incTurnCount_fewer nonneg on inv.layout safe perm
    refine caughtAt_leave outNext fun sched' put => ?_
    obtain ⟨caught, removed⟩ := putTurnAtEnd_caught nonneg on counted (checks _ rfl) put
    exact ⟨caught, fun u outside => fewer u (removed u outside)⟩
  | idleCondWait order =>
    obtain ⟨perm, taken⟩ := Sys.turnStep_idleCondWait stepped
    have counted := mirrors.incTurnCount nonneg on inv.layout safe perm.1 (below rfl)
    have fewer := incTurnCount_fewer nonneg on inv.layout safe perm.1
    obtain ⟨-, rfl⟩ | ⟨alone, rfl⟩ := taken
    · exact caughtAt_of_not_puts (by rw [goto_pc_self]; rfl)
    · refine caughtAt_leave outNext fun sched' put => ?_
      obtain ⟨caught, removed⟩ := putTurn_caught nonneg on counted (checks _ (if_neg alone)) put
      exact ⟨caught, fun u outside => fewer u (removed u outside)⟩
  | create th threadFunc =>
    cases stepped
    refine caughtAt_of_not_puts ?_
    by_cases new : tid = r.sys.sched.tm.nthread
    · rw [new, goto_pc_self]
      rfl
    · rw [goto_pc_of_ne new]
      exact outNext
  | signal chan all | changeRole th roleFunc | nonDetWait more =>
    cases stepped
    exact caughtAt_of_not_puts outNext
  | incTurnCount order =>
    obtain ⟨-, rfl⟩ := Sys.turnStep_incTurnCount stepped
    exact caughtAt_of_not_puts outNext
  | wait chan timeout order | sleep turns order | block order =>
    simp only [Sys.turnStep] at stepped
    split at stepped
    · cases stepped
      exact caughtAt_leave_other outNext rfl
    · cases stepped
  | _ => cases stepped

omit inv in
theorem caughtAt_tryStep {cur : Option Tid} (here : r.sys.pc tid = .trying cur)
    (timely : Timely o r (tid, .tryElem)) :
    CaughtAt o (r.noted (r.sys.tryStep o tid cur)) (r.sys.tryStep o tid cur) tid := by
  have outNext : (r.sys.pc tid).puts = false := by rw [here]; rfl
  have checks := timely.1
  unfold Sys.boundChecked at checks
  rw [here] at checks
  cases cur with
  | none =>
    exact caughtAt_leave outNext fun sched' put => putTurn_caught rr.nonneg on mirrors (checks _ rfl) put
  | some cur =>
    simp only [Sys.tryStep]
    split
    · exact caughtAt_leave_other outNext rfl
    · exact caughtAt_of_not_puts (by rw [goto_pc_self]; rfl)

omit mirrors in
theorem caughtAt_leaveStep {phase : Phase} {atThreadEnd : Bool} {strategy : Strategy} {after : After}
    {action : Action} (here : r.sys.pc tid = .leaving phase atThreadEnd strategy after)
    (safe : QueueSafe o r.sys (tid, action)) (timely : Timely o r (tid, action))
    (before : CaughtAt o r.left r.sys tid)
    (stepped : r.sys.leaveStep o tid phase atThreadEnd strategy after action = some s') :
    CaughtAt o (r.noted s') s' tid := by
  have nonneg := rr.nonneg
  cases action with
  | checkWakeup order =>
    obtain ⟨checking, rfl⟩ := Sys.leaveStep_checkWakeup nonneg stepped
    obtain ⟨isChecking, perm⟩ := checking
    rw [isChecking] at here
    refine caughtAt_goto fun puts => ?_
    have caught := checkWakeup_caught nonneg on inv.layout safe perm (before _ _ _ _ here puts)
    have fewer := (checkWakeup_fewer nonneg on inv.layout safe perm).1
    exact caught.mono (fun _ outside => outside) rfl (fun _ inside => inside)
      fun u outside c isNoted => Absences.noted_old (fewer u outside) isNoted
  | nextRunnable =>
    obtain ⟨isPicking, rfl⟩ := Sys.leaveStep_nextRunnable stepped
    rw [isPicking] at here
    have drops := nextRunnable_drops on nonneg inv.layout r.sys.idleDone tid atThreadEnd strategy
    have stopped := timely.2 rfl
    rw [here] at stopped
    revert drops
    generalize r.sys.sched.nextRunnable o r.sys.idleDone tid atThreadEnd strategy = pick
    intro drops
    exact caughtAt_picked here stopped before drops
  | post =>
    obtain ⟨next, rfl, rfl⟩ := Sys.leaveStep_post stepped
    refine caughtAt_of_not_puts ?_
    rw [goto_pc_self]
    exact after_not_puts after
  | _ => cases stepped

/-- **A step of the turn holder.** -/
theorem caughtAt_turn {action : Action} (inTurn : (r.sys.pc tid).inTurn = true)
    (safe : QueueSafe o r.sys (tid, action)) (below : CountsBelow r.sys (tid, action))
    (timely : Timely o r (tid, action)) (before : CaughtAt o r.left r.sys tid)
    (stepped : r.sys.threadStep o tid action = some s') : CaughtAt o (r.noted s') s' tid := by
  have elsewhere : ∀ {pc : Pc}, r.sys.pc tid = pc → pc.inTurn = false → CaughtAt o (r.noted s') s' tid := by
    intro pc here outTurn
    rw [here, outTurn] at inTurn
    cases inTurn
  unfold Sys.threadStep at stepped
  split at stepped
  iterate 7 exact elsewhere ‹_› rfl
  · rename_i here
    exact caughtAt_turnStep rr on inv mirrors here safe below timely stepped
  · rename_i here
    split at stepped
    · cases stepped
      exact caughtAt_leave_other (by rw [here]; rfl) rfl
    · cases stepped
  · rename_i here
    cases stepped
    exact caughtAt_tryStep rr on mirrors here timely
  · rename_i here
    exact caughtAt_leaveStep rr on inv here safe timely before stepped
  · cases stepped

end Steps

/-! ### Runs -/

/-- Only inside `next` is a thread inside the `next` of a `putTurn`. -/
theorem Pc.inTurn_of_puts {pc : Pc} (puts : pc.puts = true) : pc.inTurn = true := by
  cases pc with
  | leaving phase atThreadEnd strategy after => rfl
  | _ => cases puts

/-- **The invariant of a timely run.** -/
structure Watched (o : Options) (r : Absences) : Prop where
  holds : Inv.Holds o ⟨False, False⟩ r.sys
  exclusive : ∃ holder, Exclusive o r.sys holder
  mirrors : Mirrors [] r.sys.sched
  caught : ∀ t, CaughtAt o r.left r.sys t

namespace Watched

variable {o : Options} {r r' : Absences} {label : Tid × Action}

theorem initial (rr : o.RoundRobin) (mainTh : PthreadT) : Watched o (Absences.init o mainTh) := by
  refine ⟨⟨_, _, _, Inv.initial rr mainTh⟩, ⟨_, Exclusive.initial (Or.inl rr) mainTh⟩, init_mirrors o mainTh,
    fun t => caughtAt_of_not_puts ?_⟩
  show (Function.update (fun _ => Pc.dead) mainThreadTid Pc.away t).puts = false
  by_cases main : t = mainThreadTid
  · rw [main, Function.update_self]
    rfl
  · rw [Function.update_of_ne main]
    rfl

/-- **The threads past the bound stay caught.** -/
theorem caught_step (rr : o.RoundRobin) (on : o.enforceNonDetClockBound = true) (watched : Watched o r)
    (safe : QueueSafe o r.sys label) (below : CountsBelow r.sys label) (timely : Timely o r label) {s' : Sys}
    (stepped : r.sys.step o label = some s') (t : Tid) : CaughtAt o (r.noted s') s' t := by
  obtain ⟨⟨runq, hp, holder, inv⟩, ⟨owner, exclusive⟩, mirrors, caught⟩ := watched
  obtain ⟨tid, action⟩ := label
  have moves := Moves.of_step stepped
  replace stepped := Sys.threadStep_of_step stepped
  cases inTurn : (r.sys.pc tid).inTurn with
  | false =>
    have aside := StepsAside.of_step inTurn stepped
    by_cases same : t = tid
    · rw [same]
      exact caughtAt_of_not_puts aside.outNext
    · intro phase atThreadEnd strategy after here puts
      rw [aside.others t same] at here
      exact (caught t _ _ _ _ here puts).mono (fun _ outside => aside.removed ▸ outside) aside.turnCount
        aside.wakeups fun u outside c isNoted => Absences.noted_old (aside.removed ▸ outside) isNoted
  | true =>
    by_cases same : t = tid
    · rw [same]
      exact caughtAt_turn rr on inv mirrors inTurn safe below timely (caught tid) stepped
    · -- nobody else has the turn
      refine caughtAt_of_not_puts (Bool.eq_false_iff.mpr fun puts => same ?_)
      have alsoInTurn := Pc.inTurn_of_puts puts
      rw [moves.others exclusive same] at alsoInTurn
      exact exclusive.unique alsoInTurn inTurn

theorem step (rr : o.RoundRobin) (on : o.enforceNonDetClockBound = true) (watched : Watched o r)
    (safe : QueueSafe o r.sys label) (below : CountsBelow r.sys label) (timely : Timely o r label)
    (stepped : r.step o label = some r') : Watched o r' := by
  obtain ⟨s', moved, rfl⟩ := Option.map_eq_some_iff.mp stepped
  have caught := watched.caught_step rr on safe below timely moved
  obtain ⟨⟨runq, hp, holder, inv⟩, ⟨owner, exclusive⟩, mirrors, -⟩ := watched
  exact ⟨inv.step rr ⟨safe, False.elim, False.elim⟩ moved, exclusive.step (Or.inl rr) (Moves.of_step moved),
    mirrors_step rr on inv safe below mirrors moved, caught⟩

end Watched

/-- The notes do not get in the way of the process. -/
theorem Absences.exec_sys (o : Options) (r : Absences) (labels : List (Tid × Action)) :
    (exec (Absences.step o) r labels).map Absences.sys = exec (Sys.step o) r.sys labels := by
  induction labels generalizing r with
  | nil => rfl
  | cons label labels ih =>
    show (((r.sys.step o label).map fun s' => ({ sys := s', left := r.noted s' } : Absences)).bind _).map _ =
      (r.sys.step o label).bind _
    cases r.sys.step o label with
    | none => rfl
    | some s' => exact ih ⟨s', r.noted s'⟩

/-- **A timely run stays bounded.** In every run whose steps are timely, as long as the turn count stays
below `2^32`: when a `putTurn` has chosen the next thread, every thread that is still inside an external
call or a non-det region and off its run queue left it no more than `non_det_clock_bound` turns ago. -/
theorem non_det_bound_kept (o : Options) (rr : o.RoundRobin) (on : o.enforceNonDetClockBound = true)
    (mainTh : PthreadT) (labels : List (Tid × Action))
    (below : Along (Absences.step o) (fun r label => CountsBelow r.sys label) (Absences.init o mainTh) labels)
    (timely : Along (Absences.step o) (fun r label => QueueSafe o r.sys label ∧ Timely o r label)
      (Absences.init o mainTh) labels) (r : Absences)
    (ran : exec (Absences.step o) (Absences.init o mainTh) labels = some r) : Bounded o r := by
  have watched : Watched o r := exec_invariant (Watched o)
    (fun r label r' watched good stepped => watched.step rr on good.2.1 good.1 good.2.2 stepped)
    (Watched.initial rr mainTh) (below.and timely) ran
  intro t puts chosen u outside c isLeft
  by_contra late
  have overdue : Overdue o r.left r.sys.sched u := ⟨c, isLeft, Nat.lt_of_not_le late⟩
  cases here : r.sys.pc t with
  | leaving phase atThreadEnd strategy after =>
    rw [here] at puts chosen
    have caught := watched.caught t phase atThreadEnd strategy after here puts
    cases phase with
    | posting next => exact caught u outside overdue
    | _ => cases chosen
  | _ =>
    rw [here] at puts
    cases puts

/-- The main thread starts the idle thread and one worker, which enters a non-det region, and goes on
alone. -/
def callInTime : List (Tid × Action) :=
  [(0, .getTurn), (0, .gotTurn), (0, .create 101 7), (0, .create 102 7), (0, .putTurn .default),
    (0, .checkWakeup []), (0, .nextRunnable), (0, .post),
    (1, .getTurn), (1, .gotTurn), (1, .idleCondWait []), (1, .tryElem), (1, .checkWakeup []),
    (1, .nextRunnable), (1, .post),
    (2, .getTurn), (2, .gotTurn), (2, .block []), (2, .checkWakeup []), (2, .nextRunnable), (2, .post),
    (0, .getTurn), (0, .gotTurn), (0, .incTurnCount []), (0, .putTurn .default), (0, .checkWakeup []),
    (0, .nextRunnable)]

/-- The default options but for the bound. -/
def boundOf (turns : Nat) : Options := { enforceNonDetClockBound := true, nonDetClockBound := turns }

/-- With one worker outside the run is timely, and the worker is outside when the next thread is chosen. -/
theorem non_det_bound_kept_call : ∃ r,
    exec (Absences.step (boundOf 2)) (Absences.init (boundOf 2) 100) callInTime = some r ∧
      r.sys.pc 0 = .leaving (.posting 0) false .default .away ∧ r.sys.sched.removed = [2] ∧
      Bounded (boundOf 2) r := by
  have found : (exec (Absences.step (boundOf 2)) (Absences.init (boundOf 2) 100) callInTime).any
      (fun r => decide (r.sys.pc 0 = .leaving (.posting 0) false .default .away ∧ r.sys.sched.removed = [2])) =
        true := by decide +kernel
  obtain ⟨r, ran, here⟩ := exec_of_any found
  obtain ⟨posting, removed⟩ := of_decide_eq_true here
  exact ⟨r, ran, posting, removed, non_det_bound_kept (boundOf 2) (by decide) rfl 100 callInTime
    (by decide +kernel) (by decide +kernel) r ran⟩

/-- Two workers enter non-det regions one after the other; then the main thread makes a call. -/
def twoOutside : List (Tid × Action) :=
  [(0, .getTurn), (0, .gotTurn), (0, .create 101 7), (0, .create 102 7), (0, .create 103 7),
    (0, .putTurn .default), (0, .checkWakeup []), (0, .nextRunnable), (0, .post),
    (1, .getTurn), (1, .gotTurn), (1, .idleCondWait []), (1, .tryElem), (1, .checkWakeup []),
    (1, .nextRunnable), (1, .post),
    (2, .getTurn), (2, .gotTurn), (2, .block []), (2, .checkWakeup []), (2, .nextRunnable), (2, .post),
    (3, .getTurn), (3, .gotTurn), (3, .block []), (3, .checkWakeup []), (3, .nextRunnable), (3, .post),
    (0, .getTurn), (0, .gotTurn), (0, .incTurnCount []), (0, .putTurn .default), (0, .checkWakeup []),
    (0, .nextRunnable)]

/-- **Only one thread is put back.** Both workers are past the bound at turn `4`, and the second one stays
outside. -/
theorem two_threads_past_the_bound : ∃ r,
    exec (Absences.step (boundOf 1)) (Absences.init (boundOf 1) 100) twoOutside = some r ∧
      r.sys.pc 3 = .nonDet ∧ r.sys.sched.runq.isIn r.sys.sched.elems 3 = false ∧ r.left 3 = some 2 ∧
      r.sys.sched.nonDetThds.clock 3 = 2 ∧ r.sys.sched.turnCount = 4 ∧ ¬ Bounded (boundOf 1) r := by
  have found : (exec (Absences.step (boundOf 1)) (Absences.init (boundOf 1) 100) twoOutside).any
      (fun r => decide (r.sys.pc 0 = .leaving (.posting 0) false .default .away ∧ r.sys.sched.removed = [3] ∧
        r.sys.pc 3 = .nonDet ∧ r.sys.sched.runq.isIn r.sys.sched.elems 3 = false ∧ r.left 3 = some 2 ∧
        r.sys.sched.nonDetThds.clock 3 = 2 ∧ r.sys.sched.turnCount = 4)) = true := by decide +kernel
  obtain ⟨r, ran, here⟩ := exec_of_any found
  obtain ⟨posting, removed, region, notIn, left, clock, turnCount⟩ := of_decide_eq_true here
  refine ⟨r, ran, region, notIn, left, clock, turnCount, fun bounded => ?_⟩
  have within := bounded 0 (by rw [posting]; rfl) (by rw [posting]; rfl) 3 (by simp [removed]) 2 left
  rw [turnCount] at within
  exact absurd within (by decide)

/-- A thread inside an external call is dropped again at its next round, with a new clock. -/
example : (exec (Absences.step (boundOf 1)) (Absences.init (boundOf 1) 100)
    [(0, .getTurn), (0, .gotTurn), (0, .create 101 7), (0, .create 102 7), (0, .putTurn .default),
      (0, .checkWakeup []), (0, .nextRunnable), (0, .post),
      (1, .getTurn), (1, .gotTurn), (1, .idleCondWait []), (1, .tryElem), (1, .checkWakeup []),
      (1, .nextRunnable), (1, .post), (2, .interProStart),
      (2, .gotTurn), (2, .block []), (2, .checkWakeup []), (2, .nextRunnable), (2, .post),
      (0, .getTurn), (0, .gotTurn), (0, .incTurnCount []), (0, .incTurnCount []), (0, .putTurn .default),
      (0, .checkWakeup []), (0, .nextRunnable), (0, .post),
      (0, .getTurn), (0, .gotTurn), (0, .incTurnCount []), (0, .putTurn .default), (0, .checkWakeup []),
      (0, .nextRunnable), (0, .nextRunnable)]).any
    (fun r => decide (r.sys.pc 0 = .leaving (.posting 0) false .default .away ∧ r.sys.pc 2 = .inCall ∧
      r.sys.sched.removed = [2] ∧ r.left 2 = some 1 ∧ r.sys.sched.nonDetThds.clock 2 = r.sys.sched.turnCount)) =
    true := by decide +kernel

end MinSmt
