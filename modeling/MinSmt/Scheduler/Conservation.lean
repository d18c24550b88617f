/-
**No thread is lost or duplicated, with external calls and non-det regions** (one run queue).

A thread in an external call leaves the run queue lazily: it marks its own element, the turn holder
drops the element when it comes to the head, and `check_wakeup` brings the thread back through the
side set. Without `hp_runq` (bit `0x04` of `scheduling_policy` clear) none of these steps meets the
situations of `QueueSafe`, so the invariant holds along every run.

* `queueSafe_of_off` — every step is safe when `hp_runq` is not in use.
* **`thread_conservation`** — each live tid is exactly once in `runq`, `waitq` or the set of removed
  threads; the slots are as `selfcheck` tests them; a thread back from `wakeup` is in `runq` or in
  the side set.
-/

import MinSmt.Scheduler.Steps

namespace MinSmt

open MinSmt.Library Sched Sys

variable {o : Options} {scope : Scope} {s : Sys} {runq hp : List Tid} {holder : Option Tid}

/-- A queue that is not in use has no element. -/
theorem noLone_of_off {late : List Tid} {sched : Sched} (layout : Layout o late sched runq hp)
    (off : o.highPriority = false) : sched.NoLone := by
  intro t _ isHead
  rw [layout.linked.second.head_eq, layout.off off] at isHead
  cases isHead

/-- Every step is safe when `hp_runq` is not in use. -/
theorem queueSafe_of_off (rr : o.RoundRobin) (inv : Inv o scope s runq hp holder)
    (off : o.highPriority = false) (label : Tid × Action) : QueueSafe o s label := by
  have ticked : (s.sched.tickAndFire o).NoLone := by
    obtain ⟨_, _, _, _, layout, _⟩ := inv.layout.tickAndFire rr.nonneg
    exact noLone_of_off layout off
  unfold QueueSafe
  split
  · exact noLone_of_off inv.layout off
  · obtain ⟨_, _, _, _, layout, _⟩ := (inv.layout.enterNonDet label.1).1.tickAndFire rr.nonneg
    exact noLone_of_off layout off
  · exact ticked
  · exact ticked
  · exact ticked
  · exact ticked
  · exact ticked
  · intro fromHp
    rw [fromHp.1] at off
    cases off
  · trivial

/-- The turn counter is far from its range. -/
def Counted (s : Sys) (_ : Tid × Action) : Prop := s.sched.turnCount + maxRel < unsignedMod

instance (s : Sys) (label : Tid × Action) : Decidable (Counted s label) :=
  inferInstanceAs (Decidable (_ < _))

/-- **Every live thread is in exactly one place.** -/
theorem thread_conservation (o : Options) (rr : o.RoundRobin) (off : o.highPriority = false)
    (mainTh : PthreadT) (labels : List (Tid × Action))
    (counted : Along (Sys.step o) Counted (Sys.init o mainTh) labels) (s : Sys)
    (ran : exec (Sys.step o) (Sys.init o mainTh) labels = some s) :
    ∃ runq, Forward (fun t => (s.sched.elems t).next) s.sched.runq.head runq ∧
      (∀ t, runq.count t + s.sched.waitq.count t + s.sched.removed.count t =
        if s.sched.Live t then 1 else 0) ∧
      (∀ t ∈ runq, (s.sched.waits t).chan = none ∧ (s.sched.waits t).timeout = forever) ∧
      (∀ t ∈ s.sched.waitq, (s.sched.waits t).chan ≠ none ∨
        (s.sched.waits t).timeout ≠ forever) ∧
      (∀ t, s.pc t = .woken → t ∈ runq ∨ t ∈ s.sched.interProWakeupTids) := by
  have holds : Inv.Holds o ⟨True, False⟩ s := by
    refine Inv.run rr (fun s label holds small => ?_) counted ran
    obtain ⟨_, _, _, inv⟩ := holds
    exact ⟨queueSafe_of_off rr inv off label, fun _ => small, False.elim⟩
  obtain ⟨runq, hp, holder, inv⟩ := holds
  have noHp : hp = [] := inv.layout.off off
  refine ⟨runq, inv.layout.linked.queue.forward, fun t => ?_, fun t inside => ?_,
    inv.slots trivial, fun t woken => ?_⟩
  · have once := inv.layout.once t
    rwa [noHp, List.count_nil, Nat.add_zero] at once
  · exact inv.layout.clean t (inv.layout.runq_live inside).2.1
  · rcases inv.back t woken with side | here
    · exact Or.inr side
    · refine Or.inl ?_
      have live : s.sched.Live t := (inv.live t).mpr (by rw [woken]; rfl)
      have notWaiting : t ∉ s.sched.waitq := fun inside => by
        have may := inv.waiting t inside
        rw [woken] at may
        cases may
      by_contra outside
      exact here (inv.layout.removed_of_live live outside (by rw [noHp]; exact List.not_mem_nil)
        notWaiting)

/-- The main thread, with another one in the queue, makes an external call and is let back. -/
def callAndReturn : List (Tid × Action) :=
  [(0, .getTurn), (0, .gotTurn), (0, .create 101 7), (0, .putTurn .default),
    (0, .checkWakeup []), (0, .nextRunnable), (0, .post), (0, .interProStart),
    (1, .getTurn), (1, .gotTurn), (1, .putTurn .default), (1, .checkWakeup []), (1, .nextRunnable),
    (0, .interProEnd), (0, .wakeup)]

theorem thread_conservation_callAndReturn :
    ∃ s, exec (Sys.step {}) (Sys.init {} 100) callAndReturn = some s ∧ s.pc 0 = .woken ∧
      s.sched.removed = [0] ∧ ∃ runq,
        Forward (fun t => (s.sched.elems t).next) s.sched.runq.head runq ∧
        ∀ t, runq.count t + s.sched.waitq.count t + s.sched.removed.count t =
          if s.sched.Live t then 1 else 0 := by
  have found : (exec (Sys.step {}) (Sys.init {} 100) callAndReturn).any
      (fun s => decide (s.pc 0 = .woken ∧ s.sched.removed = [0])) = true := by decide +kernel
  obtain ⟨s, ran, here⟩ := exec_of_any found
  obtain ⟨woken, removed⟩ := of_decide_eq_true here
  obtain ⟨runq, visits, once, _⟩ := thread_conservation {} (by decide) (by decide) 100 callAndReturn
    (by decide +kernel) s ran
  exact ⟨s, ran, woken, removed, runq, visits, once⟩

end MinSmt
