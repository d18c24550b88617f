/-
**The two run queues**, when bit `0x04` of `scheduling_policy` is set.

`runq` and `hp_runq` share their elements, and external calls can break both: `check_wakeup` asks only
`runq.in()`, which answers no for an element that is alone in `hp_runq`; and `nextRunnable` pops from
`hp_runq` a thread in an external call without clearing its `woken_up_from_hp_queue_flag`, so that the
thread later pops the front of `hp_runq` in place of its own element.

* **`queues_stay_apart`** — along a run that avoids both situations (`QueueSafe`), the traversals of
  the two queues end and visit pairwise distinct tids.
* **`stale_flag_makes_a_cycle`** — a run after which the traversal of `runq` does not end.
-/

import MinSmt.Scheduler.Steps

namespace MinSmt

open MinSmt.Library Sched Sys

/-- **The run queues stay disjoint as long as no step meets the two situations.** -/
theorem queues_stay_apart (o : Options) (rr : o.RoundRobin) (mainTh : PthreadT)
    (labels : List (Tid × Action))
    (safe : Along (Sys.step o) (QueueSafe o) (Sys.init o mainTh) labels) (s : Sys)
    (ran : exec (Sys.step o) (Sys.init o mainTh) labels = some s) :
    ∃ runq hp, Forward (fun t => (s.sched.elems t).next) s.sched.runq.head runq ∧
      Forward (fun t => (s.sched.elems t).next) s.sched.hpRunq.head hp ∧ (runq ++ hp).Nodup := by
  have holds : Inv.Holds o ⟨False, False⟩ s :=
    Inv.run rr (fun s label _ fine => ⟨fine, False.elim, False.elim⟩) safe ran
  obtain ⟨runq, hp, holder, inv⟩ := holds
  have linked := inv.layout.linked
  refine ⟨runq, hp, linked.queue.forward, linked.second.forward, ?_⟩
  refine List.Nodup.append linked.queue.queue.nodup linked.second.queue.nodup ?_
  exact fun t inRunq inHp => linked.apart t inRunq inHp

/-! ### A run that breaks the queues -/

/-- A thread enters a wrapper and gets the turn. -/
def enterTurn (tid : Tid) : List (Tid × Action) := [(tid, .getTurn), (tid, .gotTurn)]

/-- The rest of `next`, with this many rounds of `nextRunnable`. -/
def passTurn (tid : Tid) (rounds : Nat) : List (Tid × Action) :=
  [(tid, .checkWakeup [])] ++ List.replicate rounds (tid, .nextRunnable) ++ [(tid, .post)]

/-- The end of a wrapper: `incTurnCount`, `putTurn`, `next`. -/
def giveTurn (tid : Tid) (strategy : Strategy) (rounds : Nat) : List (Tid × Action) :=
  [(tid, .incTurnCount []), (tid, .putTurn strategy)] ++ passTurn tid rounds

/-- The main thread is woken from a condition variable (so it stands in `hp_runq` with its flag set),
creates thread `2` under a scheduler lock and starts an external call before it has been popped;
thread `1` pops it. Back in `runq` with the stale flag, it wakes thread `2` and pops that one. -/
def staleFlag : List (Tid × Action) :=
  enterTurn 0 ++ [(0, .create 101 7)] ++ giveTurn 0 .default 1 ++
  enterTurn 1 ++ giveTurn 1 .default 1 ++
  enterTurn 0 ++ [(0, .wait (.cond 5) forever [])] ++ passTurn 0 1 ++
  enterTurn 1 ++ [(1, .signal (.cond 5) false)] ++ giveTurn 1 .default 1 ++
  [(0, .gotTurn)] ++ giveTurn 0 .currentThread 1 ++
  enterTurn 0 ++ [(0, .create 102 7)] ++ giveTurn 0 .create 1 ++
  [(0, .interProStart)] ++ enterTurn 1 ++ giveTurn 1 .default 2 ++
  [(0, .interProEnd), (0, .wakeup)] ++
  enterTurn 2 ++ [(2, .wait (.cond 6) forever [0])] ++ passTurn 2 1 ++
  enterTurn 1 ++ giveTurn 1 .default 1 ++
  enterTurn 0 ++ [(0, .signal (.cond 6) false), (0, .incTurnCount []), (0, .putTurn .default)]

/-- The options of that run. -/
def twoQueues : Options :=
  { enforceTurnType := 0, schedulingPolicy := 4, launchIdleThread := 0 }

/-- Up to the main thread's external call the run is safe, and both queues are in use. -/
theorem queues_stay_apart_staleFlag :
    ∃ s, exec (Sys.step twoQueues) (Sys.init twoQueues 100) (staleFlag.take 42) = some s ∧
      s.sched.hpRunq.head = some 0 ∧
      ∃ runq hp, Forward (fun t => (s.sched.elems t).next) s.sched.runq.head runq ∧
        Forward (fun t => (s.sched.elems t).next) s.sched.hpRunq.head hp ∧ (runq ++ hp).Nodup := by
  have found : (exec (Sys.step twoQueues) (Sys.init twoQueues 100) (staleFlag.take 42)).any
      (fun s => decide (s.sched.hpRunq.head = some 0)) = true := by decide +kernel
  obtain ⟨s, ran, here⟩ := exec_of_any found
  exact ⟨s, ran, of_decide_eq_true here,
    queues_stay_apart twoQueues (by decide) 100 (staleFlag.take 42) (by decide +kernel) s ran⟩

/-- **The traversal of `runq` does not end.** -/
theorem stale_flag_makes_a_cycle : twoQueues.RoundRobin ∧ twoQueues.highPriority = true ∧
    ∃ s, exec (Sys.step twoQueues) (Sys.init twoQueues 100) staleFlag = some s ∧
      ∀ runq, ¬ Forward (fun t => (s.sched.elems t).next) s.sched.runq.head runq := by
  have found : (exec (Sys.step twoQueues) (Sys.init twoQueues 100) staleFlag).any
      (fun s => decide (s.sched.runq.head = some 0 ∧ (s.sched.elems 0).next = some 1 ∧
        (s.sched.elems 1).next = some 0)) = true := by decide +kernel
  obtain ⟨s, ran, here⟩ := exec_of_any found
  obtain ⟨head, there, back⟩ := of_decide_eq_true here
  refine ⟨by decide, by decide, s, ran, fun runq => ?_⟩
  rw [head]
  exact (not_forward_of_cycle there back runq).1

end MinSmt
