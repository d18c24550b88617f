/-
**What the timed wrappers return** (`pthreadMutexTimedLock`, `semTimedWait`, `pthreadCondTimedWait`).

`Serializer::wait` is documented to return `0` when the thread was signalled and `ETIMEDOUT` when it
timed out. `RRScheduler::wait` returns the `wake_reason` of the slot, `0` or `1`, and the loops of the
wrappers compare it with `ETIMEDOUT`, which is `110`: a thread that timed out tries again as if it had
been signalled, and `pthreadCondTimedWait` returns `1`.

* `ReportsTimeout` — what a timed wrapper owes a thread that timed out.
* `ReturnsZero` — what `pthreadCondTimedWait` owes a thread that was signalled.
* **`timed_call_keeps_contract_iff`** — in every run, the contract is kept exactly for the threads that
  were signalled.
* `timed_out_calls` — a run in which all three wrappers break it.
-/

import MinSmt.Runtime.Recorder

namespace MinSmt

open MinSmt.Library

/-- The thread is back from the wait of a timed wrapper. -/
def Stage.timedCall : Stage → Bool
  | .retry (.mutexTimedLock _ _) => true
  | .retry (.semTimedWait _ _) => true
  | .condWoken true _ _ _ => true
  | _ => false

namespace Recorder

variable (o : Options) (r : Recorder) (tid : Tid)

/-- The wrapper returns in this turn and reports the timeout, and it has not taken the mutex or the
semaphore, or it has the mutex of the condition variable. -/
def ReportsTimeout : Stage → Prop
  | .retry (.mutexTimedLock mu timeout) =>
    (r.turnOf o tid (.retry (.mutexTimedLock mu timeout))).2 = .done false { ret := etimedout } ∧
      (r.turnOf o tid (.retry (.mutexTimedLock mu timeout))).1.shared.mutex mu = r.shared.mutex mu
  | .retry (.semTimedWait sem timeout) =>
    (r.turnOf o tid (.retry (.semTimedWait sem timeout))).2 =
        .done false { ret := -1, error := some etimedout } ∧
      (r.turnOf o tid (.retry (.semTimedWait sem timeout))).1.shared.sem sem = r.shared.sem sem
  | .condWoken timed cv mu role =>
    (r.turnOf o tid (.condWoken timed cv mu role)).2 = .done false { ret := etimedout } ∧
      ((r.turnOf o tid (.condWoken timed cv mu role)).1.shared.mutex mu).owner = some tid
  | _ => True

/-- The thread has not returned from the wrapper it is in. -/
def Busy (_ : Tid × Move) : Prop := ∃ stage, r.spot tid = .inside stage

/-- However the run goes on, the wrapper the thread is in returns `0` when it returns. -/
def ReturnsZero : Prop :=
  ∀ labels later stage isCreate result, exec (step o) r labels = some later →
    Along (step o) (fun s label => Busy s tid label) r labels →
    later.spot tid = .inside stage → later.Ready tid →
    (later.turnOf o tid stage).2 = .done isCreate result → result.ret = 0

/-- **The contract of `wait`, as the timed wrappers rely on it.** -/
def TimedContract (stage : Stage) : Prop :=
  ((r.core.waits tid).wakeReason = .timedout → ReportsTimeout o r tid stage) ∧
    ∀ cv mu role, (r.core.waits tid).wakeReason = .signal → stage = .condWoken true cv mu role →
      ReturnsZero o r tid

variable {o r tid}

/-! ### A thread that timed out -/

/-- A loop that is entered returns what its wrapper returns on success, or waits. -/
theorem enter_finish {σ : Type} (e : Env σ) (loop : Loop) :
    (loop.enter o tid e).2 = .done false { ret := loop.ret } ∨
      (loop.enter o tid e).2 = .wait (some loop.chan) loop.timeout (.retry loop) := by
  cases got : loop.attempt tid e.shared with
  | some shared =>
    rw [Loop.enter_of_some got]
    exact Or.inl (Loop.leave_finish _ loop)
  | none =>
    rw [Loop.enter_of_none got]
    exact Or.inr rfl

theorem retry_turn (loop : Loop) :
    r.turnOf o tid (.retry loop) = loop.enter o tid (r.env tid) :=
  Loop.resume_eq_enter (r.env tid) loop

theorem condWoken_turn (cv mu : Nat) (role : AddrNRole) :
    ∃ e, r.turnOf o tid (.condWoken true cv mu role) =
      (Loop.relock cv mu (r.core.waits tid).wakeReason.toInt).enter o tid e :=
  ⟨_, rfl⟩

/-- **A thread that timed out is never told so.** -/
theorem not_reportsTimeout {stage : Stage} (timed : stage.timedCall = true)
    (fired : (r.core.waits tid).wakeReason = .timedout) : ¬ ReportsTimeout o r tid stage := by
  have loops : ∀ (loop : Loop) (e : Env Core) (result : Result),
      result ≠ { ret := loop.ret } → (loop.enter o tid e).2 ≠ .done false result := by
    intro loop e result differs same
    rcases enter_finish e loop with done | waits
    · rw [done] at same
      exact differs (Finish.done.inj same).2.symm
    · rw [waits] at same
      cases same
  unfold Stage.timedCall at timed
  split at timed
  · rename_i mu timeout
    rintro ⟨done, -⟩
    rw [retry_turn] at done
    exact loops _ _ _ (by simp [Loop.ret, etimedout]) done
  · rename_i sem timeout
    rintro ⟨done, -⟩
    rw [retry_turn] at done
    exact loops _ _ _ (by simp [Loop.ret, etimedout]) done
  · rename_i cv mu role
    rintro ⟨done, -⟩
    obtain ⟨e, turn⟩ := @condWoken_turn o r tid cv mu role
    rw [turn, fired] at done
    exact loops _ _ _ (by simp [Loop.ret, WakeReason.toInt, etimedout]) done
  · cases timed

/-! ### A thread that was signalled -/

/-- The wrapper that a thread is in will return `0`. -/
def OnWayToZero (tid : Tid) (s : Recorder) : Prop :=
  (∃ cv mu role, s.spot tid = .inside (.condWoken true cv mu role) ∧ tid ∉ s.core.waitq ∧
    (s.core.waits tid).wakeReason = .signal) ∨
  (∃ cv mu, s.spot tid = .inside (.retry (.relock cv mu 0))) ∨
  ∀ stage, s.spot tid ≠ .inside stage

/-- The turn of a thread on its way to return `0`. -/
theorem turn_toZero {stage : Stage} (way : OnWayToZero tid r) (here : r.spot tid = .inside stage) :
    (∃ isCreate, (r.turnOf o tid stage).2 = .done isCreate { ret := 0 }) ∨
      ∃ chan timeout cv mu,
        (r.turnOf o tid stage).2 = .wait chan timeout (.retry (.relock cv mu 0)) := by
  have loops : ∀ (e : Env Core) (cv mu : Nat),
      (∃ isCreate, ((Loop.relock cv mu 0).enter o tid e).2 = .done isCreate { ret := 0 }) ∨
        ∃ chan timeout cv' mu', ((Loop.relock cv mu 0).enter o tid e).2 =
          .wait chan timeout (.retry (.relock cv' mu' 0)) := by
    intro e cv mu
    rcases enter_finish e (Loop.relock cv mu 0) with done | waits
    · exact Or.inl ⟨false, done⟩
    · exact Or.inr ⟨_, _, cv, mu, waits⟩
  rcases way with ⟨cv, mu, role, spot, -, signalled⟩ | ⟨cv, mu, spot⟩ | outside
  · rw [here] at spot
    obtain rfl := Spot.inside.inj spot
    obtain ⟨e, turn⟩ := @condWoken_turn o r tid cv mu role
    rw [turn, signalled]
    exact loops e cv mu
  · rw [here] at spot
    obtain rfl := Spot.inside.inj spot
    rw [retry_turn]
    exact loops _ cv mu
  · exact absurd here (outside stage)

/-- The steps of the other threads leave a thread on its way. -/
theorem OnWayToZero.other {move : Move} {u : Tid} (nodup : r.core.waitq.Nodup)
    (way : OnWayToZero tid r) (stepped : r.step o (u, move) = some r')
    (same : r'.spot tid = r.spot tid) (other : tid ≠ u ∨ move = .wakeIdle) :
    OnWayToZero tid r' := by
  rcases way with ⟨cv, mu, role, spot, free, signalled⟩ | ⟨cv, mu, spot⟩ | outside
  · obtain ⟨still, slot⟩ := step_frame nodup stepped other free
    exact Or.inl ⟨cv, mu, role, same.trans spot, still, by rw [slot]; exact signalled⟩
  · exact Or.inr (Or.inl ⟨cv, mu, same.trans spot⟩)
  · exact Or.inr (Or.inr fun stage => same ▸ outside stage)

/-- Its own turn leaves it on its way, or it has returned `0`. -/
theorem OnWayToZero.took {stage : Stage} (way : OnWayToZero tid r)
    (here : r.spot tid = .inside stage) (took : Took o r tid stage r') : OnWayToZero tid r' := by
  obtain ⟨c, -, -, givenUp⟩ := took.turned
  generalize left : r'.spot tid = spot at givenUp
  generalize r'.core = core at givenUp
  rcases turn_toZero way here with ⟨isCreate, how⟩ | ⟨chan, timeout, cv, mu, how⟩
  · rw [how] at givenUp
    cases givenUp
    exact Or.inr (Or.inr fun stage inside => by rw [left] at inside; cases inside)
  · rw [how] at givenUp
    cases givenUp
    exact Or.inr (Or.inl ⟨cv, mu, left⟩)

/-- **Every step keeps a thread on its way**, as long as it has not returned. -/
theorem onWayToZero_step {label : Tid × Move} (nodup : r.core.waitq.Nodup)
    (way : OnWayToZero tid r) (busy : Busy r tid label) (stepped : r.step o label = some r') :
    OnWayToZero tid r' := by
  obtain ⟨u, move⟩ := label
  obtain ⟨inside, here⟩ := busy
  by_cases other : tid = u
  · subst other
    rcases step_cases nodup stepped with ⟨stage, isStage, took⟩ | ⟨_, returning, -⟩ |
      ⟨_, _, outside, -⟩ | ⟨isWake, -, same⟩
    · have sameStage : inside = stage := by
        cases move with
        | call call =>
          simp only [stageOf, here] at isStage
          cases isStage
        | resume =>
          simp only [stageOf, here] at isStage
          exact Option.some.inj isStage
        | _ => cases isStage
      exact way.took (sameStage ▸ here) took
    · rw [here] at returning
      cases returning
    · rw [here] at outside
      cases outside
    · exact way.other nodup stepped (by rw [same]) (Or.inr isWake)
  · exact way.other nodup stepped (step_spot nodup stepped other) (Or.inl other)

/-- **A thread that was signalled will be told `0`.** -/
theorem returnsZero_of_signal (sound : Sound r.core r.spot) {cv mu : Nat} {role : AddrNRole}
    (here : r.spot tid = .inside (.condWoken true cv mu role)) (free : tid ∉ r.core.waitq)
    (signalled : (r.core.waits tid).wakeReason = .signal) : ReturnsZero o r tid := by
  intro labels later stage isCreate result ran busy there _ done
  have way : OnWayToZero tid later := by
    refine (exec_invariant (fun s => Sound s.core s.spot ∧ OnWayToZero tid s) ?_
      ⟨sound, Or.inl ⟨cv, mu, role, here, free, signalled⟩⟩ busy ran).2
    intro s label next inv isBusy stepped
    exact ⟨sound_step inv.1 stepped, onWayToZero_step inv.1.nodup inv.2 isBusy stepped⟩
  rcases turn_toZero way there with ⟨flag, how⟩ | ⟨chan, timeout, cv', mu', how⟩
  · rw [how] at done
    rw [← (Finish.done.inj done).2]
  · rw [how] at done
    cases done

/-- **The contract is kept exactly for the threads that were signalled.** -/
theorem timed_call_keeps_contract_iff (o : Options) (mainTh : PthreadT) (shared : Shared)
    (labels : List (Tid × Move)) (r : Recorder)
    (ran : exec (step o) (init o mainTh shared) labels = some r) (tid : Tid) (stage : Stage)
    (here : r.spot tid = .inside stage) (timed : stage.timedCall = true)
    (removed : tid ∉ r.core.waitq) :
    TimedContract o r tid stage ↔ (r.core.waits tid).wakeReason = .signal := by
  refine ⟨fun ⟨reports, _⟩ => ?_, fun signalled => ⟨fun fired => ?_, fun cv mu role _ isCond => ?_⟩⟩
  · cases reason : (r.core.waits tid).wakeReason with
    | signal => rfl
    | timedout => exact absurd (reports reason) (not_reportsTimeout timed reason)
  · rw [signalled] at fired
    cases fired
  · exact returnsZero_of_signal (sound_run ran) (isCond ▸ here) removed signalled

/-! ### Runs -/

/-- The main thread takes the mutex `7`; then threads `2`, `3` and `4` wait for at most an instant: for
the mutex `8` in `pthreadCondTimedWait`, for the mutex `7` and for the semaphore `6`. Each of them may
wait `5 * 5 + 1` turns. -/
def threeTimedCalls : List (Tid × Move) :=
  quick 0 (.createIdle 101) ++ quick 0 (.create 102 3 0) ++ quick 0 (.create 103 3 0) ++
  quick 0 (.create 104 3 0) ++ quick 0 (.mutexLock 7) ++ quick 2 (.mutexLock 8) ++
  [(2, .call (.condTimedWait 9 8 0 ⟨1, 0⟩ (some ⟨1, 0⟩))),
    (3, .call (.mutexTimedLock 7 ⟨1, 0⟩ (some ⟨1, 0⟩))),
    (4, .call (.semTimedWait 6 ⟨1, 0⟩ (some ⟨1, 0⟩)))]

/-- The main thread signals the condition variable. -/
def oneSignalled : List (Tid × Move) := threeTimedCalls ++ quick 0 (.condSignal 9)

/-- The main thread takes turns until all three have timed out. -/
def allExpired : List (Tid × Move) :=
  threeTimedCalls ++ (List.replicate 30 (quick 0 .dummySync)).flatten

/-- A signalled thread in `pthreadCondTimedWait`. -/
theorem timed_call_keeps_contract_iff_oneSignalled :
    ∃ r, exec (step {}) (init {} 100 {}) oneSignalled = some r ∧
      r.spot 2 = .inside (.condWoken true 9 8 ⟨0, 0⟩) ∧ 2 ∉ r.core.waitq ∧
      TimedContract {} r 2 (.condWoken true 9 8 ⟨0, 0⟩) := by
  have found : (exec (step {}) (init {} 100 {}) oneSignalled).any
      (fun r => decide (r.spot 2 = .inside (.condWoken true 9 8 ⟨0, 0⟩) ∧ 2 ∉ r.core.waitq ∧
        (r.core.waits 2).wakeReason = .signal)) = true := by decide +kernel
  obtain ⟨r, ran, here⟩ := exec_of_any found
  obtain ⟨spot, free, reason⟩ := of_decide_eq_true here
  exact ⟨r, ran, spot, free,
    (timed_call_keeps_contract_iff {} 100 {} oneSignalled r ran 2 _ spot rfl free).mpr reason⟩

/-- Where the three threads are when they have timed out. -/
def expiredStage : Tid → Stage
  | 2 => .condWoken true 9 8 ⟨0, 0⟩
  | 3 => .retry (.mutexTimedLock 7 33)
  | _ => .retry (.semTimedWait 6 34)

/-- What their next turns do. -/
def expiredFinish : Tid → Finish
  | 2 => .done false { ret := 1 }
  | 3 => .wait (some (.mutex 7)) 33 (.retry (.mutexTimedLock 7 33))
  | _ => .wait (some (.sem 6)) 34 (.retry (.semTimedWait 6 34))

/-- **All three wrappers break the contract**: `fireTimeouts` has taken the threads out of the wait
queue, and `pthreadCondTimedWait` returns `1`, while the other two wait again. -/
theorem timed_out_calls :
    ∃ r, exec (step {}) (init {} 100 {}) allExpired = some r ∧
      ∀ t ∈ [2, 3, 4], t ∉ r.core.waitq ∧ (r.core.waits t).wakeReason = .timedout ∧
        r.spot t = .inside (expiredStage t) ∧
        (r.turnOf {} t (expiredStage t)).2 = expiredFinish t ∧
        ¬ TimedContract {} r t (expiredStage t) := by
  have found : (exec (step {}) (init {} 100 {}) allExpired).any
      (fun r => decide (∀ t ∈ [2, 3, 4], t ∉ r.core.waitq ∧
        (r.core.waits t).wakeReason = .timedout ∧ r.spot t = .inside (expiredStage t) ∧
        (r.turnOf {} t (expiredStage t)).2 = expiredFinish t)) = true := by decide +kernel
  obtain ⟨r, ran, here⟩ := exec_of_any found
  refine ⟨r, ran, fun t member => ?_⟩
  obtain ⟨free, fired, spot, turn⟩ := of_decide_eq_true here t member
  refine ⟨free, fired, spot, turn, fun kept => ?_⟩
  have timed : (expiredStage t).timedCall = true := by
    unfold expiredStage
    split <;> rfl
  exact not_reportsTimeout timed fired (kept.1 fired)

end Recorder

end MinSmt
