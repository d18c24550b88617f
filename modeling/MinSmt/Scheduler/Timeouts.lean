/-
**When a timeout fires** (`fireTimeouts`).

A deadline is a turn number: `getTurnCount() + n` at the moment the caller computes it, an `unsigned`.
Each `incTurnCount` takes out of `waitq` whoever has a deadline smaller than the new count. Both numbers
wrap around at `2^32`, each at its own time.

* `Sched.StillWaits t` — `t` has not entered `waitq` anew, and while it is there its deadline is what it
  was.
* `StillWaits.of_step` — every step in which `t` does not begin a wait is like that.
* `Fired` — the next `incTurnCount` takes `t` out.
* `OnLap` — the deadline and the count have wrapped around equally often, or the thread began to wait
  more than a whole lap late.
* **`timeout_on_time_iff`** — the `j`-th increment after the deadline was computed takes the waiting thread
  out exactly when `n ≤ j`, if and only if they are on one lap; without a deadline nothing takes it out.
* `long_timeout_fires_at_once` — the longest timeout of a lineup fires two turns later.
-/

import MinSmt.Scheduler.BlockDelay
import MinSmt.Scheduler.TondSync

namespace MinSmt

open MinSmt.Library Sched Sys

/-- A thread begins to wait, and is put into `waitq`. -/
def Action.enqueues : Action → Bool
  | .wait _ _ _ => true
  | .sleep _ _ => true
  | .tryElem => true
  | _ => false

/-- The next `incTurnCount` takes the thread out of `waitq`. -/
def Fired (o : Options) (s : Sys) (t : Tid) : Prop :=
  t ∈ s.sched.waitq ∧ t ∉ (s.sched.tickAndFire o).waitq

/-- The deadline of a wait of `n` turns, computed at turn count `turnCount`, and the count `j`
increments later have **wrapped around equally often**; or the thread came to wait a whole lap late,
when the number that is left of its deadline is small enough. -/
def OnLap (turnCount n j : Nat) : Prop :=
  (turnCount + (unsignedMod - 1) + n) / unsignedMod = (turnCount + unsignedMod + j) / unsignedMod ∨
    n + unsignedMod ≤ j ∧
      (turnCount + (unsignedMod - 1) + n) % unsignedMod < (turnCount + unsignedMod + j) % unsignedMod

/-! ### One pass of `fireTimeouts` -/

section Pass

variable {hit : WaitT → Tid → Bool} {wake : WaitT → WaitT} {t : Tid}

/-- A pass over all threads takes those that pass the test, whether or not the queue has duplicates. -/
theorem scan_woken_iff (waits : Tid → WaitT) (queue : List Tid) :
    t ∈ (scan hit wake true waits queue).woken ↔ t ∈ queue ∧ hit (waits t) t = true := by
  induction queue generalizing waits with
  | nil => simp [scan]
  | cons tid rest ih =>
    cases found : hit (waits tid) tid with
    | false =>
      rw [scan_cons_miss found, ih waits, List.mem_cons]
      refine ⟨fun both => ⟨Or.inr both.1, both.2⟩, fun both => ⟨both.1.resolve_left ?_, both.2⟩⟩
      rintro rfl
      rw [found] at both
      exact Bool.false_ne_true both.2
    | true =>
      rw [scan_cons_all found, List.mem_cons, List.mem_cons, ih]
      by_cases own : t = tid
      · subst own
        simp [found]
      · simp [own]

/-- A thread that a pass does not take stays. -/
theorem mem_kept (waits : Tid → WaitT) {queue : List Tid} (member : t ∈ queue)
    (stays : t ∉ (scan hit wake true waits queue).woken) : t ∈ (scan hit wake true waits queue).kept := by
  have count := @scan_count hit wake true waits queue t
  have inside := List.count_pos_iff.mpr member
  rw [List.count_eq_zero.mpr stays] at count
  exact List.count_pos_iff.mp (by omega)

end Pass

section Fires

variable {o : Options} {s : Sched} {t : Tid}

theorem foldl_makeRunnable_waitq (woken : List Tid) (s : Sched) :
    (woken.foldl (makeRunnable o) s).waitq = s.waitq := by
  induction woken generalizing s with
  | nil => rfl
  | cons tid woken ih =>
    rw [List.foldl_cons, ih]
    unfold makeRunnable
    split
    · split <;> rfl
    · rfl

/-- **A waiting thread is taken out exactly when its deadline is smaller than the new count.** -/
theorem fired_iff (member : t ∈ s.waitq) (once : s.waitq.count t ≤ 1) :
    t ∉ (s.tickAndFire o).waitq ↔ (s.waits t).timeout < (s.turnCount + 1) % unsignedMod := by
  have isKept : (s.tickAndFire o).waitq = s.toCore.tick.fireTimeouts.1.waitq :=
    foldl_makeRunnable_waitq _ _
  have taken : t ∈ s.toCore.tick.fireTimeouts.2 ↔
      t ∈ s.waitq ∧ decide ((s.waits t).timeout < (s.turnCount + 1) % unsignedMod) = true :=
    scan_woken_iff s.waits s.waitq
  have count : s.waitq.count t =
      s.toCore.tick.fireTimeouts.1.waitq.count t + s.toCore.tick.fireTimeouts.2.count t :=
    scan_count s.waits s.waitq t
  rw [decide_eq_true_eq] at taken
  rw [isKept, ← and_iff_right member (b := (s.waits t).timeout < _), ← taken, ← List.count_pos_iff,
    ← List.count_pos_iff]
  have inside := List.count_pos_iff.mpr member
  omega

/-- Without a deadline a thread is not taken out. -/
theorem not_fired_of_forever (member : t ∈ s.waitq) (patient : (s.waits t).timeout = forever) :
    t ∈ (s.tickAndFire o).waitq := by
  have isKept : (s.tickAndFire o).waitq = s.toCore.tick.fireTimeouts.1.waitq :=
    foldl_makeRunnable_waitq _ _
  rw [isKept]
  refine mem_kept s.waits member fun woken => ?_
  have late := of_decide_eq_true ((scan_woken_iff s.waits s.waitq).mp woken).2
  rw [patient] at late
  have bounded : (s.turnCount + 1) % unsignedMod < unsignedMod := Nat.mod_lt _ (by decide)
  simp only [Core.tick, forever] at late
  omega

end Fires

/-! ### A deadline stays what it is -/

/-- **`t` has not entered `waitq` anew**, and while it is there its deadline is what it was. -/
structure Sched.StillWaits (t : Tid) (s s' : Sched) : Prop where
  count : s'.waitq.count t ≤ s.waitq.count t
  timeout : s.waitq.count t ≤ 1 → t ∈ s'.waitq → (s'.waits t).timeout = (s.waits t).timeout

namespace Sched.StillWaits

variable {o : Options} {t tid : Tid} {s s' s'' : Sched}

theorem of_same (waitq : s'.waitq = s.waitq) (timeout : (s'.waits t).timeout = (s.waits t).timeout) :
    StillWaits t s s' :=
  ⟨by rw [waitq], fun _ _ => timeout⟩

theorem trans (first : StillWaits t s s') (second : StillWaits t s' s'') : StillWaits t s s'' := by
  refine ⟨second.count.trans first.count, fun once member => ?_⟩
  have before : t ∈ s'.waitq :=
    List.count_pos_iff.mp ((List.count_pos_iff.mpr member).trans_le second.count)
  rw [second.timeout (first.count.trans once) member, first.timeout once before]

/-- One slot is written. -/
theorem slot {w : WaitT} (same : w.timeout = (s.waits tid).timeout) :
    StillWaits t s { s with waits := Function.update s.waits tid w } := by
  refine of_same rfl ?_
  by_cases own : t = tid
  · subst own
    simpa using same
  · simp [own]

theorem frame : Frame (StillWaits t) where
  trans := trans
  core same _ := of_same (by rw [same]) (by rw [same])
  slot same _ _ := slot same
  pass {s hit wake} all _ _ := by
    have count := @scan_count hit wake all s.waits s.waitq t
    refine ⟨?_, fun once kept => congrArg WaitT.timeout ?_⟩
    · show (scan hit wake all s.waits s.waitq).kept.count t ≤ _
      omega
    refine scan_frame s.waitq fun woken => ?_
    have stays : 0 < (scan hit wake all s.waits s.waitq).kept.count t := List.count_pos_iff.mpr kept
    have leaves := List.count_pos_iff.mpr woken
    omega
  zombify _ := of_same rfl rfl

/-- Another thread enters `waitq`. -/
theorem enqueues (other : tid ≠ t) : Enqueues (StillWaits t) tid := by
  intro s chan timeout
  refine ⟨?_, fun _ _ => ?_⟩
  · show (s.waitq ++ [tid]).count t ≤ _
    simp [other]
  · show (Function.update s.waits tid _ t).timeout = _
    rw [Function.update_of_ne other.symm]

theorem tick : StillWaits t s { s with toCore := s.toCore.tick } := of_same rfl rfl

theorem post : StillWaits t s (s.post o tid) := by
  refine slot ?_
  unfold WaitT.post
  split
  · rfl
  · split
    · rfl
    · split <;> rfl

theorem take (taken : s.take o tid = some s') : StillWaits t s s' := by
  obtain ⟨w, tookPost, isSched⟩ := Option.bind_eq_some_iff.mp taken
  have sameTimeout : w.timeout = (s.waits tid).timeout := by
    unfold WaitT.take at tookPost
    split at tookPost
    · split at tookPost
      · cases tookPost
        rfl
      · cases tookPost
    · split at tookPost
      · split at tookPost
        · cases tookPost
          rfl
        · cases tookPost
      · split at tookPost
        · split at tookPost <;> cases tookPost
          rfl
        · cases tookPost
          rfl
  split at isSched
  · split at isSched
    · cases isSched
    · cases isSched
      exact of_same rfl rfl
  · cases isSched
    exact slot sameTimeout

theorem create (th : PthreadT) (threadFunc : ThreadFunc) : StillWaits t s (s.create o th threadFunc) := by
  unfold Sched.create
  dsimp only
  split
  · split <;> exact of_same rfl rfl
  · exact of_same rfl rfl

/-! ### The steps -/

variable {u u' : Sys} {action : Action}

theorem leave {sched : Option Sched} (atThreadEnd : Bool) (strategy : Strategy) (after : After)
    (each : ∀ sched', sched = some sched' → StillWaits t u.sched sched') :
    StillWaits t u.sched (u.leave tid sched atThreadEnd strategy after).sched := by
  cases sched with
  | none => exact frame.refl u.sched
  | some sched => exact each sched rfl

theorem turnStep (quiet : action.enqueues = true → tid ≠ t)
    (stepped : u.turnStep o tid action = some u') : StillWaits t u.sched u'.sched := by
  cases action with
  | incTurnCount order =>
    obtain ⟨-, rfl⟩ := Sys.turnStep_incTurnCount stepped
    exact tick.trans (frame.incTurnCount order)
  | signal chan all =>
    cases stepped
    exact frame.signal chan all
  | create th threadFunc =>
    cases stepped
    exact create th threadFunc
  | changeRole th roleFunc =>
    cases stepped
    exact of_same rfl rfl
  | nonDetWait more =>
    cases stepped
    exact of_same rfl rfl
  | putTurn strategy =>
    cases stepped
    exact leave _ _ _ fun sched' put => frame.putTurn put
  | endThread order =>
    obtain ⟨-, rfl⟩ := Sys.turnStep_endThread stepped
    exact leave _ _ _ fun sched' put =>
      (tick.trans (frame.incTurnCount order)).trans (frame.putTurnAtEnd put)
  | wait chan timeout order =>
    obtain ⟨-, rfl⟩ := Sys.turnStep_wait stepped
    exact leave _ _ _ fun sched' waits => tick.trans (frame.wait (enqueues (quiet rfl)) waits)
  | sleep turns order =>
    obtain ⟨-, rfl⟩ := Sys.turnStep_sleep stepped
    exact leave _ _ _ fun sched' waits => tick.trans (frame.wait (enqueues (quiet rfl)) waits)
  | block order =>
    obtain ⟨-, rfl⟩ := Sys.turnStep_block stepped
    exact leave _ _ _ fun sched' blocked => tick.trans (frame.block blocked)
  | idleCondWait order =>
    obtain ⟨-, ⟨-, rfl⟩ | ⟨-, rfl⟩⟩ := Sys.turnStep_idleCondWait stepped
    · exact tick.trans (frame.incTurnCount order)
    · exact leave _ _ _ fun sched' put =>
        (tick.trans (frame.incTurnCount order)).trans (frame.putTurn put)
  | _ => cases stepped

theorem tryStep (other : tid ≠ t) (cur : Option Tid) : StillWaits t u.sched (u.tryStep o tid cur).sched := by
  cases cur with
  | none => exact leave _ _ _ fun sched' put => frame.putTurn put
  | some cur =>
    simp only [Sys.tryStep]
    split
    · exact leave _ _ _ fun sched' waits =>
        frame.trans (frame.setStatus _) (frame.idleEnqueue (enqueues other) waits)
    · exact frame.refl _

theorem leaveStep {phase : Phase} {atThreadEnd : Bool} {strategy : Strategy} {after : After}
    (stepped : u.leaveStep o tid phase atThreadEnd strategy after action = some u') :
    StillWaits t u.sched u'.sched := by
  cases action with
  | checkWakeup order =>
    obtain ⟨-, ⟨-, rfl⟩ | ⟨-, rfl⟩⟩ := Sys.leaveStep_checkWakeup_cases stepped
    · exact frame.checkWakeup order
    · have back : StillWaits t u.sched (u.sched.checkWakeup o order) := frame.checkWakeup order
      exact back.trans (of_same rfl rfl)
  | nextRunnable =>
    obtain ⟨-, rfl⟩ := Sys.leaveStep_nextRunnable stepped
    have picks := @Frame.nextRunnable _ (@frame t) o u.sched u.idleDone tid atThreadEnd strategy
    revert picks
    generalize u.sched.nextRunnable o u.idleDone tid atThreadEnd strategy = pick
    intro picks
    cases pick with
    | again sched strategy' => exact picks
    | grant sched next => exact picks
    | _ => exact frame.refl _
  | post =>
    obtain ⟨next, rfl, rfl⟩ := Sys.leaveStep_post stepped
    exact post
  | _ => cases stepped

theorem awayStep (stepped : u.awayStep tid action = some u') : StillWaits t u.sched u'.sched := by
  cases action with
  | getTurn =>
    cases stepped
    exact frame.refl _
  | interProStart =>
    cases stepped
    show StillWaits t u.sched (u.sched.interProStart tid).2
    unfold Sched.interProStart
    split <;> exact frame.setStatus _
  | progEnd =>
    simp only [Sys.awayStep] at stepped
    split at stepped
    · cases stepped
      exact frame.refl _
    · cases stepped
  | _ => cases stepped

/-- **Every step in which `t` does not begin a wait is like that.** -/
theorem of_step (quiet : action.enqueues = true → tid ≠ t) (stepped : u.step o (tid, action) = some u') :
    StillWaits t u.sched u'.sched := by
  replace stepped := Sys.threadStep_of_step stepped
  unfold Sys.threadStep at stepped
  split at stepped
  · exact awayStep stepped
  · exact awayStep stepped
  · cases stepped
    exact frame.refl _
  · cases stepped
    exact frame.core rfl rfl
  · cases stepped
    exact frame.setStatus _
  · cases stepped
    exact frame.core rfl rfl
  · obtain ⟨sched, taken, rfl⟩ := Option.map_eq_some_iff.mp stepped
    exact take taken
  · exact turnStep quiet stepped
  · split at stepped
    · cases stepped
      exact leave _ _ _ fun sched' blocked => tick.trans (frame.block blocked)
    · cases stepped
  · cases stepped
    exact tryStep (quiet rfl) _
  · exact leaveStep stepped
  · cases stepped

/-- So is every run in which it does not. -/
theorem of_run {labels : List (Tid × Action)}
    (quiet : ∀ label ∈ labels, label.2.enqueues = true → label.1 ≠ t)
    (ran : exec (Sys.step o) u labels = some u') : StillWaits t u.sched u'.sched := by
  induction labels generalizing u with
  | nil =>
    cases ran
    exact frame.refl _
  | cons label labels ih =>
    obtain ⟨next, stepped, rest⟩ := exec_cons ran
    have here := of_step (quiet label List.mem_cons_self) stepped
    exact here.trans (ih (fun other member => quiet other (List.mem_cons_of_mem _ member)) rest)

end Sched.StillWaits

/-! ### From the computation of the deadline to its expiry -/

section Deadline

variable {o : Options} {t : Tid} {s s' : Sys} {action : Action}

/-- What `wait` leaves in the slot and in `waitq`. -/
theorem enterWaitq_spec (sched : Sched) (fresh : t ∉ sched.waitq) (chan : Option Chan) (timeout : Nat)
    (order : List Tid) : (sched.enterWaitq o t chan timeout order).waitq.count t ≤ 1 ∧
      ((sched.enterWaitq o t chan timeout order).waits t).timeout = timeout := by
  have counted : StillWaits t sched (sched.incTurnCount o order) :=
    StillWaits.tick.trans (StillWaits.frame.incTurnCount order)
  have nobody : (sched.incTurnCount o order).waitq.count t = 0 := by
    have before := counted.count
    rw [List.count_eq_zero.mpr fresh] at before
    omega
  have once : ((sched.incTurnCount o order).waitq ++ [t]).count t ≤ 1 := by simp [nobody]
  unfold Sched.enterWaitq
  dsimp only
  split
  · refine ⟨once, ?_⟩
    simp [Core.enqueue]
  · refine ⟨once, ?_⟩
    simp [Core.enqueue]

/-- **A thread that has begun to wait** has the deadline that it was given. -/
theorem entry_of_step {chan : Option Chan} {timeout : Nat} (fresh : t ∉ s.sched.waitq)
    (begins : s.enters action = some (chan, timeout)) (stepped : s.step o (t, action) = some s')
    (member : t ∈ s'.sched.waitq) : ∃ entry : Sched, entry.waitq.count t ≤ 1 ∧
      (entry.waits t).timeout = timeout ∧ StillWaits t entry s'.sched := by
  have onTurn : s.turnStep o t action = some s' := by
    replace stepped := Sys.threadStep_of_step stepped
    cases here : s.pc t with
    | turn blocking =>
      cases blocking with
      | false => simpa only [Sys.threadStep, here] using stepped
      | true =>
        cases action with
        | wait | sleep => simp [Sys.threadStep, here] at stepped
        | _ => cases begins
    | _ =>
      cases action with
      | wait | sleep => simp [Sys.threadStep, here, Sys.awayStep, Sys.leaveStep] at stepped
      | _ => cases begins
  have waits : ∃ order, s' =
      s.leave t (s.sched.wait o t chan timeout order) false .default .getTurn := by
    cases action with
    | wait chan' timeout' order | sleep turns order =>
      cases begins
      simp only [Sys.turnStep] at onTurn
      split at onTurn
      · exact ⟨order, (Option.some.inj onTurn).symm⟩
      · cases onTurn
    | _ => cases begins
  obtain ⟨order, rfl⟩ := waits
  obtain ⟨once, deadline⟩ := enterWaitq_spec (o := o) s.sched fresh chan timeout order
  refine ⟨_, once, deadline, ?_⟩
  cases popped : s.sched.wait o t chan timeout order with
  | none =>
    rw [popped] at member
    exact absurd member fresh
  | some sched => exact StillWaits.frame.nextPop popped

theorem nextTurn_iterate {n : Nat} (bounded : n < unsignedMod) (k : Nat) :
    nextTurn^[k] n = (n + k) % unsignedMod := by
  induction k with
  | zero => exact (Nat.mod_eq_of_lt bounded).symm
  | succ k ih =>
    rw [Function.iterate_succ_apply', ih]
    unfold nextTurn
    rw [Nat.mod_add_mod, Nat.add_assoc]

/-- The arithmetic of the two wrap-arounds. -/
theorem onLap_iff {turnCount n j : Nat} (small : n < unsignedMod) :
    (((turnCount + (unsignedMod - 1)) % unsignedMod + n) % unsignedMod < (turnCount + j) % unsignedMod ↔
      n ≤ j) ↔ OnLap turnCount n j := by
  unfold OnLap unsignedMod
  unfold unsignedMod at small
  omega

/-- **Timeouts fire on time exactly when the deadline and the count are on one lap.** At turn count `T`
a thread computes the deadline of a wait of `n` turns; some steps later it begins to wait with it. As
long as it waits, the next `incTurnCount`, the `j`-th one since then, takes it out exactly when `n ≤ j`,
if and only if the deadline and the count are on one lap. Without a deadline it is never taken out. -/
theorem timeout_on_time_iff (o : Options) {s₀ s₁ s₂ s s' : Sys} {t : Tid} {n : Nat}
    {before after : List (Tid × Action)} {action : Action} {chan : Option Chan} {label : Tid × Action}
    (bounded : s₀.sched.turnCount < unsignedMod) (small : n < unsignedMod)
    (ran : exec (Sys.step o) s₀ before = some s₁)
    (begins : s₁.enters action = some (chan, (s₀.sched.getTurnCount + n) % unsignedMod))
    (fresh : t ∉ s₁.sched.waitq) (stepped : s₁.step o (t, action) = some s₂)
    (ranAfter : exec (Sys.step o) s₂ after = some s)
    (quiet : ∀ other ∈ after, other.2.enqueues = true → other.1 ≠ t) (member : t ∈ s.sched.waitq)
    (counts : label.2.counts = true) (next : s.step o label = some s') :
    ((Fired o s t ↔ n ≤ increments (before ++ (t, action) :: (after ++ [label]))) ↔
      OnLap s₀.sched.turnCount n (increments (before ++ (t, action) :: (after ++ [label])))) ∧
    ∀ (u : Sys) (waiter : Tid), (u.sched.waits waiter).timeout = forever → ¬ Fired o u waiter := by
  refine ⟨?_, fun u waiter patient fired => fired.2 (not_fired_of_forever fired.1 patient)⟩
  have later := StillWaits.of_run quiet ranAfter
  have inside : t ∈ s₂.sched.waitq :=
    List.count_pos_iff.mp ((List.count_pos_iff.mpr member).trans_le later.count)
  obtain ⟨entry, once, deadline, still⟩ := entry_of_step fresh begins stepped inside
  have whole := still.trans later
  -- the count at the increment
  have ranAll : exec (Sys.step o) s₀ (before ++ (t, action) :: after) = some s := by
    rw [exec_append_eq, ran]
    show (s₁.step o (t, action)).bind _ = _
    rw [stepped]
    exact ranAfter
  have count := turnCount_run ranAll (running_of_step next).2
  rw [nextTurn_iterate bounded] at count
  have increment : increments (before ++ (t, action) :: (after ++ [label])) =
      increments (before ++ (t, action) :: after) + 1 := by
    simp only [increments, List.countP_append, List.countP_cons, List.countP_nil, counts, if_true]
    omega
  rw [increment, ← onLap_iff small]
  have fired : Fired o s t ↔ t ∉ (s.sched.tickAndFire o).waitq := and_iff_right member
  rw [fired, fired_iff member (whole.count.trans once), whole.timeout once member, deadline, count,
    Nat.mod_add_mod, Nat.add_assoc]
  rfl

end Deadline

/-! ### The longest timeout of a lineup -/

/-- The main thread creates thread `1` and counts two turns. -/
def twoTurnsIn : List (Tid × Action) :=
  enterTurn 0 ++ [(0, .create 101 7), (0, .incTurnCount []), (0, .incTurnCount [])]

/-- It has begun to wait, and thread `1` gets the turn. -/
def nextHasTurn : List (Tid × Action) := passTurn 0 1 ++ enterTurn 1

/-- A wait of three turns is not over after two. -/
theorem timeout_on_time_iff_threeTurns : ∃ s₀ s₁ s s',
    exec (Sys.step {}) (Sys.init {} 100) twoTurnsIn = some s₀ ∧
    s₀.step {} (0, .wait (.lineup 5) 4 []) = some s₁ ∧ exec (Sys.step {}) s₁ nextHasTurn = some s ∧
    s.step {} (1, .incTurnCount []) = some s' ∧ ((Fired {} s 0 ↔ 3 ≤ 2) ↔ OnLap 2 3 2) := by
  have found : (exec (Sys.step {}) (Sys.init {} 100) twoTurnsIn).any (fun s₀ =>
      decide (s₀.sched.turnCount = 2 ∧ 0 ∉ s₀.sched.waitq) &&
      (s₀.step {} (0, .wait (.lineup 5) 4 [])).any fun s₁ =>
        (exec (Sys.step {}) s₁ nextHasTurn).any fun s =>
          decide (0 ∈ s.sched.waitq) && (s.step {} (1, .incTurnCount [])).isSome) = true := by
    decide +kernel
  obtain ⟨s₀, ran, facts⟩ := exec_of_any found
  obtain ⟨start, facts⟩ := Bool.and_eq_true_iff.mp facts
  obtain ⟨turnCount, fresh⟩ := of_decide_eq_true start
  obtain ⟨s₁, begins, facts⟩ := (Option.any_eq_true _ _).mp facts
  obtain ⟨s, ranAfter, facts⟩ := exec_of_any facts
  obtain ⟨member, facts⟩ := Bool.and_eq_true_iff.mp facts
  obtain ⟨s', next⟩ := Option.isSome_iff_exists.mp facts
  have small : s₀.sched.turnCount < unsignedMod := by
    rw [turnCount]
    decide
  have deadline : s₀.enters (.wait (.lineup 5) 4 []) =
      some (some (.lineup 5), (s₀.sched.getTurnCount + 3) % unsignedMod) := by
    unfold Core.getTurnCount
    rw [turnCount]
    rfl
  have onTime := (timeout_on_time_iff {} small (by decide) (exec_nil s₀) deadline fresh begins ranAfter
    (by decide) (of_decide_eq_true member) rfl next).1
  rw [turnCount] at onTime
  exact ⟨s₀, s₁, s, s', ran, begins, ranAfter, next, onTime⟩

/-- **The longest timeout is over at once.** At turn count `2`, `getTurnCount() + 4294967295` is `0`;
the thread waits with this deadline and is taken out at the second increment. -/
theorem long_timeout_fires_at_once : ∃ s₀ s₁ s s',
    exec (Sys.step {}) (Sys.init {} 100) twoTurnsIn = some s₀ ∧
    s₀.enters (.wait (.lineup 5) 0 []) =
      some (some (.lineup 5), (s₀.sched.getTurnCount + 4294967295) % unsignedMod) ∧
    s₀.step {} (0, .wait (.lineup 5) 0 []) = some s₁ ∧ exec (Sys.step {}) s₁ nextHasTurn = some s ∧
    s.step {} (1, .incTurnCount []) = some s' ∧
    increments ((0, .wait (.lineup 5) 0 []) :: (nextHasTurn ++ [(1, .incTurnCount [])])) = 2 ∧
    ¬ (Fired {} s 0 ↔ 4294967295 ≤ 2) := by
  have found : (exec (Sys.step {}) (Sys.init {} 100) twoTurnsIn).any (fun s₀ =>
      decide (s₀.sched.getTurnCount = 1) &&
      (s₀.step {} (0, .wait (.lineup 5) 0 [])).any fun s₁ =>
        (exec (Sys.step {}) s₁ nextHasTurn).any fun s =>
          decide (0 ∈ s.sched.waitq ∧ 0 ∉ (s.sched.tickAndFire {}).waitq) &&
            (s.step {} (1, .incTurnCount [])).isSome) = true := by
    decide +kernel
  obtain ⟨s₀, ran, facts⟩ := exec_of_any found
  obtain ⟨turnCount, facts⟩ := Bool.and_eq_true_iff.mp facts
  obtain ⟨s₁, begins, facts⟩ := (Option.any_eq_true _ _).mp facts
  obtain ⟨s, ranAfter, facts⟩ := exec_of_any facts
  obtain ⟨fired, facts⟩ := Bool.and_eq_true_iff.mp facts
  obtain ⟨s', next⟩ := Option.isSome_iff_exists.mp facts
  refine ⟨s₀, s₁, s, s', ran, ?_, begins, ranAfter, next, by decide, fun both => ?_⟩
  · rw [of_decide_eq_true turnCount]
    rfl
  · have taken := of_decide_eq_true fired
    exact absurd (both.mp taken) (by decide)

end MinSmt
