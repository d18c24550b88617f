/-
**The delay before a blocking call** (`interProStart`, `block`).

A thread that starts an external call while it waits in `runq` only marks its element, and the next round of
`nextRunnable` that meets it drops it: no turn is spent. A thread that starts the call when the turn has
already reached it gets the turn, counts it in `block` and hands it on.

* `Sys.otherTurns o t s labels` — the turns that threads other than `t` count along a run: the turn number,
  the thread and the operation.
* `exec_veil` — until somebody looks at the status of `t`, both processes take the same steps.
* **`delay_shows_iff`** — the turns of the other threads are the same exactly when no other thread takes a
  turn after the turn has reached `t`: from there on the numbers differ by one.
* `early_call_shifts_turns` — a run of two threads and the idle thread.
-/

import MinSmt.Scheduler.Exclusion
import MinSmt.Scheduler.Unseen
import MinSmt.Scheduler.TwoQueues

namespace MinSmt

open MinSmt.Library Sched Sys

/-- **The turns that the other threads count**: the number, the thread and the operation. -/
def Sys.otherTurns (o : Options) (t : Tid) : Sys → List (Tid × Action) → List (Nat × Tid × Action)
  | _, [] => []
  | s, label :: labels =>
    match s.step o label with
    | none => []
    | some next =>
      if label.1 ≠ t ∧ label.2.counts = true then
        (s.sched.turnCount, label) :: otherTurns o t next labels
      else otherTurns o t next labels

section Turns

variable {o : Options} {t : Tid} {s s' : Sys} {labels : List (Tid × Action)}

theorem otherTurns_cons {label : Tid × Action} (stepped : s.step o label = some s') :
    s.otherTurns o t (label :: labels) = if label.1 ≠ t ∧ label.2.counts = true then
      (s.sched.turnCount, label) :: s'.otherTurns o t labels else s'.otherTurns o t labels := by
  rw [Sys.otherTurns, stepped]

theorem otherTurns_append {first second : List (Tid × Action)}
    (ran : exec (Sys.step o) s first = some s') :
    s.otherTurns o t (first ++ second) = s.otherTurns o t first ++ s'.otherTurns o t second := by
  induction first generalizing s with
  | nil =>
    cases ran
    rfl
  | cons label first ih =>
    obtain ⟨next, stepped, rest⟩ := exec_cons ran
    rw [List.cons_append, otherTurns_cons stepped, otherTurns_cons stepped, ih rest]
    split <;> rfl

/-- The number of turns that a run counts. -/
def increments (labels : List (Tid × Action)) : Nat := labels.countP fun label => label.2.counts

/-- The next number after a turn has been counted. -/
def nextTurn (n : Nat) : Nat := (n + 1) % unsignedMod

theorem nextTurn_ne (n : Nat) : nextTurn n ≠ n := by
  unfold nextTurn unsignedMod
  omega

/-- A process that takes a step is there. -/
theorem running_of_step {label : Tid × Action} (stepped : s.step o label = some s') :
    s.outcome ≠ some .exited ∧ s.outcome ≠ some .crashed := by
  unfold Sys.step at stepped
  refine ⟨fun exited => ?_, fun crashed => ?_⟩
  · rw [exited] at stepped
    cases stepped
  · rw [crashed] at stepped
    cases stepped

/-- A crashed process takes no step. -/
theorem nil_of_crashed {final : Sys} (crashed : s.outcome = some .crashed)
    (ran : exec (Sys.step o) s labels = some final) : labels = [] := by
  cases labels with
  | nil => rfl
  | cons label labels =>
    obtain ⟨next, stepped, -⟩ := exec_cons ran
    exact absurd crashed (running_of_step stepped).2

theorem turnCount_step {label : Tid × Action} (stepped : s.step o label = some s')
    (alive : s'.outcome ≠ some .crashed) : s'.sched.turnCount =
      if label.2.counts = true then nextTurn s.sched.turnCount else s.sched.turnCount := by
  obtain ⟨tid, action⟩ := label
  rw [(Moves.of_step stepped).turnCount_eq.resolve_right alive]
  unfold Sched.counted
  split <;> rfl

/-- **While `t` counts nothing, the first turn of another thread has the number that is due.** -/
theorem first_turn (quiet : ∀ label ∈ labels, label.1 = t → label.2.counts = false)
    (ran : exec (Sys.step o) s labels = some s') {turn : Nat × Tid × Action}
    (isFirst : (s.otherTurns o t labels).head? = some turn) : turn.1 = s.sched.turnCount := by
  induction labels generalizing s with
  | nil => cases isFirst
  | cons label labels ih =>
    obtain ⟨next, stepped, rest⟩ := exec_cons ran
    rw [otherTurns_cons stepped] at isFirst
    split at isFirst
    · rw [← Option.some.inj isFirst]
    · rename_i notOther
      have plain : label.2.counts = false := by
        by_contra counts
        have isT : label.1 = t := by
          by_contra other
          exact notOther ⟨other, by simpa using counts⟩
        exact counts (quiet label List.mem_cons_self isT)
      have alive : next.outcome ≠ some .crashed := by
        intro crashed
        rw [nil_of_crashed crashed rest] at isFirst
        cases isFirst
      have later := ih (fun other member => quiet other (List.mem_cons_of_mem _ member)) rest isFirst
      rw [later, turnCount_step stepped alive, plain, if_neg Bool.false_ne_true]

/-- **The turn count after a run** is as many turns on as the run counts. -/
theorem turnCount_run (ran : exec (Sys.step o) s labels = some s') (alive : s'.outcome ≠ some .crashed) :
    s'.sched.turnCount = nextTurn^[increments labels] s.sched.turnCount := by
  induction labels generalizing s with
  | nil =>
    cases ran
    rfl
  | cons label labels ih =>
    obtain ⟨next, stepped, rest⟩ := exec_cons ran
    have goesOn : next.outcome ≠ some .crashed := by
      intro crashed
      rw [nil_of_crashed crashed rest] at rest
      cases rest
      exact alive crashed
    rw [ih rest, turnCount_step stepped goesOn, increments, increments, List.countP_cons]
    split
    · rfl
    · rfl

/-- No other thread takes a turn. -/
theorem otherTurns_eq_nil_iff (ran : exec (Sys.step o) s labels = some s') :
    s.otherTurns o t labels = [] ↔ ∀ label ∈ labels, label.1 ≠ t → label.2.counts = false := by
  induction labels generalizing s with
  | nil => exact iff_of_true rfl nofun
  | cons label labels ih =>
    obtain ⟨next, stepped, rest⟩ := exec_cons ran
    rw [otherTurns_cons stepped, List.forall_mem_cons, ← ih rest]
    split
    · rename_i counted
      refine iff_of_false nofun fun both => ?_
      rw [both.1 counted.1] at counted
      exact absurd counted.2 Bool.false_ne_true
    · rename_i plain
      refine (and_iff_right fun other => ?_).symm
      exact Bool.eq_false_iff.mpr fun counts => plain ⟨other, counts⟩

end Turns

/-! ### Before the turn reaches the thread -/

section Before

variable {o : Options} {t : Tid} {s s' : Sys} {status : ThdStatus} {pc : Pc}

/-- A thread is moved by itself only. -/
theorem pc_of_other {tid : Tid} {action : Action} {holder : Option Tid} (exclusive : Exclusive o s holder)
    (alive : s.pc t ≠ .dead) (different : t ≠ tid) (stepped : s.step o (tid, action) = some s') :
    s'.pc t = s.pc t ∧ s.sched.tm.nthread ≠ t := by
  have old : s.sched.tm.nthread ≠ t := fun new => alive (exclusive.unborn t (Nat.le_of_eq new))
  exact ⟨(Moves.of_step stepped).pc_of_ne different old, old⟩

/-- **Until somebody looks at the status of `t`, the others take the same steps**, and count the same
turns. -/
theorem exec_veil (rr : o.RoundRobin) {holder : Option Tid} (exclusive : Exclusive o s holder)
    (alive : s.pc t ≠ .dead) {w : List (Tid × Action)} (others : ∀ label ∈ w, label.1 ≠ t)
    (unseen : Along (Sys.step o) (fun s label => ¬ s.Looks o t label) s w)
    (ran : exec (Sys.step o) s w = some s') :
    exec (Sys.step o) (s.veil t status pc) w = some (s'.veil t status pc) ∧
      (s.veil t status pc).otherTurns o t w = s.otherTurns o t w ∧ s'.pc t = s.pc t ∧
      ∃ holder', Exclusive o s' holder' := by
  induction w generalizing s holder with
  | nil =>
    cases ran
    exact ⟨rfl, rfl, rfl, holder, exclusive⟩
  | cons label w ih =>
    obtain ⟨next, stepped, rest⟩ := exec_cons ran
    obtain ⟨tid, action⟩ := label
    have different : tid ≠ t := others _ List.mem_cons_self
    obtain ⟨samePc, old⟩ := pc_of_other exclusive alive different.symm stepped
    have veiled : (s.veil t status pc).step o (tid, action) = some (next.veil t status pc) := by
      rw [step_veil different old unseen.1, stepped]
      rfl
    obtain ⟨holder', exclusive'⟩ := exclusive.step (Or.inl rr) (Moves.of_step stepped)
    obtain ⟨ran', turns, pcs, holds⟩ := ih exclusive' (samePc.symm ▸ alive)
      (fun other member => others other (List.mem_cons_of_mem _ member)) (unseen.2 next stepped) rest
    refine ⟨?_, ?_, pcs.trans samePc, holds⟩
    · show ((s.veil t status pc).step o (tid, action)).bind _ = _
      rw [veiled]
      exact ran'
    · rw [otherTurns_cons veiled, otherTurns_cons stepped, turns]
      rfl

/-- A thread that starts a call while it waits in the queue only marks its element. -/
theorem interProStart_veil (here : s.pc t = .away ∨ s.pc t = .woken)
    (runnable : (s.sched.elems t).status = .runnable)
    (alive : s.outcome ≠ some .exited ∧ s.outcome ≠ some .crashed) :
    s.step o (t, .interProStart) = some (s.veil t .interProStop .inCall) := by
  have thread : s.threadStep o t .interProStart = some (s.veil t .interProStop .inCall) := by
    have away : s.awayStep t .interProStart = some (s.veil t .interProStop .inCall) := by
      simp only [Sys.awayStep, Sched.interProStart, runnable, if_true]
      rfl
    unfold Sys.threadStep
    rcases here with isAway | isWoken
    · rw [isAway]
      exact away
    · rw [isWoken]
      exact away
  unfold Sys.step
  split
  · rename_i isExited
    exact absurd isExited alive.1
  · rename_i isCrashed
    exact absurd isCrashed alive.2
  · exact thread

end Before

/-! ### When the turn has reached it -/

theorem inTurn_of_grantee {pc : Pc} {next : Tid} (chosen : pc.grantee = some next) : pc.inTurn = true := by
  cases pc with
  | leaving phase atThreadEnd strategy after => rfl
  | _ => cases chosen

section Arriving

variable {o : Options} {t tid : Tid} {s s' : Sys} {action : Action}

/-- The turn is on its way to `t`, or there. -/
def Arriving (o : Options) (t : Tid) (s : Sys) : Prop :=
  (∃ x, x ≠ t ∧ Exclusive o s (some x) ∧ (s.pc x).grantee = some t) ∨ Exclusive o s (some t)

/-- The steps with which `t` comes to its `block`. -/
def Arrives (t : Tid) (label : Tid × Action) : Prop :=
  label.1 = t → label.2 = .interProStart ∨ label.2 = .gotTurn

theorem start_kept (exclusive : Exclusive o s (some t)) (stepped : s.step o (t, .interProStart) = some s') :
    Exclusive o s' (some t) := by
  have kept : (s.pc t = .away ∨ s.pc t = .woken) → s.awayStep t .interProStart = some s' →
      Exclusive o s' (some t) := by
    intro here moved
    cases moved
    have same : Same (s.sched.counted .interProStart) (s.sched.interProStart t).2 := by
      unfold Sched.interProStart
      split <;> exact Same.frame.setStatus _
    refine exclusive.keep rfl (fun isDead => ?_) (fun inTurn => ?_) same
    · rcases here with isAway | isWoken
      · rw [isAway] at isDead
        cases isDead
      · rw [isWoken] at isDead
        cases isDead
    · split at inTurn <;> cases inTurn
  have moved := Sys.threadStep_of_step stepped
  cases here : s.pc t with
  | away =>
    simp only [Sys.threadStep, here] at moved
    exact kept (Or.inl here) moved
  | woken =>
    simp only [Sys.threadStep, here] at moved
    exact kept (Or.inr here) moved
  | turn blocking => cases blocking <;> simp [Sys.threadStep, here, Sys.turnStep] at moved
  | _ => simp [Sys.threadStep, here, Sys.leaveStep] at moved

theorem got_kept (rr : o.RoundRobin) (exclusive : Exclusive o s (some t))
    (stepped : s.step o (t, .gotTurn) = some s') : Exclusive o s' (some t) := by
  have moved := Sys.threadStep_of_step stepped
  cases here : s.pc t with
  | waiting blocking =>
    simp only [Sys.threadStep, here] at moved
    obtain ⟨sched, taken, rfl⟩ := Option.map_eq_some_iff.mp moved
    exact exclusive.take (Or.inl rr) here rfl taken
  | turn blocking => cases blocking <;> simp [Sys.threadStep, here, Sys.turnStep] at moved
  | _ => simp [Sys.threadStep, here, Sys.awayStep, Sys.leaveStep] at moved

/-- **Nobody else takes a turn on the way.** -/
theorem Arriving.step (rr : o.RoundRobin) (arriving : Arriving o t s) (arrives : Arrives t (tid, action))
    (stepped : s.step o (tid, action) = some s') :
    Arriving o t s' ∧ (tid ≠ t → action.counts = false) := by
  have moves := Moves.of_step stepped
  rcases arriving with ⟨x, other, exclusive, chosen⟩ | exclusive
  · by_cases isX : tid = x
    · subst isX
      cases here : s.pc tid with
      | leaving phase atThreadEnd strategy after =>
        rw [here] at chosen
        cases phase with
        | posting next =>
          obtain rfl : next = t := Option.some.inj chosen
          have threadStep := Sys.threadStep_of_step stepped
          simp only [Sys.threadStep, here] at threadStep
          cases action with
          | post =>
            cases threadStep
            have posted : Exclusive o (s.goto tid (s.sched.post o next) after.pc) (some next) :=
              exclusive.post rr (by rw [here]; rfl) rfl (Moves.after_outTurn after) rfl
            exact ⟨Or.inr posted, fun _ => rfl⟩
          | _ => simp [Sys.leaveStep] at threadStep
        | checking => cases chosen
        | picking => cases chosen
      | _ =>
        rw [here] at chosen
        cases chosen
    · have notHolder : some x ≠ some tid := fun same => isX (Option.some.inj same).symm
      obtain ⟨exclusive', plain, pcs⟩ := exclusive.aside rr notHolder moves
      refine ⟨Or.inl ⟨x, other, exclusive', ?_⟩, fun _ => plain⟩
      rw [pcs x fun same => isX same.symm]
      exact chosen
  · by_cases isT : tid = t
    · subst isT
      refine ⟨Or.inr ?_, fun different => absurd rfl different⟩
      rcases arrives rfl with isStart | isGot
      · cases isStart
        exact start_kept exclusive stepped
      · cases isGot
        exact got_kept rr exclusive stepped
    · have notHolder : some t ≠ some tid := fun same => isT (Option.some.inj same).symm
      obtain ⟨exclusive', plain, -⟩ := exclusive.aside rr notHolder moves
      exact ⟨Or.inr exclusive', fun _ => plain⟩

theorem Arriving.run (rr : o.RoundRobin) (arriving : Arriving o t s) {arrive : List (Tid × Action)}
    (arrives : ∀ label ∈ arrive, Arrives t label) (ran : exec (Sys.step o) s arrive = some s') :
    ∀ label ∈ arrive, label.2.counts = false := by
  induction arrive generalizing s with
  | nil => nofun
  | cons label arrive ih =>
    obtain ⟨next, stepped, rest⟩ := exec_cons ran
    obtain ⟨tid, action⟩ := label
    have own := arrives (tid, action) List.mem_cons_self
    obtain ⟨arriving', plain⟩ := arriving.step rr own stepped
    refine List.forall_mem_cons.mpr ⟨?_, ?_⟩
    · by_cases isT : tid = t
      · rcases own isT with isStart | isGot
        · rw [isStart]
          rfl
        · rw [isGot]
          rfl
      · exact plain isT
    · exact ih arriving' (fun other member => arrives other (List.mem_cons_of_mem _ member)) rest

end Arriving

/-! ### The two runs -/

/-- **The delay shows exactly when another thread takes a turn later.** -/
theorem delay_shows_iff (o : Options) (rr : o.RoundRobin) (mainTh : PthreadT)
    (before : List (Tid × Action)) (s : Sys)
    (reached : exec (Sys.step o) (Sys.init o mainTh) before = some s) (t : Tid)
    (here : s.pc t = .away ∨ s.pc t = .woken) (runnable : (s.sched.elems t).status = .runnable)
    -- the other threads go on until the turn reaches `t`, and nobody looks at its status before
    (w : List (Tid × Action)) (others : ∀ label ∈ w, label.1 ≠ t)
    (unseen : Along (Sys.step o) (fun s label => ¬ s.Looks o t label) s w) (s₁ : Sys)
    (ran : exec (Sys.step o) s w = some s₁) (x : Tid) (s₂ : Sys)
    (chooses : s₁.step o (x, .nextRunnable) = some s₂) (chosen : (s₂.pc x).grantee = some t)
    -- the call starts now, and `block` takes the turn
    (arrive : List (Tid × Action)) (arrives : ∀ label ∈ arrive, Arrives t label) (order : List Tid)
    (late : List (Tid × Action)) (final : Sys)
    (ranLate : exec (Sys.step o) s₂ (arrive ++ (t, .block order) :: late) = some final)
    (awayLate : ∀ label ∈ late, label.1 = t → label.2.counts = false)
    -- the call started at once, and the round drops `t`
    (early : List (Tid × Action)) (final' : Sys)
    (ranEarly : exec (Sys.step o) (s₁.veil t .interProStop .inCall) ((x, .nextRunnable) :: early) = some final')
    (awayEarly : ∀ label ∈ early, label.1 = t → label.2.counts = false) :
    exec (Sys.step o) s ((t, .interProStart) :: (w ++ (x, .nextRunnable) :: early)) = some final' ∧
      (s.otherTurns o t ((t, .interProStart) :: (w ++ (x, .nextRunnable) :: early)) =
          s.otherTurns o t (w ++ (x, .nextRunnable) :: (arrive ++ (t, .block order) :: late)) ↔
        (∀ label ∈ early, label.1 ≠ t → label.2.counts = false) ∧
          ∀ label ∈ late, label.1 ≠ t → label.2.counts = false) := by
  obtain ⟨holder, exclusive⟩ := Exclusive.run (Or.inl rr) reached
  have alive : s.pc t ≠ .dead := by
    rcases here with isAway | isWoken
    · simp [isAway]
    · simp [isWoken]
  obtain ⟨ranVeil, sameTurns, samePc, holder₁, exclusive₁⟩ :=
    @exec_veil o t s s₁ .interProStop .inCall rr holder exclusive alive w others unseen ran
  have starts : s.step o (t, .interProStart) = some (s.veil t .interProStop .inCall) := by
    refine interProStart_veil here runnable ?_
    cases w with
    | nil =>
      cases ran
      exact running_of_step chooses
    | cons label w =>
      obtain ⟨next, stepped, -⟩ := exec_cons ran
      exact running_of_step stepped
  obtain ⟨e₂, drops, ranEarly'⟩ := exec_cons ranEarly
  obtain ⟨s₃, ranArrive, ranBlock⟩ := exec_append ranLate
  obtain ⟨s₄, blocks, ranLate'⟩ := exec_cons ranBlock
  have arriving : Arriving o t s₂ := by
    obtain ⟨holder₂, exclusive₂⟩ := exclusive₁.step (Or.inl rr) (Moves.of_step chooses)
    have isX : holder₂ = some x := exclusive₂.holder_eq (inTurn_of_grantee chosen)
    refine Or.inl ⟨x, fun same => ?_, isX ▸ exclusive₂, chosen⟩
    have round := Sys.threadStep_of_step chooses
    rw [← samePc] at here
    rcases here with isAway | isWoken
    · simp [Sys.threadStep, same, isAway, Sys.awayStep] at round
    · simp [Sys.threadStep, same, isWoken, Sys.awayStep] at round
  have plain := arriving.run rr arrives ranArrive
  have noTurns : s₂.otherTurns o t arrive = [] :=
    (otherTurns_eq_nil_iff ranArrive).mpr fun label member _ => plain label member
  have earlyTurns : s.otherTurns o t ((t, .interProStart) :: (w ++ (x, .nextRunnable) :: early)) =
      s.otherTurns o t w ++ e₂.otherTurns o t early := by
    rw [otherTurns_cons starts, if_neg (fun both => both.1 rfl), otherTurns_append ranVeil, sameTurns,
      otherTurns_cons drops, if_neg (fun both => Bool.false_ne_true both.2)]
  have lateTurns : s.otherTurns o t (w ++ (x, .nextRunnable) :: (arrive ++ (t, .block order) :: late)) =
      s.otherTurns o t w ++ s₄.otherTurns o t late := by
    rw [otherTurns_append ran, otherTurns_cons chooses, if_neg (fun both => Bool.false_ne_true both.2),
      otherTurns_append ranArrive, noTurns, otherTurns_cons blocks, if_neg (fun both => both.1 rfl),
      List.nil_append]
  refine ⟨?_, ?_⟩
  · show (s.step o (t, .interProStart)).bind _ = _
    rw [starts]
    show exec (Sys.step o) (s.veil t .interProStop .inCall) (w ++ _) = _
    rw [exec_append_eq, ranVeil]
    exact ranEarly
  · rw [earlyTurns, lateTurns, List.append_cancel_left_eq, ← otherTurns_eq_nil_iff ranEarly',
      ← otherTurns_eq_nil_iff ranLate']
    refine ⟨fun same => ?_, fun both => both.1.trans both.2.symm⟩
    -- the two first turns would have the same number
    cases first : (e₂.otherTurns o t early).head? with
    | none =>
      have nothing := List.head?_eq_none_iff.mp first
      exact ⟨nothing, same ▸ nothing⟩
    | some turn =>
      have number := first_turn awayEarly ranEarly' first
      rw [same] at first
      have number' := first_turn awayLate ranLate' first
      have alive₂ : e₂.outcome ≠ some .crashed := fun crashed => by
        rw [same.symm, nil_of_crashed crashed ranEarly'] at first
        cases first
      have alive₄ : s₄.outcome ≠ some .crashed := fun crashed => by
        rw [nil_of_crashed crashed ranLate'] at first
        cases first
      have count₂ : e₂.sched.turnCount = s₁.sched.turnCount := turnCount_step drops alive₂
      have count₃ : s₃.sched.turnCount = s₂.sched.turnCount := by
        have nothing : increments arrive = 0 := List.countP_eq_zero.mpr fun label member => by
          simp [plain label member]
        rw [turnCount_run ranArrive (running_of_step blocks).2, nothing]
        rfl
      have count₄ : s₄.sched.turnCount = nextTurn s₃.sched.turnCount := turnCount_step blocks alive₄
      have alive₅ : s₂.outcome ≠ some .crashed := fun crashed => by
        have nothing := nil_of_crashed crashed ranLate
        simp at nothing
      have count₅ : s₂.sched.turnCount = s₁.sched.turnCount := turnCount_step chooses alive₅
      refine absurd ?_ (nextTurn_ne s₁.sched.turnCount)
      rw [← count₅, ← count₃, ← count₄, ← number', number, count₂, count₃, count₅]

/-! ### A call that is started early or late -/

/-- The main thread creates the idle thread and thread `2`; every thread takes a turn, and the idle thread
is about to pass the turn to thread `2`. -/
def aboutToCall : List (Tid × Action) :=
  enterTurn 0 ++ [(0, .create 101 7), (0, .create 102 7)] ++ giveTurn 0 .default 1 ++
  enterTurn 1 ++ giveTurn 1 .default 1 ++ enterTurn 2 ++ giveTurn 2 .default 1 ++
  enterTurn 0 ++ giveTurn 0 .default 1 ++ enterTurn 1 ++ [(1, .incTurnCount []), (1, .putTurn .default)]

/-- Thread `2` has started a call before the round that meets it. -/
def calledEarly : List (Tid × Action) :=
  [(1, .nextRunnable), (1, .post), (0, .getTurn), (0, .gotTurn), (0, .incTurnCount [])]

/-- Thread `2` starts the call when it has been posted. -/
def calledLate : List (Tid × Action) := [(1, .post), (2, .interProStart), (2, .gotTurn)]

/-- Thread `2` passes the turn on. -/
def afterBlock : List (Tid × Action) := passTurn 2 1 ++ [(0, .getTurn), (0, .gotTurn), (0, .incTurnCount [])]

theorem delay_shows_iff_aboutToCall :
    ∃ s, exec (Sys.step {}) (Sys.init {} 100) aboutToCall = some s ∧
      s.otherTurns {} 2 ((2, .interProStart) :: ([(1, .checkWakeup [])] ++
          (1, .nextRunnable) :: calledEarly)) ≠
        s.otherTurns {} 2 ([(1, .checkWakeup [])] ++ (1, .nextRunnable) ::
          (calledLate ++ (2, .block []) :: afterBlock)) := by
  have found : (exec (Sys.step {}) (Sys.init {} 100) aboutToCall).any (fun s =>
      decide (s.pc 2 = .away) && decide ((s.sched.elems 2).status = .runnable) &&
        decide (Along (Sys.step {}) (fun s label => ¬ s.Looks {} 2 label) s [(1, .checkWakeup [])]) &&
        (exec (Sys.step {}) s [(1, .checkWakeup [])]).any fun s₁ =>
          ((exec (Sys.step {}) (s₁.veil 2 .interProStop .inCall)
            ((1, .nextRunnable) :: calledEarly)).any fun _ => true) &&
          (s₁.step {} (1, .nextRunnable)).any fun s₂ =>
            decide ((s₂.pc 1).grantee = some 2) &&
              (exec (Sys.step {}) s₂ (calledLate ++ (2, .block []) :: afterBlock)).any fun _ => true) =
      true := by decide +kernel
  obtain ⟨s, ran, checks⟩ := exec_of_any found
  simp only [Bool.and_eq_true, decide_eq_true_eq, Option.any_eq_true] at checks
  obtain ⟨⟨⟨away, runnable⟩, unseen⟩, s₁, ran₁, ⟨final', ranEarly, -⟩, s₂, chooses, chosen, final, ranLate, -⟩ :=
    checks
  have exactly := (delay_shows_iff {} (by decide) 100 aboutToCall s ran 2 (Or.inl away) runnable
    [(1, .checkWakeup [])] (by decide) unseen s₁ ran₁ 1 s₂ chooses chosen calledLate (by unfold Arrives; decide) []
    afterBlock final ranLate (by decide) calledEarly final' ranEarly (by decide)).2
  exact ⟨s, ran, fun same => absurd (exactly.mp same).1 (by decide)⟩

/-- **The next turn of the main thread has another number.** -/
theorem early_call_shifts_turns :
    ∃ s, exec (Sys.step {}) (Sys.init {} 100) aboutToCall = some s ∧ s.pc 2 = .away ∧
      (s.sched.elems 2).status = .runnable ∧
      s.otherTurns {} 2 ((2, .interProStart) :: ([(1, .checkWakeup [])] ++
        (1, .nextRunnable) :: calledEarly)) = [(5, 0, .incTurnCount [])] ∧
      s.otherTurns {} 2 ([(1, .checkWakeup [])] ++ (1, .nextRunnable) ::
        (calledLate ++ (2, .block []) :: afterBlock)) = [(6, 0, .incTurnCount [])] := by
  have found : (exec (Sys.step {}) (Sys.init {} 100) aboutToCall).any (fun s =>
      decide (s.pc 2 = .away ∧ (s.sched.elems 2).status = .runnable ∧
        s.otherTurns {} 2 ((2, .interProStart) :: ([(1, .checkWakeup [])] ++
          (1, .nextRunnable) :: calledEarly)) = [(5, 0, .incTurnCount [])] ∧
        s.otherTurns {} 2 ([(1, .checkWakeup [])] ++ (1, .nextRunnable) ::
          (calledLate ++ (2, .block []) :: afterBlock)) = [(6, 0, .incTurnCount [])])) = true := by
    decide +kernel
  obtain ⟨s, ran, here⟩ := exec_of_any found
  exact ⟨s, ran, of_decide_eq_true here⟩

end MinSmt
