/-
**The counts of waiting threads** (`cond_map`, `sem_map`), which the runtime keeps beside the wait queue.

A wait on a condition variable or a semaphore adds one, a signal or a post takes one away, a broadcast
sets the count to zero. A wait that expires leaves the queue when the turn is counted, and its count only
when the thread resumes: `pthreadCondTimedWait` takes one away then, and `semTimedWait` never does, since it
compares the wake reason with `ETIMEDOUT`.

* `Shared.count` — the count of a channel; `turn_count` — what a turn does to it.
* `Exact` — the count is the number of threads that wait on the channel.
* `Timely` — the step lets no wait on the channel expire.
* **`cond_counts_iff`**, **`sem_counts_iff`** — the count is exact in every state of a run exactly when all
  its steps are timely; then a thread goes on for the waiters of an object only while it has some.
* `expired_wait_is_counted`, `expired_sem_wait_is_counted` — a run each in which a wait expires.
-/

import MinSmt.Runtime.Waiters

namespace MinSmt

open MinSmt.Library

/-- The number of waiting threads that the runtime has noted for a channel. -/
def Shared.count (sh : Shared) : Chan → Int
  | .cond cv => sh.condMap cv
  | .sem sem => sh.semMap sem
  | _ => 0

/-- The channels that are counted. -/
def Chan.counted : Chan → Bool
  | .cond _ => true
  | .sem _ => true
  | _ => false

/-- The turn begins with the end of a wait on the channel that has expired. -/
def Stage.late (reason : WakeReason) (on : Chan) : Stage → Prop
  | .condWoken true cv _ _ => on = .cond cv ∧ reason = .timedout
  | _ => False

/-! ### What a turn does to the counts -/

section Counts

variable {σ : Type} {S : Serializer σ} {o : Options} {tid : Tid} {e : Env σ} {on : Chan}
  {sh sh' : Shared}

theorem count_congr (cond : sh'.condMap = sh.condMap) (sem : sh'.semMap = sh.semMap) :
    sh'.count on = sh.count on := by
  cases on with
  | cond cv => exact congrFun cond cv
  | sem s => exact congrFun sem s
  | _ => rfl

theorem count_of_books (same : sh'.books = sh.books) : sh'.count on = sh.count on :=
  count_congr (congrArg Books.condMap same) (congrArg Books.semMap same)

theorem count_addCond {cv : Nat} (n : Int) :
    (sh.addCond cv n).count on = sh.count on + if on = .cond cv then n else 0 := by
  cases on with
  | cond cv' =>
    show Function.update sh.condMap cv (sh.condMap cv + n) cv' = _
    by_cases same : cv' = cv
    · rw [same, Function.update_self, if_pos rfl]
      rfl
    · rw [Function.update_of_ne same, if_neg (by simpa using same), Int.add_zero]
      rfl
  | _ => exact (Int.add_zero _).symm

theorem count_addSem {s : Nat} (n : Int) :
    (sh.addSem s n).count on = sh.count on + if on = .sem s then n else 0 := by
  cases on with
  | sem s' =>
    show Function.update sh.semMap s (sh.semMap s + n) s' = _
    by_cases same : s' = s
    · rw [same, Function.update_self, if_pos rfl]
      rfl
    · rw [Function.update_of_ne same, if_neg (by simpa using same), Int.add_zero]
      rfl
  | _ => exact (Int.add_zero _).symm

theorem count_noteWait {cv : Nat} {role : AddrNRole} : (noteWait o sh cv role).count on = sh.count on := by
  unfold noteWait
  split
  · exact count_congr rfl rfl
  · rfl

theorem count_noteUnblocked {cv : Nat} {role : AddrNRole} :
    (sh.noteUnblocked cv role).count on = sh.count on := by
  unfold Shared.noteUnblocked
  dsimp only
  split <;> exact count_congr rfl rfl

theorem count_goOnFor {self : Local} {cv : Nat} {role : Option RolePtr} :
    (goOnFor o sh self cv role).1.count on = sh.count on := by
  unfold goOnFor
  split
  · split
    · rfl
    · split
      · unfold chooseRole
        repeat' split
        all_goals exact count_congr rfl rfl
      · rfl
  · rfl

theorem count_noteSignal {cv : Nat} :
    (noteSignal o sh cv).1.count on =
      sh.count on - if on = .cond cv ∧ 0 < sh.condMap cv then 1 else 0 := by
  have counted : (if 0 < sh.condMap cv then sh.addCond cv (-1) else sh).count on =
      sh.count on - if on = .cond cv ∧ 0 < sh.condMap cv then 1 else 0 := by
    by_cases some : 0 < sh.condMap cv
    · rw [if_pos some, count_addCond]
      by_cases same : on = .cond cv
      · rw [if_pos same, if_pos ⟨same, some⟩]
        omega
      · rw [if_neg same, if_neg fun both => same both.1]
        omega
    · rw [if_neg some, if_neg fun both => some both.2, Int.sub_zero]
  unfold noteSignal
  dsimp only
  split
  · exact count_noteUnblocked.trans counted
  · exact counted

/-- **A loop counts its thread when it waits.** -/
theorem enter_count (counted : on.counted = true) (e : Env σ) (loop : Loop) :
    (loop.enter o tid e).1.shared.count on =
      e.shared.count on + ((loop.enter o tid e).2.joins on tid).length := by
  cases got : loop.attempt tid e.shared with
  | some shared =>
    rw [Loop.enter_of_some got, Loop.leave_shared, Loop.leave_finish]
    exact (count_of_books (attempt_books got)).trans (Int.add_zero _).symm
  | none =>
    rw [Loop.enter_of_none got]
    -- the loops on semaphores count; no other loop waits on a counted channel
    have elsewhere : some loop.chan ≠ some on →
        ((Finish.wait (some loop.chan) loop.timeout (.retry loop)).joins on tid).length = 0 := fun other =>
      congrArg List.length (if_neg other)
    have semaphore : ∀ s, loop.chan = .sem s → (loop.beforeWait e.shared).count on =
        (e.shared.addSem s 1).count on → (loop.beforeWait e.shared).count on = e.shared.count on +
          ((Finish.wait (some loop.chan) loop.timeout (.retry loop)).joins on tid).length := by
      intro s isChan adds
      rw [adds, count_addSem]
      by_cases same : on = .sem s
      · rw [if_pos same]
        show _ = _ + ((if some loop.chan = some on then [tid] else []).length : Int)
        rw [if_pos (by rw [isChan, same])]
        rfl
      · rw [if_neg same, elsewhere fun isOn => same ((Option.some.inj isOn).symm.trans isChan)]
        rfl
    have other : (∀ s, loop.chan ≠ .sem s) → (∀ cv, loop.chan ≠ .cond cv) → some loop.chan ≠ some on := by
      intro notSem notCond isOn
      cases on with
      | sem s => exact notSem s (Option.some.inj isOn)
      | cond cv => exact notCond cv (Option.some.inj isOn)
      | _ => cases counted
    cases loop with
    | semWait s => exact semaphore s rfl rfl
    | semTimedWait s _ => exact semaphore s rfl rfl
    | _ =>
      show e.shared.count on = _
      rw [elsewhere (other nofun nofun)]
      exact (Int.add_zero _).symm

/-- A wait on a condition variable counts its thread. -/
theorem condWait_count {cv mu caller : Nat} :
    (condWait S o tid e cv mu caller).1.shared.count on =
      e.shared.count on + ((condWait S o tid e cv mu caller).2.joins on tid).length := by
  have noted : (condWait S o tid e cv mu caller).1.shared.count on = (e.shared.addCond cv 1).count on :=
    (count_congr rfl rfl).trans (@count_noteWait o on (e.shared.addCond cv 1) cv (e.roleOf S tid caller))
  rw [noted, count_addCond]
  show _ = _ + ((if some (Chan.cond cv) = some on then [tid] else []).length : Int)
  by_cases same : on = .cond cv
  · rw [if_pos same, if_pos (by rw [same])]
    rfl
  · rw [if_neg same, if_neg fun isOn => same (Option.some.inj isOn).symm]
    rfl

/-- A turn that writes none of the maps does not wait on a counted channel. -/
theorem awaits_of_quiet {reason : WakeReason} {stage : Stage} (counted : on.counted = true)
    (quiet : stage.notes reason = false) : stage.awaits ≠ some on := by
  intro awaits
  cases stage with
  | called call => cases call <;> cases quiet <;> cases awaits <;> cases counted
  | retry loop => cases loop <;> cases quiet <;> cases awaits <;> cases counted
  | condWoken timed cv mu role =>
    cases awaits
    cases counted
  | joining th =>
    cases awaits
    cases counted
  | _ => cases awaits

theorem joins_of_awaits {finish : Finish} {awaits : Option Chan} (waitsOn : finish.WaitsOn awaits)
    (elsewhere : awaits ≠ some on) : finish.joins on tid = [] := by
  cases finish with
  | wait chan timeout next =>
    have isChan : chan = awaits := waitsOn
    exact if_neg (isChan ▸ elsewhere)
  | _ => rfl

/-- A turn that writes none of the maps. -/
theorem quiet_count {stage : Stage} (counted : on.counted = true)
    (quiet : stage.notes ((S.core e.sched).waits tid).wakeReason = false) :
    (turn S o tid e stage).1.shared.count on =
      e.shared.count on + ((turn S o tid e stage).2.joins on tid).length := by
  rw [joins_of_awaits turn_waitsOn (awaits_of_quiet counted quiet)]
  exact (count_of_books (turn_books quiet)).trans (Int.add_zero _).symm

/-- **What a wrapper's first turn does to the counts**, unless it signals on the channel. -/
theorem callTurn_count (counted : on.counted = true) {call : Call} (notes : call.notes = true)
    (deaf : (Stage.called call).signals ≠ some on) (goes : (callTurn S o tid e call).2 ≠ .exit) :
    (callTurn S o tid e call).1.shared.count on =
      e.shared.count on + ((callTurn S o tid e call).2.joins on tid).length := by
  cases call with
  | condWait cv mu caller => exact condWait_count
  | condTimedWait cv mu caller cur abstime =>
    cases abstime with
    | none => exact condWait_count
    | some abstime =>
      obtain ⟨timeout, waits, shared⟩ := condTimedWait_shared goes
      have finish : (callTurn S o tid e (.condTimedWait cv mu caller cur (some abstime))).2 =
        .wait (some (.cond cv)) timeout (.condWoken true cv mu (e.roleOf S tid caller)) := waits
      have noted : (callTurn S o tid e (.condTimedWait cv mu caller cur (some abstime))).1.shared.count on =
          e.shared.count on + if on = .cond cv then 1 else 0 :=
        (congrArg (Shared.count · on) shared).trans (count_noteWait.trans (count_addCond 1))
      rw [noted, finish]
      show _ = _ + ((if some (Chan.cond cv) = some on then [tid] else []).length : Int)
      by_cases same : on = .cond cv
      · rw [if_pos same, if_pos (by rw [same])]
        rfl
      · rw [if_neg same, if_neg fun isOn => same (Option.some.inj isOn).symm]
        rfl
  | condSignal cv =>
    have other : ¬ (on = .cond cv ∧ 0 < e.shared.condMap cv) := fun both => deaf (by rw [both.1]; rfl)
    have chosen : (callTurn S o tid e (.condSignal cv)).1.shared.count on = e.shared.count on := by
      refine count_goOnFor.trans (count_noteSignal.trans ?_)
      show e.shared.count on - (if on = .cond cv ∧ 0 < e.shared.condMap cv then 1 else 0) = _
      rw [if_neg other]
      exact Int.sub_zero _
    exact chosen.trans (Int.add_zero _).symm
  | condBroadcast cv =>
    have other : on ≠ .cond cv := fun same => deaf (by rw [same]; rfl)
    refine Eq.trans ?_ (Int.add_zero _).symm
    show (condBroadcast S o e cv).1.shared.count on = _
    unfold condBroadcast
    dsimp only
    cases on with
    | cond cv' =>
      have different : cv' ≠ cv := fun same => other (by rw [same])
      show Function.update _ cv 0 cv' = _
      rw [Function.update_of_ne different]
      split <;> rfl
    | sem s =>
      show Shared.semMap _ s = _
      split <;> rfl
    | _ => rfl
  | semWait s => exact enter_count counted e _
  | semTimedWait s cur abstime =>
    revert goes
    show (semTimedWait S o tid e s cur abstime).2 ≠ .exit →
      (semTimedWait S o tid e s cur abstime).1.shared.count on =
        _ + ((semTimedWait S o tid e s cur abstime).2.joins on tid).length
    unfold semTimedWait
    split
    · exact fun _ => enter_count counted e _
    · split
      · exact fun _ => enter_count counted e _
      · exact fun goes => absurd rfl goes
  | semPost s =>
    have other : on ≠ .sem s := fun same => deaf (by rw [same]; rfl)
    refine Eq.trans ?_ (Int.add_zero _).symm
    show (semPost S o e s).1.shared.count on = _
    unfold semPost
    dsimp only
    split
    · refine (count_addSem (-1)).trans ?_
      rw [if_neg other, Int.add_zero]
      exact count_congr rfl rfl
    · exact count_congr rfl rfl
  | _ => cases notes

/-- **What a turn does to the counts**, unless it signals on the channel or ends a wait on it that has
expired. -/
theorem turn_count (counted : on.counted = true) {stage : Stage} (deaf : stage.signals ≠ some on)
    (onTime : ¬ stage.late ((S.core e.sched).waits tid).wakeReason on)
    (goes : (turn S o tid e stage).2 ≠ .exit) :
    (turn S o tid e stage).1.shared.count on =
      e.shared.count on + ((turn S o tid e stage).2.joins on tid).length := by
  cases notes : stage.notes ((S.core e.sched).waits tid).wakeReason with
  | false => exact quiet_count counted notes
  | true =>
    cases stage with
    | called call => exact callTurn_count counted notes deaf goes
    | retry loop =>
      show (loop.resume S o tid e).1.shared.count on = _ + ((loop.resume S o tid e).2.joins on tid).length
      rw [Loop.resume_eq_enter]
      exact enter_count counted e loop
    | condWoken timed cv mu role =>
      obtain ⟨isTimed, expired⟩ := Bool.and_eq_true_iff.mp notes
      have reason := of_decide_eq_true expired
      subst isTimed
      have other : on ≠ .cond cv := fun same => onTime ⟨same, reason⟩
      have taken : (condTimedOut o e cv role).shared.count on = e.shared.count on := by
        have less : (e.shared.addCond cv (-1)).count on = e.shared.count on := by
          rw [count_addCond, if_neg other, Int.add_zero]
        unfold condTimedOut
        dsimp only
        split
        · exact count_noteUnblocked.trans less
        · exact less
      have ret : e.wakeRet S tid = WakeReason.timedout.toInt := congrArg WakeReason.toInt reason
      have turned : turn S o tid e (.condWoken true cv mu role) =
          (Loop.relock cv mu (e.wakeRet S tid)).enter o tid (condTimedOut o e cv role) := by
        show condWoken S o tid e true cv mu role = _
        unfold condWoken
        dsimp only
        rw [if_pos rfl, if_pos ret]
      rw [turned, enter_count counted, taken]
    | _ => cases notes

end Counts

/-! ### For whom a thread goes on -/

theorem satisfyingSem_checked {o : Options} {sh : Shared} {l : Local} {s : Nat}
    (goesOn : (checkCvWaitCnt o sh l).satisfyingSem = some s) : 1 ≤ sh.semMap s := by
  unfold checkCvWaitCnt at goesOn
  dsimp only at goesOn
  split at goesOn
  · rename_i s' isSem
    split at goesOn
    · cases goesOn
    · rw [isSem] at goesOn
      cases goesOn
      omega
  · rename_i isNone
    rw [isNone] at goesOn
    cases goesOn

theorem satisfyingCV_checked {o : Options} {sh : Shared} {l : Local} {cv : Nat}
    (plain : o.wakeamapPlus = false) (goesOn : (checkCvWaitCnt o sh l).satisfyingCV = some cv) :
    1 ≤ sh.condMap cv := by
  cases isCV : l.satisfyingCV with
  | none =>
    simp only [checkCvWaitCnt, plain, isCV, Bool.false_eq_true, if_false] at goesOn
    repeat' split at goesOn
    all_goals simp [isCV] at goesOn
  | some cv' =>
    by_cases few : sh.condMap cv' < 1
    · simp only [checkCvWaitCnt, plain, isCV, Bool.false_eq_true, if_false, if_pos few] at goesOn
      repeat' split at goesOn
      all_goals cases goesOn
    · simp only [checkCvWaitCnt, plain, isCV, Bool.false_eq_true, if_false, if_neg few] at goesOn
      have same : cv' = cv := by
        repeat' split at goesOn
        all_goals simpa [isCV] using goesOn
      rw [← same]
      omega

/-! ### Whether the count is exact -/

namespace Recorder

/-- **The count is the number of threads that wait on the channel.** -/
def Exact (on : Chan) (r : Recorder) : Prop := r.shared.count on = (r.core.waiters on).length

instance (on : Chan) (r : Recorder) : Decidable (Exact on r) := inferInstanceAs (Decidable (_ = _))

/-- **The step lets no wait on the channel expire**: whoever it takes out there, it takes out by a
signal. -/
def Timely (o : Options) (on : Chan) (r : Recorder) (label : Tid × Move) : Prop :=
  ∀ r' ∈ r.step o label, ∀ t ∈ r.core.waiters on, t ∉ r'.core.waitq →
    (r'.core.waits t).wakeReason = .signal

instance (o : Options) (on : Chan) (r : Recorder) (label : Tid × Move) : Decidable (Timely o on r label) :=
  inferInstanceAs (Decidable (∀ _ ∈ _, ∀ _ ∈ _, _))

/-- A thread that is about to go on behind a wait on the channel was signalled. -/
def Unexpired (on : Chan) (r : Recorder) : Prop :=
  ∀ t cv mu role, on = .cond cv → r.spot t = .inside (.condWoken true cv mu role) →
    t ∉ r.core.waitq → (r.core.waits t).wakeReason = .signal

/-- What holds as long as no wait on the channel has expired. -/
structure Booked (on : Chan) (r : Recorder) : Prop where
  sound : Sound r.core r.spot
  exact : Exact on r
  unexpired : Unexpired on r

variable {o : Options} {on : Chan} {r r' : Recorder} {tid : Tid} {stage : Stage}

/-- Without a signal on the channel, its queue keeps its length exactly when nobody there expires. -/
theorem length_iff {c c' : Core} {chan : Option Chan} (nodup : c.waitq.Nodup)
    (ops : Core.Turned chan c c') (deaf : chan ≠ some on) :
    (c'.waiters on).length = (c.waiters on).length ↔
      ∀ t ∈ c.waiters on, t ∉ c'.waitq → (c'.waits t).wakeReason = .signal := by
  constructor
  · intro same t waits gone
    have kept : c'.waiters on = c.waiters on := (waiters_sublist ops).eq_of_length same
    exact absurd (mem_waiters.mp (kept ▸ waits)).1 gone
  · intro timely
    refine congrArg List.length (waiters_turned nodup ops fun t waits => ?_)
    by_contra gone
    obtain ⟨inside, isOn⟩ := mem_waiters.mp waits
    rcases ops.gone t inside gone with ⟨-, -, isChan⟩ | ⟨expired, -⟩
    · exact deaf (isChan.symm.trans isOn)
    · rw [timely t waits gone] at expired
      cases expired

/-- The turn of a step that is timely, as the queue before it is given up sees it. -/
theorem timely_iff_took (took : Took o r tid stage r') {c : Core} (finish : Finish)
    (givenUp : GivenUp tid c finish r'.core (r'.spot tid)) :
    (∀ t ∈ r.core.waiters on, t ∉ r'.core.waitq → (r'.core.waits t).wakeReason = .signal) ↔
      ∀ t ∈ r.core.waiters on, t ∉ c.waitq → (c.waits t).wakeReason = .signal := by
  refine forall₂_congr fun t waits => ?_
  have other : t ≠ tid := fun same => took.ready.1 (same ▸ (mem_waiters.mp waits).1)
  obtain ⟨member, slot⟩ := givenUp.other other
  rw [member, slot]

/-- **The queue after a turn that does not signal on the channel.** -/
theorem length_took (nodup : r.core.waitq.Nodup) (took : Took o r tid stage r')
    (deaf : r.signalled tid stage ≠ some on) :
    (r'.core.waiters on).length =
        (r.core.waiters on).length + ((r.turnOf o tid stage).2.joins on tid).length ↔
      ∀ t ∈ r.core.waiters on, t ∉ r'.core.waitq → (r'.core.waits t).wakeReason = .signal := by
  obtain ⟨c, ops, -, givenUp⟩ := took.turned
  have queue : r'.core.waiters on = c.waiters on ++ (r.turnOf o tid stage).2.joins on tid :=
    givenUp.waiters fun inside => took.ready.1 (ops.kept.subset inside)
  rw [timely_iff_took took _ givenUp, ← length_iff nodup ops deaf, queue, List.length_append]
  exact Nat.add_right_cancel_iff

/-- **The queue after a turn that signals one thread on the channel.** -/
theorem length_signal (nodup : r.core.waitq.Nodup)
    (core : r'.core = (r.core.signal on false).1.incTurnCount) :
    (r'.core.waiters on).length = (r.core.waiters on).length - 1 ↔
      ∀ t ∈ r.core.waiters on, t ∉ r'.core.waitq → (r'.core.waits t).wakeReason = .signal := by
  have signalled := (Core.Turned.refl (some on) nodup).signal rfl false
  have ops := (Core.Turned.refl none signalled.nodup).incTurnCount
  have left := waiters_signal_one nodup on
  have tail : (r.core.waiters on).length - 1 = ((r.core.signal on false).1.waiters on).length := by
    rw [left, List.length_tail]
  rw [tail, core, @length_iff on _ _ none signalled.nodup ops nofun]
  -- the thread that the signal takes is the only one that matters to one side alone
  refine ⟨fun timely t waits gone => ?_, fun timely t waits gone => timely t (waiters_subset signalled waits) gone⟩
  by_cases stays : t ∈ (r.core.signal on false).1.waitq
  · exact timely t (waits_of_stays signalled waits stays) gone
  · rw [ops.same t (Or.inr stays)]
    cases queue : r.core.waiters on with
    | nil =>
      rw [queue] at waits
      cases waits
    | cons first rest =>
      obtain ⟨-, reason, others⟩ := signal_one nodup queue
      rw [queue] at waits
      rcases List.mem_cons.mp waits with rfl | later
      · exact reason
      · exact absurd (others t later) stays

/-- **The queue after a step without a turn.** -/
theorem length_idle {label : Tid × Move} (nodup : r.core.waitq.Nodup)
    (stepped : r.step o label = some r') (noTurn : r.stageOf label.1 label.2 = none)
    (other : on ≠ .idleCond) :
    (r'.core.waiters on).length = (r.core.waiters on).length ↔
      ∀ t ∈ r.core.waiters on, t ∉ r'.core.waitq → (r'.core.waits t).wakeReason = .signal := by
  obtain ⟨c, ops, queue, -, same⟩ := idle_turned nodup stepped noTurn other
  rw [queue, @length_iff on _ _ none nodup ops nofun]
  refine forall₂_congr fun t waits => ?_
  rw [(same t waits).1, (same t waits).2]

/-- A thread that resumes has not expired. -/
theorem not_late (unexpired : Unexpired on r) {move : Move} (ready : r.Ready tid)
    (isStage : r.stageOf tid move = some stage) : ¬ stage.late (r.core.waits tid).wakeReason on := by
  cases stage with
  | condWoken timed cv mu role =>
    cases timed with
    | true =>
      rintro ⟨isOn, expired⟩
      have signalled := unexpired tid cv mu role isOn (inside_of_stageOf isStage nofun) ready.1
      rw [expired] at signalled
      cases signalled
    | false => exact id
  | _ => exact id

/-- A thread that ends signals no counted channel. -/
theorem signalled_of_signals (counted : on.counted = true) (deaf : stage.signals ≠ some on) :
    r.signalled tid stage ≠ some on := by
  unfold signalled
  split
  · intro signals
    obtain ⟨th, -, isThread⟩ := Option.map_eq_some_iff.mp signals
    rw [← isThread] at counted
    cases counted
  · exact deaf

/-- **A turn that does not signal on the channel.** -/
theorem exact_took (counted : on.counted = true) (booked : Booked on r) {move : Move}
    (isStage : r.stageOf tid move = some stage) (took : Took o r tid stage r')
    (deaf : stage.signals ≠ some on) :
    Exact on r' ↔
      ∀ t ∈ r.core.waiters on, t ∉ r'.core.waitq → (r'.core.waits t).wakeReason = .signal := by
  have noted : r'.shared.count on =
      r.shared.count on + ((r.turnOf o tid stage).2.joins on tid).length := by
    rw [took.shared]
    exact turn_count counted deaf (not_late booked.unexpired took.ready isStage) took.goes
  have before : r.shared.count on = (r.core.waiters on).length := booked.exact
  rw [← length_took booked.sound.nodup took (signalled_of_signals counted deaf)]
  unfold Exact
  rw [noted]
  omega

/-- **A turn that signals one thread on the channel.** -/
theorem exact_signal (booked : Booked on r)
    (core : r'.core = (r.core.signal on false).1.incTurnCount)
    (noted : r'.shared.count on = r.shared.count on - if 0 < r.shared.count on then 1 else 0) :
    Exact on r' ↔
      ∀ t ∈ r.core.waiters on, t ∉ r'.core.waitq → (r'.core.waits t).wakeReason = .signal := by
  have before : r.shared.count on = (r.core.waiters on).length := booked.exact
  rw [← length_signal booked.sound.nodup core]
  unfold Exact
  rw [noted]
  split <;> omega

/-- **A broadcast.** -/
theorem exact_broadcast {cv : Nat} (sound : Sound r.core r.spot)
    (took : Took o r tid (.called (.condBroadcast cv)) r') :
    Exact (.cond cv) r' ∧ ∀ t ∈ r.core.waiters (.cond cv), t ∉ r'.core.waitq →
      (r'.core.waits t).wakeReason = .signal := by
  have signalled := (Core.Turned.refl (some (.cond cv)) sound.nodup).signal rfl true
  have ops := (Core.Turned.refl none signalled.nodup).incTurnCount
  have core : r'.core = (r.core.signal (.cond cv) true).1.incTurnCount := by
    have gave := took.gave
    cases gave
    rfl
  have noted : r'.shared.count (.cond cv) = 0 := by
    rw [took.shared]
    exact Function.update_self _ _ _
  refine ⟨?_, fun t waits _ => ?_⟩
  · unfold Exact
    rw [noted, core, waiters_nil ops (waiters_signal_all sound.nodup _)]
    rfl
  · obtain ⟨gone, reason⟩ := (signal_all sound.nodup (.cond cv)).2 t waits
    rw [core, ops.same t (Or.inr gone)]
    exact reason

/-- **A turn leaves an exact count exactly when it is timely.** -/
theorem exact_turn (counted : on.counted = true) (booked : Booked on r) {move : Move}
    (isStage : r.stageOf tid move = some stage) (took : Took o r tid stage r') :
    Exact on r' ↔
      ∀ t ∈ r.core.waiters on, t ∉ r'.core.waitq → (r'.core.waits t).wakeReason = .signal := by
  by_cases deaf : stage.signals = some on
  · cases stage with
    | called call =>
      cases call with
      | condSignal cv =>
        cases deaf
        refine exact_signal booked ?_ ?_
        · have gave := took.gave
          cases gave
          rfl
        · rw [took.shared]
          refine count_goOnFor.trans (count_noteSignal.trans ?_)
          refine congrArg (r.shared.count (.cond cv) - ·) (if_congr ?_ rfl rfl)
          exact and_iff_right rfl
      | condBroadcast cv =>
        cases deaf
        obtain ⟨exactly, timely⟩ := exact_broadcast booked.sound took
        exact iff_of_true exactly timely
      | semPost s =>
        cases deaf
        refine exact_signal booked ?_ ?_
        · have gave := took.gave
          cases gave
          rfl
        · rw [took.shared]
          show Shared.semMap (if 0 < r.shared.semMap s then _ else _) s = _
          show _ = r.shared.semMap s - if 0 < r.shared.semMap s then 1 else 0
          split
          · exact Function.update_self _ _ _
          · exact (Int.sub_zero _).symm
      | _ => cases deaf <;> cases counted
    | lineupWoken opaqueType =>
      cases deaf
      cases counted
    | _ => cases deaf
  · exact exact_took counted booked isStage took deaf

theorem timely_iff {label : Tid × Move} (stepped : r.step o label = some r') :
    Timely o on r label ↔
      ∀ t ∈ r.core.waiters on, t ∉ r'.core.waitq → (r'.core.waits t).wakeReason = .signal := by
  constructor
  · exact fun each => each r' stepped
  · intro each next isNext
    rw [Option.mem_def, stepped] at isNext
    cases isNext
    exact each

/-- **A step leaves an exact count exactly when it is timely.** -/
theorem exact_step {label : Tid × Move} (counted : on.counted = true) (booked : Booked on r)
    (stepped : r.step o label = some r') : Exact on r' ↔ Timely o on r label := by
  have nodup := booked.sound.nodup
  rw [timely_iff stepped]
  cases isStage : r.stageOf label.1 label.2 with
  | some stage => exact exact_turn counted booked isStage (took_of_step nodup stepped isStage)
  | none =>
    have other : on ≠ .idleCond := by
      rintro rfl
      cases counted
    have before : r.shared.count on = (r.core.waiters on).length := booked.exact
    rw [← length_idle nodup stepped isStage other]
    unfold Exact
    rw [(idle_spots nodup stepped isStage).1, before]
    exact Int.ofNat_inj.trans eq_comm

/-- A thread that waits for a condition variable with a deadline waits on its channel. -/
theorem waits_of_condWoken {t : Tid} {timed : Bool} {cv mu : Nat} {role : AddrNRole}
    (sound : Sound r.core r.spot) (there : r.spot t = .inside (.condWoken timed cv mu role))
    (inside : t ∈ r.core.waitq) : t ∈ r.core.waiters (.cond cv) := by
  have parked := sound.parked t inside
  rw [there] at parked
  exact mem_waiters.mpr ⟨inside, parked.2.1⟩

/-- A timely step leaves nobody expired. -/
theorem unexpired_step {label : Tid × Move} (sound : Sound r.core r.spot) (unexpired : Unexpired on r)
    (timely : Timely o on r label) (stepped : r.step o label = some r') : Unexpired on r' := by
  intro t cv mu role isOn there free
  obtain ⟨tid, move⟩ := label
  have nodup := sound.nodup
  -- the thread did not get there by this step, since it would wait now
  have before : r.spot t = .inside (.condWoken true cv mu role) ∧ (t ≠ tid ∨ r.stageOf tid move = none) := by
    cases isStage : r.stageOf tid move with
    | none => exact ⟨((idle_spots nodup stepped isStage).2 t _).mp there, Or.inr rfl⟩
    | some stage =>
      have took := took_of_step nodup stepped isStage
      have other : t ≠ tid := by
        rintro rfl
        obtain ⟨c, -, -, givenUp⟩ := took.turned
        rcases took_inside took there with ⟨-, -, timeout, how⟩ | ⟨barrier, -, isLast⟩
        · rw [how, there] at givenUp
          generalize r'.core = core at givenUp free
          cases givenUp
          exact free (mem_enqueue.mpr (Or.inr rfl))
        · cases isLast
      exact ⟨took.spots t other ▸ there, Or.inl other⟩
  by_cases waited : t ∈ r.core.waitq
  · exact timely r' stepped t (isOn ▸ waits_of_condWoken sound before.1 waited) free
  · have kept : r'.core.waits t = r.core.waits t := by
      by_cases same : t = tid
      · subst same
        have noTurn := before.2.resolve_left fun other => other rfl
        rcases step_cases nodup stepped with ⟨stage, isStage, -⟩ | ⟨-, -, rfl⟩ | ⟨-, -, outside, -⟩ |
          ⟨isWake, -⟩
        · rw [noTurn] at isStage
          cases isStage
        · rfl
        · rw [before.1] at outside
          cases outside
        · exact (step_frame nodup stepped (Or.inr isWake) waited).2
      · exact (step_frame nodup stepped (Or.inl same) waited).2
    rw [kept]
    exact unexpired t cv mu role isOn before.1 waited

/-- **A timely step keeps the books.** -/
theorem booked_step {label : Tid × Move} (counted : on.counted = true) (booked : Booked on r)
    (timely : Timely o on r label) (stepped : r.step o label = some r') : Booked on r' :=
  ⟨sound_step booked.sound stepped, (exact_step counted booked stepped).mpr timely,
    unexpired_step booked.sound booked.unexpired timely stepped⟩

/-- **The count of a channel is exact throughout a run exactly when all its steps are timely.** -/
theorem counts_iff {mainTh : PthreadT} {shared : Shared} {labels : List (Tid × Move)}
    (counted : on.counted = true) (none : shared.count on = 0)
    (ran : exec (step o) (init o mainTh shared) labels = some r) :
    Throughout (step o) (Exact on) (init o mainTh shared) labels ↔
      Along (step o) (Timely o on) (init o mainTh shared) labels := by
  have starts : Booked on (init o mainTh shared) :=
    ⟨sound_run (exec_nil _), none, fun t cv mu role _ there => (nomatch there)⟩
  exact throughout_iff_along (Booked on) (fun s booked => booked.exact)
    (fun s label next booked timely stepped => booked_step counted booked timely stepped)
    (fun s label next booked stepped => exact_step counted booked stepped) starts ran

/-- `finish` executes what follows `putTurn`. -/
theorem after_finish (stepped : r.step o (tid, .finish) = some r') :
    r'.core = r.core ∧ r'.locals tid = afterPutTurn o r.shared (r.locals tid) := by
  simp only [step] at stepped
  split at stepped
  · cases stepped
    exact ⟨rfl, Function.update_self _ _ _⟩
  · cases stepped

/-- **A condition variable is counted exactly** throughout a run exactly when none of its steps lets a wait
on it expire; and then a thread goes on for it only while a thread waits on it. -/
theorem cond_counts_iff (o : Options) (mainTh : PthreadT) (shared : Shared)
    (empty : ∀ cv, shared.condMap cv = 0) (labels : List (Tid × Move)) (r : Recorder)
    (ran : exec (step o) (init o mainTh shared) labels = some r) (cv : Nat) :
    (Throughout (step o) (Exact (.cond cv)) (init o mainTh shared) labels ↔
      Along (step o) (Timely o (.cond cv)) (init o mainTh shared) labels) ∧
    (Along (step o) (Timely o (.cond cv)) (init o mainTh shared) labels →
      o.wakeamapPlus = false → ∀ tid r', r.step o (tid, .finish) = some r' →
        (r'.locals tid).satisfyingCV = some cv → r'.core.waiters (.cond cv) ≠ []) := by
  have exactly := @counts_iff o (.cond cv) r mainTh shared labels rfl (empty cv) ran
  refine ⟨exactly, fun timely plain tid r' stepped goesOn nobody => ?_⟩
  have counts : r.shared.condMap cv = (r.core.waiters (.cond cv)).length :=
    (exactly.mpr timely).final ran
  obtain ⟨sameCore, checked⟩ := after_finish stepped
  rw [checked] at goesOn
  have waiting := satisfyingCV_checked plain goesOn
  rw [counts, ← sameCore, nobody] at waiting
  cases waiting

/-- Threads `2` and `3` wait on the condition variable `9`, thread `3` with a deadline; the main thread
signals it. -/
def signalledOnce : List (Tid × Move) :=
  quick 0 (.createIdle 101) ++ quick 0 (.create 102 3 0) ++ quick 0 (.create 103 3 0) ++
  quick 2 (.mutexLock 8) ++ [(2, .call (.condWait 9 8 0))] ++
  quick 3 (.mutexLock 8) ++ [(3, .call (.condTimedWait 9 8 0 ⟨1, 0⟩ (some ⟨1, 0⟩)))] ++
  [(0, .call (.condSignal 9))]

/-- Thread `3` is counted, and the main thread goes on for it. -/
theorem cond_counts_iff_signalledOnce :
    ∃ r r', exec (step { schedulingPolicy := 2 }) (init { schedulingPolicy := 2 } 100 {}) signalledOnce =
        some r ∧
      r.step { schedulingPolicy := 2 } (0, .finish) = some r' ∧
      (r'.locals 0).satisfyingCV = some 9 ∧ r'.core.waiters (.cond 9) ≠ [] ∧
      Throughout (step { schedulingPolicy := 2 }) (Exact (.cond 9))
        (init { schedulingPolicy := 2 } 100 {}) signalledOnce := by
  have found : (exec (step { schedulingPolicy := 2 }) (init { schedulingPolicy := 2 } 100 {})
      signalledOnce).any (fun r => (r.step { schedulingPolicy := 2 } (0, .finish)).any fun r' =>
        decide ((r'.locals 0).satisfyingCV = some 9)) = true := by
    decide +kernel
  have timely : Along (step { schedulingPolicy := 2 }) (Timely { schedulingPolicy := 2 } (.cond 9))
      (init { schedulingPolicy := 2 } 100 {}) signalledOnce := by
    decide +kernel
  obtain ⟨r, ran, here⟩ := exec_of_any found
  obtain ⟨r', stepped, here⟩ := (Option.any_eq_true _ _).mp here
  have goesOn := of_decide_eq_true here
  have done := cond_counts_iff { schedulingPolicy := 2 } 100 {} (fun _ => rfl) signalledOnce r ran 9
  exact ⟨r, r', ran, stepped, goesOn, done.2 timely rfl 0 r' stepped goesOn, done.1.mpr timely⟩

/-- Thread `2` waits for an instant on the condition variable `9`, until it has expired. -/
def expiredOnCond : List (Tid × Move) :=
  quick 0 (.createIdle 101) ++ quick 0 (.create 102 3 0) ++ quick 2 (.mutexLock 8) ++
  [(2, .call (.condTimedWait 9 8 0 ⟨1, 0⟩ (some ⟨1, 0⟩)))] ++
  (List.replicate 17 (quick 0 .dummySync)).flatten

/-- **Nobody waits, and the count is negative**: a signal comes between the expiry and the resumption. -/
theorem expired_wait_is_counted :
    ∃ r, exec (step {}) (init {} 100 {}) (expiredOnCond ++ quick 0 (.condSignal 9) ++ [(2, .resume)]) =
        some r ∧
      r.core.waiters (.cond 9) = [] ∧ r.shared.condMap 9 = -1 ∧ ¬ Exact (.cond 9) r := by
  have found : (exec (step {}) (init {} 100 {})
      (expiredOnCond ++ quick 0 (.condSignal 9) ++ [(2, .resume)])).any (fun r =>
        decide (r.core.waiters (.cond 9) = [] ∧ r.shared.condMap 9 = -1 ∧ ¬ Exact (.cond 9) r)) = true := by
    decide +kernel
  obtain ⟨r, ran, here⟩ := exec_of_any found
  exact ⟨r, ran, of_decide_eq_true here⟩

/-- **A semaphore is counted exactly** throughout a run exactly when none of its steps lets a wait on it
expire; and then a thread goes on for it only while a thread waits on it. -/
theorem sem_counts_iff (o : Options) (mainTh : PthreadT) (shared : Shared)
    (empty : ∀ sem, shared.semMap sem = 0) (labels : List (Tid × Move)) (r : Recorder)
    (ran : exec (step o) (init o mainTh shared) labels = some r) (sem : Nat) :
    (Throughout (step o) (Exact (.sem sem)) (init o mainTh shared) labels ↔
      Along (step o) (Timely o (.sem sem)) (init o mainTh shared) labels) ∧
    (Along (step o) (Timely o (.sem sem)) (init o mainTh shared) labels →
      ∀ tid r', r.step o (tid, .finish) = some r' →
        (r'.locals tid).satisfyingSem = some sem → r'.core.waiters (.sem sem) ≠ []) := by
  have exactly := @counts_iff o (.sem sem) r mainTh shared labels rfl (empty sem) ran
  refine ⟨exactly, fun timely tid r' stepped goesOn nobody => ?_⟩
  have counts : r.shared.semMap sem = (r.core.waiters (.sem sem)).length :=
    (exactly.mpr timely).final ran
  obtain ⟨sameCore, checked⟩ := after_finish stepped
  rw [checked] at goesOn
  have waiting := satisfyingSem_checked goesOn
  rw [counts, ← sameCore, nobody] at waiting
  cases waiting

/-- Threads `2` and `3` wait on the semaphore `1`; the main thread posts it. -/
def postedOnce : List (Tid × Move) :=
  quick 0 (.createIdle 101) ++ quick 0 (.create 102 3 0) ++ quick 0 (.create 103 3 0) ++
  [(2, .call (.semWait 1)), (3, .call (.semTimedWait 1 ⟨1, 0⟩ (some ⟨1, 0⟩))), (0, .call (.semPost 1))]

/-- Thread `3` is counted, and the main thread goes on for it. -/
theorem sem_counts_iff_postedOnce :
    ∃ r r', exec (step { schedulingPolicy := 2 }) (init { schedulingPolicy := 2 } 100 {}) postedOnce =
        some r ∧
      r.step { schedulingPolicy := 2 } (0, .finish) = some r' ∧
      (r'.locals 0).satisfyingSem = some 1 ∧ r'.core.waiters (.sem 1) ≠ [] ∧
      Throughout (step { schedulingPolicy := 2 }) (Exact (.sem 1))
        (init { schedulingPolicy := 2 } 100 {}) postedOnce := by
  have found : (exec (step { schedulingPolicy := 2 }) (init { schedulingPolicy := 2 } 100 {})
      postedOnce).any (fun r => (r.step { schedulingPolicy := 2 } (0, .finish)).any fun r' =>
        decide ((r'.locals 0).satisfyingSem = some 1)) = true := by
    decide +kernel
  have timely : Along (step { schedulingPolicy := 2 }) (Timely { schedulingPolicy := 2 } (.sem 1))
      (init { schedulingPolicy := 2 } 100 {}) postedOnce := by
    decide +kernel
  obtain ⟨r, ran, here⟩ := exec_of_any found
  obtain ⟨r', stepped, here⟩ := (Option.any_eq_true _ _).mp here
  have goesOn := of_decide_eq_true here
  have done := sem_counts_iff { schedulingPolicy := 2 } 100 {} (fun _ => rfl) postedOnce r ran 1
  exact ⟨r, r', ran, stepped, goesOn, done.2 timely 0 r' stepped goesOn, done.1.mpr timely⟩

/-- Thread `2` waits for an instant on the semaphore `1`; it expires, and waits again. -/
def expiredOnSem : List (Tid × Move) :=
  quick 0 (.createIdle 101) ++ quick 0 (.create 102 3 0) ++
  [(2, .call (.semTimedWait 1 ⟨1, 0⟩ (some ⟨1, 0⟩)))] ++
  (List.replicate 17 (quick 0 .dummySync)).flatten ++ [(2, .resume)] ++ quick 0 .dummySync

/-- **Nobody waits, and the poster goes on**: the thread is counted twice, and both its waits have
expired. -/
theorem expired_sem_wait_is_counted :
    ∃ r r', exec (step { schedulingPolicy := 2 }) (init { schedulingPolicy := 2 } 100 {}) expiredOnSem =
        some r ∧
      exec (step { schedulingPolicy := 2 }) r (quick 0 (.semPost 1)) = some r' ∧
      r.shared.semMap 1 = 2 ∧ r.core.waiters (.sem 1) = [] ∧ ¬ Exact (.sem 1) r ∧
      r'.core.waiters (.sem 1) = [] ∧ (r'.locals 0).satisfyingSem = some 1 := by
  have found : (exec (step { schedulingPolicy := 2 }) (init { schedulingPolicy := 2 } 100 {})
      expiredOnSem).any (fun r => decide (r.shared.semMap 1 = 2 ∧ r.core.waiters (.sem 1) = [] ∧
        ¬ Exact (.sem 1) r ∧ (exec (step { schedulingPolicy := 2 }) r (quick 0 (.semPost 1))).any
          (fun r' => decide (r'.core.waiters (.sem 1) = [] ∧
            (r'.locals 0).satisfyingSem = some 1)) = true)) = true := by
    decide +kernel
  obtain ⟨r, ran, here⟩ := exec_of_any found
  obtain ⟨count, nobody, wrong, goesOn⟩ := of_decide_eq_true here
  obtain ⟨r', posted, here⟩ := exec_of_any goesOn
  exact ⟨r, r', ran, posted, count, nobody, wrong, of_decide_eq_true here⟩

end Recorder

end MinSmt
