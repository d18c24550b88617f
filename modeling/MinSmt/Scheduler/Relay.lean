/-
**The relay of the turn** (`wait_t::wait` and `wait_t::post` of `lib/runtime/record-scheduler.cpp`),
with its busy waiting, its mutexes and its condition variables.

`Sys` hands the turn over in two steps, `post` and `gotTurn`. In the source these are loops: with
`enforce_turn_type` 2 `wait` polls `wakenUp` for `waitCnt` rounds and then sleeps in the condition
variable of its slot, and `post` raises `wakenUp` and signals under the mutex of the slot; with 0 both
use the flag alone, and with 1 a semaphore. `Relays` runs the threads of a process through these loops,
statement by statement: a thread inside `wait` or `post` is at a place of `Parking`, and reads and
writes the slots of the scheduler. The write of `wakenUp = false` at the end of `wait` is unconditional,
as it is in the source.

* `Relays.Fine` — where a thread is in the relay fits where it is in the process.
* `Relays.relay_exact` — the relay implements the hand-over of `Sys`: **it adds no behaviour and loses
  none**.
* `Relays.posted_sleeper_wakes` — a thread that sleeps although it has been posted is woken by the next step of
  the poster.
* `Relays.arrives` — a posted thread needs at most seven steps, its own and those of the thread in the
  mutex of its slot, until it has the turn, and one of the two can always move.
-/

import MinSmt.Library.Parking
import MinSmt.Library.Progress
import MinSmt.Library.Trace
import MinSmt.Scheduler.Exclusion

namespace MinSmt

open MinSmt.Library

/-- `waitCnt`, the rounds of busy waiting of the hybrid relay. -/
def waitCnt : Nat := 500000

/-- How `wait` waits. -/
def Options.relay (o : Options) : Kind :=
  if o.enforceTurnType = 1 then .semaphore else if o.enforceTurnType = 2 then .hybrid waitCnt else .busy

/-- `wakenUp = false`, or the decrement of the semaphore. -/
def WaitT.lower (o : Options) (w : WaitT) : WaitT :=
  if o.enforceTurnType = 1 then { w with sem := w.sem - 1 } else { w with wakenUp := false }

/-- What `wait` reads of a slot: `wakenUp`, or whether the semaphore is above zero. -/
def Sched.posted (o : Options) (s : Sched) (tid : Tid) : Bool :=
  if o.enforceTurnType = 1 then decide (0 < (s.waits tid).sem) else (s.waits tid).wakenUp

namespace Sys

variable (o : Options) (s : Sys) (tid : Tid)

/-- The process has ended. -/
def ended : Bool := s.outcome == some .exited || s.outcome == some .crashed

/-- The place in the relay where a thread starts: at the head of `wait`, or of `post`, or nowhere. -/
def entry : Pc → Parking.Place Tid
  | .waiting _ => .waiting (.start o.relay)
  | .leaving (.posting next) _ _ _ => .posting next (.start o.relay)
  | _ => .outside

/-- What a step of the relay does to the process: a thread that lowers its flag has the turn, and one that
has raised the flag of another thread has given it away. -/
def relayed : Parking.Effect Tid → Sys
  | .quiet => s
  | .lowered =>
    match s.pc tid with
    | .waiting blocking =>
      s.goto tid { s.sched with waits := Function.update s.sched.waits tid ((s.sched.waits tid).lower o) }
        (.turn blocking)
    | _ => s
  | .raised slot =>
    match s.pc tid with
    | .leaving _ _ _ after => s.goto tid (s.sched.post o slot) after.pc
    | _ => s

/-- The action that this is. -/
def committed : Parking.Effect Tid → Option Action
  | .quiet => none
  | .lowered => some .gotTurn
  | .raised _ => some .post

end Sys

/-- A process whose threads are somewhere in the relay. -/
structure Relays where
  sys : Sys
  parking : Parking Tid

/-- What a thread can do. -/
inductive RelayAction
  /-- A step that is neither in `wait` nor in `post`. -/
  | sched (action : Action)
  /-- The next statement of `wait` or `post`. -/
  | relay
  /-- `pthread_cond_wait` returns without a signal. -/
  | spurious
  deriving DecidableEq, Repr

/-- The options of the concrete runs: the hybrid relay. -/
def hybridOptions : Options := { enforceTurnType := 2 }

namespace Relays

variable (o : Options) (r : Relays) (tid : Tid)

/-- A thread that has left the relay goes on in the process, which may take it to the relay again. -/
def settle : Relays :=
  if r.parking.place tid = .outside then
    { r with parking := r.parking.move tid (Sys.entry o (r.sys.pc tid)) }
  else r

/-- **One step of one thread.** -/
def step (label : Tid × RelayAction) : Option Relays :=
  match label.2 with
  | .sched action =>
    if r.parking.place label.1 = .outside then
      (r.sys.step o (label.1, action)).map fun sys => ({ r with sys := sys }).settle o label.1
    else none
  | .relay =>
    if r.sys.ended then none
    else (r.parking.step (r.sys.sched.posted o) label.1).map fun result =>
      Relays.settle o ⟨r.sys.relayed o label.1 result.2, result.1⟩ label.1
  | .spurious =>
    if r.sys.ended then none
    else (r.parking.wake label.1).map fun parking => { r with parking := parking }

/-- What a step does to the process, as an action of it. -/
def commit (label : Tid × RelayAction) : Option (Tid × Action) :=
  match label.2 with
  | .sched action => some (label.1, action)
  | .relay => (r.parking.step (r.sys.sched.posted o) label.1).bind fun result =>
      (Sys.committed result.2).map (label.1, ·)
  | .spurious => none

/-- The process at its start: nobody is in the relay. -/
def init (mainTh : PthreadT) : Relays := ⟨Sys.init o mainTh, Parking.init⟩

end Relays

/-! ### What the rest of the process does to the flags -/

section Flags

variable {o : Options} {s s' : Sys} {tid : Tid} {holder : Option Tid} {action : Action}

theorem Sched.posted_iff {sched : Sched} {t : Tid} : sched.posted o t = true ↔ 0 < (sched.waits t).posts o := by
  unfold Sched.posted WaitT.posts
  split
  · exact decide_eq_true_iff
  · cases (sched.waits t).wakenUp with
    | false => exact iff_of_false nofun (Nat.lt_irrefl 0)
    | true => exact iff_of_true rfl Nat.one_pos

theorem Sched.posted_of_posts_eq {sched sched' : Sched} {t : Tid}
    (same : (sched'.waits t).posts o = (sched.waits t).posts o) : sched'.posted o t = sched.posted o t := by
  rw [Bool.eq_iff_iff, posted_iff, posted_iff, same]

/-- While a thread has the turn, nobody has been posted. -/
theorem Exclusive.unposted (rr : o.RoundRobin) (exclusive : Exclusive o s holder)
    (inTurn : (s.pc tid).inTurn = true) (t : Tid) : s.sched.posted o t = false := by
  have isHolder := exclusive.holder_eq inTurn
  have own := exclusive.one t
  have owed : s.owed o t = (s.sched.waits t).posts o := if_neg (Int.not_lt.mpr rr.nonneg)
  refine Bool.eq_false_iff.mpr fun up => ?_
  have some := Sched.posted_iff.mp up
  rw [owed, isHolder] at own
  by_cases isT : t = tid
  · rw [isT, inTurn, if_pos rfl] at own
    rw [isT] at some
    simp only [Bool.toNat_true] at own
    omega
  · rw [if_neg fun same => isT (Option.some.inj same).symm] at own
    omega

/-- A thread without the turn does not end the process, and does not write the slots except at the end of
`getTurn`. -/
theorem Sys.step_of_outTurn (outTurn : (s.pc tid).inTurn = false)
    (stepped : s.step o (tid, action) = some s') :
    s'.outcome = s.outcome ∧ (action ≠ .gotTurn → s'.sched.waits = s.sched.waits) := by
  have moved := Sys.threadStep_of_step stepped
  have aside : ∀ {action : Action}, s.awayStep tid action = some s' →
      s'.outcome = s.outcome ∧ s'.sched.waits = s.sched.waits := by
    intro action stepped
    cases action with
    | getTurn =>
      cases stepped
      exact ⟨rfl, rfl⟩
    | interProStart =>
      cases stepped
      refine ⟨rfl, ?_⟩
      show (s.sched.interProStart tid).2.waits = _
      unfold Sched.interProStart
      split <;> rfl
    | progEnd =>
      obtain ⟨-, result⟩ := Option.ite_none_right_eq_some.mp stepped
      cases result
      exact ⟨rfl, rfl⟩
    | _ => cases stepped
  unfold Sys.threadStep at moved
  split at moved
  · exact (aside moved).imp_right fun same _ => same
  · exact (aside moved).imp_right fun same _ => same
  · cases moved
    exact ⟨rfl, fun _ => rfl⟩
  · cases moved
    exact ⟨rfl, fun _ => rfl⟩
  · cases moved
    exact ⟨rfl, fun _ => rfl⟩
  · cases moved
    exact ⟨rfl, fun _ => rfl⟩
  · obtain ⟨sched, -, rfl⟩ := Option.map_eq_some_iff.mp moved
    exact ⟨rfl, fun notTake => absurd rfl notTake⟩
  all_goals first | (rename_i here; rw [here] at outTurn; cases outTurn) | cases moved

/-- It holds after every run. -/
theorem Exclusive.exec (mode : o.Serializing) (exclusive : Exclusive o s holder)
    {actions : List (Tid × Action)} (ran : Library.exec (Sys.step o) s actions = some s') :
    ∃ holder', Exclusive o s' holder' := by
  refine exec_invariant (fun s => ∃ holder, Exclusive o s holder) (fun s label s' holds _ stepped => ?_)
    ⟨holder, exclusive⟩ (along_of_labels (fun _ _ => trivial) _) ran
  obtain ⟨holder, exclusive⟩ := holds
  exact exclusive.step mode (Moves.of_step stepped)

/-- **Only `gotTurn` and `post` change a flag.** -/
theorem Exclusive.posted_kept (rr : o.RoundRobin) (exclusive : Exclusive o s holder)
    (notTake : action ≠ .gotTurn) (notPost : action ≠ .post) (stepped : s.step o (tid, action) = some s') :
    s'.sched.posted o = s.sched.posted o := by
  funext t
  cases inTurn : (s.pc tid).inTurn with
  | false => exact Sched.posted_of_posts_eq (by rw [(Sys.step_of_outTurn inTurn stepped).2 notTake])
  | true =>
    -- the flags are down, and stay so
    have down := exclusive.unposted rr inTurn t
    have fewer : (s'.sched.waits t).posts o ≤ (s.sched.waits t).posts o := by
      have counted : (s.sched.counted action).waits = s.sched.waits := by
        unfold Sched.counted
        split <;> rfl
      cases Moves.of_step stepped with
      | crash _ _ sameSched => rw [sameSched]
      | create _ _ _ _ same => rw [same.2.1]
      | move _ _ _ _ _ same =>
        rw [← counted]
        exact posts_le (same.sem t) (same.wakenUp t)
      | take _ isTake => exact absurd isTake notTake
      | post _ _ _ _ _ isPost => exact absurd isPost notPost
      | release tond => exact absurd tond (Int.not_lt.mpr rr.nonneg)
    rw [down]
    refine Bool.eq_false_iff.mpr fun up => ?_
    have some := Sched.posted_iff.mp up
    rw [Sched.posted_iff.mpr (Nat.lt_of_lt_of_le some fewer)] at down
    cases down

end Flags

/-! ### A step of the relay is a step of the process, or none -/

/-- Where a thread is in the process fits where it is in the relay. -/
inductive Sys.Fits (o : Options) : Pc → Parking.Place Tid → Prop
  | outside {pc : Pc} (elsewhere : entry o pc = .outside) : Fits o pc .outside
  | waiting {blocking : Bool} {phase : Parking.Wait} (pending : phase.pending = true) :
      Fits o (.waiting blocking) (.waiting phase)
  | returning {blocking : Bool} : Fits o (.turn blocking) (.waiting .unlocking)
  | posting {next : Tid} {atThreadEnd : Bool} {strategy : Strategy} {after : After} {phase : Parking.Post}
      (pending : phase.pending = true) :
      Fits o (.leaving (.posting next) atThreadEnd strategy after) (.posting next phase)
  | posted {slot : Tid} {after : After} {phase : Parking.Post} (past : phase.pending = false) :
      Fits o after.pc (.posting slot phase)

namespace Sys

variable {o : Options} {s s' : Sys} {tid : Tid}

namespace Fits

variable {pc : Pc} {slot : Tid}

theorem elsewhere (fits : Fits o pc .outside) : entry o pc = .outside := by
  cases fits with
  | outside elsewhere => exact elsewhere

theorem of_pending {phase : Parking.Wait} (fits : Fits o pc (.waiting phase))
    (pending : phase.pending = true) : ∃ blocking, pc = .waiting blocking := by
  cases fits with
  | waiting => exact ⟨_, rfl⟩
  | returning => cases pending

theorem pending_of_waiting {phase : Parking.Wait} (fits : Fits o pc (.waiting phase))
    (waits : ∃ blocking, pc = .waiting blocking) : phase.pending = true := by
  cases fits with
  | waiting pending => exact pending
  | returning =>
    obtain ⟨blocking, isWaiting⟩ := waits
    cases isWaiting

theorem of_posting {phase : Parking.Post} (fits : Fits o pc (.posting slot phase))
    (pending : phase.pending = true) :
    ∃ atThreadEnd strategy after, pc = .leaving (.posting slot) atThreadEnd strategy after := by
  cases fits with
  | posting => exact ⟨_, _, _, rfl⟩
  | posted past =>
    rw [past] at pending
    cases pending

theorem of_posted {phase : Parking.Post} (fits : Fits o pc (.posting slot phase))
    (past : phase.pending = false) : ∃ after : After, pc = after.pc := by
  cases fits with
  | posting pending =>
    rw [past] at pending
    cases pending
  | posted => exact ⟨_, rfl⟩

/-- A sleeper that is woken is still waiting. -/
theorem woken (fits : Fits o pc (.waiting .asleep)) : Fits o pc (.waiting .relocking) := by
  obtain ⟨blocking, rfl⟩ := fits.of_pending rfl
  exact .waiting rfl

end Fits

theorem entry_start (o : Options) (pc : Pc) : entry o pc = .outside ∨
    entry o pc = .waiting (.start o.relay) ∨ ∃ slot, entry o pc = .posting slot (.start o.relay) := by
  unfold entry
  split
  · exact Or.inr (Or.inl rfl)
  · exact Or.inr (Or.inr ⟨_, rfl⟩)
  · exact Or.inl rfl

theorem entry_fits (o : Options) (pc : Pc) : Fits o pc (entry o pc) := by
  have waits : (Parking.Wait.start o.relay).pending = true := by cases o.relay <;> rfl
  have posts : (Parking.Post.start o.relay).pending = true := by cases o.relay <;> rfl
  cases pc with
  | waiting blocking => exact .waiting waits
  | leaving phase atThreadEnd strategy after =>
    cases phase with
    | posting next => exact .posting posts
    | _ => exact .outside rfl
  | _ => exact .outside rfl

theorem step_of_threadStep {action : Action} (running : s.ended = false)
    (stepped : s.threadStep o tid action = some s') : s.step o (tid, action) = some s' := by
  unfold ended at running
  unfold step
  split
  · rename_i isExited
    rw [isExited] at running
    cases running
  · rename_i isCrashed
    rw [isCrashed] at running
    cases running
  · exact stepped

theorem running_of_step {action : Action} (stepped : s.step o (tid, action) = some s') : s.ended = false := by
  unfold step at stepped
  split at stepped
  · cases stepped
  · cases stepped
  · rename_i notExited notCrashed
    unfold ended
    cases outcome : s.outcome with
    | none => rfl
    | some outcome' =>
      cases outcome' with
      | exited => exact absurd outcome notExited
      | crashed => exact absurd outcome notCrashed
      | _ => rfl

/-- To lower a raised flag is to take the post. -/
theorem take_of_posted (rr : o.RoundRobin) (up : s.sched.posted o tid = true) :
    s.sched.take o tid = some { s.sched with
      waits := Function.update s.sched.waits tid ((s.sched.waits tid).lower o) } := by
  have taken : (s.sched.waits tid).take o = some ((s.sched.waits tid).lower o) := by
    unfold Sched.posted at up
    unfold WaitT.take WaitT.lower
    by_cases isOne : o.enforceTurnType = 1
    · rw [if_pos isOne] at up ⊢
      rw [if_pos (of_decide_eq_true up), if_pos isOne]
    · rw [if_neg isOne] at up ⊢
      rw [if_pos (by unfold Options.RoundRobin at rr; omega), if_pos up, if_neg isOne]
  unfold Sched.take
  rw [taken]
  show (if o.enforceTurnType < 0 then _ else _) = _
  rw [if_neg (Int.not_lt.mpr rr.nonneg)]

/-- **A thread that lowers its flag gets the turn.** -/
theorem relayed_lowered (rr : o.RoundRobin) (running : s.ended = false) {blocking : Bool}
    (here : s.pc tid = .waiting blocking) (up : s.sched.posted o tid = true) :
    s.step o (tid, .gotTurn) = some (s.relayed o tid .lowered) ∧
      (s.relayed o tid .lowered).pc = Function.update s.pc tid (.turn blocking) ∧
      (s.relayed o tid .lowered).sched.waits =
        Function.update s.sched.waits tid ((s.sched.waits tid).lower o) := by
  have result : s.relayed o tid .lowered = s.goto tid { s.sched with
      waits := Function.update s.sched.waits tid ((s.sched.waits tid).lower o) } (.turn blocking) := by
    simp only [relayed, here]
  rw [result]
  refine ⟨step_of_threadStep running ?_, rfl, rfl⟩
  simp only [threadStep, here, take_of_posted rr up, Option.map_some]

/-- **A thread that raises the flag of the next one gives the turn away.** -/
theorem relayed_raised (running : s.ended = false) {next : Tid} {atThreadEnd : Bool} {strategy : Strategy}
    {after : After} (here : s.pc tid = .leaving (.posting next) atThreadEnd strategy after) :
    s.step o (tid, .post) = some (s.relayed o tid (.raised next)) ∧
      s.relayed o tid (.raised next) = s.goto tid (s.sched.post o next) after.pc := by
  have result : s.relayed o tid (.raised next) = s.goto tid (s.sched.post o next) after.pc := by
    simp only [relayed, here]
  rw [result]
  refine ⟨step_of_threadStep running ?_, rfl⟩
  simp only [threadStep, here, leaveStep]

end Sys

namespace Relays

open Sys

variable {o : Options} {r r' : Relays} {tid : Tid}

/-- **The invariant of the relay.** -/
structure Fine (o : Options) (r : Relays) : Prop where
  ok : Parking.Ok o.relay (r.sys.sched.posted o) r.parking
  fits : ∀ t, Fits o (r.sys.pc t) (r.parking.place t)
  unborn : ∀ t, r.sys.sched.tm.nthread ≤ t → r.parking.place t = .outside

/-- A thread that leaves the relay goes on where it is. -/
theorem Fine.settle (ok : Parking.Ok o.relay (r.sys.sched.posted o) r.parking)
    (others : ∀ t, t ≠ tid → Fits o (r.sys.pc t) (r.parking.place t))
    (own : r.parking.place tid = .outside ∨ Fits o (r.sys.pc tid) (r.parking.place tid))
    (unborn : ∀ t, r.sys.sched.tm.nthread ≤ t → t ≠ tid ∧ r.parking.place t = .outside) :
    Fine o (r.settle o tid) := by
  unfold Relays.settle
  split
  · rename_i outside
    refine ⟨ok.start outside (entry_start o _), fun t => ?_, fun t new => ?_⟩
    · by_cases same : t = tid
      · rw [same, Parking.move_self]
        exact entry_fits o _
      · rw [Parking.move_of_ne same]
        exact others t same
    · rw [Parking.move_of_ne (unborn t new).1]
      exact (unborn t new).2
  · rename_i inside
    refine ⟨ok, fun t => ?_, fun t new => (unborn t new).2⟩
    by_cases same : t = tid
    · rw [same]
      exact own.resolve_left inside
    · exact others t same

theorem settle_sys : (r.settle o tid).sys = r.sys := by
  unfold Relays.settle
  split <;> rfl

/-- Only a thread in `getTurn` takes the turn. -/
theorem waiting_of_gotTurn {s s' : Sys} (stepped : s.step o (tid, .gotTurn) = some s') :
    ∃ blocking, s.pc tid = .waiting blocking := by
  have moved := threadStep_of_step stepped
  cases here : s.pc tid with
  | waiting blocking => exact ⟨blocking, rfl⟩
  | turn blocking =>
    simp only [Sys.threadStep, here] at moved
    cases blocking <;> cases moved
  | _ =>
    simp only [Sys.threadStep, here] at moved
    cases moved

/-- Only a thread at the end of `next` posts. -/
theorem posting_of_post {s s' : Sys} (stepped : s.step o (tid, .post) = some s') :
    ∃ next atThreadEnd strategy after, s.pc tid = .leaving (.posting next) atThreadEnd strategy after := by
  have moved := threadStep_of_step stepped
  cases here : s.pc tid with
  | leaving phase atThreadEnd strategy after =>
    simp only [Sys.threadStep, here] at moved
    obtain ⟨next, rfl, -⟩ := leaveStep_post moved
    exact ⟨next, atThreadEnd, strategy, after, rfl⟩
  | turn blocking =>
    simp only [Sys.threadStep, here] at moved
    cases blocking <;> cases moved
  | _ =>
    simp only [Sys.threadStep, here] at moved
    cases moved

/-- No thread is forgotten. -/
theorem nthread_le {s s' : Sys} {action : Action} (moves : Moves o s tid action s') :
    s.sched.tm.nthread ≤ s'.sched.tm.nthread := by
  have counted : (s.sched.counted action).tm = s.sched.tm := by
    unfold Sched.counted
    split <;> rfl
  cases moves with
  | crash _ _ sameSched => rw [sameSched]
  | move _ _ _ _ _ same => rw [same.nthread, counted]
  | create _ _ _ nthread => rw [nthread]; exact Nat.le_succ _
  | take _ _ _ taken =>
    obtain ⟨w, -, isSched⟩ := Option.bind_eq_some_iff.mp taken
    split at isSched
    · split at isSched
      · cases isSched
      · rw [← Option.some.inj isSched]
    · rw [← Option.some.inj isSched]
  | post _ _ _ _ posted => rw [posted]; exact Nat.le_refl _
  | release _ _ _ _ _ same isSched => rw [isSched]; exact same.nthread.ge

/-- A thread that does something has been created. -/
theorem Fine.born {holder : Option Tid} (fine : Fine o r) (exclusive : Exclusive o r.sys holder)
    (acts : r.parking.place tid ≠ .outside ∨ r.sys.pc tid ≠ .dead) : ∀ t, r.sys.sched.tm.nthread ≤ t → t ≠ tid := by
  rintro t new rfl
  rcases acts with inside | alive
  · exact inside (fine.unborn t new)
  · exact alive (exclusive.unborn t new)

/-- **A step outside the relay.** -/
theorem Fine.sched (rr : o.RoundRobin) {holder : Option Tid} (fine : Fine o r)
    (exclusive : Exclusive o r.sys holder) (outside : r.parking.place tid = .outside) {action : Action}
    {s : Sys} (stepped : r.sys.step o (tid, action) = some s) :
    Fine o (({ r with sys := s } : Relays).settle o tid) := by
  have elsewhere : entry o (r.sys.pc tid) = .outside := by
    have fits := fine.fits tid
    rw [outside] at fits
    exact fits.elsewhere
  have notTake : action ≠ .gotTurn := by
    rintro rfl
    obtain ⟨blocking, here⟩ := waiting_of_gotTurn stepped
    rw [here] at elsewhere
    cases elsewhere
  have notPost : action ≠ .post := by
    rintro rfl
    obtain ⟨next, atThreadEnd, strategy, after, here⟩ := posting_of_post stepped
    rw [here] at elsewhere
    cases elsewhere
  have moves := Moves.of_step stepped
  have alive : r.sys.pc tid ≠ .dead := by
    intro isDead
    have moved := threadStep_of_step stepped
    simp only [Sys.threadStep, isDead] at moved
    cases moved
  have same := exclusive.posted_kept rr notTake notPost stepped
  refine Fine.settle ?_ (fun t other => ?_) (Or.inl outside) fun t new => ?_
  · show Parking.Ok o.relay (s.sched.posted o) r.parking
    rw [same]
    exact fine.ok
  · by_cases isNew : r.sys.sched.tm.nthread = t
    · show Fits o (s.pc t) (r.parking.place t)
      have wasDead := exclusive.unborn t isNew.le
      have isOutside := fine.unborn t isNew.le
      have fits := fine.fits t
      cases moves with
      | create _ _ pcs =>
        rw [pcs, isNew, Function.update_self, isOutside]
        exact .outside rfl
      | crash _ _ _ samePc => rwa [samePc]
      | move pcs | take _ _ pcs | post _ _ pcs | release _ _ _ pcs => rwa [pcs, Function.update_of_ne other]
    · show Fits o (s.pc t) (r.parking.place t)
      rw [moves.pc_of_ne other isNew]
      exact fine.fits t
  · have old := Nat.le_trans (nthread_le moves) new
    exact ⟨fine.born exclusive (Or.inr alive) t old, fine.unborn t old⟩

/-- **A step in the relay** is `gotTurn`, `post` or nothing to the process. -/
theorem Fine.relay (rr : o.RoundRobin) {holder : Option Tid} (fine : Fine o r)
    (exclusive : Exclusive o r.sys holder) (running : r.sys.ended = false) {parking : Parking Tid}
    {effect : Parking.Effect Tid}
    (stepped : r.parking.step (r.sys.sched.posted o) tid = some (parking, effect)) :
    Fine o (Relays.settle o ⟨r.sys.relayed o tid effect, parking⟩ tid) ∧
      exec (Sys.step o) r.sys ((committed effect).map (tid, ·)).toList =
        some (r.sys.relayed o tid effect) := by
  have one : ∀ {action : Action} {s : Sys}, r.sys.step o (tid, action) = some s →
      exec (Sys.step o) r.sys [(tid, action)] = some s := fun moved => by
    show (r.sys.step o _).bind _ = _
    rw [moved]
    rfl
  have turns := fine.ok.turns stepped
  have own := fine.fits tid
  have inside : r.parking.place tid ≠ .outside := fun outside => by
    unfold Parking.step at stepped
    rw [outside] at stepped
    cases stepped
  -- whatever the effect is, the others stay or are woken
  have settles : ∀ s : Sys, s = r.sys.relayed o tid effect →
      effect.Agrees (r.sys.sched.posted o) (s.sched.posted o) tid →
      (∀ t, t ≠ tid → s.pc t = r.sys.pc t) → s.sched.tm.nthread = r.sys.sched.tm.nthread →
      (parking.place tid = .outside ∨ Fits o (s.pc tid) (parking.place tid)) →
      Fine o (Relays.settle o ⟨r.sys.relayed o tid effect, parking⟩ tid) := by
    rintro s rfl agrees pcs nthread there
    refine Fine.settle (fine.ok.step stepped agrees) (fun t other => ?_) there fun t new => ?_
    · show Fits o ((r.sys.relayed o tid effect).pc t) (parking.place t)
      rw [pcs t other]
      rcases Parking.step_others other stepped with same | ⟨asleep, woken⟩
      · rw [same]
        exact fine.fits t
      · have fits := fine.fits t
        rw [asleep] at fits
        rw [woken]
        exact fits.woken
    · have old : r.sys.sched.tm.nthread ≤ t := nthread.ge.trans new
      have other := fine.born exclusive (Or.inl inside) t old
      refine ⟨other, ?_⟩
      rcases Parking.step_others other stepped with same | ⟨asleep, -⟩
      · exact same.trans (fine.unborn t old)
      · rw [fine.unborn t old] at asleep
        cases asleep
  cases turns with
  | waits here pending there still =>
    refine ⟨settles _ rfl rfl (fun _ _ => rfl) rfl (Or.inr ?_), rfl⟩
    rw [here] at own
    obtain ⟨blocking, isWaiting⟩ := own.of_pending pending
    show Fits o (r.sys.pc tid) _
    rw [isWaiting, there]
    exact .waiting still
  | waited here there => exact ⟨settles _ rfl rfl (fun _ _ => rfl) rfl (Or.inl there), rfl⟩
  | posts here pending there still =>
    refine ⟨settles _ rfl rfl (fun _ _ => rfl) rfl (Or.inr ?_), rfl⟩
    rw [here] at own
    obtain ⟨atThreadEnd, strategy, after, isPosting⟩ := own.of_posting pending
    show Fits o (r.sys.pc tid) _
    rw [isPosting, there]
    exact .posting still
  | posted here past there =>
    refine ⟨settles _ rfl rfl (fun _ _ => rfl) rfl (there.imp_right fun there => ?_), rfl⟩
    rw [here] at own
    obtain ⟨after, isAfter⟩ := own.of_posted past
    show Fits o (r.sys.pc tid) _
    rw [isAfter, there]
    exact .posted rfl
  | lowers here pending isUp there =>
    rw [here] at own
    obtain ⟨blocking, isWaiting⟩ := own.of_pending pending
    obtain ⟨stepped', pcs, waits⟩ := relayed_lowered rr running isWaiting isUp
    refine ⟨settles _ rfl (fun t other => ?_) (fun t other => ?_) ?_ (there.imp_right fun there => ?_),
      one stepped'⟩
    · refine Sched.posted_of_posts_eq ?_
      rw [waits, Function.update_of_ne other]
    · rw [pcs, Function.update_of_ne other]
    · simp only [relayed, isWaiting]
      rfl
    · rw [pcs, Function.update_self, there]
      exact .returning
  | raises here pending there =>
    rw [here] at own
    obtain ⟨atThreadEnd, strategy, after, isPosting⟩ := own.of_posting pending
    obtain ⟨stepped', result⟩ := @relayed_raised o _ _ running _ _ _ _ isPosting
    refine ⟨settles _ rfl ⟨?_, fun t other => ?_⟩ (fun t other => ?_) ?_ (there.imp_right fun there => ?_),
      one stepped'⟩
    · have down := exclusive.unposted rr (by rw [isPosting]; rfl) 
      rw [result]
      refine Sched.posted_iff.mpr ?_
      show 0 < ((Function.update _ _ _ : Tid → WaitT) _).posts o
      rw [Function.update_self, posts_post rr]
      · exact Nat.one_pos
      · refine Nat.eq_zero_of_not_pos fun some => ?_
        have up := Sched.posted_iff.mpr some
        rw [down] at up
        cases up
    · refine Sched.posted_of_posts_eq ?_
      rw [result]
      show ((Function.update _ _ _ : Tid → WaitT) _).posts o = _
      rw [Function.update_of_ne other]
    · rw [result, goto_pc_of_ne other]
    · rw [result]
      rfl
    · rw [result, goto_pc_self, there]
      exact .posted rfl

/-- **Every step keeps the invariant**, and is a step of the process or none. -/
theorem Fine.step (rr : o.RoundRobin) {holder : Option Tid} (fine : Fine o r)
    (exclusive : Exclusive o r.sys holder) {label : Tid × RelayAction} (stepped : r.step o label = some r') :
    Fine o r' ∧ exec (Sys.step o) r.sys (commit o r label).toList = some r'.sys := by
  obtain ⟨tid, action⟩ := label
  cases action with
  | sched action =>
    obtain ⟨outside, result⟩ := Option.ite_none_right_eq_some.mp stepped
    obtain ⟨s, moved, rfl⟩ := Option.map_eq_some_iff.mp result
    refine ⟨fine.sched rr exclusive outside moved, ?_⟩
    rw [settle_sys]
    show (r.sys.step o (tid, action)).bind _ = _
    rw [show r.sys.step o (tid, action) = some s from moved]
    rfl
  | relay =>
    obtain ⟨running, result⟩ := Option.ite_none_left_eq_some.mp stepped
    obtain ⟨⟨parking, effect⟩, moved, rfl⟩ := Option.map_eq_some_iff.mp result
    obtain ⟨fine', same⟩ := fine.relay rr exclusive (by simpa using running) moved
    refine ⟨fine', ?_⟩
    have isCommit : commit o r (tid, .relay) = (committed effect).map (tid, ·) := by
      show (r.parking.step (r.sys.sched.posted o) tid).bind _ = _
      rw [show r.parking.step (r.sys.sched.posted o) tid = some (parking, effect) from moved]
      rfl
    rw [settle_sys, isCommit]
    exact same
  | spurious =>
    obtain ⟨-, result⟩ := Option.ite_none_left_eq_some.mp stepped
    obtain ⟨parking, woke, rfl⟩ := Option.map_eq_some_iff.mp result
    obtain ⟨asleep, isMove⟩ := Option.ite_none_right_eq_some.mp woke
    refine ⟨⟨fine.ok.wake woke, fun t => ?_, fun t new => ?_⟩, rfl⟩
    · rw [← Option.some.inj isMove]
      by_cases same : t = tid
      · have fits := fine.fits t
        rw [same] at fits ⊢
        rw [asleep] at fits
        rw [Parking.move_self]
        exact fits.woken
      · rw [Parking.move_of_ne same]
        exact fine.fits t
    · rw [← Option.some.inj isMove, Parking.move_of_ne]
      · exact fine.unborn t new
      · rintro rfl
        have outside := fine.unborn t new
        rw [show r.parking.place t = _ from asleep] at outside
        cases outside

/-- Nobody is in the relay at first. -/
theorem Fine.initial (o : Options) (mainTh : PthreadT) : Fine o (init o mainTh) := by
  refine ⟨Parking.Ok.initial _ _, fun t => .outside ?_, fun _ _ => rfl⟩
  show entry o (Function.update (fun _ => Pc.dead) mainThreadTid .away t) = .outside
  by_cases isMain : t = mainThreadTid
  · rw [isMain, Function.update_self]
    rfl
  · rw [Function.update_of_ne isMain]
    rfl

/-- **A run of the relay is a run of the process**: of the actions that its steps are. -/
theorem simulates (rr : o.RoundRobin) {mainTh : PthreadT} {labels : List (Tid × RelayAction)}
    (fine : Fine o r) {actions : List (Tid × Action)}
    (reached : exec (Sys.step o) (Sys.init o mainTh) actions = some r.sys)
    (ran : exec (Relays.step o) r labels = some r') :
    Fine o r' ∧
      exec (Sys.step o) (Sys.init o mainTh) (actions ++ trace (Relays.step o) (commit o) r labels) =
        some r'.sys := by
  induction labels generalizing r actions with
  | nil =>
    cases ran
    exact ⟨fine, by rwa [trace, List.append_nil]⟩
  | cons label labels ih =>
    obtain ⟨next, moved, rest⟩ := exec_cons ran
    obtain ⟨holder, exclusive⟩ := Exclusive.run (Or.inl rr) reached
    obtain ⟨fine', committed⟩ := fine.step rr exclusive moved
    have reached' : exec (Sys.step o) (Sys.init o mainTh) (actions ++ (commit o r label).toList) =
        some next.sys := by
      rw [exec_append_eq, reached]
      exact committed
    rw [trace_cons moved, ← List.append_assoc]
    exact ih fine' reached' rest

/-- What holds after a run of the relay. -/
theorem reached (rr : o.RoundRobin) {mainTh : PthreadT} {labels : List (Tid × RelayAction)}
    (ran : exec (Relays.step o) (init o mainTh) labels = some r) :
    Fine o r ∧ exec (Sys.step o) (Sys.init o mainTh)
      (trace (Relays.step o) (commit o) (init o mainTh) labels) = some r.sys :=
  @simulates o _ _ rr mainTh labels (Fine.initial o mainTh) [] rfl ran

/-! ### Every step of the process can be taken through the relay -/

/-- The process with every thread at the start of its way through the relay, and all mutexes free. -/
def rest (o : Options) (s : Sys) : Relays := ⟨s, ⟨entry o ∘ s.pc, fun _ => none⟩⟩

theorem step_relay (running : r.sys.ended = false) {parking : Parking Tid} {effect : Parking.Effect Tid}
    (stepped : r.parking.step (r.sys.sched.posted o) tid = some (parking, effect)) :
    r.step o (tid, .relay) = some (Relays.settle o ⟨r.sys.relayed o tid effect, parking⟩ tid) := by
  simp only [Relays.step, running, stepped, Option.map_some, Bool.false_eq_true, if_false]

/-- A step that the process does not see. -/
theorem step_relay_quiet {now : Sys} (running : now.ended = false) {parking parking' : Parking Tid}
    (inside : parking'.place tid ≠ .outside)
    (stepped : parking.step (now.sched.posted o) tid = some (parking', .quiet)) :
    Relays.step o ⟨now, parking⟩ (tid, .relay) = some ⟨now, parking'⟩ := by
  rw [@step_relay o ⟨now, parking⟩ _ running _ _ stepped, Relays.settle, if_neg inside]
  rfl

/-- A run of the relay leads from one state to another, and the process takes these actions. -/
def Leads (o : Options) (r : Relays) (labels : List (Tid × RelayAction)) (r' : Relays)
    (actions : List (Tid × Action)) : Prop :=
  exec (Relays.step o) r labels = some r' ∧ trace (Relays.step o) (commit o) r labels = actions

namespace Leads

variable {r'' : Relays} {labels labels' : List (Tid × RelayAction)} {actions actions' : List (Tid × Action)}

theorem nil : Leads o r [] r [] := ⟨rfl, rfl⟩

theorem cons {label : Tid × RelayAction} (moved : r.step o label = some r')
    (rest : Leads o r' labels r'' actions) :
    Leads o r (label :: labels) r'' ((commit o r label).toList ++ actions) := by
  refine ⟨?_, by rw [trace_cons moved, rest.2]⟩
  show (r.step o label).bind _ = _
  rw [moved]
  exact rest.1

theorem append (first : Leads o r labels r' actions) (second : Leads o r' labels' r'' actions') :
    Leads o r (labels ++ labels') r'' (actions ++ actions') := by
  refine ⟨?_, by rw [trace_append first.1, first.2, second.2]⟩
  rw [exec_append_eq, first.1]
  exact second.1

/-- A step in the relay first. -/
theorem relay {now : Sys} {parking parking' : Parking Tid} {effect : Parking.Effect Tid}
    (running : now.ended = false)
    (stepped : parking.step (now.sched.posted o) tid = some (parking', effect))
    (rest : Leads o (Relays.settle o ⟨now.relayed o tid effect, parking'⟩ tid) labels r' actions) :
    Leads o ⟨now, parking⟩ ((tid, .relay) :: labels) r'
      (((committed effect).map (tid, ·)).toList ++ actions) := by
  have isCommit : commit o ⟨now, parking⟩ (tid, .relay) = (committed effect).map (tid, ·) := by
    show (parking.step (now.sched.posted o) tid).bind _ = _
    rw [stepped]
    rfl
  rw [← isCommit]
  exact cons (step_relay running stepped) rest

end Leads

/-- The parking of a process at rest, with one thread somewhere else. -/
def onWay (o : Options) (s : Sys) (tid : Tid) (place : Parking.Place Tid) (owner : Tid → Option Tid) :
    Parking Tid := ⟨Function.update (entry o ∘ s.pc) tid place, owner⟩

@[simp] theorem onWay_place (s : Sys) (place : Parking.Place Tid) (owner : Tid → Option Tid) :
    (onWay o s tid place owner).place tid = place := Function.update_self _ _ _

@[simp] theorem onWay_move (s : Sys) (place place' : Parking.Place Tid) (owner : Tid → Option Tid) :
    (onWay o s tid place owner).move tid place' = onWay o s tid place' owner := by
  simp only [onWay, Parking.move, Function.update_idem]

theorem rest_eq (s : Sys) : (rest o s).parking = onWay o s tid (entry o (s.pc tid)) fun _ => none := by
  simp only [rest, onWay]
  exact congrArg (Parking.mk · _) (Function.update_eq_self tid (entry o ∘ s.pc)).symm

/-- A thread that has passed the relay is at rest again. -/
theorem settle_onWay {s s' : Sys} {pc : Pc} (pcs : s'.pc = Function.update s.pc tid pc) :
    Relays.settle o ⟨s', onWay o s tid .outside fun _ => none⟩ tid = rest o s' := by
  rw [Relays.settle, if_pos (onWay_place s _ _)]
  simp only [onWay_move, pcs, Function.update_self]
  simp only [rest, onWay, pcs, Function.comp_update]

/-- One more step of a thread on its way, which the process does not see. -/
theorem Leads.onWay {s now : Sys} (running : now.ended = false) {place : Parking.Place Tid}
    {owner : Tid → Option Tid} {labels : List (Tid × RelayAction)} {actions : List (Tid × Action)}
    (place' : Parking.Place Tid) (owner' : Tid → Option Tid) (inside : place' ≠ .outside)
    (stepped : (onWay o s tid place owner).step (now.sched.posted o) tid =
      some (onWay o s tid place' owner', .quiet))
    (rest : Leads o ⟨now, onWay o s tid place' owner'⟩ labels r' actions) :
    Leads o ⟨now, onWay o s tid place owner⟩ ((tid, .relay) :: labels) r' actions := by
  refine Leads.relay running stepped ?_
  rw [Relays.settle, if_neg (by rwa [onWay_place])]
  exact rest

/-- **A posted thread that comes to `wait` passes it.** -/
theorem wait_passes (rr : o.RoundRobin) {s : Sys} (running : s.ended = false) {blocking : Bool}
    (here : s.pc tid = .waiting blocking) (up : s.sched.posted o tid = true) :
    ∃ labels, Leads o (rest o s) labels (rest o (s.relayed o tid .lowered)) [(tid, .gotTurn)] := by
  obtain ⟨-, pcs, -⟩ := relayed_lowered rr running here up
  have start : rest o s = ⟨s, onWay o s tid (.waiting (.start o.relay)) fun _ => none⟩ := by
    rw [show rest o s = ⟨s, (rest o s).parking⟩ from rfl, @rest_eq _ tid, here]
    rfl
  have lowers : ∀ {phase : Parking.Wait},
      (onWay o s tid (.waiting phase) fun _ => none).step (s.sched.posted o) tid =
        some (onWay o s tid .outside fun _ => none, .lowered) →
      Leads o ⟨s, onWay o s tid (.waiting phase) fun _ => none⟩ [(tid, .relay)]
        (rest o (s.relayed o tid .lowered)) [(tid, .gotTurn)] := by
    intro phase stepped
    refine Leads.relay running stepped ?_
    rw [settle_onWay pcs]
    exact Leads.nil
  rw [start]
  cases o.relay with
  | semaphore =>
    refine ⟨_, lowers ?_⟩
    simp only [Parking.step, onWay_place, Parking.Wait.start, Parking.waitStep, up, if_true, onWay_move]
  | busy =>
    refine ⟨_, Leads.onWay running (.waiting .taking) (fun _ => none)
      (Parking.Place.waiting_ne_outside _) ?_ (lowers ?_)⟩
    · simp only [Parking.step, onWay_place, Parking.Wait.start, Parking.waitStep, up, if_true, onWay_move]
    · simp only [Parking.step, onWay_place, Parking.waitStep, onWay_move]
  | hybrid rounds =>
    refine ⟨_, Leads.onWay running (.waiting .testing) (fun _ => none) (Parking.Place.waiting_ne_outside _) ?_
      (Leads.onWay running (.waiting .taking) (fun _ => none)
        (Parking.Place.waiting_ne_outside _) ?_ (lowers ?_))⟩
    · simp only [Parking.step, onWay_place, Parking.Wait.start, Parking.waitStep, up, true_or, if_true, onWay_move]
    · simp only [Parking.step, onWay_place, Parking.waitStep, up, if_true, onWay_move]
    · simp only [Parking.step, onWay_place, Parking.waitStep, onWay_move]

/-- Nobody sleeps at rest. -/
theorem onWay_signal (s : Sys) {place : Parking.Place Tid} (awake : place ≠ .waiting .asleep)
    (owner : Tid → Option Tid) (slot : Tid) :
    (onWay o s tid place owner).signal slot = onWay o s tid place owner := by
  refine if_neg fun asleep => ?_
  by_cases isT : slot = tid
  · rw [isT, onWay_place] at asleep
    exact awake asleep
  · rw [show (onWay o s tid place owner).place slot = entry o (s.pc slot) from
      Function.update_of_ne isT _ _] at asleep
    have fits := entry_fits o (s.pc slot)
    rcases entry_start o (s.pc slot) with outside | waits | ⟨target, posts⟩
    · rw [outside] at asleep
      cases asleep
    · rw [waits] at asleep
      cases kind : o.relay <;> rw [kind] at asleep <;> cases asleep
    · rw [posts] at asleep
      cases asleep

/-- **A thread that comes to `post` passes it.** -/
theorem post_passes {s : Sys} (running : s.ended = false) {next : Tid} {atThreadEnd : Bool}
    {strategy : Strategy} {after : After} (here : s.pc tid = .leaving (.posting next) atThreadEnd strategy after) :
    ∃ labels, Leads o (rest o s) labels (rest o (s.relayed o tid (.raised next))) [(tid, .post)] := by
  obtain ⟨-, result⟩ := @relayed_raised o _ _ running _ _ _ _ here
  have pcs : (s.relayed o tid (.raised next)).pc = Function.update s.pc tid after.pc := by
    rw [result]
    rfl
  have running' : (s.relayed o tid (.raised next)).ended = false := by
    rw [result]
    exact running
  have start : rest o s = ⟨s, onWay o s tid (.posting next (.start o.relay)) fun _ => none⟩ := by
    rw [show rest o s = ⟨s, (rest o s).parking⟩ from rfl, @rest_eq _ tid, here]
    rfl
  have writes : (onWay o s tid (.posting next .writing) fun _ => none).step (s.sched.posted o) tid =
      some (onWay o s tid .outside fun _ => none, .raised next) →
      Leads o ⟨s, onWay o s tid (.posting next .writing) fun _ => none⟩ [(tid, .relay)]
        (rest o (s.relayed o tid (.raised next))) [(tid, .post)] := by
    intro stepped
    refine Leads.relay running stepped ?_
    rw [settle_onWay pcs]
    exact Leads.nil
  rw [start]
  cases o.relay with
  | semaphore | busy =>
    refine ⟨_, writes ?_⟩
    simp only [Parking.step, onWay_place, Parking.postStep, onWay_move]
  | hybrid rounds =>
    let owner : Tid → Option Tid := Function.update (fun _ => none) next (some tid)
    have freed : Function.update owner next none = fun _ => none := by
      simp only [owner, Function.update_idem]
      exact Function.update_eq_self next (fun _ : Tid => (none : Option Tid))
    have raises : (onWay o s tid (.posting next .raising) owner).step (s.sched.posted o) tid =
        some (onWay o s tid (.posting next .signalling) owner, .raised next) := by
      simp only [Parking.step, onWay_place, Parking.postStep, onWay_move]
    have unlocks : (onWay o s tid (.posting next .unlocking) owner).step
        ((s.relayed o tid (.raised next)).sched.posted o) tid =
        some (onWay o s tid .outside fun _ => none, .quiet) := by
      simp only [Parking.step, onWay_place, Parking.postStep, Parking.unlock, onWay_move]
      rw [← freed]
      rfl
    have awake : (.posting next .signalling : Parking.Place Tid) ≠ .waiting .asleep :=
      Parking.Place.posting_ne_waiting _ _ _
    have leaves : Leads o ⟨s.relayed o tid (.raised next), onWay o s tid (.posting next .unlocking) owner⟩
        [(tid, .relay)] (rest o (s.relayed o tid (.raised next))) [] := by
      refine Leads.relay running' unlocks ?_
      rw [show (s.relayed o tid (.raised next)).relayed o tid .quiet = s.relayed o tid (.raised next) from rfl,
        settle_onWay pcs]
      exact Leads.nil
    have signals : Leads o ⟨s.relayed o tid (.raised next), onWay o s tid (.posting next .signalling) owner⟩
        [(tid, .relay), (tid, .relay)] (rest o (s.relayed o tid (.raised next))) [] := by
      refine Leads.onWay running' (.posting next .unlocking) owner
        (Parking.Place.posting_ne_outside _ _) ?_ leaves
      simp only [Parking.step, onWay_place, Parking.postStep, onWay_signal s awake, onWay_move]
    have posts : Leads o ⟨s, onWay o s tid (.posting next .raising) owner⟩
        [(tid, .relay), (tid, .relay), (tid, .relay)] (rest o (s.relayed o tid (.raised next)))
        [(tid, .post)] := by
      refine Leads.relay running raises ?_
      rw [Relays.settle, if_neg (by rw [onWay_place]; exact Parking.Place.posting_ne_outside _ _)]
      exact signals
    refine ⟨_, Leads.onWay running (.posting next .raising) owner
      (Parking.Place.posting_ne_outside _ _) ?_ posts⟩
    simp only [Parking.step, onWay_place, Parking.Post.start, Parking.postStep, Parking.lock, onWay_move]
    exact if_pos rfl

/-- **Every step of the process can be taken from rest to rest.** -/
theorem realizes (rr : o.RoundRobin) {holder : Option Tid} {s s' : Sys} (exclusive : Exclusive o s holder)
    {label : Tid × Action} (stepped : s.step o label = some s') :
    ∃ labels, Leads o (rest o s) labels (rest o s') [label] := by
  obtain ⟨tid, action⟩ := label
  have running := running_of_step stepped
  by_cases isTake : action = .gotTurn
  · subst isTake
    obtain ⟨blocking, here⟩ := waiting_of_gotTurn stepped
    have up : s.sched.posted o tid = true := by
      have moved := threadStep_of_step stepped
      simp only [Sys.threadStep, here] at moved
      obtain ⟨sched, taken, -⟩ := Option.map_eq_some_iff.mp moved
      obtain ⟨w, tookPost, -⟩ := Option.bind_eq_some_iff.mp taken
      refine Sched.posted_iff.mpr ?_
      have more := (posts_take rr tookPost).1
      omega
    obtain ⟨labels, passes⟩ := wait_passes rr running here up
    have same := (relayed_lowered rr running here up).1
    rw [stepped] at same
    rw [Option.some.inj same]
    exact ⟨_, passes⟩
  by_cases isPost : action = .post
  · subst isPost
    obtain ⟨next, atThreadEnd, strategy, after, here⟩ := posting_of_post stepped
    obtain ⟨labels, passes⟩ := @post_passes o _ _ running _ _ _ _ here
    have same := (@relayed_raised o _ _ running _ _ _ _ here).1
    rw [stepped] at same
    rw [Option.some.inj same]
    exact ⟨_, passes⟩
  have outside : entry o (s.pc tid) = .outside := by
    have moved := threadStep_of_step stepped
    cases here : s.pc tid with
    | waiting blocking =>
      simp only [Sys.threadStep, here] at moved
      split at moved
      all_goals contradiction
    | leaving phase atThreadEnd strategy after =>
      cases phase with
      | posting next =>
        simp only [Sys.threadStep, here, Sys.leaveStep] at moved
        split at moved
        all_goals contradiction
      | _ => rfl
    | _ => rfl
  have moves := Moves.of_step stepped
  have place : (rest o s).parking.place tid = .outside := outside
  refine ⟨[(tid, .sched action)], @Leads.cons o (rest o s) (rest o s') _ _ _ _ ?_ Leads.nil⟩
  simp only [Relays.step, place, if_true]
  rw [show (rest o s).sys = s from rfl, stepped]
  show some (Relays.settle o ⟨s', (rest o s).parking⟩ tid) = some (rest o s')
  rw [Relays.settle, if_pos place]
  have pcs : ∀ t, t ≠ tid → entry o (s'.pc t) = entry o (s.pc t) := by
    intro t other
    by_cases isNew : s.sched.tm.nthread = t
    · have wasDead := exclusive.unborn t isNew.le
      cases moves with
      | create _ _ pcs =>
        rw [pcs, isNew, Function.update_self, wasDead]
        rfl
      | crash _ _ _ samePc => rw [samePc]
      | move pcs | take _ _ pcs | post _ _ pcs | release _ _ _ pcs => rw [pcs, Function.update_of_ne other]
    · rw [moves.pc_of_ne other isNew]
  refine congrArg some (congrArg (Relays.mk s') ?_)
  refine congrArg (Parking.mk · _) (funext fun t => ?_)
  by_cases same : t = tid
  · rw [same]
    exact Function.update_self _ _ _
  · exact (Function.update_of_ne same _ _).trans (pcs t same).symm

/-- Every run of the process is one of the relay. -/
theorem realizes_run (rr : o.RoundRobin) {holder : Option Tid} {s s' : Sys} (exclusive : Exclusive o s holder)
    {actions : List (Tid × Action)} (ran : exec (Sys.step o) s actions = some s') :
    ∃ labels, Leads o (rest o s) labels (rest o s') actions := by
  induction actions generalizing s holder with
  | nil =>
    cases ran
    exact ⟨[], Leads.nil⟩
  | cons label actions ih =>
    obtain ⟨next, moved, later⟩ := exec_cons ran
    obtain ⟨holder', exclusive'⟩ := exclusive.step (Or.inl rr) (Moves.of_step moved)
    obtain ⟨first, leads⟩ := realizes rr exclusive moved
    obtain ⟨second, leads'⟩ := ih exclusive' later
    exact ⟨first ++ second, leads.append leads'⟩

theorem init_eq_rest (o : Options) (mainTh : PthreadT) : init o mainTh = rest o (Sys.init o mainTh) := by
  refine congrArg (Relays.mk _) (congrArg (Parking.mk · _) (funext fun t => ?_))
  show .outside = entry o (Function.update (fun _ => Pc.dead) mainThreadTid .away t)
  by_cases isMain : t = mainThreadTid
  · rw [isMain, Function.update_self]
    rfl
  · rw [Function.update_of_ne isMain]
    rfl

/-- **The relay implements the two-step hand-over, exactly.** Whatever the threads do in the loops, the
mutexes and the condition variables of `wait` and `post`, the process takes the actions that the steps
are, one after the other; and every run of the process is such a run of the relay. -/
theorem relay_exact (rr : o.RoundRobin) (mainTh : PthreadT) :
    (∀ labels r, exec (Relays.step o) (init o mainTh) labels = some r →
      exec (Sys.step o) (Sys.init o mainTh)
        (trace (Relays.step o) (commit o) (init o mainTh) labels) = some r.sys) ∧
    ∀ actions s, exec (Sys.step o) (Sys.init o mainTh) actions = some s →
      ∃ labels r, exec (Relays.step o) (init o mainTh) labels = some r ∧ r.sys = s ∧
        trace (Relays.step o) (commit o) (init o mainTh) labels = actions := by
  refine ⟨fun labels r ran => (reached rr ran).2, fun actions s ran => ?_⟩
  obtain ⟨labels, ran', traced⟩ := realizes_run rr (Exclusive.initial (Or.inl rr) mainTh) ran
  rw [init_eq_rest]
  exact ⟨labels, rest o s, ran', rfl, traced⟩

/-- With the hybrid relay. -/
theorem relay_exact_hybrid :
    (∀ labels r, exec (Relays.step hybridOptions) (init hybridOptions 7) labels = some r →
      exec (Sys.step hybridOptions) (Sys.init hybridOptions 7)
        (trace (Relays.step hybridOptions) (commit hybridOptions) (init hybridOptions 7) labels) =
          some r.sys) ∧
    ∀ actions s, exec (Sys.step hybridOptions) (Sys.init hybridOptions 7) actions = some s →
      ∃ labels r, exec (Relays.step hybridOptions) (init hybridOptions 7) labels = some r ∧ r.sys = s ∧
        trace (Relays.step hybridOptions) (commit hybridOptions) (init hybridOptions 7) labels = actions :=
  relay_exact (by decide) 7

end Relays

/-! ### A process with a posted thread goes on -/

section Running

variable {o : Options} {s s' : Sys} {tid : Tid} {action : Action}

/-- **Where a thread has been posted, the process has not ended.** -/
theorem Sys.running_of_posted (rr : o.RoundRobin) {mainTh : PthreadT} {actions : List (Tid × Action)}
    (ran : exec (Sys.step o) (Sys.init o mainTh) actions = some s) (up : s.sched.posted o tid = true) :
    s.ended = false := by
  have holds : (∃ holder, Exclusive o s holder) ∧ (s.ended = true → ∀ t, s.sched.posted o t = false) := by
    refine exec_invariant
      (fun s => (∃ holder, Exclusive o s holder) ∧ (s.ended = true → ∀ t, s.sched.posted o t = false))
      (fun s label s' holds _ stepped => ?_) ⟨⟨_, Exclusive.initial (Or.inl rr) mainTh⟩, nofun⟩
      (along_of_labels (fun _ _ => trivial) _) ran
    obtain ⟨⟨holder, exclusive⟩, -⟩ := holds
    obtain ⟨tid, action⟩ := label
    refine ⟨exclusive.step (Or.inl rr) (Moves.of_step stepped), fun ended t => ?_⟩
    have running := running_of_step stepped
    have changed : s'.outcome ≠ s.outcome := fun same => by
      unfold Sys.ended at running ended
      rw [same, running] at ended
      cases ended
    have inTurn : (s.pc tid).inTurn = true := by
      by_contra outTurn
      exact changed (step_of_outTurn (by simpa using outTurn) stepped).1
    have notTake : action ≠ .gotTurn := by
      rintro rfl
      obtain ⟨blocking, here⟩ := Relays.waiting_of_gotTurn stepped
      rw [here] at inTurn
      cases inTurn
    have notPost : action ≠ .post := by
      rintro rfl
      obtain ⟨next, atThreadEnd, strategy, after, here⟩ := Relays.posting_of_post stepped
      obtain ⟨sameStep, result⟩ := @relayed_raised o _ _ running _ _ _ _ here
      rw [stepped] at sameStep
      refine changed ?_
      rw [Option.some.inj sameStep, result]
      rfl
    rw [exclusive.posted_kept rr notTake notPost stepped]
    exact exclusive.unposted rr inTurn t
  refine Bool.eq_false_iff.mpr fun ended => ?_
  rw [holds.2 ended tid] at up
  cases up

end Running

namespace Relays

open Sys

variable {o : Options} {r r' : Relays} {tid : Tid}

/-! ### No wake-up is lost -/

/-- **No wake-up is lost**: a thread that sleeps in `pthread_cond_wait` although `wakenUp` is set is
woken by the next step of the thread that has set it. -/
theorem posted_sleeper_wakes (rr : o.RoundRobin) {mainTh : PthreadT} {labels : List (Tid × RelayAction)}
    (ran : exec (Relays.step o) (init o mainTh) labels = some r)
    (asleep : r.parking.place tid = .waiting .asleep) (up : (r.sys.sched.waits tid).wakenUp = true) :
    ∃ poster r', r.parking.place poster = .posting tid .signalling ∧
      r.step o (poster, .relay) = some r' ∧ r'.parking.place tid = .waiting .relocking := by
  obtain ⟨fine, reached⟩ := reached rr ran
  have hybrid : o.enforceTurnType ≠ 1 := fun isOne => by
    have fits := fine.ok.fits tid
    rw [asleep, show o.relay = .semaphore from if_pos isOne] at fits
    cases fits
  have isPosted : r.sys.sched.posted o tid = true := by
    unfold Sched.posted
    rwa [if_neg hybrid]
  obtain ⟨poster, signaller⟩ := fine.ok.signal tid asleep isPosted
  have running := running_of_posted rr reached isPosted
  have other : tid ≠ poster := fun same => by
    rw [← same, asleep] at signaller
    cases signaller
  have stepped : r.parking.step (r.sys.sched.posted o) poster =
      some ((r.parking.signal tid).move poster (.posting tid .unlocking), .quiet) := by
    simp only [Parking.step, signaller, Parking.postStep]
  refine ⟨poster, _, signaller, step_relay running stepped, ?_⟩
  rw [Relays.settle, if_neg (by simp), Parking.move_of_ne other, Parking.signal, if_pos asleep,
    Parking.move_self]

/-! ### The thread that sleeps -/

/-- **A thread that is not posted ends up asleep** when its rounds are over. -/
theorem spins (running : r.sys.ended = false) (n : Nat)
    (here : r.parking.place tid = .waiting (.spinning n)) (down : r.sys.sched.posted o tid = false)
    (free : r.parking.owner tid = none) :
    exec (Relays.step o) r (List.replicate (n + 4) (tid, .relay)) =
      some ⟨r.sys, r.parking.move tid (.waiting .asleep)⟩ := by
  have waits : ∀ {parking : Parking Tid} {phase : Parking.Wait}, parking.place tid = .waiting phase →
      parking.place tid ≠ .outside := by
    intro parking phase there
    rw [there]
    exact Parking.Place.waiting_ne_outside phase
  have one : ∀ {parking parking' : Parking Tid} {m : Nat}, parking'.place tid ≠ .outside →
      parking.step (r.sys.sched.posted o) tid = some (parking', .quiet) →
      exec (Relays.step o) ⟨r.sys, parking⟩ (List.replicate (m + 1) (tid, .relay)) =
        exec (Relays.step o) ⟨r.sys, parking'⟩ (List.replicate m (tid, .relay)) := by
    intro parking parking' m inside stepped
    show (Relays.step o _ (tid, .relay)).bind _ = _
    rw [step_relay_quiet running inside stepped]
    rfl
  have polls : exec (Relays.step o) r (List.replicate n (tid, .relay)) =
      some ⟨r.sys, r.parking.move tid (.waiting (.spinning 0))⟩ := by
    have run := @exec_replicate _ _ (Relays.step o) (tid, .relay)
      (fun k => ⟨r.sys, r.parking.move tid (.waiting (.spinning k))⟩) (fun k => ?_) n
    · rwa [Parking.move_eq_self here] at run
    · refine step_relay_quiet running (waits Parking.move_self) ?_
      simp only [Parking.step, Parking.move_self, Parking.waitStep, down, Bool.false_eq_true, false_or,
        Nat.succ_ne_zero, if_false, Parking.move_move, Nat.add_sub_cancel]
  -- the mutex is free before the thread sleeps, and again when it does
  let owned : Tid → Option Tid := Function.update r.parking.owner tid (some tid)
  let inside : Parking Tid := ⟨(r.parking.move tid (.waiting .looping)).place, owned⟩
  have there : inside.place tid = .waiting .looping := Parking.move_self
  have freed : Function.update owned tid none = r.parking.owner := by
    show Function.update (Function.update r.parking.owner tid (some tid)) tid none = _
    rw [Function.update_idem, ← free, Function.update_eq_self]
  have gets : (r.parking.move tid (.waiting .locking)).step (r.sys.sched.posted o) tid =
      some (inside, .quiet) := by
    simp only [Parking.step, Parking.move_self, Parking.waitStep, Parking.lock, Parking.move_owner, free, if_true,
      Parking.move_move]
    rfl
  have sleeps : inside.step (r.sys.sched.posted o) tid =
      some (r.parking.move tid (.waiting .asleep), .quiet) := by
    simp only [Parking.step, there, Parking.waitStep, down, Bool.false_eq_true, if_false]
    refine congrArg (fun p => some (p, _)) ?_
    show (⟨((r.parking.move tid (.waiting .looping)).move tid (.waiting .asleep)).place,
      Function.update owned tid none⟩ : Parking Tid) = _
    rw [Parking.move_move, freed]
    rfl
  rw [← List.replicate_append_replicate, exec_append_eq, polls]
  show exec (Relays.step o) _ _ = _
  rw [@one _ (r.parking.move tid (.waiting .testing)) 3 (waits Parking.move_self) (by
    simp only [Parking.step, Parking.move_self, Parking.waitStep, or_true, if_true, Parking.move_move])]
  rw [@one _ (r.parking.move tid (.waiting .locking)) 2 (waits Parking.move_self) (by
    simp only [Parking.step, Parking.move_self, Parking.waitStep, down, Bool.false_eq_true, if_false,
      Parking.move_move])]
  rw [one (waits there) gets, one (waits Parking.move_self) sleeps]
  rfl

/-- The main thread creates thread 1, which comes to `wait`. -/
def polling : List (Tid × RelayAction) :=
  [(0, .sched .getTurn), (0, .relay), (0, .relay), (0, .relay), (0, .sched (.create 8 0)),
    (1, .sched .getTurn)]

/-- The main thread gives its turn to thread 1, up to the write of `wakenUp`. -/
def posting : List (Tid × RelayAction) :=
  [(0, .sched (.putTurn .default)), (0, .sched (.checkWakeup [])), (0, .sched .nextRunnable), (0, .relay),
    (0, .relay)]

/-- Thread 1 polls in vain and sleeps; the main thread has just set its flag. -/
theorem posted_sleeper_wakes_hybrid :
    ∃ labels r, exec (Relays.step hybridOptions) (init hybridOptions 7) labels = some r ∧
      r.parking.place 1 = .waiting .asleep ∧ (r.sys.sched.waits 1).wakenUp = true ∧
      ∃ poster r', r.parking.place poster = .posting 1 .signalling ∧
        r.step hybridOptions (poster, .relay) = some r' ∧ r'.parking.place 1 = .waiting .relocking := by
  have found : ((exec (Relays.step hybridOptions) (init hybridOptions 7) polling).any fun r =>
      decide (r.parking.place 1 = .waiting (.spinning waitCnt)) &&
      !r.sys.sched.posted hybridOptions 1 && decide (r.parking.owner 1 = none) && !r.sys.ended &&
      (exec (Relays.step hybridOptions) ⟨r.sys, r.parking.move 1 (.waiting .asleep)⟩ posting).any fun r' =>
        decide (r'.parking.place 1 = .waiting .asleep) && (r'.sys.sched.waits 1).wakenUp) = true := by
    decide +kernel
  obtain ⟨r, ran, facts⟩ := exec_of_any found
  simp only [Bool.and_eq_true, Bool.not_eq_true', decide_eq_true_eq] at facts
  obtain ⟨⟨⟨⟨here, down⟩, free⟩, running⟩, later⟩ := facts
  obtain ⟨r', ran', asleepUp⟩ := exec_of_any later
  obtain ⟨asleep, up⟩ := Bool.and_eq_true_iff.mp asleepUp
  have whole := exec_append_of ran (exec_append_of (spins running waitCnt here down free) ran')
  exact ⟨_, r', whole, of_decide_eq_true asleep, up,
    posted_sleeper_wakes (by decide) whole (of_decide_eq_true asleep) up⟩

/-! ### A posted thread gets its turn -/

/-- The thread has not got the turn yet. It may still be at the end of a post of its own. -/
def pending (tid : Tid) (r : Relays) : Prop := ∃ blocking, r.sys.pc tid = .waiting blocking

/-- The steps that bring a thread closer to its turn: its own, and those of the thread in the mutex of its
slot. -/
def helps (tid : Tid) (r : Relays) (label : Tid × RelayAction) : Bool :=
  decide (label.1 = tid) || decide (r.parking.owner tid = some label.1)

/-- Leaving the relay brings no other thread further away. -/
theorem settle_distance {u : Tid} (other : u ≠ tid) :
    (r.settle o u).parking.distance tid = r.parking.distance tid := by
  have start : ∀ pc, (entry o pc).postDistance = 0 := by
    intro pc
    rcases entry_start o pc with outside | waits | ⟨slot, posts⟩
    · rw [outside]
      rfl
    · rw [waits]
      rfl
    · rw [posts]
      cases o.relay <;> rfl
  unfold Relays.settle
  split
  · rename_i outside
    unfold Parking.distance
    rw [Parking.ownerDistance_moved (by rw [outside]; rfl) (start _), Parking.move_of_ne other.symm]
  · rfl

/-- The states between the post of a thread and its turn. -/
structure Coming (o : Options) (tid : Tid) (r : Relays) : Prop where
  fine : Fine o r
  exclusive : ∃ holder, Exclusive o r.sys holder
  up : r.sys.sched.posted o tid = true

namespace Coming

variable {label : Tid × RelayAction} (rr : o.RoundRobin)

include rr

theorem not_inTurn (coming : Coming o tid r) (t : Tid) : (r.sys.pc t).inTurn = false := by
  obtain ⟨holder, exclusive⟩ := coming.exclusive
  refine Bool.eq_false_iff.mpr fun inTurn => ?_
  have down := exclusive.unposted rr inTurn tid
  rw [coming.up] at down
  cases down

/-- Nobody is about to post: that thread would still have the turn. -/
theorem settled (coming : Coming o tid r) : r.parking.Settled := by
  intro u slot phase there
  refine Bool.eq_false_iff.mpr fun pending => ?_
  have fits := coming.fine.fits u
  rw [there] at fits
  obtain ⟨atThreadEnd, strategy, after, isPosting⟩ := fits.of_posting pending
  have outTurn := coming.not_inTurn rr u
  rw [isPosting] at outTurn
  cases outTurn

omit rr in
theorem inside (coming : Coming o tid r) (here : pending tid r) : r.parking.place tid ≠ .outside := by
  obtain ⟨blocking, isWaiting⟩ := here
  intro outside
  have fits := coming.fine.fits tid
  rw [outside] at fits
  have elsewhere := fits.elsewhere
  rw [isWaiting] at elsewhere
  cases elsewhere

/-- **A step of the thread itself.** -/
theorem own (coming : Coming o tid r) (here : pending tid r) {parking : Parking Tid}
    {effect : Parking.Effect Tid} (running : r.sys.ended = false)
    (stepped : r.parking.step (r.sys.sched.posted o) tid = some (parking, effect))
    (there : pending tid (Relays.settle o ⟨r.sys.relayed o tid effect, parking⟩ tid)) :
    (Relays.settle o ⟨r.sys.relayed o tid effect, parking⟩ tid).parking.distance tid <
      r.parking.distance tid := by
  obtain ⟨blocking, isWaiting⟩ := here
  obtain ⟨blocking', stillWaiting⟩ := there
  rw [settle_sys] at stillWaiting
  have inside : parking.place tid ≠ .outside → parking.distance tid < r.parking.distance tid →
      (Relays.settle o ⟨r.sys.relayed o tid effect, parking⟩ tid).parking.distance tid <
        r.parking.distance tid := by
    intro inside less
    rw [Relays.settle, if_neg inside]
    exact less
  cases place : r.parking.place tid with
  | outside => exact absurd place (coming.inside ⟨blocking, isWaiting⟩)
  | waiting phase =>
    have pending : phase.pending = true := by
      have fits := coming.fine.fits tid
      rw [place] at fits
      exact fits.pending_of_waiting ⟨blocking, isWaiting⟩
    rcases Parking.distance_wait place pending coming.up stepped with rfl | ⟨stays, less⟩
    · rw [(relayed_lowered rr running isWaiting coming.up).2.1, Function.update_self] at stillWaiting
      cases stillWaiting
    · exact inside stays less
  | posting slot phase =>
    rcases Parking.distance_post place (coming.settled rr tid slot phase place) stepped with
      ⟨stays, less⟩ | ⟨outside, less⟩
    · exact inside stays less
    · -- the thread enters `wait`
      have entered : entry o ((r.sys.relayed o tid effect).pc tid) = .waiting (.start o.relay) := by
        rw [stillWaiting]
        rfl
      rw [Relays.settle, if_pos outside]
      refine Nat.lt_of_le_of_lt ?_ less
      unfold Parking.distance
      rw [Parking.ownerDistance_moved (by rw [outside]; rfl) (by rw [entered]; rfl), Parking.move_self, entered,
        Nat.add_comm]
      exact Nat.add_le_add_left (Parking.Wait.start_distance o.relay) _

/-- The flag stays up. -/
theorem stays_up (coming : Coming o tid r) {u : Tid} {parking : Parking Tid} {effect : Parking.Effect Tid}
    (running : r.sys.ended = false)
    (stepped : r.parking.step (r.sys.sched.posted o) u = some (parking, effect))
    (there : ∃ blocking, (r.sys.relayed o u effect).pc tid = .waiting blocking) :
    (r.sys.relayed o u effect).sched.posted o tid = true := by
  have fits := coming.fine.fits u
  cases coming.fine.ok.turns stepped with
  | waits | waited | posts | posted => exact coming.up
  | lowers here pending isUp =>
    rw [here] at fits
    obtain ⟨blocking, isWaiting⟩ := fits.of_pending pending
    obtain ⟨-, pcs, waits⟩ := relayed_lowered rr running isWaiting isUp
    by_cases own : tid = u
    · obtain ⟨blocking', stillWaiting⟩ := there
      rw [pcs, own, Function.update_self] at stillWaiting
      cases stillWaiting
    · refine (Sched.posted_of_posts_eq ?_).trans coming.up
      rw [waits, Function.update_of_ne own]
  | raises here pending =>
    rw [here] at fits
    obtain ⟨atThreadEnd, strategy, after, isPosting⟩ := fits.of_posting pending
    have outTurn := coming.not_inTurn rr u
    rw [isPosting] at outTurn
    cases outTurn

/-- **Every step that does not give the thread its turn** leaves it on its way, and no further away; the
steps that help bring it closer. -/
theorem step (coming : Coming o tid r) (here : pending tid r) (there : pending tid r')
    (stepped : r.step o label = some r') :
    Coming o tid r' ∧
      r'.parking.distance tid + (helps tid r label).toNat ≤ r.parking.distance tid := by
  obtain ⟨holder, exclusive⟩ := coming.exclusive
  obtain ⟨fine', committed⟩ := coming.fine.step rr exclusive stepped
  have exclusive' := exclusive.exec (Or.inl rr) committed
  obtain ⟨u, action⟩ := label
  have outsider : r.parking.place u = .outside → helps tid r (u, action) = false := by
    intro outside
    refine Bool.eq_false_iff.mpr fun helping => ?_
    rcases Bool.or_eq_true_iff.mp helping with own | owner
    · rw [show u = tid from of_decide_eq_true own] at outside
      exact coming.inside here outside
    · have holds := (coming.fine.ok.owner tid u).mp (of_decide_eq_true owner)
      rw [outside] at holds
      cases holds
  have continues : r'.sys = r.sys → Coming o tid r' := fun same =>
    ⟨fine', same ▸ ⟨holder, exclusive⟩, same ▸ coming.up⟩
  cases action with
  | sched action =>
    obtain ⟨outside, result⟩ := Option.ite_none_right_eq_some.mp stepped
    obtain ⟨s, moved, rfl⟩ := Option.map_eq_some_iff.mp result
    have other : u ≠ tid := fun same => coming.inside here (same ▸ outside)
    have outTurn := coming.not_inTurn rr u
    refine ⟨⟨fine', exclusive', ?_⟩, ?_⟩
    · rw [settle_sys]
      have notTake : action ≠ .gotTurn := by
        rintro rfl
        obtain ⟨blocking, isWaiting⟩ := waiting_of_gotTurn moved
        have fits := coming.fine.fits u
        rw [show r.parking.place u = .outside from outside] at fits
        have elsewhere := fits.elsewhere
        rw [isWaiting] at elsewhere
        cases elsewhere
      exact (Sched.posted_of_posts_eq (by rw [(step_of_outTurn outTurn moved).2 notTake])).trans coming.up
    · rw [outsider outside, settle_distance other]
      exact Nat.le_refl _
  | relay =>
    obtain ⟨notEnded, result⟩ := Option.ite_none_left_eq_some.mp stepped
    obtain ⟨⟨parking, effect⟩, moved, rfl⟩ := Option.map_eq_some_iff.mp result
    have running : r.sys.ended = false := by simpa using notEnded
    have up : (Relays.settle o ⟨r.sys.relayed o u effect, parking⟩ u).sys.sched.posted o tid = true := by
      rw [settle_sys]
      refine coming.stays_up rr running moved ?_
      rwa [pending, settle_sys] at there
    refine ⟨⟨fine', exclusive', up⟩, ?_⟩
    by_cases own : u = tid
    · subst own
      have less := coming.own rr here running moved there
      exact Nat.le_trans (Nat.add_le_add_left (Bool.toNat_le _) _) less
    · rw [settle_distance own]
      have less := Parking.distance_other coming.fine.ok (coming.settled rr) own moved
      rwa [helps, decide_eq_false own, Bool.false_or]
  | spurious =>
    obtain ⟨-, result⟩ := Option.ite_none_left_eq_some.mp stepped
    obtain ⟨parking, woke, rfl⟩ := Option.map_eq_some_iff.mp result
    refine ⟨continues rfl, ?_⟩
    by_cases own : u = tid
    · subst own
      have less := Parking.distance_wake woke
      exact Nat.le_trans (Nat.add_le_add_left (Bool.toNat_le _) _) less
    · obtain ⟨asleep, isMove⟩ := Option.ite_none_right_eq_some.mp woke
      have notOwner : r.parking.owner tid ≠ some u := fun owner => by
        have holds := (coming.fine.ok.owner tid u).mp owner
        rw [show r.parking.place u = _ from asleep] at holds
        cases holds
      rw [helps, decide_eq_false own, decide_eq_false notOwner, ← Option.some.inj isMove]
      show (r.parking.move u _).distance tid + 0 ≤ _
      unfold Parking.distance
      rw [Parking.ownerDistance_moved (by rw [show r.parking.place u = _ from asleep]; rfl) rfl,
        Parking.move_of_ne (Ne.symm own)]
      exact Nat.le_refl _

/-- One of the threads that help can move. -/
theorem enabled (coming : Coming o tid r) (here : pending tid r) (running : r.sys.ended = false) :
    ∃ label, helps tid r label = true ∧ (r.step o label).isSome = true := by
  have moves : ∀ u, (r.parking.step (r.sys.sched.posted o) u).isSome = true →
      (r.step o (u, .relay)).isSome = true := by
    intro u enabled
    obtain ⟨⟨parking, effect⟩, stepped⟩ := Option.isSome_iff_exists.mp enabled
    rw [step_relay running stepped]
    rfl
  rcases coming.fine.ok.enabled (coming.settled rr) (coming.inside here) coming.up with
    own | ⟨u, owner, -, enabled⟩
  · exact ⟨(tid, .relay), Bool.or_eq_true_iff.mpr (Or.inl (decide_eq_true rfl)), moves tid own⟩
  · exact ⟨(u, .relay), Bool.or_eq_true_iff.mpr (Or.inr (decide_eq_true owner)), moves u enabled⟩

end Coming

/-- **A posted thread arrives**: as long as it has not got its turn, it can move, or the thread in the
mutex of its slot can; and no run without its turn has more than seven steps of these two, whatever the
other threads do in between. -/
theorem arrives (rr : o.RoundRobin) {mainTh : PthreadT} {labels : List (Tid × RelayAction)}
    (ran : exec (Relays.step o) (init o mainTh) labels = some r) (here : pending tid r)
    (up : r.sys.sched.posted o tid = true) :
    (∃ label, helps tid r label = true ∧ (r.step o label).isSome = true) ∧
      ∀ labels' r', exec (Relays.step o) r labels' = some r' →
        Throughout (Relays.step o) (pending tid) r labels' →
        helpful (Relays.step o) (helps tid) r labels' ≤ 7 := by
  obtain ⟨fine, reached⟩ := reached rr ran
  have coming : Coming o tid r := ⟨fine, Exclusive.run (Or.inl rr) reached, up⟩
  refine ⟨coming.enabled rr here (running_of_posted rr reached up), fun labels' r' ran' throughout => ?_⟩
  refine Nat.le_trans ?_ (@Parking.distance_le _ _ _ _ _ tid fine.ok (coming.settled rr))
  exact helpful_le (Coming o tid) (fun r => r.parking.distance tid)
    (fun r label next coming here there stepped => coming.step rr here there stepped) coming throughout ran'

/-- The main thread at its first `getTurn`. -/
theorem arrives_main :
    ∃ r, exec (Relays.step hybridOptions) (init hybridOptions 7) [(0, .sched .getTurn)] = some r ∧
      (∃ label, helps 0 r label = true ∧ (r.step hybridOptions label).isSome = true) ∧
      ∀ labels' r', exec (Relays.step hybridOptions) r labels' = some r' →
        Throughout (Relays.step hybridOptions) (pending 0) r labels' →
        helpful (Relays.step hybridOptions) (helps 0) r labels' ≤ 7 := by
  have found : ((exec (Relays.step hybridOptions) (init hybridOptions 7) [(0, .sched .getTurn)]).any fun r =>
      decide (r.sys.pc 0 = .waiting false) && r.sys.sched.posted hybridOptions 0) = true := by
    decide +kernel
  obtain ⟨r, ran, facts⟩ := exec_of_any found
  obtain ⟨isWaiting, up⟩ := Bool.and_eq_true_iff.mp facts
  exact ⟨r, ran, arrives (by decide) ran ⟨false, of_decide_eq_true isWaiting⟩ up⟩

end Relays

end MinSmt
