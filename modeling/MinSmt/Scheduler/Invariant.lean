/-
**The invariant of a process around one scheduler.**

`Inv o scope s runq hp holder` says of a process in round-robin mode:

* the queues are laid out as `runq` and `hp` (`Layout`);
* the turn is one token, and `holder` has it: the thread is between `getTurn` and the post of
  `next`, or it has a post it has not taken (`Token`);
* a holder that is not inside `next` is at the front of its queue, and so is the thread that a holder
  inside `next` is about to post;
* where each thread is agrees with its status and with the queue it is in.

`GoodStep` is the condition on a step under which it keeps the invariant (`Inv.step`): the step does
not run `check_wakeup` while a thread of the side set is alone in `hp_runq`, and does not pop from
`hp_runq` a head that still carries its flag. Both can only happen when `hp_runq` is in use, and only
because of external calls.
-/

import MinSmt.Scheduler.Threads

namespace MinSmt

open MinSmt.Library

/-! ### What the position of a thread says -/

namespace Pc

/-- The thread is between `getTurn` and the post of `next`. -/
def inTurn : Pc → Bool
  | .turn _ => true
  | .trying _ => true
  | .leaving _ _ _ _ => true
  | _ => false

/-- The thread is inside `next`. -/
def inNext : Pc → Bool
  | .leaving _ _ _ _ => true
  | _ => false

/-- The thread that is about to be posted. -/
def grantee : Pc → Option Tid
  | .leaving (.posting next) _ _ _ => some next
  | _ => none

/-- The thread is inside `next`, called by a `putTurn` that left its element where it was. -/
def keeps : Pc → Bool
  | .leaving _ _ strategy .away => strategy.keeps
  | _ => false

theorem inTurn_of_keeps {pc : Pc} (keeps : pc.keeps = true) : pc.inTurn = true := by
  cases pc with
  | leaving phase atThreadEnd strategy after => rfl
  | _ => cases keeps

/-- The thread has been created and has not ended. -/
def live : Pc → Bool
  | .dead => false
  | .leaving _ _ _ .dead => false
  | .exited .dead => false
  | _ => true

/-- The thread may stand in `waitq`. -/
def mayWait : Pc → Bool
  | .waiting false => true
  | .idling => true
  | .leaving _ _ _ .getTurn => true
  | .leaving _ _ _ .idling => true
  | .exited .getTurn => true
  | .exited .idling => true
  | _ => false

/-- The thread takes part in no external call and in no non-det region. -/
def internal : Pc → Bool
  | .woken => false
  | .nonDet => false
  | .inCall => false
  | .callDone => false
  | .waiting blocking => !blocking
  | .turn blocking => !blocking
  | .leaving _ _ _ after => after != .inCall && after != .nonDet
  | .exited after => after != .inCall && after != .nonDet
  | _ => true

/-- What the thread's element says of it. -/
def StatusOk : Pc → ThdStatus → Prop
  | .turn false, status => status = .runningReg
  | .trying _, status => status = .runningReg
  | .turn true, status => status = .runningInterPro
  | .waiting true, status => status = .runningInterPro
  | .inCall, status => status = .interProStop
  | .leaving _ _ _ .inCall, status => status = .interProStop
  | .exited .inCall, status => status = .interProStop
  | _, status => status = .runnable ∨ status = .runningReg

/-- A thread that may run is let run. -/
theorem StatusOk.granted {pc : Pc} {status : ThdStatus} (fits : pc.StatusOk status) :
    pc.StatusOk (if status = .runnable then .runningReg else status) := by
  by_cases runnable : status = .runnable
  · subst runnable
    rw [if_pos rfl]
    cases pc with
    | waiting blocking =>
      cases blocking with
      | false => exact Or.inr rfl
      | true => cases fits
    | turn blocking => cases blocking <;> cases fits
    | leaving phase atThreadEnd strategy after =>
      cases after with
      | inCall => cases fits
      | _ => exact Or.inr rfl
    | exited after =>
      cases after with
      | inCall => cases fits
      | _ => exact Or.inr rfl
    | trying cur => cases fits
    | inCall => cases fits
    | _ => exact Or.inr rfl
  · rwa [if_neg runnable]

/-- Without external calls every thread is runnable or running. -/
theorem StatusOk.internal {pc : Pc} {status : ThdStatus} (fits : pc.StatusOk status)
    (inside : pc.internal = true) : status = .runnable ∨ status = .runningReg := by
  cases pc with
  | waiting blocking =>
    cases blocking with
    | false => exact fits
    | true => cases inside
  | turn blocking =>
    cases blocking with
    | false => exact Or.inr fits
    | true => cases inside
  | leaving phase atThreadEnd strategy after =>
    cases after with
    | inCall => cases inside
    | _ => exact fits
  | exited after =>
    cases after with
    | inCall => cases inside
    | _ => exact fits
  | trying cur => exact Or.inr fits
  | inCall => cases inside
  | _ => exact fits

end Pc

/-- The status of a thread that was let run. -/
def Granted (status : ThdStatus) : Prop := status = .runningReg ∨ status = .runningInterPro

/-- The posts a slot holds. -/
def WaitT.posts (o : Options) (w : WaitT) : Nat :=
  if o.enforceTurnType = 1 then w.sem else w.wakenUp.toNat

/-- **The turn is one token.** -/
def Token (o : Options) (waits : Tid → WaitT) (pc : Tid → Pc) (holder : Option Tid) : Prop :=
  ∀ t, (waits t).posts o + (pc t).inTurn.toNat = if holder = some t then 1 else 0

/-- The runs an invariant is about. -/
structure Scope where
  /-- The turn counter does not come near its range. -/
  bounded : Prop
  /-- There are no external calls and no non-det regions. -/
  internal : Prop

/-- **The invariant.** In bounded runs it includes what `selfcheck` tests of the waiting threads. -/
structure Inv (o : Options) (scope : Scope) (s : Sys) (runq hp : List Tid) (holder : Option Tid) :
    Prop where
  layout : Sched.Layout o [] s.sched runq hp
  token : Token o s.sched.waits s.pc holder
  lost : holder = none → s.outcome = some .invalidTid ∨
    (s.outcome = some .threadExited ∧ s.idleDone = true)
  front : ∀ t, holder = some t → (s.pc t).inNext = false →
    s.sched.AtFront runq hp t ∧ Granted (s.sched.elems t).status
  next : ∀ t n, holder = some t → (s.pc t).grantee = some n →
    s.sched.AtFront runq hp n ∧ Granted (s.sched.elems n).status
  kept : ∀ t, (s.pc t).keeps = true → s.sched.front t = some t
  live : ∀ t, s.sched.Live t ↔ (s.pc t).live = true
  waiting : ∀ t ∈ s.sched.waitq, (s.pc t).mayWait = true
  status : ∀ t, (s.pc t).StatusOk (s.sched.elems t).status
  settled : ∀ t cur, s.pc t = .trying cur → t ∉ s.sched.interProWakeupTids
  back : ∀ t, s.pc t = .woken → t ∈ s.sched.interProWakeupTids ∨ t ∉ s.sched.removed
  slots : scope.bounded → ∀ t ∈ s.sched.waitq,
    (s.sched.waits t).chan ≠ none ∨ (s.sched.waits t).timeout ≠ forever
  inside : scope.internal →
    (∀ t, (s.pc t).internal = true) ∧ s.sched.interProWakeupTids = []

namespace Sys

variable {s : Sys} {sched : Sched} {pc : Pc} {tid : Tid}

@[simp] theorem goto_pc_self : (s.goto tid sched pc).pc tid = pc := Function.update_self _ _ _

theorem goto_pc_of_ne {t : Tid} (other : t ≠ tid) : (s.goto tid sched pc).pc t = s.pc t :=
  Function.update_of_ne other _ _

end Sys

/-! ### The token -/

section Posts

variable {o : Options} (rr : o.RoundRobin)

include rr

theorem Options.RoundRobin.nonneg : 0 ≤ o.enforceTurnType := by
  unfold Options.RoundRobin at rr
  omega

theorem posts_post (w : WaitT) (none : w.posts o = 0) : (w.post o).posts o = 1 := by
  unfold WaitT.posts at none ⊢
  unfold WaitT.post
  rcases rr with isZero | isOne | isTwo
  · rw [if_neg (by omega), if_neg (by omega), if_pos (by omega)]
    rfl
  · rw [if_pos isOne] at none ⊢
    rw [if_pos isOne]
    show w.sem + 1 = 1
    rw [none]
  · rw [if_neg (by omega), if_neg (by omega), if_pos (by omega)]
    rfl

/-- Only a post can be taken, and it is gone then. -/
theorem posts_take {w w' : WaitT} (taken : w.take o = some w') :
    w.posts o = w'.posts o + 1 ∧ w'.chan = w.chan ∧ w'.timeout = w.timeout ∧
      w'.wokenUpFromHpQueueFlag = w.wokenUpFromHpQueueFlag := by
  unfold WaitT.take at taken
  unfold WaitT.posts
  by_cases isOne : o.enforceTurnType = 1
  · rw [if_pos isOne] at taken
    rw [if_pos isOne, if_pos isOne]
    split at taken
    · cases taken
      refine ⟨?_, rfl, rfl, rfl⟩
      show w.sem = w.sem - 1 + 1
      omega
    · cases taken
  · rw [if_neg isOne, if_pos (by unfold Options.RoundRobin at rr; omega)] at taken
    rw [if_neg isOne, if_neg isOne]
    split at taken
    · rename_i posted
      cases taken
      refine ⟨?_, rfl, rfl, rfl⟩
      rw [posted]
      rfl
    · cases taken

end Posts

theorem posts_le {o : Options} {w w' : WaitT} (sem : w'.sem = w.sem)
    (wakenUp : w'.wakenUp = true → w.wakenUp = true) : w'.posts o ≤ w.posts o := by
  unfold WaitT.posts
  split
  · exact sem.le
  · cases posted : w'.wakenUp with
    | false => exact Nat.zero_le _
    | true => rw [wakenUp posted]

namespace Token

variable {o : Options} {waits waits' : Tid → WaitT} {pc : Tid → Pc} {holder : Option Tid}
  {tid : Tid}

/-- A thread in its turn is the holder. -/
theorem holder_eq (token : Token o waits pc holder) (inTurn : (pc tid).inTurn = true) :
    holder = some tid := by
  have own := token tid
  rw [inTurn] at own
  by_contra other
  rw [if_neg other] at own
  simp at own

/-- A thread with a post is the holder. -/
theorem holder_of_posts (token : Token o waits pc holder) (posted : 0 < (waits tid).posts o) :
    holder = some tid := by
  have own := token tid
  by_contra other
  rw [if_neg other] at own
  omega

/-- **The holder moves and stays in its turn.** -/
theorem move (token : Token o waits pc (some tid)) (inTurn : (pc tid).inTurn = true)
    (fewer : ∀ t, (waits' t).posts o ≤ (waits t).posts o) {p : Pc} (still : p.inTurn = true) :
    Token o waits' (Function.update pc tid p) (some tid) := by
  intro t
  have own := token t
  have few := fewer t
  by_cases same : t = tid
  · subst same
    rw [Function.update_self, still, if_pos rfl]
    rw [inTurn, if_pos rfl] at own
    simp only [Bool.toNat_true] at own ⊢
    omega
  · rw [Function.update_of_ne same, if_neg fun eq => same (Option.some.inj eq).symm]
    rw [if_neg fun eq => same (Option.some.inj eq).symm] at own
    omega

/-- A thread moves outside of any turn. -/
theorem outside (token : Token o waits pc holder) (before : (pc tid).inTurn = false)
    (same : ∀ t, (waits' t).posts o = (waits t).posts o) {p : Pc} (after : p.inTurn = false) :
    Token o waits' (Function.update pc tid p) holder := by
  intro t
  rw [same t, ← token t]
  by_cases isTid : t = tid
  · subst isTid
    rw [Function.update_self, after, before]
  · rw [Function.update_of_ne isTid]

end Token

/-! ### The threads that do not move -/

namespace Inv

open Sched Sys

variable {o : Options} {scope : Scope} {s : Sys} {runq hp runq' hp' : List Tid}
  {holder : Option Tid} {tid : Tid} {sched : Sched} {p : Pc}

/-- A thread back from `wakeup` stays visible to the scheduler when another thread moves. -/
theorem back_of_moved (inv : Inv o scope s runq hp holder) {actor : Tid}
    (moved : Moved actor s.sched sched) {t : Tid} (other : t ≠ actor) (woken : s.pc t = .woken) :
    t ∈ sched.interProWakeupTids ∨ t ∉ sched.removed := by
  have awake : (s.sched.elems t).status ≠ .interProStop := by
    have fits := inv.status t
    rw [woken] at fits
    rcases fits with isRunnable | isReg
    · rw [isRunnable]
      decide
    · rw [isReg]
      decide
  rcases inv.back t woken with side | here
  · exact moved.back t other side awake
  · refine Or.inr fun removed => ?_
    rcases moved.removed t other removed with before | stopped
    · exact here before
    · exact awake stopped

theorem holder_eq (inv : Inv o scope s runq hp holder) (inTurn : (s.pc tid).inTurn = true) :
    holder = some tid := inv.token.holder_eq inTurn

/-- No thread takes part in an external call after a step that is not one. -/
theorem inside_goto (inv : Inv o scope s runq hp holder)
    (fewer : ∀ t ∈ sched.interProWakeupTids, t ∈ s.sched.interProWakeupTids)
    (home : scope.internal → p.internal = true) (internal : scope.internal) :
    (∀ t, ((s.goto tid sched p).pc t).internal = true) ∧ sched.interProWakeupTids = [] := by
  refine ⟨fun t => ?_, ?_⟩
  · by_cases same : t = tid
    · rw [same, goto_pc_self]
      exact home internal
    · rw [goto_pc_of_ne same]
      exact (inv.inside internal).1 t
  · refine List.eq_nil_iff_forall_not_mem.mpr fun t inside => ?_
    have before := fewer t inside
    rw [(inv.inside internal).2] at before
    exact List.not_mem_nil before

/-- Nobody but the holder is inside `next`. -/
theorem not_keeps (inv : Inv o scope s runq hp holder) {t : Tid} (other : holder ≠ some t) :
    (s.pc t).keeps = false := by
  by_contra keeps
  exact other (inv.holder_eq (Pc.inTurn_of_keeps (by simpa using keeps)))

/-! ### When one thread moves

A thread's place and what the scheduler says of it fit together: of the thread that moves this is to be
shown, and of the others only what the scheduler has changed.
-/

theorem live_goto (inv : Inv o scope s runq hp holder)
    (others : ∀ t, t ≠ tid → (sched.Live t ↔ s.sched.Live t)) (own : sched.Live tid ↔ p.live = true)
    (t : Tid) : sched.Live t ↔ ((s.goto tid sched p).pc t).live = true := by
  by_cases same : t = tid
  · rw [same, goto_pc_self]
    exact own
  · rw [goto_pc_of_ne same]
    exact (others t same).trans (inv.live t)

theorem waiting_goto (inv : Inv o scope s runq hp holder)
    (others : ∀ t, t ≠ tid → t ∈ sched.waitq → t ∈ s.sched.waitq)
    (own : tid ∈ sched.waitq → p.mayWait = true) (t : Tid) (inside : t ∈ sched.waitq) :
    ((s.goto tid sched p).pc t).mayWait = true := by
  by_cases same : t = tid
  · rw [same, goto_pc_self]
    exact own (same ▸ inside)
  · rw [goto_pc_of_ne same]
    exact inv.waiting t (others t same inside)

theorem status_goto (others : ∀ t, t ≠ tid → (s.pc t).StatusOk (sched.elems t).status)
    (own : p.StatusOk (sched.elems tid).status) (t : Tid) :
    ((s.goto tid sched p).pc t).StatusOk (sched.elems t).status := by
  by_cases same : t = tid
  · rw [same, goto_pc_self]
    exact own
  · rw [goto_pc_of_ne same]
    exact others t same

theorem settled_goto (inv : Inv o scope s runq hp holder)
    (fewer : ∀ t, t ≠ tid → t ∈ sched.interProWakeupTids → t ∈ s.sched.interProWakeupTids)
    (own : ∀ cur, p = .trying cur → tid ∉ sched.interProWakeupTids) (t : Tid) (cur : Option Tid)
    (isTrying : (s.goto tid sched p).pc t = .trying cur) : t ∉ sched.interProWakeupTids := by
  by_cases same : t = tid
  · rw [same, goto_pc_self] at isTrying
    rw [same]
    exact own cur isTrying
  · rw [goto_pc_of_ne same] at isTrying
    exact fun inside => inv.settled t cur isTrying (fewer t same inside)

theorem back_goto
    (others : ∀ t, t ≠ tid → s.pc t = .woken → t ∈ sched.interProWakeupTids ∨ t ∉ sched.removed)
    (own : p = .woken → tid ∈ sched.interProWakeupTids ∨ tid ∉ sched.removed) (t : Tid)
    (woken : (s.goto tid sched p).pc t = .woken) :
    t ∈ sched.interProWakeupTids ∨ t ∉ sched.removed := by
  by_cases same : t = tid
  · rw [same, goto_pc_self] at woken
    rw [same]
    exact own woken
  · rw [goto_pc_of_ne same] at woken
    exact others t same woken

/-- When the holder moves, nobody else is inside `next`. -/
theorem kept_goto (inv : Inv o scope s runq hp (some tid))
    (own : p.keeps = true → sched.front tid = some tid) (t : Tid)
    (keeps : ((s.goto tid sched p).pc t).keeps = true) : sched.front t = some t := by
  by_cases same : t = tid
  · rw [same, goto_pc_self] at keeps
    rw [same]
    exact own keeps
  · rw [goto_pc_of_ne same, inv.not_keeps fun eq => same (Option.some.inj eq).symm] at keeps
    cases keeps

/-! ### The holder's steps -/

/-- **The holder moves and stays in its turn.** -/
theorem move (inv : Inv o scope s runq hp holder) (inTurn : (s.pc tid).inTurn = true)
    (layout : Layout o [] sched runq' hp') (moved : Moved tid s.sched sched)
    (still : p.inTurn = true) (noGrantee : p.grantee = none)
    (front : p.inNext = false → sched.AtFront runq' hp' tid ∧ Granted (sched.elems tid).status)
    (kept : p.keeps = true → sched.front tid = some tid)
    (live : sched.Live tid ↔ p.live = true) (waiting : tid ∈ sched.waitq → p.mayWait = true)
    (status : p.StatusOk (sched.elems tid).status)
    (settled : ∀ cur, p = .trying cur → tid ∉ sched.interProWakeupTids)
    (slot : scope.bounded → tid ∈ sched.waitq →
      (sched.waits tid).chan ≠ none ∨ (sched.waits tid).timeout ≠ forever)
    (home : scope.internal → p.internal = true) :
    Inv o scope (s.goto tid sched p) runq' hp' (some tid) := by
  have isHolder := inv.holder_eq inTurn
  subst isHolder
  refine ⟨layout, ?_, fun noHolder => (Option.some_ne_none tid noHolder).elim, ?_, ?_,
    inv.kept_goto kept, inv.live_goto moved.live live, inv.waiting_goto moved.waiting waiting,
    status_goto (fun t other => ?_) status, inv.settled_goto (fun t _ => moved.wakeups t) settled,
    back_goto (fun t => inv.back_of_moved moved) (fun woken => ?_), ?_,
    inv.inside_goto moved.wakeups home⟩
  · exact inv.token.move inTurn (fun t => posts_le (moved.sem t) (moved.wakenUp t)) still
  · intro t isTid notNext
    cases isTid
    rw [goto_pc_self] at notNext
    exact front notNext
  · intro t n isTid grantee
    cases isTid
    rw [goto_pc_self, noGrantee] at grantee
    cases grantee
  · rw [moved.status t other]
    exact inv.status t
  · rw [woken] at still
    cases still
  · intro bound t inside
    by_cases same : t = tid
    · subst same
      exact slot bound inside
    · show (sched.waits t).chan ≠ none ∨ (sched.waits t).timeout ≠ forever
      rw [moved.slot t same (Or.inr inside)]
      exact inv.slots bound t (moved.waiting t same inside)

/-! ### What a holder knows -/

section Turn

variable (inv : Inv o scope s runq hp holder)

include inv

/-- A thread that holds the turn and is not inside `next` is at the front, live and not waiting. -/
theorem turn_front (inTurn : (s.pc tid).inTurn = true) (notNext : (s.pc tid).inNext = false) :
    s.sched.AtFront runq hp tid ∧ s.sched.Live tid ∧ tid ∉ s.sched.waitq := by
  have front := (inv.front tid (inv.holder_eq inTurn) notNext).1
  refine ⟨front, ?_⟩
  rcases front.member with inside | inside
  · exact ⟨(inv.layout.runq_live inside).1, (inv.layout.runq_live inside).2.1⟩
  · exact ⟨(inv.layout.hp_live inside).1, (inv.layout.hp_live inside).2.1⟩

/-- **A step of the holder that only appends to the run queues.** -/
theorem grow (inTurn : (s.pc tid).inTurn = true) (notNext : (s.pc tid).inNext = false)
    (grown : Grown o [] s.sched sched runq hp) (still : p.inTurn = true)
    (notNext' : p.inNext = false) (status : p.StatusOk (s.sched.elems tid).status)
    (live : p.live = true) (settled : ∀ cur, p = .trying cur → tid ∉ sched.interProWakeupTids)
    (home : scope.internal → p.internal = true) :
    ∃ runq' hp', Inv o scope (s.goto tid sched p) runq' hp' (some tid) := by
  obtain ⟨front, alive, notWaiting⟩ := inv.turn_front inTurn notNext
  have granted := (inv.front tid (inv.holder_eq inTurn) notNext).2
  obtain ⟨runq', hp', longer, longer', layout, quiet⟩ := grown
  have outside : tid ∉ sched.waitq := fun inside => notWaiting (quiet.waiting tid inside)
  refine ⟨runq', hp', inv.move inTurn layout (quiet.moved tid) still ?_ (fun _ => ⟨?_, ?_⟩)
    (fun keeps => ?_) (iff_of_true ((quiet.live tid).mpr alive) live) (fun inside => absurd inside outside) ?_
    settled
    (fun _ inside => absurd inside outside) home⟩
  · cases p <;> first | rfl | cases notNext'
  · exact front.mono longer longer' (quiet.flag tid)
  · rwa [quiet.status tid]
  · cases p with
    | leaving phase atThreadEnd strategy after => cases notNext'
    | _ => cases keeps
  · rwa [quiet.status tid]

/-- **The holder enters `next`.** -/
theorem enter (inTurn : (s.pc tid).inTurn = true) (layout : Layout o [] sched runq' hp')
    (moved : Moved tid s.sched sched) {phase : Phase} (noGrantee : ∀ n, phase ≠ .posting n)
    (atThreadEnd : Bool) (strategy : Strategy) {after : After}
    (kept : (Pc.leaving phase atThreadEnd strategy after).keeps = true → sched.front tid = some tid)
    (live : sched.Live tid ↔ (Pc.leaving phase atThreadEnd strategy after).live = true)
    (waiting : tid ∈ sched.waitq →
      (Pc.leaving phase atThreadEnd strategy after).mayWait = true)
    (status : (Pc.leaving phase atThreadEnd strategy after).StatusOk (sched.elems tid).status)
    (slot : scope.bounded → tid ∈ sched.waitq →
      (sched.waits tid).chan ≠ none ∨ (sched.waits tid).timeout ≠ forever)
    (home : scope.internal → (Pc.leaving phase atThreadEnd strategy after).internal = true) :
    Inv o scope (s.goto tid sched (.leaving phase atThreadEnd strategy after)) runq' hp'
      (some tid) := by
  refine inv.move inTurn layout moved rfl ?_ (fun notNext => by cases notNext) kept live waiting status
    (fun cur isTrying => by cases isTrying) slot home
  cases phase with
  | posting n => exact absurd rfl (noGrantee n)
  | _ => rfl

end Turn

end Inv

end MinSmt
