/-
**Every good step keeps the invariant.**

One lemma for each place a thread can be at: holding the turn (`Inv.turnStep`), in `tryPutTurn`
(`Inv.tryStep`), inside `next` (`Inv.leaveStep`), outside the scheduler (`Inv.awayStep`), in an
external call or in `getTurn`. `Inv.step` puts them together, and `Inv.run` is the whole run.

`QueueSafe o s label` is the condition on a step: it fails exactly in the two situations that the
queues do not survive.
-/

import MinSmt.Scheduler.Invariant

namespace MinSmt

open MinSmt.Library

/-- **The two situations a step must avoid**: `check_wakeup` while a thread of the side set is alone
in `hp_runq`, and a pop from `hp_runq` of a head that carries its flag. -/
def QueueSafe (o : Options) (s : Sys) (label : Tid × Action) : Prop :=
  match label.2 with
  | .checkWakeup _ => s.sched.NoLone
  | .block _ => ((s.sched.enterNonDet o label.1).tickAndFire o).NoLone
  | .incTurnCount _ => (s.sched.tickAndFire o).NoLone
  | .endThread _ => (s.sched.tickAndFire o).NoLone
  | .wait _ _ _ => (s.sched.tickAndFire o).NoLone
  | .sleep _ _ => (s.sched.tickAndFire o).NoLone
  | .idleCondWait _ => (s.sched.tickAndFire o).NoLone
  | .nextRunnable => Sched.NoStale o s.sched label.1 (s.pc label.1).strategy
  | _ => True

instance (o : Options) (s : Sys) (label : Tid × Action) : Decidable (QueueSafe o s label) := by
  unfold QueueSafe
  split <;> infer_instance

/-- The condition on a step, with what the scope of the run asks for. -/
def GoodStep (o : Options) (scope : Scope) (s : Sys) (label : Tid × Action) : Prop :=
  QueueSafe o s label ∧ (scope.bounded → s.sched.turnCount + maxRel < unsignedMod) ∧
    (scope.internal → label.2.internal = true)

namespace Inv

open Sched Sys

variable {o : Options} {scope : Scope} {s s' : Sys} {runq hp : List Tid} {holder : Option Tid}
  {tid : Tid}

/-- Some queues and some holder satisfy the invariant. -/
def Holds (o : Options) (scope : Scope) (s : Sys) : Prop :=
  ∃ runq hp holder, Inv o scope s runq hp holder

theorem goto_same (sched : Sched) : { s with sched := sched } = s.goto tid sched (s.pc tid) := by
  rw [goto, Function.update_eq_self]

/-- The timeout of a sleep is not `FOREVER`. -/
theorem sleep_timeout {turnCount turns : Nat} (few : turns ≤ maxRel)
    (counted : 0 < turnCount + turns) (bound : turnCount + maxRel < unsignedMod) :
    ((turnCount + (unsignedMod - 1)) % unsignedMod + turns) % unsignedMod ≠ forever := by
  unfold maxRel at few bound
  unfold forever
  unfold unsignedMod at bound ⊢
  omega

section Turn

variable (rr : o.RoundRobin)

include rr

/-- **The holder calls `putTurn`**, possibly after other work. -/
theorem putTurn (inv : Inv o scope s runq hp holder) (inTurn : (s.pc tid).inTurn = true)
    {sched : Sched} {runq' hp' : List Tid} (layout : Layout o [] sched runq' hp')
    (moved : Moved tid s.sched sched) (front : sched.AtFront runq' hp' tid)
    (strategy : Strategy) :
    Holds o scope (s.leave tid (sched.putTurn o tid strategy) false strategy .away) := by
  obtain ⟨alive, notWaiting⟩ : sched.Live tid ∧ tid ∉ sched.waitq := by
    rcases front.member with inside | inside
    · exact ⟨(layout.runq_live inside).1, (layout.runq_live inside).2.1⟩
    · exact ⟨(layout.hp_live inside).1, (layout.hp_live inside).2.1⟩
  obtain ⟨sched', runq'', hp'', result, layout', moved', status, waiting, tm, kept, -⟩ :=
    layout.putTurn rr.nonneg front strategy
  have outside : tid ∉ sched'.waitq := fun inside => notWaiting (waiting tid inside)
  have live : sched'.Live tid := by
    unfold Live
    rw [tm]
    exact alive
  rw [result]
  exact ⟨runq'', hp'', some tid, inv.enter inTurn layout' (moved.trans moved') (fun n => by simp)
    false strategy kept (iff_of_true live rfl) (fun inside => absurd inside outside) (Or.inl status)
    (fun _ inside => absurd inside outside) fun _ => rfl⟩

/-- **The holder calls `wait`.** -/
theorem wait (inv : Inv o scope s runq hp holder) (here : s.pc tid = .turn false)
    (safe : (s.sched.tickAndFire o).NoLone) {order : List Tid}
    (perm : order.Perm s.sched.interProWakeupTids) {chan : Option Chan} {timeout : Nat}
    (finite : scope.bounded → chan ≠ none ∨ timeout ≠ forever) :
    Holds o scope
      (s.leave tid (s.sched.wait o tid chan timeout order) false .default .getTurn) := by
  have inTurn : (s.pc tid).inTurn = true := by rw [here]; rfl
  have isReg : (s.sched.elems tid).status = .runningReg := by
    have fits := inv.status tid
    rwa [here] at fits
  obtain ⟨front, _, _⟩ := inv.turn_front inTurn (by rw [here]; rfl)
  obtain ⟨sched, runq', hp', result, layout, moved, live, _, _, slot, status⟩ :=
    inv.layout.wait rr.nonneg front safe perm chan timeout
  rw [isReg, if_pos rfl] at status
  rw [result]
  refine ⟨runq', hp', some tid, inv.enter inTurn layout moved (fun n => by simp) false .default
    (fun keeps => by cases keeps) (iff_of_true live rfl) (fun _ => rfl) (Or.inl status)
    (fun small _ => ?_) fun _ => rfl⟩
  rw [slot.1, slot.2]
  exact finite small

/-- **The holder calls `block`.** -/
theorem block (inv : Inv o scope s runq hp holder) (inTurn : (s.pc tid).inTurn = true)
    (notNext : (s.pc tid).inNext = false)
    (safe : ((s.sched.enterNonDet o tid).tickAndFire o).NoLone) {order : List Tid}
    (perm : order.Perm s.sched.interProWakeupTids) {after : After}
    (fits : (Pc.leaving .checking false .default after).StatusOk
      (if (s.sched.elems tid).status = .runningReg then .runnable else .interProStop))
    (live : (Pc.leaving .checking false .default after).live = true)
    (foreign : ¬ scope.internal) :
    Holds o scope (s.leave tid (s.sched.block o tid order) false .default after) := by
  obtain ⟨front, _, _⟩ := inv.turn_front inTurn notNext
  obtain ⟨sched, runq', hp', result, layout, moved, alive, outside, _, _, status⟩ :=
    inv.layout.block rr.nonneg front safe perm
  rw [result]
  exact ⟨runq', hp', some tid, inv.enter inTurn layout moved (fun n => by simp) false .default
    (fun keeps => by cases after <;> cases keeps) (iff_of_true alive live)
    (fun inside => absurd inside outside) (by rw [status]; exact fits)
    (fun _ inside => absurd inside outside) fun internal => absurd internal foreign⟩

/-- **The holder creates a thread.** -/
theorem create (inv : Inv o scope s runq hp holder) (here : s.pc tid = .turn false)
    (th : PthreadT) (threadFunc : ThreadFunc) :
    Holds o scope (s.goto s.sched.tm.nthread (s.sched.create o th threadFunc) .away) := by
  have inTurn : (s.pc tid).inTurn = true := by rw [here]; rfl
  have isHolder := inv.holder_eq inTurn
  subst isHolder
  obtain ⟨front, alive, notWaiting⟩ := inv.turn_front inTurn (by rw [here]; rfl)
  obtain ⟨more, more', layout, moved, live, fresh, status, waitq, waits⟩ :=
    inv.layout.create rr.nonneg th threadFunc
  set new := s.sched.tm.nthread with isNew
  have notLive : ¬ s.sched.Live new := fun live => Nat.lt_irrefl _ (inv.layout.known new live)
  have newPc : (s.pc new).inTurn = false := by
    by_contra turn
    have same : tid = new := Option.some.inj (inv.holder_eq (by simpa using turn))
    exact notLive (same ▸ alive)
  have other : tid ≠ new := fun same => notLive (same ▸ alive)
  refine ⟨runq ++ more, hp ++ more', some tid, layout, ?_,
    fun noHolder => (Option.some_ne_none tid noHolder).elim, ?_, ?_, ?_,
    inv.live_goto moved.live (iff_of_true live rfl),
    inv.waiting_goto (fun t _ inside => waitq ▸ inside) (fun inside => absurd (waitq ▸ inside) fresh),
    status_goto (fun t notNew => ?_) (Or.inl status),
    inv.settled_goto (fun t _ => moved.wakeups t) nofun,
    back_goto (fun t => inv.back_of_moved moved) nofun, ?_, inv.inside_goto moved.wakeups fun _ => rfl⟩
  · exact inv.token.outside newPc (fun t => by rw [show ∀ sched, (s.goto new sched .away).sched =
      sched from fun _ => rfl, waits]) rfl
  · intro t isTid _
    cases isTid
    have before := inv.front tid rfl (by rw [here]; rfl)
    have sameFlag : ((s.sched.create o th threadFunc).waits tid).wokenUpFromHpQueueFlag =
        (s.sched.waits tid).wokenUpFromHpQueueFlag := by rw [waits]
    refine ⟨before.1.mono (List.prefix_append _ _) (List.prefix_append _ _) sameFlag, ?_⟩
    show Granted ((s.sched.create o th threadFunc).elems tid).status
    rw [moved.status tid other]
    exact before.2
  · intro t n isTid grantee
    cases isTid
    rw [goto_pc_of_ne other, here] at grantee
    cases grantee
  · intro t keeps
    have notNew : t ≠ new := fun same => by
      rw [same, goto_pc_self] at keeps
      cases keeps
    rw [goto_pc_of_ne notNew] at keeps
    have isTid : tid = t := Option.some.inj (inv.holder_eq (Pc.inTurn_of_keeps keeps))
    rw [← isTid, here] at keeps
    cases keeps
  · rw [moved.status t notNew]
    exact inv.status t
  · intro small t inside
    show ((s.sched.create o th threadFunc).waits t).chan ≠ none ∨
      ((s.sched.create o th threadFunc).waits t).timeout ≠ forever
    rw [waits]
    exact inv.slots small t (waitq ▸ inside)

omit rr in
/-- The holder changes what the queues and the threads do not depend on. -/
theorem relabel (inv : Inv o scope s runq hp holder) (here : s.pc tid = .turn false) {m : TidMap}
    (tToP : m.tToP = s.sched.tm.tToP) (nthread : m.nthread = s.sched.tm.nthread) (count : Nat) :
    Holds o scope { s with sched := { s.sched with tm := m, nNonDetWait := count } } := by
  have inTurn : (s.pc tid).inTurn = true := by rw [here]; rfl
  have isHolder := inv.holder_eq inTurn
  have sameLive : ∀ t, ((m.tToP t).isSome = true ↔ s.sched.Live t) := fun t => by
    rw [tToP]
    exact Iff.rfl
  have layout : Layout o [] { s.sched with tm := m, nNonDetWait := count } runq hp := by
    refine ⟨inv.layout.linked, fun t => ?_, fun t live => ?_, inv.layout.off, inv.layout.flag,
      fun t inside => ⟨(sameLive t).mpr (inv.layout.wakeups t inside).1,
        (inv.layout.wakeups t inside).2⟩, inv.layout.wakeupFlag, inv.layout.nonDet,
      inv.layout.nonDetOff, inv.layout.clean⟩
    · refine (inv.layout.once t).trans ?_
      show (if s.sched.Live t then 1 else 0) = if (m.tToP t).isSome = true then 1 else 0
      by_cases live : s.sched.Live t
      · rw [if_pos live, if_pos ((sameLive t).mpr live)]
      · rw [if_neg live, if_neg fun alive => live ((sameLive t).mp alive)]
    · show t < m.nthread
      rw [nthread]
      exact inv.layout.known t ((sameLive t).mp live)
  obtain ⟨front, alive, notWaiting⟩ := inv.turn_front inTurn (by rw [here]; rfl)
  have fits := inv.status tid
  rw [here] at fits
  have moved : Moved tid s.sched { s.sched with tm := m, nNonDetWait := count } :=
    ⟨fun t _ => sameLive t, fun _ _ => rfl, fun _ _ h => h, fun _ _ _ => rfl, fun _ => rfl,
      fun _ h => h, fun _ h => h, fun _ _ => Or.inl, fun _ _ inside _ => Or.inl inside⟩
  have inv' := inv.move (p := .turn false) inTurn layout moved rfl rfl
    (fun _ => ⟨front, (inv.front tid isHolder (by rw [here]; rfl)).2⟩) (fun keeps => by cases keeps)
    (iff_of_true ((sameLive tid).mpr alive) rfl) (fun inside => absurd inside notWaiting) fits
    (fun cur isTrying => by cases isTrying) (fun _ inside => absurd inside notWaiting) fun _ => rfl
  refine ⟨runq, hp, some tid, ?_⟩
  rw [@goto_same s tid, here]
  exact inv'

/-- **The steps of a thread that holds the turn.** -/
theorem turnStep (inv : Inv o scope s runq hp holder) (here : s.pc tid = .turn false)
    {action : Action} (good : GoodStep o scope s (tid, action))
    (stepped : s.turnStep o tid action = some s') : Holds o scope s' := by
  have inTurn : (s.pc tid).inTurn = true := by rw [here]; rfl
  have notNext : (s.pc tid).inNext = false := by rw [here]; rfl
  obtain ⟨front, alive, notWaiting⟩ := inv.turn_front inTurn notNext
  have isReg : (s.sched.elems tid).status = .runningReg := by
    have fits := inv.status tid
    rwa [here] at fits
  have nonneg := rr.nonneg
  obtain ⟨safe, bound, foreign⟩ := good
  have stay : ∀ sched, Grown o [] s.sched sched runq hp →
      Holds o scope { s with sched := sched } := by
    intro sched grown
    obtain ⟨runq', hp', inv'⟩ := inv.grow (p := .turn false) inTurn notNext grown rfl rfl isReg rfl
      (fun cur isTrying => by cases isTrying) fun _ => rfl
    refine ⟨runq', hp', some tid, ?_⟩
    rw [@goto_same s tid, here]
    exact inv'
  cases action with
  | incTurnCount order =>
    obtain ⟨perm, rfl⟩ := Sys.turnStep_incTurnCount stepped
    exact stay _ (inv.layout.incTurnCount nonneg safe perm).1
  | signal chan all =>
    cases stepped
    exact stay _ (inv.layout.signal nonneg chan all)
  | putTurn strategy =>
    cases stepped
    exact inv.putTurn rr inTurn inv.layout ((Quiet.refl s.sched).moved tid) front strategy
  | endThread order =>
    obtain ⟨perm, rfl⟩ := Sys.turnStep_endThread stepped
    obtain ⟨⟨runq₁, hp₁, longer, longer', layout₁, quiet⟩, empty⟩ :=
      inv.layout.incTurnCount nonneg safe perm
    obtain ⟨sched, runq', hp', result, layout, moved, dead, waiting, status⟩ :=
      layout₁.putTurnAtEnd nonneg (front.mono longer longer' (quiet.flag tid))
        (by rw [empty]; exact List.not_mem_nil)
    have outside : tid ∉ sched.waitq := fun inside =>
      notWaiting (quiet.waiting tid (waiting tid inside))
    rw [quiet.status tid, isReg, if_pos rfl] at status
    rw [result]
    exact ⟨runq', hp', some tid, inv.enter inTurn layout ((quiet.moved tid).trans moved)
      (fun n => by simp) true .default (fun keeps => by cases keeps) (iff_of_false dead Bool.false_ne_true)
      (fun inside => absurd inside outside) (Or.inl status)
      (fun _ inside => absurd inside outside) fun _ => rfl⟩
  | wait chan timeout order =>
    obtain ⟨perm, rfl⟩ := Sys.turnStep_wait stepped
    exact inv.wait rr here safe perm fun _ => Or.inl (Option.some_ne_none chan)
  | sleep turns order =>
    obtain ⟨enabled, rfl⟩ := Sys.turnStep_sleep stepped
    refine inv.wait rr here safe enabled.1 fun small => Or.inr ?_
    exact sleep_timeout enabled.2.1 enabled.2.2 (bound small)
  | block order =>
    obtain ⟨perm, rfl⟩ := Sys.turnStep_block stepped
    exact inv.block rr inTurn notNext safe perm (by rw [isReg]; exact Or.inl rfl) rfl
      fun internal => absurd (foreign internal) Bool.false_ne_true
  | idleCondWait order =>
    obtain ⟨enabled, taken⟩ := Sys.turnStep_idleCondWait stepped
    obtain ⟨grown, empty⟩ := inv.layout.incTurnCount nonneg safe enabled.1
    obtain ⟨-, rfl⟩ | ⟨-, rfl⟩ := taken
    · obtain ⟨runq', hp', inv'⟩ := inv.grow inTurn notNext grown
        (p := .trying (s.sched.incTurnCount o order).second) rfl rfl isReg rfl
        (fun cur _ => by rw [empty]; exact List.not_mem_nil) fun _ => rfl
      exact ⟨runq', hp', some tid, inv'⟩
    · obtain ⟨runq₁, hp₁, longer, longer', layout₁, quiet⟩ := grown
      exact inv.putTurn rr inTurn layout₁ (quiet.moved tid)
        (front.mono longer longer' (quiet.flag tid)) .default
  | create th threadFunc =>
    cases stepped
    exact inv.create rr here th threadFunc
  | changeRole th roleFunc =>
    cases stepped
    exact inv.relabel here (TidMap.changeRole_tToP _ _ _) (TidMap.changeRole_nthread _ _ _)
      s.sched.nNonDetWait
  | nonDetWait more =>
    cases stepped
    exact inv.relabel here rfl rfl _
  | _ => cases stepped

/-- **The steps of `tryPutTurn`.** -/
theorem tryStep (inv : Inv o scope s runq hp holder) {cur : Option Tid}
    (here : s.pc tid = .trying cur) : Holds o scope (s.tryStep o tid cur) := by
  have inTurn : (s.pc tid).inTurn = true := by rw [here]; rfl
  have notNext : (s.pc tid).inNext = false := by rw [here]; rfl
  have isHolder := inv.holder_eq inTurn
  obtain ⟨front, alive, notWaiting⟩ := inv.turn_front inTurn notNext
  have isReg : (s.sched.elems tid).status = .runningReg := by
    have fits := inv.status tid
    rwa [here] at fits
  have settled := inv.settled tid cur here
  cases cur with
  | none =>
    exact inv.putTurn rr inTurn inv.layout ((Quiet.refl s.sched).moved tid) front .default
  | some cur =>
    simp only [Sys.tryStep]
    by_cases isRunnable : (s.sched.elems cur).status = .runnable
    · rw [if_pos isRunnable]
      have other : cur ≠ tid := fun same => by
        rw [same, isReg] at isRunnable
        cases isRunnable
      -- first `cur` is let run, then the idle thread queues itself
      have marked : Inv o scope { s with sched := s.sched.setStatus cur .runningReg } runq hp
          holder := by
        have status : ∀ t, (s.pc t).StatusOk
            ((s.sched.setStatus cur .runningReg).elems t).status := by
          intro t
          by_cases same : t = cur
          · have fits := (inv.status cur).granted
            rw [isRunnable, if_pos rfl] at fits
            rwa [same, setStatus_self]
          · rw [setStatus_of_ne same]
            exact inv.status t
        refine ⟨inv.layout.setStatus cur _, inv.token, inv.lost, fun t isTid notNext => ?_,
          fun t n isTid grantee => ?_, inv.kept, inv.live, inv.waiting, status, inv.settled, inv.back,
          inv.slots, inv.inside⟩
        · have before := inv.front t isTid notNext
          refine ⟨before.1, ?_⟩
          by_cases same : t = cur
          · rw [same]
            exact Or.inl (setStatus_self cur _)
          · show Granted ((s.sched.setStatus cur .runningReg).elems t).status
            rw [setStatus_of_ne same]
            exact before.2
        · rw [isHolder] at isTid
          cases isTid
          rw [show ({ s with sched := s.sched.setStatus cur .runningReg } : Sys).pc tid = _
            from here] at grantee
          cases grantee
      obtain ⟨sched, runq', hp', result, layout, moved, live, _, slot, status⟩ :=
        marked.layout.idleEnqueue rr.nonneg front settled
      rw [setStatus_of_ne other.symm, isReg, if_pos rfl] at status
      rw [result]
      refine ⟨runq', hp', some tid, ?_⟩
      refine marked.enter (s := { s with sched := s.sched.setStatus cur .runningReg }) inTurn layout
        moved (fun n => by simp) false .default (fun keeps => by cases keeps) (iff_of_true live rfl) (fun _ => rfl)
        (Or.inl status) (fun _ _ => Or.inl ?_) fun _ => rfl
      rw [slot.1]
      exact Option.some_ne_none _
    · rw [if_neg isRunnable]
      have inv' := inv.move (p := .trying (s.sched.elems cur).next) inTurn inv.layout
        ((Quiet.refl s.sched).moved tid) rfl rfl
        (fun _ => ⟨front, (inv.front tid isHolder notNext).2⟩) (fun keeps => by cases keeps)
        (iff_of_true alive rfl)
        (fun inside => absurd inside notWaiting) isReg (fun _ _ => settled)
        (fun _ inside => absurd inside notWaiting) fun _ => rfl
      exact ⟨runq, hp, some tid, inv'⟩

end Turn

/-! ### Inside `next` -/

/-- Inside `next`, what is expected of a thread depends on what it does afterwards. -/
theorem leaving_same (phase phase' : Phase) (atEnd atEnd' : Bool) (strategy strategy' : Strategy)
    (after : After) :
    (Pc.leaving phase atEnd strategy after).live = (Pc.leaving phase' atEnd' strategy' after).live ∧
      (Pc.leaving phase atEnd strategy after).mayWait =
        (Pc.leaving phase' atEnd' strategy' after).mayWait ∧
      (Pc.leaving phase atEnd strategy after).internal =
        (Pc.leaving phase' atEnd' strategy' after).internal ∧
      ∀ status, (Pc.leaving phase atEnd strategy after).StatusOk status →
        (Pc.leaving phase' atEnd' strategy' after).StatusOk status := by
  cases after <;> exact ⟨rfl, rfl, rfl, fun _ fits => fits⟩

/-- The same is expected of it when `next` has returned. -/
theorem leaving_done (phase : Phase) (atEnd : Bool) (strategy : Strategy) (after : After) :
    after.pc.live = (Pc.leaving phase atEnd strategy after).live ∧
      ((Pc.leaving phase atEnd strategy after).mayWait = true → after.pc.mayWait = true) ∧
      (∀ status, (Pc.leaving phase atEnd strategy after).StatusOk status →
        after.pc.StatusOk status) ∧
      after.pc.inTurn = false ∧ after.pc ≠ .woken ∧
      ((Pc.leaving phase atEnd strategy after).internal = true → after.pc.internal = true) := by
  cases after <;>
    exact ⟨rfl, fun h => h, fun _ fits => fits, rfl, by simp [After.pc], fun h => h⟩

variable {phase : Phase} {atThreadEnd : Bool} {strategy : Strategy} {after : After}

/-- A thread inside `next` goes on, and the scheduler has done something quiet. -/
theorem keepLeaving (inv : Inv o scope s runq hp holder)
    (here : s.pc tid = .leaving phase atThreadEnd strategy after) {sched : Sched}
    {runq' hp' : List Tid} (layout : Layout o [] sched runq' hp') (quiet : Quiet s.sched sched)
    {phase' : Phase} (noGrantee : ∀ n, phase' ≠ .posting n) (strategy' : Strategy)
    (kept : strategy'.keeps = true → strategy = strategy' ∧ ∀ t,
      (s.sched.elems t).status ≠ .interProStop → s.sched.front t = some t →
        sched.front t = some t) :
    Inv o scope (s.goto tid sched (.leaving phase' atThreadEnd strategy' after)) runq' hp'
      (some tid) := by
  obtain ⟨sameLive, sameWait, sameHome, sameStatus⟩ :=
    leaving_same phase phase' atThreadEnd atThreadEnd strategy strategy' after
  refine inv.enter (by rw [here]; rfl) layout (quiet.moved tid) noGrantee atThreadEnd strategy'
    (fun keeps => ?_) ?_ (fun inside => ?_) ?_ (fun small inside => ?_) fun internal => ?_
  · cases after with
    | away =>
      obtain ⟨same, stays⟩ := kept keeps
      refine stays tid ?_ (inv.kept tid (by rw [here]; exact same ▸ keeps))
      have fits := inv.status tid
      rw [here] at fits
      rcases fits with isRunnable | isReg
      · rw [isRunnable]
        decide
      · rw [isReg]
        decide
    | _ => cases keeps
  · rw [quiet.live tid, inv.live tid, here, sameLive]
  · have waits := inv.waiting tid (quiet.waiting tid inside)
    rwa [here, sameWait] at waits
  · rw [quiet.status tid]
    have fits := inv.status tid
    rw [here] at fits
    exact sameStatus _ fits
  · rw [quiet.slot tid (Or.inr inside)]
    exact inv.slots small tid (quiet.waiting tid inside)
  · rw [← sameHome, ← here]
    exact (inv.inside internal).1 tid

/-- A thread leaves `next` and takes the turn with it. -/
theorem abandon (inv : Inv o scope s runq hp holder)
    (here : s.pc tid = .leaving phase atThreadEnd strategy after) {p : Pc} {outcome : Outcome}
    (outTurn : p.inTurn = false) (notWoken : p ≠ .woken)
    (live : p.live = (Pc.leaving phase atThreadEnd strategy after).live)
    (wait : (Pc.leaving phase atThreadEnd strategy after).mayWait = true → p.mayWait = true)
    (status : ∀ status, (Pc.leaving phase atThreadEnd strategy after).StatusOk status →
      p.StatusOk status)
    (home : (Pc.leaving phase atThreadEnd strategy after).internal = true → p.internal = true)
    (reason : outcome = .invalidTid ∨ (outcome = .threadExited ∧ s.idleDone = true)) :
    Inv o scope { s.goto tid s.sched p with outcome := some outcome } runq hp none := by
  have inTurn : (s.pc tid).inTurn = true := by rw [here]; rfl
  have isHolder := inv.holder_eq inTurn
  subst isHolder
  have fits := inv.status tid
  rw [here] at fits
  refine ⟨inv.layout, fun t => ?_, fun _ => ?_,
    fun t isTid => (Option.some_ne_none t isTid.symm).elim,
    fun t n isTid => (Option.some_ne_none t isTid.symm).elim, inv.kept_goto fun keeps => ?_,
    inv.live_goto (fun _ _ => Iff.rfl) ?_, inv.waiting_goto (fun _ _ inside => inside) fun inside => ?_,
    status_goto (fun t _ => inv.status t) (status _ fits),
    inv.settled_goto (fun _ _ inside => inside) fun cur isTrying => ?_,
    back_goto (fun t _ => inv.back t) fun woken => absurd woken notWoken, inv.slots,
    inv.inside_goto (fun _ inside => inside) fun internal => ?_⟩
  · have own := inv.token t
    rw [if_neg (by simp)]
    by_cases same : t = tid
    · subst same
      rw [inTurn, if_pos rfl] at own
      show (s.sched.waits t).posts o + ((s.goto t s.sched p).pc t).inTurn.toNat = 0
      rw [goto_pc_self, outTurn]
      simp only [Bool.toNat_true, Bool.toNat_false] at own ⊢
      omega
    · rw [if_neg fun eq => same (Option.some.inj eq).symm] at own
      show (s.sched.waits t).posts o + ((s.goto tid s.sched p).pc t).inTurn.toNat = 0
      rw [goto_pc_of_ne same]
      exact own
  · rcases reason with rfl | ⟨rfl, done⟩
    · exact Or.inl rfl
    · exact Or.inr ⟨rfl, done⟩
  · rw [Pc.inTurn_of_keeps keeps] at outTurn
    cases outTurn
  · rw [live, ← here]
    exact inv.live tid
  · have before := inv.waiting tid inside
    rw [here] at before
    exact wait before
  · rw [isTrying] at outTurn
    cases outTurn
  · refine home ?_
    rw [← here]
    exact (inv.inside internal).1 tid

/-- **`nextRunnable` has chosen a thread.** -/
theorem grant (inv : Inv o scope s runq hp holder)
    (here : s.pc tid = .leaving phase atThreadEnd strategy after) {sched : Sched} {n : Tid}
    (picked : Picked o s.sched strategy (.grant sched n)) :
    Holds o scope (s.goto tid sched (.leaving (.posting n) atThreadEnd strategy after)) := by
  have inTurn : (s.pc tid).inTurn = true := by rw [here]; rfl
  have isHolder := inv.holder_eq inTurn
  subst isHolder
  obtain ⟨⟨runq', hp', layout, front⟩, moved, waiting, tm, awake, status, stays⟩ := picked
  obtain ⟨sameLive, sameWait, sameHome, sameStatus⟩ :=
    leaving_same phase (.posting n) atThreadEnd atThreadEnd strategy strategy after
  have live : ∀ t, sched.Live t ↔ s.sched.Live t := fun t => by
    unfold Live
    rw [tm]
  obtain ⟨outside, notRemoved⟩ : n ∉ sched.waitq ∧ n ∉ sched.removed := by
    rcases front.member with inside | inside
    · exact (layout.runq_live inside).2
    · exact ⟨(layout.hp_live inside).2.1, (layout.hp_live inside).2.2.1⟩
  have statusOk : ∀ t, (s.pc t).StatusOk (sched.elems t).status := by
    intro t
    by_cases same : t = n
    · rw [same, status]
      exact (inv.status n).granted
    · rw [moved.status t same]
      exact inv.status t
  have granted : Granted (sched.elems n).status := by
    rw [status]
    cases before : (s.sched.elems n).status with
    | interProStop => exact absurd before awake
    | runnable => exact Or.inl rfl
    | runningReg => exact Or.inl rfl
    | runningInterPro => exact Or.inr rfl
  refine ⟨runq', hp', some tid, layout, ?_, fun noHolder => (Option.some_ne_none tid noHolder).elim,
    fun t isTid notNext => ?_, fun t m isTid grantee => ?_, fun t keeps => stays t ?_,
    inv.live_goto (fun t _ => live t) ?_, inv.waiting_goto (fun t _ => waiting t) fun inside => ?_,
    status_goto (fun t _ => statusOk t) (sameStatus _ ?_), inv.settled_goto (fun t _ => moved.wakeups t) nofun,
    back_goto (fun t _ woken => ?_) nofun, fun small t inside => ?_,
    inv.inside_goto moved.wakeups fun internal => ?_⟩
  · exact inv.token.move inTurn (fun t => posts_le (moved.sem t) (moved.wakenUp t)) rfl
  · cases isTid
    rw [goto_pc_self] at notNext
    cases notNext
  · cases isTid
    rw [goto_pc_self] at grantee
    cases grantee
    exact ⟨front, granted⟩
  · by_cases same : t = tid
    · rw [same, goto_pc_self] at keeps
      rw [same]
      refine inv.kept tid ?_
      rw [here]
      cases after with
      | away => exact keeps
      | _ => cases keeps
    · rw [goto_pc_of_ne same] at keeps
      exact inv.kept t keeps
  · rw [← sameLive, ← here]
    exact (live tid).trans (inv.live tid)
  · have before := inv.waiting tid (waiting tid inside)
    rwa [here, sameWait] at before
  · rw [← here]
    exact statusOk tid
  · by_cases chosen : t = n
    · rw [chosen]
      exact Or.inr notRemoved
    · exact inv.back_of_moved moved chosen woken
  · have other : t ≠ n := fun same => outside (same ▸ inside)
    show (sched.waits t).chan ≠ none ∨ (sched.waits t).timeout ≠ forever
    rw [moved.slot t other (Or.inr inside)]
    exact inv.slots small t (waiting t inside)
  · rw [← sameHome, ← here]
    exact (inv.inside internal).1 tid

theorem grantee_of_not_inTurn {p : Pc} (outTurn : p.inTurn = false) : p.grantee = none := by
  cases p with
  | leaving phase atThreadEnd strategy after => cases outTurn
  | _ => rfl

/-- **The holder posts the thread it has chosen.** -/
theorem post (rr : o.RoundRobin) (inv : Inv o scope s runq hp holder) {n : Tid}
    (here : s.pc tid = .leaving (.posting n) atThreadEnd strategy after) :
    Inv o scope (s.goto tid (s.sched.post o n) after.pc) runq hp (some n) := by
  have inTurn : (s.pc tid).inTurn = true := by rw [here]; rfl
  have isHolder := inv.holder_eq inTurn
  subst isHolder
  obtain ⟨front, granted⟩ := inv.next tid n rfl (by rw [here]; rfl)
  obtain ⟨sameLive, sameWait, sameStatus, outTurn, notWoken, home⟩ :=
    leaving_done (.posting n) atThreadEnd strategy after
  have unposted : ∀ t, (s.sched.waits t).posts o = 0 := by
    intro t
    have own := inv.token t
    by_cases same : t = tid
    · rw [same, inTurn, if_pos rfl] at own
      rw [same]
      simp only [Bool.toNat_true] at own
      omega
    · rw [if_neg fun eq => same (Option.some.inj eq).symm] at own
      omega
  have alone : ∀ t, t ≠ tid → (s.pc t).inTurn = false := by
    intro t other
    by_contra turn
    exact other (Option.some.inj (inv.holder_eq (by simpa using turn))).symm
  have fields : ∀ w : WaitT, (w.post o).chan = w.chan ∧ (w.post o).timeout = w.timeout ∧
      (w.post o).wokenUpFromHpQueueFlag = w.wokenUpFromHpQueueFlag := by
    intro w
    unfold WaitT.post
    split
    · exact ⟨rfl, rfl, rfl⟩
    · split
      · exact ⟨rfl, rfl, rfl⟩
      · split <;> exact ⟨rfl, rfl, rfl⟩
  have slots : ∀ t, ((s.sched.post o n).waits t).chan = (s.sched.waits t).chan ∧
      ((s.sched.post o n).waits t).timeout = (s.sched.waits t).timeout ∧
      ((s.sched.post o n).waits t).wokenUpFromHpQueueFlag =
        (s.sched.waits t).wokenUpFromHpQueueFlag := by
    intro t
    by_cases same : t = n
    · subst same
      unfold Sched.post
      simp only [Function.update_self]
      exact fields _
    · show (Function.update s.sched.waits n _ t).chan = _ ∧ _
      unfold Sched.post
      simp only [Function.update_of_ne same, and_self]
  have layout : Layout o [] (s.sched.post o n) runq hp :=
    ⟨inv.layout.linked, inv.layout.once, inv.layout.known, inv.layout.off,
      fun t set => inv.layout.flag t ((slots t).2.2 ▸ set), inv.layout.wakeups,
      inv.layout.wakeupFlag, inv.layout.nonDet, inv.layout.nonDetOff, fun t outside => by
        rw [(slots t).1, (slots t).2.1]
        exact inv.layout.clean t outside⟩
  have fits := inv.status tid
  rw [here] at fits
  refine ⟨layout, fun t => ?_, fun noHolder => (Option.some_ne_none n noHolder).elim,
    fun t isN _ => ?_, fun t m isN grantee => ?_, inv.kept_goto fun keeps => ?_,
    inv.live_goto (fun _ _ => Iff.rfl) ?_, inv.waiting_goto (fun _ _ inside => inside) fun inside => ?_,
    status_goto (fun t _ => inv.status t) (sameStatus _ fits),
    inv.settled_goto (fun _ _ inside => inside) fun cur isTrying => ?_,
    back_goto (fun t _ => inv.back t) fun woken => absurd woken notWoken,
    fun small t inside => ?_, inv.inside_goto (fun _ inside => inside) fun internal => ?_⟩
  · have turnOut : ((s.goto tid (s.sched.post o n) after.pc).pc t).inTurn = false := by
      by_cases same : t = tid
      · rw [same, goto_pc_self]
        exact outTurn
      · rw [goto_pc_of_ne same]
        exact alone t same
    rw [turnOut]
    by_cases same : t = n
    · subst same
      rw [if_pos rfl]
      show ((Function.update s.sched.waits t ((s.sched.waits t).post o)) t).posts o + 0 = 1
      rw [Function.update_self, posts_post rr _ (unposted t)]
    · rw [if_neg fun eq => same (Option.some.inj eq).symm]
      show ((Function.update s.sched.waits n ((s.sched.waits n).post o)) t).posts o + 0 = 0
      rw [Function.update_of_ne same, unposted t]
  · cases isN
    exact ⟨front.mono (List.prefix_refl _) (List.prefix_refl _) (slots n).2.2, granted⟩
  · cases isN
    have quiet : ((s.goto tid (s.sched.post o n) after.pc).pc n).inTurn = false := by
      by_cases same : n = tid
      · rw [same, goto_pc_self]
        exact outTurn
      · rw [goto_pc_of_ne same]
        exact alone n same
    rw [grantee_of_not_inTurn quiet] at grantee
    cases grantee
  · rw [Pc.inTurn_of_keeps keeps] at outTurn
    cases outTurn
  · rw [sameLive, ← here]
    exact inv.live tid
  · have before := inv.waiting tid inside
    rw [here] at before
    exact sameWait before
  · rw [isTrying] at outTurn
    cases outTurn
  · show ((s.sched.post o n).waits t).chan ≠ none ∨ ((s.sched.post o n).waits t).timeout ≠ forever
    rw [(slots t).1, (slots t).2.1]
    exact inv.slots small t inside
  · refine home ?_
    rw [← here]
    exact (inv.inside internal).1 tid

theorem pickRunq_ne_threadExit (o : Options) (sched : Sched) (strategy : Strategy) :
    sched.pickRunq o strategy ≠ .threadExit := by
  unfold Sched.pickRunq
  repeat' split
  all_goals simp

/-- `nextRunnable` ends the calling thread only when the main thread has finished. -/
theorem idleDone_of_threadExit {idleDone : Bool} {self : Tid}
    (exits : s.sched.nextRunnable o idleDone self atThreadEnd strategy = .threadExit) :
    idleDone = true := by
  unfold Sched.nextRunnable at exits
  split at exits
  · unfold Sched.pickHp at exits
    repeat' split at exits
    all_goals cases exits
  · split at exits
    · unfold Sched.pickRole at exits
      repeat' split at exits
      all_goals cases exits
    · split at exits
      · split at exits
        · cases exits
        · split at exits
          · cases exits
          · split at exits
            · assumption
            · exact absurd exits (pickRunq_ne_threadExit _ _ _)
      · split at exits
        · exact absurd exits (pickRunq_ne_threadExit _ _ _)
        · exact absurd exits (pickRunq_ne_threadExit _ _ _)

/-- The process ends and nothing else changes. -/
theorem ended (inv : Inv o scope s runq hp (some tid)) (outcome : Outcome) :
    Inv o scope { s with outcome := some outcome } runq hp (some tid) :=
  ⟨inv.layout, inv.token, fun noHolder => (Option.some_ne_none tid noHolder).elim, inv.front,
    inv.next, inv.kept, inv.live, inv.waiting, inv.status, inv.settled, inv.back, inv.slots, inv.inside⟩

/-- **A round of the loop of `nextRunnable`.** -/
theorem picked (inv : Inv o scope s runq hp holder)
    (here : s.pc tid = .leaving phase atThreadEnd strategy after) {pick : Pick}
    (fair : Picked o s.sched strategy pick) (exits : pick = .threadExit → s.idleDone = true) :
    Holds o scope (s.picked tid atThreadEnd strategy after pick) := by
  have isHolder : holder = some tid := inv.holder_eq (by rw [here]; rfl)
  cases pick with
  | again sched strategy' =>
    obtain ⟨⟨runq', hp', layout⟩, quiet, kept⟩ := fair
    exact ⟨runq', hp', some tid, inv.keepLeaving here layout quiet (fun n => by simp) strategy' kept⟩
  | grant sched n => exact inv.grant here fair
  | invalid =>
    obtain ⟨sameLive, sameWait, sameStatus, outTurn, notWoken, home⟩ :=
      leaving_done phase atThreadEnd strategy after
    exact ⟨runq, hp, none, inv.abandon here outTurn notWoken sameLive sameWait sameStatus home
      (Or.inl rfl)⟩
  | threadExit =>
    refine ⟨runq, hp, none, ?_⟩
    cases after <;> exact inv.abandon here rfl (by simp) rfl (fun may => may)
      (fun _ fits => fits) (fun home => home) (Or.inr ⟨rfl, exits rfl⟩)
  | exit =>
    rw [isHolder] at inv
    exact ⟨runq, hp, some tid, inv.ended .exited⟩
  | crash =>
    rw [isHolder] at inv
    exact ⟨runq, hp, some tid, inv.ended .crashed⟩

/-- **The steps inside `next`.** -/
theorem leaveStep (rr : o.RoundRobin) (inv : Inv o scope s runq hp holder)
    (here : s.pc tid = .leaving phase atThreadEnd strategy after) {action : Action}
    (safe : QueueSafe o s (tid, action))
    (stepped : s.leaveStep o tid phase atThreadEnd strategy after action = some s') :
    Holds o scope s' := by
  cases action with
  | checkWakeup order =>
    obtain ⟨enabled, rfl⟩ := Sys.leaveStep_checkWakeup rr.nonneg stepped
    obtain ⟨⟨more, layout⟩, quiet, _⟩ := inv.layout.checkWakeup rr.nonneg safe enabled.2
    refine ⟨runq ++ more, hp, some tid, inv.keepLeaving here layout quiet (fun n => by simp) strategy
      fun _ => ⟨rfl, fun t _ before => layout.atFront_iff.mp ?_⟩⟩
    exact (inv.layout.atFront_iff.mpr before).mono (List.prefix_append _ _) (List.prefix_refl _)
      (quiet.flag t)
  | nextRunnable =>
    obtain ⟨-, rfl⟩ := Sys.leaveStep_nextRunnable stepped
    have noStale : NoStale o s.sched tid strategy := by
      have stale : NoStale o s.sched tid (s.pc tid).strategy := safe
      rwa [here] at stale
    exact inv.picked here (inv.layout.nextRunnable rr.nonneg _ _ _ _ noStale)
      idleDone_of_threadExit
  | post =>
    cases phase with
    | posting n =>
      cases stepped
      exact ⟨runq, hp, some n, inv.post rr here⟩
    | _ => cases stepped
  | _ => cases stepped

/-! ### Outside the turn -/

/-- **A thread without the turn moves**: it writes its own status and the side set. -/
theorem outside (inv : Inv o scope s runq hp holder) {sched : Sched} {p : Pc}
    (layout : Layout o [] sched runq hp) (outTurn : (s.pc tid).inTurn = false)
    (outTurn' : p.inTurn = false) (waits : sched.waits = s.sched.waits)
    (tm : sched.tm = s.sched.tm) (waitq : sched.waitq = s.sched.waitq)
    (removed : sched.removed = s.sched.removed)
    (others : ∀ t, t ≠ tid → (sched.elems t).status = (s.sched.elems t).status)
    (side : ∀ t, t ≠ tid →
      (t ∈ sched.interProWakeupTids ↔ t ∈ s.sched.interProWakeupTids))
    (live : p.live = (s.pc tid).live) (wait : tid ∈ s.sched.waitq → p.mayWait = true)
    (status : p.StatusOk (sched.elems tid).status)
    (granted : Granted (s.sched.elems tid).status → Granted (sched.elems tid).status)
    (back : p = .woken → tid ∈ sched.interProWakeupTids)
    (home : scope.internal → p.internal = true ∧ tid ∉ sched.interProWakeupTids) :
    Inv o scope (s.goto tid sched p) runq hp holder := by
  have sameFront : ∀ t, s.sched.AtFront runq hp t ∧ Granted (s.sched.elems t).status →
      sched.AtFront runq hp t ∧ Granted (sched.elems t).status := by
    intro t before
    refine ⟨?_, ?_⟩
    · unfold AtFront
      rw [waits]
      exact before.1
    · by_cases same : t = tid
      · rw [same] at before ⊢
        exact granted before.2
      · rw [others t same]
        exact before.2
  have sameLive : ∀ t, sched.Live t ↔ s.sched.Live t := fun t => by
    unfold Live
    rw [tm]
  refine ⟨layout, ?_, inv.lost, fun t isHolder notNext => ?_, fun t n isHolder grantee => ?_,
    fun t keeps => ?_, inv.live_goto (fun t _ => sameLive t) ?_,
    inv.waiting_goto (fun t _ inside => waitq ▸ inside) fun inside => wait (waitq ▸ inside),
    status_goto (fun t other => ?_) status, inv.settled_goto (fun t other => (side t other).mp)
      fun cur isTrying => ?_, back_goto (fun t other woken => ?_) fun woken => Or.inl (back woken),
    fun small t inside => ?_,
    fun internal => inv.inside_goto (fun t inside => ?_) (fun internal => (home internal).1)
      internal⟩
  · exact inv.token.outside outTurn (fun t => by
      rw [show (s.goto tid sched p).sched = sched from rfl, waits]) outTurn'
  · refine sameFront t ?_
    by_cases same : t = tid
    · refine inv.front t isHolder ?_
      rw [same]
      cases here : s.pc tid with
      | leaving phase atThreadEnd strategy after =>
        rw [here] at outTurn
        cases outTurn
      | _ => rfl
    · rw [goto_pc_of_ne same] at notNext
      exact inv.front t isHolder notNext
  · refine sameFront n ?_
    by_cases same : t = tid
    · rw [same, goto_pc_self, grantee_of_not_inTurn outTurn'] at grantee
      cases grantee
    · rw [goto_pc_of_ne same] at grantee
      exact inv.next t n isHolder grantee
  · by_cases same : t = tid
    · rw [same, goto_pc_self] at keeps
      rw [Pc.inTurn_of_keeps keeps] at outTurn'
      cases outTurn'
    · rw [goto_pc_of_ne same] at keeps
      refine layout.atFront_iff.mp ?_
      unfold AtFront
      rw [waits]
      exact inv.layout.atFront_iff.mpr (inv.kept t keeps)
  · rw [live]
    exact (sameLive tid).trans (inv.live tid)
  · rw [others t other]
    exact inv.status t
  · rw [isTrying] at outTurn'
    cases outTurn'
  · rcases inv.back t woken with inside | here
    · exact Or.inl ((side t other).mpr inside)
    · refine Or.inr ?_
      rwa [removed]
  · show (sched.waits t).chan ≠ none ∨ (sched.waits t).timeout ≠ forever
    rw [waits]
    exact inv.slots small t (waitq ▸ inside)
  · have other : t ≠ tid := fun same => (home internal).2 (same ▸ inside)
    exact (side t other).mp inside

/-- A thread without the turn enters `getTurn`, or leaves an external call. -/
theorem walk (inv : Inv o scope s runq hp holder) {p : Pc} (status : ThdStatus)
    (outTurn : (s.pc tid).inTurn = false) (outTurn' : p.inTurn = false)
    (live : p.live = (s.pc tid).live) (wait : (s.pc tid).mayWait = true → p.mayWait = true)
    (fits : p.StatusOk status) (granted : Granted (s.sched.elems tid).status → Granted status)
    (notWoken : p ≠ .woken) (home : scope.internal → p.internal = true) :
    Inv o scope (s.goto tid (s.sched.setStatus tid status) p) runq hp holder := by
  refine inv.outside (inv.layout.setStatus tid status) outTurn outTurn' rfl rfl rfl rfl
    (fun t other => by rw [setStatus_of_ne other]) (fun _ _ => Iff.rfl) live
    (fun inside => wait (inv.waiting tid inside)) ?_ (fun before => ?_)
    (fun woken => absurd woken notWoken) fun internal => ⟨home internal, ?_⟩
  · rwa [setStatus_self]
  · rw [setStatus_self]
    exact granted before
  · rw [show (s.sched.setStatus tid status).interProWakeupTids = s.sched.interProWakeupTids from rfl,
      (inv.inside internal).2]
    exact List.not_mem_nil

/-- A thread calls `getTurn`. -/
theorem arrive (inv : Inv o scope s runq hp holder) (outTurn : (s.pc tid).inTurn = false)
    (live : (s.pc tid).live = true)
    (fits : (Pc.waiting false).StatusOk (s.sched.elems tid).status) :
    Inv o scope (s.goto tid s.sched (.waiting false)) runq hp holder :=
  inv.outside inv.layout outTurn rfl rfl rfl rfl rfl (fun _ _ => rfl) (fun _ _ => Iff.rfl) live.symm
    (fun _ => rfl) fits (fun before => before) (fun woken => by cases woken) fun internal =>
      ⟨rfl, by rw [(inv.inside internal).2]; exact List.not_mem_nil⟩

/-- **A thread reports that its external call or its non-det region has ended.** -/
theorem wakeup (inv : Inv o scope s runq hp holder) (outTurn : (s.pc tid).inTurn = false)
    (live : (s.pc tid).live = true) (notWaiting : (s.pc tid).mayWait = false)
    (fits : Pc.woken.StatusOk (s.sched.elems tid).status) (foreign : ¬ scope.internal) :
    Inv o scope (s.goto tid (s.sched.wakeup tid) .woken) runq hp holder := by
  have alive : s.sched.Live tid := (inv.live tid).mpr live
  have outside : tid ∉ s.sched.waitq := fun inside => by
    rw [inv.waiting tid inside] at notWaiting
    cases notWaiting
  have members : ∀ t, t ∈ (s.sched.wakeup tid).interProWakeupTids ↔
      t = tid ∨ t ∈ s.sched.interProWakeupTids := by
    intro t
    unfold Sched.wakeup
    by_cases already : tid ∈ s.sched.interProWakeupTids
    · rw [if_pos already]
      exact ⟨Or.inr, fun either => either.elim (fun same => same ▸ already) id⟩
    · rw [if_neg already, List.mem_append, List.mem_singleton, or_comm]
  have layout : Layout o [] (s.sched.wakeup tid) runq hp := by
    refine ⟨inv.layout.linked, inv.layout.once, inv.layout.known, inv.layout.off, inv.layout.flag,
      fun t inside => ?_, fun _ => rfl, inv.layout.nonDet, inv.layout.nonDetOff, inv.layout.clean⟩
    rcases (members t).mp inside with same | before
    · rw [same]
      exact ⟨alive, outside⟩
    · exact inv.layout.wakeups t before
  exact inv.outside layout outTurn rfl rfl rfl rfl rfl (fun _ _ => rfl)
    (fun t other => (members t).trans (or_iff_right other)) live.symm
    (fun inside => absurd inside outside) fits (fun before => before)
    (fun _ => (members tid).mpr (Or.inl rfl)) fun internal => absurd internal foreign

/-- **The steps of a thread outside the scheduler.** -/
theorem awayStep (inv : Inv o scope s runq hp holder) (here : s.pc tid = .away ∨ s.pc tid = .woken)
    {action : Action} (home : scope.internal → action.internal = true)
    (stepped : s.awayStep tid action = some s') : Holds o scope s' := by
  obtain ⟨outTurn, live, notWaiting, fits⟩ : (s.pc tid).inTurn = false ∧ (s.pc tid).live = true ∧
      (s.pc tid).mayWait = false ∧ Pc.away.StatusOk (s.sched.elems tid).status := by
    have fits := inv.status tid
    rcases here with here | here
    · rw [here] at fits ⊢
      exact ⟨rfl, rfl, rfl, fits⟩
    · rw [here] at fits ⊢
      exact ⟨rfl, rfl, rfl, fits⟩
  have mayNot : ∀ {p : Pc}, (s.pc tid).mayWait = true → p.mayWait = true := fun may => by
    rw [may] at notWaiting
    cases notWaiting
  cases action with
  | getTurn =>
    cases stepped
    exact ⟨runq, hp, holder, inv.arrive outTurn live fits⟩
  | interProStart =>
    cases stepped
    unfold Sched.interProStart
    by_cases isRunnable : (s.sched.elems tid).status = .runnable
    · rw [if_pos isRunnable]
      refine ⟨runq, hp, holder, inv.walk .interProStop outTurn rfl live.symm mayNot rfl
        (fun granted => ?_) (by simp) fun internal => absurd (home internal) Bool.false_ne_true⟩
      rw [isRunnable] at granted
      rcases granted with isReg | isInterPro
      · cases isReg
      · cases isInterPro
    · rw [if_neg isRunnable]
      exact ⟨runq, hp, holder, inv.walk .runningInterPro outTurn rfl live.symm mayNot rfl
        (fun _ => Or.inr rfl) (by simp) fun internal => absurd (home internal) Bool.false_ne_true⟩
  | progEnd =>
    simp only [Sys.awayStep] at stepped
    split at stepped
    · cases stepped
      exact ⟨runq, hp, holder, inv.layout, inv.token, fun noHolder =>
        (inv.lost noHolder).imp_right fun ended => ⟨ended.1, rfl⟩, inv.front, inv.next, inv.kept, inv.live,
        inv.waiting, inv.status, inv.settled, inv.back, inv.slots, inv.inside⟩
    · cases stepped
  | _ => cases stepped

/-- **A thread takes its post and has the turn.** -/
theorem gotTurn (rr : o.RoundRobin) (inv : Inv o scope s runq hp holder) {blocking : Bool}
    (here : s.pc tid = .waiting blocking) {sched : Sched}
    (taken : s.sched.take o tid = some sched) :
    Inv o scope (s.goto tid sched (.turn blocking)) runq hp (some tid) := by
  obtain ⟨w, took, isSched⟩ : ∃ w, (s.sched.waits tid).take o = some w ∧
      sched = { s.sched with waits := Function.update s.sched.waits tid w } := by
    unfold Sched.take at taken
    obtain ⟨w, took, same⟩ := Option.bind_eq_some_iff.mp taken
    rw [if_neg (by have := rr.nonneg; omega)] at same
    exact ⟨w, took, (Option.some.inj same).symm⟩
  obtain ⟨posted, chan, timeout, flag⟩ := posts_take rr took
  have isHolder : holder = some tid := inv.token.holder_of_posts (by omega)
  subst isHolder
  obtain ⟨front, granted⟩ := inv.front tid rfl (by rw [here]; rfl)
  have notWaiting : tid ∉ s.sched.waitq := by
    rcases front.member with inside | inside
    · exact (inv.layout.runq_live inside).2.1
    · exact (inv.layout.hp_live inside).2.1
  have waits : ∀ t, (sched.waits t).chan = (s.sched.waits t).chan ∧
      (sched.waits t).timeout = (s.sched.waits t).timeout ∧
      (sched.waits t).wokenUpFromHpQueueFlag = (s.sched.waits t).wokenUpFromHpQueueFlag := by
    intro t
    rw [isSched]
    by_cases same : t = tid
    · subst same
      simp only [Function.update_self]
      exact ⟨chan, timeout, flag⟩
    · simp only [Function.update_of_ne same, and_self]
  have layout : Layout o [] sched runq hp := by
    have before := inv.layout
    refine ⟨?_, ?_, ?_, before.off, fun t set => before.flag t ((waits t).2.2 ▸ set), ?_, ?_, ?_, ?_,
      fun t outside => ?_⟩
    · rw [isSched]; exact before.linked
    · rw [isSched]; exact before.once
    · rw [isSched]; exact before.known
    · rw [isSched]; exact before.wakeups
    · rw [isSched]; exact before.wakeupFlag
    · rw [isSched]; exact before.nonDet
    · rw [isSched]; exact before.nonDetOff
    · rw [(waits t).1, (waits t).2.1]
      rw [isSched] at outside
      exact before.clean t outside
  have elems : sched.elems = s.sched.elems := by rw [isSched]
  have waitq : sched.waitq = s.sched.waitq := by rw [isSched]
  have sameLive : ∀ t, sched.Live t ↔ s.sched.Live t := fun t => by
    rw [isSched]
    exact Iff.rfl
  have side : sched.interProWakeupTids = s.sched.interProWakeupTids := by rw [isSched]
  have removed : sched.removed = s.sched.removed := by rw [isSched]
  refine ⟨layout, fun t => ?_, fun noHolder => (Option.some_ne_none tid noHolder).elim,
    fun t isTid _ => ?_, fun t n isTid grantee => ?_, inv.kept_goto nofun,
    inv.live_goto (fun t _ => sameLive t) ?_,
    inv.waiting_goto (fun t _ inside => waitq ▸ inside) (fun inside => absurd (waitq ▸ inside) notWaiting),
    status_goto (fun t _ => ?_) ?_, inv.settled_goto (fun t _ inside => side ▸ inside) nofun,
    back_goto (fun t _ woken => ?_) nofun,
    fun small t inside => ?_, inv.inside_goto (fun t inside => side ▸ inside) fun internal => ?_⟩
  · have own := inv.token t
    by_cases same : t = tid
    · subst same
      rw [here, if_pos rfl] at own
      rw [goto_pc_self, if_pos rfl]
      show (sched.waits t).posts o + 1 = 1
      have none : w.posts o = 0 := by
        rw [posted] at own
        omega
      rw [isSched]
      simp only [Function.update_self]
      rw [none]
    · rw [goto_pc_of_ne same, ← own]
      show (sched.waits t).posts o + _ = _
      rw [isSched]
      simp only [Function.update_of_ne same]
  · cases isTid
    refine ⟨front.mono (List.prefix_refl _) (List.prefix_refl _) (waits tid).2.2, ?_⟩
    show Granted (sched.elems tid).status
    rwa [elems]
  · cases isTid
    rw [goto_pc_self] at grantee
    cases grantee
  · have before := inv.live tid
    rw [here] at before
    exact (sameLive tid).trans before
  · rw [elems]
    exact inv.status t
  · have fits := inv.status tid
    rw [here] at fits
    rw [elems]
    cases blocking with
    | true => exact fits
    | false =>
      rcases granted with isReg | isInterPro
      · exact isReg
      · rw [isInterPro] at fits
        rcases fits with isRunnable | isReg
        · cases isRunnable
        · cases isReg
  · rw [side, removed]
    exact inv.back t woken
  · show (sched.waits t).chan ≠ none ∨ (sched.waits t).timeout ≠ forever
    rw [(waits t).1, (waits t).2.1]
    exact inv.slots small t (waitq ▸ inside)
  · have before := (inv.inside internal).1 tid
    rwa [here] at before

/-! ### Every step, and every run -/

/-- **A good step keeps the invariant.** -/
theorem step (rr : o.RoundRobin) (inv : Inv o scope s runq hp holder) {label : Tid × Action}
    (good : GoodStep o scope s label) (stepped : s.step o label = some s') :
    Holds o scope s' := by
  obtain ⟨tid, action⟩ := label
  replace stepped := Sys.threadStep_of_step stepped
  have fits := inv.status tid
  unfold Sys.threadStep at stepped
  split at stepped
  · rename_i here
    exact inv.awayStep (Or.inl here) good.2.2 stepped
  · rename_i here
    exact inv.awayStep (Or.inr here) good.2.2 stepped
  · rename_i here
    cases stepped
    rw [here] at fits
    exact ⟨runq, hp, holder, inv.arrive (by rw [here]; rfl) (by rw [here]; rfl) fits⟩
  · rename_i here
    cases stepped
    rw [here] at fits
    exact ⟨runq, hp, holder, inv.wakeup (by rw [here]; rfl) (by rw [here]; rfl) (by rw [here]; rfl)
      fits fun internal => absurd (good.2.2 internal) Bool.false_ne_true⟩
  · rename_i here
    cases stepped
    rw [here] at fits
    refine ⟨runq, hp, holder, inv.walk .runnable (by rw [here]; rfl) rfl (by rw [here]; rfl)
      (fun may => ?_) (Or.inl rfl) (fun granted => ?_) (by simp)
      fun internal => absurd (good.2.2 internal) Bool.false_ne_true⟩
    · rw [here] at may
      cases may
    · rw [show (s.sched.elems tid).status = .interProStop from fits] at granted
      rcases granted with isReg | isInterPro
      · cases isReg
      · cases isInterPro
  · rename_i here
    cases stepped
    rw [here] at fits
    exact ⟨runq, hp, holder, inv.wakeup (by rw [here]; rfl) (by rw [here]; rfl) (by rw [here]; rfl)
      fits fun internal => absurd (good.2.2 internal) Bool.false_ne_true⟩
  · rename_i here
    obtain ⟨sched, taken, isNext⟩ := Option.map_eq_some_iff.mp stepped
    rw [← isNext]
    exact ⟨runq, hp, some tid, inv.gotTurn rr here taken⟩
  · rename_i here
    exact inv.turnStep rr here good stepped
  · rename_i here
    split at stepped
    · rename_i perm
      cases stepped
      rw [here] at fits
      exact inv.block rr (by rw [here]; rfl) (by rw [here]; rfl) good.1 perm
        (by rw [show (s.sched.elems tid).status = .runningInterPro from fits]; rfl) rfl
        fun internal => absurd (good.2.2 internal) Bool.false_ne_true
    · cases stepped
  · rename_i here
    cases stepped
    exact inv.tryStep rr here
  · rename_i here
    exact inv.leaveStep rr here good.1 stepped
  · cases stepped

theorem init_layout (o : Options) (mainTh : PthreadT) :
    Layout o [] (Sched.init o mainTh) [mainThreadTid] [] := by
  have empty : Linked (fun _ => {}) {} {} [] [] :=
    ⟨⟨IsQueue.empty, rfl⟩, ⟨IsQueue.empty, rfl⟩, fun _ _ => List.not_mem_nil,
      fun _ _ _ => ⟨rfl, rfl⟩⟩
  have linked := (@Linked.pushBack _ _ _ _ _ mainThreadTid empty List.not_mem_nil
    List.not_mem_nil).setStatus mainThreadTid .runningReg
  have live : ∀ t, (Sched.init o mainTh).Live t ↔ t = mainThreadTid := fun t =>
    TidMap.init_live _ _ t
  have slots : ∀ t, ((Sched.init o mainTh).waits t).chan = none ∧
      ((Sched.init o mainTh).waits t).timeout = forever ∧
      ((Sched.init o mainTh).waits t).wokenUpFromHpQueueFlag = false := by
    intro t
    show ((Function.update _ mainThreadTid (WaitT.post o {}) : Tid → WaitT) t).chan = none ∧ _
    by_cases same : t = mainThreadTid
    · rw [same]
      have fields : (WaitT.post o {}).chan = none ∧ (WaitT.post o {}).timeout = forever ∧
          (WaitT.post o {}).wokenUpFromHpQueueFlag = false := by
        unfold WaitT.post
        repeat' split
        all_goals exact ⟨rfl, rfl, rfl⟩
      rw [Function.update_self]
      exact fields
    · refine ⟨?_, ?_, ?_⟩
      · rw [Function.update_of_ne same]
        rfl
      · show ((Function.update _ mainThreadTid (WaitT.post o {}) : Tid → WaitT) t).timeout = _
        rw [Function.update_of_ne same]
        rfl
      · show ((Function.update _ mainThreadTid (WaitT.post o {}) : Tid → WaitT)
          t).wokenUpFromHpQueueFlag = _
        rw [Function.update_of_ne same]
        rfl
  refine ⟨linked, fun t => ?_, fun t alive => ?_, fun _ => rfl, fun t set => ?_, ?_, ?_, ?_, ?_,
    fun t _ => ⟨(slots t).1, (slots t).2.1⟩⟩
  · show [mainThreadTid].count t + 0 + 0 + 0 = _
    by_cases same : t = mainThreadTid
    · rw [if_pos ((live t).mpr same), same, List.count_singleton_self]
    · rw [if_neg fun alive => same ((live t).mp alive),
        List.count_eq_zero_of_not_mem (by simpa using same)]
  · rw [(live t).mp alive]
    exact Nat.zero_lt_one
  · rw [(slots t).2.2] at set
    cases set
  · exact fun t inside => absurd inside List.not_mem_nil
  · exact fun some => absurd rfl some
  · exact fun t => Nat.zero_le _
  · exact fun _ => rfl

/-- **A process starts with the main thread at the front, owed the first turn.** -/
theorem initial (rr : o.RoundRobin) (mainTh : PthreadT) :
    Inv o scope (Sys.init o mainTh) [mainThreadTid] [] (some mainThreadTid) := by
  have layout := init_layout o mainTh
  have pcs : ∀ t, t ≠ mainThreadTid → (Sys.init o mainTh).pc t = .dead := by
    intro t other
    show Function.update (fun _ => Pc.dead) mainThreadTid Pc.away t = .dead
    rw [Function.update_of_ne other]
  have main : (Sys.init o mainTh).pc mainThreadTid = .away := by
    show Function.update (fun _ => Pc.dead) mainThreadTid Pc.away mainThreadTid = .away
    rw [Function.update_self]
  have status : ((Sched.init o mainTh).elems mainThreadTid).status = .runningReg :=
    setStatus_self mainThreadTid _
  have unflagged : ((Sched.init o mainTh).waits mainThreadTid).wokenUpFromHpQueueFlag = false := by
    by_contra set
    exact absurd (layout.flag mainThreadTid (by simpa using set)) (by simp)
  refine ⟨layout, fun t => ?_, fun noHolder => (Option.some_ne_none _ noHolder).elim,
    fun t isMain _ => ?_, fun t n isMain grantee => ?_, fun t keeps => ?_, fun t => ?_,
    fun t inside => ?_, fun t => ?_,
    fun t cur isTrying => ?_, fun t woken => ?_, fun _ t inside => ?_, fun _ => ⟨fun t => ?_, rfl⟩⟩
  · by_cases same : t = mainThreadTid
    · rw [same, main, if_pos rfl]
      show ((Function.update (fun _ => {}) mainThreadTid (WaitT.post o {}) : Tid → WaitT)
        mainThreadTid).posts o + 0 = 1
      rw [Function.update_self, posts_post rr]
      unfold WaitT.posts
      split <;> rfl
    · rw [pcs t same, if_neg fun eq => same (Option.some.inj eq).symm]
      show ((Function.update (fun _ => {}) mainThreadTid (WaitT.post o {}) : Tid → WaitT)
        t).posts o + 0 = 0
      rw [Function.update_of_ne same]
      unfold WaitT.posts
      split <;> rfl
  · cases isMain
    refine ⟨?_, Or.inl status⟩
    unfold AtFront
    rw [show (Sys.init o mainTh).sched = Sched.init o mainTh from rfl, unflagged]
    rfl
  · cases isMain
    rw [main] at grantee
    cases grantee
  · by_cases same : t = mainThreadTid
    · rw [same, main] at keeps
      cases keeps
    · rw [pcs t same] at keeps
      cases keeps
  · by_cases same : t = mainThreadTid
    · rw [same, main]
      exact iff_of_true (layout.runq_live List.mem_cons_self).1 rfl
    · rw [pcs t same]
      refine iff_of_false (fun alive => ?_) Bool.false_ne_true
      exact same (Nat.lt_one_iff.mp (layout.known t alive))
  · exact absurd inside List.not_mem_nil
  · by_cases same : t = mainThreadTid
    · rw [same, main]
      exact Or.inr status
    · rw [pcs t same]
      refine Or.inl ?_
      rw [show ((Sys.init o mainTh).sched.elems t) = _ from setStatus_of_ne same _]
      exact RunQueue.pushBack_status (fun _ => {}) {} mainThreadTid t
  · by_cases same : t = mainThreadTid
    · rw [same, main] at isTrying
      cases isTrying
    · rw [pcs t same] at isTrying
      cases isTrying
  · by_cases same : t = mainThreadTid
    · rw [same, main] at woken
      cases woken
    · rw [pcs t same] at woken
      cases woken
  · exact absurd inside List.not_mem_nil
  · by_cases same : t = mainThreadTid
    · rw [same, main]
      rfl
    · rw [pcs t same]
      rfl

theorem Holds.step (rr : o.RoundRobin) (s : Sys) (label : Tid × Action) (s' : Sys)
    (holds : Holds o scope s) (good : GoodStep o scope s label)
    (stepped : s.step o label = some s') : Holds o scope s' := by
  obtain ⟨_, _, _, inv⟩ := holds
  exact inv.step rr good stepped

/-- **The invariant holds after every run of good steps.** It may be used to show that they are. -/
theorem run (rr : o.RoundRobin) {mainTh : PthreadT} {labels : List (Tid × Action)}
    {condition : Sys → Tid × Action → Prop}
    (good : ∀ s label, Holds o scope s → condition s label → GoodStep o scope s label)
    (along : Along (Sys.step o) condition (Sys.init o mainTh) labels)
    (ran : exec (Sys.step o) (Sys.init o mainTh) labels = some s) : Holds o scope s := by
  have start : Holds o scope (Sys.init o mainTh) := ⟨_, _, _, initial rr mainTh⟩
  exact exec_invariant (Holds o scope) (Holds.step rr) start
    (along.of_invariant (Holds o scope) (Holds.step rr) good start) ran

end Inv

end MinSmt
