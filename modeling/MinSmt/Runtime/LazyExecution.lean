/-
**A process in which threads lag behind.**

What a thread does without the turn can wait until its next turn, unless somebody else changes what it
reads: the maps that `check_cv_wait_cnt` asks after `putTurn`. In the lazy process a thread does all of
it just before it goes on with the turn, and then one thread at a time can move.

* `Execution.lazyStep` — the step of the lazy process: a thread catches up, and goes on with the turn.
* `Act.Does`, `act_does` — what a step of the turn holder does to the posts: it takes one, or gives one,
  or neither.
* `Single o p holder` — nobody but `holder` has the turn or is owed it; `Single.lazyStep` keeps it.
* `Settled o p label` — a thread executes what follows `putTurn` only when it has been posted again, or
  when none of its pointers can be reset there.
* **`Behind.follows`** — a process with settled steps does what the lazy process does.
-/

import MinSmt.Runtime.Execution
import MinSmt.Scheduler.Exclusion

namespace MinSmt

open MinSmt.Library

/-! ### Catching up -/

/-- Nothing that `check_cv_wait_cnt` could reset. -/
def Local.Detached (o : Options) (l : Local) : Prop :=
  l.satisfyingSem = none ∧ (o.wakeamapPlus = true → l.satisfyingRole = none) ∧
    (o.wakeamapPlus = false → l.satisfyingCV = none)

instance (o : Options) (l : Local) : Decidable (l.Detached o) := inferInstanceAs (Decidable (_ ∧ _ ∧ _))

/-- Then it does not matter what the maps are. -/
theorem afterPutTurn_of_detached {o : Options} {l : Local} (detached : l.Detached o) (sh sh' : Shared) :
    afterPutTurn o sh l = afterPutTurn o sh' l := by
  obtain ⟨noSem, noRole, noCV⟩ := detached
  unfold afterPutTurn
  generalize same : (if 0 < l.slockNTurns then { l with slockNTurns := l.slockNTurns - 1 } else l) = l'
  have pointers : l'.satisfyingSem = l.satisfyingSem ∧ l'.satisfyingRole = l.satisfyingRole ∧
      l'.satisfyingCV = l.satisfyingCV := by
    rw [← same]
    split <;> exact ⟨rfl, rfl, rfl⟩
  unfold checkCvWaitCnt
  cases plus : o.wakeamapPlus with
  | true => simp [pointers, noSem, noRole plus]
  | false => simp [pointers, noSem, noCV plus]

namespace Thread

variable {o : Options} {sh : Shared} {program : Program} {handle : Tid → PthreadT} {th th' : Thread}

/-- The thread after all it does without the turn. -/
def caughtUp (o : Options) (sh : Shared) (program : Program) (handle : Tid → PthreadT) (th : Thread) : Thread :=
  let th := (th.finish o sh).getD th
  (th.arrive o program handle).getD th

theorem finish_site (finished : th.finish o sh = some th') :
    th.site = .off (some .returning) ∧ th'.site = .off (some .outside) := by
  unfold finish at finished
  split at finished
  · rename_i here
    cases finished
    exact ⟨here, rfl⟩
  · cases finished

theorem arrive_site (arrived : th.arrive o program handle = some th') :
    th.site = .off (some .outside) ∧ ∃ stage, th'.site = .off (some (.inside stage)) := by
  unfold arrive at arrived
  split at arrived
  · rename_i here
    cases arrived
    exact ⟨here, _, rfl⟩
  · cases arrived

/-- A thread in `getTurn`, or with the turn, has nothing to catch up with. -/
theorem caughtUp_of_site (notReturning : th.site ≠ .off (some .returning))
    (notOutside : th.site ≠ .off (some .outside)) : th.caughtUp o sh program handle = th := by
  have finished : th.finish o sh = none := if_neg notReturning
  have arrived : th.arrive o program handle = none := if_neg notOutside
  rw [caughtUp, finished]
  dsimp only [Option.getD_none]
  rw [arrived, Option.getD_none]

theorem caughtUp_of_finish (finished : th.finish o sh = some th') :
    th.caughtUp o sh program handle = th'.caughtUp o sh program handle := by
  have site := (finish_site finished).2
  have finishedOnce : th'.finish o sh = none := if_neg (by simp [site])
  rw [caughtUp, caughtUp, finished, finishedOnce]
  rfl

theorem caughtUp_of_arrive (arrived : th.arrive o program handle = some th') :
    th.caughtUp o sh program handle = th' := by
  have site := (arrive_site arrived).1
  have notFinished : th.finish o sh = none := if_neg (by simp [site])
  rw [caughtUp, notFinished, Option.getD_none, arrived, Option.getD_some]

/-- Nobody gets the turn, or gives it up, by catching up. -/
theorem caughtUp_inTurn (th : Thread) : (th.caughtUp o sh program handle).site.inTurn = th.site.inTurn := by
  have arriving : ∀ th : Thread, ((th.arrive o program handle).getD th).site.inTurn = th.site.inTurn := by
    intro th
    cases arrived : th.arrive o program handle with
    | none => rfl
    | some th' =>
      obtain ⟨here, stage, there⟩ := arrive_site arrived
      rw [Option.getD_some, here, there]
      rfl
  unfold caughtUp
  dsimp only
  rw [arriving]
  cases finished : th.finish o sh with
  | none => rfl
  | some th' =>
    obtain ⟨here, there⟩ := finish_site finished
    rw [Option.getD_some, here, there]
    rfl

end Thread

namespace Execution

variable (o : Options) (program : Program) (handle : Tid → PthreadT) (p : Execution) (tid : Tid)

/-- A thread catches up. -/
def catchUp : Execution := p.move tid ((p.thread tid).caughtUp o p.shared program handle)

/-- **One step of the lazy process.** -/
def lazyStep : Option Execution := (p.catchUp o program handle tid).step o program handle (tid, .go)

/-- The turn that it takes. -/
def lazyTurn : Option Turn := (p.catchUp o program handle tid).turnOf o handle (tid, .go)

/-- The thread has been posted. -/
def Posted : Prop := 0 < (p.sched.waits tid).posts o

instance : Decidable (p.Posted o tid) := inferInstanceAs (Decidable (_ < _))

/-- **The step is settled**: what follows `putTurn` is executed when the thread has been posted again,
or when there is nothing to reset. -/
def Settled (label : Tid × ThreadMove) : Prop :=
  label.2 = .finish → p.Posted o label.1 ∨ (p.thread label.1).self.Detached o

instance (label : Tid × ThreadMove) : Decidable (p.Settled o label) := inferInstanceAs (Decidable (_ → _ ∨ _))

end Execution

/-! ### What a step of the turn holder does to the posts -/

/-- No thread has more posts than before, and none is new. -/
structure Sched.Calm (o : Options) (s s' : Sched) : Prop where
  posts : ∀ t, (s'.waits t).posts o ≤ (s.waits t).posts o
  nthread : s'.tm.nthread = s.tm.nthread

namespace Sched.Calm

variable {o : Options} {s s' s'' : Sched} {tid : Tid}

theorem refl (s : Sched) : Calm o s s := ⟨fun _ => Nat.le_refl _, rfl⟩

theorem trans (first : Calm o s s') (second : Calm o s' s'') : Calm o s s'' :=
  ⟨fun t => (second.posts t).trans (first.posts t), second.nthread.trans first.nthread⟩

theorem of_same (same : Same s s') : Calm o s s' :=
  ⟨fun t => posts_le (same.sem t) (same.wakenUp t), same.nthread⟩

/-- Counting a turn posts nobody. -/
theorem of_ticked (same : Same { s with toCore := s.toCore.tick } s') : Calm o s s' :=
  ⟨fun t => posts_le (same.sem t) (same.wakenUp t), same.nthread⟩

theorem incTurnCount (s : Sched) : Calm o s (s.incTurnCount o []) := of_ticked (Same.frame.incTurnCount [])

/-- The operations of a turn, but for `create`, which is nothing here. -/
theorem keeps (chan : Option Chan) (s : Sched) :
    Keeps { Sched.serializer o with create := fun s _ _ => s } chan (Calm o s) :=
  ⟨fun _ c all _ calm => calm.trans (of_same (Same.frame.signal c all)),
    fun s' calm => calm.trans (incTurnCount s'), fun _ _ _ calm => calm,
    fun _ _ calm => ⟨calm.posts, calm.nthread⟩⟩

end Sched.Calm

/-- What the scheduler does to create a thread matters to the turns that create one only. -/
theorem turn_of_bears_none {σ : Type} {S : Serializer σ} {o : Options} {tid : Tid} {e : Env σ} {stage : Stage}
    (none : stage.bears = none) (create : σ → PthreadT → ThreadFunc → σ) :
    turn S o tid e stage = turn { S with create := create } o tid e stage := by
  cases stage with
  | called call =>
    cases call with
    | create th threadFunc arg => cases none
    | createIdle th => cases none
    | _ => rfl
  | _ => rfl

/-- And those do nothing else to the scheduler. -/
theorem turn_of_bears_some {σ : Type} {S : Serializer σ} {o : Options} {tid : Tid} {e : Env σ} {stage : Stage}
    {code : Code} (bears : stage.bears = some code) :
    ∃ th threadFunc, (turn S o tid e stage).1.sched = S.create e.sched th threadFunc := by
  cases stage with
  | called call =>
    cases call with
    | create th threadFunc arg => exact ⟨th, threadFunc, rfl⟩
    | createIdle th => exact ⟨th, idleThreadFunc, rfl⟩
    | _ => cases bears
  | _ => cases bears

/-- The code of the thread that is created in a site. -/
def Site.bears : Site → Option Code
  | .turn stage => stage.bears
  | _ => none

/-- **What a step of the turn holder can do** to the posts. -/
inductive Act.Does (o : Options) (tid : Tid) (e : Env Sched) (site : Site) (act : Act) : Prop
  | take (here : site.inTurn = false) (took : e.sched.take o tid = some act.env.sched)
  | keep (here : site.inTurn = true) (posts : ∀ t, (act.env.sched.waits t).posts o ≤ (e.sched.waits t).posts o)
  | post (next : Tid) (here : site.inTurn = true) (there : act.site.inTurn = false)
      (posted : act.env.sched = e.sched.post o next)

/-- The step creates the threads that it should. -/
structure Act.Bears (e : Env Sched) (site : Site) (act : Act) : Prop where
  born : act.born = site.bears
  nthread : act.env.sched.tm.nthread = e.sched.tm.nthread + site.bears.toList.length

namespace Act

open Sched

variable {o : Options} {th : PthreadT} {tid : Tid} {e : Env Sched} {act : Act}

theorem leave_calm {s : Sched} {sched : Option Sched} {atThreadEnd : Bool} {strategy : Strategy}
    {after : Option Spot} {returned : Option Result} (calm : ∀ s', sched = some s' → Sched.Calm o s s')
    (left : leave e sched atThreadEnd strategy after returned = some act) :
    Sched.Calm o s act.env.sched ∧ act.born = none := by
  obtain ⟨s', isSched, rfl⟩ := Option.map_eq_some_iff.mp left
  exact ⟨calm s' isSched, rfl⟩

theorem giveUp_calm {finish : Finish} (gave : giveUp o tid e finish = some act) :
    Sched.Calm o e.sched act.env.sched ∧ act.born = none := by
  have counted : Sched.Calm o e.sched (e.sched.incTurnCount o []) := Sched.Calm.incTurnCount e.sched
  cases finish with
  | done isCreate result =>
    exact leave_calm (fun s' put => counted.trans (Sched.Calm.of_same (Same.frame.putTurn put))) gave
  | wait chan timeout stage =>
    exact leave_calm (fun s' waits => Sched.Calm.of_ticked (Same.frame.wait (Same.enqueues tid) waits)) gave
  | bounce stage => exact leave_calm (fun s' put => Sched.Calm.of_same (Same.frame.putTurn put)) gave
  | ended => exact leave_calm (fun s' put => counted.trans (Sched.Calm.of_same (Same.frame.putTurnAtEnd put))) gave
  | release => exact leave_calm (fun s' put => counted.trans (Sched.Calm.of_same (Same.frame.putTurn put))) gave
  | idle =>
    simp only [giveUp] at gave
    split at gave
    · split at gave
      · cases gave
        exact ⟨counted, rfl⟩
      · exact leave_calm (fun s' put => counted.trans (Sched.Calm.of_same (Same.frame.putTurn put))) gave
    · cases gave
  | exit => cases gave

theorem bears_withHandle (stage : Stage) : (stage.withHandle th).bears = stage.bears := by
  cases stage with
  | called call => cases call <;> rfl
  | _ => rfl

/-- A turn posts nobody, and creates at most one thread. -/
theorem ofTurn_posts {stage : Stage} (took : ofTurn o th tid e stage = some act) :
    (∀ t, (act.env.sched.waits t).posts o ≤ (e.sched.waits t).posts o) ∧ Bears e (.turn stage) act := by
  obtain ⟨given, gave, rfl⟩ := Option.map_eq_some_iff.mp took
  have calm := (giveUp_calm gave).1
  have same : (stage.withHandle th).bears = stage.bears := bears_withHandle stage
  cases bears : stage.bears with
  | none =>
    have turned : Sched.Calm o e.sched
        (MinSmt.turn (Sched.serializer o) o tid e (stage.withHandle th)).1.sched := by
      rw [turn_of_bears_none (same.trans bears) fun s _ _ => s]
      exact turn_keeps (Sched.Calm.keeps _ e.sched) (Sched.Calm.refl e.sched)
    have both := turned.trans calm
    refine ⟨both.posts, same, both.nthread.trans ?_⟩
    show _ = _ + stage.bears.toList.length
    rw [bears]
    rfl
  | some code =>
    obtain ⟨th', threadFunc, created⟩ :
        ∃ th' threadFunc, (MinSmt.turn (Sched.serializer o) o tid e (stage.withHandle th)).1.sched =
          e.sched.create o th' threadFunc := turn_of_bears_some (same.trans bears)
    have made : (∀ t, ((e.sched.create o th' threadFunc).waits t).posts o ≤ (e.sched.waits t).posts o) ∧
        (e.sched.create o th' threadFunc).tm.nthread = e.sched.tm.nthread + 1 := by
      unfold Sched.create
      dsimp only
      split
      · split <;> exact ⟨fun _ => Nat.le_refl _, rfl⟩
      · exact ⟨fun _ => Nat.le_refl _, rfl⟩
    rw [created] at calm
    refine ⟨fun t => (calm.posts t).trans (made.1 t), same, calm.nthread.trans (made.2.trans ?_)⟩
    show _ = _ + stage.bears.toList.length
    rw [bears]
    rfl

theorem trying_calm {cur : Option Tid} (looked : trying o tid e cur = some act) :
    Sched.Calm o e.sched act.env.sched ∧ act.born = none := by
  cases cur with
  | none => exact leave_calm (fun s' put => Sched.Calm.of_same (Same.frame.putTurn put)) looked
  | some cur =>
    simp only [trying] at looked
    split at looked
    · refine leave_calm (fun s' waits => ?_) looked
      exact Sched.Calm.of_same ((Same.frame.setStatus _).trans (Same.frame.idleEnqueue (Same.enqueues tid) waits))
    · cases looked
      exact ⟨Sched.Calm.refl e.sched, rfl⟩

theorem picked_calm {pick : Sched.Pick} {atThreadEnd : Bool} {strategy : Strategy} {after : Option Spot}
    (picks : Frame.Picks Same e.sched pick) (isPicked : picked e atThreadEnd strategy after pick = some act) :
    Sched.Calm o e.sched act.env.sched ∧ act.born = none := by
  cases pick with
  | again s strategy =>
    cases isPicked
    exact ⟨Sched.Calm.of_same picks, rfl⟩
  | grant s next =>
    cases isPicked
    exact ⟨Sched.Calm.of_same picks, rfl⟩
  | invalid =>
    cases isPicked
    exact ⟨Sched.Calm.refl e.sched, rfl⟩
  | exit | threadExit | crash => cases isPicked

/-- **Every step is like that.** -/
theorem act_does {site : Site} (acted : Act.act o th tid e site = some act) :
    Does o tid e site act ∧ Bears e site act := by
  have calm : site.inTurn = true → site.bears = none → Sched.Calm o e.sched act.env.sched ∧ act.born = none →
      Does o tid e site act ∧ Bears e site act := by
    intro here none ⟨calm, born⟩
    refine ⟨.keep here calm.posts, born.trans none.symm, calm.nthread.trans ?_⟩
    rw [none]
    rfl
  cases site with
  | off spot =>
    cases spot with
    | none => cases acted
    | some spot =>
      cases spot with
      | outside | returning => cases acted
      | inside stage =>
        obtain ⟨s, took, rfl⟩ := Option.map_eq_some_iff.mp acted
        refine ⟨.take rfl took, rfl, ?_⟩
        obtain ⟨w, -, isSched⟩ := Option.bind_eq_some_iff.mp took
        split at isSched
        · split at isSched
          · cases isSched
          · cases isSched
            rfl
        · cases isSched
          rfl
  | turn stage =>
    obtain ⟨posts, bears⟩ := ofTurn_posts acted
    exact ⟨.keep rfl posts, bears⟩
  | trying cur => exact calm rfl rfl (trying_calm acted)
  | leaving phase atThreadEnd strategy after =>
    cases phase with
    | checking =>
      cases acted
      exact calm rfl rfl ⟨Sched.Calm.of_same (Same.frame.checkWakeup []), rfl⟩
    | picking => exact calm rfl rfl (picked_calm (Same.frame.nextRunnable _ _ _ _) acted)
    | posting next =>
      cases acted
      exact ⟨.post next rfl rfl rfl, rfl, rfl⟩

end Act

/-! ### One turn at a time -/

/-- **Nobody but `holder` has the turn or is owed it.** -/
def Execution.Single (o : Options) (p : Execution) (holder : Option Tid) : Prop :=
  ∀ t, (p.thread t).site.inTurn.toNat + (p.sched.waits t).posts o ≤ if holder = some t then 1 else 0

namespace Execution.Single

variable {o : Options} {program : Program} {handle : Tid → PthreadT} {p p' : Execution} {holder : Option Tid}
  {tid : Tid} {act : Act}

theorem holder_of_pos (single : Single o p holder)
    (pos : 0 < (p.thread tid).site.inTurn.toNat + (p.sched.waits tid).posts o) : holder = some tid := by
  have own := single tid
  by_contra other
  rw [if_neg other] at own
  omega

theorem holder_of_posted (single : Single o p holder) (posted : p.Posted o tid) : holder = some tid :=
  single.holder_of_pos (Nat.add_pos_right _ posted)

/-- Whoever has the turn is owed none, and nobody else has it or is owed it. -/
theorem holder_of_turn (single : Single o p holder) (inTurn : (p.thread tid).site.inTurn = true) :
    holder = some tid :=
  single.holder_of_pos (Nat.add_pos_left (by rw [inTurn]; exact Nat.one_pos) _)

theorem catchUp (single : Single o p holder) : Single o (p.catchUp o program handle tid) holder := by
  have turns : ∀ t, ((p.catchUp o program handle tid).thread t).site.inTurn = (p.thread t).site.inTurn := by
    intro t
    unfold Execution.catchUp Execution.move
    by_cases own : t = tid
    · subst own
      dsimp only
      rw [Function.update_self, Thread.caughtUp_inTurn]
    · dsimp only
      rw [Function.update_of_ne own]
  intro t
  rw [turns]
  exact single t

variable (rr : o.RoundRobin)

include rr

/-- A thread that takes a post has been posted. -/
theorem posted_of_take {s s' : Sched} (took : s.take o tid = some s') :
    ∃ w, s' = { s with waits := Function.update s.waits tid w } ∧ (s.waits tid).posts o = w.posts o + 1 := by
  have nonneg : ¬ o.enforceTurnType < 0 := Int.not_lt.mpr rr.nonneg
  obtain ⟨w, tookPost, isSched⟩ := Option.bind_eq_some_iff.mp took
  rw [if_neg nonneg] at isSched
  exact ⟨w, (Option.some.inj isSched).symm, (posts_take rr tookPost).1⟩

/-- **Only the holder can go on with the turn.** -/
theorem holder_of_act (single : Single o p holder) (acted : p.act o handle tid = some act) :
    holder = some tid := by
  cases (Act.act_does acted).1 with
  | take here took =>
    obtain ⟨w, -, posts⟩ := posted_of_take rr took
    refine single.holder_of_posted ?_
    show 0 < (p.sched.waits tid).posts o
    rw [show (p.sched.waits tid).posts o = _ from posts]
    exact Nat.succ_pos _
  | keep here posts => exact single.holder_of_turn here
  | post next here there posted => exact single.holder_of_turn here

omit rr in
/-- A thread that has just been created does not have the turn. -/
theorem put_inTurn_of_ne {t : Tid} (other : t ≠ tid) :
    ((p.put tid act).thread t).site.inTurn.toNat ≤ (p.thread t).site.inTurn.toNat := by
  show (Function.update (p.bear act.born) tid _ t).site.inTurn.toNat ≤ _
  rw [Function.update_of_ne other]
  unfold Execution.bear
  cases act.born with
  | none => exact Nat.le_refl _
  | some code =>
    by_cases new : t = p.sched.tm.nthread
    · dsimp only
      rw [new, Function.update_self]
      exact Nat.zero_le _
    · dsimp only
      rw [Function.update_of_ne new]

omit rr in
theorem put_site_self : ((p.put tid act).thread tid).site = act.site := by
  show (Function.update (p.bear act.born) tid _ tid).site = _
  rw [Function.update_self]

/-- **A step of the turn holder keeps it.** -/
theorem put (single : Single o p holder) (acted : p.act o handle tid = some act) :
    ∃ holder', Single o (p.put tid act) holder' := by
  have isHolder := single.holder_of_act rr acted
  subst isHolder
  have own := single tid
  have others : ∀ t, t ≠ tid → (p.thread t).site.inTurn.toNat + (p.sched.waits t).posts o = 0 := by
    intro t other
    have rest := single t
    rw [if_neg fun same => other (Option.some.inj same).symm] at rest
    exact Nat.le_zero.mp rest
  rw [if_pos rfl] at own
  cases (Act.act_does acted).1 with
  | take here took =>
    obtain ⟨w, isSched, posts⟩ := posted_of_take rr took
    refine ⟨some tid, fun t => ?_⟩
    show _ + (act.env.sched.waits t).posts o ≤ _
    rw [isSched]
    by_cases isTid : t = tid
    · subst isTid
      have gone : w.posts o = 0 := by
        have before : (p.sched.waits t).posts o = w.posts o + 1 := posts
        omega
      rw [if_pos rfl]
      show _ + ((Function.update p.sched.waits t w) t).posts o ≤ 1
      rw [Function.update_self, gone]
      exact Bool.toNat_le _
    · have rest := others t isTid
      have turns := @put_inTurn_of_ne p tid act t isTid
      show _ + ((Function.update p.sched.waits tid w) t).posts o ≤ _
      rw [Function.update_of_ne isTid]
      omega
  | keep here posts =>
    refine ⟨some tid, fun t => ?_⟩
    have posts : (act.env.sched.waits t).posts o ≤ (p.sched.waits t).posts o := posts t
    show _ + (act.env.sched.waits t).posts o ≤ _
    by_cases isTid : t = tid
    · subst isTid
      have inTurn : (p.thread t).site.inTurn = true := here
      rw [inTurn] at own
      have atMost := Bool.toNat_le ((p.put t act).thread t).site.inTurn
      rw [if_pos rfl]
      simp only [Bool.toNat_true] at own
      omega
    · have rest := others t isTid
      have turns := @put_inTurn_of_ne p tid act t isTid
      omega
  | post next here there posted =>
    have inTurn : (p.thread tid).site.inTurn = true := here
    rw [inTurn] at own
    simp only [Bool.toNat_true] at own
    have nothing : ∀ t, (p.sched.waits t).posts o = 0 := by
      intro t
      by_cases isTid : t = tid
      · subst isTid
        omega
      · have rest := others t isTid
        omega
    have nobody : ∀ t, ((p.put tid act).thread t).site.inTurn.toNat = 0 := by
      intro t
      by_cases isTid : t = tid
      · subst isTid
        rw [put_site_self, there]
        rfl
      · have rest := others t isTid
        have turns := @put_inTurn_of_ne p tid act t isTid
        omega
    refine ⟨some next, fun t => ?_⟩
    rw [nobody t]
    show 0 + (act.env.sched.waits t).posts o ≤ _
    rw [posted]
    by_cases isNext : t = next
    · subst isNext
      have once := posts_post rr (p.sched.waits t) (nothing t)
      rw [if_pos rfl]
      show 0 + ((Function.update p.sched.waits t ((p.sched.waits t).post o)) t).posts o ≤ 1
      rw [Function.update_self, once]
    · show 0 + ((Function.update p.sched.waits next ((p.sched.waits next).post o)) t).posts o ≤ _
      rw [Function.update_of_ne isNext, nothing t]
      exact Nat.zero_le _

theorem go (single : Single o p holder) (stepped : p.step o program handle (tid, .go) = some p') :
    holder = some tid ∧ ∃ holder', Single o p' holder' := by
  obtain ⟨act, acted, rfl⟩ := Option.map_eq_some_iff.mp stepped
  exact ⟨single.holder_of_act rr acted, single.put rr acted⟩

/-- **Every step of the lazy process keeps it.** -/
theorem lazyStep (single : Single o p holder) (stepped : p.lazyStep o program handle tid = some p') :
    holder = some tid ∧ ∃ holder', Single o p' holder' :=
  have caught : Single o (p.catchUp o program handle tid) holder := single.catchUp
  caught.go rr stepped

/-- The main thread is owed the first turn. -/
theorem initial (handle : Tid → PthreadT) : Single o (Execution.init o handle) (some mainThreadTid) := by
  have nobody : ∀ t, ((Execution.init o handle).thread t).site.inTurn = false := by
    intro t
    unfold Execution.init
    by_cases isMain : t = mainThreadTid
    · rw [isMain]
      rfl
    · dsimp only
      rw [Function.update_of_ne isMain]
      rfl
  have fresh : ({} : WaitT).posts o = 0 := by
    unfold WaitT.posts
    split <;> rfl
  intro t
  rw [nobody t]
  by_cases isMain : t = mainThreadTid
  · subst isMain
    simp [Execution.init, Sched.init, Sched.setStatus, Sched.post, Sched.pushRunq, posts_post rr {} fresh]
  · simp [Execution.init, Sched.init, Sched.setStatus, Sched.post, Sched.pushRunq,
      Function.update_of_ne isMain, fresh]

end Execution.Single

/-! ### A process with settled steps -/

/-- **The process may be ahead of the lazy one**: its threads have executed some of what they do without
the turn. Whoever has not been posted catches up to the same whatever becomes of the shared maps. -/
structure Behind (o : Options) (program : Program) (handle : Tid → PthreadT) (c q : Execution) : Prop where
  sched : q.sched = c.sched
  shared : q.shared = c.shared
  thread : ∀ t sh, sh = c.shared ∨ ¬ c.Posted o t →
    (q.thread t).caughtUp o sh program handle = (c.thread t).caughtUp o sh program handle

namespace Behind

open Execution

variable {o : Options} {program : Program} {handle : Tid → PthreadT} {c q q' : Execution} {holder : Option Tid}
  {tid : Tid}

theorem refl (p : Execution) : Behind o program handle p p := ⟨rfl, rfl, fun _ _ _ => rfl⟩

/-- A thread of the process moves on, to something that catches up to the same. -/
theorem moved (behind : Behind o program handle c q) {th : Thread}
    (same : ∀ sh, sh = c.shared ∨ ¬ c.Posted o tid →
      th.caughtUp o sh program handle = (q.thread tid).caughtUp o sh program handle) :
    Behind o program handle c (q.move tid th) := by
  refine ⟨behind.sched, behind.shared, fun t sh stable => ?_⟩
  show (Function.update q.thread tid th t).caughtUp o sh program handle = _
  by_cases isTid : t = tid
  · subst isTid
    rw [Function.update_self, same sh stable]
    exact behind.thread t sh stable
  · rw [Function.update_of_ne isTid]
    exact behind.thread t sh stable

/-- What follows `putTurn` is silent for the lazy process. -/
theorem finish (behind : Behind o program handle c q) (settled : q.Settled o (tid, .finish))
    (stepped : q.step o program handle (tid, .finish) = some q') : Behind o program handle c q' := by
  obtain ⟨th, finished, rfl⟩ := Option.map_eq_some_iff.mp stepped
  have finished : (q.thread tid).finish o q.shared = some th := finished
  refine behind.moved fun sh stable => ?_
  have same : (q.thread tid).finish o sh = some th := by
    rcases stable with now | notPosted
    · rw [now, ← behind.shared]
      exact finished
    · have detached : (q.thread tid).self.Detached o := by
        refine (settled rfl).resolve_left fun posted => notPosted ?_
        unfold Posted at posted ⊢
        rwa [← behind.sched]
      rw [← finished]
      unfold Thread.finish
      rw [afterPutTurn_of_detached detached sh q.shared]
  exact (Thread.caughtUp_of_finish same).symm

/-- So is the way to `getTurn`. -/
theorem arrive (behind : Behind o program handle c q)
    (stepped : q.step o program handle (tid, .arrive) = some q') : Behind o program handle c q' := by
  obtain ⟨th, arrived, rfl⟩ := Option.map_eq_some_iff.mp stepped
  have arrived : (q.thread tid).arrive o program handle = some th := arrived
  obtain ⟨-, stage, there⟩ := Thread.arrive_site arrived
  refine behind.moved fun sh _ => ?_
  rw [Thread.caughtUp_of_arrive arrived, Thread.caughtUp_of_site (by rw [there]; nofun) (by rw [there]; nofun)]

/-- A thread that can go on with the turn has caught up. -/
theorem caughtUp_of_act {act : Act} {sh : Shared} (acted : q.act o handle tid = some act) :
    (q.thread tid).caughtUp o sh program handle = q.thread tid := by
  apply Thread.caughtUp_of_site
  all_goals
    intro site
    unfold Execution.act at acted
    rw [site] at acted
    cases acted

/-- **The step of the turn holder is one of the lazy process.** -/
theorem go (rr : o.RoundRobin) (behind : Behind o program handle c q) (single : Single o c holder)
    (stepped : q.step o program handle (tid, .go) = some q') :
    ∃ c', c.lazyStep o program handle tid = some c' ∧
      q.turnOf o handle (tid, .go) = c.lazyTurn o program handle tid ∧
      Behind o program handle c' q' := by
  obtain ⟨act, acted, rfl⟩ := Option.map_eq_some_iff.mp stepped
  have acted : q.act o handle tid = some act := acted
  have caught : (c.catchUp o program handle tid).thread tid = q.thread tid := by
    show Function.update c.thread tid _ tid = _
    rw [Function.update_self, ← behind.thread tid c.shared (Or.inl rfl), caughtUp_of_act acted]
  have same : (c.catchUp o program handle tid).act o handle tid = q.act o handle tid := by
    unfold Execution.act Execution.env
    rw [caught, behind.sched, behind.shared]
    rfl
  have caughtUp : Single o (c.catchUp o program handle tid) holder := single.catchUp
  have isHolder := caughtUp.holder_of_act rr (same.trans acted)
  refine ⟨(c.catchUp o program handle tid).put tid act, ?_, ?_, rfl, rfl, fun t sh _ => ?_⟩
  · exact Option.map_eq_some_iff.mpr ⟨act, same.trans acted, rfl⟩
  · exact congrArg (Option.bind · Act.took) same.symm
  · show (Function.update (q.bear act.born) tid _ t).caughtUp o sh program handle =
      (Function.update ((c.catchUp o program handle tid).bear act.born) tid _ t).caughtUp o sh program handle
    by_cases isTid : t = tid
    · subst isTid
      rw [Function.update_self, Function.update_self, caught]
    · rw [Function.update_of_ne isTid, Function.update_of_ne isTid]
      -- the others are not posted, so they may look at any maps
      have notPosted : ¬ c.Posted o t := fun posted =>
        isTid (Option.some.inj ((single.holder_of_posted posted).symm.trans isHolder))
      have before := behind.thread t sh (Or.inr notPosted)
      have waits : (c.catchUp o program handle tid).thread t = c.thread t := Function.update_of_ne isTid _ _
      have born : (c.catchUp o program handle tid).sched.tm.nthread = q.sched.tm.nthread := by
        rw [behind.sched]
        rfl
      unfold Execution.bear
      cases act.born with
      | none =>
        dsimp only
        rw [waits]
        exact before
      | some code =>
        dsimp only
        rw [born]
        by_cases new : t = q.sched.tm.nthread
        · rw [new, Function.update_self, Function.update_self]
        · rw [Function.update_of_ne new, Function.update_of_ne new, waits]
          exact before

/-- **A settled step is silent, or the step of the lazy process.** -/
theorem follows (rr : o.RoundRobin) (behind : Behind o program handle c q) (single : Single o c holder)
    {label : Tid × ThreadMove} (settled : q.Settled o label)
    (stepped : q.step o program handle label = some q') :
    (q.turnOf o handle label = none ∧ Behind o program handle c q') ∨
      ∃ c', c.lazyStep o program handle label.1 = some c' ∧
        q.turnOf o handle label = c.lazyTurn o program handle label.1 ∧ Behind o program handle c' q' := by
  obtain ⟨tid, move⟩ := label
  cases move with
  | finish => exact Or.inl ⟨rfl, behind.finish settled stepped⟩
  | arrive => exact Or.inl ⟨rfl, behind.arrive stepped⟩
  | go => exact Or.inr (behind.go rr single stepped)

end Behind

end MinSmt
