/-
**Handles that are given again.**

`pthread_create` may return a handle that a thread had before, once that thread has been joined. A
process does not depend on the handles as long as it never gets one that it still knows.

* `Execution.Names p th` — the process knows the handle: its thread lives, or has ended and not been
  joined, or somebody is about to join it.
* `Owns handle n t` — among the first `n` threads, `t` is the last one that got its handle.
* `Execution.Handed handle p label` — a thread that is created gets a handle that the process does not
  know, and a thread is joined by a handle that is still its own.
* `named_congr`, `names_of_named` — only the handles that a process knows matter to it.
* **`Renamed.step`** — a process whose steps are `Handed` does what it does when the handles are the tids.
-/

import MinSmt.Runtime.ExecutionRenaming

namespace MinSmt

open MinSmt.Library

variable {h h' : PthreadT → PthreadT}

/-! ### The handles that a process knows -/

/-- The handle of the thread that is joined at a stage. -/
def Stage.joined : Stage → Option PthreadT
  | .called call => call.joins
  | .joining th => some th
  | _ => none

def Spot.joined : Spot → Option PthreadT
  | .inside stage => stage.joined
  | _ => none

def Site.joined : Site → Option PthreadT
  | .off spot => spot.bind Spot.joined
  | .turn stage => stage.joined
  | .trying _ => none
  | .leaving _ _ _ after => after.bind Spot.joined

/-- **The process knows the handle.** -/
inductive Execution.Names (p : Execution) (th : PthreadT) : Prop
  | known (here : p.sched.tm.pToT th ≠ none)
  | alive (t : Tid) (here : p.sched.tm.tToP t = some th)
  | zombie (here : p.sched.tm.zombies th = true)
  | awaited (t : Tid) (here : (p.sched.waits t).chan = some (.thread th))
  | joined (t : Tid) (here : (p.thread t).site.joined = some th)

theorem Stage.joined_named (stage : Stage) : (stage.named h).joined = stage.joined.map h := by
  cases stage with
  | called call => cases call <;> rfl
  | _ => rfl

theorem Site.joined_named (site : Site) : (site.named h).joined = site.joined.map h := by
  cases site with
  | off spot | leaving _ _ _ spot =>
    cases spot with
    | none => rfl
    | some spot =>
      cases spot with
      | inside stage => exact Stage.joined_named stage
      | outside | returning => rfl
  | turn stage => exact Stage.joined_named stage
  | trying cur => rfl

theorem Stage.named_congr {stage : Stage} (same : ∀ th ∈ stage.joined, h th = h' th) :
    stage.named h = stage.named h' := by
  cases stage with
  | called call => exact congrArg Stage.called (Call.named_congr same)
  | joining th => exact congrArg Stage.joining (same th rfl)
  | _ => rfl

theorem Spot.named_congr {spot : Option Spot} (same : ∀ th ∈ spot.bind Spot.joined, h th = h' th) :
    spot.map (Spot.named h) = spot.map (Spot.named h') := by
  cases spot with
  | none => rfl
  | some spot =>
    cases spot with
    | inside stage => exact congrArg (fun stage => some (Spot.inside stage)) (Stage.named_congr same)
    | outside | returning => rfl

theorem Site.named_congr {site : Site} (same : ∀ th ∈ site.joined, h th = h' th) :
    site.named h = site.named h' := by
  cases site with
  | off spot => exact congrArg Site.off (Spot.named_congr same)
  | turn stage => exact congrArg Site.turn (Stage.named_congr same)
  | trying cur => rfl
  | leaving phase atThreadEnd strategy after =>
    exact congrArg (Site.leaving phase atThreadEnd strategy) (Spot.named_congr same)

/-- A map under two renamings that agree on its keys. -/
theorem extend_congr {γ : Type*} (inj : Function.Injective h) (inj' : Function.Injective h')
    {f : PthreadT → γ} {d : γ}
    (same : ∀ th, f th ≠ d → h th = h' th) :
    Function.extend h f (fun _ => d) = Function.extend h' f (fun _ => d) := by
  have half : ∀ {h h' : PthreadT → PthreadT}, Function.Injective h → Function.Injective h' →
      (∀ th, f th ≠ d → h th = h' th) → ∀ th, f th ≠ d →
      Function.extend h f (fun _ => d) (h th) = Function.extend h' f (fun _ => d) (h th) := by
    intro h h' inj inj' same th key
    rw [inj.extend_apply, same th key, inj'.extend_apply]
  funext q
  by_cases found : ∃ th, h th = q ∧ f th ≠ d
  · obtain ⟨th, rfl, key⟩ := found
    exact half inj inj' same th key
  · by_cases found' : ∃ th, h' th = q ∧ f th ≠ d
    · obtain ⟨th, rfl, key⟩ := found'
      exact (half inj' inj (fun th key => (same th key).symm) th key).symm
    · have other : ∀ {h : PthreadT → PthreadT}, Function.Injective h → (¬ ∃ th, h th = q ∧ f th ≠ d) →
          Function.extend h f (fun _ => d) q = d := by
        intro h inj found
        by_cases image : ∃ th, h th = q
        · obtain ⟨th, rfl⟩ := image
          rw [inj.extend_apply]
          exact not_not.mp fun key => found ⟨th, rfl, key⟩
        · exact Function.extend_apply' _ _ _ image
      rw [other inj found, other inj' found']

namespace Execution

variable {p : Execution}

/-- **Only the handles that a process knows matter to it.** -/
theorem named_congr (inj : Function.Injective h) (inj' : Function.Injective h')
    (same : ∀ th, p.Names th → h th = h' th) :
    p.named h = p.named h' := by
  have known := extend_congr inj inj' fun th here => same th (.known here)
  have zombies := extend_congr (f := p.sched.tm.zombies) (d := false) inj inj' fun th here =>
    same th (.zombie (by simpa using here))
  have alive : (fun t => (p.sched.tm.tToP t).map h) = fun t => (p.sched.tm.tToP t).map h' := by
    funext t
    cases here : p.sched.tm.tToP t with
    | none => rfl
    | some th => exact congrArg some (same th (.alive t here))
  have waits : (fun t => (p.sched.waits t).rename h) = fun t => (p.sched.waits t).rename h' := by
    funext t
    have chans : (p.sched.waits t).chan.map (Chan.rename h) = (p.sched.waits t).chan.map (Chan.rename h') := by
      cases here : (p.sched.waits t).chan with
      | none => rfl
      | some chan =>
        cases chan with
        | thread th => exact congrArg (fun th => some (Chan.thread th)) (same th (.awaited t here))
        | _ => rfl
    exact congrArg (fun chan => ({ p.sched.waits t with chan := chan } : WaitT)) chans
  have threads : (fun t => (p.thread t).named h) = fun t => (p.thread t).named h' := by
    funext t
    have sites : (p.thread t).site.named h = (p.thread t).site.named h' :=
      Site.named_congr fun th here => same th (.joined t here)
    exact congrArg (fun site => ({ p.thread t with site := site } : Thread)) sites
  unfold named Sched.rename Core.rename TidMap.rename
  rw [known, zombies, alive, waits, threads]

theorem named_pToT : (p.named h).sched.tm.pToT = Function.extend h p.sched.tm.pToT fun _ => none := rfl

theorem named_zombies : (p.named h).sched.tm.zombies = Function.extend h p.sched.tm.zombies fun _ => false := rfl

theorem names_named (inj : Function.Injective h) {th : PthreadT} (names : p.Names th) :
    (p.named h).Names (h th) := by
  cases names with
  | known here =>
    refine .known ?_
    rwa [named_pToT, inj.extend_apply]
  | alive t here =>
    refine .alive t ?_
    show (p.sched.tm.tToP t).map h = _
    rw [here]
    rfl
  | zombie here =>
    refine .zombie ?_
    rwa [named_zombies, inj.extend_apply]
  | awaited t here =>
    refine .awaited t ?_
    show (p.sched.waits t).chan.map (Chan.rename h) = _
    rw [here]
    rfl
  | joined t here =>
    refine .joined t ?_
    show ((p.thread t).site.named h).joined = _
    rw [Site.joined_named, here]
    rfl

/-- A process under other handles knows no others. -/
theorem names_of_named (inj : Function.Injective h) {th : PthreadT} (names : (p.named h).Names th) :
    ∃ th', h th' = th ∧ p.Names th' := by
  have image : ∀ {γ : Type} {f : PthreadT → γ} {d : γ}, Function.extend h f (fun _ => d) th ≠ d →
      ∃ th', h th' = th ∧ f th' ≠ d := by
    intro γ f d here
    by_cases found : ∃ th', h th' = th
    · obtain ⟨th', rfl⟩ := found
      rw [inj.extend_apply] at here
      exact ⟨th', rfl, here⟩
    · exact absurd (Function.extend_apply' _ _ _ found) here
  cases names with
  | known here =>
    rw [named_pToT] at here
    obtain ⟨th', isTh, here⟩ := image here
    exact ⟨th', isTh, .known here⟩
  | alive t here =>
    obtain ⟨th', here, isTh⟩ := Option.map_eq_some_iff.mp here
    exact ⟨th', isTh, .alive t here⟩
  | zombie here =>
    rw [named_zombies] at here
    obtain ⟨th', isTh, here⟩ := image (show _ ≠ false by rw [here]; nofun)
    exact ⟨th', isTh, .zombie (by simpa using here)⟩
  | awaited t here =>
    obtain ⟨chan, here, isChan⟩ := Option.map_eq_some_iff.mp here
    cases chan with
    | thread th' => exact ⟨th', Chan.thread.inj isChan, .awaited t here⟩
    | _ => cases isChan
  | joined t here =>
    have joined : (p.thread t).site.joined.map h = some th := (Site.joined_named _).symm.trans here
    obtain ⟨th', here, isTh⟩ := Option.map_eq_some_iff.mp joined
    exact ⟨th', isTh, .joined t here⟩

/-! ### Handles that nobody knows -/

/-- The even numbers as handles. -/
def even (th : Nat) : Nat := 2 * th

/-- The same, but for one handle. -/
def evenBut (odd : Nat) : Nat → Nat := Function.update even odd (2 * odd + 1)

theorem even_injective : Function.Injective even := by
  intro first second same
  have twice : 2 * first = 2 * second := same
  omega

theorem evenBut_injective (odd : Nat) : Function.Injective (evenBut odd) := by
  intro first second same
  unfold evenBut at same
  by_cases isFirst : first = odd <;> by_cases isSecond : second = odd
  · rw [isFirst, isSecond]
  · rw [isFirst, Function.update_self, Function.update_of_ne isSecond] at same
    have parity : 2 * odd + 1 = 2 * second := same
    omega
  · rw [isSecond, Function.update_self, Function.update_of_ne isFirst] at same
    have parity : 2 * first = 2 * odd + 1 := same
    omega
  · rw [Function.update_of_ne isFirst, Function.update_of_ne isSecond] at same
    exact even_injective same

theorem even_eq_evenBut {odd th : Nat} (other : th ≠ odd) : even th = evenBut odd th :=
  (Function.update_of_ne other _ _).symm

/-- **A process does not know a handle that may be replaced.** -/
theorem not_names_of_named_eq {th : Nat} (same : p.named even = p.named (evenBut th)) : ¬ p.Names th := by
  intro names
  have odd := names_named (evenBut_injective th) names
  rw [← same] at odd
  obtain ⟨th', isOdd, -⟩ := names_of_named even_injective odd
  have parity : even th' = 2 * th + 1 := isOdd.trans (Function.update_self _ _ _)
  unfold even at parity
  omega

variable {o : Options} {program : Program} {label : Tid × ThreadMove} {p' : Execution}

/-- **A process learns no handle but the one it asks for.** -/
theorem names_step (stepped : p.step o program id label = some p') {th : PthreadT} (names : p'.Names th) :
    p.Names th ∨ th ∈ p.asks program label := by
  by_contra unknown
  obtain ⟨notNamed, notAsked⟩ := not_or.mp unknown
  have before : p.named even = p.named (evenBut th) :=
    named_congr even_injective (evenBut_injective th) fun th' named =>
      even_eq_evenBut fun same => notNamed (same ▸ named)
  have asked : ∀ t ∈ (p.named even).asks program label, even t = evenBut th t := by
    rw [asks_named]
    exact fun t asks => even_eq_evenBut fun same => notAsked (same ▸ asks)
  have first : (p.named even).step o program even label = (p.step o program id label).map (named even) :=
    step_named even_injective p
  have second : (p.named (evenBut th)).step o program (evenBut th) label =
      (p.step o program id label).map (named (evenBut th)) := step_named (evenBut_injective th) p
  rw [step_congr asked, before, second, stepped] at first
  exact not_names_of_named_eq (Option.some.inj first).symm names

/-- How many threads a step creates. -/
def births (p : Execution) (label : Tid × ThreadMove) : Nat :=
  match label.2 with
  | .go => (p.thread label.1).site.bears.toList.length
  | _ => 0

/-- The threads that there are after a step. -/
theorem nthread_step {handle : Tid → PthreadT} (stepped : p.step o program handle label = some p') :
    p'.sched.tm.nthread = p.sched.tm.nthread + p.births label := by
  obtain ⟨tid, move⟩ := label
  cases move with
  | finish | arrive =>
    obtain ⟨th, -, rfl⟩ := Option.map_eq_some_iff.mp stepped
    rfl
  | go =>
    obtain ⟨act, acted, rfl⟩ := Option.map_eq_some_iff.mp stepped
    exact (Act.act_does acted).2.nthread

end Execution

/-- The handle that a call names. -/
def Call.handle : Call → Option PthreadT
  | .create th _ _ => some th
  | .createIdle th => some th
  | .join th => some th
  | _ => none

/-- The handle that is named at a stage. -/
def Stage.handle : Stage → Option PthreadT
  | .called call => call.handle
  | .joining th => some th
  | _ => none

theorem Turn.rename_congr {e : Turn} (same : ∀ th ∈ e.op.handle, h th = h' th) : e.rename h = e.rename h' := by
  have ops : e.op.rename h = e.op.rename h' := by
    cases here : e.op with
    | called call =>
      rw [here] at same
      cases call with
      | create th threadFunc arg =>
        exact congrArg (fun th => Stage.called (.create th threadFunc arg)) (same th rfl)
      | createIdle th => exact congrArg (fun th => Stage.called (.createIdle th)) (same th rfl)
      | join th => exact congrArg (fun th => Stage.called (.join th)) (same th rfl)
      | _ => rfl
    | joining th =>
      rw [here] at same
      exact congrArg Stage.joining (same th rfl)
    | _ => rfl
  unfold rename
  rw [ops]

theorem Act.leave_took {e : Env Sched} {sched : Option Sched} {atThreadEnd : Bool} {strategy : Strategy}
    {after : Option Spot} {returned : Option Result} {act : Act}
    (left : leave e sched atThreadEnd strategy after returned = some act) : act.took = none := by
  obtain ⟨_, _, rfl⟩ := Option.map_eq_some_iff.mp left
  rfl

/-- A turn is taken where the thread has the turn. -/
theorem Act.took_of_act {o : Options} {th : PthreadT} {tid : Tid} {e : Env Sched} {site : Site} {act : Act}
    (acted : Act.act o th tid e site = some act) {t : Turn} (took : act.took = some t) :
    ∃ stage, site = .turn stage ∧ t.op = stage.withHandle th := by
  have nothing : act.took ≠ none := by rw [took]; nofun
  cases site with
  | off spot =>
    cases spot with
    | none => cases acted
    | some spot =>
      cases spot with
      | outside | returning => cases acted
      | inside stage =>
        obtain ⟨_, _, rfl⟩ := Option.map_eq_some_iff.mp acted
        exact absurd rfl nothing
  | turn stage =>
    obtain ⟨given, -, rfl⟩ := Option.map_eq_some_iff.mp acted
    cases took
    exact ⟨stage, rfl, rfl⟩
  | trying cur =>
    cases cur with
    | none => exact absurd (leave_took acted) nothing
    | some cur =>
      simp only [Act.act, trying] at acted
      split at acted
      · exact absurd (leave_took acted) nothing
      · cases acted
        exact absurd rfl nothing
  | leaving phase atThreadEnd strategy after =>
    cases phase with
    | checking | posting next =>
      cases acted
      exact absurd rfl nothing
    | picking =>
      simp only [Act.act, leaving] at acted
      generalize e.sched.nextRunnable o false tid atThreadEnd strategy = pick at acted
      cases pick with
      | again s strategy | grant s next | invalid =>
        cases acted
        exact absurd rfl nothing
      | exit | threadExit | crash => cases acted

/-- The handle of a stage once `pthread_create` has given one. -/
theorem Stage.handle_withHandle {stage : Stage} {th th' : PthreadT}
    (names : (stage.withHandle th).handle = some th') :
    stage.joined = some th' ∨ th' = th ∧ ∃ code, stage.bears = some code := by
  cases stage with
  | called call =>
    cases call with
    | create _ threadFunc arg => exact Or.inr ⟨(Option.some.inj names).symm, _, rfl⟩
    | createIdle _ => exact Or.inr ⟨(Option.some.inj names).symm, _, rfl⟩
    | join th => exact Or.inl names
    | _ => cases names
  | joining th => exact Or.inl names
  | _ => cases names

/-- **A turn shows no handle but those that the process knows or asks for.** -/
theorem Execution.handle_turnOf {o : Options} {program : Program} {label : Tid × ThreadMove} {p : Execution}
    {e : Turn}
    (took : p.turnOf o id label = some e) {th : PthreadT} (names : e.op.handle = some th) :
    p.Names th ∨ th ∈ p.asks program label := by
  obtain ⟨tid, move⟩ := label
  cases move with
  | finish | arrive => cases took
  | go =>
    obtain ⟨act, acted, isTurn⟩ := Option.bind_eq_some_iff.mp took
    obtain ⟨stage, here, isOp⟩ := Act.took_of_act acted isTurn
    rw [isOp] at names
    rcases Stage.handle_withHandle names with joined | ⟨isNew, code, bears⟩
    · refine Or.inl (.joined tid ?_)
      rw [here]
      exact joined
    · refine Or.inr ?_
      show (p.thread tid).site.bears.map _ = some th
      rw [here]
      show stage.bears.map _ = some th
      rw [bears, isNew]
      rfl

/-! ### Whose handle it is -/

/-- **Among the first `n` threads, `t` is the last one that got its handle.** -/
def Owns (handle : Tid → PthreadT) (n : Nat) (t : Tid) : Prop := t < n ∧ ∀ u < n, handle u = handle t → u ≤ t

namespace Owns

variable {handle : Tid → PthreadT} {n : Nat} {t u : Tid}

theorem inj (first : Owns handle n t) (second : Owns handle n u) (same : handle t = handle u) : t = u :=
  Nat.le_antisymm (second.2 t first.1 same) (first.2 u second.1 same.symm)

theorem newest : Owns handle (n + 1) n := ⟨Nat.lt_succ_self n, fun _ below _ => Nat.le_of_lt_succ below⟩

/-- A thread keeps its handle until another one gets it. -/
theorem grow (owns : Owns handle n t) (other : handle n ≠ handle t) : Owns handle (n + 1) t := by
  refine ⟨Nat.lt_succ_of_lt owns.1, fun u below same => ?_⟩
  rcases Nat.lt_succ_iff_lt_or_eq.mp below with older | isNew
  · exact owns.2 u older same
  · exact absurd (isNew ▸ same) other

end Owns

/-- Handles that are different for some threads are so for all, with other handles for the rest. -/
theorem exists_injective {handle : Nat → Nat} {own : Nat → Prop} {n : Nat} (below : ∀ t, own t → t < n)
    (inj : ∀ t u, own t → own u → handle t = handle u → t = u) :
    ∃ h : Nat → Nat, Function.Injective h ∧ ∀ t, own t → h t = handle t := by
  classical
  have bounded : ∃ bound, ∀ t < n, handle t < bound := by
    clear below inj
    induction n with
    | zero => exact ⟨0, fun t below => absurd below (Nat.not_lt_zero t)⟩
    | succ n ih =>
      obtain ⟨bound, smaller⟩ := ih
      refine ⟨max bound (handle n + 1), fun t below => ?_⟩
      rcases Nat.lt_succ_iff_lt_or_eq.mp below with older | isNew
      · exact lt_of_lt_of_le (smaller t older) (le_max_left _ _)
      · rw [isNew]
        exact lt_of_lt_of_le (Nat.lt_succ_self _) (le_max_right _ _)
  obtain ⟨bound, smaller⟩ := bounded
  refine ⟨fun t => if own t then handle t else bound + t, fun t u same => ?_, fun t owns => if_pos owns⟩
  dsimp only at same
  by_cases first : own t <;> by_cases second : own u
  · rw [if_pos first, if_pos second] at same
    exact inj t u first second same
  · rw [if_pos first, if_neg second] at same
    have small := smaller t (below t first)
    omega
  · rw [if_neg first, if_pos second] at same
    have small := smaller u (below u second)
    omega
  · rw [if_neg first, if_neg second] at same
    omega

/-- **The step gets no handle that the process knows, and joins no thread by a handle that another one
has got.** -/
structure Execution.Handed (program : Program) (handle : Tid → PthreadT) (p : Execution)
    (label : Tid × ThreadMove) :
    Prop where
  joined : label.2 = .arrive → ∀ t ∈ p.asks program label, Owns handle p.sched.tm.nthread t
  created : label.2 = .go → ∀ t ∈ p.asks program label, ¬ p.Names (handle t)

/-- **The process `p` is the process `q` under other handles**, where `q` has the tids for handles, and
every thread that `q` knows owns its handle. -/
structure Renamed (handle : Tid → PthreadT) (q p : Execution) : Prop where
  owns : ∀ t, q.Names t → Owns handle q.sched.tm.nthread t
  named : ∃ h, Function.Injective h ∧ (∀ t, Owns handle q.sched.tm.nthread t → h t = handle t) ∧ p = q.named h

namespace Renamed

open Execution

variable {o : Options} {program : Program} {handle : Tid → PthreadT} {q p p' : Execution}
  {label : Tid × ThreadMove}

/-- **The renaming for the next state.** -/
theorem next (renamed : Renamed handle q p) (handed : p.Handed program handle label) :
    (∀ t, q.Names t ∨ t ∈ q.asks program label → Owns handle (q.sched.tm.nthread + q.births label) t) ∧
      ∃ h, Function.Injective h ∧
        (∀ t, Owns handle (q.sched.tm.nthread + q.births label) t → h t = handle t) ∧ p = q.named h := by
  obtain ⟨owns, h, inj, agrees, rfl⟩ := renamed
  obtain ⟨tid, move⟩ := label
  have joined := handed.joined
  have created := handed.created
  rw [asks_named] at joined created
  cases move with
  | finish => exact ⟨fun t known => owns t (known.resolve_right nofun), h, inj, agrees, rfl⟩
  | arrive => exact ⟨fun t known => known.elim (owns t) (joined rfl t), h, inj, agrees, rfl⟩
  | go =>
    have births : q.births (tid, .go) = (q.thread tid).site.bears.toList.length := rfl
    rw [births]
    cases bears : (q.thread tid).site.bears with
    | none =>
      refine ⟨fun t known => owns t (known.resolve_right fun asked => ?_), h, inj, agrees, rfl⟩
      have asked : (q.thread tid).site.bears.map (fun _ => q.sched.tm.nthread) = some t := asked
      rw [bears] at asked
      cases asked
    | some code =>
      have asks : q.asks program (tid, .go) = some q.sched.tm.nthread := by
        show (q.thread tid).site.bears.map _ = _
        rw [bears]
        rfl
      have fresh := created rfl _ asks
      have stays : ∀ t, q.Names t → Owns handle (q.sched.tm.nthread + 1) t := by
        intro t named
        refine (owns t named).grow fun same => fresh ?_
        rw [same, ← agrees t (owns t named)]
        exact names_named inj named
      obtain ⟨h', inj', agrees'⟩ := @exists_injective handle (Owns handle (q.sched.tm.nthread + 1)) _
        (fun t owns => owns.1) fun t u => Owns.inj
      refine ⟨fun t known => ?_, h', inj', agrees', named_congr inj inj' fun t named => ?_⟩
      · rcases known with named | asked
        · exact stays t named
        · rw [asks] at asked
          cases asked
          exact Owns.newest
      · rw [agrees t (owns t named), agrees' t (stays t named)]

/-- **A process whose steps are `Handed` does what it does when the handles are the tids.** -/
theorem step (renamed : Renamed handle q p) (handed : p.Handed program handle label)
    (stepped : p.step o program handle label = some p') :
    ∃ q', q.step o program id label = some q' ∧
      p.turnOf o handle label = (q.turnOf o id label).map (Turn.rename handle) ∧ Renamed handle q' p' := by
  obtain ⟨owns, h, inj, agrees, rfl⟩ := renamed.next handed
  have asked : ∀ t ∈ (q.named h).asks program label, handle t = h t := by
    rw [asks_named]
    exact fun t asks => (agrees t (owns t (Or.inr asks))).symm
  rw [step_congr asked, step_named inj] at stepped
  obtain ⟨q', moved, rfl⟩ := Option.map_eq_some_iff.mp stepped
  refine ⟨q', moved, ?_, fun t named => ?_, h, inj, ?_, rfl⟩
  · rw [turnOf_congr asked, turnOf_named inj]
    cases took : q.turnOf o id label with
    | none => rfl
    | some e =>
      refine congrArg some (Turn.rename_congr fun t names => ?_)
      exact agrees t (owns t (handle_turnOf took names))
  · rw [nthread_step moved]
    exact owns t (names_step moved named)
  · rw [nthread_step moved]
    exact agrees

end Renamed

end MinSmt
