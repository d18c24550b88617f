/-
**The counts of waiting threads per caller and role** (`blocked_cv_count_map`, `blocked_cv_line_map`), which
the runtime keeps with `wakeamap_plus`.

A wait on a condition variable counts its thread under the pair it is called from, and enters the pair
as the line of the condition variable. A signal takes one from the pair on the line and erases both
entries at zero. A broadcast erases the line and leaves the count, and a wait that expires is uncounted
when its thread resumes.

* `RolesExact` — the counts and the lines are those of the threads that wait.
* `FromPair` — each condition variable is waited on from a pair of its own.
* `Undisturbed` — the step lets no wait on a condition variable expire, and broadcasts to nobody.
* `Roles`, `turn_roles` — what the two maps look like, and what a turn does to them.
* **`role_counts_iff`** — the maps are exact throughout a run exactly when all its steps are undisturbed.
* `broadcast_leaves_count` — a broadcast leaves a count behind.
-/

import MinSmt.Runtime.WaiterCounts

namespace MinSmt

open MinSmt.Library

/-- What the two maps look like when every condition variable has a pair of its own. -/
structure Roles (pair : Nat → AddrNRole) (line : Option Nat → Option RolePtr)
    (count : AddrNRole → Option Int) : Prop where
  positive : ∀ p n, count p = some n → 0 < n
  paired : ∀ p n, count p = some n → ∃ cv, p = pair cv
  lines : ∀ cv role, line (some cv) = some role → role.value = pair cv
  both : ∀ cv, (line (some cv)).isSome = (count (pair cv)).isSome
  noLine : line none = none

/-- The condition variable that a wrapper is about to wait on, and where it was called. -/
def Stage.condCall : Stage → Option (Nat × Nat)
  | .called (.condWait cv _ caller) => some (cv, caller)
  | .called (.condTimedWait cv _ caller _ _) => some (cv, caller)
  | _ => none

/-- The condition variable that a turn broadcasts to. -/
def Stage.broadcasts : Stage → Option Nat
  | .called (.condBroadcast cv) => some cv
  | _ => none

/-! ### The writes -/

section Writes

variable {pair : Nat → AddrNRole} {sh : Shared} {cv cv' : Nat}

theorem Roles.roleCount_nonneg {p : AddrNRole}
    (roles : Roles pair sh.blockedCvLineMap sh.blockedCvCountMap) : 0 ≤ sh.roleCount p := by
  unfold Shared.roleCount
  cases isCount : sh.blockedCvCountMap p with
  | none => exact Int.le_refl 0
  | some n => exact Int.le_of_lt (roles.positive p n isCount)

/-- A condition variable has a line exactly when its pair has a count. -/
theorem Roles.line_iff (roles : Roles pair sh.blockedCvLineMap sh.blockedCvCountMap) :
    (sh.blockedCvLineMap (some cv)).isSome = true ↔ 0 < sh.roleCount (pair cv) := by
  rw [roles.both cv]
  unfold Shared.roleCount
  cases isCount : sh.blockedCvCountMap (pair cv) with
  | none => exact iff_of_false nofun (Int.lt_irrefl 0)
  | some n => exact iff_of_true rfl (roles.positive _ n isCount)

variable (inj : Function.Injective pair)

include inj

/-- **The entries of one condition variable are written together.** -/
theorem Roles.update {line : Option Nat → Option RolePtr} {count : AddrNRole → Option Int}
    (roles : Roles pair line count) {newLine : Option RolePtr} {newCount : Option Int}
    (positive : ∀ n, newCount = some n → 0 < n)
    (isPair : ∀ role, newLine = some role → role.value = pair cv)
    (both : newLine.isSome = newCount.isSome) :
    Roles pair (Function.update line (some cv) newLine) (Function.update count (pair cv) newCount) := by
  refine ⟨fun p n isCount => ?_, fun p n isCount => ?_, fun cv' role isLine => ?_, fun cv' => ?_, ?_⟩
  · by_cases same : p = pair cv
    · rw [same, Function.update_self] at isCount
      exact positive n isCount
    · rw [Function.update_of_ne same] at isCount
      exact roles.positive p n isCount
  · by_cases same : p = pair cv
    · exact ⟨cv, same⟩
    · rw [Function.update_of_ne same] at isCount
      exact roles.paired p n isCount
  · by_cases same : cv' = cv
    · rw [same, Function.update_self] at isLine
      rw [same]
      exact isPair role isLine
    · rw [Function.update_of_ne (by simpa using same)] at isLine
      exact roles.lines cv' role isLine
  · by_cases same : cv' = cv
    · rw [same, Function.update_self, Function.update_self]
      exact both
    · rw [Function.update_of_ne (by simpa using same), Function.update_of_ne fun isPair => same (inj isPair)]
      exact roles.both cv'
  · have other : (none : Option Nat) ≠ some cv := nofun
    rw [Function.update_of_ne other]
    exact roles.noLine

theorem roles_noteBlocked (roles : Roles pair sh.blockedCvLineMap sh.blockedCvCountMap) :
    Roles pair (sh.noteBlocked cv (pair cv)).blockedCvLineMap
      (sh.noteBlocked cv (pair cv)).blockedCvCountMap := by
  have before := @Roles.roleCount_nonneg pair sh (pair cv) roles
  refine Roles.update inj roles (fun n isCount => ?_) (fun role isLine => ?_) rfl
  · rw [← Option.some.inj isCount]
    show 0 < sh.roleCount (pair cv) + 1
    omega
  · rw [← Option.some.inj isLine]

theorem roleCount_noteBlocked :
    (sh.noteBlocked cv (pair cv)).roleCount (pair cv') =
      sh.roleCount (pair cv') + if cv' = cv then 1 else 0 := by
  show (Function.update sh.blockedCvCountMap (pair cv) (some (sh.roleCount (pair cv) + 1)) (pair cv')).getD 0 = _
  by_cases same : cv' = cv
  · rw [same, Function.update_self, if_pos rfl]
    rfl
  · rw [Function.update_of_ne fun isPair => same (inj isPair), if_neg same, Int.add_zero]
    rfl

theorem roles_noteUnblocked (roles : Roles pair sh.blockedCvLineMap sh.blockedCvCountMap) :
    Roles pair (sh.noteUnblocked cv (pair cv)).blockedCvLineMap
      (sh.noteUnblocked cv (pair cv)).blockedCvCountMap := by
  unfold Shared.noteUnblocked
  dsimp only
  split
  · exact Roles.update inj roles nofun nofun rfl
  · rename_i more
    -- the line stays as it is
    have written := @Roles.update pair cv inj _ _ roles (sh.blockedCvLineMap (some cv))
      (some (sh.roleCount (pair cv) - 1)) (fun n isCount => by
        rw [← Option.some.inj isCount]
        omega) (fun role isLine => roles.lines cv role isLine) (roles.line_iff.mpr (by omega))
    rw [Function.update_eq_self] at written
    exact written

theorem roleCount_noteUnblocked (some : 0 < sh.roleCount (pair cv)) :
    (sh.noteUnblocked cv (pair cv)).roleCount (pair cv') =
      sh.roleCount (pair cv') - if cv' = cv then 1 else 0 := by
  unfold Shared.noteUnblocked
  by_cases same : cv' = cv
  · rw [if_pos same, same]
    dsimp only
    split
    · show (Function.update sh.blockedCvCountMap (pair cv) none (pair cv)).getD 0 = _
      rw [Function.update_self]
      show 0 = _
      omega
    · show (Function.update sh.blockedCvCountMap (pair cv) _ (pair cv)).getD 0 = _
      rw [Function.update_self]
      rfl
  · have other : pair cv' ≠ pair cv := fun isPair => same (inj isPair)
    rw [if_neg same, Int.sub_zero]
    dsimp only
    split
    · show (Function.update sh.blockedCvCountMap (pair cv) none (pair cv')).getD 0 = _
      rw [Function.update_of_ne other]
      rfl
    · show (Function.update sh.blockedCvCountMap (pair cv) _ (pair cv')).getD 0 = _
      rw [Function.update_of_ne other]
      rfl

end Writes

/-! ### What a turn does to the maps -/

section Turns

variable {σ : Type} {S : Serializer σ} {o : Options} {tid : Tid} {e : Env σ} {stage : Stage}
  {pair : Nat → AddrNRole}

/-- The maps after a turn, when the turn is as it should be: its thread is counted when it waits on a
condition variable, and a signal takes one from a count that is not zero. -/
structure RolesTurned (S : Serializer σ) (o : Options) (tid : Tid) (e : Env σ) (pair : Nat → AddrNRole)
    (stage : Stage) : Prop where
  roles : Roles pair (turn S o tid e stage).1.shared.blockedCvLineMap
    (turn S o tid e stage).1.shared.blockedCvCountMap
  counts : ∀ cv, (turn S o tid e stage).1.shared.roleCount (pair cv) =
    e.shared.roleCount (pair cv) + ((turn S o tid e stage).2.joins (.cond cv) tid).length -
      if stage.signals = some (.cond cv) ∧ 0 < e.shared.roleCount (pair cv) then 1 else 0

/-- A turn that writes neither map, and neither waits on nor signals a condition variable. -/
theorem rolesTurned_of_same (roles : Roles pair e.shared.blockedCvLineMap e.shared.blockedCvCountMap)
    (line : (turn S o tid e stage).1.shared.blockedCvLineMap = e.shared.blockedCvLineMap)
    (count : (turn S o tid e stage).1.shared.blockedCvCountMap = e.shared.blockedCvCountMap)
    (awaits : ∀ cv, stage.awaits ≠ some (.cond cv)) (deaf : ∀ cv, stage.signals ≠ some (.cond cv)) :
    RolesTurned S o tid e pair stage := by
  refine ⟨by rw [line, count]; exact roles, fun cv => ?_⟩
  rw [joins_of_awaits turn_waitsOn (awaits cv), if_neg fun both => deaf cv both.1]
  unfold Shared.roleCount
  rw [count]
  exact (Int.sub_zero _).symm.trans (congrArg (· - 0) (Int.add_zero _).symm)

theorem signals_of_quiet {reason : WakeReason} (quiet : stage.notes reason = false) (cv : Nat) :
    stage.signals ≠ some (.cond cv) := by
  intro signals
  cases stage with
  | called call => cases call <;> cases quiet <;> cases signals
  | lineupWoken opaqueType => cases signals
  | _ => cases signals

/-- No loop writes the two maps. -/
theorem enter_roles {loop : Loop} :
    (loop.enter o tid e).1.shared.blockedCvLineMap = e.shared.blockedCvLineMap ∧
      (loop.enter o tid e).1.shared.blockedCvCountMap = e.shared.blockedCvCountMap := by
  cases got : loop.attempt tid e.shared with
  | some shared =>
    rw [Loop.enter_of_some got, Loop.leave_shared]
    exact ⟨congrArg Books.line (attempt_books got), congrArg Books.count (attempt_books got)⟩
  | none =>
    rw [Loop.enter_of_none got]
    cases loop <;> exact ⟨rfl, rfl⟩

/-- A wait on a condition variable. -/
theorem rolesTurned_of_wait {sh : Shared} {cv caller timeout : Nat} {next : Stage}
    (plus : o.wakeamapPlus = true) (inj : Function.Injective pair)
    (roles : Roles pair e.shared.blockedCvLineMap e.shared.blockedCvCountMap)
    (isPair : e.roleOf S tid caller = pair cv) (line : sh.blockedCvLineMap = e.shared.blockedCvLineMap)
    (count : sh.blockedCvCountMap = e.shared.blockedCvCountMap)
    (noted : (turn S o tid e stage).1.shared.blockedCvLineMap =
        (noteWait o sh cv (e.roleOf S tid caller)).blockedCvLineMap ∧
      (turn S o tid e stage).1.shared.blockedCvCountMap =
        (noteWait o sh cv (e.roleOf S tid caller)).blockedCvCountMap)
    (waits : (turn S o tid e stage).2 = .wait (some (.cond cv)) timeout next)
    (deaf : ∀ cv, stage.signals ≠ some (.cond cv)) : RolesTurned S o tid e pair stage := by
  have here : Roles pair sh.blockedCvLineMap sh.blockedCvCountMap := by
    rw [line, count]
    exact roles
  have blocked : noteWait o sh cv (e.roleOf S tid caller) = sh.noteBlocked cv (pair cv) := by
    unfold noteWait
    rw [if_pos plus, isPair]
  rw [blocked] at noted
  refine ⟨by rw [noted.1, noted.2]; exact roles_noteBlocked inj here, fun cv' => ?_⟩
  have counted : (turn S o tid e stage).1.shared.roleCount (pair cv') =
      (sh.noteBlocked cv (pair cv)).roleCount (pair cv') :=
    congrArg (fun map => (map (pair cv')).getD 0) noted.2
  have before : sh.roleCount (pair cv') = e.shared.roleCount (pair cv') :=
    congrArg (fun map => (map (pair cv')).getD 0) count
  have silent : ¬ (stage.signals = some (.cond cv') ∧ 0 < e.shared.roleCount (pair cv')) := fun both =>
    deaf cv' both.1
  rw [if_neg silent, Int.sub_zero, counted, roleCount_noteBlocked inj, before, waits]
  show _ = _ + ((if some (Chan.cond cv) = some (.cond cv') then [tid] else []).length : Int)
  by_cases same : cv' = cv
  · rw [if_pos same, if_pos (by rw [same])]
    rfl
  · rw [if_neg same, if_neg fun isOn => same (Chan.cond.inj (Option.some.inj isOn)).symm]
    rfl

/-- What a signal does to the two maps. -/
theorem roles_noteSignal {sh : Shared} {cv : Nat} (plus : o.wakeamapPlus = true)
    (inj : Function.Injective pair) (roles : Roles pair sh.blockedCvLineMap sh.blockedCvCountMap) :
    Roles pair (noteSignal o sh cv).1.blockedCvLineMap (noteSignal o sh cv).1.blockedCvCountMap ∧
      ∀ cv', (noteSignal o sh cv).1.roleCount (pair cv') =
        sh.roleCount (pair cv') - if cv' = cv ∧ 0 < sh.roleCount (pair cv) then 1 else 0 := by
  -- the count of the condition variable itself is in another map
  have line : (if 0 < sh.condMap cv then sh.addCond cv (-1) else sh).blockedCvLineMap =
      sh.blockedCvLineMap := by
    split <;> rfl
  have count : (if 0 < sh.condMap cv then sh.addCond cv (-1) else sh).blockedCvCountMap =
      sh.blockedCvCountMap := by
    split <;> rfl
  unfold noteSignal
  dsimp only
  generalize (if 0 < sh.condMap cv then sh.addCond cv (-1) else sh) = sh' at line count
  have here : Roles pair sh'.blockedCvLineMap sh'.blockedCvCountMap := by
    rw [line, count]
    exact roles
  have counts : ∀ p, sh'.roleCount p = sh.roleCount p := fun p =>
    congrArg (fun map => (map p).getD 0) count
  rw [plus]
  cases isLine : sh'.blockedCvLineMap (some cv) with
  | some role =>
    have some : 0 < sh'.roleCount (pair cv) := here.line_iff.mp (by rw [isLine]; rfl)
    dsimp only
    rw [here.lines cv role isLine]
    refine ⟨roles_noteUnblocked inj here, fun cv' => ?_⟩
    rw [roleCount_noteUnblocked inj some, counts]
    rw [counts] at some
    exact congrArg (_ - ·) (if_congr (and_iff_left some).symm rfl rfl)
  | none =>
    have zero : ¬ 0 < sh'.roleCount (pair cv) := fun some => by
      have isSome := here.line_iff.mpr some
      rw [isLine] at isSome
      cases isSome
    refine ⟨here, fun cv' => ?_⟩
    rw [counts] at zero
    rw [if_neg fun both => zero both.2, Int.sub_zero]
    exact counts _

/-- The choice of a role does not write the maps, when no condition variable is being satisfied. -/
theorem roles_goOnFor {sh : Shared} {self : Local} {cv : Nat} {role : Option RolePtr}
    (noLine : sh.blockedCvLineMap none = none) (noCV : self.satisfyingCV = none) :
    (goOnFor o sh self cv role).1 = sh := by
  unfold goOnFor
  split
  · split
    · rfl
    · split
      · unfold chooseRole
        rw [noCV, noLine]
        dsimp only
        split
        · split <;> rfl
        · rfl
      · rfl
  · rfl

/-- **What a turn does to the maps**, unless it ends a wait that has expired or broadcasts to a condition
variable with a line. -/
theorem turn_roles (plus : o.wakeamapPlus = true) (inj : Function.Injective pair)
    (roles : Roles pair e.shared.blockedCvLineMap e.shared.blockedCvCountMap)
    (noCV : e.self.satisfyingCV = none)
    (fromPair : ∀ place ∈ stage.condCall, e.roleOf S tid place.2 = pair place.1)
    (onTime : ∀ on, ¬ stage.late ((S.core e.sched).waits tid).wakeReason on)
    (calm : ∀ cv ∈ stage.broadcasts, e.shared.blockedCvLineMap (some cv) = none)
    (goes : (turn S o tid e stage).2 ≠ .exit) : RolesTurned S o tid e pair stage := by
  cases notes : stage.notes ((S.core e.sched).waits tid).wakeReason with
  | false =>
    have books := @turn_books _ S o tid e stage notes
    exact rolesTurned_of_same roles (congrArg Books.line books) (congrArg Books.count books)
      (fun cv => awaits_of_quiet rfl notes) (signals_of_quiet notes)
  | true =>
    cases stage with
    | called call =>
      cases call with
      | condWait cv mu caller =>
        have isPair : e.roleOf S tid caller = pair cv := fromPair (cv, caller) rfl
        exact @rolesTurned_of_wait _ _ _ _ _ _ _ (e.shared.addCond cv 1) _ _ _ _ plus inj roles isPair
          rfl rfl ⟨rfl, rfl⟩ rfl nofun
      | condTimedWait cv mu caller cur abstime =>
        have isPair : e.roleOf S tid caller = pair cv := fromPair (cv, caller) rfl
        cases abstime with
        | none =>
          exact @rolesTurned_of_wait _ _ _ _ _ _ _ (e.shared.addCond cv 1) _ _ _ _ plus inj roles isPair
            rfl rfl ⟨rfl, rfl⟩ rfl nofun
        | some abstime =>
          obtain ⟨timeout, waits, shared⟩ := condTimedWait_shared goes
          refine rolesTurned_of_wait plus inj roles isPair ?_ ?_
            ⟨congrArg Shared.blockedCvLineMap shared, congrArg Shared.blockedCvCountMap shared⟩ waits nofun
          · rfl
          · rfl
      | condSignal cv =>
        obtain ⟨signalled, counts⟩ := roles_noteSignal plus inj roles
        have chosen : (turn S o tid e (.called (.condSignal cv))).1.shared = (noteSignal o e.shared cv).1 :=
          roles_goOnFor signalled.noLine noCV
        refine ⟨chosen ▸ signalled, fun cv' => ?_⟩
        rw [chosen, counts cv']
        show _ = _ + (0 : Int) - if some (Chan.cond cv) = some (.cond cv') ∧ _ then 1 else 0
        rw [Int.add_zero]
        refine congrArg (_ - ·) (if_congr ?_ rfl rfl)
        constructor
        · rintro ⟨rfl, some⟩
          exact ⟨rfl, some⟩
        · rintro ⟨same, some⟩
          cases same
          exact ⟨rfl, some⟩
      | condBroadcast cv =>
        have noLine := calm cv rfl
        have line : (turn S o tid e (.called (.condBroadcast cv))).1.shared.blockedCvLineMap =
            e.shared.blockedCvLineMap := by
          show (if o.wakeamapPlus then e.shared.setLine cv none else e.shared).blockedCvLineMap = _
          rw [if_pos plus]
          show Function.update e.shared.blockedCvLineMap (some cv) none = _
          rw [← noLine, Function.update_eq_self]
        have count : (turn S o tid e (.called (.condBroadcast cv))).1.shared.blockedCvCountMap =
            e.shared.blockedCvCountMap := by
          show (if o.wakeamapPlus then e.shared.setLine cv none else e.shared).blockedCvCountMap = _
          split <;> rfl
        refine ⟨by rw [line, count]; exact roles, fun cv' => ?_⟩
        have zero : ¬ ((Stage.called (.condBroadcast cv)).signals = some (.cond cv') ∧
            0 < e.shared.roleCount (pair cv')) := by
          rintro ⟨same, some⟩
          cases same
          have isSome := roles.line_iff.mpr some
          rw [noLine] at isSome
          cases isSome
        rw [if_neg zero, Int.sub_zero]
        exact (congrArg (fun map => (map (pair cv')).getD 0) count).trans (Int.add_zero _).symm
      | semWait sem => exact rolesTurned_of_same roles enter_roles.1 enter_roles.2 nofun nofun
      | semTimedWait sem cur abstime =>
        have same : (semTimedWait S o tid e sem cur abstime).1.shared.blockedCvLineMap =
              e.shared.blockedCvLineMap ∧
            (semTimedWait S o tid e sem cur abstime).1.shared.blockedCvCountMap =
              e.shared.blockedCvCountMap := by
          unfold semTimedWait
          split
          · exact enter_roles
          · split
            · exact enter_roles
            · exact ⟨rfl, rfl⟩
        exact rolesTurned_of_same roles same.1 same.2 nofun nofun
      | semPost sem =>
        have same : (semPost S o e sem).1.shared.blockedCvLineMap = e.shared.blockedCvLineMap ∧
            (semPost S o e sem).1.shared.blockedCvCountMap = e.shared.blockedCvCountMap := by
          unfold semPost
          dsimp only
          split <;> exact ⟨rfl, rfl⟩
        exact rolesTurned_of_same roles same.1 same.2 nofun nofun
      | _ => cases notes
    | retry loop =>
      have resumed : turn S o tid e (.retry loop) = loop.enter o tid e := Loop.resume_eq_enter e loop
      refine rolesTurned_of_same roles (resumed ▸ enter_roles.1) (resumed ▸ enter_roles.2) ?_ nofun
      intro cv awaits
      cases loop <;> cases awaits
    | condWoken timed cv mu role =>
      obtain ⟨isTimed, expired⟩ := Bool.and_eq_true_iff.mp notes
      subst isTimed
      exact absurd ⟨rfl, of_decide_eq_true expired⟩ (onTime (.cond cv))
    | _ => cases notes

/-- With `wakeamap_plus` no thread goes on for a condition variable. -/
theorem turn_satisfyingCV (plus : o.wakeamapPlus = true) (noCV : e.self.satisfyingCV = none) :
    (turn S o tid e stage).1.self.satisfyingCV = none := by
  have locked : ∀ {e : Env σ} (mu : Nat), e.self.satisfyingCV = none →
      ((Loop.mutexLock mu).enter o tid e).1.self.satisfyingCV = none := by
    intro e mu noCV
    unfold Loop.enter
    split
    · unfold Loop.leave
      dsimp only
      split <;> exact noCV
    · exact noCV
  cases marks : stage.marks ((S.core e.sched).waits tid).wakeReason with
  | false => rw [turn_self marks, noCV]
  | true =>
    cases stage with
    | called call =>
      cases call with
      | mutexLock mu => exact locked mu noCV
      | mutexTimedLock mu cur abstime =>
        cases abstime with
        | none => exact locked mu noCV
        | some abstime => cases marks
      | mutexUnlock mu =>
        show (mutexUnlock S o tid e mu).1.self.satisfyingCV = none
        unfold mutexUnlock Env.signal
        dsimp only
        split <;> exact noCV
      | condSignal cv =>
        show (goOnFor o _ e.self cv _).2.satisfyingCV = none
        unfold goOnFor chooseRole
        rw [plus]
        repeat' split
        all_goals first | exact noCV | simp_all
      | condBroadcast cv =>
        show (condBroadcast S o e cv).1.self.satisfyingCV = none
        unfold condBroadcast Env.signal
        dsimp only
        split
        · rfl
        · exact noCV
      | semPost sem =>
        show (semPost S o e sem).1.self.satisfyingCV = none
        unfold semPost Env.signal
        dsimp only
        repeat' split
        all_goals exact noCV
      | schedYield => exact noCV
      | _ => cases marks
    | retry loop =>
      cases loop with
      | mutexLock mu =>
        show ((Loop.mutexLock mu).resume S o tid e).1.self.satisfyingCV = none
        rw [Loop.resume_eq_enter]
        exact locked mu noCV
      | _ => cases marks
    | condWoken timed cv mu role =>
      show (condWoken S o tid e timed cv mu role).1.self.satisfyingCV = none
      unfold condWoken
      split
      · dsimp only
        rw [@enter_self _ o tid _ (.relock cv mu _) nofun]
        split
        · unfold condTimedOut
          dsimp only
          repeat' split
          all_goals exact noCV
        · exact noCV
      · rw [@enter_self _ o tid _ (.relock cv mu _) nofun, noCV]
    | _ => cases marks

end Turns

/-! ### Whether the maps are exact -/

/-- The thread waits on a condition variable, and was called from there. -/
def Spot.blockedFrom (p : AddrNRole) : Spot → Bool
  | .inside (.condWoken _ _ _ role) => role == p
  | _ => false

/-- The slot is one of a wait on a condition variable. -/
def WaitT.onCond (w : WaitT) : Bool :=
  match w.chan with
  | some (.cond _) => true
  | _ => false

theorem onCond_iff {w : WaitT} : w.onCond = true ↔ ∃ cv, w.chan = some (.cond cv) := by
  unfold WaitT.onCond
  split
  · rename_i cv isCond
    exact iff_of_true rfl ⟨cv, isCond⟩
  · rename_i other
    exact iff_of_false nofun fun ⟨cv, isCond⟩ => other cv isCond

namespace Recorder

/-- The threads that wait on a condition variable and were called from there. -/
def blockedFrom (r : Recorder) (p : AddrNRole) : List Tid :=
  r.core.waitq.filter fun t => (r.spot t).blockedFrom p

/-- **The counts and the lines are those of the threads that wait.** -/
structure RolesExact (r : Recorder) : Prop where
  counts : ∀ p, r.shared.blockedCvCountMap p =
    if r.blockedFrom p = [] then none else some ((r.blockedFrom p).length : Int)
  lines : ∀ cv, (r.shared.blockedCvLineMap (some cv)).isSome = true ↔ r.core.waiters (.cond cv) ≠ []

/-- **Each condition variable is waited on from its own pair.** -/
def FromPair (o : Options) (pair : Nat → AddrNRole) (r : Recorder) (label : Tid × Move) : Prop :=
  ∀ stage ∈ r.stageOf label.1 label.2, ∀ place ∈ stage.condCall,
    (r.env label.1).roleOf (Core.serializer o.wakeamapPlus) label.1 place.2 = pair place.1

instance (o : Options) (pair : Nat → AddrNRole) (r : Recorder) (label : Tid × Move) :
    Decidable (FromPair o pair r label) :=
  inferInstanceAs (Decidable (∀ _ ∈ _, ∀ _ ∈ _, _))

/-- **The step lets no wait on a condition variable expire, and broadcasts only where nobody waits.** -/
structure Undisturbed (o : Options) (r : Recorder) (label : Tid × Move) : Prop where
  timely : ∀ r' ∈ r.step o label, ∀ t ∈ r.core.waitq, (r.core.waits t).onCond = true →
    t ∉ r'.core.waitq → (r'.core.waits t).wakeReason = .signal
  calm : ∀ stage ∈ r.stageOf label.1 label.2, ∀ cv ∈ stage.broadcasts, r.core.waiters (.cond cv) = []

instance (o : Options) (r : Recorder) (label : Tid × Move) : Decidable (Undisturbed o r label) :=
  decidable_of_iff ((∀ r' ∈ r.step o label, ∀ t ∈ r.core.waitq, (r.core.waits t).onCond = true →
      t ∉ r'.core.waitq → (r'.core.waits t).wakeReason = .signal) ∧
    ∀ stage ∈ r.stageOf label.1 label.2, ∀ cv ∈ stage.broadcasts, r.core.waiters (.cond cv) = [])
    ⟨fun both => ⟨both.1, both.2⟩, fun fine => ⟨fine.timely, fine.calm⟩⟩

variable {o : Options} {r r' : Recorder} {tid : Tid} {stage : Stage} {pair : Nat → AddrNRole}

theorem timely_conds {label : Tid × Move} :
    (∀ r' ∈ r.step o label, ∀ t ∈ r.core.waitq, (r.core.waits t).onCond = true →
      t ∉ r'.core.waitq → (r'.core.waits t).wakeReason = .signal) ↔
      ∀ cv, Timely o (.cond cv) r label := by
  constructor
  · intro each cv r' stepped t waits
    obtain ⟨inside, isCond⟩ := mem_waiters.mp waits
    exact each r' stepped t inside (onCond_iff.mpr ⟨cv, isCond⟩)
  · intro each r' stepped t inside onCond
    obtain ⟨cv, isCond⟩ := onCond_iff.mp onCond
    exact each cv r' stepped t (mem_waiters.mpr ⟨inside, isCond⟩)

/-- What holds of the maps and the threads as long as nothing disturbs them. -/
structure Paired (pair : Nat → AddrNRole) (r : Recorder) : Prop where
  sound : Sound r.core r.spot
  roles : Roles pair r.shared.blockedCvLineMap r.shared.blockedCvCountMap
  spots : ∀ t timed cv mu role, r.spot t = .inside (.condWoken timed cv mu role) → role = pair cv
  noCV : ∀ t, (r.locals t).satisfyingCV = none

/-- The threads that wait from the pair of a condition variable are those that wait on it. -/
theorem Paired.blockedFrom (paired : Paired pair r) (inj : Function.Injective pair) (cv : Nat) :
    r.blockedFrom (pair cv) = r.core.waiters (.cond cv) := by
  refine List.filter_congr fun t inside => ?_
  have parked := paired.sound.parked t inside
  cases there : r.spot t with
  | outside =>
    rw [there] at parked
    rw [parked.1]
    rfl
  | returning =>
    rw [there] at parked
    exact parked.elim
  | inside stage =>
    rw [there] at parked
    rw [parked.2.1]
    cases stage with
    | condWoken timed cv' mu role =>
      rw [paired.spots t timed cv' mu role there]
      show (pair cv' == pair cv) = (some (Chan.cond cv') == some (.cond cv))
      by_cases same : cv' = cv
      · rw [same, beq_self_eq_true, beq_self_eq_true]
      · rw [beq_eq_false_iff_ne.mpr fun isPair => same (inj isPair),
          beq_eq_false_iff_ne.mpr fun isOn => same (Chan.cond.inj (Option.some.inj isOn))]
    | retry loop => cases loop <;> rfl
    | _ => rfl

/-- Nobody waits from another pair. -/
theorem Paired.pair_of_blocked (paired : Paired pair r) {p : AddrNRole} (some : r.blockedFrom p ≠ []) :
    ∃ cv, p = pair cv := by
  obtain ⟨t, member⟩ := List.exists_mem_of_ne_nil _ some
  have blocked : (r.spot t).blockedFrom p = true := (List.mem_filter.mp member).2
  cases there : r.spot t with
  | inside stage =>
    rw [there] at blocked
    cases stage with
    | condWoken timed cv mu role =>
      exact ⟨cv, (eq_of_beq blocked).symm.trans (paired.spots t timed cv mu role there)⟩
    | _ => cases blocked
  | _ =>
    rw [there] at blocked
    cases blocked

/-- **The maps are exact exactly when the counts of the pairs are.** -/
theorem rolesExact_iff (paired : Paired pair r) (inj : Function.Injective pair) :
    RolesExact r ↔ ∀ cv, r.shared.roleCount (pair cv) = (r.core.waiters (.cond cv)).length := by
  constructor
  · intro exactly cv
    unfold Shared.roleCount
    rw [exactly.counts (pair cv), paired.blockedFrom inj cv]
    split
    · rename_i nobody
      rw [nobody]
      rfl
    · rfl
  · intro counts
    refine ⟨fun p => ?_, fun cv => ?_⟩
    · by_cases isPair : ∃ cv, p = pair cv
      · obtain ⟨cv, rfl⟩ := isPair
        have count := counts cv
        rw [paired.blockedFrom inj cv]
        unfold Shared.roleCount at count
        cases isCount : r.shared.blockedCvCountMap (pair cv) with
        | none =>
          rw [isCount] at count
          exact (if_pos (List.eq_nil_of_length_eq_zero (Int.ofNat_inj.mp count.symm))).symm
        | some n =>
          have positive := paired.roles.positive _ n isCount
          rw [isCount] at count
          have isLength : n = (r.core.waiters (.cond cv)).length := count
          have someone : r.core.waiters (.cond cv) ≠ [] := by
            intro nobody
            rw [isLength, nobody] at positive
            cases positive
          rw [if_neg someone, isLength]
      · have nobody : r.blockedFrom p = [] := by
          by_contra some
          exact isPair (paired.pair_of_blocked some)
        rw [if_pos nobody]
        cases isCount : r.shared.blockedCvCountMap p with
        | none => rfl
        | some n => exact absurd (paired.roles.paired p n isCount) isPair
    · rw [paired.roles.line_iff, counts cv]
      exact Int.natCast_pos.trans List.length_pos_iff

/-! ### What a step preserves -/

/-- A thread that begins to wait on a condition variable notes where it was called. -/
theorem role_of_waits {σ : Type} {S : Serializer σ} {e : Env σ} {timed : Bool} {cv mu timeout : Nat}
    {role : AddrNRole} {chan : Option Chan}
    (waits : (turn S o tid e stage).2 = .wait chan timeout (.condWoken timed cv mu role)) :
    ∃ caller, stage.condCall = some (cv, caller) ∧ role = e.roleOf S tid caller := by
  have awaits : stage.awaits = some (.cond cv) := by
    have waitsOn := @turn_waitsOn _ S o tid e stage
    have fits := @turn_fits _ S o tid e stage
    rw [waits] at waitsOn fits
    exact waitsOn.symm.trans fits.2.1
  cases stage with
  | called call =>
    cases call with
    | condWait cv' mu' caller =>
      cases waits
      exact ⟨caller, rfl, rfl⟩
    | condTimedWait cv' mu' caller cur abstime =>
      revert waits
      show (condTimedWait S o tid e cv' mu' caller cur abstime).2 = _ → _
      unfold condTimedWait
      split
      · intro waits
        cases waits
        exact ⟨caller, rfl, rfl⟩
      · dsimp only
        split
        · intro waits
          cases waits
          exact ⟨caller, rfl, rfl⟩
        · exact fun waits => nomatch waits
    | _ => cases awaits
  | retry loop => cases loop <;> cases awaits
  | _ => cases awaits

theorem afterPutTurn_satisfyingCV {sh : Shared} {l : Local} (noCV : l.satisfyingCV = none) :
    (afterPutTurn o sh l).satisfyingCV = none := by
  unfold afterPutTurn checkCvWaitCnt
  dsimp only
  repeat' split
  all_goals first | exact noCV | rfl

/-- Where the threads are, and for whom they go on. -/
theorem threads_step {label : Tid × Move} (plus : o.wakeamapPlus = true) (paired : Paired pair r)
    (fromPair : FromPair o pair r label) (stepped : r.step o label = some r') :
    (∀ t timed cv mu role, r'.spot t = .inside (.condWoken timed cv mu role) → role = pair cv) ∧
      ∀ t, (r'.locals t).satisfyingCV = none := by
  obtain ⟨tid, move⟩ := label
  have nodup := paired.sound.nodup
  constructor
  · intro t timed cv mu role there
    cases isStage : r.stageOf tid move with
    | none => exact paired.spots t timed cv mu role (((idle_spots nodup stepped isStage).2 t _).mp there)
    | some stage =>
      have took := took_of_step nodup stepped isStage
      by_cases same : t = tid
      · subst same
        rcases took_inside took there with ⟨-, -, timeout, how⟩ | ⟨barrier, -, isLast⟩
        · obtain ⟨caller, place, isRole⟩ := role_of_waits how
          exact isRole.trans (fromPair stage isStage (cv, caller) place)
        · cases isLast
      · exact paired.spots t timed cv mu role (took.spots t same ▸ there)
  · intro t
    by_cases same : t = tid
    · subst same
      rcases step_cases nodup stepped with ⟨stage, isStage, took⟩ | ⟨-, -, rfl⟩ | ⟨-, -, -, rfl⟩ |
        ⟨-, -, rfl⟩
      · obtain ⟨yieldThis, locals⟩ := took_locals took
        rw [locals]
        exact turn_satisfyingCV plus (paired.noCV t)
      · have left : Function.update r.locals t (afterPutTurn o r.shared (r.locals t)) t =
            afterPutTurn o r.shared (r.locals t) := Function.update_self _ _ _
        exact (congrArg Local.satisfyingCV left).trans (afterPutTurn_satisfyingCV (paired.noCV t))
      · exact paired.noCV t
      · exact paired.noCV t
    · rw [step_locals nodup stepped same]
      exact paired.noCV t

/-- What holds as long as nothing has disturbed the maps. -/
structure RolesBooked (pair : Nat → AddrNRole) (r : Recorder) : Prop where
  paired : Paired pair r
  counts : ∀ cv, r.shared.roleCount (pair cv) = (r.core.waiters (.cond cv)).length
  unexpired : ∀ cv, Unexpired (.cond cv) r

/-- A condition variable without waiters has no line. -/
theorem RolesBooked.line_of_nobody (booked : RolesBooked pair r) {cv : Nat}
    (nobody : r.core.waiters (.cond cv) = []) : r.shared.blockedCvLineMap (some cv) = none := by
  have count := booked.counts cv
  rw [nobody] at count
  refine Option.not_isSome_iff_eq_none.mp fun isLine => ?_
  have some := booked.paired.roles.line_iff.mp isLine
  rw [count] at some
  cases some

/-- **A turn that broadcasts to nobody leaves the count of a condition variable exact exactly when no wait
there expires.** -/
theorem counts_took {move : Move} (plus : o.wakeamapPlus = true) (inj : Function.Injective pair)
    (booked : RolesBooked pair r) (fromPair : FromPair o pair r (tid, move))
    (isStage : r.stageOf tid move = some stage) (took : Took o r tid stage r')
    (calm : ∀ cv ∈ stage.broadcasts, r.core.waiters (.cond cv) = []) :
    Roles pair r'.shared.blockedCvLineMap r'.shared.blockedCvCountMap ∧
      ∀ cv, r'.shared.roleCount (pair cv) = (r'.core.waiters (.cond cv)).length ↔
        ∀ t ∈ r.core.waiters (.cond cv), t ∉ r'.core.waitq → (r'.core.waits t).wakeReason = .signal := by
  have nodup := booked.paired.sound.nodup
  have onTime : ∀ on, ¬ stage.late (r.core.waits tid).wakeReason on := by
    intro on late
    cases stage with
    | condWoken timed cv mu role =>
      cases timed with
      | true =>
        have isOn : on = .cond cv := late.1
        exact not_late (booked.unexpired cv) took.ready isStage (isOn ▸ late)
      | false => exact late
    | _ => exact late
  have turned : RolesTurned (Core.serializer o.wakeamapPlus) o tid (r.env tid) pair stage :=
    turn_roles plus inj booked.paired.roles (booked.paired.noCV tid) (fromPair stage isStage) onTime
      (fun cv isCv => booked.line_of_nobody (calm cv isCv)) took.goes
  rw [took.shared]
  refine ⟨turned.roles, fun cv => ?_⟩
  have before := booked.counts cv
  have after : (r.turnOf o tid stage).1.shared.roleCount (pair cv) =
      r.shared.roleCount (pair cv) + ((r.turnOf o tid stage).2.joins (.cond cv) tid).length -
        if stage.signals = some (.cond cv) ∧ 0 < r.shared.roleCount (pair cv) then 1 else 0 :=
    turned.counts cv
  by_cases deaf : stage.signals = some (.cond cv)
  · have alone : (r.turnOf o tid stage).2.joins (.cond cv) tid = [] := by
      refine joins_of_awaits turn_waitsOn fun awaits => ?_
      cases stage with
      | called call => cases call <;> cases deaf <;> cases awaits
      | _ => cases deaf
    rw [alone] at after
    cases stage with
    | called call =>
      cases call with
      | condSignal cv' =>
        cases deaf
        have core : r'.core = (r.core.signal (.cond cv) false).1.incTurnCount := by
          have gave := took.gave
          cases gave
          rfl
        rw [← length_signal nodup core]
        by_cases some : 0 < r.shared.roleCount (pair cv)
        · rw [if_pos ⟨rfl, some⟩, List.length_nil] at after
          omega
        · rw [if_neg fun both => some both.2, List.length_nil] at after
          omega
      | condBroadcast cv' =>
        cases deaf
        have nobody := calm cv rfl
        have left : r'.core.waiters (.cond cv) = [] := took_waiters_nil took nobody alone
        rw [after, before, nobody, left]
        refine iff_of_true ?_ fun t waits => nomatch waits
        exact congrArg (fun n : Int => 0 + 0 - n) (if_neg fun both => absurd both.2 (Int.lt_irrefl 0))
      | _ => cases deaf
    | _ => cases deaf
  · rw [← length_took nodup took (signalled_of_signals rfl deaf), after, before,
      if_neg fun both => deaf both.1]
    omega

/-- **A step that broadcasts to nobody.** -/
theorem counts_step {label : Tid × Move} (plus : o.wakeamapPlus = true) (inj : Function.Injective pair)
    (booked : RolesBooked pair r) (fromPair : FromPair o pair r label)
    (stepped : r.step o label = some r')
    (calm : ∀ stage ∈ r.stageOf label.1 label.2, ∀ cv ∈ stage.broadcasts, r.core.waiters (.cond cv) = []) :
    Paired pair r' ∧ ∀ cv, r'.shared.roleCount (pair cv) = (r'.core.waiters (.cond cv)).length ↔
      Timely o (.cond cv) r label := by
  have nodup := booked.paired.sound.nodup
  obtain ⟨spots, noCV⟩ := threads_step plus booked.paired fromPair stepped
  cases isStage : r.stageOf label.1 label.2 with
  | some stage =>
    have took := took_of_step nodup stepped isStage
    obtain ⟨roles, counts⟩ := counts_took plus inj booked fromPair isStage took (calm stage isStage)
    refine ⟨⟨sound_step booked.paired.sound stepped, roles, spots, noCV⟩, fun cv => ?_⟩
    rw [timely_iff stepped]
    exact counts cv
  | none =>
    have noted : r'.shared = r.shared := (idle_spots nodup stepped isStage).1
    refine ⟨⟨sound_step booked.paired.sound stepped, noted ▸ booked.paired.roles, spots, noCV⟩, fun cv => ?_⟩
    have before := booked.counts cv
    have elsewhere : Chan.cond cv ≠ .idleCond := nofun
    rw [timely_iff stepped, ← length_idle nodup stepped isStage elsewhere, noted]
    omega

/-- **A broadcast to somebody** leaves a count behind. -/
theorem not_rolesExact_of_broadcast {label : Tid × Move} {cv : Nat} (plus : o.wakeamapPlus = true)
    (inj : Function.Injective pair) (booked : RolesBooked pair r) (fromPair : FromPair o pair r label)
    (stepped : r.step o label = some r')
    (isStage : r.stageOf label.1 label.2 = some (.called (.condBroadcast cv)))
    (someone : r.core.waiters (.cond cv) ≠ []) : ¬ RolesExact r' := by
  intro exactly
  obtain ⟨tid, move⟩ := label
  have nodup := booked.paired.sound.nodup
  have took := took_of_step nodup stepped isStage
  have signalled := (Core.Turned.refl (some (.cond cv)) nodup).signal rfl true
  have ops := (Core.Turned.refl none signalled.nodup).incTurnCount
  have core : r'.core = (r.core.signal (.cond cv) true).1.incTurnCount := by
    have gave := took.gave
    cases gave
    rfl
  have nobody : r'.core.waiters (.cond cv) = [] := by
    rw [core]
    exact waiters_nil ops (waiters_signal_all nodup _)
  have kept : r'.shared.roleCount (pair cv) = r.shared.roleCount (pair cv) := by
    rw [took.shared]
    show ((if o.wakeamapPlus then r.shared.setLine cv none else r.shared).blockedCvCountMap
      (pair cv)).getD 0 = _
    split <;> rfl
  -- whoever is still blocked from the pair would wait on the condition variable
  have none : r'.blockedFrom (pair cv) = [] := by
    refine List.eq_nil_iff_forall_not_mem.mpr fun t member => ?_
    obtain ⟨inside, blocked⟩ := List.mem_filter.mp member
    have parked := (sound_step booked.paired.sound stepped).parked t inside
    cases there : r'.spot t with
    | inside stage =>
      rw [there] at parked blocked
      cases stage with
      | condWoken timed cv' mu role =>
        have isRole := (threads_step plus booked.paired fromPair stepped).1 t timed cv' mu role there
        have same : cv' = cv := inj (isRole.symm.trans (eq_of_beq blocked))
        have waits : t ∈ r'.core.waiters (.cond cv) := mem_waiters.mpr ⟨inside, same ▸ parked.2.1⟩
        rw [nobody] at waits
        cases waits
      | _ => cases blocked
    | _ =>
      rw [there] at blocked
      cases blocked
  have count := exactly.counts (pair cv)
  rw [if_pos none] at count
  unfold Shared.roleCount at kept
  rw [count] at kept
  have before := booked.counts cv
  unfold Shared.roleCount at before
  rw [← kept] at before
  exact someone (List.eq_nil_of_length_eq_zero (Int.ofNat_inj.mp before.symm))

/-- **The counts and lines of the roles are exact throughout a run exactly when all its steps are
undisturbed**, for runs in which every condition variable is waited on from a pair of its own. -/
theorem role_counts_iff (o : Options) (plus : o.wakeamapPlus = true) (mainTh : PthreadT) (shared : Shared)
    (noLines : ∀ cv, shared.blockedCvLineMap cv = none) (noCounts : ∀ p, shared.blockedCvCountMap p = none)
    (pair : Nat → AddrNRole) (inj : Function.Injective pair) (labels : List (Tid × Move)) (r : Recorder)
    (ran : exec (step o) (init o mainTh shared) labels = some r)
    (fromPair : Along (step o) (FromPair o pair) (init o mainTh shared) labels) :
    Throughout (step o) RolesExact (init o mainTh shared) labels ↔
      Along (step o) (Undisturbed o) (init o mainTh shared) labels := by
  have starts : RolesBooked pair (init o mainTh shared) := by
    have empty : Roles pair shared.blockedCvLineMap shared.blockedCvCountMap := by
      rw [show shared.blockedCvLineMap = fun _ => none from funext noLines,
        show shared.blockedCvCountMap = fun _ => none from funext noCounts]
      exact ⟨nofun, nofun, nofun, fun _ => rfl, rfl⟩
    refine ⟨⟨sound_run (exec_nil _), empty, ?_, fun t => rfl⟩, fun cv => ?_, ?_⟩
    · exact fun t timed cv mu role there => (nomatch there)
    · exact congrArg (fun count => count.getD 0) (noCounts (pair cv))
    · exact fun cv t cv' mu role _ there => (nomatch there)
  have keeps : ∀ s label next, RolesBooked pair s → FromPair o pair s label → Undisturbed o s label →
      s.step o label = some next → RolesBooked pair next := by
    intro s label next booked fromPair fine stepped
    obtain ⟨paired, counts⟩ := counts_step plus inj booked fromPair stepped fine.calm
    have timely := timely_conds.mp fine.timely
    exact ⟨paired, fun cv => (counts cv).mpr (timely cv),
      fun cv => unexpired_step booked.paired.sound (booked.unexpired cv) (timely cv) stepped⟩
  refine throughout_iff_along_given (RolesBooked pair)
    (fun s booked => (rolesExact_iff booked.paired inj).mpr booked.counts) keeps ?_ starts fromPair ran
  intro s label next booked fromPair stepped
  constructor
  · intro exactly
    have calm : ∀ stage ∈ s.stageOf label.1 label.2, ∀ cv ∈ stage.broadcasts,
        s.core.waiters (.cond cv) = [] := by
      intro stage isStage cv isBroadcast
      by_contra someone
      have isCall : stage = .called (.condBroadcast cv) := by
        cases stage with
        | called call =>
          cases call with
          | condBroadcast cv' =>
            cases isBroadcast
            rfl
          | _ => cases isBroadcast
        | _ => cases isBroadcast
      exact not_rolesExact_of_broadcast plus inj booked fromPair stepped (isCall ▸ isStage) someone exactly
    obtain ⟨paired, counts⟩ := counts_step plus inj booked fromPair stepped calm
    refine ⟨timely_conds.mpr fun cv => ?_, calm⟩
    exact (counts cv).mp ((rolesExact_iff paired inj).mp exactly cv)
  · intro fine
    have after := keeps s label next booked fromPair fine stepped
    exact (rolesExact_iff after.paired inj).mpr after.counts

/-- Every condition variable is waited on by threads of role `2`, from an address of its own. -/
def ownLine (cv : Nat) : AddrNRole := ⟨cv, 2⟩

/-- Threads `2` and `3` wait on the condition variable `9`. -/
def twoFromOneLine : List (Tid × Move) :=
  quick 0 (.createIdle 101) ++ quick 0 (.create 102 3 0) ++ quick 0 (.create 103 3 0) ++
  quick 2 (.mutexLock 8) ++ [(2, .call (.condWait 9 8 9))] ++
  quick 3 (.mutexLock 8) ++ [(3, .call (.condWait 9 8 9))]

/-- The options of the runs below. -/
def withRoles : Options := { wakeamapPlus := true, schedulingPolicy := 2 }

theorem ownLine_injective : Function.Injective ownLine := fun _ _ same => congrArg AddrNRole.addr same

/-- A signal takes one of the two, and the maps are exact throughout. -/
theorem role_counts_iff_twoFromOneLine :
    ∃ r, exec (step withRoles) (init withRoles 100 {}) (twoFromOneLine ++ quick 0 (.condSignal 9)) = some r ∧
      r.core.waiters (.cond 9) = [3] ∧ r.shared.blockedCvCountMap (ownLine 9) = some 1 ∧
      Throughout (step withRoles) RolesExact (init withRoles 100 {})
        (twoFromOneLine ++ quick 0 (.condSignal 9)) := by
  have found : (exec (step withRoles) (init withRoles 100 {})
      (twoFromOneLine ++ quick 0 (.condSignal 9))).any (fun r =>
        decide (r.core.waiters (.cond 9) = [3] ∧
          r.shared.blockedCvCountMap (ownLine 9) = some 1)) = true := by
    decide +kernel
  have fromPair : Along (step withRoles) (FromPair withRoles ownLine) (init withRoles 100 {})
      (twoFromOneLine ++ quick 0 (.condSignal 9)) := by
    decide +kernel
  have fine : Along (step withRoles) (Undisturbed withRoles) (init withRoles 100 {})
      (twoFromOneLine ++ quick 0 (.condSignal 9)) := by
    decide +kernel
  obtain ⟨r, ran, here⟩ := exec_of_any found
  obtain ⟨waiters, count⟩ := of_decide_eq_true here
  have done := role_counts_iff withRoles rfl 100 {} (fun _ => rfl) (fun _ => rfl) ownLine ownLine_injective _ r
    ran fromPair
  exact ⟨r, ran, waiters, count, done.mpr fine⟩

/-- **A broadcast leaves a count behind**: nobody waits, and the pair still counts two threads. -/
theorem broadcast_leaves_count :
    Along (step withRoles) (FromPair withRoles ownLine) (init withRoles 100 {})
        (twoFromOneLine ++ quick 0 (.condBroadcast 9)) ∧
    ∃ r, exec (step withRoles) (init withRoles 100 {}) (twoFromOneLine ++ quick 0 (.condBroadcast 9)) =
        some r ∧
      r.blockedFrom (ownLine 9) = [] ∧ r.shared.blockedCvCountMap (ownLine 9) = some 2 ∧ ¬ RolesExact r := by
  have found : (exec (step withRoles) (init withRoles 100 {})
      (twoFromOneLine ++ quick 0 (.condBroadcast 9))).any (fun r =>
        decide (r.blockedFrom (ownLine 9) = [] ∧
          r.shared.blockedCvCountMap (ownLine 9) = some 2)) = true := by
    decide +kernel
  obtain ⟨r, ran, here⟩ := exec_of_any found
  obtain ⟨nobody, count⟩ := of_decide_eq_true here
  refine ⟨by decide +kernel, r, ran, nobody, count, fun exactly => ?_⟩
  have none := exactly.counts (ownLine 9)
  rw [if_pos nobody, count] at none
  cases none

end Recorder

end MinSmt
