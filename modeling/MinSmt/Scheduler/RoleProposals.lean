/-
**Role proposals** (`propose_thread_role` and `CHECK_AND_CHANGE_ROLE` in `lib/runtime/record-runtime.cpp`,
`changeRole` in `include/tern/runtime/scheduler.h`).

A proposal names a thread by its handle and is kept, one for each handle, until a thread that has made one
starts its next turn; then all of them are applied, in the order of a hash map, which is a label here. The
thread may have ended by then. `RoleRun.latest` is a ghost: the role function that a thread had last, by its
creation or by a proposal that was applied while it was alive.

* `RolesAgree m latest` — a live thread has the role of its latest function, and functions and role ids are
  in one-to-one correspondence.
* `applyAll_spec` — what applying proposals for live threads does, in any order.
* **`role_proposals_iff`** — applying the proposals touches the roles of the threads they name and nothing
  else exactly when every handle that is proposed is in `p_t_map`.
* `proposal_for_ended_thread` — otherwise the main thread takes the role.
-/

import MinSmt.Scheduler.ThreadIds

namespace MinSmt

open MinSmt.Library

/-- A proposed role: a handle and a role function. -/
abbrev Proposal := PthreadT × ThreadFunc

/-- What the threads do between two turns, and the start of a turn. -/
inductive RoleEvent
  | propose (tid : Tid) (th : PthreadT) (roleFunc : ThreadFunc)
  | create (th : PthreadT) (roleFunc : ThreadFunc)
  | terminate (tid : Tid)
  | turn (tid : Tid) (order : List Proposal)
  deriving DecidableEq, Repr

/-- The thread maps, `proposed_role`, and the `process_proposed_role` of each thread. -/
structure RoleRun where
  map : TidMap
  proposed : List Proposal := []
  processProposed : Tid → Bool := fun _ => false
  latest : Tid → ThreadFunc := fun _ => 0

namespace RoleRun

/-- The main thread alone. -/
def init (mainTh : PthreadT) : RoleRun := { map := TidMap.init true mainTh }

/-- `RecorderRT::propose_thread_role`. -/
def propose (s : RoleRun) (tid : Tid) (th : PthreadT) (roleFunc : ThreadFunc) : RoleRun :=
  { s with
    proposed := (th, roleFunc) :: s.proposed.filter fun p => p.1 ≠ th
    processProposed := Function.update s.processProposed tid true }

/-- The loop of `CHECK_AND_CHANGE_ROLE`. -/
def applyAll (m : TidMap) (order : List Proposal) : TidMap :=
  order.foldl (fun m p => m.changeRole p.1 p.2) m

/-- The functions that live threads have after proposals. -/
def latestAfter (m : TidMap) (order : List Proposal) (latest : Tid → ThreadFunc) : Tid → ThreadFunc :=
  order.foldl (fun latest p => match m.pToT p.1 with
    | some tid => Function.update latest tid p.2
    | none => latest) latest

/-- `CHECK_AND_CHANGE_ROLE`, with the proposals in this order. -/
def checkAndChangeRole (s : RoleRun) (tid : Tid) (order : List Proposal) : RoleRun :=
  if s.processProposed tid = true ∧ s.proposed ≠ [] then
    { map := applyAll s.map order
      proposed := []
      processProposed := Function.update s.processProposed tid false
      latest := latestAfter s.map order s.latest }
  else s

/-- One event, with `wakeamap_plus`. -/
def step (s : RoleRun) : RoleEvent → Option RoleRun
  | .propose tid th roleFunc => some (s.propose tid th roleFunc)
  | .create th roleFunc =>
    if s.map.pToT th = none then
      some { s with
        map := s.map.create true th roleFunc
        latest := Function.update s.latest s.map.nthread roleFunc }
    else none
  | .terminate tid => if s.map.tToP tid = none then none else some { s with map := s.map.zombify tid }
  | .turn tid order => if order.Perm s.proposed then some (s.checkAndChangeRole tid order) else none

/-- Every handle with a proposal is in `p_t_map` when the proposals are applied. -/
def ProposalsLive (s : RoleRun) : RoleEvent → Prop
  | .turn tid _ => s.processProposed tid = true → ∀ p ∈ s.proposed, s.map.pToT p.1 ≠ none
  | _ => True

/-- **The proposals touched only their targets.** -/
structure TouchedOnly (s s' : RoleRun) : Prop where
  target : ∀ th roleFunc tid, (th, roleFunc) ∈ s.proposed → s.map.pToT th = some tid →
    s'.map.tToR tid = s'.map.fToR roleFunc ∧ s'.map.fToR roleFunc ≠ none
  others : ∀ tid, (∀ p ∈ s.proposed, s.map.pToT p.1 ≠ some tid) → s'.map.tToR tid = s.map.tToR tid
  handles : s'.map.pToT = s.map.pToT
  oneToOne : ∀ roleFunc role, s'.map.fToR roleFunc = some role ↔ s'.map.rToF role = some roleFunc
  roleids : ∀ tid tid', s'.map.tToP tid ≠ none → s'.map.tToP tid' ≠ none →
    (s'.map.tToR tid = s'.map.tToR tid' ↔ s'.latest tid = s'.latest tid')

end RoleRun

/-! ### Roles and functions -/

/-- **A live thread has the role of its latest function**, and a role id is that of one function. -/
structure RolesAgree (m : TidMap) (latest : Tid → ThreadFunc) : Prop where
  paired : m.Paired
  roles : ∀ tid, m.tToP tid ≠ none → m.tToR tid = m.fToR (latest tid) ∧ m.fToR (latest tid) ≠ none
  oneToOne : ∀ roleFunc role, m.fToR roleFunc = some role ↔ m.rToF role = some roleFunc
  bounded : ∀ roleFunc role, m.fToR roleFunc = some role → role < m.nrole

namespace RolesAgree

variable {m : TidMap} {latest : Tid → ThreadFunc} {tid : Tid} {roleFunc : ThreadFunc}

/-- Two live threads have one role id exactly when their latest functions are the same. -/
theorem roleids (agree : RolesAgree m latest) {tid' : Tid} (live : m.tToP tid ≠ none)
    (live' : m.tToP tid' ≠ none) : m.tToR tid = m.tToR tid' ↔ latest tid = latest tid' := by
  obtain ⟨isRole, some⟩ := agree.roles tid live
  rw [isRole, (agree.roles tid' live').1]
  constructor
  · intro same
    obtain ⟨role, first⟩ := Option.ne_none_iff_exists'.mp some
    have second := (agree.oneToOne _ role).mp (same ▸ first)
    rw [(agree.oneToOne _ role).mp first] at second
    exact Option.some.inj second
  · intro same
    rw [same]

end RolesAgree

/-- What `assignRole` does to the roles and the functions. -/
theorem assignRole_fields (m : TidMap) (tid : Tid) (roleFunc : ThreadFunc) :
    (m.assignRole tid roleFunc).tToR tid = (m.assignRole tid roleFunc).fToR roleFunc ∧
    (m.assignRole tid roleFunc).fToR roleFunc ≠ none ∧
    (∀ t, t ≠ tid → (m.assignRole tid roleFunc).tToR t = m.tToR t) ∧
    ∀ f, m.fToR f ≠ none → (m.assignRole tid roleFunc).fToR f = m.fToR f := by
  unfold TidMap.assignRole
  cases known : m.fToR roleFunc with
  | none =>
    refine ⟨by simp, by simp, fun t other => by simp [other], fun f has => ?_⟩
    have other : f ≠ roleFunc := fun same => has (same ▸ known)
    simp [other]
  | some role => exact ⟨by simp [known], by simp [known], fun t other => by simp [other], fun f has => rfl⟩

/-- `assignRole` keeps functions and role ids in correspondence. -/
theorem assignRole_oneToOne {m : TidMap}
    (oneToOne : ∀ roleFunc role, m.fToR roleFunc = some role ↔ m.rToF role = some roleFunc)
    (bounded : ∀ roleFunc role, m.fToR roleFunc = some role → role < m.nrole) (tid : Tid) (new : ThreadFunc) :
    (∀ roleFunc role, (m.assignRole tid new).fToR roleFunc = some role ↔
      (m.assignRole tid new).rToF role = some roleFunc) ∧
    ∀ roleFunc role, (m.assignRole tid new).fToR roleFunc = some role →
      role < (m.assignRole tid new).nrole := by
  unfold TidMap.assignRole
  cases known : m.fToR new with
  | none =>
    have unused : ∀ f, m.fToR f ≠ some m.nrole := fun f isLast => Nat.lt_irrefl _ (bounded f _ isLast)
    refine ⟨fun f role => ?_, fun f role has => ?_⟩
    · by_cases sameF : f = new <;> by_cases sameR : role = m.nrole
      · simp [sameF, sameR]
      · simp only [sameF, Function.update_self, Function.update_of_ne sameR, ← oneToOne, known]
        exact iff_of_false (fun h => sameR (Option.some.inj h).symm) (by simp)
      · simp only [sameR, Function.update_self, Function.update_of_ne sameF]
        exact iff_of_false (unused f) fun h => sameF (Option.some.inj h).symm
      · simp only [Function.update_of_ne sameF, Function.update_of_ne sameR]
        exact oneToOne f role
    · change Function.update m.fToR new (some m.nrole) f = some role at has
      by_cases sameF : f = new
      · rw [sameF, Function.update_self] at has
        exact Option.some.inj has ▸ Nat.lt_succ_self _
      · rw [Function.update_of_ne sameF] at has
        exact Nat.lt_succ_of_lt (bounded f role has)
  | some role => exact ⟨oneToOne, bounded⟩

namespace RolesAgree

variable {m : TidMap} {latest : Tid → ThreadFunc}

/-- The role of one thread is changed. -/
theorem assignRole (agree : RolesAgree m latest) (tid : Tid) (roleFunc : ThreadFunc) :
    RolesAgree (m.assignRole tid roleFunc) (Function.update latest tid roleFunc) := by
  obtain ⟨own, known, other, kept⟩ := assignRole_fields m tid roleFunc
  obtain ⟨oneToOne, bounded⟩ := assignRole_oneToOne agree.oneToOne agree.bounded tid roleFunc
  refine ⟨⟨fun th t => ?_, fun t live => ?_⟩, fun t live => ?_, oneToOne, bounded⟩
  · rw [TidMap.assignRole_pToT, TidMap.assignRole_tToP]
    exact agree.paired.inverse th t
  · rw [TidMap.assignRole_tToP] at live
    rw [TidMap.assignRole_nthread]
    exact agree.paired.given t live
  · rw [TidMap.assignRole_tToP] at live
    by_cases same : t = tid
    · rw [same, Function.update_self]
      exact ⟨own, known⟩
    · obtain ⟨isRole, has⟩ := agree.roles t live
      rw [Function.update_of_ne same, other t same, kept _ has]
      exact ⟨isRole, has⟩

theorem create (agree : RolesAgree m latest) {th : PthreadT} (fresh : m.pToT th = none)
    (roleFunc : ThreadFunc) :
    RolesAgree (m.create true th roleFunc) (Function.update latest m.nthread roleFunc) := by
  let added : TidMap := { m with
    pToT := Function.update m.pToT th (some m.nthread)
    tToP := Function.update m.tToP m.nthread (some th) }
  obtain ⟨own, known, other, kept⟩ := assignRole_fields added m.nthread roleFunc
  obtain ⟨oneToOne, bounded⟩ := assignRole_oneToOne (m := added) agree.oneToOne agree.bounded m.nthread roleFunc
  refine ⟨agree.paired.create fresh roleFunc, fun t live => ?_, oneToOne, bounded⟩
  rw [TidMap.create_tToP] at live
  by_cases same : t = m.nthread
  · rw [same, Function.update_self]
    exact ⟨own, known⟩
  · rw [Function.update_of_ne same] at live ⊢
    obtain ⟨isRole, has⟩ := agree.roles t live
    have before : (m.create true th roleFunc).fToR (latest t) = m.fToR (latest t) := kept _ has
    rw [before]
    exact ⟨(other t same).trans isRole, has⟩

theorem zombify (agree : RolesAgree m latest) (tid : Tid) : RolesAgree (m.zombify tid) latest := by
  have frame : (m.zombify tid).tToR = m.tToR ∧ (m.zombify tid).fToR = m.fToR ∧
      (m.zombify tid).rToF = m.rToF ∧ (m.zombify tid).nrole = m.nrole := by
    unfold TidMap.zombify
    cases m.tToP tid <;> exact ⟨rfl, rfl, rfl, rfl⟩
  obtain ⟨roles, functions, back, count⟩ := frame
  refine ⟨agree.paired.zombify tid, fun t live => ?_, fun f role => ?_, fun f role => ?_⟩
  · rw [roles, functions]
    refine agree.roles t fun ended => live ?_
    rw [TidMap.zombify_tToP]
    by_cases same : t = tid
    · simp [same]
    · rw [Function.update_of_ne same, ended]
  · rw [functions, back]
    exact agree.oneToOne f role
  · rw [functions, count]
    exact agree.bounded f role

theorem init (mainTh : PthreadT) : RolesAgree (TidMap.init true mainTh) fun _ => 0 := by
  have empty : RolesAgree {} fun _ => 0 := ⟨⟨by simp, by simp⟩, by simp, by simp, by simp⟩
  simpa [TidMap.init] using @RolesAgree.create _ _ empty mainTh rfl 0

/-- `changeRole` on a handle that is in `p_t_map`. -/
theorem changeRole (agree : RolesAgree m latest) {th : PthreadT} {tid : Tid} (known : m.pToT th = some tid)
    (roleFunc : ThreadFunc) :
    RolesAgree (m.changeRole th roleFunc) (Function.update latest tid roleFunc) := by
  rw [TidMap.changeRole, known]
  exact agree.assignRole tid roleFunc

end RolesAgree

/-! ### Applying the proposals -/

/-- **Applying proposals for live threads, one for each handle, in any order.** -/
theorem applyAll_spec {m : TidMap} {latest : Tid → ThreadFunc} {order : List Proposal}
    (agree : RolesAgree m latest) (live : ∀ p ∈ order, m.pToT p.1 ≠ none)
    (once : (order.map Prod.fst).Nodup) :
    RolesAgree (RoleRun.applyAll m order) (RoleRun.latestAfter m order latest) ∧
    (RoleRun.applyAll m order).pToT = m.pToT ∧
    (∀ p ∈ order, ∀ tid, m.pToT p.1 = some tid →
      (RoleRun.applyAll m order).tToR tid = (RoleRun.applyAll m order).fToR p.2 ∧
      (RoleRun.applyAll m order).fToR p.2 ≠ none) ∧
    (∀ tid, (∀ p ∈ order, m.pToT p.1 ≠ some tid) → (RoleRun.applyAll m order).tToR tid = m.tToR tid) ∧
    ∀ f, m.fToR f ≠ none → (RoleRun.applyAll m order).fToR f = m.fToR f := by
  induction order generalizing m latest with
  | nil => exact ⟨agree, rfl, by simp, fun _ _ => rfl, fun _ _ => rfl⟩
  | cons first order ih =>
    obtain ⟨th, roleFunc⟩ := first
    obtain ⟨own, known⟩ := Option.ne_none_iff_exists'.mp (live (th, roleFunc) List.mem_cons_self)
    obtain ⟨fresh, once⟩ := List.nodup_cons.mp once
    have changed : m.changeRole th roleFunc = m.assignRole own roleFunc := by
      rw [TidMap.changeRole, known]
    have handles : (m.changeRole th roleFunc).pToT = m.pToT := by
      rw [changed, TidMap.assignRole_pToT]
    obtain ⟨isRole, has, other, kept⟩ := assignRole_fields m own roleFunc
    rw [← changed] at isRole has other kept
    obtain ⟨agree', handles', targets, others, kept'⟩ := ih (agree.changeRole known roleFunc)
      (fun p inside => by
        rw [handles]
        exact live p (List.mem_cons_of_mem _ inside)) once
    rw [handles] at handles' targets others
    -- the rest of the proposals name other threads
    have apart : ∀ p ∈ order, m.pToT p.1 ≠ some own := by
      intro p inside same
      have sameTh := agree.paired.oneThreadPerTid p.1 th own same known
      exact fresh (List.mem_map.mpr ⟨p, inside, sameTh⟩)
    have latestEq : RoleRun.latestAfter m ((th, roleFunc) :: order) latest =
        RoleRun.latestAfter (m.changeRole th roleFunc) order (Function.update latest own roleFunc) := by
      simp only [RoleRun.latestAfter, List.foldl_cons, known, handles]
    rw [latestEq]
    refine ⟨agree', handles', fun p inside tid isTid => ?_, fun tid notNamed => ?_, fun f isKnown => ?_⟩
    · rcases List.mem_cons.mp inside with rfl | inside
      · obtain rfl : own = tid := Option.some.inj (known.symm.trans isTid)
        have stays := others own apart
        have final := kept' roleFunc has
        show (RoleRun.applyAll (m.changeRole th roleFunc) order).tToR own =
          (RoleRun.applyAll (m.changeRole th roleFunc) order).fToR roleFunc ∧ _
        rw [stays, final]
        exact ⟨isRole, final.symm ▸ has⟩
      · exact targets p inside tid isTid
    · have notOwn : tid ≠ own := fun same => notNamed (th, roleFunc) List.mem_cons_self (same ▸ known)
      have stays := others tid fun p inside => notNamed p (List.mem_cons_of_mem _ inside)
      exact stays.trans (other tid notOwn)
    · exact (kept' f (by rwa [kept f isKnown])).trans (kept f isKnown)

/-- `changeRole` inserts a handle that is not in `p_t_map`, with tid `0`. -/
theorem changeRole_pToT (m : TidMap) (th : PthreadT) (roleFunc : ThreadFunc) :
    (m.changeRole th roleFunc).pToT =
      if m.pToT th = none then Function.update m.pToT th (some 0) else m.pToT := by
  unfold TidMap.changeRole
  cases known : m.pToT th with
  | some tid => simp
  | none => simp

/-- An entry of `p_t_map` stays there. -/
theorem applyAll_pToT_stays (m : TidMap) (order : List Proposal) (th : PthreadT) (has : m.pToT th ≠ none) :
    (RoleRun.applyAll m order).pToT th ≠ none := by
  induction order generalizing m with
  | nil => exact has
  | cons first order ih =>
    refine ih (m.changeRole first.1 first.2) ?_
    rw [changeRole_pToT]
    split_ifs
    · by_cases same : th = first.1
      · simp [same]
      · rwa [Function.update_of_ne same]
    · exact has

/-- **A proposal puts its handle into `p_t_map`**, whether or not it was there. -/
theorem applyAll_inserts {m : TidMap} {order : List Proposal} {p : Proposal} (inside : p ∈ order) :
    (RoleRun.applyAll m order).pToT p.1 ≠ none := by
  induction order generalizing m with
  | nil => cases inside
  | cons first order ih =>
    rcases List.mem_cons.mp inside with rfl | later
    · refine applyAll_pToT_stays (m.changeRole p.1 p.2) order p.1 ?_
      rw [changeRole_pToT]
      split_ifs with absent
      · simp
      · exact absent
    · exact ih later

/-! ### Runs -/

/-- What a run keeps: roles as they should be, and one proposal for each handle. -/
structure RolesKept (s : RoleRun) : Prop where
  agree : RolesAgree s.map s.latest
  once : (s.proposed.map Prod.fst).Nodup

/-- **An event keeps the roles as they should be**, when every handle proposed is that of a live thread. -/
theorem RolesKept.step {s s' : RoleRun} (kept : RolesKept s) {event : RoleEvent} (live : s.ProposalsLive event)
    (moved : s.step event = some s') : RolesKept s' := by
  cases event with
  | propose tid th roleFunc =>
    cases moved
    refine ⟨kept.agree, List.nodup_cons.mpr ⟨?_, ?_⟩⟩
    · simp
    · exact kept.once.sublist ((List.filter_sublist).map _)
  | create th roleFunc =>
    simp only [RoleRun.step] at moved
    split at moved
    case isTrue fresh =>
      cases moved
      exact ⟨kept.agree.create fresh roleFunc, kept.once⟩
    case isFalse => cases moved
  | terminate tid =>
    simp only [RoleRun.step] at moved
    split at moved
    · cases moved
    · cases moved
      exact ⟨kept.agree.zombify tid, kept.once⟩
  | turn tid order =>
    simp only [RoleRun.step] at moved
    split at moved
    case isTrue perm =>
      cases moved
      unfold RoleRun.checkAndChangeRole
      split
      case isTrue processes =>
        refine ⟨(applyAll_spec kept.agree (fun p inside => ?_) ?_).1, List.nodup_nil⟩
        · exact live processes.1 p (perm.mem_iff.mp inside)
        · exact (perm.map Prod.fst).nodup_iff.mpr kept.once
      case isFalse => exact kept
    case isFalse => cases moved

/-- **Applying the proposals touches the roles of the threads they name and nothing else exactly when
every handle with a proposal is in `p_t_map`**: in every run in which this was so before, whatever the
order of the proposals, the creations and the ends of threads, and whatever order the map is gone
through in. -/
theorem role_proposals_iff {mainTh : PthreadT} {events : List RoleEvent} {s s' : RoleRun} {tid : Tid}
    {order : List Proposal} (run : exec RoleRun.step (RoleRun.init mainTh) events = some s)
    (before : Along RoleRun.step RoleRun.ProposalsLive (RoleRun.init mainTh) events)
    (proposer : s.processProposed tid = true) (turn : s.step (.turn tid order) = some s') :
    s.TouchedOnly s' ↔ ∀ p ∈ s.proposed, s.map.pToT p.1 ≠ none := by
  have start : RolesKept (RoleRun.init mainTh) := ⟨RolesAgree.init mainTh, List.nodup_nil⟩
  have kept : RolesKept s :=
    exec_invariant RolesKept (fun _ _ _ kept live moved => kept.step live moved) start before run
  have after : (∀ p ∈ s.proposed, s.map.pToT p.1 ≠ none) → RolesKept s' := fun live =>
    @RolesKept.step _ _ kept (.turn tid order) (fun _ => live) turn
  simp only [RoleRun.step] at turn
  split at turn
  case isFalse => cases turn
  case isTrue perm =>
    cases turn
    by_cases none : s.proposed = []
    · have stays : s.checkAndChangeRole tid order = s := if_neg fun both => both.2 none
      rw [stays]
      refine iff_of_true ⟨by simp [none], fun _ _ => rfl, rfl, kept.agree.oneToOne, fun _ _ live live' =>
        kept.agree.roleids live live'⟩ (by simp [none])
    · have applied : s.checkAndChangeRole tid order = _ := if_pos ⟨proposer, none⟩
      rw [applied] at after ⊢
      constructor
      · intro touched p inside
        have inserted := applyAll_inserts (m := s.map) (perm.mem_iff.mpr inside)
        have handles : (RoleRun.applyAll s.map order).pToT = s.map.pToT := touched.handles
        rwa [handles] at inserted
      · intro live
        obtain ⟨-, handles, targets, others, -⟩ := applyAll_spec kept.agree
          (fun p inside => live p (perm.mem_iff.mp inside)) ((perm.map Prod.fst).nodup_iff.mpr kept.once)
        have agree := (after live).agree
        exact ⟨fun th roleFunc t inside isTid => targets _ (perm.mem_iff.mpr inside) t isTid,
          fun t notNamed => others t fun p inside => notNamed p (perm.mem_iff.mp inside), handles,
          agree.oneToOne, fun _ _ isLive isLive' => agree.roleids isLive isLive'⟩

/-- It applies to a proposal for a thread that is alive. -/
theorem role_proposals_iff_live : ∃ s s', exec RoleRun.step (RoleRun.init 5) [.create 7 1, .propose 0 7 2] =
    some s ∧ s.step (.turn 0 [(7, 2)]) = some s' ∧ s.TouchedOnly s' := by
  have run : exec RoleRun.step (RoleRun.init 5) [.create 7 1, .propose 0 7 2] = some _ := rfl
  have before : Along RoleRun.step RoleRun.ProposalsLive (RoleRun.init 5) [.create 7 1, .propose 0 7 2] :=
    ⟨trivial, fun _ _ => ⟨trivial, fun _ _ => trivial⟩⟩
  exact ⟨_, _, run, rfl, (@role_proposals_iff 5 _ _ _ 0 [(7, 2)] run before rfl rfl).mpr (by decide)⟩

/-- **A proposal for a thread that has ended gives its role to the main thread**, and puts the old
handle into `p_t_map` with the main thread's tid. -/
theorem proposal_for_ended_thread : ∃ s s',
    exec RoleRun.step (RoleRun.init 5) [.create 7 1, .propose 0 7 2, .terminate 1] = some s ∧
    s.step (.turn 0 [(7, 2)]) = some s' ∧ s.processProposed 0 = true ∧
    s.map.tToR 0 ≠ s'.map.tToR 0 ∧ s.map.pToT 7 = none ∧ s'.map.pToT 7 = some 0 ∧ ¬ s.TouchedOnly s' := by
  refine ⟨_, _, rfl, rfl, by decide, by decide, by decide, by decide, fun touched => ?_⟩
  have handles := congrFun touched.handles 7
  revert handles
  decide

end MinSmt
