/-
**Thread handles over whole histories** (`TidMap`, `RecorderRT::pthreadJoin`, `__pthread_detach`).

A handle names at most one thread at a time, and the pthread library may hand a value out again once
the thread it named has been joined, or has terminated detached. `Handles` is the thread maps together
with what the library knows of each handle (`Life`) and the tid of the thread it names; a history is a
sequence of creations, `threadEnd` (which calls `zombify`), terminations, joins (which call `reap`) and
detaches. `__pthread_detach` calls the library only, so a detached thread stays in `zombies`.

* `FreshHandle` — the handle a creation gets is not in `zombies`.
* **`zombies_have_ended`** — along a history of such creations the maps are inverse to each other,
  `zombies` is disjoint from the keys of `p_t_map`, and no thread that is still running is a zombie.
* `stale_creation_breaks` — a creation with any other handle makes a running thread a zombie.
* **`reused_handle_is_zombie`** — a history in which that happens.
-/

import MinSmt.Library.Run
import MinSmt.Scheduler.TidMap

namespace MinSmt

open MinSmt.Library

/-- What the pthread library knows of a handle. -/
inductive Life
  /-- It names no thread, and may be handed out. -/
  | free
  /-- The thread has not executed `threadEnd`. -/
  | running (detached : Bool)
  /-- The thread has executed `threadEnd` and has not terminated. -/
  | ended (detached : Bool)
  /-- The thread has terminated and can be joined. -/
  | terminated
  deriving DecidableEq, Repr

/-- The thread still needs a turn. -/
def Life.needsTurn : Life → Bool
  | .running _ => true
  | _ => false

/-- The thread maps, the library's view, and the tid of the thread each handle names. -/
structure Handles where
  tm : TidMap
  life : PthreadT → Life
  tid : PthreadT → Tid

/-- One event of a history. -/
inductive Event
  | create (th : PthreadT) (threadFunc : ThreadFunc) (detached : Bool)
  | threadEnd (th : PthreadT)
  | terminate (th : PthreadT)
  | join (th : PthreadT)
  | detach (th : PthreadT)
  deriving DecidableEq, Repr

namespace Handles

/-- The main thread alone. -/
def init (wakeamapPlus : Bool) (mainTh : PthreadT) : Handles :=
  { tm := TidMap.init wakeamapPlus mainTh
    life := Function.update (fun _ => .free) mainTh (.running false)
    tid := fun _ => mainThreadTid }

/-- The library's view of one handle changes. -/
def become (s : Handles) (th : PthreadT) (life : Life) : Handles :=
  { s with life := Function.update s.life th life }

/-- **One event.** A handle is handed out only when it is free; `pthread_join` returns when the thread
has terminated, and `pthreadJoin` calls it only for a zombie. -/
def step (wakeamapPlus : Bool) (s : Handles) : Event → Option Handles
  | .create th threadFunc detached =>
    if s.life th = .free then
      some { s.become th (.running detached) with
        tm := s.tm.create wakeamapPlus th threadFunc
        tid := Function.update s.tid th s.tm.nthread }
    else none
  | .threadEnd th =>
    match s.life th with
    | .running detached =>
      some { s.become th (.ended detached) with tm := s.tm.zombify (s.tid th) }
    | _ => none
  | .terminate th =>
    match s.life th with
    | .ended detached => some (s.become th (if detached then .free else .terminated))
    | _ => none
  | .join th =>
    if s.tm.zombie th = true ∧ s.life th = .terminated then
      some { s.become th .free with tm := s.tm.reap th }
    else none
  | .detach th =>
    match s.life th with
    | .running _ => some (s.become th (.running true))
    | .ended _ => some (s.become th (.ended true))
    | .terminated => some (s.become th .free)
    | .free => none

/-- **The handle of a new thread is not in `zombies`.** -/
def FreshHandle (s : Handles) : Event → Prop
  | .create th _ _ => s.tm.zombie th = false
  | _ => True

instance (s : Handles) (event : Event) : Decidable (FreshHandle s event) := by
  unfold FreshHandle
  split <;> infer_instance

/-- **The invariant.** -/
structure Tidy (s : Handles) : Prop where
  known : ∀ th tid, s.tm.getTid th = some tid ↔ (s.life th).needsTurn = true ∧ s.tid th = tid
  inverse : ∀ th tid, s.tm.tToP tid = some th ↔ s.tm.getTid th = some tid
  bound : ∀ tid, (s.tm.tToP tid).isSome = true → tid < s.tm.nthread
  zombies : ∀ th, s.tm.zombie th = true → (s.life th).needsTurn = false

variable {plus : Bool} {s s' : Handles} {th : PthreadT}

theorem become_self {life : Life} : (s.become th life).life th = life := Function.update_self _ _ _

theorem become_of_ne {other : PthreadT} {life : Life} (different : other ≠ th) :
    (s.become th life).life other = s.life other := Function.update_of_ne different _ _

namespace Tidy

/-- Only a thread that needs a turn is in the maps. -/
theorem not_known (tidy : Tidy s) (still : (s.life th).needsTurn = false) :
    s.tm.getTid th = none := by
  cases found : s.tm.getTid th with
  | none => rfl
  | some tid =>
    rw [((tidy.known th tid).mp found).1] at still
    cases still

/-- **A thread that needs a turn goes on needing one, or goes on not needing one.** -/
theorem become (tidy : Tidy s) {life : Life} (same : life.needsTurn = (s.life th).needsTurn) :
    Tidy (s.become th life) := by
  have needs : ∀ other, ((s.become th life).life other).needsTurn = (s.life other).needsTurn := by
    intro other
    by_cases isTh : other = th
    · rw [isTh, become_self, same]
    · rw [become_of_ne isTh]
  refine ⟨fun other tid => ?_, tidy.inverse, tidy.bound, fun other isZombie => ?_⟩
  · rw [needs other]
    exact tidy.known other tid
  · rw [needs other]
    exact tidy.zombies other isZombie

/-- `reap` only takes a handle out of `zombies`. -/
theorem reap (tidy : Tidy s) (th : PthreadT) : Tidy { s with tm := s.tm.reap th } := by
  refine ⟨tidy.known, tidy.inverse, tidy.bound, fun other isZombie => ?_⟩
  replace isZombie : Function.update s.tm.zombies th false other = true := isZombie
  by_cases isTh : other = th
  · rw [isTh, Function.update_self] at isZombie
    cases isZombie
  · rw [Function.update_of_ne isTh] at isZombie
    exact tidy.zombies other isZombie

/-- **A creation with a fresh handle.** -/
theorem create (tidy : Tidy s) (free : s.life th = .free) (fresh : s.tm.zombie th = false)
    (threadFunc : ThreadFunc) (detached : Bool) :
    Tidy { s.become th (.running detached) with
      tm := s.tm.create plus th threadFunc
      tid := Function.update s.tid th s.tm.nthread } := by
  have unknown : s.tm.getTid th = none := tidy.not_known (by rw [free]; rfl)
  have newTid : s.tm.tToP s.tm.nthread = none := by
    cases found : s.tm.tToP s.tm.nthread with
    | none => rfl
    | some other => exact absurd (tidy.bound _ (by rw [found]; rfl)) (Nat.lt_irrefl _)
  have getTid : ∀ other, (s.tm.create plus th threadFunc).getTid other =
      if other = th then some s.tm.nthread else s.tm.getTid other := by
    intro other
    unfold TidMap.getTid
    rw [TidMap.create_pToT, Function.update_apply]
  have tToP : ∀ tid, (s.tm.create plus th threadFunc).tToP tid =
      if tid = s.tm.nthread then some th else s.tm.tToP tid := by
    intro tid
    rw [TidMap.create_tToP, Function.update_apply]
  refine ⟨fun other tid => ?_, fun other tid => ?_, fun tid known => ?_, fun other isZombie => ?_⟩
  · show (s.tm.create plus th threadFunc).getTid other = some tid ↔
      ((s.become th (.running detached)).life other).needsTurn = true ∧
        Function.update s.tid th s.tm.nthread other = tid
    rw [getTid other]
    by_cases isTh : other = th
    · rw [if_pos isTh, isTh, become_self, Function.update_self]
      exact ⟨fun same => ⟨rfl, Option.some.inj same⟩, fun both => congrArg some both.2⟩
    · rw [if_neg isTh, become_of_ne isTh, Function.update_of_ne isTh]
      exact tidy.known other tid
  · show (s.tm.create plus th threadFunc).tToP tid = some other ↔
      (s.tm.create plus th threadFunc).getTid other = some tid
    rw [getTid other, tToP tid]
    by_cases isTh : other = th
    · subst isTh
      rw [if_pos rfl]
      by_cases isNew : tid = s.tm.nthread
      · rw [if_pos isNew, isNew]
        simp
      · rw [if_neg isNew]
        refine iff_of_false (fun before => ?_) fun same => isNew (Option.some.inj same).symm
        rw [(tidy.inverse other tid).mp before] at unknown
        cases unknown
    · rw [if_neg isTh]
      by_cases isNew : tid = s.tm.nthread
      · rw [if_pos isNew, isNew]
        refine iff_of_false (fun same => isTh (Option.some.inj same).symm) fun before => ?_
        rw [(tidy.inverse other _).mpr before] at newTid
        cases newTid
      · rw [if_neg isNew]
        exact tidy.inverse other tid
  · replace known : ((s.tm.create plus th threadFunc).tToP tid).isSome = true := known
    rw [tToP tid] at known
    show tid < s.tm.nthread + 1
    by_cases isNew : tid = s.tm.nthread
    · rw [isNew]
      exact Nat.lt_succ_self _
    · rw [if_neg isNew] at known
      exact Nat.lt_succ_of_lt (tidy.bound tid known)
  · replace isZombie : (s.tm.create plus th threadFunc).zombies other = true := isZombie
    rw [TidMap.create_zombies] at isZombie
    have isTh : other ≠ th := fun same => by
      rw [same, show s.tm.zombies th = false from fresh] at isZombie
      cases isZombie
    show ((s.become th (.running detached)).life other).needsTurn = false
    rw [become_of_ne isTh]
    exact tidy.zombies other isZombie

/-- **A thread ends.** -/
theorem threadEnd (tidy : Tidy s) {detached : Bool} (here : s.life th = .running detached) :
    Tidy { s.become th (.ended detached) with tm := s.tm.zombify (s.tid th) } := by
  have own : s.tm.getTid th = some (s.tid th) :=
    (tidy.known th _).mpr ⟨by rw [here]; rfl, rfl⟩
  have back : s.tm.tToP (s.tid th) = some th := (tidy.inverse th _).mpr own
  have maps : s.tm.zombify (s.tid th) =
      { s.tm with
        zombies := Function.update s.tm.zombies th true
        pToT := Function.update s.tm.pToT th none
        tToP := Function.update s.tm.tToP (s.tid th) none } := by
    unfold TidMap.zombify
    rw [back]
  rw [maps]
  refine ⟨fun other tid => ?_, fun other tid => ?_, fun tid known => ?_, fun other isZombie => ?_⟩
  · show Function.update s.tm.pToT th none other = some tid ↔
      ((s.become th (.ended detached)).life other).needsTurn = true ∧ s.tid other = tid
    by_cases isTh : other = th
    · rw [isTh, Function.update_self, become_self]
      exact iff_of_false (fun found => by cases found) fun both => by cases both.1
    · rw [Function.update_of_ne isTh, become_of_ne isTh]
      exact tidy.known other tid
  · show Function.update s.tm.tToP (s.tid th) none tid = some other ↔
      Function.update s.tm.pToT th none other = some tid
    by_cases isTh : other = th
    · subst isTh
      rw [Function.update_self]
      refine iff_of_false (fun before => ?_) fun found => by cases found
      by_cases isTid : tid = s.tid other
      · rw [isTid, Function.update_self] at before
        cases before
      · rw [Function.update_of_ne isTid] at before
        have found := (tidy.inverse other tid).mp before
        rw [own] at found
        exact isTid (Option.some.inj found).symm
    · rw [Function.update_of_ne isTh]
      by_cases isTid : tid = s.tid th
      · rw [isTid, Function.update_self]
        refine iff_of_false (fun found => by cases found) fun found => ?_
        have theirs := (tidy.inverse other _).mpr found
        rw [back] at theirs
        exact isTh (Option.some.inj theirs).symm
      · rw [Function.update_of_ne isTid]
        exact tidy.inverse other tid
  · refine tidy.bound tid ?_
    replace known : (Function.update s.tm.tToP (s.tid th) none tid).isSome = true := known
    by_cases isTid : tid = s.tid th
    · rw [isTid, Function.update_self] at known
      cases known
    · rwa [Function.update_of_ne isTid] at known
  · show ((s.become th (.ended detached)).life other).needsTurn = false
    by_cases isTh : other = th
    · rw [isTh, become_self]
      rfl
    · rw [become_of_ne isTh]
      replace isZombie : Function.update s.tm.zombies th true other = true := isZombie
      rw [Function.update_of_ne isTh] at isZombie
      exact tidy.zombies other isZombie

/-- **Every event keeps the invariant when handles are fresh.** -/
theorem step (tidy : Tidy s) {event : Event} (fresh : FreshHandle s event)
    (stepped : s.step plus event = some s') : Tidy s' := by
  cases event with
  | create th threadFunc detached =>
    simp only [Handles.step] at stepped
    split at stepped
    · rename_i free
      cases stepped
      exact tidy.create free fresh threadFunc detached
    · cases stepped
  | threadEnd th =>
    simp only [Handles.step] at stepped
    split at stepped
    · rename_i here
      cases stepped
      exact tidy.threadEnd here
    · cases stepped
  | terminate th =>
    simp only [Handles.step] at stepped
    split at stepped
    · rename_i detached here
      cases stepped
      refine tidy.become ?_
      rw [here]
      cases detached <;> rfl
    · cases stepped
  | join th =>
    simp only [Handles.step] at stepped
    split at stepped
    · rename_i enabled
      cases stepped
      exact (tidy.become (by rw [enabled.2]; rfl)).reap th
    · cases stepped
  | detach th =>
    simp only [Handles.step] at stepped
    split at stepped
    · rename_i here
      cases stepped
      exact tidy.become (by rw [here]; rfl)
    · rename_i here
      cases stepped
      exact tidy.become (by rw [here]; rfl)
    · rename_i here
      cases stepped
      exact tidy.become (by rw [here]; rfl)
    · cases stepped

theorem initial (plus : Bool) (mainTh : PthreadT) : Tidy (init plus mainTh) := by
  have getTid : ∀ th tid, (TidMap.init plus mainTh).getTid th = some tid ↔
      th = mainTh ∧ tid = mainThreadTid := by
    intro th tid
    unfold TidMap.getTid
    rw [TidMap.init, TidMap.create_pToT, Function.update_apply]
    by_cases isMain : th = mainTh
    · rw [if_pos isMain]
      exact ⟨fun same => ⟨isMain, (Option.some.inj same).symm⟩, fun both => by rw [both.2]; rfl⟩
    · rw [if_neg isMain]
      exact iff_of_false (fun found => by cases found) fun both => isMain both.1
  refine ⟨fun th tid => ?_, fun th tid => ?_, fun tid known => ?_, fun th isZombie => ?_⟩
  · refine (getTid th tid).trans ?_
    show _ ↔ (Function.update (fun _ => Life.free) mainTh (.running false) th).needsTurn = true ∧
      mainThreadTid = tid
    by_cases isMain : th = mainTh
    · rw [isMain, Function.update_self]
      exact ⟨fun both => ⟨rfl, both.2.symm⟩, fun both => ⟨rfl, both.2.symm⟩⟩
    · rw [Function.update_of_ne isMain]
      exact iff_of_false (fun both => isMain both.1) fun both => by cases both.1
  · refine Iff.trans ?_ (getTid th tid).symm
    show (TidMap.init plus mainTh).tToP tid = some th ↔ _
    rw [TidMap.init, TidMap.create_tToP, Function.update_apply]
    by_cases isMain : tid = mainThreadTid
    · rw [if_pos (show tid = ({} : TidMap).nthread from isMain)]
      exact ⟨fun same => ⟨(Option.some.inj same).symm, isMain⟩, fun both => by rw [both.1]⟩
    · rw [if_neg (show ¬ tid = ({} : TidMap).nthread from isMain)]
      exact iff_of_false (fun found => by cases found) fun both => isMain both.2
  · rw [(TidMap.init_live plus mainTh tid).mp known]
    exact Nat.zero_lt_one
  · replace isZombie : (TidMap.init plus mainTh).zombies th = true := isZombie
    rw [TidMap.init, TidMap.create_zombies] at isZombie
    cases isZombie

end Tidy

/-- **Zombies have ended**, when every thread gets a handle that is not in `zombies`. -/
theorem zombies_have_ended (wakeamapPlus : Bool) (mainTh : PthreadT) (events : List Event)
    (fresh : Along (step wakeamapPlus) FreshHandle (init wakeamapPlus mainTh) events) (s : Handles)
    (ran : exec (step wakeamapPlus) (init wakeamapPlus mainTh) events = some s) :
    (∀ th tid, s.tm.tToP tid = some th ↔ s.tm.getTid th = some tid) ∧
      (∀ th, (s.tm.getTid th).isSome = true ↔ (s.life th).needsTurn = true) ∧
      (∀ th, s.tm.zombie th = true → s.tm.getTid th = none) ∧
      (∀ th, s.tm.zombie th = true → (s.life th).needsTurn = false) := by
  have tidy : Tidy s := exec_invariant Tidy
    (fun _ _ _ tidy fresh stepped => tidy.step fresh stepped) (Tidy.initial _ _) fresh ran
  refine ⟨tidy.inverse, fun th => ⟨fun known => ?_, fun needs => ?_⟩, fun th isZombie => ?_,
    tidy.zombies⟩
  · obtain ⟨tid, found⟩ := Option.isSome_iff_exists.mp known
    exact ((tidy.known th tid).mp found).1
  · rw [(tidy.known th _).mpr ⟨needs, rfl⟩]
    rfl
  · exact tidy.not_known (tidy.zombies th isZombie)

/-- A thread is created, ends and is joined, and another one gets its handle. -/
def joinedAndReused : List Event :=
  [.create 101 7 false, .threadEnd 101, .terminate 101, .join 101, .create 101 7 false]

theorem zombies_have_ended_joinedAndReused :
    ∃ s, exec (step false) (init false 100) joinedAndReused = some s ∧
      s.life 101 = .running false ∧ ∀ th, s.tm.zombie th = true → (s.life th).needsTurn = false := by
  refine ⟨_, rfl, by decide, ?_⟩
  exact (zombies_have_ended false 100 joinedAndReused (by decide) _ rfl).2.2.2

/-! ### Detached threads -/

/-- **A creation with a handle that is in `zombies` makes a running thread a zombie.** -/
theorem stale_creation_breaks {threadFunc : ThreadFunc} {detached : Bool}
    (stale : ¬ FreshHandle s (.create th threadFunc detached))
    (stepped : s.step plus (.create th threadFunc detached) = some s') :
    s'.tm.zombie th = true ∧ (s'.life th).needsTurn = true ∧ (s'.tm.getTid th).isSome = true := by
  simp only [Handles.step] at stepped
  split at stepped
  · cases stepped
    refine ⟨?_, ?_, ?_⟩
    · show (s.tm.create plus th threadFunc).zombies th = true
      rw [TidMap.create_zombies]
      simpa [FreshHandle, TidMap.zombie] using stale
    · show ((s.become th (.running detached)).life th).needsTurn = true
      rw [become_self]
      rfl
    · show ((s.tm.create plus th threadFunc).pToT th).isSome = true
      rw [TidMap.create_pToT, Function.update_self]
      rfl
  · cases stepped

/-- A thread ends, is detached, and its handle is handed out again. -/
def detachedAndReused : List Event :=
  [.create 101 7 false, .threadEnd 101, .terminate 101, .detach 101, .create 101 7 false]

/-- **The new thread is running and is a zombie**, so `pthreadJoin` would join it with the turn held. -/
theorem reused_handle_is_zombie :
    ∃ s, exec (step false) (init false 100) detachedAndReused = some s ∧
      s.life 101 = .running false ∧ s.tm.zombie 101 = true ∧ s.tm.getTid 101 = some 2 := by
  refine ⟨_, rfl, by decide, by decide, by decide⟩

end Handles

end MinSmt
