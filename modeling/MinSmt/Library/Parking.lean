/-
**Parking places**: every thread waits at its own flag, and other threads raise it.

A thread that waits lowers its flag as soon as it finds it raised. How it waits is one of three kinds
of code:

* `busy` — it polls the flag;
* `semaphore` — the flag is a semaphore, and the wait its decrement;
* `hybrid rounds` — it polls the flag for some rounds, and then sleeps in a condition variable under the
  mutex of its place, like the thread that raises the flag, which signals the condition variable
  afterwards. Sleepers may wake without a signal.

The flags themselves are outside: `step` reads them and returns what it did to them (`Effect`), so that
a system with other uses of its flags can instantiate the places with its own. What the places need of
it is `Agrees`: a flag is raised by nobody else, and not lowered under a thread that has just read it.

* `Ok` — the mutexes are owned by the threads inside them, a thread about to lower its flag finds it
  raised, and **a thread that sleeps although its flag is up is about to be signalled** (`Ok.signal`).
* `Ok.step`, `Ok.wake`, `Ok.start` — the invariant is kept, also when threads start to wait or to post.
* `Ok.turns` — a thread that is posted once waits once.
* `distance` — how far a thread with its flag up is from having waited; the steps of the thread and of
  the owner of its mutex shorten it (`distance_wait`, `distance_post`), the others leave it
  (`distance_other`), and one of the two can move (`Ok.enabled`).
-/

import MinSmt.Library.Run
import Mathlib.Logic.Function.Basic

namespace MinSmt.Library

/-- How the threads wait. -/
inductive Kind
  | busy
  | semaphore
  | hybrid (rounds : Nat)
  deriving DecidableEq, Repr

/-- The places have mutexes. -/
def Kind.mutex : Kind → Bool
  | .hybrid _ => true
  | _ => false

namespace Parking

/-- Where a thread is inside a wait. -/
inductive Wait
  /-- At the head of the loop that polls for so many rounds more. -/
  | spinning (rounds : Nat)
  /-- After that loop, before the flag is read once more. -/
  | testing
  /-- Before the flag is lowered, without the mutex. -/
  | taking
  /-- In `lock`, before the loop around the condition variable. -/
  | locking
  /-- At the head of that loop, with the mutex. -/
  | looping
  /-- In the condition variable. -/
  | asleep
  /-- Woken in the condition variable, and still to get the mutex. -/
  | relocking
  /-- Before the flag is lowered, with the mutex. -/
  | lowering
  /-- Before `unlock`. -/
  | unlocking
  /-- At the head of a loop that polls for ever. -/
  | polling
  /-- In the decrement of a semaphore. -/
  | decrementing
  deriving DecidableEq, Repr

/-- Where a thread is while it raises a flag. -/
inductive Post
  | locking
  | raising
  | signalling
  | unlocking
  /-- Before the flag is raised, in the kinds without a mutex. -/
  | writing
  deriving DecidableEq, Repr

/-- What a thread does. -/
inductive Place (ι : Type*)
  | outside
  | waiting (phase : Wait)
  | posting (slot : ι) (phase : Post)
  deriving DecidableEq, Repr

/-- What a step does to the flags: nothing, or it raises one, or it lowers the thread's own. -/
inductive Effect (ι : Type*)
  | quiet
  | raised (slot : ι)
  | lowered
  deriving DecidableEq, Repr

/-- Where a wait starts. -/
def Wait.start : Kind → Wait
  | .busy => .polling
  | .semaphore => .decrementing
  | .hybrid rounds => .spinning rounds

/-- Where a post starts. -/
def Post.start : Kind → Post
  | .hybrid _ => .locking
  | _ => .writing

/-- The thread has the mutex of its own place. -/
def Wait.inside : Wait → Bool
  | .looping => true
  | .lowering => true
  | .unlocking => true
  | _ => false

/-- The thread has the mutex of the place it posts to. -/
def Post.inside : Post → Bool
  | .raising => true
  | .signalling => true
  | .unlocking => true
  | _ => false

/-- The thread has read its flag and is about to lower it. -/
def Wait.decided : Wait → Bool
  | .taking => true
  | .lowering => true
  | _ => false

/-- The phases of the kinds with mutexes, and of those without. -/
def Wait.fits (mutex : Bool) : Wait → Bool
  | .taking => true
  | .polling => !mutex
  | .decrementing => !mutex
  | _ => mutex

/-- The phases of the kinds with mutexes, and of those without. -/
def Post.fits (mutex : Bool) : Post → Bool
  | .writing => !mutex
  | _ => mutex

/-- The wait is not over: the flag has not been lowered yet. -/
def Wait.pending : Wait → Bool
  | .unlocking => false
  | _ => true

/-- The post is not over: the flag has not been raised yet. -/
def Post.pending : Post → Bool
  | .signalling => false
  | .unlocking => false
  | _ => true

end Parking

/-- The places, and the owners of their mutexes. -/
structure Parking (ι : Type*) where
  place : ι → Parking.Place ι
  owner : ι → Option ι

namespace Parking

variable {ι : Type*}

/-- Nobody waits or posts. -/
def init : Parking ι := ⟨fun _ => .outside, fun _ => none⟩

variable [DecidableEq ι] (flag : ι → Bool) (p : Parking ι) (t : ι)

/-- Move one thread. -/
def move (place : Place ι) : Parking ι := { p with place := Function.update p.place t place }

/-- `lock` of the mutex of a place, and where the thread is then. -/
def lock (slot : ι) (place : Place ι) : Option (Parking ι × Effect ι) :=
  if p.owner slot = none then
    some ({ p.move t place with owner := Function.update p.owner slot (some t) }, .quiet)
  else none

/-- `unlock` of the mutex of a place, and where the thread is then. -/
def unlock (slot : ι) (place : Place ι) : Parking ι :=
  { p.move t place with owner := Function.update p.owner slot none }

/-- `signal` of the condition variable of a place, in which only one thread can sleep. -/
def signal (slot : ι) : Parking ι :=
  if p.place slot = .waiting .asleep then p.move slot (.waiting .relocking) else p

/-- A step of a thread that waits. -/
def waitStep : Wait → Option (Parking ι × Effect ι)
  | .spinning rounds =>
    if flag t = true ∨ rounds = 0 then some (p.move t (.waiting .testing), .quiet)
    else some (p.move t (.waiting (.spinning (rounds - 1))), .quiet)
  | .testing => some (p.move t (.waiting (if flag t then .taking else .locking)), .quiet)
  | .taking => some (p.move t .outside, .lowered)
  | .locking => p.lock t t (.waiting .looping)
  | .looping =>
    if flag t then some (p.move t (.waiting .lowering), .quiet)
    else some (p.unlock t t (.waiting .asleep), .quiet)
  | .asleep => none
  | .relocking => p.lock t t (.waiting .looping)
  | .lowering => some (p.move t (.waiting .unlocking), .lowered)
  | .unlocking => some (p.unlock t t .outside, .quiet)
  | .polling => some (p.move t (.waiting (if flag t then .taking else .polling)), .quiet)
  | .decrementing => if flag t then some (p.move t .outside, .lowered) else none

/-- A step of a thread that posts. -/
def postStep (slot : ι) : Post → Option (Parking ι × Effect ι)
  | .locking => p.lock t slot (.posting slot .raising)
  | .raising => some (p.move t (.posting slot .signalling), .raised slot)
  | .signalling => some ((p.signal slot).move t (.posting slot .unlocking), .quiet)
  | .unlocking => some (p.unlock t slot .outside, .quiet)
  | .writing => some (p.move t .outside, .raised slot)

/-- **One step of one thread** inside a wait or a post. -/
def step : Option (Parking ι × Effect ι) :=
  match p.place t with
  | .outside => none
  | .waiting phase => p.waitStep flag t phase
  | .posting slot phase => p.postStep t slot phase

/-- The condition variable returns without a signal. -/
def wake : Option (Parking ι) :=
  if p.place t = .waiting .asleep then some (p.move t (.waiting .relocking)) else none

/-! ### The invariant -/

namespace Place

/-- The thread has the mutex of this place. -/
def holds (t slot : ι) : Place ι → Bool
  | .outside => false
  | .waiting phase => phase.inside && decide (slot = t)
  | .posting target phase => phase.inside && decide (slot = target)

/-- The thread has read its flag and is about to lower it. -/
def decided : Place ι → Bool
  | .waiting phase => phase.decided
  | _ => false

/-- The phase is one of the kind. -/
def fits (mutex : Bool) : Place ι → Bool
  | .outside => true
  | .waiting phase => phase.fits mutex
  | .posting _ phase => phase.fits mutex

omit [DecidableEq ι] in
theorem waiting_ne_outside (phase : Wait) : (.waiting phase : Place ι) ≠ .outside := by simp

omit [DecidableEq ι] in
theorem posting_ne_outside (slot : ι) (phase : Post) : (.posting slot phase : Place ι) ≠ .outside := by simp

omit [DecidableEq ι] in
theorem posting_ne_waiting (slot : ι) (phase : Post) (phase' : Wait) :
    (.posting slot phase : Place ι) ≠ .waiting phase' := by simp

end Place

/-- What another part of the system, or the effect of a step of `t`, may have done to the flags. -/
def Effect.Agrees (flag flag' : ι → Bool) (t : ι) : Effect ι → Prop
  | .quiet => flag' = flag
  | .raised slot => flag' slot = true ∧ ∀ u, u ≠ slot → flag' u = flag u
  | .lowered => ∀ u, u ≠ t → flag' u = flag u

/-- **The invariant of the places.** -/
structure Ok (kind : Kind) (flag : ι → Bool) (p : Parking ι) : Prop where
  fits : ∀ t, (p.place t).fits kind.mutex = true
  owner : ∀ slot t, p.owner slot = some t ↔ (p.place t).holds t slot = true
  decided : ∀ t, (p.place t).decided = true → flag t = true
  signal : ∀ t, p.place t = .waiting .asleep → flag t = true →
    ∃ u, p.place u = .posting t .signalling

section Moves

variable {flag : ι → Bool} {p p' : Parking ι} {t : ι} {place : Place ι}

@[simp] theorem move_self : (p.move t place).place t = place := Function.update_self _ _ _

theorem move_of_ne {u : ι} (other : u ≠ t) : (p.move t place).place u = p.place u :=
  Function.update_of_ne other _ _

@[simp] theorem move_move {place' : Place ι} : (p.move t place).move t place' = p.move t place' := by
  simp only [move, Function.update_idem]

theorem move_eq_self (here : p.place t = place) : p.move t place = p := by
  rw [move, ← here, Function.update_eq_self]

@[simp] theorem move_owner : (p.move t place).owner = p.owner := rfl

theorem lock_eq {slot : ι} {effect : Effect ι} (locked : p.lock t slot place = some (p', effect)) :
    p.owner slot = none ∧ effect = .quiet ∧
      p' = { p.move t place with owner := Function.update p.owner slot (some t) } := by
  obtain ⟨free, result⟩ := Option.ite_none_right_eq_some.mp locked
  cases result
  exact ⟨free, rfl, rfl⟩

theorem signal_of_ne {slot u : ι} (other : u ≠ slot) : (p.signal slot).place u = p.place u := by
  unfold signal
  split
  · exact move_of_ne other
  · rfl

theorem signal_awake (slot : ι) : (p.signal slot).place slot ≠ .waiting .asleep := by
  unfold signal
  split
  · rw [move_self]
    nofun
  · assumption

theorem signal_owner (slot : ι) : (p.signal slot).owner = p.owner := by
  unfold signal
  split <;> rfl

end Moves

namespace Ok

variable {kind : Kind} {flag flag' : ι → Bool} {p p' : Parking ι} {t : ι} {place : Place ι}

/-- Only one thread has a mutex. -/
theorem unique (ok : Ok kind flag p) {slot u : ι} (here : (p.place t).holds t slot = true)
    (there : (p.place u).holds u slot = true) : t = u :=
  Option.some.inj (((ok.owner slot t).mpr here).symm.trans ((ok.owner slot u).mpr there))

/-- **A thread moves without touching a mutex**, and neither falls asleep nor owes a signal. -/
theorem moved (ok : Ok kind flag p) (fits : place.fits kind.mutex = true)
    (holds : ∀ slot, place.holds t slot = (p.place t).holds t slot)
    (decided : place.decided = true → flag' t = true)
    (others : ∀ u, u ≠ t → (p.place u).decided = true → flag' u = true)
    (awake : place ≠ .waiting .asleep)
    (signal : ∀ u, u ≠ t → p.place u = .waiting .asleep → flag' u = true →
      flag u = true ∧ p.place t ≠ .posting u .signalling ∨ place = .posting u .signalling) :
    Ok kind flag' (p.move t place) := by
  refine ⟨fun u => ?_, fun slot u => ?_, fun u isDecided => ?_, fun u asleep up => ?_⟩
  · by_cases same : u = t
    · rw [same, move_self]
      exact fits
    · rw [move_of_ne same]
      exact ok.fits u
  · rw [move_owner, ok.owner slot u]
    by_cases same : u = t
    · rw [same, move_self, holds]
    · rw [move_of_ne same]
  · by_cases same : u = t
    · rw [same, move_self] at isDecided
      rw [same]
      exact decided isDecided
    · rw [move_of_ne same] at isDecided
      exact others u same isDecided
  · by_cases same : u = t
    · rw [same, move_self] at asleep
      exact absurd asleep awake
    · rw [move_of_ne same] at asleep
      rcases signal u same asleep up with ⟨before, notSignaller⟩ | signals
      · obtain ⟨v, signaller⟩ := ok.signal u asleep before
        have other : v ≠ t := fun isT => notSignaller (isT ▸ signaller)
        exact ⟨v, by rw [move_of_ne other, signaller]⟩
      · exact ⟨t, by rw [move_self, signals]⟩

/-- **A thread takes a mutex.** -/
theorem locked (ok : Ok kind flag p) {slot : ι} (free : p.owner slot = none)
    (fits : place.fits kind.mutex = true)
    (before : ∀ other, (p.place t).holds t other = false)
    (after : ∀ other, place.holds t other = decide (other = slot))
    (undecided : place.decided = false) (awake : place ≠ .waiting .asleep)
    (notSignaller : ∀ u, p.place t ≠ .posting u .signalling) :
    Ok kind flag { p.move t place with owner := Function.update p.owner slot (some t) } := by
  refine ⟨fun u => ?_, fun other u => ?_, fun u isDecided => ?_, fun u asleep up => ?_⟩
  · show ((p.move t place).place u).fits _ = true
    by_cases same : u = t
    · rw [same, move_self]
      exact fits
    · rw [move_of_ne same]
      exact ok.fits u
  · show Function.update p.owner slot (some t) other = some u ↔
      ((p.move t place).place u).holds u other = true
    have old := ok.owner other u
    by_cases isSlot : other = slot
    · subst isSlot
      rw [Function.update_self]
      rw [free] at old
      by_cases same : u = t
      · rw [same, move_self, after]
        simp
      · rw [move_of_ne same]
        exact iff_of_false (fun eq => same (Option.some.inj eq).symm) fun holds => nomatch old.mpr holds
    · rw [Function.update_of_ne isSlot, old]
      by_cases same : u = t
      · rw [same, move_self, after, before]
        simp [isSlot]
      · rw [move_of_ne same]
  · change ((p.move t place).place u).decided = true at isDecided
    by_cases same : u = t
    · rw [same, move_self, undecided] at isDecided
      cases isDecided
    · rw [move_of_ne same] at isDecided
      exact ok.decided u isDecided
  · change (p.move t place).place u = _ at asleep
    by_cases same : u = t
    · rw [same, move_self] at asleep
      exact absurd asleep awake
    · rw [move_of_ne same] at asleep
      obtain ⟨v, signaller⟩ := ok.signal u asleep up
      have other : v ≠ t := fun isT => notSignaller u (isT ▸ signaller)
      exact ⟨v, (move_of_ne other).trans signaller⟩

/-- **A thread gives a mutex back**; it may fall asleep when its flag is down. -/
theorem unlocked (ok : Ok kind flag p) {slot : ι} (fits : place.fits kind.mutex = true)
    (before : ∀ other, (p.place t).holds t other = decide (other = slot))
    (after : ∀ other, place.holds t other = false)
    (undecided : place.decided = false) (asleepOnly : place = .waiting .asleep → flag t = false)
    (notSignaller : ∀ u, p.place t ≠ .posting u .signalling) :
    Ok kind flag (p.unlock t slot place) := by
  refine ⟨fun u => ?_, fun other u => ?_, fun u isDecided => ?_, fun u asleep up => ?_⟩
  · show ((p.move t place).place u).fits _ = true
    by_cases same : u = t
    · rw [same, move_self]
      exact fits
    · rw [move_of_ne same]
      exact ok.fits u
  · show Function.update p.owner slot none other = some u ↔
      ((p.move t place).place u).holds u other = true
    by_cases isSlot : other = slot
    · subst isSlot
      rw [Function.update_self]
      refine iff_of_false nofun fun holds => ?_
      by_cases same : u = t
      · rw [same, move_self, after] at holds
        cases holds
      · rw [move_of_ne same] at holds
        exact same (ok.unique holds ((before other).trans (decide_eq_true rfl)))
    · rw [Function.update_of_ne isSlot, ok.owner other u]
      by_cases same : u = t
      · rw [same, move_self, after, before]
        simp [isSlot]
      · rw [move_of_ne same]
  · change ((p.move t place).place u).decided = true at isDecided
    by_cases same : u = t
    · rw [same, move_self, undecided] at isDecided
      cases isDecided
    · rw [move_of_ne same] at isDecided
      exact ok.decided u isDecided
  · change (p.move t place).place u = _ at asleep
    by_cases same : u = t
    · rw [same, move_self] at asleep
      rw [same, asleepOnly asleep] at up
      cases up
    · rw [move_of_ne same] at asleep
      obtain ⟨v, signaller⟩ := ok.signal u asleep up
      have other : v ≠ t := fun isT => notSignaller u (isT ▸ signaller)
      exact ⟨v, (move_of_ne other).trans signaller⟩

/-- The other threads that have read their flags still find them up after a step of `t`. -/
theorem decided_of_agrees (ok : Ok kind flag p) {effect : Effect ι} (agrees : effect.Agrees flag flag' t)
    {u : ι} (other : u ≠ t) (isDecided : (p.place u).decided = true) : flag' u = true := by
  have before := ok.decided u isDecided
  cases effect with
  | quiet => rwa [show flag' = flag from agrees]
  | lowered => rwa [agrees u other]
  | raised slot =>
    by_cases isSlot : u = slot
    · rw [isSlot]
      exact agrees.1
    · rwa [agrees.2 u isSlot]

/-- **A step of a thread that waits.** -/
theorem waitStep (ok : Ok kind flag p) {phase : Wait} {effect : Effect ι}
    (here : p.place t = .waiting phase) (stepped : p.waitStep flag t phase = some (p', effect))
    (agrees : effect.Agrees flag flag' t) : Ok kind flag' p' := by
  have fits : phase.fits kind.mutex = true := by
    have own := ok.fits t
    rwa [here] at own
  have notSignaller : ∀ u, p.place t ≠ .posting u .signalling := fun u => by rw [here]; nofun
  have holds : ∀ slot, (p.place t).holds t slot = (phase.inside && decide (slot = t)) := fun slot => by
    rw [here]
    rfl
  -- a move that leaves the flags alone, or lowers the thread's own
  have moves : ∀ {next : Place ι}, next.fits kind.mutex = true →
      (∀ slot, next.holds t slot = (phase.inside && decide (slot = t))) →
      (next.decided = true → flag' t = true) → next ≠ .waiting .asleep →
      (∀ u, u ≠ t → flag' u = flag u) → Ok kind flag' (p.move t next) := by
    intro next nextFits sameHolds decided awake same
    refine ok.moved nextFits (fun slot => (sameHolds slot).trans (holds slot).symm) decided
      (fun u other => ok.decided_of_agrees agrees other) awake fun u other _ up => Or.inl ⟨?_, notSignaller u⟩
    rwa [← same u other]
  cases phase with
  | spinning rounds =>
    simp only [Parking.waitStep] at stepped
    split at stepped
    · cases stepped
      exact moves fits (fun _ => rfl) nofun nofun fun u _ => congrFun agrees u
    · cases stepped
      exact moves fits (fun _ => rfl) nofun nofun fun u _ => congrFun agrees u
  | testing =>
    cases stepped
    cases up : flag t with
    | true =>
      exact moves rfl (fun _ => rfl) (fun _ => (congrFun agrees t).trans up) nofun
        fun u _ => congrFun agrees u
    | false => exact moves fits (fun _ => rfl) nofun nofun fun u _ => congrFun agrees u
  | taking =>
    cases stepped
    exact moves rfl (fun _ => rfl) nofun nofun agrees
  | lowering =>
    cases stepped
    exact moves fits (fun _ => rfl) nofun nofun agrees
  | polling =>
    cases stepped
    cases up : flag t with
    | true =>
      exact moves rfl (fun _ => rfl) (fun _ => (congrFun agrees t).trans up) nofun
        fun u _ => congrFun agrees u
    | false => exact moves fits (fun _ => rfl) nofun nofun fun u _ => congrFun agrees u
  | decrementing =>
    obtain ⟨-, result⟩ := Option.ite_none_right_eq_some.mp stepped
    cases result
    exact moves rfl (fun _ => rfl) nofun nofun agrees
  | asleep => cases stepped
  | locking | relocking =>
    obtain ⟨free, rfl, rfl⟩ := lock_eq stepped
    cases agrees
    exact ok.locked free fits holds (fun _ => rfl) rfl nofun notSignaller
  | looping =>
    simp only [Parking.waitStep] at stepped
    split at stepped
    · rename_i up
      cases stepped
      exact moves fits (fun _ => rfl) (fun _ => (congrFun agrees t).trans up) nofun
        fun u _ => congrFun agrees u
    · rename_i down
      cases stepped
      cases agrees
      exact ok.unlocked fits holds (fun _ => rfl) rfl (fun _ => by simpa using down) notSignaller
  | unlocking =>
    cases stepped
    cases agrees
    exact ok.unlocked rfl holds (fun _ => rfl) rfl nofun notSignaller

/-- Waking the thread that sleeps. -/
theorem woken (ok : Ok kind flag p) (asleep : p.place t = .waiting .asleep) :
    Ok kind flag (p.move t (.waiting .relocking)) := by
  have fits := ok.fits t
  rw [asleep] at fits
  refine ok.moved fits (fun slot => ?_) nofun (fun u _ => ok.decided u) nofun fun u _ _ up => Or.inl ⟨up, ?_⟩
  · rw [asleep]
    rfl
  · rw [asleep]
    nofun

theorem signalled (ok : Ok kind flag p) (slot : ι) : Ok kind flag (p.signal slot) := by
  unfold Parking.signal
  split
  · rename_i asleep
    exact ok.woken asleep
  · exact ok

/-- **A step of a thread that posts.** -/
theorem postStep (ok : Ok kind flag p) {slot : ι} {phase : Post} {effect : Effect ι}
    (here : p.place t = .posting slot phase) (stepped : p.postStep t slot phase = some (p', effect))
    (agrees : effect.Agrees flag flag' t) : Ok kind flag' p' := by
  have fits : phase.fits kind.mutex = true := by
    have own := ok.fits t
    rwa [here] at own
  have holds : ∀ other, (p.place t).holds t other = (phase.inside && decide (other = slot)) := fun other => by
    rw [here]
    rfl
  cases phase with
  | locking =>
    obtain ⟨free, rfl, rfl⟩ := lock_eq stepped
    cases agrees
    exact ok.locked free fits holds (fun _ => rfl) rfl nofun fun u => by rw [here]; nofun
  | raising =>
    cases stepped
    refine ok.moved fits (fun other => (holds other).symm) nofun
      (fun u other => ok.decided_of_agrees agrees other) nofun fun u other _ up => ?_
    by_cases isSlot : u = slot
    · rw [isSlot]
      exact Or.inr rfl
    · refine Or.inl ⟨?_, by rw [here]; nofun⟩
      rwa [← agrees.2 u isSlot]
  | signalling =>
    cases stepped
    cases agrees
    have other : t ≠ slot ∨ p.signal slot = p := by
      by_cases isSlot : t = slot
      · refine Or.inr (if_neg ?_)
        rw [← isSlot, here]
        nofun
      · exact Or.inl isSlot
    have stays : (p.signal slot).place t = .posting slot .signalling := by
      rcases other with isOther | isSame
      · rw [signal_of_ne isOther, here]
      · rw [isSame, here]
    refine (ok.signalled slot).moved fits (fun other => ?_) nofun
      (fun u _ => (ok.signalled slot).decided u) nofun fun u _ asleep up => Or.inl ⟨up, ?_⟩
    · rw [stays]
      rfl
    · rw [stays]
      rintro isU
      cases isU
      exact signal_awake slot asleep
  | unlocking =>
    cases stepped
    cases agrees
    exact ok.unlocked rfl holds (fun _ => rfl) rfl nofun fun u => by rw [here]; nofun
  | writing =>
    cases stepped
    refine ok.moved rfl (fun other => (holds other).symm) nofun
      (fun u other => ok.decided_of_agrees agrees other) nofun fun u _ asleep _ => ?_
    -- nobody sleeps in a kind without mutexes
    have sleeps := ok.fits u
    rw [asleep] at sleeps
    change kind.mutex = true at sleeps
    change (!kind.mutex) = true at fits
    rw [sleeps] at fits
    cases fits

/-- **Every step keeps the invariant**, with the flags as its effect leaves them. -/
theorem step (ok : Ok kind flag p) {effect : Effect ι} (stepped : p.step flag t = some (p', effect))
    (agrees : effect.Agrees flag flag' t) : Ok kind flag' p' := by
  unfold Parking.step at stepped
  split at stepped
  · cases stepped
  · rename_i phase here
    exact ok.waitStep here stepped agrees
  · rename_i slot phase here
    exact ok.postStep here stepped agrees

/-- A wake-up without a signal keeps it. -/
theorem wake (ok : Ok kind flag p) (woke : p.wake t = some p') : Ok kind flag p' := by
  obtain ⟨asleep, result⟩ := Option.ite_none_right_eq_some.mp woke
  cases result
  exact ok.woken asleep

/-- **A thread starts to wait or to post**, or does something else. -/
theorem start (ok : Ok kind flag p) (outside : p.place t = .outside)
    (starts : place = .outside ∨ place = .waiting (.start kind) ∨ ∃ slot, place = .posting slot (.start kind)) :
    Ok kind flag (p.move t place) := by
  have fresh : place.fits kind.mutex = true ∧ (∀ slot, place.holds t slot = false) ∧
      place.decided = false ∧ place ≠ .waiting .asleep := by
    rcases starts with rfl | rfl | ⟨slot, rfl⟩
    · exact ⟨rfl, fun _ => rfl, rfl, nofun⟩
    · cases kind <;> exact ⟨rfl, fun _ => rfl, rfl, nofun⟩
    · cases kind <;> exact ⟨rfl, fun _ => rfl, rfl, nofun⟩
  obtain ⟨fits, holds, decided, awake⟩ := fresh
  refine ok.moved fits (fun slot => ?_) (fun isDecided => ?_) (fun u _ => ok.decided u) awake
    fun u _ _ up => Or.inl ⟨up, ?_⟩
  · rw [holds, outside]
    rfl
  · rw [decided] at isDecided
    cases isDecided
  · rw [outside]
    nofun

/-- Nobody waits or posts at first. -/
theorem initial (kind : Kind) (flag : ι → Bool) : Ok kind flag init :=
  ⟨fun _ => rfl, fun _ _ => iff_of_false nofun nofun, nofun, nofun⟩

end Ok

/-! ### What a thread inside a wait or a post can do -/

/-- **One step of a thread**: it goes on with its wait or its post, lowers its flag, which is up, or raises
the flag of the place it posts to; after that it only leaves. -/
inductive Turns (up : Bool) (before after : Place ι) : Effect ι → Prop
  | waits {phase next : Wait} (here : before = .waiting phase) (pending : phase.pending = true)
      (there : after = .waiting next) (still : next.pending = true) : Turns up before after .quiet
  | lowers {phase : Wait} (here : before = .waiting phase) (pending : phase.pending = true)
      (isUp : up = true) (there : after = .outside ∨ after = .waiting .unlocking) :
      Turns up before after .lowered
  | waited (here : before = .waiting .unlocking) (there : after = .outside) : Turns up before after .quiet
  | posts {slot : ι} {phase next : Post} (here : before = .posting slot phase) (pending : phase.pending = true)
      (there : after = .posting slot next) (still : next.pending = true) : Turns up before after .quiet
  | raises {slot : ι} {phase : Post} (here : before = .posting slot phase) (pending : phase.pending = true)
      (there : after = .outside ∨ after = .posting slot .signalling) : Turns up before after (.raised slot)
  | posted {slot : ι} {phase : Post} (here : before = .posting slot phase) (past : phase.pending = false)
      (there : after = .outside ∨ after = .posting slot .unlocking) : Turns up before after .quiet

theorem lock_place {p p' : Parking ι} {t slot : ι} {place : Place ι} {effect : Effect ι}
    (locked : p.lock t slot place = some (p', effect)) : effect = .quiet ∧ p'.place t = place := by
  obtain ⟨-, rfl, rfl⟩ := lock_eq locked
  exact ⟨rfl, move_self⟩

theorem Ok.turns {kind : Kind} {flag : ι → Bool} {p p' : Parking ι} {t : ι} {effect : Effect ι}
    (ok : Ok kind flag p) (stepped : p.step flag t = some (p', effect)) :
    Turns (flag t) (p.place t) (p'.place t) effect := by
  unfold Parking.step at stepped
  split at stepped
  · cases stepped
  · rename_i phase here
    have decided := ok.decided t
    rw [here] at decided
    cases phase with
    | spinning rounds =>
      simp only [Parking.waitStep] at stepped
      split at stepped <;> cases stepped <;> exact .waits here rfl move_self rfl
    | testing =>
      cases stepped
      cases up : flag t with
      | true => exact .waits here rfl move_self rfl
      | false => exact .waits here rfl move_self rfl
    | polling =>
      cases stepped
      cases up : flag t with
      | true => exact .waits here rfl move_self rfl
      | false => exact .waits here rfl move_self rfl
    | taking =>
      cases stepped
      exact .lowers here rfl (decided rfl) (Or.inl move_self)
    | lowering =>
      cases stepped
      exact .lowers here rfl (decided rfl) (Or.inr move_self)
    | decrementing =>
      obtain ⟨up, result⟩ := Option.ite_none_right_eq_some.mp stepped
      cases result
      exact .lowers here rfl up (Or.inl move_self)
    | locking | relocking =>
      obtain ⟨rfl, there⟩ := lock_place stepped
      exact .waits here rfl there rfl
    | looping =>
      simp only [Parking.waitStep] at stepped
      split at stepped
      · cases stepped
        exact .waits here rfl move_self rfl
      · cases stepped
        exact .waits here rfl (Function.update_self _ _ _) rfl
    | asleep => cases stepped
    | unlocking =>
      cases stepped
      exact .waited here (Function.update_self _ _ _)
  · rename_i slot phase here
    cases phase with
    | locking =>
      obtain ⟨rfl, there⟩ := lock_place stepped
      exact .posts here rfl there rfl
    | raising =>
      cases stepped
      exact .raises here rfl (Or.inr move_self)
    | writing =>
      cases stepped
      exact .raises here rfl (Or.inl move_self)
    | signalling =>
      cases stepped
      exact .posted here rfl (Or.inr move_self)
    | unlocking =>
      cases stepped
      exact .posted here rfl (Or.inl (Function.update_self _ _ _))

/-- **The other threads stay where they are**, but for one that is woken. -/
theorem step_others {flag : ι → Bool} {p p' : Parking ι} {t u : ι} {effect : Effect ι} (other : u ≠ t)
    (stepped : p.step flag t = some (p', effect)) :
    p'.place u = p.place u ∨ p.place u = .waiting .asleep ∧ p'.place u = .waiting .relocking := by
  have moved : ∀ {q : Parking ι} {place : Place ι}, q.place = (p.move t place).place →
      q.place u = p.place u ∨ p.place u = .waiting .asleep ∧ q.place u = .waiting .relocking := fun same =>
    Or.inl ((congrFun same u).trans (move_of_ne other))
  have locks : ∀ {slot : ι} {place : Place ι}, p.lock t slot place = some (p', effect) →
      p'.place u = p.place u ∨ p.place u = .waiting .asleep ∧ p'.place u = .waiting .relocking := by
    intro slot place locked
    obtain ⟨-, -, rfl⟩ := lock_eq locked
    exact moved rfl
  unfold Parking.step at stepped
  split at stepped
  · cases stepped
  · rename_i phase here
    cases phase with
    | spinning rounds =>
      simp only [Parking.waitStep] at stepped
      split at stepped <;> cases stepped <;> exact moved rfl
    | looping =>
      simp only [Parking.waitStep] at stepped
      split at stepped <;> cases stepped <;> exact moved rfl
    | decrementing =>
      obtain ⟨-, result⟩ := Option.ite_none_right_eq_some.mp stepped
      cases result
      exact moved rfl
    | locking | relocking => exact locks stepped
    | asleep => cases stepped
    | testing | taking | lowering | polling | unlocking =>
      cases stepped
      exact moved rfl
  · rename_i slot phase here
    cases phase with
    | locking => exact locks stepped
    | raising | writing | unlocking =>
      cases stepped
      exact moved rfl
    | signalling =>
      cases stepped
      rw [move_of_ne other]
      by_cases isSlot : u = slot
      · subst isSlot
        unfold signal
        split
        · rename_i asleep
          exact Or.inr ⟨asleep, move_self⟩
        · exact Or.inl rfl
      · exact Or.inl (signal_of_ne isSlot)

/-! ### A raised flag is found

While the flag of a thread is up and nobody is about to raise another one, its wait is a matter of a few
steps of its own and of the post that has not ended; so is what it has still to do of a post of its own
before it waits.
-/

/-- The steps of a wait until it lowers a flag that is up, not counting those of the poster. -/
def Wait.distance : Wait → Nat
  | .spinning _ => 3
  | .testing => 2
  | .taking => 1
  | .locking => 3
  | .looping => 2
  | .asleep => 4
  | .relocking => 3
  | .lowering => 1
  | .unlocking => 0
  | .polling => 2
  | .decrementing => 1

/-- The steps of a post until it gives the mutex back. -/
def Post.distance : Post → Nat
  | .locking => 0
  | .raising => 3
  | .signalling => 2
  | .unlocking => 1
  | .writing => 0

namespace Place

/-- The steps left of a wait, or of a post and the wait after it. -/
def distance : Place ι → Nat
  | .outside => 0
  | .waiting phase => phase.distance
  | .posting _ phase => phase.distance + 3

/-- The steps left of a post. -/
def postDistance : Place ι → Nat
  | .posting _ phase => phase.distance
  | _ => 0

end Place

theorem Wait.distance_le (phase : Wait) : phase.distance ≤ 4 := by
  cases phase <;> simp [distance]

theorem Wait.start_distance (kind : Kind) : (Wait.start kind).distance ≤ 3 := by
  cases kind with
  | hybrid rounds => exact Nat.le_refl 3
  | _ => decide

/-- The steps left of the post that has the mutex of a place. -/
def ownerDistance (p : Parking ι) (t : ι) : Nat :=
  ((p.owner t).map fun u => (p.place u).postDistance).getD 0

/-- **How far a thread is from lowering its flag**: its own steps, and those of the post in its mutex. -/
def distance (p : Parking ι) (t : ι) : Nat := (p.place t).distance + p.ownerDistance t

/-- Nobody is about to raise a flag. -/
def Settled (p : Parking ι) : Prop :=
  ∀ u slot phase, p.place u = .posting slot phase → phase.pending = false

section Progress

variable {kind : Kind} {flag : ι → Bool} {p p' : Parking ι} {t u : ι} {effect : Effect ι}

/-- The thread that has the mutex of a place is its own thread or posts to it. -/
theorem Ok.of_owner (ok : Ok kind flag p) (owned : p.owner t = some u) :
    (u = t ∧ ∃ phase, p.place t = .waiting phase ∧ phase.inside = true) ∨
      ∃ phase, p.place u = .posting t phase ∧ phase.inside = true := by
  have holds := (ok.owner t u).mp owned
  cases there : p.place u with
  | outside =>
    rw [there] at holds
    cases holds
  | waiting phase =>
    rw [there] at holds
    obtain ⟨inside, same⟩ := Bool.and_eq_true_iff.mp holds
    have isU := of_decide_eq_true same
    subst isU
    exact Or.inl ⟨rfl, phase, there, inside⟩
  | posting slot phase =>
    rw [there] at holds
    obtain ⟨inside, same⟩ := Bool.and_eq_true_iff.mp holds
    have isSlot := of_decide_eq_true same
    subst isSlot
    exact Or.inr ⟨phase, rfl, inside⟩

/-- A thread with a mutex can always move. -/
theorem Ok.owner_enabled (ok : Ok kind flag p) (owned : p.owner t = some u) :
    (p.step flag u).isSome = true := by
  unfold Parking.step
  rcases ok.of_owner owned with ⟨rfl, phase, here, inside⟩ | ⟨phase, here, inside⟩
  · rw [here]
    cases phase with
    | looping =>
      simp only [Parking.waitStep]
      split <;> rfl
    | lowering | unlocking => rfl
    | _ => cases inside
  · rw [here]
    cases phase with
    | raising | signalling | unlocking => rfl
    | _ => cases inside

/-- **No deadlock, and no lost wake-up**: a thread that waits with its flag up, or is at the end of a
post, can move, or another thread has its mutex and can. -/
theorem Ok.enabled (ok : Ok kind flag p) (settled : p.Settled) (inside : p.place t ≠ .outside)
    (up : flag t = true) :
    (p.step flag t).isSome = true ∨ ∃ u, p.owner t = some u ∧ u ≠ t ∧ (p.step flag u).isSome = true := by
  cases here : p.place t with
  | outside => exact absurd here inside
  | posting slot phase =>
    have past := settled t slot phase here
    refine Or.inl ?_
    rw [Parking.step, here]
    cases phase with
    | signalling | unlocking => rfl
    | _ => cases past
  | waiting phase =>
    have blocked : p.owner t ≠ none → phase.inside = false →
        ∃ u, p.owner t = some u ∧ u ≠ t ∧ (p.step flag u).isSome = true := by
      intro owned outside
      obtain ⟨u, isOwner⟩ := Option.ne_none_iff_exists'.mp owned
      refine ⟨u, isOwner, fun same => ?_, ok.owner_enabled isOwner⟩
      have holds := (ok.owner t u).mp isOwner
      rw [same, here] at holds
      change (phase.inside && decide (t = t)) = true at holds
      rw [outside] at holds
      cases holds
    cases phase with
    | locking | relocking =>
      by_cases free : p.owner t = none
      · refine Or.inl ?_
        simp [Parking.step, here, Parking.waitStep, Parking.lock, free]
      · exact Or.inr (blocked free rfl)
    | asleep =>
      obtain ⟨u, signaller⟩ := ok.signal t here up
      have owned : p.owner t = some u := by
        refine (ok.owner t u).mpr ?_
        rw [signaller]
        exact Bool.and_eq_true_iff.mpr ⟨rfl, decide_eq_true rfl⟩
      exact Or.inr (blocked (by rw [owned]; nofun) rfl)
    | spinning rounds =>
      refine Or.inl ?_
      simp [Parking.step, here, Parking.waitStep, up]
    | looping | decrementing =>
      refine Or.inl ?_
      simp [Parking.step, here, Parking.waitStep, up]
    | testing | taking | lowering | unlocking | polling =>
      refine Or.inl ?_
      rw [Parking.step, here]
      rfl

/-! #### The post in the mutex -/

omit [DecidableEq ι] in
theorem ownerDistance_of_owner (owned : p.owner t = some u) :
    p.ownerDistance t = (p.place u).postDistance := by
  unfold ownerDistance
  rw [owned]
  rfl

omit [DecidableEq ι] in
theorem ownerDistance_of_free (free : p.owner t = none) : p.ownerDistance t = 0 := by
  unfold ownerDistance
  rw [free]
  rfl

omit [DecidableEq ι] in
theorem ownerDistance_congr (owner : p'.owner t = p.owner t)
    (posts : ∀ u, p.owner t = some u → (p'.place u).postDistance = (p.place u).postDistance) :
    p'.ownerDistance t = p.ownerDistance t := by
  unfold ownerDistance
  rw [owner]
  cases owned : p.owner t with
  | none => rfl
  | some u => exact posts u owned

/-- A move of a thread that does not post, neither before nor after it. -/
theorem ownerDistance_moved {place : Place ι} (before : (p.place u).postDistance = 0)
    (after : place.postDistance = 0) : (p.move u place).ownerDistance t = p.ownerDistance t := by
  refine ownerDistance_congr rfl fun v _ => ?_
  by_cases isU : v = u
  · rw [isU, move_self, before, after]
  · rw [move_of_ne isU]

theorem signal_postDistance (slot v : ι) :
    ((p.signal slot).place v).postDistance = (p.place v).postDistance := by
  unfold signal
  split
  · rename_i asleep
    by_cases isSlot : v = slot
    · rw [isSlot, move_self, asleep]
      rfl
    · rw [move_of_ne isSlot]
  · rfl

/-- Nobody but the owner of a mutex moves the post in it, when no other one is about to start. -/
theorem ownerDistance_other (ok : Ok kind flag p) (settled : p.Settled) (notOwner : p.owner t ≠ some u)
    (other : u ≠ t) (stepped : p.step flag u = some (p', effect)) : p'.ownerDistance t = p.ownerDistance t := by
  -- whatever the thread does, it moves itself and touches the mutexes of other places
  have aside : ∀ {q : Parking ι}, q.owner t = p.owner t →
      (∀ v, v ≠ u → (q.place v).postDistance = (p.place v).postDistance) →
      q.ownerDistance t = p.ownerDistance t := fun owner posts =>
    ownerDistance_congr owner fun v owned => posts v fun isU => notOwner (isU ▸ owned)
  have moved : ∀ {place : Place ι} {owner : ι → Option ι}, owner t = p.owner t →
      (⟨(p.move u place).place, owner⟩ : Parking ι).ownerDistance t = p.ownerDistance t := fun sameOwner =>
    aside sameOwner fun v isOther => by
      show ((p.move u _).place v).postDistance = _
      rw [move_of_ne isOther]
  have locks : ∀ {slot : ι} {place : Place ι}, slot ≠ t → p.lock u slot place = some (p', effect) →
      p'.ownerDistance t = p.ownerDistance t := by
    intro slot place isOther locked
    obtain ⟨-, -, rfl⟩ := lock_eq locked
    exact moved (Function.update_of_ne isOther.symm _ _)
  have unlocks : ∀ {slot : ι} {place : Place ι}, slot ≠ t →
      (p.unlock u slot place).ownerDistance t = p.ownerDistance t :=
    fun isOther => moved (Function.update_of_ne isOther.symm _ _)
  unfold Parking.step at stepped
  split at stepped
  · cases stepped
  · rename_i phase here
    cases phase with
    | spinning rounds =>
      simp only [Parking.waitStep] at stepped
      split at stepped <;> cases stepped <;> exact moved rfl
    | testing | taking | lowering | polling =>
      cases stepped
      exact moved rfl
    | locking | relocking => exact locks other stepped
    | looping =>
      simp only [Parking.waitStep] at stepped
      split at stepped
      · cases stepped
        exact moved rfl
      · cases stepped
        exact unlocks other
    | asleep => cases stepped
    | unlocking =>
      cases stepped
      exact unlocks other
    | decrementing =>
      obtain ⟨-, result⟩ := Option.ite_none_right_eq_some.mp stepped
      cases result
      exact moved rfl
  · rename_i slot phase here
    have past := settled u slot phase here
    have elsewhere : slot ≠ t := by
      rintro rfl
      refine notOwner ((ok.owner slot u).mpr ?_)
      rw [here]
      cases phase with
      | signalling | unlocking => exact Bool.and_eq_true_iff.mpr ⟨rfl, decide_eq_true rfl⟩
      | _ => cases past
    cases phase with
    | signalling =>
      cases stepped
      refine aside ?_ fun v isOther => ?_
      · rw [move_owner, signal_owner]
      · rw [move_of_ne isOther, signal_postDistance]
    | unlocking =>
      cases stepped
      exact unlocks elsewhere
    | _ => cases past

/-- **The owner of a mutex brings its post closer to the end.** -/
theorem ownerDistance_owner (ok : Ok kind flag p) (owned : p.owner t = some u)
    {slot : ι} {phase : Post} (there : p.place u = .posting slot phase)
    (stepped : p.step flag u = some (p', effect)) : p'.ownerDistance t < p.ownerDistance t := by
  have holds := (ok.owner t u).mp owned
  rw [there] at holds
  obtain ⟨inside, same⟩ := Bool.and_eq_true_iff.mp holds
  have isSlot := of_decide_eq_true same
  subst isSlot
  rw [ownerDistance_of_owner owned, there]
  rw [Parking.step, there] at stepped
  change p.postStep u t phase = some (p', effect) at stepped
  cases phase with
  | raising =>
    cases stepped
    rw [@ownerDistance_of_owner _ (p.move u (.posting t .signalling)) t u owned, move_self]
    exact Nat.lt_succ_self 2
  | signalling =>
    cases stepped
    have owned' : ((p.signal t).move u (.posting t .unlocking)).owner t = some u := by
      rw [move_owner, signal_owner]
      exact owned
    rw [ownerDistance_of_owner owned', move_self]
    exact Nat.lt_succ_self 1
  | unlocking =>
    cases stepped
    rw [@ownerDistance_of_free _ (p.unlock u t .outside) t (Function.update_self _ _ _)]
    exact Nat.one_pos
  | _ => cases inside

/-! #### The thread itself -/

/-- **The steps of a wait with its flag up bring it closer to its end**, until it lowers the flag. -/
theorem distance_wait {phase : Wait} (here : p.place t = .waiting phase) (pending : phase.pending = true)
    (up : flag t = true) (stepped : p.step flag t = some (p', effect)) :
    effect = .lowered ∨ p'.place t ≠ .outside ∧ p'.distance t < p.distance t := by
  rw [Parking.step, here] at stepped
  change p.waitStep flag t phase = some (p', effect) at stepped
  have moves : ∀ {next : Wait}, next.distance < phase.distance →
      (p.move t (.waiting next)).place t ≠ .outside ∧ (p.move t (.waiting next)).distance t < p.distance t := by
    intro next less
    refine ⟨by rw [move_self]; nofun, ?_⟩
    unfold distance
    rw [ownerDistance_moved (by rw [here]; rfl) rfl, move_self, here]
    exact Nat.add_lt_add_right less _
  have locks : ∀ {q : Parking ι}, p.lock t t (.waiting .looping) = some (q, effect) → phase.distance = 3 →
      q.place t ≠ .outside ∧ q.distance t < p.distance t := by
    intro q locked three
    obtain ⟨free, rfl, rfl⟩ := lock_eq locked
    have there : (p.move t (.waiting .looping)).place t = .waiting .looping := move_self
    refine ⟨by rw [show Parking.place _ t = _ from there]; nofun, ?_⟩
    unfold distance
    rw [ownerDistance_of_free free, here, ownerDistance_of_owner (Function.update_self _ _ _)]
    rw [show Parking.place _ t = _ from there]
    show 2 + 0 < phase.distance + 0
    omega
  cases phase with
  | spinning rounds =>
    simp only [Parking.waitStep] at stepped
    rw [if_pos (Or.inl up)] at stepped
    cases stepped
    exact Or.inr (moves (Nat.lt_succ_self 2))
  | testing =>
    simp only [Parking.waitStep, up, if_true] at stepped
    cases stepped
    exact Or.inr (moves (by decide))
  | taking | lowering =>
    cases stepped
    exact Or.inl rfl
  | locking | relocking => exact Or.inr (locks stepped rfl)
  | looping =>
    simp only [Parking.waitStep, up, if_true] at stepped
    cases stepped
    exact Or.inr (moves (by decide))
  | asleep => cases stepped
  | unlocking => cases pending
  | polling =>
    simp only [Parking.waitStep, up, if_true] at stepped
    cases stepped
    exact Or.inr (moves (by decide))
  | decrementing =>
    simp only [Parking.waitStep, up, if_true] at stepped
    cases stepped
    exact Or.inl rfl

/-- **So do the steps of a post that has raised its flag**, until the thread is outside. -/
theorem distance_post {slot : ι} {phase : Post} (here : p.place t = .posting slot phase)
    (past : phase.pending = false) (stepped : p.step flag t = some (p', effect)) :
    p'.place t ≠ .outside ∧ p'.distance t < p.distance t ∨
      p'.place t = .outside ∧ p'.ownerDistance t + 3 < p.distance t := by
  rw [Parking.step, here] at stepped
  change p.postStep t slot phase = some (p', effect) at stepped
  have fewer : ∀ {q : Parking ι}, (q.owner t = p.owner t ∨ q.owner t = none) →
      (∀ v, (q.place v).postDistance ≤ (p.place v).postDistance) →
      q.ownerDistance t ≤ p.ownerDistance t := by
    intro q owner posts
    rcases owner with same | free
    · unfold ownerDistance
      rw [same]
      cases p.owner t with
      | none => exact Nat.le_refl 0
      | some v => exact posts v
    · rw [ownerDistance_of_free free]
      exact Nat.zero_le _
  have moves : ∀ {q : Parking ι} {place : Place ι}, (∀ v, (q.place v).postDistance = (p.place v).postDistance) →
      place.postDistance ≤ phase.distance →
      ∀ v, ((q.move t place).place v).postDistance ≤ (p.place v).postDistance := by
    intro q place same less v
    by_cases isT : v = t
    · rw [isT, move_self, here]
      exact less
    · rw [move_of_ne isT, same]
  unfold distance
  rw [here]
  cases phase with
  | signalling =>
    cases stepped
    have few := @fewer ((p.signal slot).move t (.posting slot .unlocking))
      (Or.inl (by rw [move_owner, signal_owner])) (moves (signal_postDistance slot) (Nat.le_succ 1))
    refine Or.inl ⟨by rw [move_self]; nofun, ?_⟩
    rw [move_self]
    exact Nat.add_lt_add_of_lt_of_le (Nat.lt_succ_self _) few
  | unlocking =>
    cases stepped
    have few := @fewer (p.unlock t slot .outside) (by
      by_cases isSlot : t = slot
      · exact Or.inr (by rw [isSlot]; exact Function.update_self _ _ _)
      · exact Or.inl (Function.update_of_ne isSlot _ _)) (moves (fun _ => rfl) (Nat.zero_le _))
    refine Or.inr ⟨move_self, ?_⟩
    show _ < 1 + 3 + _
    omega
  | _ => cases past

/-- A wake-up without a signal brings a sleeper closer, too. -/
theorem distance_wake (woke : p.wake t = some p') : p'.distance t < p.distance t := by
  obtain ⟨asleep, result⟩ := Option.ite_none_right_eq_some.mp woke
  cases result
  unfold distance
  rw [ownerDistance_moved (by rw [asleep]; rfl) rfl, move_self, asleep]
  exact Nat.add_lt_add_right (Nat.lt_succ_self 3) _

/-- **No thread is further away after a step of another one**, and it is closer after one of the owner
of its mutex. -/
theorem distance_other (ok : Ok kind flag p) (settled : p.Settled) (other : u ≠ t)
    (stepped : p.step flag u = some (p', effect)) :
    p'.distance t + (decide (p.owner t = some u)).toNat ≤ p.distance t := by
  have own : (p'.place t).distance ≤ (p.place t).distance := by
    rcases step_others other.symm stepped with same | ⟨asleep, woken⟩
    · rw [same]
    · rw [asleep, woken]
      exact Nat.le_succ 3
  unfold distance
  by_cases owned : p.owner t = some u
  · obtain ⟨same, -⟩ | ⟨phase, there, -⟩ := ok.of_owner owned
    · exact absurd same other
    have less := ownerDistance_owner ok owned there stepped
    rw [decide_eq_true owned]
    show _ + _ + 1 ≤ _
    omega
  · rw [ownerDistance_other ok settled owned other stepped, decide_eq_false owned]
    exact Nat.add_le_add_right own _

/-- At most seven steps. -/
theorem distance_le (ok : Ok kind flag p) (settled : p.Settled) : p.distance t ≤ 7 := by
  have post : ∀ {u slot phase}, p.place u = .posting slot phase → phase.distance ≤ 2 := by
    intro u slot phase there
    have past := settled u slot phase there
    cases phase with
    | raising => cases past
    | _ => decide
  have own : (p.place t).distance ≤ 5 := by
    cases here : p.place t with
    | outside => exact Nat.zero_le _
    | waiting phase => exact Nat.le_succ_of_le phase.distance_le
    | posting slot phase => exact Nat.add_le_add_right (post here) 3
  have owner : p.ownerDistance t ≤ 2 := by
    cases owned : p.owner t with
    | none => exact (ownerDistance_of_free owned).trans_le (Nat.zero_le _)
    | some u =>
      rw [ownerDistance_of_owner owned]
      obtain ⟨rfl, phase, here, -⟩ | ⟨phase, there, -⟩ := ok.of_owner owned
      · rw [here]
        exact Nat.zero_le _
      · rw [there]
        exact post there
  exact Nat.add_le_add own owner

end Progress

end Parking

end MinSmt.Library
