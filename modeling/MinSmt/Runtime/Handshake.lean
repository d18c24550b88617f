/-
**The thread creation handshake** (`RecorderRT::pthreadCreate`, `RecorderRT::threadBegin`).

A creator starts the real thread and registers its handle in the thread maps with the turn held,
gives the turn away, and only then posts `thread_begin_sem`; the new thread waits for that semaphore,
looks its handle up, and posts `thread_begin_done_sem`, for which the creator waits. The semaphores are
shared by all creators and all new threads.

`Handshake` holds the maps, the two semaphores, who has the turn, and where each thread is; threads are
named by their handles. `allocated` is a ghost: the tid that `Scheduler::create` returned for a handle.
`Handshake.step` is one step of one thread. The turn may go to any thread that asks for it, so the
order of the scheduler is one of the orders here.

* `LoneStart` — a creator starts its thread when no post is outstanding and no other creator is about
  to post.
* **`new_threads_find_themselves`** — along a run in which every start is a lone one, a new thread that
  has come through `thread_begin_sem` is registered, and takes the tid its creator allocated.
* `crowded_start_races` — any other start can be followed by the new thread waking up unregistered.
* **`child_wakes_unregistered`** — a run with two creators in which that happens.
-/

import MinSmt.Library.Run
import MinSmt.Scheduler.TidMap

namespace MinSmt

open MinSmt.Library

/-- Where a thread is in `pthreadCreate` or in `threadBegin`. -/
inductive Place
  | unborn
  /-- Before `sem_wait(&thread_begin_sem)`. -/
  | beginning
  /-- `sem_wait(&thread_begin_sem)` has returned. -/
  | awake
  /-- `self(th)` has set `self_tid`. -/
  | named
  /-- Outside these two functions, or before their `getTurn`. -/
  | running
  /-- With the turn. -/
  | inTurn
  /-- `__tern_pthread_create` has returned this handle. -/
  | started (child : PthreadT)
  /-- `Scheduler::create` has registered it. -/
  | registered (child : PthreadT)
  /-- `putTurn` has returned. -/
  | released (child : PthreadT)
  /-- `sem_post(&thread_begin_sem)` has returned. -/
  | posted (child : PthreadT)
  deriving DecidableEq, Repr

/-- The thread has the turn. -/
def Place.hasTurn : Place → Bool
  | .inTurn => true
  | .started _ => true
  | .registered _ => true
  | _ => false

/-- The thread has a `self_tid`. -/
def Place.hasTid : Place → Bool
  | .unborn => false
  | .beginning => false
  | .awake => false
  | _ => true

/-- The threads of a process around the handshake. -/
structure Handshake where
  tm : TidMap
  turn : Option PthreadT
  beginSem : Nat
  doneSem : Nat
  place : PthreadT → Place
  selfTid : PthreadT → Option Tid
  allocated : PthreadT → Option Tid

namespace Handshake

/-- A step of a thread. -/
inductive Move
  | getTurn
  | putTurn
  | start (child : PthreadT)
  | register (threadFunc : ThreadFunc)
  | postBegin
  | waitDone
  | waitBegin
  | self
  | postDone
  deriving DecidableEq, Repr

/-- The main thread alone. -/
def init (wakeamapPlus : Bool) (mainTh : PthreadT) : Handshake :=
  { tm := TidMap.init wakeamapPlus mainTh
    turn := none
    beginSem := 0
    doneSem := 0
    place := Function.update (fun _ => .unborn) mainTh .running
    selfTid := Function.update (fun _ => none) mainTh (some mainThreadTid)
    allocated := Function.update (fun _ => none) mainTh (some mainThreadTid) }

/-- Move one thread. -/
def goto (s : Handshake) (th : PthreadT) (place : Place) : Handshake :=
  { s with place := Function.update s.place th place }

/-- **One step of one thread.** The handle of a new thread is not that of another thread. -/
def step (wakeamapPlus : Bool) (s : Handshake) (label : PthreadT × Move) : Option Handshake :=
  let th := label.1
  match s.place th, label.2 with
  | .running, .getTurn =>
    if s.turn = none then some { s.goto th .inTurn with turn := some th } else none
  | .inTurn, .putTurn => some { s.goto th .running with turn := none }
  | .inTurn, .start child =>
    if s.place child = .unborn then some ((s.goto child .beginning).goto th (.started child))
    else none
  | .started child, .register threadFunc =>
    some { s.goto th (.registered child) with
      tm := s.tm.create wakeamapPlus child threadFunc
      allocated := Function.update s.allocated child (some s.tm.nthread) }
  | .registered child, .putTurn => some { s.goto th (.released child) with turn := none }
  | .released child, .postBegin =>
    some { s.goto th (.posted child) with beginSem := s.beginSem + 1 }
  | .posted _, .waitDone =>
    if 0 < s.doneSem then some { s.goto th .running with doneSem := s.doneSem - 1 } else none
  | .beginning, .waitBegin =>
    if 0 < s.beginSem then some { s.goto th .awake with beginSem := s.beginSem - 1 } else none
  | .awake, .self =>
    some { s.goto th .named with selfTid := Function.update s.selfTid th (s.tm.getTid th) }
  | .named, .postDone => some { s.goto th .running with doneSem := s.doneSem + 1 }
  | _, _ => none

/-- **The creator starts its thread alone**: no post is outstanding and none is about to come. -/
def LoneStart (s : Handshake) (label : PthreadT × Move) : Prop :=
  match label.2 with
  | .start _ => s.beginSem = 0 ∧ ∀ creator child, s.place creator ≠ .released child
  | _ => True

/-- **The invariant.** -/
structure Sound (s : Handshake) : Prop where
  turn : ∀ th, (s.place th).hasTurn = true → s.turn = some th
  lone : ∀ th child, s.place th = .started child → s.place child = .beginning ∧ s.beginSem = 0 ∧
    ∀ creator other, s.place creator ≠ .released other
  known : ∀ th, s.place th ≠ .unborn → (∀ creator, s.place creator ≠ .started th) →
    ∃ tid, s.tm.getTid th = some tid ∧ s.allocated th = some tid
  named : ∀ th, (s.place th).hasTid = true → s.selfTid th = s.allocated th

variable {plus : Bool} {s s' : Handshake} {th : PthreadT} {place : Place}

theorem goto_self : (s.goto th place).place th = place := Function.update_self _ _ _

theorem goto_of_ne {other : PthreadT} (different : other ≠ th) :
    (s.goto th place).place other = s.place other := Function.update_of_ne different _ _

namespace Sound

/-- Only one thread has the turn. -/
theorem unique (sound : Sound s) {other : PthreadT} (mine : (s.place th).hasTurn = true)
    (theirs : (s.place other).hasTurn = true) : other = th :=
  Option.some.inj ((sound.turn other theirs).symm.trans (sound.turn th mine))

/-- **A thread moves, and neither starts nor releases nor registers a thread.** -/
theorem walk (sound : Sound s) {turn : Option PthreadT} {beginSem doneSem : Nat}
    {selfTid : PthreadT → Option Tid} (born : s.place th ≠ .unborn)
    (keepsTurn : ∀ other, other ≠ th → (s.place other).hasTurn = true → turn = some other)
    (ownTurn : place.hasTurn = true → turn = some th)
    (notStarted : ∀ child, place ≠ .started child) (wasStarted : ∀ child, s.place th ≠ .started child)
    (quiet : (∃ creator child, s.place creator = .started child) →
      beginSem = 0 ∧ s.place th ≠ .beginning ∧ ∀ child, place ≠ .released child)
    (sameTid : ∀ other, other ≠ th → selfTid other = s.selfTid other)
    (ownTid : place.hasTid = true → selfTid th = s.allocated th) :
    Sound { s.goto th place with
      turn := turn, beginSem := beginSem, doneSem := doneSem, selfTid := selfTid } := by
  have started : ∀ creator child, (s.goto th place).place creator = .started child →
      creator ≠ th ∧ s.place creator = .started child := by
    intro creator child isStarted
    by_cases same : creator = th
    · rw [same, goto_self] at isStarted
      exact absurd isStarted (notStarted child)
    · rw [goto_of_ne same] at isStarted
      exact ⟨same, isStarted⟩
  refine ⟨fun t has => ?_, fun creator child isStarted => ?_, fun t isBorn notYet => ?_,
    fun t has => ?_⟩
  · replace has : ((s.goto th place).place t).hasTurn = true := has
    by_cases same : t = th
    · rw [same, goto_self] at has
      rw [same]
      exact ownTurn has
    · rw [goto_of_ne same] at has
      exact keepsTurn t same has
  · obtain ⟨_, before⟩ := started creator child isStarted
    obtain ⟨atGate, _, none⟩ := sound.lone creator child before
    obtain ⟨empty, notMe, notReleased⟩ := quiet ⟨creator, child, before⟩
    have other : child ≠ th := fun same => notMe (same ▸ atGate)
    refine ⟨(goto_of_ne other).trans atGate, empty, fun d released isReleased => ?_⟩
    replace isReleased : (s.goto th place).place d = .released released := isReleased
    by_cases same : d = th
    · rw [same, goto_self] at isReleased
      exact notReleased released isReleased
    · rw [goto_of_ne same] at isReleased
      exact none d released isReleased
  · have before : ∀ creator, s.place creator ≠ .started t := fun creator isStarted => by
      have other : creator ≠ th := fun same => wasStarted t (same ▸ isStarted)
      exact notYet creator ((goto_of_ne other).trans isStarted)
    refine sound.known t ?_ before
    by_cases same : t = th
    · rwa [same]
    · replace isBorn : (s.goto th place).place t ≠ .unborn := isBorn
      rwa [goto_of_ne same] at isBorn
  · replace has : ((s.goto th place).place t).hasTid = true := has
    by_cases same : t = th
    · rw [same, goto_self] at has
      rw [same]
      exact ownTid has
    · rw [goto_of_ne same] at has
      exact (sameTid t same).trans (sound.named t has)

/-- While a thread is being started, nobody is about to post and no post is outstanding. -/
theorem lone_of_started (sound : Sound s)
    (some : ∃ creator child, s.place creator = .started child) :
    s.beginSem = 0 ∧ ∀ creator child, s.place creator ≠ .released child := by
  obtain ⟨creator, child, isStarted⟩ := some
  exact (sound.lone creator child isStarted).2

/-- **A lone start.** -/
theorem start (sound : Sound s) {child : PthreadT} (here : s.place th = .inTurn)
    (fresh : s.place child = .unborn)
    (lone : s.beginSem = 0 ∧ ∀ creator other, s.place creator ≠ .released other) :
    Sound ((s.goto child .beginning).goto th (.started child)) := by
  have different : child ≠ th := fun same => by
    rw [same, here] at fresh
    cases fresh
  -- nobody else has the turn, so nobody else is starting a thread
  have noStarted : ∀ creator other, s.place creator ≠ .started other := by
    intro creator other isStarted
    have isTh : creator = th := sound.unique (by rw [here]; rfl) (by rw [isStarted]; rfl)
    rw [isTh, here] at isStarted
    cases isStarted
  have places : ∀ t, t ≠ th → t ≠ child →
      ((s.goto child .beginning).goto th (.started child)).place t = s.place t := by
    intro t notTh notChild
    rw [goto_of_ne notTh, goto_of_ne notChild]
  have ofChild : ((s.goto child .beginning).goto th (.started child)).place child = .beginning := by
    rw [goto_of_ne different, goto_self]
  refine ⟨fun t has => ?_, fun creator other isStarted => ?_, fun t born notYet => ?_,
    fun t has => ?_⟩
  · by_cases isTh : t = th
    · rw [isTh]
      exact sound.turn th (by rw [here]; rfl)
    · by_cases isChild : t = child
      · rw [isChild, ofChild] at has
        cases has
      · rw [places t isTh isChild] at has
        exact sound.turn t has
  · have isTh : creator = th := by
      by_contra notTh
      by_cases isChild : creator = child
      · rw [isChild, ofChild] at isStarted
        cases isStarted
      · rw [places creator notTh isChild] at isStarted
        exact noStarted creator other isStarted
    rw [isTh, goto_self] at isStarted
    cases isStarted
    refine ⟨ofChild, lone.1, fun d released isReleased => ?_⟩
    by_cases isTh' : d = th
    · rw [isTh', goto_self] at isReleased
      cases isReleased
    · by_cases isChild : d = child
      · rw [isChild, ofChild] at isReleased
        cases isReleased
      · rw [places d isTh' isChild] at isReleased
        exact lone.2 d released isReleased
  · have notChild : t ≠ child := fun same => notYet th (by rw [goto_self, same])
    refine sound.known t ?_ fun creator => noStarted creator t
    by_cases isTh : t = th
    · rw [isTh, here]
      exact fun isUnborn => by cases isUnborn
    · rwa [places t isTh notChild] at born
  · refine sound.named t ?_
    by_cases isTh : t = th
    · rw [isTh, here]
      rfl
    · by_cases isChild : t = child
      · rw [isChild, ofChild] at has
        cases has
      · rwa [places t isTh isChild] at has

/-- **The creator registers its thread.** -/
theorem register (sound : Sound s) {child : PthreadT} (here : s.place th = .started child)
    (threadFunc : ThreadFunc) :
    Sound { s.goto th (.registered child) with
      tm := s.tm.create plus child threadFunc
      allocated := Function.update s.allocated child (some s.tm.nthread) } := by
  obtain ⟨atGate, empty, none⟩ := sound.lone th child here
  have different : child ≠ th := fun same => by
    rw [same, here] at atGate
    cases atGate
  have onlyMe : ∀ creator other, s.place creator = .started other → creator = th := by
    intro creator other isStarted
    exact sound.unique (by rw [here]; rfl) (by rw [isStarted]; rfl)
  refine ⟨fun t has => ?_, fun creator other isStarted => ?_, fun t born notYet => ?_,
    fun t has => ?_⟩
  · by_cases isTh : t = th
    · rw [isTh]
      exact sound.turn th (by rw [here]; rfl)
    · replace has : ((s.goto th (.registered child)).place t).hasTurn = true := has
      rw [goto_of_ne isTh] at has
      exact sound.turn t has
  · replace isStarted : (s.goto th (.registered child)).place creator = .started other := isStarted
    by_cases isTh : creator = th
    · rw [isTh, goto_self] at isStarted
      cases isStarted
    · rw [goto_of_ne isTh] at isStarted
      exact absurd (onlyMe creator other isStarted) isTh
  · by_cases isChild : t = child
    · subst isChild
      refine ⟨s.tm.nthread, ?_, Function.update_self _ _ _⟩
      unfold TidMap.getTid
      rw [TidMap.create_pToT, Function.update_self]
    · have before : ∀ creator, s.place creator ≠ .started t := fun creator isStarted => by
        rw [onlyMe creator t isStarted, here] at isStarted
        cases isStarted
        exact isChild rfl
      obtain ⟨tid, found, same⟩ := sound.known t (by
        by_cases isTh : t = th
        · rw [isTh, here]
          exact fun isUnborn => by cases isUnborn
        · replace born : (s.goto th (.registered child)).place t ≠ .unborn := born
          rwa [goto_of_ne isTh] at born) before
      refine ⟨tid, ?_, ?_⟩
      · unfold TidMap.getTid at found ⊢
        rwa [TidMap.create_pToT, Function.update_of_ne isChild]
      · show Function.update s.allocated child (some s.tm.nthread) t = some tid
        rwa [Function.update_of_ne isChild]
  · replace has : ((s.goto th (.registered child)).place t).hasTid = true := has
    have notChild : t ≠ child := fun same => by
      rw [same, goto_of_ne different, atGate] at has
      cases has
    show s.selfTid t = Function.update s.allocated child (some s.tm.nthread) t
    rw [Function.update_of_ne notChild]
    refine sound.named t ?_
    by_cases isTh : t = th
    · rw [isTh, here]
      rfl
    · rwa [goto_of_ne isTh] at has

/-- **Every step keeps the invariant when starts are lone.** -/
theorem step (sound : Sound s) {label : PthreadT × Move} (lone : LoneStart s label)
    (stepped : s.step plus label = some s') : Sound s' := by
  obtain ⟨th, move⟩ := label
  -- a thread in its turn is the only one that can be starting a thread
  have soleStarter : (s.place th).hasTurn = true → (∀ child, s.place th ≠ .started child) →
      ¬ ∃ creator child, s.place creator = .started child := by
    rintro mine notMe ⟨creator, child, isStarted⟩
    have isTh : creator = th := sound.unique mine (by rw [isStarted]; rfl)
    exact notMe child (isTh ▸ isStarted)
  have sole : (s.place th).hasTurn = true → ∀ other, other ≠ th →
      (s.place other).hasTurn = true → none = some other := fun mine other different theirs =>
    absurd (sound.unique mine theirs) different
  simp only [Handshake.step] at stepped
  split at stepped
  · rename_i here
    split at stepped
    · rename_i free
      cases stepped
      have noTurn : ∀ other, (s.place other).hasTurn = false := fun other => by
        by_contra has
        have held := sound.turn other (by simpa using has)
        rw [free] at held
        cases held
      refine sound.walk (by rw [here]; simp) (fun other _ has => ?_) (fun _ => rfl) (by simp)
        (by rw [here]; simp) (fun ⟨creator, child, isStarted⟩ => ?_) (fun _ _ => rfl)
        (fun _ => sound.named th (by rw [here]; rfl))
      · rw [noTurn other] at has
        cases has
      · have none := noTurn creator
        rw [isStarted] at none
        cases none
    · cases stepped
  · rename_i here
    cases stepped
    exact sound.walk (by rw [here]; simp) (sole (by rw [here]; rfl)) (fun has => by cases has)
      (by simp) (by rw [here]; simp)
      (fun some => absurd some (soleStarter (by rw [here]; rfl) (by rw [here]; simp)))
      (fun _ _ => rfl) (fun _ => sound.named th (by rw [here]; rfl))
  · rename_i here
    split at stepped
    · rename_i fresh
      cases stepped
      exact sound.start here fresh lone
    · cases stepped
  · rename_i here
    cases stepped
    exact sound.register here _
  · rename_i here
    cases stepped
    exact sound.walk (by rw [here]; simp) (sole (by rw [here]; rfl)) (fun has => by cases has)
      (by simp) (by rw [here]; simp)
      (fun some => absurd some (soleStarter (by rw [here]; rfl) (by rw [here]; simp)))
      (fun _ _ => rfl) (fun _ => sound.named th (by rw [here]; rfl))
  · rename_i here
    cases stepped
    refine sound.walk (by rw [here]; simp) (fun other _ => sound.turn other)
      (fun has => by cases has) (by simp) (by rw [here]; simp) (fun some => ?_)
      (fun _ _ => rfl) (fun _ => sound.named th (by rw [here]; rfl))
    exact absurd here ((sound.lone_of_started some).2 th _)
  · rename_i here
    split at stepped
    · cases stepped
      exact sound.walk (by rw [here]; simp) (fun other _ => sound.turn other)
        (fun has => by cases has) (by simp) (by rw [here]; simp)
        (fun some => ⟨(sound.lone_of_started some).1, by rw [here]; simp, by simp⟩)
        (fun _ _ => rfl) (fun _ => sound.named th (by rw [here]; rfl))
    · cases stepped
  · rename_i here
    split at stepped
    · rename_i posted
      cases stepped
      refine sound.walk (by rw [here]; simp) (fun other _ => sound.turn other)
        (fun has => by cases has) (by simp) (by rw [here]; simp) (fun some => ?_)
        (fun _ _ => rfl) (fun has => by cases has)
      have empty := (sound.lone_of_started some).1
      omega
    · cases stepped
  · rename_i here
    cases stepped
    refine sound.walk (by rw [here]; simp) (fun other _ => sound.turn other)
      (fun has => by cases has) (by simp) (by rw [here]; simp)
      (fun some => ⟨(sound.lone_of_started some).1, by rw [here]; simp, by simp⟩)
      (fun other different => Function.update_of_ne different _ _) (fun _ => ?_)
    obtain ⟨tid, found, same⟩ := sound.known th (by rw [here]; simp) fun creator isStarted => by
      have atGate := (sound.lone creator th isStarted).1
      rw [here] at atGate
      cases atGate
    rw [Function.update_self, found, same]
  · rename_i here
    cases stepped
    exact sound.walk (by rw [here]; simp) (fun other _ => sound.turn other)
      (fun has => by cases has) (by simp) (by rw [here]; simp)
      (fun some => ⟨(sound.lone_of_started some).1, by rw [here]; simp, by simp⟩)
      (fun _ _ => rfl) (fun _ => sound.named th (by rw [here]; rfl))
  · cases stepped

theorem initial (plus : Bool) (mainTh : PthreadT) : Sound (init plus mainTh) := by
  have main : (init plus mainTh).place mainTh = .running := by
    show Function.update (fun _ => Place.unborn) mainTh .running mainTh = .running
    rw [Function.update_self]
  have others : ∀ th, th ≠ mainTh → (init plus mainTh).place th = .unborn := by
    intro th other
    show Function.update (fun _ => Place.unborn) mainTh .running th = .unborn
    rw [Function.update_of_ne other]
  have isMain : ∀ th, (init plus mainTh).place th ≠ .unborn → th = mainTh := fun th born => by
    by_contra other
    exact born (others th other)
  refine ⟨fun th has => ?_, fun th child isStarted => ?_, fun th born _ => ?_, fun th has => ?_⟩
  · have isTh : th = mainTh := isMain th fun unborn => by
      rw [unborn] at has
      cases has
    rw [isTh, main] at has
    cases has
  · rw [isMain th (by rw [isStarted]; simp), main] at isStarted
    cases isStarted
  · rw [isMain th born]
    refine ⟨mainThreadTid, ?_, ?_⟩
    · show (TidMap.init plus mainTh).pToT mainTh = some mainThreadTid
      rw [TidMap.init, TidMap.create_pToT, Function.update_self]
      rfl
    · show Function.update (fun _ => none) mainTh (some mainThreadTid) mainTh = some mainThreadTid
      rw [Function.update_self]
  · rfl

end Sound

/-- **A new thread finds itself**, when every thread is started alone. -/
theorem new_threads_find_themselves (wakeamapPlus : Bool) (mainTh : PthreadT)
    (labels : List (PthreadT × Move))
    (lone : Along (step wakeamapPlus) LoneStart (init wakeamapPlus mainTh) labels) (s : Handshake)
    (ran : exec (step wakeamapPlus) (init wakeamapPlus mainTh) labels = some s) (th : PthreadT) :
    (s.place th = .awake → ∃ tid, s.tm.getTid th = some tid ∧ s.allocated th = some tid) ∧
      (s.place th = .named → ∃ tid, s.selfTid th = some tid ∧ s.allocated th = some tid) := by
  have sound : Sound s := exec_invariant Sound
    (fun _ _ _ sound lone stepped => sound.step lone stepped) (Sound.initial _ _) lone ran
  have known : s.place th ≠ .unborn → s.place th ≠ .beginning →
      ∃ tid, s.tm.getTid th = some tid ∧ s.allocated th = some tid := fun born notGate =>
    sound.known th born fun creator isStarted => notGate (sound.lone creator th isStarted).1
  refine ⟨fun here => known (by rw [here]; simp) (by rw [here]; simp), fun here => ?_⟩
  obtain ⟨tid, _, same⟩ := known (by rw [here]; simp) (by rw [here]; simp)
  exact ⟨tid, (sound.named th (by rw [here]; rfl)).trans same, same⟩

/-- The main thread creates one thread, which comes through the handshake. -/
def oneCreation : List (PthreadT × Move) :=
  [(100, .getTurn), (100, .start 101), (100, .register 7), (100, .putTurn), (100, .postBegin),
    (101, .waitBegin), (101, .self)]

theorem new_threads_find_themselves_oneCreation :
    ∃ s, exec (step false) (init false 100) oneCreation = some s ∧ s.place 101 = .named ∧
      ∃ tid, s.selfTid 101 = some tid ∧ s.allocated 101 = some tid := by
  refine ⟨_, rfl, by decide, ?_⟩
  refine (new_threads_find_themselves false 100 oneCreation ?_ _ rfl 101).2 (by decide)
  refine ⟨trivial, fun s₁ first => ?_⟩
  cases first
  refine ⟨⟨rfl, fun creator child => ?_⟩, fun s₂ second => ⟨trivial, fun s₃ third => ⟨trivial,
    fun s₄ fourth => ⟨trivial, fun s₅ fifth => ⟨trivial, fun s₆ sixth => ⟨trivial, fun s₇ seventh =>
      trivial⟩⟩⟩⟩⟩⟩
  show Function.update (Function.update (fun _ => Place.unborn) 100 .running) 100 .inTurn creator ≠ _
  by_cases same : creator = 100
  · rw [same, Function.update_self]
    simp
  · rw [Function.update_of_ne same, Function.update_of_ne same]
    simp

/-! ### Two creators -/

/-- When a creator can start a thread, and what it does. -/
theorem start_spec {creator child : PthreadT}
    (stepped : s.step plus (creator, .start child) = some s') :
    s.place creator = .inTurn ∧ s.place child = .unborn ∧
      s' = (s.goto child .beginning).goto creator (.started child) := by
  unfold Handshake.step at stepped
  cases here : s.place creator with
  | inTurn =>
    simp only [here] at stepped
    split at stepped
    · rename_i fresh
      cases stepped
      exact ⟨rfl, fresh, rfl⟩
    · cases stepped
  | _ =>
    simp only [here] at stepped
    cases stepped

/-- `sem_wait(&thread_begin_sem)` returns when the semaphore has been posted. -/
theorem waitBegin_step {child : PthreadT} (gate : s.place child = .beginning)
    (posted : 0 < s.beginSem) : s.step plus (child, .waitBegin) =
      some { s.goto child .awake with beginSem := s.beginSem - 1 } := by
  simp only [Handshake.step, gate, if_pos posted]

/-- **A start that is not lone can be followed by the new thread waking up unregistered.** -/
theorem crowded_start_races {creator child : PthreadT}
    (stepped : s.step plus (creator, .start child) = some s')
    (crowded : ¬ LoneStart s (creator, .start child)) :
    ∃ labels final, exec (step plus) s' labels = some final ∧ final.place child = .awake ∧
      final.tm = s.tm := by
  obtain ⟨here, fresh, rfl⟩ := start_spec stepped
  have different : child ≠ creator := fun same => by
    rw [same, here] at fresh
    cases fresh
  set started := (s.goto child .beginning).goto creator (.started child) with isStarted
  have gate : started.place child = .beginning := by rw [isStarted, goto_of_ne different, goto_self]
  by_cases posted : 0 < s.beginSem
  · refine ⟨[(child, .waitBegin)], { started.goto child .awake with
      beginSem := started.beginSem - 1 }, ?_, goto_self, rfl⟩
    rw [exec, waitBegin_step gate posted]
    rfl
  · -- another creator is about to post
    obtain ⟨other, theirs, released⟩ : ∃ other theirs, s.place other = .released theirs := by
      by_contra none
      refine crowded ⟨by omega, fun other theirs released => none ⟨other, theirs, released⟩⟩
    have notCreator : other ≠ creator := fun same => by
      rw [same, here] at released
      cases released
    have notChild : other ≠ child := fun same => by
      rw [same, fresh] at released
      cases released
    have still : started.place other = .released theirs := by
      rw [isStarted, goto_of_ne notCreator, goto_of_ne notChild, released]
    set raced : Handshake := { started.goto other (.posted theirs) with
      beginSem := started.beginSem + 1 } with isRaced
    have post : started.step plus (other, .postBegin) = some raced := by
      simp only [Handshake.step, still, isRaced]
    have atGate : raced.place child = .beginning := by
      rw [isRaced]
      exact (goto_of_ne notChild.symm).trans gate
    refine ⟨[(other, .postBegin), (child, .waitBegin)], { raced.goto child .awake with
      beginSem := raced.beginSem - 1 }, ?_, goto_self, rfl⟩
    rw [exec, post, Option.bind_some, exec, waitBegin_step atGate (Nat.succ_pos _)]
    rfl

/-- Two creators: thread `101` is between `putTurn` and its post when the main thread starts `103`. -/
def twoCreators : List (PthreadT × Move) :=
  oneCreation ++ [(101, .postDone), (100, .waitDone), (101, .getTurn), (101, .start 102),
    (101, .register 7), (101, .putTurn), (100, .getTurn), (100, .start 103), (101, .postBegin),
    (103, .waitBegin)]

/-- **The child of one creator takes the post of another, before it is registered.** -/
theorem child_wakes_unregistered :
    ∃ s, exec (step false) (init false 100) twoCreators = some s ∧ s.place 103 = .awake ∧
      s.tm.getTid 103 = none := by
  refine ⟨_, rfl, by decide, by decide⟩

end Handshake

end MinSmt
