/-
**How deep a thread is in critical sections** (`inCSLevel`), for bit `0x01` of the policy.

`pthreadMutexLock` counts a section when it has the mutex, and `pthreadMutexUnlock` takes one away.
`pthreadMutexTryLock` and `pthreadMutexTimedLock` acquire mutexes too and count nothing. A wait on a
condition variable releases its mutex and acquires it again without counting, so in between it is still
counted.

* `held` — the mutexes that a thread holds; `DepthExact` — their number is `inCSLevel`, for every thread
  that is not inside a wrapper.
* `OwnMutexes` — a thread unlocks only mutexes that it holds.
* `Nests` — the turn acquires a free mutex by `pthreadMutexLock` only, not one that it holds already, and
  unlocks none that is held more than once.
* `sections`, `turn_depth` — the sections a thread is in, and what a turn does to them.
* **`depth_iff`** — the level is exact throughout a run exactly when all its turns nest; then a thread keeps
  the turn for its critical sections exactly while it holds a mutex.
* `trylock_is_not_counted` — a run with a successful try.
-/

import Mathlib.Data.Set.Card
import MinSmt.Runtime.Waiters

namespace MinSmt

open MinSmt.Library

/-- The mutex that a thread in a wrapper will acquire again. -/
def Spot.relocks : Spot → Option Nat
  | .inside stage => stage.relocks
  | _ => none

/-- Where a turn leaves its thread. -/
def Finish.spot : Finish → Spot
  | .done _ _ => .returning
  | .wait _ _ next => .inside next
  | .bounce next => .inside next
  | _ => .outside

/-- The mutex that a turn unlocks. -/
def Stage.releases : Stage → Option Nat
  | .called (.mutexUnlock mu) => some mu
  | .called (.condWait _ mu _) => some mu
  | .called (.condTimedWait _ mu _ _ _) => some mu
  | _ => none

/-- The mutex that a turn initializes. -/
def Stage.inits : Stage → Option Nat
  | .called (.mutexInit mu _) => some mu
  | _ => none

/-- **The turn keeps the level and the mutexes in step**: `pthreadMutexLock` does not acquire a mutex once
more, the other acquisitions acquire none, and a mutex that is unlocked is held once. -/
def Stage.nests (mutex : Nat → Mutex) (tid : Tid) : Stage → Bool
  | .called (.mutexLock mu) => decide ((mutex mu).owner = some tid → (mutex mu).kind ≠ .recursive)
  | .called (.mutexTimedLock mu _ none) =>
    decide ((mutex mu).owner = some tid → (mutex mu).kind ≠ .recursive)
  | .retry (.mutexLock mu) => decide ((mutex mu).owner = some tid → (mutex mu).kind ≠ .recursive)
  | .called (.mutexTryLock mu) => (mutex mu).held
  | .called (.mutexTimedLock mu _ (some _)) => (mutex mu).held
  | .retry (.mutexTimedLock mu _) => (mutex mu).held
  | .called (.mutexUnlock mu) => decide ((mutex mu).kind = .normal ∨ (mutex mu).count ≤ 1)
  | _ => true

/-- The critical sections that a thread is in. -/
def sections (mutex : Nat → Mutex) (tid : Tid) (relocks : Option Nat) : Set Nat :=
  {mu | (mutex mu).owner = some tid ∨ mu ∈ relocks}

/-! ### The try-operation and the release -/

namespace Mutex

variable {m m' : Mutex} {tid : Tid}

/-- A mutex is acquired when it is free, or once more when it is recursive. -/
theorem owner_before_trylock (got : m.trylock tid = some m') :
    m.owner = none ∨ m.owner = some tid ∧ m.kind = .recursive := by
  unfold trylock at got
  split at got
  · rename_i free
    exact Or.inl free
  · rename_i owner isOwner
    split at got
    · rename_i again
      exact Or.inr ⟨isOwner.trans (congrArg some again.2), again.1⟩
    · cases got

/-- What an owner leaves when it unlocks. -/
theorem owner_after_unlock (mine : m.owner = some tid) :
    (m.unlock tid).1.owner = if m.kind = .normal ∨ m.count ≤ 1 then none else some tid := by
  unfold unlock
  by_cases normal : m.kind = .normal
  · rw [if_pos normal, if_pos (Or.inl normal)]
  · rw [if_neg normal, if_pos mine]
    by_cases last : m.count ≤ 1
    · rw [if_pos last, if_pos (Or.inr last)]
    · rw [if_neg last, if_neg (by tauto)]
      exact mine

end Mutex

/-! ### What a turn does to the sections -/

/-- What a turn does to the sections of its thread and to their count. -/
inductive Deepens (before after : Set Nat) (level level' : Nat) : Prop
  | same (sets : after = before) (levels : level' = level)
  | entered (mu : Nat) (fresh : mu ∉ before) (sets : after = insert mu before) (levels : level' = level + 1)
  | left (mu : Nat) (inside : mu ∈ before) (sets : after = before \ {mu}) (levels : level' = level - 1)

/-- What a turn does that keeps the two out of step. -/
inductive Slips (before after : Set Nat) (level level' : Nat) : Prop
  | uncounted (mu : Nat) (fresh : mu ∉ before) (sets : after = insert mu before) (levels : level' = level)
  | again (sets : after = before) (levels : level' = level + 1)
  | kept (mu : Nat) (inside : mu ∈ before) (sets : after = before) (levels : level' = level - 1)

section Sets

variable {before after : Set Nat} {level level' : Nat}

theorem Deepens.encard (deepens : Deepens before after level level') (exact : before.encard = level) :
    after.encard = level' := by
  cases deepens with
  | same sets levels => rw [sets, levels, exact]
  | entered mu fresh sets levels =>
    rw [sets, levels, Set.encard_insert_of_notMem fresh, exact]
    rfl
  | left mu inside sets levels =>
    have split := Set.encard_sdiff_singleton_add_one inside
    rw [exact] at split
    have finite : (before \ {mu}).encard ≠ ⊤ := by
      intro infinite
      rw [infinite] at split
      cases split
    obtain ⟨n, isN⟩ := ENat.ne_top_iff_exists.mp finite
    rw [sets, levels, ← isN]
    rw [← isN] at split
    have sum : n + 1 = level := by exact_mod_cast split
    rw [← sum]
    rfl

theorem Slips.encard (slips : Slips before after level level') (exact : before.encard = level) :
    after.encard ≠ level' := by
  cases slips with
  | uncounted mu fresh sets levels =>
    rw [sets, levels, Set.encard_insert_of_notMem fresh, exact]
    intro same
    have sum : level + 1 = level := by exact_mod_cast same
    omega
  | again sets levels =>
    rw [sets, levels, exact]
    intro same
    have sum : level = level + 1 := by exact_mod_cast same
    omega
  | kept mu inside sets levels =>
    rw [sets, levels, exact]
    intro same
    have sum : level = level - 1 := by exact_mod_cast same
    have positive : level ≠ 0 := by
      rintro rfl
      have empty : before = ∅ := Set.encard_eq_zero.mp exact
      rw [empty] at inside
      exact inside
    omega

end Sets

theorem sections_acquire {mutex : Nat → Mutex} {tid : Tid} {mu : Nat} {m : Mutex}
    (mine : m.owner = some tid) :
    sections (Function.update mutex mu m) tid none = insert mu (sections mutex tid none) := by
  ext mu'
  show (Function.update mutex mu m mu').owner = some tid ∨ mu' ∈ none ↔
    mu' = mu ∨ (mutex mu').owner = some tid ∨ mu' ∈ none
  by_cases same : mu' = mu
  · rw [same, Function.update_self]
    exact iff_of_true (Or.inl mine) (Or.inl rfl)
  · rw [Function.update_of_ne same, or_iff_right same]

theorem mem_sections {mutex : Nat → Mutex} {tid : Tid} {mu : Nat} :
    mu ∈ sections mutex tid none ↔ (mutex mu).owner = some tid := or_iff_left nofun

/-- Writing a mutex with the owner it has. -/
theorem sections_same {mutex : Nat → Mutex} {tid : Tid} {mu : Nat} {m : Mutex} {relocks : Option Nat}
    (owner : m.owner = (mutex mu).owner) :
    sections (Function.update mutex mu m) tid relocks = sections mutex tid relocks := by
  ext mu'
  show (Function.update mutex mu m mu').owner = some tid ∨ mu' ∈ relocks ↔
    (mutex mu').owner = some tid ∨ mu' ∈ relocks
  by_cases same : mu' = mu
  · rw [same, Function.update_self, owner]
  · rw [Function.update_of_ne same]

/-- A mutex that is released and acquired again later stays among the sections. -/
theorem sections_release {mutex mutex' : Nat → Mutex} {tid : Tid} {mu : Nat}
    (mine : (mutex mu).owner = some tid) (others : ∀ mu', mu' ≠ mu → mutex' mu' = mutex mu') :
    sections mutex' tid (some mu) = sections mutex tid none := by
  ext mu'
  show (mutex' mu').owner = some tid ∨ mu' ∈ some mu ↔ (mutex mu').owner = some tid ∨ mu' ∈ none
  by_cases same : mu' = mu
  · rw [same]
    exact iff_of_true (Or.inr rfl) (Or.inl mine)
  · rw [others mu' same]
    refine or_congr_right (iff_of_false ?_ nofun)
    exact fun isMu => same (Option.some.inj isMu).symm

theorem sections_relock {mutex : Nat → Mutex} {tid : Tid} {mu : Nat} {m : Mutex}
    (mine : m.owner = some tid) :
    sections (Function.update mutex mu m) tid none = sections mutex tid (some mu) := by
  rw [sections_acquire mine]
  ext mu'
  show mu' = mu ∨ (mutex mu').owner = some tid ∨ mu' ∈ none ↔ (mutex mu').owner = some tid ∨ mu' ∈ some mu
  have isMu : mu' ∈ some mu ↔ mu' = mu := ⟨fun here => (Option.some.inj here).symm, fun same => same ▸ rfl⟩
  rw [isMu, or_iff_left (fun no : mu' ∈ none => nomatch no), or_comm]

section Turns

variable {σ : Type} {S : Serializer σ} {o : Options} {tid : Tid} {e : Env σ} {stage : Stage}

/-- What a loop on a mutex does. -/
theorem enter_mutex {loop : Loop} {mu : Nat} (isMutex : loop.chan = .mutex mu) :
    ((e.shared.mutex mu).trylock tid = none ∧ (loop.enter o tid e).1.shared.mutex = e.shared.mutex ∧
      (loop.enter o tid e).1.self = e.self ∧
      (loop.enter o tid e).2 = .wait (some (.mutex mu)) loop.timeout (.retry loop)) ∨
    ∃ m, (e.shared.mutex mu).trylock tid = some m ∧
      loop.enter o tid e = loop.leave o { e with shared := e.shared.setMutex mu m } {} := by
  have attempt : loop.attempt tid e.shared = ((e.shared.mutex mu).trylock tid).map (e.shared.setMutex mu) := by
    cases loop <;> cases isMutex <;> rfl
  cases got : (e.shared.mutex mu).trylock tid with
  | none =>
    rw [got] at attempt
    rw [Loop.enter_of_none attempt, isMutex]
    refine Or.inl ⟨rfl, ?_, rfl, rfl⟩
    cases loop <;> rfl
  | some m =>
    rw [got] at attempt
    exact Or.inr ⟨m, rfl, Loop.enter_of_some attempt⟩

/-- **Only `pthreadMutexLock` and `pthreadMutexUnlock` write the level.** -/
theorem turn_level :
    (turn S o tid e stage).1.self.noCSWholeLocal = e.self.noCSWholeLocal ∧
      (stage.counts = false → (turn S o tid e stage).1.self.inCSLevel = e.self.inCSLevel) := by
  refine ⟨?_, fun plain => ?_⟩
  · exact turn_field Local.noCSWholeLocal (fun _ _ _ => rfl) (fun _ _ _ _ => rfl) fun _ _ => rfl
  · refine turn_field Local.inCSLevel (fun counts => ?_) (fun _ _ _ _ => rfl) fun _ _ => rfl
    rw [plain] at counts
    cases counts

/-- What a turn does to the sections of its thread. -/
inductive DepthTurned (S : Serializer σ) (o : Options) (tid : Tid) (e : Env σ) (stage : Stage) : Prop
  | nests (fine : stage.nests e.shared.mutex tid = true)
      (deepens : Deepens (sections e.shared.mutex tid stage.relocks)
        (sections (turn S o tid e stage).1.shared.mutex tid (turn S o tid e stage).2.spot.relocks)
        e.self.inCSLevel (turn S o tid e stage).1.self.inCSLevel)
  | slips (wrong : stage.nests e.shared.mutex tid = false)
      (slips : Slips (sections e.shared.mutex tid stage.relocks)
        (sections (turn S o tid e stage).1.shared.mutex tid (turn S o tid e stage).2.spot.relocks)
        e.self.inCSLevel (turn S o tid e stage).1.self.inCSLevel)
      (returns : (turn S o tid e stage).2.spot = .returning)

/-- A turn that works on no mutex waits for none. -/
theorem relocks_elsewhere (noMutex : ∀ mu, stage.object ≠ some (.mutex mu)) :
    (turn S o tid e stage).2.spot.relocks = none := by
  have fits := @turn_fits _ S o tid e stage
  have waitsOn := @turn_waitsOn _ S o tid e stage
  cases how : (turn S o tid e stage).2 with
  | wait chan timeout next =>
    rw [how] at fits waitsOn
    have awaits : stage.awaits = next.chan := waitsOn.symm.trans fits.2.1
    cases next with
    | condWoken timed cv mu role =>
      cases stage with
      | called call =>
        cases call with
        | condWait cv' mu' caller => exact absurd rfl (noMutex mu')
        | condTimedWait cv' mu' caller cur abstime => exact absurd rfl (noMutex mu')
        | _ => cases awaits
      | retry loop => cases loop <;> cases awaits
      | _ => cases awaits
    | retry loop =>
      cases loop with
      | relock cv mu savedRet => exact absurd (object_of_awaits rfl awaits) (noMutex mu)
      | _ => rfl
    | _ => rfl
  | bounce next =>
    rw [how] at fits
    obtain ⟨barrier, -, rfl⟩ := fits
    rfl
  | _ => rfl

/-- A turn that works on no mutex. -/
theorem depth_elsewhere (noMutex : ∀ mu, stage.object ≠ some (.mutex mu)) :
    DepthTurned S o tid e stage := by
  have mutex : (turn S o tid e stage).1.shared.mutex = e.shared.mutex :=
    funext fun mu => turn_mutex (noMutex mu)
  have quiet : stage.nests e.shared.mutex tid = true ∧ stage.relocks = none ∧ stage.counts = false := by
    cases stage with
    | called call =>
      cases call with
      | mutexLock mu => exact absurd rfl (noMutex mu)
      | mutexTryLock mu => exact absurd rfl (noMutex mu)
      | mutexTimedLock mu cur abstime => exact absurd rfl (noMutex mu)
      | mutexUnlock mu => exact absurd rfl (noMutex mu)
      | _ => exact ⟨rfl, rfl, rfl⟩
    | retry loop =>
      cases loop with
      | mutexLock mu => exact absurd rfl (noMutex mu)
      | mutexTimedLock mu timeout => exact absurd rfl (noMutex mu)
      | relock cv mu savedRet => exact absurd rfl (noMutex mu)
      | _ => exact ⟨rfl, rfl, rfl⟩
    | condWoken timed cv mu role => exact absurd rfl (noMutex mu)
    | _ => exact ⟨rfl, rfl, rfl⟩
  refine .nests quiet.1 (.same ?_ (turn_level.2 quiet.2.2))
  rw [mutex, relocks_elsewhere noMutex, quiet.2.1]

/-- `pthreadMutexLock`, from the condition of its loop on. -/
theorem depth_lock {mu : Nat} (bit : o.schedulingPolicy.testBit 0 = true)
    (whole : e.self.noCSWholeLocal = false)
    (isTurn : turn S o tid e stage = (Loop.mutexLock mu).enter o tid e)
    (noRelock : stage.relocks = none)
    (isNests : stage.nests e.shared.mutex tid =
      decide ((e.shared.mutex mu).owner = some tid → (e.shared.mutex mu).kind ≠ .recursive)) :
    DepthTurned S o tid e stage := by
  rcases @enter_mutex _ o tid e (.mutexLock mu) mu rfl with ⟨busy, mutex, self, how⟩ | ⟨m, got, entered⟩
  · refine .nests ?_ (.same ?_ ?_)
    · rw [isNests]
      refine decide_eq_true fun mine recursive => ?_
      unfold Mutex.trylock at busy
      rw [mine] at busy
      dsimp only at busy
      rw [if_pos ⟨recursive, rfl⟩] at busy
      cases busy
    · rw [isTurn, mutex, how, noRelock]
      rfl
    · rw [isTurn, self]
  · have sets : sections (turn S o tid e stage).1.shared.mutex tid (turn S o tid e stage).2.spot.relocks =
        insert mu (sections e.shared.mutex tid stage.relocks) := by
      rw [isTurn, entered, Loop.leave_shared, noRelock]
      exact sections_acquire (Mutex.owner_of_trylock got)
    have levels : (turn S o tid e stage).1.self.inCSLevel = e.self.inCSLevel + 1 := by
      rw [isTurn, entered]
      unfold Loop.leave
      dsimp only
      rw [if_pos ⟨bit, whole⟩]
    rcases Mutex.owner_before_trylock got with free | ⟨mine, recursive⟩
    · have fresh : mu ∉ sections e.shared.mutex tid stage.relocks := by
        rw [noRelock, mem_sections, free]
        nofun
      refine .nests ?_ (.entered mu fresh sets levels)
      rw [isNests, free]
      exact decide_eq_true nofun
    · have inside : mu ∈ sections e.shared.mutex tid stage.relocks := by
        rw [noRelock, mem_sections]
        exact mine
      refine .slips ?_ (.again (sets.trans (Set.insert_eq_of_mem inside)) levels) ?_
      · rw [isNests]
        exact decide_eq_false fun fine => fine mine recursive
      · rw [isTurn, entered]
        rfl

/-- The other acquisitions. -/
theorem depth_try {mu : Nat} {taken : Option Mutex} (isTaken : (e.shared.mutex mu).trylock tid = taken)
    (mutex : (turn S o tid e stage).1.shared.mutex =
      Function.update e.shared.mutex mu (taken.getD (e.shared.mutex mu)))
    (noRelock : stage.relocks = none) (after : (turn S o tid e stage).2.spot.relocks = none)
    (quiet : stage.counts = false) (returns : taken.isSome = true → (turn S o tid e stage).2.spot = .returning)
    (isNests : stage.nests e.shared.mutex tid = (e.shared.mutex mu).held) : DepthTurned S o tid e stage := by
  have levels := (@turn_level _ S o tid e stage).2 quiet
  rw [isTaken.symm] at mutex returns
  cases got : (e.shared.mutex mu).trylock tid with
  | none =>
    rw [got] at mutex
    refine .nests (isNests.trans (Mutex.held_of_trylock got)) (.same ?_ levels)
    rw [mutex, after, noRelock]
    exact sections_same rfl
  | some m =>
    rw [got] at mutex returns
    have sets : sections (turn S o tid e stage).1.shared.mutex tid (turn S o tid e stage).2.spot.relocks =
        insert mu (sections e.shared.mutex tid stage.relocks) := by
      rw [mutex, after, noRelock]
      exact sections_acquire (Mutex.owner_of_trylock got)
    rcases Mutex.owner_before_trylock got with free | ⟨mine, -⟩
    · have fresh : mu ∉ sections e.shared.mutex tid stage.relocks := by
        rw [noRelock, mem_sections, free]
        nofun
      refine .slips ?_ (.uncounted mu fresh sets levels) (returns rfl)
      rw [isNests]
      unfold Mutex.held
      rw [free]
      rfl
    · have inside : mu ∈ sections e.shared.mutex tid stage.relocks := by
        rw [noRelock, mem_sections]
        exact mine
      refine .nests ?_ (.same (sets.trans (Set.insert_eq_of_mem inside)) levels)
      rw [isNests]
      unfold Mutex.held
      rw [mine]
      rfl

/-- `pthreadMutexTimedLock`, from the condition of its loop on. -/
theorem depth_timed {mu timeout : Nat}
    (isTurn : turn S o tid e stage = (Loop.mutexTimedLock mu timeout).enter o tid e)
    (noRelock : stage.relocks = none) (quiet : stage.counts = false)
    (isNests : stage.nests e.shared.mutex tid = (e.shared.mutex mu).held) : DepthTurned S o tid e stage := by
  rcases @enter_mutex _ o tid e (.mutexTimedLock mu timeout) mu rfl with ⟨busy, mutex, -, how⟩ | ⟨m, got, entered⟩
  · refine depth_try busy ?_ noRelock ?_ quiet (fun no => nomatch no) isNests
    · rw [isTurn, mutex]
      exact (Function.update_eq_self mu e.shared.mutex).symm
    · rw [isTurn, how]
      rfl
  · refine depth_try got ?_ noRelock ?_ quiet (fun _ => ?_) isNests
    · rw [isTurn, entered]
      rfl
    · rw [isTurn, entered]
      rfl
    · rw [isTurn, entered]
      rfl

/-- The end of a wait on a condition variable. -/
theorem depth_relock {e' : Env σ} {cv mu savedRet : Nat}
    (isTurn : turn S o tid e stage = (Loop.relock cv mu savedRet).enter o tid e')
    (mutex : e'.shared.mutex = e.shared.mutex) (relocks : stage.relocks = some mu)
    (quiet : stage.counts = false) (isNests : stage.nests e.shared.mutex tid = true) :
    DepthTurned S o tid e stage := by
  refine .nests isNests (.same ?_ (turn_level.2 quiet))
  rcases @enter_mutex _ o tid e' (.relock cv mu savedRet) mu rfl with ⟨-, same, -, how⟩ | ⟨m, got, entered⟩
  · rw [isTurn, same, how, mutex, relocks]
    rfl
  · rw [isTurn, entered, relocks, ← mutex]
    exact sections_relock (Mutex.owner_of_trylock got)

/-- The beginning of a wait on a condition variable. -/
theorem depth_release {mu timeout : Nat} {chan : Option Chan} {next : Stage}
    (mine : (e.shared.mutex mu).owner = some tid) (object : stage.object = some (.mutex mu))
    (how : (turn S o tid e stage).2 = .wait chan timeout next) (relocks : next.relocks = some mu)
    (noRelock : stage.relocks = none) (quiet : stage.counts = false)
    (isNests : stage.nests e.shared.mutex tid = true) : DepthTurned S o tid e stage := by
  refine .nests isNests (.same ?_ (turn_level.2 quiet))
  rw [how, noRelock]
  show sections _ tid next.relocks = _
  rw [relocks]
  refine sections_release mine fun mu' other => turn_mutex ?_
  rw [object]
  exact fun isMu => other (Chan.mutex.inj (Option.some.inj isMu)).symm

/-- `pthreadMutexUnlock` of a mutex that the thread holds. -/
theorem depth_unlock {mu : Nat} (bit : o.schedulingPolicy.testBit 0 = true)
    (whole : e.self.noCSWholeLocal = false) (mine : (e.shared.mutex mu).owner = some tid) :
    DepthTurned S o tid e (.called (.mutexUnlock mu)) := by
  have inside : mu ∈ sections e.shared.mutex tid none := mem_sections.mpr mine
  have mutex : (turn S o tid e (.called (.mutexUnlock mu))).1.shared.mutex =
      Function.update e.shared.mutex mu ((e.shared.mutex mu).unlock tid).1 := rfl
  have levels : (turn S o tid e (.called (.mutexUnlock mu))).1.self.inCSLevel = e.self.inCSLevel - 1 := by
    show (mutexUnlock S o tid e mu).1.self.inCSLevel = _
    unfold mutexUnlock Env.signal
    dsimp only
    by_cases positive : 0 < e.self.inCSLevel
    · rw [if_pos ⟨bit, positive, whole⟩]
    · rw [if_neg fun all => positive all.2.1]
      omega
  by_cases once : (e.shared.mutex mu).kind = .normal ∨ (e.shared.mutex mu).count ≤ 1
  · have released : ((e.shared.mutex mu).unlock tid).1.owner = none := by
      rw [Mutex.owner_after_unlock mine, if_pos once]
    refine .nests (decide_eq_true once) (.left mu inside ?_ levels)
    rw [mutex]
    ext mu'
    show (Function.update e.shared.mutex mu _ mu').owner = some tid ∨ mu' ∈ none ↔
      ((e.shared.mutex mu').owner = some tid ∨ mu' ∈ none) ∧ mu' ≠ mu
    by_cases same : mu' = mu
    · rw [same, Function.update_self, released]
      exact iff_of_false (fun no => no.elim nofun nofun) fun no => no.2 rfl
    · rw [Function.update_of_ne same, and_iff_left same]
  · have kept : ((e.shared.mutex mu).unlock tid).1.owner = (e.shared.mutex mu).owner := by
      rw [Mutex.owner_after_unlock mine, if_neg once, mine]
    refine .slips (decide_eq_false once) (.kept mu inside ?_ levels) rfl
    rw [mutex]
    exact sections_same kept

/-- **What a turn does to the sections of its thread.** -/
theorem turn_depth (bit : o.schedulingPolicy.testBit 0 = true) (whole : e.self.noCSWholeLocal = false)
    (mine : ∀ mu ∈ stage.releases, (e.shared.mutex mu).owner = some tid)
    (free : ∀ mu ∈ stage.inits, (e.shared.mutex mu).owner = none)
    (goes : (turn S o tid e stage).2 ≠ .exit) : DepthTurned S o tid e stage := by
  cases stage with
  | called call =>
    cases call with
    | mutexInit mu kind =>
      refine .nests rfl (.same ?_ rfl)
      exact sections_same (free mu rfl).symm
    | mutexLock mu => exact depth_lock bit whole rfl rfl rfl
    | mutexTryLock mu =>
      have how : (turn S o tid e (.called (.mutexTryLock mu))).2.spot = .returning := by
        show (tryOnce e _).2.spot = _
        unfold tryOnce
        split <;> rfl
      refine depth_try rfl ?_ rfl ?_ rfl (fun _ => how) rfl
      · show (tryOnce e (((e.shared.mutex mu).trylock tid).map (e.shared.setMutex mu))).1.shared.mutex = _
        cases (e.shared.mutex mu).trylock tid with
        | none => exact (Function.update_eq_self mu e.shared.mutex).symm
        | some m => rfl
      · rw [how]
        rfl
    | mutexTimedLock mu cur abstime =>
      cases abstime with
      | none => exact depth_lock bit whole rfl rfl rfl
      | some abstime =>
        cases isDeadline : e.deadline S o (some (timeDiff cur abstime)) with
        | none =>
          refine absurd ?_ goes
          show (mutexTimedLock S o tid e mu cur (some abstime)).2 = .exit
          unfold mutexTimedLock
          dsimp only
          rw [isDeadline]
        | some timeout =>
          have isTurn : turn S o tid e (.called (.mutexTimedLock mu cur (some abstime))) =
              (Loop.mutexTimedLock mu timeout).enter o tid e := by
            show mutexTimedLock S o tid e mu cur (some abstime) = _
            unfold mutexTimedLock
            dsimp only
            rw [isDeadline]
          exact depth_timed isTurn rfl rfl rfl
    | mutexUnlock mu => exact depth_unlock bit whole (mine mu rfl)
    | condWait cv mu caller => exact depth_release (mine mu rfl) rfl rfl rfl rfl rfl rfl
    | condTimedWait cv mu caller cur abstime =>
      cases abstime with
      | none => exact depth_release (mine mu rfl) rfl rfl rfl rfl rfl rfl
      | some abstime =>
        obtain ⟨timeout, waits, -⟩ := condTimedWait_shared goes
        exact depth_release (mine mu rfl) rfl waits rfl rfl rfl rfl
    | _ => exact depth_elsewhere nofun
  | retry loop =>
    have resumed : turn S o tid e (.retry loop) = loop.enter o tid e := Loop.resume_eq_enter e loop
    cases loop with
    | mutexLock mu => exact depth_lock bit whole resumed rfl rfl
    | mutexTimedLock mu timeout => exact depth_timed resumed rfl rfl rfl
    | relock cv mu savedRet => exact depth_relock resumed rfl rfl rfl rfl
    | _ => exact depth_elsewhere nofun
  | condWoken timed cv mu role =>
    cases timed with
    | false => exact @depth_relock _ S o tid e _ e cv mu 0 rfl rfl rfl rfl rfl
    | true =>
      refine @depth_relock _ S o tid e _ _ cv mu (e.wakeRet S tid) rfl ?_ rfl rfl rfl
      split
      · unfold condTimedOut
        dsimp only
        split
        · exact funext fun mu' => Object.mutex.inj (@object_noteUnblocked _ (.mutex mu') cv role)
        · rfl
      · rfl
  | _ => exact depth_elsewhere nofun

theorem noteWait_mutex {sh : Shared} {cv mu : Nat} {role : AddrNRole} :
    (noteWait o sh cv role).mutex mu = sh.mutex mu :=
  Object.mutex.inj (@object_noteWait sh (.mutex mu) o cv role)

/-- The owner of a mutex before and after a turn that may write it: nobody or the turn's thread. -/
def OwnerTurned (tid : Tid) (before after : Option Tid) : Prop :=
  after = before ∨ (before = none ∨ before = some tid) ∧ (after = none ∨ after = some tid)

theorem enter_owner {loop : Loop} {mu : Nat} (isMutex : loop.chan = .mutex mu) :
    OwnerTurned tid (e.shared.mutex mu).owner ((loop.enter o tid e).1.shared.mutex mu).owner := by
  rcases @enter_mutex _ o tid e loop mu isMutex with ⟨-, mutex, -, -⟩ | ⟨m, got, entered⟩
  · exact Or.inl (by rw [mutex])
  · refine Or.inr ⟨(Mutex.owner_before_trylock got).imp_right And.left, Or.inr ?_⟩
    rw [entered, Loop.leave_shared]
    exact (congrArg Mutex.owner (Function.update_self mu m e.shared.mutex)).trans (Mutex.owner_of_trylock got)

theorem unlock_owner {m m' : Mutex} (mine : m.owner = some tid) (released : m' = (m.unlock tid).1) :
    OwnerTurned tid m.owner m'.owner := by
  refine Or.inr ⟨Or.inr mine, ?_⟩
  rw [released, Mutex.owner_after_unlock mine]
  split
  · exact Or.inl rfl
  · exact Or.inr rfl

/-- **No turn takes a mutex from another thread, or gives it one.** -/
theorem turn_owner (mine : ∀ mu ∈ stage.releases, (e.shared.mutex mu).owner = some tid)
    (free : ∀ mu ∈ stage.inits, (e.shared.mutex mu).owner = none)
    (goes : (turn S o tid e stage).2 ≠ .exit) (mu : Nat) :
    OwnerTurned tid (e.shared.mutex mu).owner ((turn S o tid e stage).1.shared.mutex mu).owner := by
  by_cases object : stage.object = some (.mutex mu)
  · cases stage with
    | called call =>
      cases call with
      | mutexInit mu' kind =>
        cases object
        refine Or.inl ((congrArg Mutex.owner (Function.update_self mu _ e.shared.mutex)).trans ?_)
        exact (free mu rfl).symm
      | mutexLock mu' =>
        cases object
        exact enter_owner rfl
      | mutexTryLock mu' =>
        cases object
        show OwnerTurned tid _ ((tryOnce e (((e.shared.mutex mu).trylock tid).map
          (e.shared.setMutex mu))).1.shared.mutex mu).owner
        cases got : (e.shared.mutex mu).trylock tid with
        | none => exact Or.inl rfl
        | some m =>
          refine Or.inr ⟨(Mutex.owner_before_trylock got).imp_right And.left, Or.inr ?_⟩
          exact (congrArg Mutex.owner (Function.update_self mu m e.shared.mutex)).trans
            (Mutex.owner_of_trylock got)
      | mutexTimedLock mu' cur abstime =>
        cases object
        show OwnerTurned tid _ ((mutexTimedLock S o tid e mu cur abstime).1.shared.mutex mu).owner
        unfold mutexTimedLock
        split
        · exact enter_owner rfl
        · split
          · exact enter_owner rfl
          · exact Or.inl rfl
      | mutexUnlock mu' =>
        cases object
        exact unlock_owner (mine mu rfl) (Function.update_self mu _ e.shared.mutex)
      | condWait cv mu' caller =>
        cases object
        refine unlock_owner (mine mu rfl) ((Function.update_self mu _ _).trans ?_)
        rw [noteWait_mutex]
        rfl
      | condTimedWait cv mu' caller cur abstime =>
        cases object
        cases abstime with
        | none =>
          refine unlock_owner (mine mu rfl) ((Function.update_self mu _ _).trans ?_)
          rw [noteWait_mutex]
          rfl
        | some abstime =>
          obtain ⟨timeout, -, shared⟩ := condTimedWait_shared goes
          refine unlock_owner (mine mu rfl) ?_
          rw [shared, noteWait_mutex]
          exact Function.update_self mu _ _
      | _ => cases object
    | retry loop =>
      have resumed : turn S o tid e (.retry loop) = loop.enter o tid e := Loop.resume_eq_enter e loop
      rw [resumed]
      exact enter_owner (Option.some.inj object)
    | condWoken timed cv mu' role =>
      cases object
      have mutex : (if e.wakeRet S tid = WakeReason.timedout.toInt then condTimedOut o e cv role
          else e).shared.mutex mu = e.shared.mutex mu := by
        split
        · unfold condTimedOut
          dsimp only
          split
          · exact Object.mutex.inj (@object_noteUnblocked _ (.mutex mu) cv role)
          · rfl
        · rfl
      show OwnerTurned tid _ ((condWoken S o tid e timed cv mu role).1.shared.mutex mu).owner
      unfold condWoken
      split
      · dsimp only
        rw [← mutex]
        exact enter_owner rfl
      · exact enter_owner rfl
    | _ => cases object
  · exact Or.inl (by rw [turn_mutex object])

end Turns

theorem afterPutTurn_level {o : Options} {sh : Shared} {l : Local} :
    (afterPutTurn o sh l).noCSWholeLocal = l.noCSWholeLocal ∧
      (afterPutTurn o sh l).inCSLevel = l.inCSLevel := by
  unfold afterPutTurn checkCvWaitCnt
  dsimp only
  repeat' split
  all_goals exact ⟨rfl, rfl⟩

namespace Recorder

/-- The mutexes that a thread holds. -/
def held (r : Recorder) (t : Tid) : Set Nat := {mu | (r.shared.mutex mu).owner = some t}

/-- **The level of every thread that is not inside a wrapper is the number of mutexes it holds.** -/
def DepthExact (r : Recorder) : Prop :=
  ∀ t, r.spot t = .outside ∨ r.spot t = .returning → (r.held t).encard = ((r.locals t).inCSLevel : ENat)

/-- **The turn unlocks only mutexes that its thread holds**, and initializes only mutexes that are free. -/
def OwnMutexes (r : Recorder) (label : Tid × Move) : Prop :=
  ∀ stage ∈ r.stageOf label.1 label.2,
    (∀ mu ∈ stage.releases, (r.shared.mutex mu).owner = some label.1) ∧
      ∀ mu ∈ stage.inits, (r.shared.mutex mu).owner = none

instance (r : Recorder) (label : Tid × Move) : Decidable (OwnMutexes r label) :=
  inferInstanceAs (Decidable (∀ _ ∈ _, (∀ _ ∈ _, _) ∧ ∀ _ ∈ _, _))

/-- **The turn keeps the level and the mutexes of its thread in step.** -/
def Nests (r : Recorder) (label : Tid × Move) : Prop :=
  ∀ stage ∈ r.stageOf label.1 label.2, stage.nests r.shared.mutex label.1 = true

instance (r : Recorder) (label : Tid × Move) : Decidable (Nests r label) :=
  inferInstanceAs (Decidable (∀ _ ∈ _, _))

/-- What holds as long as all turns nest. -/
structure Nested (r : Recorder) : Prop where
  sound : Sound r.core r.spot
  whole : ∀ t, (r.locals t).noCSWholeLocal = false
  depth : ∀ t, (sections r.shared.mutex t (r.spot t).relocks).encard = ((r.locals t).inCSLevel : ENat)

variable {o : Options} {r r' : Recorder} {tid : Tid} {stage : Stage}

theorem sections_eq_held {t : Tid} (done : r.spot t = .outside ∨ r.spot t = .returning) :
    sections r.shared.mutex t (r.spot t).relocks = r.held t := by
  have none : (r.spot t).relocks = none := by
    rcases done with outside | returning
    · rw [outside]
      rfl
    · rw [returning]
      rfl
  rw [none]
  exact Set.ext fun mu => mem_sections

theorem Nested.exact (nested : Nested r) : DepthExact r := by
  intro t done
  rw [← sections_eq_held done]
  exact nested.depth t

theorem took_spot (took : Took o r tid stage r') : r'.spot tid = (r.turnOf o tid stage).2.spot := by
  obtain ⟨c, -, -, givenUp⟩ := took.turned
  generalize r'.core = core at givenUp
  generalize r'.spot tid = spot at givenUp
  generalize (r.turnOf o tid stage).2 = finish at givenUp
  cases givenUp <;> rfl

theorem relocks_of_stageOf {move : Move} (isStage : r.stageOf tid move = some stage) :
    (r.spot tid).relocks = stage.relocks := by
  cases move with
  | call call =>
    simp only [stageOf] at isStage
    split at isStage
    · rename_i outside
      rw [outside, ← Option.some.inj isStage]
      rfl
    · cases isStage
  | resume =>
    simp only [stageOf] at isStage
    split at isStage
    · rename_i stage' inside
      rw [inside, Option.some.inj isStage]
      rfl
    · cases isStage
  | _ => cases isStage

/-- Another thread's sections stay as they are. -/
theorem sections_other {t : Tid} (other : t ≠ tid) {relocks : Option Nat} {mutex mutex' : Nat → Mutex}
    (owners : ∀ mu, OwnerTurned tid (mutex mu).owner (mutex' mu).owner) :
    sections mutex' t relocks = sections mutex t relocks := by
  ext mu
  refine or_congr_left ?_
  rcases owners mu with same | ⟨before, after⟩
  · rw [same]
  · refine iff_of_false (fun isT => ?_) fun isT => ?_
    · rcases after with free | mine
      · rw [free] at isT
        cases isT
      · rw [mine] at isT
        exact other (Option.some.inj isT).symm
    · rcases before with free | mine
      · rw [free] at isT
        cases isT
      · rw [mine] at isT
        exact other (Option.some.inj isT).symm

/-- What a turn does to the sections, as the process sees it. -/
theorem depth_took {move : Move} (bit : o.schedulingPolicy.testBit 0 = true) (nested : Nested r)
    (own : OwnMutexes r (tid, move)) (isStage : r.stageOf tid move = some stage)
    (took : Took o r tid stage r') :
    (stage.nests r.shared.mutex tid = true → Nested r') ∧
      (DepthExact r' → stage.nests r.shared.mutex tid = true) := by
  obtain ⟨mine, free⟩ := own stage isStage
  have turned : DepthTurned (Core.serializer o.wakeamapPlus) o tid (r.env tid) stage :=
    turn_depth bit (nested.whole tid) mine free took.goes
  obtain ⟨yieldThis, locals⟩ := took_locals took
  have level : (r'.locals tid).inCSLevel = (r.turnOf o tid stage).1.self.inCSLevel := by rw [locals]
  have before : (sections r.shared.mutex tid stage.relocks).encard = ((r.locals tid).inCSLevel : ENat) := by
    rw [← relocks_of_stageOf isStage]
    exact nested.depth tid
  have after : sections r'.shared.mutex tid (r'.spot tid).relocks =
      sections (r.turnOf o tid stage).1.shared.mutex tid (r.turnOf o tid stage).2.spot.relocks := by
    rw [took.shared, took_spot took]
  cases turned with
  | nests fine deepens =>
    refine ⟨fun _ => ⟨nested.sound.took took, fun t => ?_, fun t => ?_⟩, fun _ => fine⟩
    · by_cases same : t = tid
      · rw [same, locals]
        exact turn_level.1.trans (nested.whole tid)
      · rw [took.locals t same]
        exact nested.whole t
    · by_cases same : t = tid
      · rw [same, after, level]
        exact deepens.encard before
      · have owners : ∀ mu, OwnerTurned tid (r.shared.mutex mu).owner (r'.shared.mutex mu).owner := by
          rw [took.shared]
          exact turn_owner mine free took.goes
        rw [took.spots t same, took.locals t same, sections_other same owners]
        exact nested.depth t
  | slips wrong slips returns =>
    refine ⟨fun fine => ?_, fun exactly => ?_⟩
    · rw [show stage.nests r.shared.mutex tid = false from wrong] at fine
      cases fine
    · have done : r'.spot tid = .returning := (took_spot took).trans returns
      have held := exactly tid (Or.inr done)
      rw [← sections_eq_held (Or.inr done), after, level] at held
      exact absurd held (slips.encard before)

theorem Nested.congr (nested : Nested r) (sound : Sound r'.core r'.spot)
    (mutex : r'.shared.mutex = r.shared.mutex)
    (levels : ∀ t, (r'.locals t).noCSWholeLocal = (r.locals t).noCSWholeLocal ∧
      (r'.locals t).inCSLevel = (r.locals t).inCSLevel)
    (relocks : ∀ t, (r'.spot t).relocks = (r.spot t).relocks) : Nested r' := by
  refine ⟨sound, fun t => (levels t).1.trans (nested.whole t), fun t => ?_⟩
  rw [mutex, relocks, (levels t).2]
  exact nested.depth t

/-- **A step keeps the level exact exactly when its turn nests.** -/
theorem depth_step {label : Tid × Move} (bit : o.schedulingPolicy.testBit 0 = true) (nested : Nested r)
    (own : OwnMutexes r label) (stepped : r.step o label = some r') :
    (Nests r label → Nested r') ∧ (DepthExact r' → Nests r label) := by
  obtain ⟨tid, move⟩ := label
  have nodup := nested.sound.nodup
  have sound := sound_step nested.sound stepped
  rcases step_cases nodup stepped with ⟨stage, isStage, took⟩ | ⟨rfl, returning, rfl⟩ |
    ⟨rfl, -, -, rfl⟩ | ⟨rfl, -, rfl⟩
  · obtain ⟨keeps, only⟩ := depth_took bit nested own isStage took
    refine ⟨fun fine => keeps (fine stage isStage), fun exactly stage' isStage' => ?_⟩
    rw [Option.mem_def, isStage] at isStage'
    exact Option.some.inj isStage' ▸ only exactly
  · refine ⟨fun _ => nested.congr sound rfl (fun t => ?_) fun t => ?_, fun _ stage isStage => (nomatch isStage)⟩
    · show (Function.update r.locals tid _ t).noCSWholeLocal = _ ∧ (Function.update r.locals tid _ t).inCSLevel = _
      by_cases same : t = tid
      · rw [same, Function.update_self]
        exact afterPutTurn_level
      · rw [Function.update_of_ne same]
        exact ⟨rfl, rfl⟩
    · show (Function.update r.spot tid .outside t).relocks = _
      by_cases same : t = tid
      · rw [same, Function.update_self, returning]
        rfl
      · rw [Function.update_of_ne same]
  · exact ⟨fun _ => ⟨sound, nested.whole, nested.depth⟩, fun _ stage isStage => (nomatch isStage)⟩
  · exact ⟨fun _ => ⟨sound, nested.whole, nested.depth⟩, fun _ stage isStage => (nomatch isStage)⟩

/-- A thread that goes on for nothing else keeps the turn exactly while its level is positive. -/
theorem strategy_of_level {l : Local} (isCreate : Bool) (whole : l.noCSWholeLocal = false)
    (yields : l.yieldThis = false) (slock : l.slockNTurns ≤ 0) (noCV : l.satisfyingCV = none)
    (noSem : l.satisfyingSem = none) (noRole : l.satisfyingRole = none) :
    (getPutTurnStrategy o l isCreate).2 = .currentThread ↔ 0 < l.inCSLevel := by
  have notLocked : ¬ 0 < l.slockNTurns := by omega
  unfold getPutTurnStrategy
  rw [yields, noCV, noSem, noRole, whole]
  by_cases positive : 0 < l.inCSLevel
  · simp [notLocked, positive]
  · simp [notLocked, positive]

/-- **The level of a critical section is exact throughout a run exactly when all its turns nest**, for runs
in which threads unlock only mutexes they hold; and then a thread that goes on for nothing else keeps the
turn exactly while it holds a mutex. -/
theorem depth_iff (o : Options) (bit : o.schedulingPolicy.testBit 0 = true) (mainTh : PthreadT)
    (shared : Shared) (free : ∀ mu, (shared.mutex mu).owner = none) (labels : List (Tid × Move))
    (r : Recorder) (ran : exec (step o) (init o mainTh shared) labels = some r)
    (own : Along (step o) OwnMutexes (init o mainTh shared) labels) :
    (Throughout (step o) DepthExact (init o mainTh shared) labels ↔
      Along (step o) Nests (init o mainTh shared) labels) ∧
    (Along (step o) Nests (init o mainTh shared) labels → ∀ t isCreate,
      r.spot t = .outside ∨ r.spot t = .returning → (r.locals t).yieldThis = false →
      (r.locals t).slockNTurns ≤ 0 → (r.locals t).satisfyingCV = none →
      (r.locals t).satisfyingSem = none → (r.locals t).satisfyingRole = none →
      ((getPutTurnStrategy o (r.locals t) isCreate).2 = .currentThread ↔ (r.held t).Nonempty)) := by
  have starts : Nested (init o mainTh shared) := by
    refine ⟨sound_run (exec_nil _), fun t => rfl, fun t => ?_⟩
    have nothing : sections shared.mutex t none = ∅ := by
      refine Set.eq_empty_of_forall_notMem fun mu here => ?_
      rw [mem_sections, free mu] at here
      cases here
    show (sections shared.mutex t none).encard = _
    rw [nothing]
    exact Set.encard_empty
  have exactly : Throughout (step o) DepthExact (init o mainTh shared) labels ↔
      Along (step o) Nests (init o mainTh shared) labels := by
    refine throughout_iff_along_given Nested (fun s nested => nested.exact)
      (fun s label next nested own fine stepped => (depth_step bit nested own stepped).1 fine) ?_ starts own ran
    intro s label next nested own stepped
    exact ⟨(depth_step bit nested own stepped).2, fun fine => ((depth_step bit nested own stepped).1 fine).exact⟩
  refine ⟨exactly, fun nests t isCreate done yields slock noCV noSem noRole => ?_⟩
  have nested : Nested r := exec_invariant Nested
    (fun s label next nested fine stepped => (depth_step bit nested fine.1 stepped).1 fine.2) starts
    (own.and nests) ran
  rw [strategy_of_level isCreate (nested.whole t) yields slock noCV noSem noRole,
    ← Set.encard_pos, nested.exact t done]
  exact_mod_cast Iff.rfl

/-- Thread `2` locks the mutexes `1` and `2`, waits on a condition variable with the second, and is
signalled. -/
def twoSections : List (Tid × Move) :=
  quick 0 (.createIdle 101) ++ quick 0 (.create 102 3 0) ++ quick 2 (.mutexLock 1) ++ quick 2 (.mutexLock 2) ++
  [(2, .call (.condWait 9 2 0))] ++ quick 0 (.condSignal 9) ++ [(2, .resume), (2, .finish)]

/-- It is back in both sections. -/
theorem depth_iff_twoSections :
    ∃ r, exec (step { schedulingPolicy := 1 }) (init { schedulingPolicy := 1 } 100 {}) twoSections = some r ∧
      (r.locals 2).inCSLevel = 2 ∧ (r.held 2).encard = 2 ∧
      Throughout (step { schedulingPolicy := 1 }) DepthExact (init { schedulingPolicy := 1 } 100 {})
        twoSections := by
  have found : (exec (step { schedulingPolicy := 1 }) (init { schedulingPolicy := 1 } 100 {})
      twoSections).any (fun r => decide ((r.locals 2).inCSLevel = 2 ∧ r.spot 2 = .outside)) = true := by
    decide +kernel
  have own : Along (step { schedulingPolicy := 1 }) OwnMutexes (init { schedulingPolicy := 1 } 100 {})
      twoSections := by
    decide +kernel
  have nests : Along (step { schedulingPolicy := 1 }) Nests (init { schedulingPolicy := 1 } 100 {})
      twoSections := by
    decide +kernel
  obtain ⟨r, ran, here⟩ := exec_of_any found
  obtain ⟨level, outside⟩ := of_decide_eq_true here
  have done := depth_iff { schedulingPolicy := 1 } (by decide) 100 {} (fun _ => rfl) twoSections r ran own
  have exactly := done.1.mpr nests
  refine ⟨r, ran, level, ?_, exactly⟩
  rw [exactly.final ran 2 (Or.inl outside), level]
  rfl

/-- **A try that succeeds is not counted**: the thread holds a mutex, and its level is zero. -/
theorem trylock_is_not_counted :
    Along (step { schedulingPolicy := 1 }) OwnMutexes (init { schedulingPolicy := 1 } 100 {})
      (quick 0 (.mutexTryLock 1)) ∧
    ∃ r, exec (step { schedulingPolicy := 1 }) (init { schedulingPolicy := 1 } 100 {})
        (quick 0 (.mutexTryLock 1)) = some r ∧
      1 ∈ r.held 0 ∧ (r.locals 0).inCSLevel = 0 ∧ ¬ DepthExact r := by
  have found : (exec (step { schedulingPolicy := 1 }) (init { schedulingPolicy := 1 } 100 {})
      (quick 0 (.mutexTryLock 1))).any (fun r => decide ((r.shared.mutex 1).owner = some 0 ∧
        (r.locals 0).inCSLevel = 0 ∧ r.spot 0 = .outside)) = true := by
    decide +kernel
  obtain ⟨r, ran, here⟩ := exec_of_any found
  obtain ⟨holds, level, outside⟩ := of_decide_eq_true here
  refine ⟨by decide +kernel, r, ran, holds, level, fun exactly => ?_⟩
  have count := exactly 0 (Or.inl outside)
  rw [level] at count
  have nothing : r.held 0 = ∅ := Set.encard_eq_zero.mp count
  have inside : 1 ∈ r.held 0 := holds
  rw [nothing] at inside
  exact inside

end Recorder

end MinSmt
