/-
**Thread ids** (`TidMap` in `include/tern/runtime/scheduler.h`).

`TidMap` gives every pthread handle an internal tid, keeps the map in both directions, and remembers
in `zombies` the handles of threads that have ended and have not been joined. With `wakeamap_plus` it
also gives every thread a role, one role id per thread function.

The build defines `NDEBUG`, so the assertions of `create`, `self`, `zombify` and `changeRole` are not
in the code: `create` overwrites an entry it finds, and `changeRole` on a handle that is not in
`p_t_map` inserts the handle with tid `0`, as `operator[]` does.

`hash maps` are functions into `Option`; nothing here iterates over one.
-/

import MinSmt.Scheduler.RunQueue

namespace MinSmt

/-- `pthread_t`. -/
abbrev PthreadT := Nat

/-- A thread function, `void *(*)(void*)`; `0` is `NULL`, the role of the main thread. -/
abbrev ThreadFunc := Nat

/-- `TidMap::MainThreadTid`. -/
def mainThreadTid : Tid := 0

/-- `TidMap::IdleThreadTid`. -/
def idleThreadTid : Tid := 1

/-- `TidMap`. -/
structure TidMap where
  pToT : PthreadT → Option Tid := fun _ => none
  tToP : Tid → Option PthreadT := fun _ => none
  zombies : PthreadT → Bool := fun _ => false
  nthread : Nat := 0
  fToR : ThreadFunc → Option Nat := fun _ => none
  rToF : Nat → Option ThreadFunc := fun _ => none
  nrole : Nat := 0
  tToR : Tid → Option Nat := fun _ => none

namespace TidMap

/-- Give the thread the role of its function, a new one when the function has none yet. -/
def assignRole (m : TidMap) (tid : Tid) (roleFunc : ThreadFunc) : TidMap :=
  match m.fToR roleFunc with
  | none =>
    { m with
      fToR := Function.update m.fToR roleFunc (some m.nrole)
      rToF := Function.update m.rToF m.nrole (some roleFunc)
      tToR := Function.update m.tToR tid (some m.nrole)
      nrole := m.nrole + 1 }
  | some role => { m with tToR := Function.update m.tToR tid (some role) }

/-- `TidMap::create`; the new tid is the old `nthread`. -/
def create (wakeamapPlus : Bool) (m : TidMap) (th : PthreadT) (roleFunc : ThreadFunc) : TidMap :=
  let m' : TidMap :=
    { m with
      pToT := Function.update m.pToT th (some m.nthread)
      tToP := Function.update m.tToP m.nthread (some th) }
  let m'' := if wakeamapPlus then m'.assignRole m.nthread roleFunc else m'
  { m'' with nthread := m.nthread + 1 }

/-- `TidMap::changeRole`. -/
def changeRole (m : TidMap) (th : PthreadT) (roleFunc : ThreadFunc) : TidMap :=
  match m.pToT th with
  | some tid => m.assignRole tid roleFunc
  | none => { m with pToT := Function.update m.pToT th (some 0) }.assignRole 0 roleFunc

/-- `TidMap::zombify`, called by the thread whose internal tid is `self`. -/
def zombify (m : TidMap) (self : Tid) : TidMap :=
  match m.tToP self with
  | some th =>
    { m with
      zombies := Function.update m.zombies th true
      pToT := Function.update m.pToT th none
      tToP := Function.update m.tToP self none }
  | none => m

/-- `TidMap::reap`. -/
def reap (m : TidMap) (th : PthreadT) : TidMap :=
  { m with zombies := Function.update m.zombies th false }

/-- `TidMap::zombie`. -/
def zombie (m : TidMap) (th : PthreadT) : Bool := m.zombies th

/-- `TidMap::getTid`; `none` is `InvalidTid`. -/
def getTid (m : TidMap) (th : PthreadT) : Option Tid := m.pToT th

/-- `TidMap::init` on empty maps. -/
def init (wakeamapPlus : Bool) (mainTh : PthreadT) : TidMap :=
  create wakeamapPlus {} mainTh 0

/-- `TidMap::reset` clears the maps and calls `init`; what is left of the old map is nothing. -/
def reset (wakeamapPlus : Bool) (_ : TidMap) (mainTh : PthreadT) : TidMap :=
  init wakeamapPlus mainTh

section Frames

variable (wakeamapPlus : Bool) (m : TidMap) (th : PthreadT) (roleFunc : ThreadFunc) (tid : Tid)

@[simp] theorem assignRole_tToP : (m.assignRole tid roleFunc).tToP = m.tToP := by
  unfold assignRole
  cases m.fToR roleFunc <;> rfl

@[simp] theorem assignRole_pToT : (m.assignRole tid roleFunc).pToT = m.pToT := by
  unfold assignRole
  cases m.fToR roleFunc <;> rfl

@[simp] theorem assignRole_nthread : (m.assignRole tid roleFunc).nthread = m.nthread := by
  unfold assignRole
  cases m.fToR roleFunc <;> rfl

@[simp] theorem assignRole_zombies : (m.assignRole tid roleFunc).zombies = m.zombies := by
  unfold assignRole
  cases m.fToR roleFunc <;> rfl

@[simp] theorem create_tToP :
    (m.create wakeamapPlus th roleFunc).tToP = Function.update m.tToP m.nthread (some th) := by
  cases wakeamapPlus <;> simp [create]

@[simp] theorem create_pToT :
    (m.create wakeamapPlus th roleFunc).pToT = Function.update m.pToT th (some m.nthread) := by
  cases wakeamapPlus <;> simp [create]

@[simp] theorem create_nthread : (m.create wakeamapPlus th roleFunc).nthread = m.nthread + 1 := rfl

@[simp] theorem create_zombies : (m.create wakeamapPlus th roleFunc).zombies = m.zombies := by
  cases wakeamapPlus <;> simp [create]

@[simp] theorem changeRole_tToP : (m.changeRole th roleFunc).tToP = m.tToP := by
  unfold changeRole
  cases m.pToT th <;> simp

@[simp] theorem changeRole_nthread : (m.changeRole th roleFunc).nthread = m.nthread := by
  unfold changeRole
  cases m.pToT th <;> simp

@[simp] theorem zombify_nthread : (m.zombify tid).nthread = m.nthread := by
  unfold zombify
  cases m.tToP tid <;> rfl

/-- Ending a thread removes its tid from `t_p_map` and no other. -/
theorem zombify_tToP : (m.zombify tid).tToP = Function.update m.tToP tid none := by
  unfold zombify
  cases known : m.tToP tid with
  | some th => rfl
  | none =>
    funext t
    by_cases same : t = tid
    · subst same
      simp [known]
    · simp [same]

/-- At the start the main thread is the only one. -/
theorem init_live (t : Tid) : ((init wakeamapPlus th).tToP t).isSome = true ↔ t = mainThreadTid := by
  rw [init, create_tToP]
  by_cases same : t = mainThreadTid
  · rw [same]
    simp [mainThreadTid]
  · rw [Function.update_of_ne (show t ≠ ({} : TidMap).nthread from same)]
    simp [same]

end Frames

end TidMap

end MinSmt
