import Mathlib.Data.Fintype.Basic
import TxLock.Native.CondCounters

/-!
# The condition variable and the futex

The system of `Native/CondCounters` with the calls of the kernel that its sections lead to:
the sleep on `cond->__data.__futex` and the wakeups of it. A waiter sleeps only if the futex
still has the value that it has read. `__pthread_cond_signal` wakes one thread with the call
that releases the internal lock, and another one later if that call has woken a thread. If the
call fails, it wakes one thread before it releases the lock. `__pthread_cond_broadcast` wakes
everybody after it has released the lock.

The kernel chooses the thread that it wakes, and may end a sleep at any time: the deadline has
passed, or a signal has come. A call `FUTEX_WAKE` does not fail. The internal lock is taken to
exclude, and the second release of it after a call that has woken a thread to do nothing.
-/

namespace TxLock.Native

/-- The system call a thread is in. -/
inductive FutexPc where
  | out
  /-- About to make the call `FUTEX_WAIT`. -/
  | futexWait
  | blocked
  /-- The call has returned. -/
  | returned
  /-- `lll_futex_wake` with one thread, in `__pthread_cond_signal`. -/
  | wakeMore
  /-- The same after `lll_futex_wake_unlock` has failed, with the internal lock. -/
  | wakeLocked
  /-- The label `wake_all` of `__pthread_cond_broadcast`. -/
  | wakeAll
  deriving DecidableEq, Repr

/-- The condition variable, the threads and the kernel. -/
structure CondFutex (Tid : Type) where
  cond : CondSys Tid
  futexPc : Tid → FutexPc
  /-- History: how often `total_seq` and `wakeup_seq`, whose sum the futex is, have grown since
      the thread has read the futex last. -/
  changes : Tid → Nat

/-- How the call `FUTEX_WAKE_OP` ends. -/
inductive WakeOpAnswer (Tid : Type) where
  /-- It has released the internal lock and woken the thread `woken`, and with `lockWoken` a
      thread that waits for the lock. -/
  | done (woken : Option Tid) (lockWoken : Bool)
  /-- It has failed (-1). -/
  | failed
  deriving DecidableEq, Repr

/-- What happens next. -/
inductive CondFutexAct (Tid : Type) where
  /-- Thread `t` does a section. The system call of a signal ends with `answer`. -/
  | call (t : Tid) (x : CondSection) (answer : WakeOpAnswer Tid)
  | sleep (t : Tid)
  | enterHtm (t : Tid)
  | lockHtm (t : Tid)
  | abort (t : Tid)
  /-- The kernel compares the futex, and the thread is blocked or returns. -/
  | futexWait (t : Tid)
  /-- The deadline has passed, or the sleep is interrupted. -/
  | futexReturn (t : Tid)
  /-- The call that thread `t` has left to make, which wakes `woken` or everybody. -/
  | futexWake (t : Tid) (woken : Option Tid)
  deriving DecidableEq, Repr

namespace CondFutex

variable {Tid : Type} [DecidableEq Tid]

/-- Signals and broadcasts have a waiter to wake. -/
def marks (d : CondData) : Bool := d.totalSeq > d.wakeupSeq

/-- The sum of the counters. -/
def seqs (d : CondData) : Nat := d.totalSeq.toNat + d.wakeupSeq.toNat

/-- Where a thread goes on after a section. -/
def entering : CondPhase → FutexPc
  | .waiting w => if w.asleep then .futexWait else .out
  | .out => .out

/-- `changes` after a step that thread `t` takes to the data `d'`; with `reads` it reads the
    futex. -/
def changesAfter (s : CondFutex Tid) (d' : CondData) (t : Tid) (reads : Bool) : Tid → Nat := fun u =>
  if u = t ∧ reads then 0 else s.changes u + (seqs d' - seqs s.cond.data)

/-- `FUTEX_WAKE` with one thread: the kernel wakes `woken`, and nobody only if nobody is
    blocked. -/
def wakeOne [Fintype Tid] (pc : Tid → FutexPc) (woken : Option Tid) : Option (Tid → FutexPc) :=
  match woken with
  | some u => if pc u = .blocked then some (Function.update pc u .returned) else none
  | none => if ∃ u, pc u = .blocked then none else some pc

/-- `FUTEX_WAKE` with `INT_MAX` threads. -/
def wakeEverybody (pc : Tid → FutexPc) : Tid → FutexPc := fun u =>
  if pc u = .blocked then .returned else pc u

/-- The calls that a section outside transactions makes or leads to; `d` is the data before
    and `ph` the phase after it. -/
def afterSection [Fintype Tid] (pc : Tid → FutexPc) (t : Tid) (x : CondSection) (d : CondData)
    (ph : CondPhase) (answer : WakeOpAnswer Tid) : Option (Tid → FutexPc) :=
  match x with
  | .signal =>
    if marks d then
      match answer with
      -- the answer is the number of threads woken, and only 0 is taken for success
      | .done woken lockWoken =>
        (wakeOne pc woken).map fun pc =>
          Function.update pc t (if woken.isSome || lockWoken then .wakeMore else .out)
      | .failed => some (Function.update pc t .wakeLocked)
    else some pc
  | .broadcast => some (Function.update pc t (if marks d then .wakeAll else .out))
  | .wait .. | .timedwait .. | .wake .. => some (Function.update pc t (entering ph))

/-- Where a thread that does the section is. -/
def entry : CondSection → FutexPc
  | .wake .. => .returned
  | .wait .. | .timedwait .. | .signal | .broadcast => .out

/-- No thread has the internal lock between two steps. -/
def LockFree (s : CondFutex Tid) : Prop := ∀ u, s.futexPc u ≠ .wakeLocked

instance [Fintype Tid] (s : CondFutex Tid) : Decidable s.LockFree :=
  inferInstanceAs (Decidable (∀ u, s.futexPc u ≠ .wakeLocked))

/-- Thread `t` is waiting after the section, which has read the futex. -/
def reads (ph : CondPhase) : Bool :=
  match ph with
  | .waiting _ => true
  | .out => false

/-- A step outside the internal lock. A sleep leads to the call of the futex. -/
def outside (cfg : TxConfig) (s : CondFutex Tid) (t : Tid) (a : CondSysAct Tid) :
    Option (CondFutex Tid) :=
  if s.futexPc t = .out then
    (s.cond.step cfg a).map fun c =>
      let pc := if (c.tx t).isNone then entering (c.phase t) else .out
      { s with cond := c, futexPc := Function.update s.futexPc t pc }
  else none

/-- One step of the system. -/
def step [Fintype Tid] (cfg : TxConfig) (s : CondFutex Tid) (a : CondFutexAct Tid) :
    Option (CondFutex Tid) :=
  match a with
  | .call t x answer =>
    if s.futexPc t = entry x ∧ s.LockFree then
      (s.cond.step cfg (.call t x)).bind fun c =>
        -- a system call in a transaction aborts it
        if (s.cond.tx t).isSome then some { s with cond := c }
        else
          (afterSection s.futexPc t x s.cond.data (c.phase t) answer).map fun pc =>
            { cond := c
              futexPc := pc
              changes := s.changesAfter c.data t (reads (c.phase t)) }
    else none
  | .sleep t => s.outside cfg t (.sleep t)
  | .enterHtm t => s.outside cfg t (.enterHtm t)
  | .lockHtm t => s.outside cfg t (.lockHtm t)
  | .abort t => s.outside cfg t (.abort t)
  | .futexWait t =>
    match s.futexPc t, s.cond.phase t with
    | .futexWait, .waiting w =>
      let pc := if s.cond.data.futex = w.futexVal then .blocked else .returned
      some { s with futexPc := Function.update s.futexPc t pc }
    | _, _ => none
  | .futexReturn t =>
    if s.futexPc t = .blocked then
      some { s with futexPc := Function.update s.futexPc t .returned }
    else none
  | .futexWake t woken =>
    match s.futexPc t with
    | .wakeMore | .wakeLocked =>
      (wakeOne s.futexPc woken).map fun pc => { s with futexPc := Function.update pc t .out }
    | .wakeAll => some { s with futexPc := Function.update (wakeEverybody s.futexPc) t .out }
    | _ => none

end CondFutex

/-- Threads on one condition variable, with the kernel. -/
def condFutex (Tid : Type) [DecidableEq Tid] [Fintype Tid] (cfg : TxConfig) (clock : Bool)
    (mutex : Addr) : System (CondFutex Tid) (CondFutexAct Tid) where
  init s := (condSys Tid cfg clock mutex).init s.cond ∧ (∀ t, s.futexPc t = .out) ∧
    ∀ t, s.changes t = 0
  step := CondFutex.step cfg

end TxLock.Native
