import TxLock.ForStd.System
import TxLock.Native.PthreadCond

/-!
# The counters of the condition variable

`pthread_cond.c` for any number of threads on one condition variable. What a call does
between taking and releasing the internal lock is one step. The counters have the widths
the library gives them.

Before a sleep `__pthread_cond_wait` may begin a transaction and return 0 in it. What the
thread does from then on, calls on the condition variable included, is done to its own view
of the data, and an abort drops the view. Only `tas_hle` has code that commits.
-/

namespace TxLock.Native

/-- `cond->__data`, but for the internal lock. -/
structure CondData where
  totalSeq : BitVec 64 := 0
  wakeupSeq : BitVec 64 := 0
  wokenSeq : BitVec 64 := 0
  futex : Word := 0
  nwaiters : Word := 0
  broadcastSeq : Word := 0
  mutex : Addr := 0
  deriving DecidableEq, Repr

namespace CondData

variable (d : CondData)

/-- "We have one new user of the condvar." -/
def register (mutex : Addr) : CondData :=
  { d with
    totalSeq := d.totalSeq + 1
    futex := d.futex + 1
    -- `1 << COND_NWAITERS_SHIFT`
    nwaiters := d.nwaiters + 2
    mutex := if d.mutex ≠ sharedMutex then mutex else d.mutex }

/-- "Mark one of them as woken." -/
def wakeOne : CondData := { d with wakeupSeq := d.wakeupSeq + 1, futex := d.futex + 1 }

/-- "Another thread woken up." -/
def woken : CondData := { d with wokenSeq := d.wokenSeq + 1 }

/-- The label `bc_out`. -/
def leave : CondData := { d with nwaiters := d.nwaiters - 2 }

/-- From the label `timeout` on. -/
def expire : CondData := d.wakeOne.woken.leave

/-- `__pthread_cond_signal` -/
def signal : CondData := if d.totalSeq > d.wakeupSeq then d.wakeOne else d

/-- `__pthread_cond_broadcast` -/
def broadcast : CondData :=
  if d.totalSeq > d.wakeupSeq then
    { d with
      wakeupSeq := d.totalSeq
      wokenSeq := d.totalSeq
      futex := d.totalSeq.setWidth 32 * 2
      broadcastSeq := d.broadcastSeq + 1 }
  else d

end CondData

/-- The local variables of a wait, between two of its sections. -/
structure CondWait where
  /-- The deadline of `__pthread_cond_timedwait`. -/
  abstime : Option Timespec := none
  seq : BitVec 64
  bcSeq : Word
  futexVal : Word
  tries : Word := 0
  /-- In the call of the futex; before it the thread may begin a transaction. -/
  asleep : Bool := false
  deriving DecidableEq, Repr

/-- Whether a thread is waiting. -/
inductive CondPhase where
  | out
  | waiting (w : CondWait)
  deriving DecidableEq, Repr

/-- The sections under the internal lock, with what they learn from outside: the value of
    `tl_unlock`, the value of the futex call, and the clock where the deadline is checked. -/
inductive CondSection where
  | wait (mutex : Addr) (err : Int)
  | timedwait (mutex : Addr) (abstime : Timespec) (err sec usec : Int)
  /-- A waiting thread comes back from its sleep. -/
  | wake (err sec usec : Int)
  | signal
  | broadcast
  deriving DecidableEq, Repr

namespace CondSection

/-- The head of the loop of `__pthread_cond_timedwait`: the deadline, then the sleep. -/
def timedHead (d : CondData) (w : CondWait) (abstime : Timespec) (sec usec : Int) :
    CondData × CondPhase :=
  if (relTime abstime sec usec).tvSec < 0 then
    if w.bcSeq ≠ d.broadcastSeq then (d.leave, .out) else (d.expire, .out)
  else (d, .waiting { w with futexVal := d.futex, asleep := true })

/-- What a new waiter remembers. -/
def newWait (d : CondData) (abstime : Option Timespec) : CondWait :=
  { abstime := abstime, seq := d.wakeupSeq, bcSeq := d.broadcastSeq, futexVal := d.futex }

/-- A waiter has the internal lock again. -/
def wakeUp (d : CondData) (w : CondWait) (err sec usec : Int) : CondData × CondPhase :=
  -- "If a broadcast happened, we are done."
  if w.bcSeq ≠ d.broadcastSeq then (d.leave, .out)
  else if d.wakeupSeq ≠ w.seq ∧ d.wokenSeq ≠ d.wakeupSeq then (d.woken.leave, .out)
  else
    match w.abstime with
    | none => (d, .waiting { w with futexVal := d.futex, asleep := false })
    | some abstime =>
      if err = -ETIMEDOUT then (d.expire, .out) else timedHead d w abstime sec usec

/-- A section, for a thread in the phase `ph`. -/
def run (d : CondData) (ph : CondPhase) (x : CondSection) : Option (CondData × CondPhase) :=
  match x, ph with
  | .wait mutex err, .out =>
    if err ≠ 0 then some (d, .out)
    else some (d.register mutex, .waiting (newWait (d.register mutex) none))
  | .timedwait mutex abstime err sec usec, .out =>
    if abstime.Invalid ∨ err ≠ 0 then some (d, .out)
    else
      let d := d.register mutex
      some (timedHead d (newWait d (some abstime)) abstime sec usec)
  | .wake err sec usec, .waiting w => if w.asleep then some (wakeUp d w err sec usec) else none
  | .signal, .out => some (d.signal, .out)
  | .broadcast, .out => some (d.broadcast, .out)
  | _, _ => none

/-- The section counts a new waiter. -/
def registers : CondSection → Bool
  | .wait _ err => err = 0
  | .timedwait _ abstime err _ _ => ¬ abstime.Invalid ∧ err = 0
  | .wake .. | .signal | .broadcast => false

end CondSection

/-- The condition variable and the threads. -/
structure CondSys (Tid : Type) where
  /-- The committed data. -/
  data : CondData
  phase : Tid → CondPhase
  /-- In a transaction, the thread's view of the data and its phase there. -/
  tx : Tid → Option (CondData × CondPhase)
  /-- The changes of `broadcast_seq` since the thread has registered last. -/
  since : Tid → Nat

/-- What happens next. -/
inductive CondSysAct (Tid : Type) where
  /-- Thread `t` does a section. -/
  | call (t : Tid) (x : CondSection)
  /-- Thread `t` goes to sleep without a transaction. -/
  | sleep (t : Tid)
  /-- `enter_htm(cond)` of thread `t` begins a transaction, and the wait returns. -/
  | enterHtm (t : Tid)
  /-- A lock function begins a transaction. -/
  | lockHtm (t : Tid)
  /-- The begin of `enter_htm(cond)` fails, or the transaction aborts. -/
  | abort (t : Tid)
  deriving DecidableEq, Repr

namespace CondSys

variable {Tid : Type} [DecidableEq Tid]

/-- The wait tries to begin a transaction before its next sleep. -/
def attempts (cfg : TxConfig) (w : CondWait) : Bool :=
  w.abstime.isNone ∧ ¬ w.asleep ∧ cfg.tmCondVars ∧ w.tries < cfg.numTries

/-- The wait goes on after a begin that has failed: to the futex. -/
def beginFailed : CondPhase → CondPhase
  | .waiting w => .waiting { w with tries := w.tries + 1, asleep := true }
  | .out => .out

/-- `since` after a section of thread `t`. -/
def sinceAfter (s : CondSys Tid) (t : Tid) (x : CondSection) : Tid → Nat :=
  if x.registers then Function.update s.since t 0
  else if x = .broadcast ∧ s.data.totalSeq > s.data.wakeupSeq then fun u => s.since u + 1
  else s.since

/-- One step of the system. -/
def step (cfg : TxConfig) (s : CondSys Tid) (a : CondSysAct Tid) : Option (CondSys Tid) :=
  match a with
  | .call t x =>
    match s.tx t, x with
    -- a thread that sleeps in a transaction has left it
    | some _, .wake .. => none
    | some (v, ph), x => (x.run v ph).map fun r => { s with tx := Function.update s.tx t (some r) }
    | none, x => (x.run s.data (s.phase t)).map fun r =>
      { s with data := r.1, phase := Function.update s.phase t r.2, since := s.sinceAfter t x }
  | .sleep t =>
    match s.tx t, s.phase t with
    | none, .waiting w =>
      -- `cond->__data.__futex == futex_val`
      if w.asleep ∨ attempts cfg w ∧ s.data.futex = w.futexVal then none
      else some { s with phase := Function.update s.phase t (.waiting { w with asleep := true }) }
    | _, _ => none
  | .enterHtm t =>
    match s.tx t, s.phase t with
    | some (v, .waiting w), _ =>
      if attempts cfg w then some { s with tx := Function.update s.tx t (some (v, .out)) } else none
    | none, .waiting w =>
      if attempts cfg w then some { s with tx := Function.update s.tx t (some (s.data, .out)) }
      else none
    | _, _ => none
  | .lockHtm t =>
    match s.tx t, s.phase t with
    | none, .out => some { s with tx := Function.update s.tx t (some (s.data, .out)) }
    | _, _ => none
  | .abort t =>
    match s.tx t, s.phase t with
    | some _, ph => some { s with
        tx := Function.update s.tx t none
        phase := Function.update s.phase t (beginFailed ph) }
    | none, .waiting w =>
      if attempts cfg w then
        some { s with phase := Function.update s.phase t (beginFailed (.waiting w)) }
      else none
    | none, .out => none

/-- The thread that an action counts as a new waiter, in the committed data. -/
def registered (s : CondSys Tid) : CondSysAct Tid → List Tid
  | .call t x => if (s.tx t).isNone ∧ x.registers then [t] else []
  | _ => []

end CondSys

/-- Threads on one condition variable, which `__pthread_cond_init` has initialised with the
    clock bit `clock` and the mutex `mutex`. -/
def condSys (Tid : Type) [DecidableEq Tid] (cfg : TxConfig) (clock : Bool) (mutex : Addr) :
    System (CondSys Tid) (CondSysAct Tid) where
  init s := s = ⟨{ nwaiters := if clock then 1 else 0, mutex := mutex }, fun _ => .out,
    fun _ => none, fun _ => 0⟩
  step := CondSys.step cfg

end TxLock.Native
