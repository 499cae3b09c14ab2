import TxLock.Native.Txlock

/-!
# The speculating condition variable, as one thread runs it

`pthread_cond.c`: the four operations as programs. Around its sleep on the futex,
`__pthread_cond_wait` opens a transaction and returns 0 in it, without a wakeup and
without the mutex.

The mutex is released and taken with `tl_unlock` and `tl_lock`, which the file defines
to stand for libpthread's own functions. `pshared` is left out: the futex calls do not
use it.
-/

namespace TxLock.Native

open Prog

/-- The fields of `cond->__data` that the operations use. -/
inductive CondField where
  | totalSeq | wakeupSeq | wokenSeq | futex | nwaiters | broadcastSeq | mutex
  deriving DecidableEq, Repr

/-- `struct timespec` -/
structure Timespec where
  tvSec : Int
  tvNsec : Int
  deriving DecidableEq, Repr

/-- The operations of the queue of `txcond.c`: the fields of `_txcond_t` and of its nodes. -/
inductive TxcondField where
  | head | tail | cnt | next | prev | status
  deriving DecidableEq, Repr

/-- The operations of the condition variables. -/
inductive CondOp where
  | tlLock (m : Addr)
  | tlTrylock (m : Addr)
  | tlUnlock (m : Addr)
  | enterHtm (primitive : Addr)
  | lllLock (cond : Addr)
  | lllUnlock (cond : Addr)
  | load (cond : Addr) (f : CondField)
  | store (cond : Addr) (f : CondField) (v : Int)
  /-- `cond->__data.f += v` -/
  | add (cond : Addr) (f : CondField) (v : Int)
  | futexWait (cond : Addr) (val : Int)
  | futexTimedWait (cond : Addr) (val : Int) (rt : Timespec)
  | futexWake (cond : Addr) (f : CondField) (nr : Int)
  | futexWakeUnlock (cond : Addr)
  /-- `gettimeofday (&tv, NULL)`, answered by `tv.tv_sec`. -/
  | gettimeofday
  /-- Read `tv.tv_usec`. -/
  | tvUsec
  /-- Read `mut->__data.__kind`. -/
  | mutexKind (m : Addr)
  -- the operations of `txcond.c`
  | malloc
  | semInit (node : Addr)
  | semWait (node : Addr)
  | semTimedwait (node : Addr) (absTimeout : Timespec)
  | semPost (node : Addr)
  | get (x : Addr) (f : TxcondField)
  | set (x : Addr) (f : TxcondField) (v : Int)
  /-- `__sync_bool_compare_and_swap(&node->status, ..)` -/
  | casStatus (node : Addr) (old new : Int)
  | free (node : Addr)
  | ulLock (cv : Addr)
  | ulUnlock (cv : Addr)
  | errno
  | setErrno (e : Int)
  | assertFail
  deriving DecidableEq, Repr

/-- The code of an operation on a condition variable. -/
abbrev CondProg := Prog CondOp

/-- `EINVAL`, `ETIMEDOUT` and `EINTR` of `errno.h`. -/
def EINVAL : Int := 22
def ETIMEDOUT : Int := 110
def EINTR : Int := 4

/-- `INT_MAX` -/
def intMax : Int := 2147483647

/-- `(void *) ~0l`, the mutex of a process-shared condition variable. -/
def sharedMutex : Addr := 0xFFFFFFFFFFFFFFFF

/-- `-1ULL` -/
def destroyedSeq : Int := 0xFFFFFFFFFFFFFFFF

/-- "We have one new user of the condvar": the counters and the mutex. -/
def condRegister (cond mutex : Addr) : CondProg Unit := do
  emit (.add cond .totalSeq 1)
  emit (.add cond .futex 1)
  -- `1 << COND_NWAITERS_SHIFT`
  emit (.add cond .nwaiters 2)
  let shared ← perform (.load cond .mutex)
  if shared ≠ sharedMutex then emit (.store cond .mutex mutex)

/-- From the label `bc_out` to the release of the internal lock. -/
def condLeave (cond : Addr) : CondProg Unit := do
  emit (.add cond .nwaiters (-2))
  let total ← perform (.load cond .totalSeq)
  if total = destroyedSeq then
    let nwaiters ← perform (.load cond .nwaiters)
    if nwaiters < 2 then emit (.futexWake cond .nwaiters 1)
  emit (.lllUnlock cond)

/-! ## Wait -/

/-- How the loop of `__pthread_cond_wait` ends. -/
inductive WaitEnd where
  /-- `if(enter_htm(cond)==0){return 0;}` -/
  | speculative
  | woken
  | broadcast
  deriving DecidableEq, Repr

/-- The attempt to speculate before a sleep: what `enter_htm` returned, if it was called. -/
def condSpeculate (cfg : TxConfig) (cond : Addr) (tries : Word) (futexVal : Int) :
    CondProg (Option Int) := do
  if cfg.tmCondVars ∧ tries < cfg.numTries then
    let futex ← perform (.load cond .futex)
    if futex = futexVal then
      let e ← perform (.enterHtm cond)
      return some e
    else return none
  else return none

/-- One round of the loop: the sleep, and whether the wait is over. -/
def condSleep (cond : Addr) (seq bcSeq futexVal : Int) (tries : Word) :
    CondProg (Word ⊕ WaitEnd) := do
  emit (.futexWait cond futexVal)
  emit (.lllLock cond)
  let broadcast ← perform (.load cond .broadcastSeq)
  if bcSeq ≠ broadcast then return .inr .broadcast
  else
    let val ← perform (.load cond .wakeupSeq)
    if val = seq then return .inl tries
    else
      let woken ← perform (.load cond .wokenSeq)
      if woken = val then return .inl tries else return .inr .woken

/-- The body of the loop of `__pthread_cond_wait`. -/
def condWaitBody (cfg : TxConfig) (cond : Addr) (seq bcSeq : Int) (tries : Word) :
    CondProg (Word ⊕ WaitEnd) := do
  let futexVal ← perform (.load cond .futex)
  emit (.lllUnlock cond)
  match ← condSpeculate cfg cond tries futexVal with
  | some e =>
    if e = 0 then return .inr .speculative
    else condSleep cond seq bcSeq futexVal (tries + 1)
  | none => condSleep cond seq bcSeq futexVal tries

/-- The end of `__pthread_cond_wait`. -/
def condWaitEnd (cond mutex : Addr) : WaitEnd → CondProg Int
  | .speculative => return 0
  | .woken => do
    emit (.add cond .wokenSeq 1)
    condLeave cond
    perform (.tlLock mutex)
  | .broadcast => do
    condLeave cond
    perform (.tlLock mutex)

/-- `__pthread_cond_wait` after the mutex was released. -/
def condWaitReleased (cfg : TxConfig) (cond mutex : Addr) : CondProg Int := do
  condRegister cond mutex
  let seq ← perform (.load cond .wakeupSeq)
  let bcSeq ← perform (.load cond .broadcastSeq)
  let e ← loop (condWaitBody cfg cond seq bcSeq) cfg.fuel 0
  condWaitEnd cond mutex e

/-- `__pthread_cond_wait` -/
def pthreadCondWait (cfg : TxConfig) (cond mutex : Addr) : CondProg Int := do
  emit (.lllLock cond)
  let err ← perform (.tlUnlock mutex)
  if err ≠ 0 then
    emit (.lllUnlock cond)
    return err
  else condWaitReleased cfg cond mutex

/-! ## Signal and broadcast -/

/-- `__pthread_cond_signal` -/
def pthreadCondSignal (cond : Addr) : CondProg Int := do
  emit (.lllLock cond)
  let total ← perform (.load cond .totalSeq)
  let wakeup ← perform (.load cond .wakeupSeq)
  if total > wakeup then
    emit (.add cond .wakeupSeq 1)
    emit (.add cond .futex 1)
    let r ← perform (.futexWakeUnlock cond)
    if r = 0 then return 0
    else
      emit (.futexWake cond .futex 1)
      emit (.lllUnlock cond)
      return 0
  else
    emit (.lllUnlock cond)
    return 0

/-- `__pthread_cond_broadcast` -/
def pthreadCondBroadcast (cond : Addr) : CondProg Int := do
  emit (.lllLock cond)
  let total ← perform (.load cond .totalSeq)
  let wakeup ← perform (.load cond .wakeupSeq)
  if total > wakeup then
    emit (.store cond .wakeupSeq total)
    emit (.store cond .wokenSeq total)
    emit (.store cond .futex (wrap32 (wrap32 total * 2)))
    emit (.add cond .broadcastSeq 1)
    emit (.lllUnlock cond)
    let mut' ← perform (.load cond .mutex)
    -- both branches of the test of the mutex's kind go to `wake_all`
    if mut' ≠ sharedMutex then emit (.mutexKind mut')
    emit (.futexWake cond .futex intMax)
    return 0
  else
    emit (.lllUnlock cond)
    return 0

/-! ## Timed wait -/

/-- How the loop of `__pthread_cond_timedwait` ends. -/
inductive TimedEnd where
  | woken
  | timeout
  | broadcast
  deriving DecidableEq, Repr

/-- `abstime` relative to the present. -/
def relTime (abstime : Timespec) (tvSec tvUsec : Int) : Timespec :=
  let sec := abstime.tvSec - tvSec
  let nsec := abstime.tvNsec - tvUsec * 1000
  if nsec < 0 then ⟨sec - 1, nsec + 1000000000⟩ else ⟨sec, nsec⟩

/-- The body of the loop of `__pthread_cond_timedwait`. -/
def condTimedBody (cond : Addr) (abstime : Timespec) (seq bcSeq : Int) :
    CondProg (Unit ⊕ TimedEnd) := do
  let sec ← perform .gettimeofday
  let usec ← perform .tvUsec
  let rt := relTime abstime sec usec
  if rt.tvSec < 0 then
    let broadcast ← perform (.load cond .broadcastSeq)
    return .inr (if bcSeq ≠ broadcast then .broadcast else .timeout)
  else
    let futexVal ← perform (.load cond .futex)
    emit (.lllUnlock cond)
    let err ← perform (.futexTimedWait cond futexVal rt)
    emit (.lllLock cond)
    let broadcast ← perform (.load cond .broadcastSeq)
    if bcSeq ≠ broadcast then return .inr .broadcast
    else
      let val ← perform (.load cond .wakeupSeq)
      -- `val != seq && cond->__data.__woken_seq != val`
      let woken ← if val ≠ seq then perform (.load cond .wokenSeq) else pure val
      if woken ≠ val then return .inr .woken
      else if err = -ETIMEDOUT then return .inr .timeout
      else return .inl ()

/-- The label `timeout`, the counters of a wakeup, and `result`. -/
def condTimedCounters (cond : Addr) : TimedEnd → CondProg Int
  | .timeout => do
    emit (.add cond .wakeupSeq 1)
    emit (.add cond .futex 1)
    emit (.add cond .wokenSeq 1)
    return ETIMEDOUT
  | .woken => do
    emit (.add cond .wokenSeq 1)
    return 0
  | .broadcast => return 0

/-- `__pthread_cond_timedwait` after the mutex was released. -/
def condTimedReleased (cfg : TxConfig) (cond mutex : Addr) (abstime : Timespec) :
    CondProg Int := do
  condRegister cond mutex
  let seq ← perform (.load cond .wakeupSeq)
  let bcSeq ← perform (.load cond .broadcastSeq)
  let e ← loop (fun _ => condTimedBody cond abstime seq bcSeq) cfg.fuel ()
  let result ← condTimedCounters cond e
  condLeave cond
  let err ← perform (.tlLock mutex)
  return if err ≠ 0 then err else result

/-- `abstime->tv_nsec < 0 || abstime->tv_nsec >= 1000000000` -/
def Timespec.Invalid (abstime : Timespec) : Prop :=
  abstime.tvNsec < 0 ∨ abstime.tvNsec ≥ 1000000000

instance (abstime : Timespec) : Decidable abstime.Invalid :=
  inferInstanceAs (Decidable (_ ∨ _))

/-- `__pthread_cond_timedwait` -/
def pthreadCondTimedwait (cfg : TxConfig) (cond mutex : Addr) (abstime : Timespec) :
    CondProg Int := do
  if abstime.Invalid then return EINVAL
  else
    emit (.lllLock cond)
    let err ← perform (.tlUnlock mutex)
    if err ≠ 0 then
      emit (.lllUnlock cond)
      return err
    else condTimedReleased cfg cond mutex abstime

end TxLock.Native
