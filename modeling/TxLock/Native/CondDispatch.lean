import TxLock.Native.PthreadCond

/-!
# The condition variables behind the exported names

`txcond.c` as one thread runs it, the choice between it and `pthread_cond.c` made by
`tc_wait`, `tc_timedwait`, `tc_signal` and `tc_broadcast` of `txlock.c`, and the names
that `tl-pthread.c` exports to the application.

The four `tc_` functions are declared `int` and have no `return` statement. The value
of a call that ends so is not determined; it is `none` here.
-/

namespace TxLock.Native

open Prog

/-! ## The semaphore based condition variable -/

/-- `WAITING`, `TIMEOUT` and `AWOKEN`. -/
def statusWaiting : Int := 0
def statusTimeout : Int := 1
def statusAwoken : Int := 2

/-- A failed assertion: the process is gone. -/
def condAssertFail {α : Type} : CondProg α := op .assertFail fun _ => halt

/-- How the loop of `_txcond_waitcommon` ends. -/
inductive TxWaitEnd where
  | woken
  | timeout
  deriving DecidableEq, Repr

/-- The race on the status between a waiter and its waker: the loser frees the node. -/
def txcondWoken (node : Addr) : CondProg (Unit ⊕ TxWaitEnd) := do
  let stored ← perform (.casStatus node statusWaiting statusAwoken)
  if stored = 0 then emit (.free node)
  return .inr .woken

/-- The same race after the deadline. -/
def txcondExpired (node : Addr) : CondProg (Unit ⊕ TxWaitEnd) := do
  let stored ← perform (.casStatus node statusWaiting statusTimeout)
  if stored ≠ 0 then
    emit (.setErrno ETIMEDOUT)
    return .inr .timeout
  else
    emit (.free node)
    return .inr .woken

/-- The body of the loop of `_txcond_waitcommon`; a deadline makes it timed. -/
def txcondWaitBody (node : Addr) (absTimeout : Option Timespec) :
    CondProg (Unit ⊕ TxWaitEnd) := do
  let e ← match absTimeout with
    | some ts => perform (.semTimedwait node ts)
    | none => perform (.semWait node)
  if e ≠ 0 then
    let errno ← perform .errno
    if errno = EINTR then return .inl ()
    else if errno = EINVAL then condAssertFail
    else if absTimeout.isSome ∧ errno = ETIMEDOUT then txcondExpired node
    else condAssertFail
  else txcondWoken node

/-- The section of `_txcond_waitcommon` under the queue lock. -/
def txcondEnqueue (cv node : Addr) : CondProg Unit := do
  emit (.ulLock cv)
  let tail ← perform (.get cv .tail)
  if tail ≠ 0 then
    emit (.set node .prev tail)
    emit (.set tail .next node)
    emit (.set cv .tail node)
  else
    emit (.set cv .head node)
    emit (.set cv .tail node)
  emit (.ulUnlock cv)

/-- `_txcond_waitcommon` from the enqueueing on. -/
def txcondWaitQueued (cfg : TxConfig) (cv lk node : Addr) (absTimeout : Option Timespec) :
    CondProg Int := do
  txcondEnqueue cv node
  emit (.tlUnlock lk)
  match ← loop (fun _ => txcondWaitBody node absTimeout) cfg.fuel () with
  | .timeout => return -1
  | .woken =>
    emit (.tlLock lk)
    return 0

/-- `_txcond_waitcommon` -/
def txcondWaitcommon (cfg : TxConfig) (cv lk : Addr) (absTimeout : Option Timespec) :
    CondProg Int := do
  let node ← perform .malloc
  if node = 0 then condAssertFail
  else
    let e ← perform (.semInit node)
    if e ≠ 0 then return -1
    else
      emit (.set node .next 0)
      emit (.set node .prev 0)
      emit (.set node .status statusWaiting)
      txcondWaitQueued cfg cv lk node absTimeout

def txcondTimedwait (cfg : TxConfig) (cv lk : Addr) (absTimeout : Timespec) : CondProg Int :=
  txcondWaitcommon cfg cv lk (some absTimeout)

def txcondWait (cfg : TxConfig) (cv lk : Addr) : CondProg Int := txcondWaitcommon cfg cv lk none

/-- Take the node at the head. -/
def txcondPopHead (cv : Addr) : CondProg Addr := do
  let node ← perform (.get cv .head)
  if node ≠ 0 then
    let head ← perform (.get node .next)
    emit (.set cv .head head)
    if head = 0 then emit (.set cv .tail 0) else emit (.set head .prev 0)
  return node

/-- Take the node at the tail. -/
def txcondPopTail (cv : Addr) : CondProg Addr := do
  let node ← perform (.get cv .tail)
  if node ≠ 0 then
    let tail ← perform (.get node .prev)
    emit (.set cv .tail tail)
    if tail = 0 then emit (.set cv .head 0) else emit (.set tail .next 0)
  return node

/-- `cv->cnt*1103515245 + 12345`, after a 0 was replaced by 5. -/
def txcondNextCnt (cnt : Int) : Word :=
  12345 + 1103515245 * (if cnt = 0 then 5 else BitVec.ofInt 32 cnt)

def txcondSignal (cv : Addr) : CondProg Int := do
  emit (.ulLock cv)
  let cnt ← perform (.get cv .cnt)
  let i := txcondNextCnt cnt
  emit (.set cv .cnt i.toNat)
  let node ← if i.toInt.tmod 10 = 0 then txcondPopHead cv else txcondPopTail cv
  emit (.ulUnlock cv)
  if node = 0 then return 0
  else
    let e ← perform (.semPost node)
    if e ≠ 0 then condAssertFail
    else
      let stored ← perform (.casStatus node statusWaiting statusAwoken)
      if stored = 0 then emit (.free node)
      return 0

/-- The body of the loop of `txcond_broadcast` over `node` and `e1`. -/
def txcondBroadcastBody (p : Addr × Int) : CondProg ((Addr × Int) ⊕ Int) := do
  if p.1 = 0 then return .inr p.2
  else
    let e2 ← perform (.semPost p.1)
    let e1 := if e2 ≠ 0 ∧ p.2 = 0 then e2 else p.2
    let next ← perform (.get p.1 .next)
    let stored ← perform (.casStatus p.1 statusWaiting statusAwoken)
    if stored = 0 then emit (.free p.1)
    return .inl (next, e1)

def txcondBroadcast (cfg : TxConfig) (cv : Addr) : CondProg Int := do
  emit (.ulLock cv)
  let node ← perform (.get cv .head)
  if node = 0 then
    emit (.ulUnlock cv)
    return 0
  else
    emit (.set cv .head 0)
    emit (.set cv .tail 0)
    emit (.ulUnlock cv)
    loop txcondBroadcastBody cfg.fuel (node, 0)

/-! ## Dispatch -/

/-- A call of one of the four functions. -/
inductive CondCall where
  | wait (cv lk : Addr)
  | timedwait (cv lk : Addr) (absTimeout : Timespec)
  | signal (cv : Addr)
  | broadcast (cv : Addr)
  deriving DecidableEq, Repr

/-- The function of `pthread_cond.c` for a call. -/
def CondCall.pthreadCond (cfg : TxConfig) : CondCall → CondProg Int
  | .wait cv lk => pthreadCondWait cfg cv lk
  | .timedwait cv lk ts => pthreadCondTimedwait cfg cv lk ts
  | .signal cv => pthreadCondSignal cv
  | .broadcast cv => pthreadCondBroadcast cv

/-- The function of `txcond.c` for a call. -/
def CondCall.txcond (cfg : TxConfig) : CondCall → CondProg Int
  | .wait cv lk => txcondWait cfg cv lk
  | .timedwait cv lk ts => txcondTimedwait cfg cv lk ts
  | .signal cv => txcondSignal cv
  | .broadcast cv => txcondBroadcast cfg cv

/-- The implementation `USE_PTHREAD_COND_VARS` selects. -/
def CondCall.selected (cfg : TxConfig) (usePthreadCondVars : Bool) (c : CondCall) :
    CondProg Int :=
  if usePthreadCondVars then c.pthreadCond cfg else c.txcond cfg

/-- `tc_wait`, `tc_timedwait`, `tc_signal` and `tc_broadcast`:
    `if(USE_PTHREAD_COND_VARS){f(..);} else{g(..);}`, and the end of the function. -/
def CondCall.tc (cfg : TxConfig) (usePthreadCondVars : Bool) (c : CondCall) :
    CondProg (Option Int) := do
  let _ ← c.selected cfg usePthreadCondVars
  return none

def tcWait (cfg : TxConfig) (use : Bool) (cv lk : Addr) : CondProg (Option Int) :=
  CondCall.tc cfg use (.wait cv lk)

def tcTimedwait (cfg : TxConfig) (use : Bool) (cv lk : Addr) (absTimeout : Timespec) :
    CondProg (Option Int) :=
  CondCall.tc cfg use (.timedwait cv lk absTimeout)

def tcSignal (cfg : TxConfig) (use : Bool) (cv : Addr) : CondProg (Option Int) :=
  CondCall.tc cfg use (.signal cv)

def tcBroadcast (cfg : TxConfig) (use : Bool) (cv : Addr) : CondProg (Option Int) :=
  CondCall.tc cfg use (.broadcast cv)

/-- `pthread_cond_wait`, `pthread_cond_timedwait`, `pthread_cond_signal` and
    `pthread_cond_broadcast` of `tl-pthread.c`: `return tc_..(..);`. -/
def CondCall.exported (cfg : TxConfig) (use : Bool) : CondCall → CondProg (Option Int)
  | .wait cv lk => tcWait cfg use cv lk
  | .timedwait cv lk ts => tcTimedwait cfg use cv lk ts
  | .signal cv => tcSignal cfg use cv
  | .broadcast cv => tcBroadcast cfg use cv

end TxLock.Native
