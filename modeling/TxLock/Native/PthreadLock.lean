import Mathlib.Data.Finset.Erase
import Mathlib.Data.Finset.Insert
import TxLock.Native.PosixMutex
import TxLock.Native.Txutil

/-!
# The mutex locks

`pthread` and `pthread_tm` of `txlock.c`, for any number of locks and threads. Each lock
is a normal mutex of libpthread, whose functions are those of `Native/PosixMutex`; a call
of one of them is one step, which waits as long as `pthread_mutex_lock` does not return.

A thread of `pthread_tm` that does not get the mutex begins a transaction and goes on in
it without the mutex. The transaction is never committed: an abort, which may come at any
moment, goes back to `enter_htm`.
-/

namespace TxLock.Native

/-- Where a thread is in the code of `pthread` or `pthread_tm`. -/
inductive PthreadPc (Lid : Type) where
  | out
  /-- About to call `libpthread_mutex_lock`. -/
  | mutexLock (l : Lid)
  /-- `pthread_lock_tm`: about to call `libpthread_mutex_trylock`. -/
  | testTrylock (l : Lid) (tries : Word)
  /-- In `enter_htm`, about to begin a transaction. -/
  | enterHtm (l : Lid) (tries : Word)
  /-- `pthread_trylock`, `pthread_trylock_tm`: about to call `libpthread_mutex_trylock`. -/
  | mutexTrylock (l : Lid)
  /-- About to call `libpthread_mutex_unlock`. -/
  | mutexUnlock (l : Lid)
  deriving DecidableEq, Repr

/-- What the begin of a transaction saves: the call it is in, and the caller's record. -/
structure PthreadSaved (Lid : Type) where
  lock : Lid
  tries : Word
  locked : Finset Lid
  deriving DecidableEq

/-- One thread. -/
structure PthreadThread (Lid : Type) where
  pc : PthreadPc Lid := .out
  /-- The caller's record: locked and not unlocked since. -/
  locked : Finset Lid := ∅
  /-- In a transaction: `spec_entry` is not 0. -/
  spec : Option (PthreadSaved Lid) := none
  deriving DecidableEq

/-- The mutexes and the threads. -/
structure PthreadState (Tid Lid : Type) where
  mutex : Lid → Mutex Tid
  thread : Tid → PthreadThread Lid

/-- What a thread does next. -/
inductive PthreadAct (Tid Lid : Type) where
  | lock (t : Tid) (l : Lid)
  | trylock (t : Tid) (l : Lid)
  | unlock (t : Tid) (l : Lid)
  /-- The next step of the code thread `t` is in. -/
  | run (t : Tid)
  /-- The begin instruction of `enter_htm` starts a transaction. -/
  | htmStart (t : Tid)
  /-- The begin fails, or the transaction aborts. -/
  | htmAbort (t : Tid)
  deriving DecidableEq, Repr

/-- `enter_htm` returned 1 in `pthread_lock_tm`: try again, or out of tries. -/
def PthreadPc.htmFailed {Lid : Type} (cfg : TmParams) (l : Lid) (tries : Word) : PthreadPc Lid :=
  if tries + 1 ≥ cfg.numTries then .mutexLock l else .testTrylock l (tries + 1)

namespace PthreadState

variable {Tid Lid : Type} [DecidableEq Tid] [DecidableEq Lid]

def setThread (s : PthreadState Tid Lid) (t : Tid) (th : PthreadThread Lid) :
    PthreadState Tid Lid :=
  { s with thread := Function.update s.thread t th }

def setMutex (s : PthreadState Tid Lid) (l : Lid) (m : Mutex Tid) : PthreadState Tid Lid :=
  { s with mutex := Function.update s.mutex l m }

/-- Thread `t` goes on at `pc`. -/
def goto (s : PthreadState Tid Lid) (t : Tid) (pc : PthreadPc Lid) : PthreadState Tid Lid :=
  s.setThread t { s.thread t with pc := pc }

/-- Thread `t` returns 0, and the caller has locked `l`. -/
def gets (s : PthreadState Tid Lid) (t : Tid) (l : Lid) : PthreadState Tid Lid :=
  s.setThread t { s.thread t with pc := .out, locked := insert l (s.thread t).locked }

/-- The next step of the code thread `t` is in. -/
def runStep (tm : Bool) (s : PthreadState Tid Lid) (t : Tid) : Option (PthreadState Tid Lid) :=
  match (s.thread t).pc with
  | .mutexLock l =>
    match (s.mutex l).lock t with
    | some (retval, m) =>
      -- `pthread_lock` returns `retval`, `pthread_lock_tm` drops it and returns 0
      if retval = 0 ∨ tm then some ((s.setMutex l m).gets t l)
      else some ((s.setMutex l m).goto t .out)
    | none => none
  -- `while (libpthread_mutex_trylock((void*)l) != 0)`
  | .testTrylock l tries =>
    let (retval, m) := (s.mutex l).trylock t
    if retval ≠ 0 then some ((s.setMutex l m).goto t (.enterHtm l tries))
    else some ((s.setMutex l m).gets t l)
  -- `pthread_trylock` and `pthread_trylock_tm` return `retval`
  | .mutexTrylock l =>
    let (retval, m) := (s.mutex l).trylock t
    if retval = 0 then some ((s.setMutex l m).gets t l)
    else some ((s.setMutex l m).goto t .out)
  | .mutexUnlock l =>
    match (s.mutex l).unlock t with
    | some (_, m) => some ((s.setMutex l m).goto t .out)
    | none => none
  | .out | .enterHtm _ _ => none

/-- One step of the system; `tm` tells `pthread_tm` from `pthread`. A thread unlocks only
    locks it has. In a transaction the functions of `pthread_tm` do nothing and return 0. -/
def step (cfg : TmParams) (tm : Bool) (s : PthreadState Tid Lid) (a : PthreadAct Tid Lid) :
    Option (PthreadState Tid Lid) :=
  match a with
  | .lock t l =>
    if (s.thread t).pc ≠ .out then none
    else if tm ∧ (s.thread t).spec.isSome then some (s.gets t l)
    else if tm then some (s.goto t (.testTrylock l 0))
    else some (s.goto t (.mutexLock l))
  | .trylock t l =>
    if (s.thread t).pc ≠ .out then none
    else if tm ∧ (s.thread t).spec.isSome then some (s.gets t l)
    else some (s.goto t (.mutexTrylock l))
  | .unlock t l =>
    let th := s.thread t
    if th.pc ≠ .out ∨ l ∉ th.locked then none
    else
      let th := { th with locked := th.locked.erase l }
      if tm ∧ th.spec.isSome then some (s.setThread t th)
      else some (s.setThread t { th with pc := .mutexUnlock l })
  | .run t => s.runStep tm t
  | .htmStart t =>
    let th := s.thread t
    match th.pc with
    | .enterHtm l tries => some (s.setThread t
        { pc := .out, locked := insert l th.locked, spec := some ⟨l, tries, th.locked⟩ })
    | _ => none
  | .htmAbort t =>
    let th := s.thread t
    match th.spec with
    | some sv => some (s.setThread t
        { pc := .htmFailed cfg sv.lock sv.tries, locked := sv.locked, spec := none })
    | none =>
      match th.pc with
      | .enterHtm l tries => some (s.goto t (.htmFailed cfg l tries))
      | _ => none

end PthreadState

/-- Threads using any locks of type `pthread` or (`tm`) `pthread_tm`, which are normal mutexes,
    all of them free at the start. -/
def pthreadMutex (Tid Lid : Type) [DecidableEq Tid] [DecidableEq Lid] (cfg : TmParams) (tm : Bool) :
    System (PthreadState Tid Lid) (PthreadAct Tid Lid) where
  init s := s = ⟨fun _ => {}, fun _ => {}⟩
  step := PthreadState.step cfg tm

end TxLock.Native
