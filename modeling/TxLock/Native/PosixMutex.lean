import TxLock.Native.PthreadCond

/-!
# The mutexes of libpthread

What POSIX says of `pthread_mutex_lock`, `pthread_mutex_trylock` and
`pthread_mutex_unlock`, for the kinds normal, recursive and error-checking, each of them
robust or not. It takes the place of the code of libpthread, which is not part of the
repository.

`none` stands for a call that does not return while the mutex stays as it is, and for
behaviour that POSIX leaves undefined.
-/

namespace TxLock.Native

/-- Error numbers of `errno.h`. -/
def EPERM : Int := 1
def EAGAIN : Int := 11
def EBUSY : Int := 16
def EDEADLK : Int := 35
def EOWNERDEAD : Int := 130
def ENOTRECOVERABLE : Int := 131

inductive MutexKind where
  | normal
  | recursive
  | errorcheck
  deriving DecidableEq, Repr

/-- A mutex of libpthread. -/
structure Mutex (Tid : Type) where
  kind : MutexKind := .normal
  robust : Bool := false
  owner : Option Tid := none
  /-- How often the owner has locked it. -/
  count : Nat := 0
  /-- The greatest `count` of a recursive mutex. -/
  maxCount : Nat := 4294967295
  /-- The owner has terminated. -/
  ownerDead : Bool := false
  /-- The owner has taken it over from a thread that has terminated. -/
  inconsistent : Bool := false
  notRecoverable : Bool := false
  /-- Threads with a priority above the ceiling of the mutex. -/
  barred : List Tid := []
  deriving DecidableEq, Repr

namespace Mutex

variable {Tid : Type} [DecidableEq Tid] (m : Mutex Tid) (t : Tid)

/-- The first lock by `t`. -/
def acquire : Mutex Tid := { m with owner := some t, count := 1 }

/-- `t` takes the mutex over from an owner that has terminated. -/
def takeOver : Mutex Tid := { m.acquire t with ownerDead := false, inconsistent := true }

/-- `t` locks a recursive mutex again. -/
def again : Int × Mutex Tid :=
  if m.count < m.maxCount then (0, { m with count := m.count + 1 }) else (EAGAIN, m)

/-- `pthread_mutex_lock` -/
def lock : Option (Int × Mutex Tid) :=
  if m.notRecoverable then some (ENOTRECOVERABLE, m)
  else if t ∈ m.barred then some (EINVAL, m)
  else match m.owner with
  | none => some (0, m.acquire t)
  | some u =>
    if m.robust && m.ownerDead then some (EOWNERDEAD, m.takeOver t)
    else if u = t then
      match m.kind with
      | .normal => none
      | .recursive => some m.again
      | .errorcheck => some (EDEADLK, m)
    else none

/-- `pthread_mutex_trylock`: as `pthread_mutex_lock`, but it does not wait. -/
def trylock : Int × Mutex Tid :=
  if m.notRecoverable then (ENOTRECOVERABLE, m)
  else if t ∈ m.barred then (EINVAL, m)
  else match m.owner with
  | none => (0, m.acquire t)
  | some u =>
    if m.robust && m.ownerDead then (EOWNERDEAD, m.takeOver t)
    else if u = t ∧ m.kind = .recursive then m.again
    else (EBUSY, m)

/-- `pthread_mutex_unlock`, undefined for a normal mutex that `t` does not own. -/
def unlock : Option (Int × Mutex Tid) :=
  if m.owner = some t then
    if 1 < m.count then some (0, { m with count := m.count - 1 })
    else some (0, { m with
      owner := none, count := 0, inconsistent := false, notRecoverable := m.inconsistent })
  else if m.robust || m.kind ≠ .normal then some (EPERM, m)
  else none

end Mutex

/-- How a mutex answers the calls of thread `t`. -/
def mutexCall {Tid : Type} [DecidableEq Tid] (t : Tid) :
    LockOp → Option (Mutex Tid → Option (Int × Mutex Tid))
  | .pthreadMutexLock _ => some fun m => m.lock t
  | .pthreadMutexTrylock _ => some fun m => some (m.trylock t)
  | .pthreadMutexUnlock _ => some fun m => m.unlock t
  | .xbegin | .xend | .xtest | .xabort _ | .specEntry | .setSpecEntry _ | .statsAdd _ _
  | .rdtscMacro | .rdtsc | .load _ | .store _ _ | .testAndSet _ _ | .release _ | .cas _ _ _
  | .fetchAndAdd _ _ | .mallocNodes | .assertFail => none

end TxLock.Native
