import Mathlib.Data.Finset.Erase
import Mathlib.Data.Finset.Insert
import TxLock.Native.HtmThread
import TxLock.Native.PosixMutex
import TxLock.Native.TasPriority

/-!
# Threads that run the lock functions

Any number of threads that call `tl_lock`, `tl_trylock` and `tl_unlock`, each running the
code of `lock_types` operation by operation over the memory of the locks, which they share.
The threads take their operations in any order.

Transactions are nested flat: the outermost begin saves the thread, an abort, which may
come at any moment, restores it, and the outermost end commits. What a transaction writes
it keeps to itself until then. The hardware aborts a transaction when another thread
touches what it has touched; here it may go on, so that there are more runs, not fewer.

The nodes of the queue locks are not in this memory: the code of `mcs` and `mcs_tm` stops
where it first touches one.
-/

namespace TxLock.Native

open Prog

/-! ## The memory of a lock -/

/-- The counters of a ticket lock, in the order of its fields. -/
def TicketPair.pack (next now : Word) : BitVec 64 := now ++ next

/-- The field `next`, a `uint32_t`. -/
def TicketPair.next (w : BitVec 64) : Word := w.extractLsb' 0 32

/-- The field `now`, a `uint32_t`. -/
def TicketPair.now (w : BitVec 64) : Word := w.extractLsb' 32 32

/-- A `txlock_t`: its first two words, or the mutex of libpthread it is. -/
structure LockObj (Tid : Type) where
  word : BitVec 64 := 0
  second : BitVec 64 := 0
  mutex : Mutex Tid := {}
  deriving DecidableEq, Repr

namespace LockField

variable {Tid : Type}

/-- Read a field, with the sign of its type. -/
def read (f : LockField) (o : LockObj Tid) : Int :=
  match f with
  | .val => (TasAll.val o.word).toInt
  | .ready => (TasAll.ready o.word).toInt
  | .all => o.word.toInt
  | .next => (TicketPair.next o.word).toNat
  | .now => (TicketPair.now o.word).toNat
  | .tail => o.word.toNat
  | .nowServing => o.second.toInt

/-- Write a field, as wide as it is. -/
def write (f : LockField) (o : LockObj Tid) (v : Int) : LockObj Tid :=
  match f with
  | .val => { o with word := TasAll.setVal o.word (BitVec.ofInt 32 v) }
  | .ready => { o with
      word := TasAll.pack (TasAll.val o.word) (BitVec.ofInt 16 v) (TasAll.cnt o.word) }
  | .all => { o with word := BitVec.ofInt 64 v }
  | .next => { o with word := TicketPair.pack (BitVec.ofInt 32 v) (TicketPair.now o.word) }
  | .now => { o with word := TicketPair.pack (TicketPair.next o.word) (BitVec.ofInt 32 v) }
  | .tail => { o with word := BitVec.ofInt 64 v }
  | .nowServing => { o with second := BitVec.ofInt 64 v }

end LockField

/-- The lock that an operation of thread `t` changes, how it answers and what it leaves. A call
    of libpthread may have to wait. -/
def LockOp.modify {Tid : Type} [DecidableEq Tid] (t : Tid) :
    LockOp → Option (Addr × (LockObj Tid → Option (Int × LockObj Tid)))
  | .store (.lock l f) v => some (l, fun o => some (0, f.write o v))
  | .testAndSet (.lock l f) v => some (l, fun o => some (f.read o, f.write o v))
  | .release (.lock l f) => some (l, fun o => some (0, f.write o 0))
  -- the field has the value `old` when storing it changes nothing
  | .cas (.lock l f) old new => some (l, fun o =>
      some (if f.write o old = o then (1, f.write o new) else (0, o)))
  | .fetchAndAdd (.lock l f) v => some (l, fun o => some (f.read o, f.write o (f.read o + v)))
  | .pthreadMutexLock l =>
    some (l, fun o => (o.mutex.lock t).map fun r => (r.1, { o with mutex := r.2 }))
  | .pthreadMutexTrylock l =>
    some (l, fun o => some ((o.mutex.trylock t).1, { o with mutex := (o.mutex.trylock t).2 }))
  | .pthreadMutexUnlock l =>
    some (l, fun o => (o.mutex.unlock t).map fun r => (r.1, { o with mutex := r.2 }))
  | _ => none

/-! ## Threads -/

/-- The functions `tl_lock`, `tl_trylock` and `tl_unlock`. -/
inductive TlCall where
  | lock | trylock | unlock
  deriving DecidableEq, Repr

/-- The code of a call on the lock `l`. -/
def TlCall.prog (cfg : TxConfig) (ty : LockType) (l : Addr) : TlCall → LockProg Int
  | .lock => tlLock cfg ty l
  | .trylock => tlTrylock cfg ty l
  | .unlock => tlUnlock cfg ty l

/-- The caller's record when it calls: an unlock gives the lock up. -/
def TlCall.before (c : TlCall) (l : Addr) (locked : Finset Addr) : Finset Addr :=
  if c = .unlock then locked.erase l else locked

/-- The caller's record when the call returns `x`. -/
def TlCall.after (c : TlCall) (l : Addr) (x : Int) (locked : Finset Addr) : Finset Addr :=
  if c ≠ .unlock ∧ x = 0 then insert l locked else locked

/-- Where a thread is. -/
inductive TlCode where
  /-- In the application. -/
  | app
  /-- In the call `c` on the lock `l`, with `p` still to do. -/
  | call (c : TlCall) (l : Addr) (p : LockProg Int)

/-- One thread. -/
structure TlThread where
  code : TlCode := .app
  specEntry : Int := 0
  /-- The caller's record: locked and not unlocked since. -/
  locked : Finset Addr := ∅

/-- A transaction. -/
structure TlTx (Tid : Type) where
  /-- Nesting depth. -/
  depth : Nat
  /-- The thread at the outermost begin. -/
  saved : TlThread
  /-- The locks it has written, as it sees them. -/
  writes : Addr → Option (LockObj Tid) := fun _ => none

/-- The locks and the threads. -/
structure TlState (Tid : Type) where
  obj : Addr → LockObj Tid
  thread : Tid → TlThread
  tx : Tid → Option (TlTx Tid)
  /-- The process is gone. -/
  gone : Bool

/-- What happens next. -/
inductive TlAct (Tid : Type) where
  /-- Thread `t` calls `c` on the lock `l`. -/
  | call (t : Tid) (c : TlCall) (l : Addr)
  /-- The next step of the code thread `t` is in; `v` answers the reading of the clock. -/
  | run (t : Tid) (v : Int)
  /-- The begin instruction starts a transaction. -/
  | htmBegin (t : Tid)
  /-- The begin fails, or the active transaction aborts, with a status word. -/
  | htmAbort (t : Tid) (status : Int)
  deriving DecidableEq, Repr

/-- Go on after the begin instruction with its status. -/
def TlThread.resume (th : TlThread) (status : Int) : TlThread :=
  match th.code with
  | .call c l (.op .xbegin k) => { th with code := .call c l (k status) }
  | _ => th

namespace TlState

variable {Tid : Type} [DecidableEq Tid]

def setThread (s : TlState Tid) (t : Tid) (th : TlThread) : TlState Tid :=
  { s with thread := Function.update s.thread t th }

def setTx (s : TlState Tid) (t : Tid) (x : Option (TlTx Tid)) : TlState Tid :=
  { s with tx := Function.update s.tx t x }

/-- Thread `t` goes on at `code`. -/
def goto (s : TlState Tid) (t : Tid) (code : TlCode) : TlState Tid :=
  s.setThread t { s.thread t with code := code }

omit [DecidableEq Tid] in
/-- The lock `l` as thread `t` sees it. -/
def view (s : TlState Tid) (t : Tid) (l : Addr) : LockObj Tid :=
  ((s.tx t).bind fun x => x.writes l).getD (s.obj l)

/-- Thread `t` writes the lock `l`, in its transaction if there is one. -/
def setObj (s : TlState Tid) (t : Tid) (l : Addr) (o : LockObj Tid) : TlState Tid :=
  match s.tx t with
  | some x => s.setTx t (some { x with writes := Function.update x.writes l (some o) })
  | none => { s with obj := Function.update s.obj l o }

/-- The active transaction of thread `t` aborts. -/
def rollback (s : TlState Tid) (t : Tid) (status : Int) : TlState Tid :=
  match s.tx t with
  | some x => (s.setTx t none).setThread t (x.saved.resume status)
  | none => s

/-- `HTM_END` in thread `t`, which goes on at `code`. -/
def htmEnd (s : TlState Tid) (t : Tid) (code : TlCode) : TlState Tid :=
  match s.tx t with
  -- outside a transaction the instruction faults
  | none => { s with gone := true }
  | some x =>
    if x.depth ≤ 1 then
      { (s.setTx t none).goto t code with obj := fun l => (x.writes l).getD (s.obj l) }
    else (s.setTx t (some { x with depth := x.depth - 1 })).goto t code

/-- The operation `o` of thread `t`, which goes on at `next` with the answer. -/
def opStep (s : TlState Tid) (t : Tid) (o : LockOp) (next : Int → TlCode) (v : Int) :
    Option (TlState Tid) :=
  match o with
  | .xbegin => none
  | .xend => some (s.htmEnd t (next 0))
  | .xtest => some (s.goto t (next (if (s.tx t).isSome then 1 else 0)))
  -- outside a transaction the instruction does nothing
  | .xabort code =>
    if (s.tx t).isSome then some (s.rollback t (explicitStatus code)) else some (s.goto t (next 0))
  | .specEntry => some (s.goto t (next (s.thread t).specEntry))
  | .setSpecEntry w =>
    some (s.setThread t { s.thread t with code := next 0, specEntry := w })
  -- `abort()` makes system calls, which abort a transaction
  | .assertFail => if (s.tx t).isSome then some (s.rollback t 0) else some { s with gone := true }
  | .statsAdd .. | .rdtscMacro | .rdtsc => some (s.goto t (next v))
  | .load (.lock l f) => some (s.goto t (next (f.read (s.view t l))))
  | .load (.node _ _) | .load .myFreeNodes | .load .myUsedNodes | .mallocNodes => none
  | .store .. | .testAndSet .. | .release _ | .cas .. | .fetchAndAdd .. | .pthreadMutexLock _
  | .pthreadMutexTrylock _ | .pthreadMutexUnlock _ =>
    match o.modify t with
    | some (l, f) => (f (s.view t l)).map fun r => (s.setObj t l r.2).goto t (next r.1)
    | none => none

/-- The next step of the code of thread `t`. -/
def runStep (s : TlState Tid) (t : Tid) (v : Int) : Option (TlState Tid) :=
  match (s.thread t).code with
  | .app => none
  | .call c l (.ret x) =>
    some (s.setThread t
      { s.thread t with code := .app, locked := c.after l x (s.thread t).locked })
  | .call c l (.op o k) => s.opStep t o (fun v => .call c l (k v)) v
  | .call _ _ .halt => none

/-- The begin instruction of thread `t` starts a transaction, or a nested one. -/
def beginStep (s : TlState Tid) (t : Tid) : Option (TlState Tid) :=
  match (s.thread t).code with
  | .call _ _ (.op .xbegin _) =>
    let x : TlTx Tid := match s.tx t with
      | some x => { x with depth := x.depth + 1 }
      | none => { depth := 1, saved := s.thread t }
    some ((s.setTx t (some x)).setThread t ((s.thread t).resume xbeginStarted))
  | _ => none

/-- The begin of thread `t` fails, or its transaction aborts. -/
def abortStep (s : TlState Tid) (t : Tid) (status : Int) : Option (TlState Tid) :=
  if (s.tx t).isSome then some (s.rollback t status)
  else match (s.thread t).code with
    | .call _ _ (.op .xbegin _) => some (s.setThread t ((s.thread t).resume status))
    | _ => none

/-- One step of the system. A thread unlocks only locks it has, and there is no lock at 0. -/
def step (cfg : TxConfig) (ty : LockType) (s : TlState Tid) (a : TlAct Tid) :
    Option (TlState Tid) :=
  if s.gone then none else
  match a with
  | .call t c l =>
    match (s.thread t).code with
    | .app =>
      if l = 0 ∨ c = .unlock ∧ l ∉ (s.thread t).locked then none
      else some (s.setThread t { s.thread t with
        code := .call c l (c.prog cfg ty l), locked := c.before l (s.thread t).locked })
    | .call .. => none
  | .run t v => s.runStep t v
  | .htmBegin t => s.beginStep t
  | .htmAbort t status => if status = xbeginStarted then none else s.abortStep t status

end TlState

/-- Threads using any locks of type `ty`, all of them zero at the start. -/
def tlSystem (Tid : Type) [DecidableEq Tid] (cfg : TxConfig) (ty : LockType) :
    System (TlState Tid) (TlAct Tid) where
  init s := s = ⟨fun _ => {}, fun _ => {}, fun _ => none, false⟩
  step := TlState.step cfg ty

end TxLock.Native
