import TxLock.ForStd.System
import TxLock.Native.CondDispatch

/-!
# A thread with hardware transactions

One thread of a program that uses the library with `USE_PTHREAD_COND_VARS`: it calls
the mutex and the condition variable functions in any order, and the code of the
functions is run operation by operation.

Of the hardware it is assumed that transactions nest flat: the outermost begin saves
the thread, an abort restores what was saved, and only `HTM_END` at depth one commits.
What a transaction has done is buffered until then. The saved thread carries the
history of the calls, so that an abort also takes back the calls made since.
libpthread's own functions begin and end no transactions.
-/

namespace TxLock.Native

open Prog

/-- A call the application makes. -/
inductive ThreadCall where
  | lock (m : Addr)
  | trylock (m : Addr)
  | unlock (m : Addr)
  | cond (c : CondCall)
  deriving DecidableEq, Repr

/-- The code of a call. -/
def ThreadCall.prog (cfg : TxConfig) : ThreadCall → CondProg Int
  | .lock m => perform (.tlLock m)
  | .trylock m => perform (.tlTrylock m)
  | .unlock m => perform (.tlUnlock m)
  | .cond c => c.pthreadCond cfg

/-- The operations that are functions of `txlock.c` and `txutil.h` with code of their own. -/
def lockCode (cfg : TxConfig) (ty : LockType) : CondOp → Option (LockProg Int)
  | .tlLock m => some (tlLock cfg ty m)
  | .tlTrylock m => some (tlTrylock cfg ty m)
  | .tlUnlock m => some (tlUnlock cfg ty m)
  | .enterHtm primitive => some (Native.enterHtm primitive)
  | _ => none

/-- A call that has returned: its operations with their answers, and its value. -/
structure CallRecord where
  call : ThreadCall
  ops : List (CondOp × Int)
  value : Int
  deriving DecidableEq, Repr

/-- Where the thread is. -/
inductive HtmCode where
  /-- In the application. -/
  | app
  /-- In the call `c`, after the operations `ops`, with `p` still to do. -/
  | call (c : ThreadCall) (ops : List (CondOp × Int)) (p : CondProg Int)
  /-- In the code `p` of the operation `o` of the call `c`, which goes on with `k`. -/
  | lockFun (c : ThreadCall) (ops : List (CondOp × Int)) (o : CondOp) (k : Int → CondProg Int)
      (p : LockProg Int)

/-- The operation of a call whose code comes to an operation of a lock function, and which. -/
def HtmCode.atOp : HtmCode → Option (CondOp × LockOp)
  | .lockFun _ _ o _ (.op lo _) => some (o, lo)
  | .app | .call _ _ _ | .lockFun _ _ _ _ .halt | .lockFun _ _ _ _ (.ret _) => none

/-- The operation of a call whose lock function returns, and its value. -/
def HtmCode.atRet : HtmCode → Option (CondOp × Int)
  | .lockFun _ _ o _ (.ret x) => some (o, x)
  | .app | .call _ _ _ | .lockFun _ _ _ _ .halt | .lockFun _ _ _ _ (.op _ _) => none

/-- The thread, with the calls that have returned. -/
structure HtmThread where
  code : HtmCode := .app
  specEntry : Int := 0
  done : List CallRecord := []

/-- The thread and its transaction. -/
structure HtmState where
  thread : HtmThread := {}
  /-- Nesting depth; a transaction is active when it is not 0. -/
  depth : Nat := 0
  /-- The thread at the outermost begin. -/
  saved : Option HtmThread := none
  /-- The process is gone. -/
  gone : Bool := false

/-- What happens next. -/
inductive HtmAct where
  /-- The application calls `c`. -/
  | call (c : ThreadCall)
  /-- The next step of the code, answered by `v` where the environment answers. -/
  | run (v : Int)
  /-- The begin instruction starts a transaction. -/
  | htmBegin
  /-- The begin fails, or the active transaction aborts, with a status word. -/
  | htmAbort (status : Int)
  deriving DecidableEq, Repr

/-- The status of `HTM_ABORT(code)`. -/
def explicitStatus (code : Nat) : Int := 1 + 0x1000000 * (code % 256 : Nat)

theorem explicitStatus_ne (code : Nat) : explicitStatus code ≠ xbeginStarted := by
  simp only [explicitStatus, xbeginStarted]
  omega

namespace HtmThread

/-- Go on after the begin instruction with its status. -/
def resume (t : HtmThread) (status : Int) : HtmThread :=
  match t.code with
  | .lockFun c ops o k (.op .xbegin lk) => { t with code := .lockFun c ops o k (lk status) }
  | _ => t

end HtmThread

namespace HtmState

/-- The thread goes on at `code`. -/
def goto (s : HtmState) (code : HtmCode) : HtmState :=
  { s with thread := { s.thread with code := code } }

/-- The active transaction aborts. -/
def rollback (s : HtmState) (status : Int) : HtmState :=
  match s.saved with
  | some t => { s with thread := t.resume status, depth := 0, saved := none }
  | none => s

/-- The next operation `lo` of a lock function, which goes on with `next`. -/
def lockStep (s : HtmState) (lo : LockOp) (next : Int → HtmCode) (v : Int) : Option HtmState :=
  match lo with
  | .xbegin => none
  | .xend =>
    match s.depth with
    -- outside a transaction the instruction faults
    | 0 => some { s with gone := true }
    | 1 => some { s.goto (next 0) with depth := 0, saved := none }
    | d + 2 => some { s.goto (next 0) with depth := d + 1 }
  | .xtest => some (s.goto (next (if s.depth = 0 then 0 else 1)))
  -- outside a transaction the instruction does nothing
  | .xabort code =>
    if s.depth = 0 then some (s.goto (next 0)) else some (s.rollback (explicitStatus code))
  | .specEntry => some (s.goto (next s.thread.specEntry))
  | .setSpecEntry w =>
    some { s with thread := { s.thread with code := next 0, specEntry := w } }
  -- `abort()` makes system calls, which abort a transaction
  | .assertFail =>
    if s.depth = 0 then some { s with gone := true } else some (s.rollback 0)
  | .statsAdd .. | .rdtscMacro | .rdtsc | .load _ | .store .. | .testAndSet .. | .release _
  | .cas .. | .fetchAndAdd .. | .pthreadMutexLock _ | .pthreadMutexTrylock _
  | .pthreadMutexUnlock _ | .mallocNodes => some (s.goto (next v))

/-- The next step of the code. -/
def runStep (cfg : TxConfig) (ty : LockType) (s : HtmState) (v : Int) : Option HtmState :=
  match s.thread.code with
  | .app => none
  | .call c ops (.ret x) =>
    some { s with
      thread := { s.thread with code := .app, done := s.thread.done ++ [⟨c, ops, x⟩] } }
  | .call c ops (.op o k) =>
    match lockCode cfg ty o with
    | some p => some (s.goto (.lockFun c ops o k p))
    | none => some (s.goto (.call c (ops ++ [(o, v)]) (k v)))
  | .lockFun c ops o k (.ret x) => some (s.goto (.call c (ops ++ [(o, x)]) (k x)))
  | .lockFun c ops o k (.op lo lk) => s.lockStep lo (fun v => .lockFun c ops o k (lk v)) v
  | .call _ _ .halt | .lockFun _ _ _ _ .halt => none

/-- The begin instruction starts a transaction, or a nested one. -/
def beginStep (s : HtmState) : Option HtmState :=
  match s.thread.code with
  | .lockFun _ _ _ _ (.op .xbegin _) =>
    let t := s.thread.resume xbeginStarted
    if s.depth = 0 then some { s with thread := t, depth := 1, saved := some s.thread }
    else some { s with thread := t, depth := s.depth + 1 }
  | _ => none

/-- The begin fails, or the active transaction aborts. -/
def abortStep (s : HtmState) (status : Int) : Option HtmState :=
  if s.depth ≠ 0 then some (s.rollback status)
  else match s.thread.code with
    | .lockFun _ _ _ _ (.op .xbegin _) => some { s with thread := s.thread.resume status }
    | _ => none

/-- One step of the system. -/
def step (cfg : TxConfig) (ty : LockType) (s : HtmState) (a : HtmAct) : Option HtmState :=
  if s.gone then none else
  match a with
  | .call c =>
    match s.thread.code with
    | .app => some (s.goto (.call c [] (c.prog cfg)))
    | _ => none
  | .run v => s.runStep cfg ty v
  | .htmBegin => s.beginStep
  | .htmAbort status => if status = xbeginStarted then none else s.abortStep status

end HtmState

/-- A thread that uses locks of type `ty`. -/
def htmThread (cfg : TxConfig) (ty : LockType) : System HtmState HtmAct where
  init s := s = {}
  step := HtmState.step cfg ty

end TxLock.Native
