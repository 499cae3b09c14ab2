import TxLock.Native.HtmThread

/-!
# A thread with hardware transactions, and what it does to the locks

The thread of `Native/HtmThread` with a record of the lock functions it calls: whether each
was called in a transaction, and the operations its code performs. The record is part of
what a transaction buffers: an abort goes back to the record of the outermost begin.

The objects of the calls are not `NULL`.
-/

namespace TxLock.Native

open Prog

/-- No object of the call is `NULL`. -/
def ThreadCall.NonNull : ThreadCall → Prop
  | .lock m | .trylock m | .unlock m => m ≠ 0
  | .cond (.wait cv lk) | .cond (.timedwait cv lk _) => cv ≠ 0 ∧ lk ≠ 0
  | .cond (.signal cv) | .cond (.broadcast cv) => cv ≠ 0

instance : DecidablePred ThreadCall.NonNull := fun c => by
  unfold ThreadCall.NonNull
  split <;> infer_instance

/-- The call in an action is on objects. -/
def HtmAct.NonNull : HtmAct → Prop
  | .call c => c.NonNull
  | .run _ | .htmBegin | .htmAbort _ => True

instance : DecidablePred HtmAct.NonNull := fun a => by
  unfold HtmAct.NonNull
  split <;> infer_instance

/-- A call of a function of `txlock.c` or of `enter_htm`. -/
structure LockCall where
  op : CondOp
  /-- It was called in a transaction. -/
  inside : Bool
  /-- The operations its code has performed, with their answers. -/
  trace : List (LockOp × Int) := []
  deriving DecidableEq, Repr

/-- The calls that have returned and the one under way. -/
structure LockHistory where
  past : List LockCall := []
  now : Option LockCall := none
  deriving DecidableEq, Repr

namespace LockHistory

/-- The call under way has performed an operation. -/
def push (h : LockHistory) (e : LockOp × Int) : LockHistory :=
  { h with now := h.now.map fun r => { r with trace := r.trace ++ [e] } }

/-- All calls, the one under way last. -/
def calls (h : LockHistory) : List LockCall := h.past ++ h.now.toList

end LockHistory

/-- The thread, its record and the record at the outermost begin. -/
structure TracedState where
  htm : HtmState := {}
  hist : LockHistory := {}
  saved : LockHistory := {}

/-- What an operation answers that the thread and its transaction answer themselves. -/
def HtmState.answer (s : HtmState) (lo : LockOp) (v : Int) : Int :=
  match lo with
  | .specEntry => s.thread.specEntry
  | .xtest => if s.depth = 0 then 0 else 1
  | .setSpecEntry _ | .xabort _ | .xend => 0
  | _ => v

namespace TracedState

/-- The record after an action. -/
def observe (cfg : TxConfig) (ty : LockType) (s : TracedState) (a : HtmAct) : LockHistory :=
  match a with
  | .call _ => s.hist
  | .htmBegin => s.hist.push (.xbegin, xbeginStarted)
  | .htmAbort status => (if s.htm.depth ≠ 0 then s.saved else s.hist).push (.xbegin, status)
  | .run v =>
    match s.htm.thread.code with
    | .app => s.hist
    | .call _ _ (.op o _) =>
      if (lockCode cfg ty o).isSome then
        { s.hist with now := some { op := o, inside := s.htm.depth ≠ 0 } }
      else s.hist
    | .call _ _ (.ret _) | .call _ _ .halt => s.hist
    | .lockFun _ _ _ _ (.ret _) => ⟨s.hist.calls, none⟩
    | .lockFun _ _ _ _ (.op lo _) =>
      match lo, s.htm.depth with
      -- the process is gone
      | .assertFail, 0 | .xend, 0 => s.hist
      -- the transaction aborts
      | .assertFail, _ + 1 => s.saved.push (.xbegin, 0)
      | .xabort code, _ + 1 => s.saved.push (.xbegin, explicitStatus code)
      | lo, _ => s.hist.push (lo, s.htm.answer lo v)
    | .lockFun _ _ _ _ .halt => s.hist

/-- One step of the system. -/
def step (cfg : TxConfig) (ty : LockType) (s : TracedState) (a : HtmAct) : Option TracedState :=
  if a.NonNull then
    (s.htm.step cfg ty a).map fun h =>
      { htm := h
        hist := s.observe cfg ty a
        saved := if s.htm.depth = 0 then s.hist else s.saved }
  else none

end TracedState

/-- A thread that uses locks of type `ty`. -/
def tracedThread (cfg : TxConfig) (ty : LockType) : System TracedState HtmAct where
  init s := s = {}
  step := TracedState.step cfg ty

end TxLock.Native
