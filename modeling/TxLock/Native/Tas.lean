import Mathlib.Data.Finset.Erase
import Mathlib.Data.Finset.Insert
import TxLock.Native.Txutil

/-!
# The test-and-set locks

`tas` and `tas_tm` of `txlock.c`, for any number of locks and threads. The lock is the
field `val` of a `tas_lock_t`; `tatas` reads it and, where it is 0, swaps 1 into it, two
steps here.

A thread of `tas_tm` that finds the lock taken begins a transaction and goes on in it
without the lock. The transaction is never committed: an abort, which may come at any
moment, goes back to `enter_htm`, and the thread tries again or waits for the lock.
-/

namespace TxLock.Native

/-- Where a thread is in the code of `tas` or `tas_tm`. -/
inductive TasPc (Lid : Type) where
  | out
  /-- `tas_lock_tm`: `tatas` in the loop that speculates, about to read `l->val`. -/
  | testRead (l : Lid) (tries : Word)
  /-- The same, about to swap 1 into `l->val`. -/
  | testSwap (l : Lid) (tries : Word)
  /-- In `enter_htm`, about to begin a transaction. -/
  | enterHtm (l : Lid) (tries : Word)
  /-- The loop around `tatas` that only waits: about to read `l->val`. -/
  | waitRead (l : Lid)
  | waitSwap (l : Lid)
  /-- `tas_trylock`, `tas_trylock_tm`: about to read `l->val`. -/
  | tryRead (l : Lid)
  | trySwap (l : Lid)
  deriving DecidableEq, Repr

/-- What the begin of a transaction saves: the call it is in, and the caller's record. -/
structure TasSaved (Lid : Type) where
  lock : Lid
  tries : Word
  locked : Finset Lid
  deriving DecidableEq

/-- One thread. -/
structure TasThread (Lid : Type) where
  pc : TasPc Lid := .out
  /-- The caller's record: locked and not unlocked since. -/
  locked : Finset Lid := ∅
  /-- In a transaction: `spec_entry` is not 0. -/
  spec : Option (TasSaved Lid) := none
  deriving DecidableEq

/-- The lock words and the threads. -/
structure TasState (Tid Lid : Type) where
  val : Lid → Word
  thread : Tid → TasThread Lid

/-- What a thread does next. -/
inductive TasAct (Tid Lid : Type) where
  | lock (t : Tid) (l : Lid)
  | trylock (t : Tid) (l : Lid)
  | unlock (t : Tid) (l : Lid)
  /-- The next step of the code thread `t` is in. -/
  | run (t : Tid)
  /-- The begin instruction of `enter_htm` starts a transaction. -/
  | htmStart (t : Tid)
  /-- The begin fails, or the transaction aborts. -/
  | htmAbort (t : Tid)
  deriving DecidableEq, Repr

/-- `enter_htm` returned 1 in `tas_lock_tm`: try again, or out of tries. -/
def TasPc.htmFailed {Lid : Type} (cfg : TmParams) (l : Lid) (tries : Word) : TasPc Lid :=
  if tries + 1 ≥ cfg.numTries then .waitRead l else .testRead l (tries + 1)

namespace TasState

variable {Tid Lid : Type} [DecidableEq Tid] [DecidableEq Lid]

def setThread (s : TasState Tid Lid) (t : Tid) (th : TasThread Lid) : TasState Tid Lid :=
  { s with thread := Function.update s.thread t th }

def setVal (s : TasState Tid Lid) (l : Lid) (w : Word) : TasState Tid Lid :=
  { s with val := Function.update s.val l w }

/-- Thread `t` goes on at `pc`. -/
def goto (s : TasState Tid Lid) (t : Tid) (pc : TasPc Lid) : TasState Tid Lid :=
  s.setThread t { s.thread t with pc := pc }

/-- Thread `t` returns 0, and the caller has locked `l`. -/
def gets (s : TasState Tid Lid) (t : Tid) (l : Lid) : TasState Tid Lid :=
  s.setThread t { s.thread t with pc := .out, locked := insert l (s.thread t).locked }

/-- The next step of the code thread `t` is in. The swap stores 1 whatever it finds. -/
def runStep (s : TasState Tid Lid) (t : Tid) : Option (TasState Tid Lid) :=
  match (s.thread t).pc with
  -- the first half of `tatas`, "if lock is held, start speculating"
  | .testRead l tries =>
    if s.val l ≠ 0 then some (s.goto t (.enterHtm l tries)) else some (s.goto t (.testSwap l tries))
  | .testSwap l tries =>
    if s.val l ≠ 0 then some ((s.setVal l 1).goto t (.enterHtm l tries))
    else some ((s.setVal l 1).gets t l)
  -- `while (tatas(&l->val, 1)){s = spin_wait(s);}`
  | .waitRead l => if s.val l ≠ 0 then some s else some (s.goto t (.waitSwap l))
  | .waitSwap l =>
    if s.val l ≠ 0 then some ((s.setVal l 1).goto t (.waitRead l))
    else some ((s.setVal l 1).gets t l)
  -- `tas_trylock` and `tas_trylock_tm`, which return 1 when `tatas` is not 0
  | .tryRead l =>
    if s.val l ≠ 0 then some (s.goto t .out) else some (s.goto t (.trySwap l))
  | .trySwap l =>
    if s.val l ≠ 0 then some ((s.setVal l 1).goto t .out) else some ((s.setVal l 1).gets t l)
  | .out | .enterHtm _ _ => none

/-- One step of the system; `tm` tells `tas_tm` from `tas`. A thread unlocks only locks it
    has. In a transaction the functions of `tas_tm` do nothing and return 0. -/
def step (cfg : TmParams) (tm : Bool) (s : TasState Tid Lid) (a : TasAct Tid Lid) :
    Option (TasState Tid Lid) :=
  match a with
  | .lock t l =>
    if (s.thread t).pc ≠ .out then none
    else if tm ∧ (s.thread t).spec.isSome then some (s.gets t l)
    else if tm then some (s.goto t (.testRead l 0))
    else some (s.goto t (.waitRead l))
  | .trylock t l =>
    if (s.thread t).pc ≠ .out then none
    else if tm ∧ (s.thread t).spec.isSome then some (s.gets t l)
    else some (s.goto t (.tryRead l))
  | .unlock t l =>
    let th := s.thread t
    if th.pc ≠ .out ∨ l ∉ th.locked then none
    else
      let s' := s.setThread t { th with locked := th.locked.erase l }
      -- `__sync_lock_release(&l->val);`, if not in a transaction
      if tm ∧ th.spec.isSome then some s' else some (s'.setVal l 0)
  | .run t => s.runStep t
  | .htmStart t =>
    let th := s.thread t
    match th.pc with
    | .enterHtm l tries => some (s.setThread t
        { pc := .out, locked := insert l th.locked, spec := some ⟨l, tries, th.locked⟩ })
    | _ => none
  | .htmAbort t =>
    let th := s.thread t
    match th.spec with
    -- back to the begin, with what the caller had locked then
    | some sv => some (s.setThread t
        { pc := .htmFailed cfg sv.lock sv.tries, locked := sv.locked, spec := none })
    | none =>
      match th.pc with
      | .enterHtm l tries => some (s.goto t (.htmFailed cfg l tries))
      | _ => none

end TasState

/-- Threads using any locks of type `tas` or (`tm`) `tas_tm`, all of them free at the start. -/
def tas (Tid Lid : Type) [DecidableEq Tid] [DecidableEq Lid] (cfg : TmParams) (tm : Bool) :
    System (TasState Tid Lid) (TasAct Tid Lid) where
  init s := s = ⟨fun _ => 0, fun _ => {}⟩
  step := TasState.step cfg tm

end TxLock.Native
