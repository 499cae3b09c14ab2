import Mathlib.Data.Finset.Erase
import Mathlib.Data.Finset.Insert
import TxLock.Native.Txutil

/-!
# The test-and-set lock with priority for waiters

`tas_priority_tm` of `txlock.c`, for any number of locks and threads. The lock is one
64-bit word with three fields: `val` says that it is taken, `ready` counts the threads
that wait for it, `cnt` is not used. A thread takes a snapshot of the whole word and
decides by the `ready` of the snapshot, but sets the fields by atomics of their own.

A thread that gets no lock begins a transaction and goes on in it without the lock.
The transaction is never committed: an abort, which may come at any moment, goes back
to `enter_htm`, and the thread counts itself in `ready` and waits for the lock.
-/

namespace TxLock.Native

/-- `all` of a `tas_lock_t`, made up of its fields. -/
def TasAll.pack (val : Word) (ready cnt : BitVec 16) : BitVec 64 :=
  val.setWidth 64 ||| ready.setWidth 64 <<< 32 ||| cnt.setWidth 64 <<< 48

/-- The field `val`, an `int32_t`. -/
def TasAll.val (w : BitVec 64) : Word := w.extractLsb' 0 32

/-- The field `ready`, an `int16_t`. -/
def TasAll.ready (w : BitVec 64) : BitVec 16 := w.extractLsb' 32 16

/-- The field `cnt`, an `int16_t`. -/
def TasAll.cnt (w : BitVec 64) : BitVec 16 := w.extractLsb' 48 16

/-- Store to `val`. -/
def TasAll.setVal (w : BitVec 64) (v : Word) : BitVec 64 := TasAll.pack v (ready w) (cnt w)

/-- `__sync_fetch_and_add(&lk->ready, d)`. -/
def TasAll.addReady (w : BitVec 64) (d : BitVec 16) : BitVec 64 :=
  TasAll.pack (val w) (ready w + d) (cnt w)

/-- Where a thread is in the code of `tas_priority_tm`. -/
inductive PrioPc (Lid : Type) where
  | out
  /-- `tas_priority_lock_tm`: about to read `lk->all`. -/
  | readAll (l : Lid)
  /-- `tatas` after a snapshot with `ready` 0: about to read `lk->val`. -/
  | fastRead (l : Lid) (copy : BitVec 64)
  /-- The same, about to swap 1 into `lk->val`. -/
  | fastSwap (l : Lid) (copy : BitVec 64)
  /-- In `enter_htm`, about to begin a transaction. -/
  | enterHtm (l : Lid)
  /-- `enter_htm` has returned 1: about to add 1 to `ready`. -/
  | incReady (l : Lid)
  /-- `while (tatas(&lk->val, 1)){}`: about to read `lk->val`. -/
  | waitRead (l : Lid)
  /-- The same, about to swap 1 into `lk->val`. -/
  | waitSwap (l : Lid)
  /-- About to add -1 to `ready`. -/
  | decReady (l : Lid)
  /-- `tas_priority_trylock_tm`: about to read `lk->all`. -/
  | tryAll (l : Lid)
  /-- `tatas` after a snapshot with `ready` 0: about to read `lk->val`. -/
  | tryRead (l : Lid)
  /-- The same, about to swap 1 into `lk->val`. -/
  | trySwap (l : Lid)
  deriving DecidableEq, Repr

/-- What the begin of a transaction saves: the call it is in, and the caller's record. -/
structure PrioSaved (Lid : Type) where
  lock : Lid
  locked : Finset Lid
  deriving DecidableEq

/-- One thread. -/
structure PrioThread (Lid : Type) where
  pc : PrioPc Lid := .out
  /-- The caller's record: locked and not unlocked since. -/
  locked : Finset Lid := ∅
  /-- In a transaction: `spec_entry` is not 0. -/
  spec : Option (PrioSaved Lid) := none
  deriving DecidableEq

/-- The lock words and the threads. -/
structure PrioState (Tid Lid : Type) where
  all : Lid → BitVec 64
  thread : Tid → PrioThread Lid

/-- What a thread does next. -/
inductive PrioAct (Tid Lid : Type) where
  | lock (t : Tid) (l : Lid)
  | trylock (t : Tid) (l : Lid)
  | unlock (t : Tid) (l : Lid)
  /-- The next step of the code thread `t` is in. -/
  | run (t : Tid)
  /-- The begin instruction of `enter_htm` starts a transaction. -/
  | htmStart (t : Tid)
  /-- The begin fails, or the transaction aborts. -/
  | htmAbort (t : Tid)
  deriving DecidableEq, Repr

/-- `copy.ready < TK_MAX_DISTANCE-TK_MIN_DISTANCE`: an `int` against a `uint32_t`. -/
def TmParams.mayWait (cfg : TmParams) (copy : BitVec 64) : Bool :=
  (TasAll.ready copy).signExtend 32 < cfg.maxDistance - cfg.minDistance

/-- The loop of `tas_priority_lock_tm` after the test-and-set: speculate, or once more. -/
def PrioPc.afterFast {Lid : Type} (cfg : TmParams) (l : Lid) (copy : BitVec 64) : PrioPc Lid :=
  if cfg.mayWait copy then .enterHtm l else .readAll l

namespace PrioState

variable {Tid Lid : Type} [DecidableEq Tid] [DecidableEq Lid]

def setThread (s : PrioState Tid Lid) (t : Tid) (th : PrioThread Lid) : PrioState Tid Lid :=
  { s with thread := Function.update s.thread t th }

def setAll (s : PrioState Tid Lid) (l : Lid) (w : BitVec 64) : PrioState Tid Lid :=
  { s with all := Function.update s.all l w }

/-- Thread `t` goes on at `pc`. -/
def goto (s : PrioState Tid Lid) (t : Tid) (pc : PrioPc Lid) : PrioState Tid Lid :=
  s.setThread t { s.thread t with pc := pc }

/-- Thread `t` returns 0, and the caller has locked `l`. -/
def gets (s : PrioState Tid Lid) (t : Tid) (l : Lid) : PrioState Tid Lid :=
  s.setThread t { s.thread t with pc := .out, locked := insert l (s.thread t).locked }

/-- `__sync_lock_test_and_set(&lk->val, 1)`: the swap stores 1 whatever it finds. -/
def swapVal (s : PrioState Tid Lid) (l : Lid) : PrioState Tid Lid :=
  s.setAll l (TasAll.setVal (s.all l) 1)

/-- The next step of the code thread `t` is in. -/
def runStep (cfg : TmParams) (s : PrioState Tid Lid) (t : Tid) : Option (PrioState Tid Lid) :=
  match (s.thread t).pc with
  -- `copy.all = lk->all;`
  | .readAll l =>
    let copy := s.all l
    if TasAll.ready copy = 0 then some (s.goto t (.fastRead l copy))
    else some (s.goto t (.afterFast cfg l copy))
  -- `if (!tatas(&lk->val, 1)) { break; }`
  | .fastRead l copy =>
    if TasAll.val (s.all l) ≠ 0 then some (s.goto t (.afterFast cfg l copy))
    else some (s.goto t (.fastSwap l copy))
  | .fastSwap l copy =>
    if TasAll.val (s.all l) ≠ 0 then some ((s.swapVal l).goto t (.afterFast cfg l copy))
    else some ((s.swapVal l).gets t l)
  -- after `enter_htm` has returned 1: wait with `ready` raised
  | .incReady l => some ((s.setAll l (TasAll.addReady (s.all l) 1)).goto t (.waitRead l))
  | .waitRead l =>
    if TasAll.val (s.all l) ≠ 0 then some s else some (s.goto t (.waitSwap l))
  | .waitSwap l =>
    if TasAll.val (s.all l) ≠ 0 then some ((s.swapVal l).goto t (.waitRead l))
    else some ((s.swapVal l).goto t (.decReady l))
  | .decReady l => some ((s.setAll l (TasAll.addReady (s.all l) (-1))).gets t l)
  -- `if(copy.ready==0 && (tatas(&lk->val, 1)==0))` of `tas_priority_trylock_tm`
  | .tryAll l =>
    if TasAll.ready (s.all l) = 0 then some (s.goto t (.tryRead l)) else some (s.goto t .out)
  | .tryRead l =>
    if TasAll.val (s.all l) ≠ 0 then some (s.goto t .out) else some (s.goto t (.trySwap l))
  | .trySwap l =>
    if TasAll.val (s.all l) ≠ 0 then some ((s.swapVal l).goto t .out)
    else some ((s.swapVal l).gets t l)
  | .out | .enterHtm _ => none

/-- One step of the system. A thread unlocks only locks it has. In a transaction the three
    functions do nothing and return 0. -/
def step (cfg : TmParams) (s : PrioState Tid Lid) (a : PrioAct Tid Lid) :
    Option (PrioState Tid Lid) :=
  match a with
  | .lock t l =>
    if (s.thread t).pc ≠ .out then none
    else if (s.thread t).spec.isSome then some (s.gets t l)
    else some (s.goto t (.readAll l))
  | .trylock t l =>
    if (s.thread t).pc ≠ .out then none
    else if (s.thread t).spec.isSome then some (s.gets t l)
    else some (s.goto t (.tryAll l))
  | .unlock t l =>
    let th := s.thread t
    if th.pc ≠ .out ∨ l ∉ th.locked then none
    else
      let s' := s.setThread t { th with locked := th.locked.erase l }
      -- `__sync_lock_release(&l->val);` leaves `ready` and `cnt` as they are
      if th.spec.isSome then some s' else some (s'.setAll l (TasAll.setVal (s.all l) 0))
  | .run t => s.runStep cfg t
  | .htmStart t =>
    let th := s.thread t
    match th.pc with
    | .enterHtm l => some (s.setThread t
        { pc := .out, locked := insert l th.locked, spec := some ⟨l, th.locked⟩ })
    | _ => none
  | .htmAbort t =>
    let th := s.thread t
    match th.spec with
    | some sv => some (s.setThread t { pc := .incReady sv.lock, locked := sv.locked, spec := none })
    | none =>
      match th.pc with
      | .enterHtm l => some (s.goto t (.incReady l))
      | _ => none

end PrioState

/-- Threads using any locks of type `tas_priority_tm`, all of them zero at the start. -/
def tasPriority (Tid Lid : Type) [DecidableEq Tid] [DecidableEq Lid] (cfg : TmParams) :
    System (PrioState Tid Lid) (PrioAct Tid Lid) where
  init s := s = ⟨fun _ => 0, fun _ => {}⟩
  step := PrioState.step cfg

end TxLock.Native
