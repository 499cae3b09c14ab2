import TxLock.Native.Txutil

/-!
# The eliding test-and-set lock

`tas_hle` of `txlock.c`, for any number of locks and threads. Unlike the other
speculating locks it commits: `tas_lock_hle` begins a transaction and reads the lock
word in it, `tas_unlock_hle` ends the innermost transaction if one is active and
stores 0 to the lock word otherwise.

Transactions are nested flat. The outermost begin saves where the thread goes on
after an abort and the caller's record; an abort may come at any moment and goes
back there. A store to a lock word that a transaction of another thread has read
aborts that transaction.
-/

namespace TxLock.Native

/-- Where a thread is in the code of `tas_hle`. -/
inductive HlePc (Lid : Type) where
  | out
  /-- `tas_lock_hle`: in `enter_htm(0)`, about to begin. -/
  | enterHtm (l : Lid) (tries : Word)
  /-- The transaction has begun; about to evaluate `l->val==1`. -/
  | check (l : Lid)
  /-- `while (1) spin_wait(..)`, waiting for the abort. -/
  | hang (l : Lid)
  /-- Out of tries, `tatas`: about to read the lock word. -/
  | testRead (l : Lid)
  /-- `tatas`: about to swap 1 into the lock word. -/
  | testSwap (l : Lid)
  deriving DecidableEq, Repr

/-- What the outermost begin saves: the call it is in, and the caller's record. -/
structure HleSaved (Lid : Type) where
  lock : Lid
  tries : Word
  locked : List Lid
  deriving DecidableEq, Repr

/-- One thread. -/
structure HleThread (Lid : Type) where
  pc : HlePc Lid := .out
  /-- The caller's record: locked and not unlocked since. -/
  locked : List Lid := []
  /-- The locks whose word this thread has swapped from 0 to 1 and not reset since. -/
  owned : List Lid := []
  /-- Nesting depth; a transaction is active when it is not 0. -/
  depth : Nat := 0
  /-- The lock words the active transaction has read. -/
  readSet : List Lid := []
  /-- Saved by the outermost begin, meaningful while a transaction is active. -/
  saved : Option (HleSaved Lid) := none
  deriving DecidableEq, Repr

/-- The lock words and the threads. -/
structure HleState (Tid Lid : Type) where
  val : Lid → Word
  thread : Tid → HleThread Lid
  /-- An assertion has failed and the process is gone. -/
  aborted : Bool

/-- What a thread does next. -/
inductive HleAct (Tid Lid : Type) where
  | lock (t : Tid) (l : Lid)
  | trylock (t : Tid) (l : Lid)
  | unlock (t : Tid) (l : Lid)
  /-- The next step of the code thread `t` is in. -/
  | run (t : Tid)
  /-- The begin instruction of `enter_htm` starts a transaction. -/
  | htmStart (t : Tid)
  /-- The begin fails, or the active transaction aborts. -/
  | htmAbort (t : Tid)
  deriving DecidableEq, Repr

namespace HleThread

variable {Lid : Type} [DecidableEq Lid]

/-- `enter_htm` returned 1 in the call of `tas_lock_hle(l)`: try again or fall back. -/
def htmFailed (cfg : TmParams) (th : HleThread Lid) (l : Lid) (tries : Word) : HleThread Lid :=
  if tries + 1 ≥ cfg.numTries then { th with pc := .testRead l }
  else { th with pc := .enterHtm l (tries + 1) }

/-- The active transaction aborts: back to the outermost begin. -/
def rollback (cfg : TmParams) (th : HleThread Lid) : HleThread Lid :=
  match th.saved with
  | some sv =>
    { th with locked := sv.locked, depth := 0, readSet := [], saved := none }.htmFailed cfg
      sv.lock sv.tries
  | none => th

/-- The begin instruction succeeds. -/
def htmBegin (th : HleThread Lid) (l : Lid) (tries : Word) : HleThread Lid :=
  if th.depth = 0 then
    { th with pc := .check l, depth := 1, readSet := [], saved := some ⟨l, tries, th.locked⟩ }
  else { th with pc := .check l, depth := th.depth + 1 }

/-- `HTM_END`: leave the innermost transaction; the outermost one commits. -/
def htmEnd (th : HleThread Lid) : HleThread Lid :=
  if th.depth = 1 then { th with depth := 0, readSet := [], saved := none }
  else { th with depth := th.depth - 1 }

end HleThread

namespace HleState

variable {Tid Lid : Type} [DecidableEq Tid] [DecidableEq Lid]

/-- Replace thread `t`. -/
def setThread (s : HleState Tid Lid) (t : Tid) (th : HleThread Lid) : HleState Tid Lid :=
  { s with thread := Function.update s.thread t th }

/-- Thread `t` stores `w` to the word of `l`: every other transaction that has read the
    word aborts. -/
def store (cfg : TmParams) (s : HleState Tid Lid) (t : Tid) (l : Lid) (w : Word) :
    HleState Tid Lid :=
  { s with
    val := Function.update s.val l w
    thread := fun u =>
      if u ≠ t ∧ (s.thread u).depth ≠ 0 ∧ l ∈ (s.thread u).readSet then
        (s.thread u).rollback cfg
      else s.thread u }

/-- The next step of the code thread `t` is in. -/
def runStep (cfg : TmParams) (s : HleState Tid Lid) (t : Tid) : Option (HleState Tid Lid) :=
  let th := s.thread t
  match th.pc with
  -- `if (HTM_IS_ACTIVE() && (l->val==1))`, in the transaction just begun
  | .check l =>
    let th := { th with readSet := l :: th.readSet }
    if s.val l = 1 then some (s.setThread t { th with pc := .hang l })
    else some (s.setThread t { th with pc := .out, locked := l :: th.locked })
  -- "locked by other thread, waiting for abort"
  | .hang _ => some s
  -- out of tries: `while (tatas(&l->val, 1)){s = spin_wait(s);}`
  | .testRead l =>
    if s.val l ≠ 0 then some s else some (s.setThread t { th with pc := .testSwap l })
  | .testSwap l =>
    -- the swap stores 1 whatever it finds; not in a transaction, the call returns 0
    if s.val l ≠ 0 then some ((s.store cfg t l 1).setThread t { th with pc := .testRead l })
    else some ((s.store cfg t l 1).setThread t
      { th with pc := .out, locked := l :: th.locked, owned := l :: th.owned })
  | .out | .enterHtm _ _ => none

/-- One step of the system. A thread locks only locks it has not locked and unlocks only
    locks it has. -/
def step (cfg : TmParams) (s : HleState Tid Lid) (a : HleAct Tid Lid) :
    Option (HleState Tid Lid) :=
  if s.aborted then none else
  match a with
  | .lock t l =>
    let th := s.thread t
    if th.pc = .out ∧ l ∉ th.locked then some (s.setThread t { th with pc := .enterHtm l 0 })
    else none
  -- `tas_trylock_hle` is `assert(0)`; in a transaction the failing assertion aborts it
  | .trylock t _ =>
    let th := s.thread t
    if th.pc = .out then
      if th.depth ≠ 0 then some (s.setThread t (th.rollback cfg))
      else some { s with aborted := true }
    else none
  | .unlock t l =>
    let th := s.thread t
    if th.pc = .out ∧ l ∈ th.locked then
      -- `if (HTM_IS_ACTIVE()) { HTM_END(); }`, whatever lock the transaction is for
      if th.depth ≠ 0 then
        some (s.setThread t { th.htmEnd with locked := th.locked.erase l })
      else some ((s.store cfg t l 0).setThread t
        { th with locked := th.locked.erase l, owned := th.owned.erase l })
    else none
  | .run t => s.runStep cfg t
  | .htmStart t =>
    match (s.thread t).pc with
    | .enterHtm l tries => some (s.setThread t ((s.thread t).htmBegin l tries))
    | _ => none
  | .htmAbort t =>
    let th := s.thread t
    if th.depth ≠ 0 then some (s.setThread t (th.rollback cfg))
    else match th.pc with
      | .enterHtm l tries => some (s.setThread t (th.htmFailed cfg l tries))
      | _ => none

end HleState

/-- Threads using any locks of type `tas_hle`, all of them free at the start. -/
def tasHle (Tid Lid : Type) [DecidableEq Tid] [DecidableEq Lid] (cfg : TmParams) :
    System (HleState Tid Lid) (HleAct Tid Lid) where
  init s := s = ⟨fun _ => 0, fun _ => {}, false⟩
  step := HleState.step cfg

end TxLock.Native
