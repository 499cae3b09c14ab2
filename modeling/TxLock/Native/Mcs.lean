import TxLock.ForStd.System
import TxLock.Native.McsPool
import TxLock.Native.Txutil

/-!
# The queue locks

`mcs` and `mcs_tm` of `txlock.c`, for any number of locks and threads. A thread that
wants the lock swaps a node of its own into `lk->tail`, links the node before it to its
own and waits until the thread before it clears the flag `wait` of its node. With
`mcs_tm` it also takes a number from that node, and may run its critical section in a
transaction while it waits; the transaction never commits.

Every access to a word that threads share is a step of its own. What a thread does with
its own nodes (`Native/McsPool`) goes with the step before it.

A node is known by its thread and its number there. The counters start at 0 and are 64 bits
wide: `cnt` of a node is unsigned, `now_serving` and the copies of a counter that a thread keeps
are signed. All arithmetic on them wraps.
-/

namespace TxLock.Native

/-- The fields of a queue node that other threads read or write. -/
structure McsNode (Tid : Type) where
  lockNext : Option (Tid × Nat) := none
  wait : Bool := true
  speculate : Bool := true
  cnt : BitVec 64 := 0
  /-- History: the acquisition of its lock that the node was last queued for. -/
  turn : Nat := 0
  deriving DecidableEq, Repr

/-- History of one acquisition of a lock: the node in its place in the order of `tail`, the
    node before it when it was queued, the `cnt` given to the node, and whether
    `mcs_lock_common` has returned. -/
structure McsTurn (Tid : Type) where
  node : Tid × Nat
  pred : Option (Tid × Nat)
  cnt : Option (BitVec 64) := none
  acquired : Bool := false
  deriving DecidableEq, Repr

/-- `mcs_lock_t` -/
structure McsLock (Tid : Type) where
  tail : Option (Tid × Nat) := none
  nowServing : BitVec 64 := 0
  /-- History: the acquisitions in the order in which their nodes were queued. -/
  turns : List (McsTurn Tid) := []
  /-- History: how many of them have left the queue. -/
  released : Nat := 0
  deriving DecidableEq, Repr

/-- Where a thread is in the code. `mine` is its node, `pred` the node before it. -/
inductive McsPc (Tid Lid : Type) where
  /-- Not in the code of the locks. -/
  | out
  /-- `mcs_lock_common`: about to write `mine->lock_next`. -/
  | initLockNext (lk : Lid) (tryLock : Bool) (mine : Nat)
  | initWait (lk : Lid) (tryLock : Bool) (mine : Nat)
  | initSpeculate (lk : Lid) (tryLock : Bool) (mine : Nat)
  | initCnt (lk : Lid) (tryLock : Bool) (mine : Nat)
  /-- About to swap `mine` into `lk->tail`. -/
  | swapTail (lk : Lid) (mine : Nat)
  /-- `try_lock`: about to compare-and-swap `lk->tail`. -/
  | casTail (lk : Lid) (mine : Nat)
  /-- About to write `pred->lock_next`. -/
  | link (lk : Lid) (mine : Nat) (pred : Tid × Nat)
  /-- `while (mine->wait) {}`, without `tm`. -/
  | spinWait (lk : Lid) (mine : Nat)
  /-- `while(pred->cnt==0){}` -/
  | spinCnt (lk : Lid) (mine : Nat) (pred : Tid × Nat)
  /-- `long cnt = pred->cnt+1` -/
  | readCnt (lk : Lid) (mine : Nat) (pred : Tid × Nat)
  | writeCnt (lk : Lid) (mine : Nat) (cnt : BitVec 64)
  /-- About to read `lk->now_serving` and to decide whether to speculate. -/
  | readServing (lk : Lid) (mine : Nat) (cnt : BitVec 64)
  /-- `spec_entry` is set, at `HTM_SIMPLE_BEGIN()`. -/
  | htmBegin (lk : Lid) (mine : Nat) (cnt : BitVec 64)
  /-- In the transaction, about to read `mine->speculate`. -/
  | checkSpeculate (lk : Lid) (mine : Nat) (cnt : BitVec 64)
  | checkWait (lk : Lid) (mine : Nat) (cnt : BitVec 64)
  /-- `mcs_lock_common` has returned in the transaction. -/
  | speculating (lk : Lid) (mine : Nat) (cnt : BitVec 64)
  /-- `while (mine->wait) {}`, with `tm`. -/
  | spinWaitTm (lk : Lid) (mine : Nat) (cnt : BitVec 64)
  /-- `assert(lk->now_serving == cnt-1)` -/
  | assertServing (lk : Lid) (mine : Nat) (cnt : BitVec 64)
  /-- `lk->now_serving = cnt` -/
  | writeServing (lk : Lid) (mine : Nat) (cnt : BitVec 64)
  /-- `mine->cnt=lk->now_serving+1`, about to read. -/
  | firstRead (lk : Lid) (mine : Nat)
  | firstWriteCnt (lk : Lid) (mine : Nat) (cnt : BitVec 64)
  /-- `lk->now_serving++`, about to read. -/
  | firstReadAgain (lk : Lid) (mine : Nat)
  | firstWrite (lk : Lid) (mine : Nat) (now : BitVec 64)
  /-- `mcs_unlock_common`: `if (mine->lock_next == NULL)`. -/
  | readNext (lk : Lid) (mine : Nat)
  /-- About to compare-and-swap `NULL` into `lk->tail`. -/
  | clearTail (lk : Lid) (mine : Nat)
  /-- `while (mine->lock_next == NULL) { }` -/
  | spinNext (lk : Lid) (mine : Nat)
  /-- `current = mine->lock_next` -/
  | haltFirst (lk : Lid) (mine : Nat)
  /-- In the walk that halts speculators, at `current`. -/
  | haltAt (lk : Lid) (mine : Nat) (current : Option (Tid × Nat)) (dist : Word)
  /-- `current = current->lock_next` -/
  | haltNext (lk : Lid) (mine : Nat) (current : Tid × Nat) (dist : Word)
  /-- `mine->lock_next->wait = false`, about to read the link. -/
  | readSuccessor (lk : Lid) (mine : Nat)
  | clearWait (lk : Lid) (mine : Nat) (next : Tid × Nat)
  /-- `dealloc_node`, about to write `mine->lock_next`. -/
  | dealloc (lk : Lid) (mine : Nat)
  deriving DecidableEq, Repr

/-- One thread. -/
structure McsThread (Tid Lid : Type) where
  pc : McsPc Tid Lid := .out
  pool : McsPool Lid := {}
  /-- The caller's record: the locks it has, each with the node it took it with. -/
  held : List (Lid × Nat) := []
  /-- The value of the last call. -/
  ret : Option Int := none

/-- The nodes, the locks and the threads. -/
structure McsState (Tid Lid : Type) where
  node : Tid × Nat → McsNode Tid := fun _ => {}
  lock : Lid → McsLock Tid := fun _ => {}
  thread : Tid → McsThread Tid Lid := fun _ => {}
  /-- An assertion has failed and the process is gone. -/
  aborted : Bool := false

/-- What a thread does next. -/
inductive McsAct (Tid Lid : Type) where
  | lock (t : Tid) (lk : Lid)
  | trylock (t : Tid) (lk : Lid)
  | unlock (t : Tid) (lk : Lid)
  /-- The next step of the code thread `t` is in. -/
  | run (t : Tid)
  /-- The begin instruction starts the transaction. -/
  | htmStart (t : Tid)
  /-- The begin fails, or the transaction aborts. -/
  | htmAbort (t : Tid)
  deriving DecidableEq, Repr

/-- `spec_entry`, which is set while the thread is about to begin or in the transaction. -/
def McsPc.specEntry {Tid Lid : Type} : McsPc Tid Lid → Option Lid
  | .htmBegin lk _ _ | .checkSpeculate lk _ _ | .checkWait lk _ _ | .speculating lk _ _ => some lk
  | .out | .initLockNext _ _ _ | .initWait _ _ _ | .initSpeculate _ _ _ | .initCnt _ _ _
  | .swapTail _ _ | .casTail _ _ | .link _ _ _ | .spinWait _ _ | .spinCnt _ _ _ | .readCnt _ _ _
  | .writeCnt _ _ _ | .readServing _ _ _ | .spinWaitTm _ _ _ | .assertServing _ _ _
  | .writeServing _ _ _ | .firstRead _ _ | .firstWriteCnt _ _ _ | .firstReadAgain _ _
  | .firstWrite _ _ _ | .readNext _ _ | .clearTail _ _ | .spinNext _ _ | .haltFirst _ _
  | .haltAt _ _ _ _ | .haltNext _ _ _ _ | .readSuccessor _ _ | .clearWait _ _ _
  | .dealloc _ _ => none

/-- "decide whether to speculate", with `spec_entry` known to be `NULL`. -/
def inWindow (cfg : TmParams) (nowServing cnt : BitVec 64) : Bool :=
  nowServing.slt (cnt - cfg.minDistance.setWidth 64) &&
    (cnt - cfg.maxDistance.setWidth 64).slt nowServing

namespace McsState

variable {Tid Lid : Type} [DecidableEq Tid] [DecidableEq Lid]

/-- Replace thread `t`. -/
def setThread (s : McsState Tid Lid) (t : Tid) (th : McsThread Tid Lid) : McsState Tid Lid :=
  { s with thread := Function.update s.thread t th }

/-- Thread `t` goes on at `pc`. -/
def goto (s : McsState Tid Lid) (t : Tid) (pc : McsPc Tid Lid) : McsState Tid Lid :=
  s.setThread t { s.thread t with pc := pc }

/-- Write the node `n`. -/
def setNode (s : McsState Tid Lid) (n : Tid × Nat) (x : McsNode Tid) : McsState Tid Lid :=
  { s with node := Function.update s.node n x }

/-- Write the lock `lk`. -/
def setLock (s : McsState Tid Lid) (lk : Lid) (x : McsLock Tid) : McsState Tid Lid :=
  { s with lock := Function.update s.lock lk x }

/-- Enter the history of the acquisition the node `n` is queued for. -/
def record (s : McsState Tid Lid) (lk : Lid) (n : Tid × Nat) (f : McsTurn Tid → McsTurn Tid) :
    McsState Tid Lid :=
  let l := s.lock lk
  s.setLock lk { l with turns := l.turns.modify (s.node n).turn f }

/-- The node's `cnt` becomes `cnt`. -/
def giveCnt (s : McsState Tid Lid) (lk : Lid) (n : Tid × Nat) (cnt : BitVec 64) : McsState Tid Lid :=
  (s.record lk n fun a => { a with cnt := some cnt }).setNode n { s.node n with cnt := cnt }

/-- `mcs_lock_common` returns 0 with the lock. -/
def acquired (s : McsState Tid Lid) (t : Tid) (lk : Lid) (mine : Nat) : McsState Tid Lid :=
  let th := s.thread t
  (s.record lk (t, mine) fun a => { a with acquired := true }).setThread t
    { th with pc := .out, held := (lk, mine) :: th.held, ret := some 0 }

/-- The node is in the queue: it is moved to the used list. -/
def enqueued (s : McsState Tid Lid) (t : Tid) (lk : Lid) (mine : Nat) (pc : McsPc Tid Lid) :
    McsState Tid Lid :=
  let th := s.thread t
  let l := s.lock lk
  let s := s.setNode (t, mine) { s.node (t, mine) with turn := l.turns.length }
  let s := s.setLock lk
    { l with tail := some (t, mine), turns := l.turns ++ [{ node := (t, mine), pred := l.tail }] }
  s.setThread t { th with pc := pc, pool := th.pool.useNode mine }

/-- `mine` is in the queue behind `pred`, or alone. Without `tm` the first one has the lock. -/
def enqueue (tm : Bool) (s : McsState Tid Lid) (t : Tid) (lk : Lid) (mine : Nat) :
    McsState Tid Lid :=
  match (s.lock lk).tail with
  | some pred => s.enqueued t lk mine (.link lk mine pred)
  | none =>
    if tm then s.enqueued t lk mine (.firstRead lk mine)
    else (s.enqueued t lk mine .out).acquired t lk mine

/-- The call of `lock` or `trylock` up to the first write to a shared word. -/
def callLock (s : McsState Tid Lid) (t : Tid) (lk : Lid) (tryLock : Bool) :
    Option (McsState Tid Lid) :=
  let th := s.thread t
  match th.pc with
  -- `if (spec_entry){return 0;}`
  | .speculating _ _ _ => if th.pc.specEntry.isSome then some s else none
  | .out =>
    if tryLock = false ∧ lk ∈ th.held.map Prod.fst then none
    else
      let mine := th.pool.getFreeNode.2
      some (s.setThread t
        { th with pc := .initLockNext lk tryLock mine, pool := th.pool.getFreeNode.1 })
  | _ => none

/-- The call of `unlock` with the search for the node. -/
def callUnlock (s : McsState Tid Lid) (t : Tid) (lk : Lid) : Option (McsState Tid Lid) :=
  let th := s.thread t
  match th.pc with
  -- `if(!spec_entry){return mcs_unlock_common(lk,true);} else{return 0;}`
  | .speculating _ _ _ => if th.pc.specEntry.isSome then some s else none
  | .out =>
    if lk ∈ th.held.map Prod.fst then
      match th.pool.findNode lk with
      | some mine => some (s.setThread t
          { th with pc := .readNext lk mine, held := th.held.filter fun h => h.1 ≠ lk })
      | none => some { s with aborted := true }
    else none
  | _ => none

/-- The next step of `mcs_lock_common` in thread `t`. -/
def runLock (cfg : TmParams) (tm : Bool) (s : McsState Tid Lid) (t : Tid) :
    Option (McsState Tid Lid) :=
  let th := s.thread t
  match th.pc with
  | .initLockNext lk tryLock mine =>
    -- with the write of `mine->lock`
    let s := s.setNode (t, mine) { s.node (t, mine) with lockNext := none }
    some (s.setThread t { th with pc := .initWait lk tryLock mine, pool := th.pool.setLock mine lk })
  | .initWait lk tryLock mine =>
    some ((s.setNode (t, mine) { s.node (t, mine) with wait := true }).goto t
      (.initSpeculate lk tryLock mine))
  | .initSpeculate lk tryLock mine =>
    some ((s.setNode (t, mine) { s.node (t, mine) with speculate := true }).goto t
      (.initCnt lk tryLock mine))
  | .initCnt lk tryLock mine =>
    some ((s.setNode (t, mine) { s.node (t, mine) with cnt := 0 }).goto t
      (if tryLock then .casTail lk mine else .swapTail lk mine))
  | .swapTail lk mine => some (s.enqueue tm t lk mine)
  | .casTail lk mine =>
    -- `if(!__sync_bool_compare_and_swap(&lk->tail, NULL, mine)){return 1;}`
    if (s.lock lk).tail = none then some (s.enqueue tm t lk mine)
    else some (s.setThread t { th with pc := .out, ret := some 1 })
  | .link lk mine pred =>
    some ((s.setNode pred { s.node pred with lockNext := some (t, mine) }).goto t
      (if tm then .spinCnt lk mine pred else .spinWait lk mine))
  | .spinWait lk mine =>
    -- `while (mine->wait) {}`, in `mcs` the last step
    if (s.node (t, mine)).wait then some s else some (s.acquired t lk mine)
  | .spinCnt lk mine pred =>
    -- "wait for predecessor to get its count"
    if (s.node pred).cnt = 0 then some s else some (s.goto t (.readCnt lk mine pred))
  -- `long cnt = pred->cnt+1;`
  | .readCnt lk mine pred => some (s.goto t (.writeCnt lk mine ((s.node pred).cnt + 1)))
  | .writeCnt lk mine cnt =>
    some ((s.giveCnt lk (t, mine) cnt).goto t (.readServing lk mine cnt))
  | .readServing lk mine cnt =>
    if inWindow cfg (s.lock lk).nowServing cnt && th.pc.specEntry.isNone then
      some (s.goto t (.htmBegin lk mine cnt))
    else some (s.goto t (.spinWaitTm lk mine cnt))
  -- `HTM_ABORT(0)` goes back to the begin, which fails
  | .checkSpeculate lk mine cnt =>
    if (s.node (t, mine)).speculate then some (s.goto t (.checkWait lk mine cnt))
    else some (s.goto t (.spinWaitTm lk mine cnt))
  | .checkWait lk mine cnt =>
    if (s.node (t, mine)).wait then
      some (s.setThread t { th with pc := .speculating lk mine cnt, ret := some 0 })
    else some (s.goto t (.spinWaitTm lk mine cnt))
  | .spinWaitTm lk mine cnt =>
    if (s.node (t, mine)).wait then some s else some (s.goto t (.assertServing lk mine cnt))
  | .assertServing lk mine cnt =>
    -- `assert(lk->now_serving == cnt-1);`
    if (s.lock lk).nowServing = cnt - 1 then some (s.goto t (.writeServing lk mine cnt))
    else some { s with aborted := true }
  | .writeServing lk mine cnt =>
    some ((s.setLock lk { s.lock lk with nowServing := cnt }).acquired t lk mine)
  -- `mine->cnt=lk->now_serving+1; lk->now_serving++;`, with two reads and two writes
  | .firstRead lk mine => some (s.goto t (.firstWriteCnt lk mine ((s.lock lk).nowServing + 1)))
  | .firstWriteCnt lk mine cnt =>
    some ((s.giveCnt lk (t, mine) cnt).goto t (.firstReadAgain lk mine))
  | .firstReadAgain lk mine => some (s.goto t (.firstWrite lk mine (s.lock lk).nowServing))
  | .firstWrite lk mine now =>
    some ((s.setLock lk { s.lock lk with nowServing := now + 1 }).acquired t lk mine)
  | .out | .htmBegin _ _ _ | .speculating _ _ _ | .readNext _ _ | .clearTail _ _ | .spinNext _ _
  | .haltFirst _ _ | .haltAt _ _ _ _ | .haltNext _ _ _ _ | .readSuccessor _ _ | .clearWait _ _ _
  | .dealloc _ _ => none

/-- The next step of `mcs_unlock_common` in thread `t`. -/
def runUnlock (cfg : TmParams) (tm : Bool) (s : McsState Tid Lid) (t : Tid) :
    Option (McsState Tid Lid) :=
  let th := s.thread t
  match th.pc with
  | .readNext lk mine =>
    match (s.node (t, mine)).lockNext with
    | none => some (s.goto t (.clearTail lk mine))
    | some _ => some (s.goto t (if tm then .haltFirst lk mine else .readSuccessor lk mine))
  | .clearTail lk mine =>
    -- "if my node is the only one, then if I can zero the lock, do so and I'm done"
    let l := s.lock lk
    if l.tail = some (t, mine) then
      some ((s.setLock lk { l with tail := none, released := l.released + 1 }).goto t
        (.dealloc lk mine))
    else some (s.goto t (.spinNext lk mine))
  | .spinNext lk mine =>
    match (s.node (t, mine)).lockNext with
    | none => some s
    | some _ => some (s.goto t (if tm then .haltFirst lk mine else .readSuccessor lk mine))
  -- `current = mine->lock_next; int dist = 1;`
  | .haltFirst lk mine => some (s.goto t (.haltAt lk mine (s.node (t, mine)).lockNext 1))
  -- `while(current!=NULL)`
  | .haltAt lk mine none _ => some (s.goto t (.readSuccessor lk mine))
  | .haltAt lk mine (some current) dist =>
    let s := if dist ≥ cfg.minDistance then
      s.setNode current { s.node current with speculate := false } else s
    -- `if(dist>TK_MAX_DISTANCE){break;}`, after the store
    if dist > cfg.maxDistance then some (s.goto t (.readSuccessor lk mine))
    else some (s.goto t (.haltNext lk mine current dist))
  | .haltNext lk mine current dist =>
    some (s.goto t (.haltAt lk mine (s.node current).lockNext (dist + 1)))
  | .readSuccessor lk mine =>
    match (s.node (t, mine)).lockNext with
    | some next => some (s.goto t (.clearWait lk mine next))
    -- a null pointer is written to
    | none => some { s with aborted := true }
  | .clearWait lk mine next =>
    let l := s.lock lk
    let s := s.setNode next { s.node next with wait := false }
    some ((s.setLock lk { l with released := l.released + 1 }).goto t (.dealloc lk mine))
  | .dealloc _ mine =>
    let s := s.setNode (t, mine) { s.node (t, mine) with lockNext := none }
    some (s.setThread t { th with pc := .out, pool := th.pool.deallocNode mine, ret := some 0 })
  | .out | .initLockNext _ _ _ | .initWait _ _ _ | .initSpeculate _ _ _ | .initCnt _ _ _
  | .swapTail _ _ | .casTail _ _ | .link _ _ _ | .spinWait _ _ | .spinCnt _ _ _ | .readCnt _ _ _
  | .writeCnt _ _ _ | .readServing _ _ _ | .htmBegin _ _ _ | .checkSpeculate _ _ _
  | .checkWait _ _ _ | .speculating _ _ _ | .spinWaitTm _ _ _ | .assertServing _ _ _
  | .writeServing _ _ _ | .firstRead _ _ | .firstWriteCnt _ _ _ | .firstReadAgain _ _
  | .firstWrite _ _ _ => none

/-- Where a failed or aborted transaction goes on: `spec_entry=NULL`, then the real wait. -/
def abortStep (s : McsState Tid Lid) (t : Tid) : Option (McsState Tid Lid) :=
  match (s.thread t).pc with
  | .htmBegin lk mine cnt | .checkSpeculate lk mine cnt | .checkWait lk mine cnt
  | .speculating lk mine cnt => some (s.goto t (.spinWaitTm lk mine cnt))
  | _ => none

/-- One step of the system. A thread locks only locks it does not have, tries any lock and
    unlocks only locks it has. -/
def step (cfg : TmParams) (tm : Bool) (s : McsState Tid Lid) (a : McsAct Tid Lid) :
    Option (McsState Tid Lid) :=
  if s.aborted then none else
  match a with
  | .lock t lk => s.callLock t lk false
  | .trylock t lk => s.callLock t lk true
  | .unlock t lk => s.callUnlock t lk
  | .run t => (s.runLock cfg tm t).or (s.runUnlock cfg tm t)
  | .htmStart t =>
    match (s.thread t).pc with
    | .htmBegin lk mine cnt => some (s.goto t (.checkSpeculate lk mine cnt))
    | _ => none
  | .htmAbort t => s.abortStep t

end McsState

/-- Threads using any queue locks, of type `mcs_tm` or, without `tm`, `mcs`. -/
def mcs (Tid Lid : Type) [DecidableEq Tid] [DecidableEq Lid] (cfg : TmParams) (tm : Bool) :
    System (McsState Tid Lid) (McsAct Tid Lid) where
  init s := s = {}
  step := McsState.step cfg tm

end TxLock.Native
