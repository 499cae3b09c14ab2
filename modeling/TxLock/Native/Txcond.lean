import Mathlib.Logic.Function.Basic
import TxLock.ForStd.System
import TxLock.Native.Lll

/-!
# The semaphore based condition variable

`txcond.c` for one condition variable, any number of threads and any mutexes. Every
waiter has a queue node with a semaphore of its own; a signal takes one node off the
queue, a broadcast all of them, and the nodes taken are posted one by one. The waiter
and the waker race on the `status` of the node, and the loser of the race frees it.

The section between `ul_lock` and `ul_unlock` is one step (`ulBody_exclusive` in
`Spec/TxcondMutex` shows that no two threads are in it), every other access to a
node, to the lock word or to the mutex is a step of its own. Of the mutex only the
owner is kept: `tl_unlock` gives it away, `tl_lock` waits until nobody has it.
-/

namespace TxLock.Native

/-- `enum {WAITING, TIMEOUT, AWOKEN}`. -/
inductive CondStatus where
  | waiting
  | timeout
  | awoken
  deriving DecidableEq, Repr

/-- What `errno` says after a failing `sem_wait` or `sem_timedwait`. -/
inductive Errno where
  | eintr
  | einval
  | etimedout
  | other
  deriving DecidableEq, Repr

/-- `struct _txcond_node_t`, with the value of the semaphore, and whether it was freed. -/
structure CondNode where
  next : Option Nat := none
  prev : Option Nat := none
  sem : Nat := 0
  status : CondStatus := .waiting
  freed : Bool := false
  deriving DecidableEq, Repr

/-- `SEM_VALUE_MAX`: a post beyond it fails. -/
def semValueMax : Nat := 2147483647

/-- The arguments of `_txcond_waitcommon`: the mutex and whether there is a deadline. -/
structure WaitCall (Lid : Type) where
  lk : Lid
  timed : Bool
  deriving DecidableEq, Repr

/-- The three sections that run under the lock of the condition variable. -/
inductive UlBody (Lid : Type) where
  | enqueue (c : WaitCall Lid) (node : Nat)
  | dequeue
  | detach
  deriving DecidableEq, Repr

/-- What is done after `ul_unlock`. A waker that found the queue empty returns. -/
inductive UlAfter (Lid : Type) where
  | wait (c : WaitCall Lid) (node : Nat)
  | signal (node : Option Nat)
  | broadcast (node : Option Nat)
  deriving DecidableEq, Repr

/-- Where a thread is in the code of the condition variable. -/
inductive CondPc (Lid : Type) where
  | out
  | malloc (c : WaitCall Lid)
  | semInit (c : WaitCall Lid) (node : Nat)
  /-- `ul_lock`: about to read `lk->val`. -/
  | ulRead (b : UlBody Lid)
  /-- `ul_lock`: about to swap 1 into `lk->val`. -/
  | ulSwap (b : UlBody Lid)
  | ulBody (b : UlBody Lid)
  | ulUnlock (k : UlAfter Lid)
  | tlUnlock (c : WaitCall Lid) (node : Nat)
  /-- At `sem_wait` or `sem_timedwait`. -/
  | semWait (c : WaitCall Lid) (node : Nat)
  /-- After `ETIMEDOUT`, about to swap `TIMEOUT` for `WAITING`. -/
  | casTimeout (c : WaitCall Lid) (node : Nat)
  /-- Posted, about to swap `AWOKEN` for `WAITING`. -/
  | casAwoken (c : WaitCall Lid) (node : Nat)
  | waitFree (c : WaitCall Lid) (node : Nat)
  | tlLock (c : WaitCall Lid) (node : Nat)
  | sigPost (node : Nat)
  | sigCas (node : Nat)
  | sigFree (node : Nat)
  /-- The loop of `txcond_broadcast`, at `sem_post(&node->sem)`; `e1` so far. -/
  | bcPost (node : Nat) (e1 : Int)
  /-- `prev_node = node; node = node->next`. -/
  | bcNext (node : Nat) (e1 : Int)
  | bcCas (prevNode : Nat) (node : Option Nat) (e1 : Int)
  | bcFree (prevNode : Nat) (node : Option Nat) (e1 : Int)
  deriving DecidableEq, Repr

/-- A return of `_txcond_waitcommon`: the mutex, the value, and how often the call
    unlocked and locked the mutex. -/
structure WaitReturn (Lid : Type) where
  lk : Lid
  value : Int
  unlocks : Nat
  locks : Nat
  deriving DecidableEq, Repr

/-- One thread. -/
structure CondThread (Lid : Type) where
  pc : CondPc Lid := .out
  /-- What the call under way has done to the mutex. -/
  unlocks : Nat := 0
  locks : Nat := 0
  /-- The wait this thread has just returned from, until it does something else. -/
  ret : Option (WaitReturn Lid) := none
  deriving DecidableEq, Repr

/-- The condition variable, the nodes, the mutexes and the threads. -/
structure CondState (Tid Lid : Type) where
  node : Nat → CondNode := fun _ => {}
  /-- Nodes from here on have not been allocated. -/
  fresh : Nat := 0
  head : Option Nat := none
  tail : Option Nat := none
  /-- `lk->val` of the condition variable's own lock. -/
  lkVal : Word := 0
  cnt : Word := 0
  thread : Tid → CondThread Lid := fun _ => {}
  owner : Lid → Option Tid := fun _ => none
  /-- An assertion has failed and the process is gone. -/
  aborted : Bool := false
  /-- Record of the values returned: `returned n` by the wait that made node `n`. -/
  returned : Nat → Option Int := fun _ => none
  /-- Record of the nodes that calls of `txcond_signal` have dequeued. -/
  signalled : List Nat := []

/-- What a thread does next. -/
inductive CondAct (Tid Lid : Type) where
  /-- The caller locks or unlocks a mutex between its calls. -/
  | acquire (t : Tid) (l : Lid)
  | release (t : Tid) (l : Lid)
  | wait (t : Tid) (c : WaitCall Lid)
  | signal (t : Tid)
  | broadcast (t : Tid)
  /-- The next step of the code thread `t` is in; library calls succeed. -/
  | run (t : Tid)
  /-- The library call thread `t` is at fails. -/
  | fail (t : Tid) (e : Errno)
  deriving DecidableEq, Repr

namespace CondState

variable {Tid Lid : Type}

/-- `cv->cnt` after a signal has drawn the next value. The constants stand first, where
    they are not unrolled while `cnt` is a variable. -/
def nextCnt (cnt : Word) : Word := 12345 + 1103515245 * if cnt = 0 then 5 else cnt

/-- `i%10==0`: this signal looks at the head of the queue, not at the tail. -/
def takesHead (cnt : Word) : Bool := (nextCnt cnt).toInt.tmod 10 = 0

/-- The node `txcond_signal` dequeues next, none when it finds the queue empty. -/
def signalPick (s : CondState Tid Lid) : Option Nat :=
  if takesHead s.cnt then s.head else s.tail

/-- Write node `n`. -/
def setNode (s : CondState Tid Lid) (n : Nat) (x : CondNode) : CondState Tid Lid :=
  { s with node := Function.update s.node n x }

def setStatus (s : CondState Tid Lid) (n : Nat) (x : CondStatus) : CondState Tid Lid :=
  s.setNode n { s.node n with status := x }

def free (s : CondState Tid Lid) (n : Nat) : CondState Tid Lid :=
  s.setNode n { s.node n with freed := true }

/-- `sem_post(&node->sem)`, `none` when it fails. -/
def semPost (s : CondState Tid Lid) (n : Nat) : Option (CondState Tid Lid) :=
  if (s.node n).sem < semValueMax then
    some (s.setNode n { s.node n with sem := (s.node n).sem + 1 })
  else none

/-- The section of `_txcond_waitcommon` under the lock: link the node in at the tail. -/
def enqueueBody (s : CondState Tid Lid) (n : Nat) : CondState Tid Lid :=
  match s.tail with
  | some m =>
    let s := s.setNode n { s.node n with prev := some m }
    { s.setNode m { s.node m with next := some n } with tail := some n }
  | none => { s with head := some n, tail := some n }

/-- Unlink the head of the queue, if there is one. -/
def unlinkHead (s : CondState Tid Lid) : CondState Tid Lid × Option Nat :=
  match s.head with
  | none => (s, none)
  | some n =>
    match (s.node n).next with
    | none => ({ s with head := none, tail := none }, some n)
    | some m => ({ s with head := some m }.setNode m { s.node m with prev := none }, some n)

/-- Unlink the tail of the queue, if there is one. -/
def unlinkTail (s : CondState Tid Lid) : CondState Tid Lid × Option Nat :=
  match s.tail with
  | none => (s, none)
  | some n =>
    match (s.node n).prev with
    | none => ({ s with tail := none, head := none }, some n)
    | some m => ({ s with tail := some m }.setNode m { s.node m with next := none }, some n)

/-- The section of `txcond_signal` under the lock. -/
def dequeueBody (s : CondState Tid Lid) : CondState Tid Lid × Option Nat :=
  let s' := { s with cnt := nextCnt s.cnt }
  if takesHead s.cnt then s'.unlinkHead else s'.unlinkTail

/-- Record that a signal has dequeued a node. -/
def record (s : CondState Tid Lid) (n? : Option Nat) : CondState Tid Lid :=
  { s with signalled := n?.toList ++ s.signalled }

/-- The section of `txcond_broadcast` under the lock: take the whole list. -/
def detachBody (s : CondState Tid Lid) : CondState Tid Lid × Option Nat :=
  match s.head with
  | none => (s, none)
  | some n => ({ s with head := none, tail := none }, some n)

/-! The sections under the lock concern no thread, no mutex and no lock word. -/

section Frame

variable (s : CondState Tid Lid) (n : Nat)

@[simp] theorem enqueueBody_thread : (s.enqueueBody n).thread = s.thread := by
  unfold enqueueBody; split <;> rfl

@[simp] theorem enqueueBody_lkVal : (s.enqueueBody n).lkVal = s.lkVal := by
  unfold enqueueBody; split <;> rfl

@[simp] theorem enqueueBody_owner : (s.enqueueBody n).owner = s.owner := by
  unfold enqueueBody; split <;> rfl

@[simp] theorem unlinkHead_thread : s.unlinkHead.1.thread = s.thread := by
  unfold unlinkHead; repeat' split
  all_goals rfl

@[simp] theorem unlinkHead_lkVal : s.unlinkHead.1.lkVal = s.lkVal := by
  unfold unlinkHead; repeat' split
  all_goals rfl

@[simp] theorem unlinkHead_owner : s.unlinkHead.1.owner = s.owner := by
  unfold unlinkHead; repeat' split
  all_goals rfl

@[simp] theorem unlinkTail_thread : s.unlinkTail.1.thread = s.thread := by
  unfold unlinkTail; repeat' split
  all_goals rfl

@[simp] theorem unlinkTail_lkVal : s.unlinkTail.1.lkVal = s.lkVal := by
  unfold unlinkTail; repeat' split
  all_goals rfl

@[simp] theorem unlinkTail_owner : s.unlinkTail.1.owner = s.owner := by
  unfold unlinkTail; repeat' split
  all_goals rfl

@[simp] theorem dequeueBody_thread : s.dequeueBody.1.thread = s.thread := by
  simp only [dequeueBody]
  split <;> simp

@[simp] theorem dequeueBody_lkVal : s.dequeueBody.1.lkVal = s.lkVal := by
  simp only [dequeueBody]
  split <;> simp

@[simp] theorem dequeueBody_owner : s.dequeueBody.1.owner = s.owner := by
  simp only [dequeueBody]
  split <;> simp

@[simp] theorem record_thread (n? : Option Nat) : (s.record n?).thread = s.thread := rfl

@[simp] theorem record_lkVal (n? : Option Nat) : (s.record n?).lkVal = s.lkVal := rfl

@[simp] theorem record_owner (n? : Option Nat) : (s.record n?).owner = s.owner := rfl

@[simp] theorem detachBody_thread : s.detachBody.1.thread = s.thread := by
  unfold detachBody; split <;> rfl

@[simp] theorem detachBody_lkVal : s.detachBody.1.lkVal = s.lkVal := by
  unfold detachBody; split <;> rfl

@[simp] theorem detachBody_owner : s.detachBody.1.owner = s.owner := by
  unfold detachBody; split <;> rfl

end Frame

theorem semPost_eq_some {s s' : CondState Tid Lid} {n : Nat} (h : s.semPost n = some s') :
    s' = s.setNode n { s.node n with sem := (s.node n).sem + 1 } := by
  unfold semPost at h
  split at h <;> simp only [Option.some.injEq, reduceCtorEq] at h
  exact h.symm

variable [DecidableEq Tid]

def setThread (s : CondState Tid Lid) (t : Tid) (th : CondThread Lid) : CondState Tid Lid :=
  { s with thread := Function.update s.thread t th }

/-- Thread `t` goes on at `pc`. -/
def goto (s : CondState Tid Lid) (t : Tid) (pc : CondPc Lid) : CondState Tid Lid :=
  s.setThread t { s.thread t with pc := pc }

/-- Thread `t` calls a function, or does something else between its calls. -/
def call (s : CondState Tid Lid) (t : Tid) (pc : CondPc Lid) : CondState Tid Lid :=
  s.setThread t { pc := pc }

/-- Thread `t` returns `v` from the wait with node `n`, having locked the mutex `locks`
    times in it. -/
def waitReturns (s : CondState Tid Lid) (t : Tid) (c : WaitCall Lid) (n : Nat) (v : Int)
    (locks : Nat) : CondState Tid Lid :=
  { s with returned := Function.update s.returned n (some v) }.setThread t
    { pc := .out, unlocks := (s.thread t).unlocks, locks := locks
      ret := some ⟨c.lk, v, (s.thread t).unlocks, locks⟩ }

/-- Go on in the loop of `txcond_broadcast` with `node`, or return. -/
def bcLoop (s : CondState Tid Lid) (t : Tid) (node : Option Nat) (e1 : Int) :
    CondState Tid Lid :=
  match node with
  | some n => s.goto t (.bcPost n e1)
  | none => s.goto t .out

variable [DecidableEq Lid]

def setOwner (s : CondState Tid Lid) (l : Lid) (o : Option Tid) : CondState Tid Lid :=
  { s with owner := Function.update s.owner l o }

/-- The next step of the code thread `t` is in. -/
def runStep (s : CondState Tid Lid) (t : Tid) : Option (CondState Tid Lid) :=
  match (s.thread t).pc with
  | .out => none
  | .malloc c => some ({ s with fresh := s.fresh + 1 }.goto t (.semInit c s.fresh))
  | .semInit c n =>
    -- and the node is filled in, while nobody else knows it
    some ((s.setNode n {}).goto t (.ulRead (.enqueue c n)))
  -- `ul_lock`
  | .ulRead b => if s.lkVal ≠ 0 then some s else some (s.goto t (.ulSwap b))
  | .ulSwap b =>
    if s.lkVal ≠ 0 then some ({ s with lkVal := 1 }.goto t (.ulRead b))
    else some ({ s with lkVal := 1 }.goto t (.ulBody b))
  | .ulBody (.enqueue c n) => some ((s.enqueueBody n).goto t (.ulUnlock (.wait c n)))
  | .ulBody .dequeue =>
    let r := s.dequeueBody
    some ((r.1.record r.2).goto t (.ulUnlock (.signal r.2)))
  | .ulBody .detach =>
    let r := s.detachBody
    some (r.1.goto t (.ulUnlock (.broadcast r.2)))
  -- `ul_unlock`, and where each function goes on: `txcond_signal` returns if the queue was empty
  | .ulUnlock (.wait c n) => some ({ s with lkVal := 0 }.goto t (.tlUnlock c n))
  | .ulUnlock (.signal (some n)) => some ({ s with lkVal := 0 }.goto t (.sigPost n))
  | .ulUnlock (.signal none) => some ({ s with lkVal := 0 }.goto t .out)
  | .ulUnlock (.broadcast n?) => some ({ s with lkVal := 0 }.bcLoop t n? 0)
  | .tlUnlock c n =>
    let th := s.thread t
    some ((s.setOwner c.lk none).setThread t
      { th with pc := .semWait c n, unlocks := th.unlocks + 1 })
  | .semWait c n =>
    -- blocks until there is something to take
    if (s.node n).sem = 0 then none
    else some ((s.setNode n { s.node n with sem := (s.node n).sem - 1 }).goto t (.casAwoken c n))
  | .casTimeout c n =>
    -- "we won the race to clean up our node, whoever 'wakes' us up later will clean"
    if (s.node n).status = .waiting then
      some ((s.setStatus n .timeout).waitReturns t c n (-1) (s.thread t).locks)
    else some (s.goto t (.waitFree c n))
  | .casAwoken c n =>
    -- "race on status to figure out cleaner"
    if (s.node n).status = .waiting then
      some ((s.setStatus n .awoken).goto t (.tlLock c n))
    else some (s.goto t (.waitFree c n))
  | .waitFree c n => some ((s.free n).goto t (.tlLock c n))
  | .tlLock c n =>
    if s.owner c.lk ≠ none then none
    else some ((s.setOwner c.lk (some t)).waitReturns t c n 0 ((s.thread t).locks + 1))
  | .sigPost n =>
    match s.semPost n with
    | some s' => some (s'.goto t (.sigCas n))
    -- `if(e!=0){assert(false);return -1;}`
    | none => some { s with aborted := true }
  | .sigCas n =>
    -- "successful awaken, race on GC"
    if (s.node n).status = .waiting then some ((s.setStatus n .awoken).goto t .out)
    else some (s.goto t (.sigFree n))
  | .sigFree n => some ((s.free n).goto t .out)
  | .bcPost n e1 =>
    match s.semPost n with
    | some s' => some (s'.goto t (.bcNext n e1))
    -- `if(e2!=0 && e1==0){e1 = e2;}`
    | none => some (s.goto t (.bcNext n (if e1 = 0 then -1 else e1)))
  -- `prev_node = node; node = node->next;` comes before the race on the status
  | .bcNext n e1 => some (s.goto t (.bcCas n (s.node n).next e1))
  | .bcCas m n? e1 =>
    if (s.node m).status = .waiting then some ((s.setStatus m .awoken).bcLoop t n? e1)
    else some (s.goto t (.bcFree m n? e1))
  | .bcFree m n? e1 => some ((s.free m).bcLoop t n? e1)

/-- The library call thread `t` is at fails with `e`. -/
def failStep (s : CondState Tid Lid) (t : Tid) (e : Errno) : Option (CondState Tid Lid) :=
  match (s.thread t).pc with
  | .malloc _ => some { s with aborted := true }
  | .semInit c n => some (s.waitReturns t c n (-1) (s.thread t).locks)
  | .semWait c n =>
    match e with
    | .eintr => some s
    | .einval => some { s with aborted := true }
    | .etimedout =>
      -- without a deadline this is an unknown error
      if c.timed then some (s.goto t (.casTimeout c n)) else some { s with aborted := true }
    | .other => some { s with aborted := true }
  | .out | .ulRead _ | .ulSwap _ | .ulBody _ | .ulUnlock _ | .tlUnlock _ _ | .casTimeout _ _
  | .casAwoken _ _ | .waitFree _ _ | .tlLock _ _ | .sigPost _ | .sigCas _ | .sigFree _
  | .bcPost _ _ | .bcNext _ _ | .bcCas _ _ _ | .bcFree _ _ _ => none

/-- One step of the system. A wait is called with its mutex held. -/
def step (s : CondState Tid Lid) (a : CondAct Tid Lid) : Option (CondState Tid Lid) :=
  if s.aborted then none else
  match a with
  | .acquire t l =>
    if (s.thread t).pc = .out ∧ s.owner l = none then some ((s.setOwner l (some t)).call t .out)
    else none
  | .release t l =>
    if (s.thread t).pc = .out ∧ s.owner l = some t then some ((s.setOwner l none).call t .out)
    else none
  | .wait t c =>
    if (s.thread t).pc = .out ∧ s.owner c.lk = some t then some (s.call t (.malloc c)) else none
  | .signal t => if (s.thread t).pc = .out then some (s.call t (.ulRead .dequeue)) else none
  | .broadcast t => if (s.thread t).pc = .out then some (s.call t (.ulRead .detach)) else none
  | .run t => s.runStep t
  | .fail t e => s.failStep t e

end CondState

/-- Threads using one condition variable, zero at the start, whatever its `cnt`. -/
def txcond (Tid Lid : Type) [DecidableEq Tid] [DecidableEq Lid] :
    System (CondState Tid Lid) (CondAct Tid Lid) where
  init s := s = { cnt := s.cnt }
  step := CondState.step

end TxLock.Native
