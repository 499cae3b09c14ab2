import TxLock.ForStd.Linked
import TxLock.Native.Txcond

/-!
# The life of a queue node

What `txcond.c` does to its queue nodes, apart from where the code is: a wait fills a
node in and enqueues it, a waker takes it off the queue and posts it, and the waiter
and the waker settle by its status who frees it. `NodeStep` is this abstract view of a
step, `NodeRole` what a thread has in hand, and every step of the code is a `NodeStep`
or leaves the nodes alone (`CondState.nodes_step`).

## Key results

- `CondState.nodes_step`: the code's model refines the abstract view
-/

namespace TxLock.Spec

open Native

/-- What a thread has in hand. -/
inductive NodeRole where
  | idle
  /-- A wait's new node, filled in already or not. -/
  | fills (n : Nat) (ready : Bool)
  /-- The node is enqueued, and its semaphore not yet taken. -/
  | sleeps (n : Nat)
  /-- The wait has been woken: about to swap the status, to free the node, to return. -/
  | claims (n : Nat)
  | frees (n : Nat)
  | leaves (n : Nat)
  /-- A signal is about to post its node, to swap the status, to free the node. -/
  | posts (n : Nat)
  | posted (n : Nat)
  | discards (n : Nat)
  /-- A broadcast is about to post `n` and has the nodes behind it. -/
  | walks (n : Nat)
  /-- A broadcast has posted `n` and is about to read its `next`. -/
  | steps (n : Nat)
  /-- A broadcast has posted `n`, is about to swap its status or to free it, and has
      the nodes from `r` on. -/
  | walked (n : Nat) (free : Bool) (r : Option Nat)
  deriving DecidableEq, Repr

namespace NodeRole

/-- A broadcast goes on with the list from `r`, or has done. -/
def walk : Option Nat → NodeRole
  | some n => walks n
  | none => idle

/-- The node of the wait the thread is in. -/
def waits? : NodeRole → Option Nat
  | fills n _ | sleeps n | claims n | frees n | leaves n => some n
  | idle | posts _ | posted _ | discards _ | walks _ | steps _ | walked _ _ _ => none

/-- The posted node the thread has in hand. -/
def spent? : NodeRole → Option Nat
  | claims n | frees n | leaves n | posted n | discards n | steps n | walked n _ _ => some n
  | idle | fills _ _ | sleeps _ | posts _ | walks _ => none

end NodeRole

/-- The nodes, the queue, and what every thread has in hand. -/
structure CondNodes (Tid : Type) where
  node : Nat → CondNode
  fresh : Nat
  head : Option Nat
  tail : Option Nat
  role : Tid → NodeRole
  returned : Nat → Option Int
  signalled : List Nat

/-- The events the steps are told apart by. -/
inductive NodeEvent where
  | other
  /-- A signal dequeues the node. -/
  | dequeued (n : Nat)
  /-- The node's wait times out. -/
  | expired (n : Nat)
  deriving DecidableEq, Repr

variable {Tid Lid : Type}

namespace CondNodes

variable (c : CondNodes Tid)

def next (n : Nat) : Option Nat := (c.node n).next

def prev (n : Nat) : Option Nat := (c.node n).prev

variable [DecidableEq Tid]

def setRole (t : Tid) (r : NodeRole) : CondNodes Tid :=
  { c with role := Function.update c.role t r }

def setNode (n : Nat) (x : CondNode) : CondNodes Tid :=
  { c with node := Function.update c.node n x }

def setNext (n : Nat) (p : Option Nat) : CondNodes Tid := c.setNode n { c.node n with next := p }

def setPrev (n : Nat) (p : Option Nat) : CondNodes Tid := c.setNode n { c.node n with prev := p }

def setStatus (n : Nat) (x : CondStatus) : CondNodes Tid :=
  c.setNode n { c.node n with status := x }

def free (n : Nat) : CondNodes Tid := c.setNode n { c.node n with freed := true }

def post (n : Nat) : CondNodes Tid := c.setNode n { c.node n with sem := (c.node n).sem + 1 }

def setEnds (head tail : Option Nat) : CondNodes Tid := { c with head := head, tail := tail }

/-- A signal has dequeued `n`. -/
def record (n : Nat) : CondNodes Tid := { c with signalled := n :: c.signalled }

/-- The wait with node `n` returns `v`. -/
def ret (n : Nat) (v : Int) : CondNodes Tid :=
  { c with returned := Function.update c.returned n (some v) }

end CondNodes

open CondNodes in
/-- What a step of thread `t` does to the nodes. -/
inductive NodeStep [DecidableEq Tid] (c : CondNodes Tid) (t : Tid) :
    NodeEvent → CondNodes Tid → Prop where
  /-- `malloc`. -/
  | alloc (h : c.role t = .idle) :
    NodeStep c t .other ({ c with fresh := c.fresh + 1 }.setRole t (.fills c.fresh false))
  | fill {n : Nat} (h : c.role t = .fills n false) :
    NodeStep c t .other ((c.setNode n {}).setRole t (.fills n true))
  /-- `sem_init` fails. -/
  | initFails {n : Nat} (h : c.role t = .fills n false) :
    NodeStep c t .other ((c.ret n (-1)).setRole t .idle)
  | enqueueFirst {n : Nat} (h : c.role t = .fills n true) (htail : c.tail = none) :
    NodeStep c t .other ((c.setEnds (some n) (some n)).setRole t (.sleeps n))
  | enqueueLast {n m : Nat} (h : c.role t = .fills n true) (htail : c.tail = some m) :
    NodeStep c t .other (((c.setPrev n (some m)).setNext m (some n)).setEnds c.head (some n)
      |>.setRole t (.sleeps n))
  /-- The semaphore is taken. -/
  | wake {n : Nat} (h : c.role t = .sleeps n) (hsem : (c.node n).sem ≠ 0) :
    NodeStep c t .other
      ((c.setNode n { c.node n with sem := (c.node n).sem - 1 }).setRole t (.claims n))
  /-- The deadline has passed and the swap of the status succeeds. -/
  | expire {n : Nat} (h : c.role t = .sleeps n) (hst : (c.node n).status = .waiting) :
    NodeStep c t (.expired n) (((c.setStatus n .timeout).ret n (-1)).setRole t .idle)
  /-- The deadline has passed and the swap of the status fails. -/
  | late {n : Nat} (h : c.role t = .sleeps n) (hst : (c.node n).status ≠ .waiting) :
    NodeStep c t .other (c.setRole t (.frees n))
  | claim {n : Nat} (h : c.role t = .claims n) (hst : (c.node n).status = .waiting) :
    NodeStep c t .other ((c.setStatus n .awoken).setRole t (.leaves n))
  | yield {n : Nat} (h : c.role t = .claims n) (hst : (c.node n).status ≠ .waiting) :
    NodeStep c t .other (c.setRole t (.frees n))
  | free {n : Nat} (h : c.role t = .frees n) :
    NodeStep c t .other ((c.free n).setRole t (.leaves n))
  | leave {n : Nat} (h : c.role t = .leaves n) :
    NodeStep c t .other ((c.ret n 0).setRole t .idle)
  | dequeueHead {n : Nat} (h : c.role t = .idle) (hhead : c.head = some n)
      (hnext : (c.node n).next = none) :
    NodeStep c t (.dequeued n) (((c.setEnds none none).record n).setRole t (.posts n))
  | dequeueHeadOf {n m : Nat} (h : c.role t = .idle) (hhead : c.head = some n)
      (hnext : (c.node n).next = some m) :
    NodeStep c t (.dequeued n)
      ((((c.setEnds (some m) c.tail).setPrev m none).record n).setRole t (.posts n))
  | dequeueTail {n : Nat} (h : c.role t = .idle) (htail : c.tail = some n)
      (hprev : (c.node n).prev = none) :
    NodeStep c t (.dequeued n) (((c.setEnds none none).record n).setRole t (.posts n))
  | dequeueTailOf {n m : Nat} (h : c.role t = .idle) (htail : c.tail = some n)
      (hprev : (c.node n).prev = some m) :
    NodeStep c t (.dequeued n)
      ((((c.setEnds c.head (some m)).setNext m none).record n).setRole t (.posts n))
  | post {n : Nat} (h : c.role t = .posts n) :
    NodeStep c t .other ((c.post n).setRole t (.posted n))
  | signalClaim {n : Nat} (h : c.role t = .posted n) (hst : (c.node n).status = .waiting) :
    NodeStep c t .other ((c.setStatus n .awoken).setRole t .idle)
  | signalYield {n : Nat} (h : c.role t = .posted n) (hst : (c.node n).status ≠ .waiting) :
    NodeStep c t .other (c.setRole t (.discards n))
  | discard {n : Nat} (h : c.role t = .discards n) :
    NodeStep c t .other ((c.free n).setRole t .idle)
  | detach {n : Nat} (h : c.role t = .idle) (hhead : c.head = some n) :
    NodeStep c t .other ((c.setEnds none none).setRole t (.walks n))
  | walkPost {n : Nat} (h : c.role t = .walks n) :
    NodeStep c t .other ((c.post n).setRole t (.steps n))
  /-- The post fails, and the broadcast goes on. -/
  | walkFails {n : Nat} (h : c.role t = .walks n) (hsem : semValueMax ≤ (c.node n).sem) :
    NodeStep c t .other (c.setRole t (.steps n))
  | walkNext {n : Nat} (h : c.role t = .steps n) :
    NodeStep c t .other (c.setRole t (.walked n false (c.node n).next))
  | walkClaim {n : Nat} {r : Option Nat} (h : c.role t = .walked n false r)
      (hst : (c.node n).status = .waiting) :
    NodeStep c t .other ((c.setStatus n .awoken).setRole t (.walk r))
  | walkYield {n : Nat} {r : Option Nat} (h : c.role t = .walked n false r)
      (hst : (c.node n).status ≠ .waiting) :
    NodeStep c t .other (c.setRole t (.walked n true r))
  | walkFree {n : Nat} {r : Option Nat} (h : c.role t = .walked n true r) :
    NodeStep c t .other ((c.free n).setRole t (.walk r))

/-! ## The code refines the abstract view -/

/-- What a thread has in hand at each place of the code. -/
def CondPc.role : CondPc Lid → NodeRole
  | .semInit _ n => .fills n false
  | .ulRead (.enqueue _ n) | .ulSwap (.enqueue _ n) | .ulBody (.enqueue _ n) => .fills n true
  | .ulUnlock (.wait _ n) | .tlUnlock _ n | .semWait _ n | .casTimeout _ n => .sleeps n
  | .casAwoken _ n => .claims n
  | .waitFree _ n => .frees n
  | .tlLock _ n => .leaves n
  | .ulUnlock (.signal (some n)) | .sigPost n => .posts n
  | .sigCas n => .posted n
  | .sigFree n => .discards n
  | .ulUnlock (.broadcast r) => .walk r
  | .bcPost n _ => .walks n
  | .bcNext n _ => .steps n
  | .bcCas n r _ => .walked n false r
  | .bcFree n r _ => .walked n true r
  | .out | .malloc _ | .ulUnlock (.signal none) | .ulRead .dequeue | .ulSwap .dequeue
  | .ulBody .dequeue | .ulRead .detach | .ulSwap .detach | .ulBody .detach => .idle

/-- The abstract view of a state. -/
def CondState.nodes (s : CondState Tid Lid) : CondNodes Tid :=
  ⟨s.node, s.fresh, s.head, s.tail, fun t => CondPc.role (s.thread t).pc, s.returned,
    s.signalled⟩

/-- The event of a step. -/
def CondState.event (s : CondState Tid Lid) : CondAct Tid Lid → NodeEvent
  | .run t =>
    match (s.thread t).pc with
    | .ulBody .dequeue => match s.signalPick with
      | some n => .dequeued n
      | none => .other
    | .casTimeout _ n => if (s.node n).status = .waiting then .expired n else .other
    | .out | .malloc _ | .semInit _ _ | .ulRead _ | .ulSwap _ | .ulBody (.enqueue _ _)
    | .ulBody .detach | .ulUnlock _ | .tlUnlock _ _ | .semWait _ _ | .casAwoken _ _
    | .waitFree _ _ | .tlLock _ _ | .sigPost _ | .sigCas _ | .sigFree _ | .bcPost _ _
    | .bcNext _ _ | .bcCas _ _ _ | .bcFree _ _ _ => .other
  | _ => .other

variable [DecidableEq Tid] {s s' : CondState Tid Lid}

/-- Moving a thread moves its role. -/
theorem CondState.nodes_setThread (s : CondState Tid Lid) (t : Tid) (th : CondThread Lid) :
    CondState.nodes (s.setThread t th) = (CondState.nodes s).setRole t (CondPc.role th.pc) := by
  have hrole : (fun u => CondPc.role ((s.setThread t th).thread u).pc) =
      Function.update (fun u => CondPc.role (s.thread u).pc) t (CondPc.role th.pc) := by
    funext u
    by_cases hu : u = t
    · subst hu; simp [CondState.setThread]
    · simp [CondState.setThread, hu]
  simp only [CondState.nodes, CondNodes.setRole, CondNodes.mk.injEq]
  exact ⟨rfl, rfl, rfl, rfl, hrole, rfl, rfl⟩

theorem CondState.nodes_goto (s : CondState Tid Lid) (t : Tid) (pc : CondPc Lid) :
    CondState.nodes (s.goto t pc) = (CondState.nodes s).setRole t (CondPc.role pc) :=
  CondState.nodes_setThread s t _

theorem CondState.nodes_waitReturns (s : CondState Tid Lid) (t : Tid) (c : WaitCall Lid)
    (n : Nat) (v : Int) (k : Nat) :
    CondState.nodes (s.waitReturns t c n v k) =
      ((CondState.nodes s).ret n v).setRole t .idle :=
  CondState.nodes_setThread _ t _

theorem CondNodes.setRole_self {c : CondNodes Tid} {t : Tid} {r : NodeRole}
    (h : c.role t = r) : c.setRole t r = c := by
  subst h
  simp [CondNodes.setRole]

/-- The section of a signal: it dequeues the node it picks, if there is one. -/
theorem CondState.nodes_dequeueBody (s : CondState Tid Lid) (t : Tid)
    (h : (CondState.nodes s).role t = .idle) :
    (s.signalPick = none ∧ s.dequeueBody.2 = none ∧
      CondState.nodes s.dequeueBody.1 = CondState.nodes s) ∨
    ∃ n, s.signalPick = some n ∧ s.dequeueBody.2 = some n ∧
      NodeStep (CondState.nodes s) t (.dequeued n)
        ((CondState.nodes (s.dequeueBody.1.record (some n))).setRole t (.posts n)) := by
  unfold CondState.signalPick CondState.dequeueBody
  cases CondState.takesHead s.cnt with
  | true =>
    simp only [↓reduceIte, CondState.unlinkHead]
    cases hhead : s.head with
    | none => exact .inl ⟨rfl, rfl, by simp [CondState.nodes, hhead]⟩
    | some n =>
      right
      refine ⟨n, rfl, ?_⟩
      cases hnext : (s.node n).next with
      | none =>
        simp only [hnext]
        exact ⟨trivial, .dequeueHead h hhead hnext⟩
      | some m =>
        simp only [hnext]
        exact ⟨trivial, .dequeueHeadOf h hhead hnext⟩
  | false =>
    simp only [Bool.false_eq_true, ↓reduceIte, CondState.unlinkTail]
    cases htail : s.tail with
    | none => exact .inl ⟨rfl, rfl, by simp [CondState.nodes, htail]⟩
    | some n =>
      right
      refine ⟨n, rfl, ?_⟩
      cases hprev : (s.node n).prev with
      | none =>
        simp only [hprev]
        exact ⟨trivial, .dequeueTail h htail hprev⟩
      | some m =>
        simp only [hprev]
        exact ⟨trivial, .dequeueTailOf h htail hprev⟩

/-- A library call that fails, likewise. -/
theorem CondState.nodes_failStep {t : Tid} {e : Errno} (hs : s.failStep t e = some s') :
    NodeStep (CondState.nodes s) t .other (CondState.nodes s') ∨
      CondState.nodes s' = CondState.nodes s := by
  have hrole : (CondState.nodes s).role t = CondPc.role (s.thread t).pc := rfl
  cases hpc : (s.thread t).pc <;>
    simp only [CondState.failStep, hpc, Option.some.injEq, reduceCtorEq] at hs <;>
    rw [hpc] at hrole
  case malloc c => exact .inr (hs ▸ rfl)
  case semInit c n =>
    subst hs
    rw [CondState.nodes_waitReturns]
    exact .inl (.initFails hrole)
  case semWait c n =>
    right
    cases e with
    | eintr | einval | other =>
      simp only [Option.some.injEq] at hs
      exact hs ▸ rfl
    | etimedout =>
      simp only at hs
      split at hs <;> simp only [Option.some.injEq] at hs <;> subst hs
      · rw [CondState.nodes_goto]
        exact CondNodes.setRole_self hrole
      · rfl

variable [DecidableEq Lid]

/-- A step of the code is a step of the abstract view, or leaves the nodes alone. -/
theorem CondState.nodes_runStep {t : Tid} (hs : s.runStep t = some s') :
    NodeStep (CondState.nodes s) t (CondState.event s (.run t)) (CondState.nodes s') ∨
      CondState.event s (.run t) = .other ∧ CondState.nodes s' = CondState.nodes s := by
  have hrole : (CondState.nodes s).role t = CondPc.role (s.thread t).pc := rfl
  have hquiet : ∀ {pc : CondPc Lid}, CondPc.role pc = CondPc.role (s.thread t).pc →
      (CondState.nodes s).setRole t (CondPc.role pc) = CondState.nodes s :=
    fun h => CondNodes.setRole_self h.symm
  cases hpc : (s.thread t).pc with
  | out => simp [CondState.runStep, hpc] at hs
  -- what needs no case distinction: one step of the abstract view each
  | malloc c | semInit c n | waitFree c n | sigFree n | bcNext n e =>
    simp only [CondState.runStep, hpc, Option.some.injEq] at hs
    subst hs
    rw [hpc] at hrole
    simp only [CondState.event, hpc, CondState.nodes_goto]
    left
    first
      | exact .alloc hrole
      | exact .fill hrole
      | exact .free hrole
      | exact .discard hrole
      | exact .walkNext hrole
  -- taking the internal lock does not touch a node
  | ulRead b | ulSwap b =>
    simp only [CondState.runStep, hpc] at hs
    simp only [CondState.event, hpc]
    right
    refine ⟨trivial, ?_⟩
    split at hs <;> simp only [Option.some.injEq] at hs <;> subst hs
    · first
        | rfl
        | rw [CondState.nodes_goto]; cases b <;> exact hquiet (by rw [hpc]; rfl)
    · rw [CondState.nodes_goto]; cases b <;> exact hquiet (by rw [hpc]; rfl)
  | ulBody b =>
    rw [hpc] at hrole
    cases b with
    | enqueue c n =>
      simp only [CondState.runStep, hpc, Option.some.injEq] at hs
      subst hs
      simp only [CondState.event, hpc, CondState.nodes_goto, CondState.enqueueBody]
      left
      cases htail : s.tail with
      | none => exact .enqueueFirst hrole htail
      | some m => exact .enqueueLast hrole htail
    | dequeue =>
      simp only [CondState.runStep, hpc, Option.some.injEq] at hs
      subst hs
      simp only [CondState.event, hpc, CondState.nodes_goto]
      -- a signal that finds the queue empty changes no node
      rcases CondState.nodes_dequeueBody s t hrole with ⟨hpick, hnone, hsame⟩ | ⟨n, hpick, hsome, hstep⟩
      · right
        simp only [hpick, hnone]
        refine ⟨trivial, ?_⟩
        have hrec : CondState.nodes (s.dequeueBody.1.record none) = CondState.nodes s := by
          simpa [CondState.nodes, CondState.record] using hsame
        rw [hrec]
        exact hquiet (by rw [hpc]; rfl)
      · left
        simp only [hpick, hsome]
        exact hstep
    | detach =>
      simp only [CondState.runStep, hpc, Option.some.injEq] at hs
      subst hs
      simp only [CondState.event, hpc, CondState.nodes_goto, CondState.detachBody]
      -- a broadcast takes the whole list, so only its head has to be read
      cases hhead : s.head with
      | none => exact .inr ⟨trivial, hquiet (by rw [hpc]; rfl)⟩
      | some n => exact .inl (.detach hrole hhead)
  | ulUnlock k =>
    simp only [CondState.event, hpc]
    right
    refine ⟨trivial, ?_⟩
    cases k with
    | wait c n =>
      simp only [CondState.runStep, hpc, Option.some.injEq] at hs
      subst hs
      rw [CondState.nodes_goto]
      exact hquiet (by rw [hpc]; rfl)
    | signal n? | broadcast n? =>
      cases n? <;> simp only [CondState.runStep, hpc, Option.some.injEq, CondState.bcLoop] at hs <;>
        subst hs <;> rw [CondState.nodes_goto] <;> exact hquiet (by rw [hpc]; rfl)
  | tlUnlock c n =>
    simp only [CondState.runStep, hpc, Option.some.injEq] at hs
    simp only [CondState.event, hpc]
    subst hs
    rw [CondState.nodes_setThread]
    exact .inr ⟨trivial, hquiet (by rw [hpc]; rfl)⟩
  | semWait c n =>
    rw [hpc] at hrole
    simp only [CondState.runStep, hpc] at hs
    split at hs <;> simp only [Option.some.injEq, reduceCtorEq] at hs
    subst hs
    simp only [CondState.event, hpc, CondState.nodes_goto]
    rename_i hsem
    exact .inl (.wake hrole hsem)
  -- whoever is first to change the status of the node decides what becomes of it
  | casTimeout c n =>
    rw [hpc] at hrole
    simp only [CondState.runStep, hpc] at hs
    left
    split at hs <;> rename_i hst <;> simp only [Option.some.injEq] at hs <;> subst hs
    · simp only [CondState.event, hpc, hst, ↓reduceIte, CondState.nodes_waitReturns]
      exact .expire hrole hst
    · simp only [CondState.event, hpc, hst, ↓reduceIte, CondState.nodes_goto]
      exact .late hrole hst
  | casAwoken c n =>
    rw [hpc] at hrole
    simp only [CondState.runStep, hpc] at hs
    simp only [CondState.event, hpc]
    left
    split at hs <;> rename_i hst <;> simp only [Option.some.injEq] at hs <;> subst hs <;>
      rw [CondState.nodes_goto]
    · exact .claim hrole hst
    · exact .yield hrole hst
  | tlLock c n =>
    rw [hpc] at hrole
    simp only [CondState.runStep, hpc] at hs
    split at hs <;> simp only [Option.some.injEq, reduceCtorEq] at hs
    subst hs
    simp only [CondState.event, hpc, CondState.nodes_waitReturns]
    exact .inl (.leave hrole)
  | sigPost n =>
    rw [hpc] at hrole
    simp only [CondState.runStep, hpc] at hs
    simp only [CondState.event, hpc]
    split at hs <;> simp only [Option.some.injEq] at hs <;> subst hs
    · rename_i hpost
      rw [CondState.semPost_eq_some hpost, CondState.nodes_goto]
      exact .inl (.post hrole)
    · -- the assertion on `sem_post` stops the thread here
      exact .inr ⟨trivial, rfl⟩
  | sigCas n =>
    rw [hpc] at hrole
    simp only [CondState.runStep, hpc] at hs
    simp only [CondState.event, hpc]
    left
    split at hs <;> rename_i hst <;> simp only [Option.some.injEq] at hs <;> subst hs <;>
      rw [CondState.nodes_goto]
    · exact .signalClaim hrole hst
    · exact .signalYield hrole hst
  | bcPost n e =>
    rw [hpc] at hrole
    simp only [CondState.runStep, hpc] at hs
    simp only [CondState.event, hpc]
    left
    split at hs <;> rename_i hpost <;> simp only [Option.some.injEq] at hs <;> subst hs <;>
      rw [CondState.nodes_goto]
    · rw [CondState.semPost_eq_some hpost]
      exact .walkPost hrole
    · -- `sem_post` fails only when the semaphore has its greatest value
      refine .walkFails hrole ?_
      simp only [CondState.semPost] at hpost
      split at hpost
      · simp at hpost
      · exact Nat.not_lt.mp ‹_›
  | bcCas m r e =>
    rw [hpc] at hrole
    simp only [CondState.runStep, hpc] at hs
    simp only [CondState.event, hpc]
    left
    split at hs <;> rename_i hst <;> simp only [Option.some.injEq] at hs <;> subst hs
    · cases r <;> simp only [CondState.bcLoop, CondState.nodes_goto] <;>
        exact .walkClaim hrole hst
    · rw [CondState.nodes_goto]
      exact .walkYield hrole hst
  | bcFree m r e =>
    rw [hpc] at hrole
    simp only [CondState.runStep, hpc, Option.some.injEq] at hs
    subst hs
    simp only [CondState.event, hpc]
    left
    cases r <;> simp only [CondState.bcLoop, CondState.nodes_goto] <;> exact .walkFree hrole

/-- Every step of the system, likewise: it is a step of the thread that runs. -/
theorem CondState.nodes_step {a : CondAct Tid Lid} (hs : s.step a = some s') :
    (∃ t, (a = .run t ∨ ∃ e, a = .fail t e) ∧
      NodeStep (CondState.nodes s) t (CondState.event s a) (CondState.nodes s')) ∨
      CondState.event s a = .other ∧ CondState.nodes s' = CondState.nodes s := by
  simp only [CondState.step] at hs
  split at hs
  · simp at hs
  cases a with
  -- the start of a call moves only the thread, and gives it no part of a node
  | acquire t l | release t l | wait t l | signal t | broadcast t =>
    right
    refine ⟨rfl, ?_⟩
    simp only at hs
    split at hs <;> simp only [Option.some.injEq, reduceCtorEq] at hs
    rename_i hout
    subst hs
    simp only [CondState.call, CondState.nodes_setThread]
    have hpc : (s.thread t).pc = .out := by first | exact hout.1 | exact hout
    refine CondNodes.setRole_self ?_
    show CondPc.role (s.thread t).pc = _
    simp [hpc, CondPc.role]
  | run t =>
    rcases CondState.nodes_runStep hs with h | h
    · exact .inl ⟨t, .inl rfl, h⟩
    · exact .inr h
  | fail t e =>
    rcases CondState.nodes_failStep hs with h | h
    · exact .inl ⟨t, .inr ⟨e, rfl⟩, h⟩
    · exact .inr ⟨rfl, h⟩

end TxLock.Spec
