import TxLock.Native.Mcs

/-!
# The life of a queue node of an MCS lock

What `mcs` and `mcs_tm` of `txlock.c` do to their queue nodes, apart from where a node
comes from: a node is filled in, queued behind another or alone, linked, counted, waits,
holds the lock, is handed over and leaves. `McsRole` tells how far a node is, `McsStep`
is this abstract view of a step, and `McsState.view` the abstract view of a state.
`Spec/McsThread` shows that every step of the code is a `McsStep` or leaves the view alone.
-/

namespace TxLock.Spec

open Native

/-- How far the owner of a queued node is. -/
inductive QueueRole (Tid : Type) where
  /-- About to link `pred` to the node. -/
  | linking (pred : Tid × Nat)
  /-- Waits for the `cnt` of `pred`. -/
  | counting (pred : Tid × Nat)
  /-- Has seen that `pred` has a `cnt`, and is about to read it. -/
  | reading (pred : Tid × Nat)
  /-- About to write `cnt` to the node. -/
  | counted (cnt : BitVec 64)
  /-- Waits for its turn, with `mcs_tm` at the position `cnt`. -/
  | waiting (cnt : Option (BitVec 64))
  /-- Has seen that it is its turn, about to write `cnt` to `now_serving`. -/
  | entering (cnt : BitVec 64)
  /-- First in an empty queue of `mcs_tm`: the accesses that count it. -/
  | firstRead
  | firstGive (cnt : BitVec 64)
  | firstAgain
  | firstServe (now : BitVec 64)
  | holds
  /-- Looks for a successor, then compares `tail` with the node. -/
  | closing
  /-- There is a successor, and it has not linked itself yet. -/
  | awaiting
  /-- Has a successor that is linked. -/
  | handing
  /-- About to clear the flag `wait` of `next`. -/
  | clearing (next : Tid × Nat)
  deriving DecidableEq, Repr

/-- How far a node is. -/
inductive McsRole (Tid Lid : Type) where
  | free
  /-- Being filled in, with the first `done` of the shared fields written. -/
  | fresh (done : Nat)
  | queued (lk : Lid) (r : QueueRole Tid)
  /-- Out of the queue, about to be free. -/
  | left
  deriving DecidableEq, Repr

namespace QueueRole

variable {Tid : Type}

/-- The node before it is not linked to it. -/
def isLinking : QueueRole Tid → Bool
  | linking _ => true
  | counting _ | reading _ | counted _ | waiting _ | entering _ | firstRead | firstGive _
  | firstAgain | firstServe _ | holds | closing | awaiting | handing | clearing _ => false

/-- It was queued behind another node and has not seen its turn. -/
def isBehind : QueueRole Tid → Bool
  | linking _ | counting _ | reading _ | counted _ | waiting _ => true
  | entering _ | firstRead | firstGive _ | firstAgain | firstServe _ | holds | closing
  | awaiting | handing | clearing _ => false

/-- It has the lock, or its unlock is under way. -/
def isHolding : QueueRole Tid → Bool
  | holds | closing | awaiting | handing | clearing _ => true
  | linking _ | counting _ | reading _ | counted _ | waiting _ | entering _ | firstRead
  | firstGive _ | firstAgain | firstServe _ => false

theorem not_isLinking_of_not_isBehind {r : QueueRole Tid} (h : r.isBehind = false) :
    r.isLinking = false := by
  cases r <;> first | rfl | simp [isBehind] at h

theorem not_isBehind_of_isHolding {r : QueueRole Tid} (h : r.isHolding = true) :
    r.isBehind = false := by
  cases r <;> first | rfl | simp [isHolding] at h

end QueueRole

/-- The nodes, the locks, and how far every node is. -/
structure McsView (Tid Lid : Type) where
  node : Tid × Nat → McsNode Tid
  lock : Lid → McsLock Tid
  role : Tid × Nat → McsRole Tid Lid

namespace McsView

variable {Tid Lid : Type} (c : McsView Tid Lid)

/-- The nodes in the queue of `lk`, in the order in which they were queued. -/
def queue (lk : Lid) : List (Tid × Nat) :=
  ((c.lock lk).turns.drop (c.lock lk).released).map McsTurn.node

section

variable [DecidableEq Tid]

def setRole (n : Tid × Nat) (r : McsRole Tid Lid) : McsView Tid Lid :=
  { c with role := Function.update c.role n r }

def setNode (n : Tid × Nat) (x : McsNode Tid) : McsView Tid Lid :=
  { c with node := Function.update c.node n x }

variable {c} {n m : Tid × Nat} {r : McsRole Tid Lid} {x : McsNode Tid}

@[simp] theorem setRole_node : (c.setRole n r).node = c.node := rfl
@[simp] theorem setRole_lock : (c.setRole n r).lock = c.lock := rfl
@[simp] theorem setRole_self : (c.setRole n r).role n = r := Function.update_self ..
@[simp] theorem setRole_ne (h : m ≠ n) : (c.setRole n r).role m = c.role m :=
  Function.update_of_ne h ..
theorem setRole_eq_self (h : c.role n = r) : c.setRole n r = c := by
  subst h
  simp [setRole]

@[simp] theorem setNode_role : (c.setNode n x).role = c.role := rfl
@[simp] theorem setNode_lock : (c.setNode n x).lock = c.lock := rfl
@[simp] theorem setNode_self : (c.setNode n x).node n = x := Function.update_self ..
@[simp] theorem setNode_ne (h : m ≠ n) : (c.setNode n x).node m = c.node m :=
  Function.update_of_ne h ..

end

section

variable [DecidableEq Lid]

def setLock (lk : Lid) (l : McsLock Tid) : McsView Tid Lid :=
  { c with lock := Function.update c.lock lk l }

variable {c} {lk lk' : Lid} {l : McsLock Tid}

@[simp] theorem setLock_role : (c.setLock lk l).role = c.role := rfl
@[simp] theorem setLock_node : (c.setLock lk l).node = c.node := rfl
@[simp] theorem setLock_self : (c.setLock lk l).lock lk = l := Function.update_self ..
@[simp] theorem setLock_ne (h : lk' ≠ lk) : (c.setLock lk l).lock lk' = c.lock lk' :=
  Function.update_of_ne h ..

end

/-- How far the new last node of the queue is. -/
def pushRole (lk : Lid) : QueueRole Tid :=
  match (c.lock lk).tail with
  | some pred => .linking pred
  | none => .firstRead

theorem pushRole_cases (c : McsView Tid Lid) (lk : Lid) :
    (∃ p, (c.lock lk).tail = some p ∧ c.pushRole lk = .linking p) ∨
      (c.lock lk).tail = none ∧ c.pushRole lk = .firstRead := by
  unfold pushRole
  cases (c.lock lk).tail with
  | none => exact .inr ⟨rfl, rfl⟩
  | some p => exact .inl ⟨p, rfl, rfl⟩

theorem queue_congr {c c' : McsView Tid Lid} {lk : Lid} (h : c'.lock lk = c.lock lk) :
    c'.queue lk = c.queue lk := by
  rw [queue, queue, h]

variable [DecidableEq Lid]

/-- Enter the history of the acquisition the node `n` is queued for. -/
def record (lk : Lid) (n : Tid × Nat) (f : McsTurn Tid → McsTurn Tid) : McsView Tid Lid :=
  c.setLock lk { c.lock lk with turns := (c.lock lk).turns.modify (c.node n).turn f }

/-- History entries that keep their nodes keep the queue. -/
theorem queue_record {c : McsView Tid Lid} {lk : Lid} {n : Tid × Nat}
    {f : McsTurn Tid → McsTurn Tid} (hf : ∀ a, (f a).node = a.node) :
    (c.record lk n f).queue lk = c.queue lk := by
  unfold queue record
  rw [setLock_self, List.map_drop, List.map_drop]
  congr 1
  apply List.ext_getElem?
  intro j
  rw [List.getElem?_map, List.getElem?_map, List.getElem?_modify]
  cases (c.lock lk).turns[j]? with
  | none => rfl
  | some a => by_cases hj : (c.node n).turn = j <;> simp [hj, hf]

variable [DecidableEq Tid]

/-- The node `n` is given its position. -/
def giveCnt (lk : Lid) (n : Tid × Nat) (cnt : BitVec 64) : McsView Tid Lid :=
  (c.record lk n fun a => { a with cnt := some cnt }).setNode n { c.node n with cnt := cnt }

/-- The owner of `n` has the lock. -/
def enter (lk : Lid) (n : Tid × Nat) : McsView Tid Lid :=
  (c.record lk n fun a => { a with acquired := true }).setRole n (.queued lk .holds)

/-- The node `n` becomes the last of the queue. -/
def push (lk : Lid) (n : Tid × Nat) (r : QueueRole Tid) : McsView Tid Lid :=
  let l := c.lock lk
  (c.setNode n { c.node n with turn := l.turns.length }).setLock lk
    { l with tail := some n, turns := l.turns ++ [{ node := n, pred := l.tail }] }
  |>.setRole n (.queued lk r)

/-- The first node leaves the queue. -/
def pop (lk : Lid) (n : Tid × Nat) : McsView Tid Lid :=
  (c.setLock lk { c.lock lk with released := (c.lock lk).released + 1 }).setRole n .left

end McsView

open McsView in
/-- What a step does to the node `n` and its lock. -/
inductive McsStep {Tid Lid : Type} [DecidableEq Tid] [DecidableEq Lid] (tm : Bool)
    (c : McsView Tid Lid) (n : Tid × Nat) : McsView Tid Lid → Prop where
  | prepare (h : c.role n = .free) : McsStep tm c n (c.setRole n (.fresh 0))
  | initLockNext (h : c.role n = .fresh 0) :
    McsStep tm c n ((c.setNode n { c.node n with lockNext := none }).setRole n (.fresh 1))
  | initWait (h : c.role n = .fresh 1) :
    McsStep tm c n ((c.setNode n { c.node n with wait := true }).setRole n (.fresh 2))
  | initSpeculate (h : c.role n = .fresh 2) :
    McsStep tm c n ((c.setNode n { c.node n with speculate := true }).setRole n (.fresh 3))
  | initCnt (h : c.role n = .fresh 3) :
    McsStep tm c n ((c.setNode n { c.node n with cnt := 0 }).setRole n (.fresh 4))
  /-- A trylock finds the queue in use. -/
  | giveUp (h : c.role n = .fresh 4) : McsStep tm c n (c.setRole n .free)
  | push {lk : Lid} (h : c.role n = .fresh 4)
      (htm : (c.lock lk).tail = none → tm = true) :
    McsStep tm c n (c.push lk n (c.pushRole lk))
  /-- Alone in the queue, without `tm`. -/
  | pushFirst {lk : Lid} (h : c.role n = .fresh 4) (htm : tm = false)
      (htail : (c.lock lk).tail = none) :
    McsStep tm c n ((c.push lk n .firstRead).enter lk n)
  | link {lk : Lid} {p : Tid × Nat} (h : c.role n = .queued lk (.linking p)) :
    McsStep tm c n ((c.setNode p { c.node p with lockNext := some n }).setRole n
      (.queued lk (if tm then .counting p else .waiting none)))
  | see {lk : Lid} {p : Tid × Nat} (h : c.role n = .queued lk (.counting p))
      (hcnt : (c.node p).cnt ≠ 0) :
    McsStep tm c n (c.setRole n (.queued lk (.reading p)))
  | read {lk : Lid} {p : Tid × Nat} (h : c.role n = .queued lk (.reading p)) :
    McsStep tm c n (c.setRole n (.queued lk (.counted ((c.node p).cnt + 1))))
  | give {lk : Lid} {cnt : BitVec 64} (h : c.role n = .queued lk (.counted cnt)) :
    McsStep tm c n ((c.giveCnt lk n cnt).setRole n (.queued lk (.waiting (some cnt))))
  | wake {lk : Lid} {cnt : BitVec 64} (h : c.role n = .queued lk (.waiting (some cnt)))
      (hwait : (c.node n).wait = false) :
    McsStep tm c n (c.setRole n (.queued lk (.entering cnt)))
  /-- The turn has come, without `tm`. -/
  | wakeHolds {lk : Lid} (h : c.role n = .queued lk (.waiting none))
      (hwait : (c.node n).wait = false) : McsStep tm c n (c.enter lk n)
  | serve {lk : Lid} {cnt : BitVec 64} (h : c.role n = .queued lk (.entering cnt)) :
    McsStep tm c n ((c.setLock lk { c.lock lk with nowServing := cnt }).enter lk n)
  | firstRead {lk : Lid} (h : c.role n = .queued lk .firstRead) :
    McsStep tm c n (c.setRole n (.queued lk (.firstGive ((c.lock lk).nowServing + 1))))
  | firstGive {lk : Lid} {cnt : BitVec 64} (h : c.role n = .queued lk (.firstGive cnt)) :
    McsStep tm c n ((c.giveCnt lk n cnt).setRole n (.queued lk .firstAgain))
  | firstAgain {lk : Lid} (h : c.role n = .queued lk .firstAgain) :
    McsStep tm c n (c.setRole n (.queued lk (.firstServe (c.lock lk).nowServing)))
  | firstServe {lk : Lid} {now : BitVec 64} (h : c.role n = .queued lk (.firstServe now)) :
    McsStep tm c n ((c.setLock lk { c.lock lk with nowServing := now + 1 }).enter lk n)
  | close {lk : Lid} (h : c.role n = .queued lk .holds) :
    McsStep tm c n (c.setRole n (.queued lk .closing))
  | next {lk : Lid} (h : c.role n = .queued lk .closing ∨ c.role n = .queued lk .awaiting)
      (hnext : (c.node n).lockNext ≠ none) :
    McsStep tm c n (c.setRole n (.queued lk .handing))
  | await {lk : Lid} (h : c.role n = .queued lk .closing)
      (htail : (c.lock lk).tail ≠ some n) :
    McsStep tm c n (c.setRole n (.queued lk .awaiting))
  | clearTail {lk : Lid} (h : c.role n = .queued lk .closing)
      (htail : (c.lock lk).tail = some n) :
    McsStep tm c n ((c.setLock lk { c.lock lk with tail := none }).pop lk n)
  /-- The walk that halts speculators is at the node `x`. -/
  | halt {lk : Lid} (x : Tid × Nat) (h : c.role n = .queued lk .handing) :
    McsStep tm c n (c.setNode x { c.node x with speculate := false })
  | successor {lk : Lid} {m : Tid × Nat} (h : c.role n = .queued lk .handing)
      (hnext : (c.node n).lockNext = some m) :
    McsStep tm c n (c.setRole n (.queued lk (.clearing m)))
  | hand {lk : Lid} {m : Tid × Nat} (h : c.role n = .queued lk (.clearing m)) :
    McsStep tm c n ((c.setNode m { c.node m with wait := false }).pop lk n)
  | drop (h : c.role n = .left) :
    McsStep tm c n ((c.setNode n { c.node n with lockNext := none }).setRole n .free)

/-! ## The view of a state -/

variable {Tid Lid : Type}

/-- The node at hand at each place of the code, and how far it is. -/
def McsPc.role? : McsPc Tid Lid → Option (Nat × McsRole Tid Lid)
  | .out => none
  | .initLockNext _ _ n => some (n, .fresh 0)
  | .initWait _ _ n => some (n, .fresh 1)
  | .initSpeculate _ _ n => some (n, .fresh 2)
  | .initCnt _ _ n => some (n, .fresh 3)
  | .swapTail _ n | .casTail _ n => some (n, .fresh 4)
  | .link lk n p => some (n, .queued lk (.linking p))
  | .spinWait lk n => some (n, .queued lk (.waiting none))
  | .spinCnt lk n p => some (n, .queued lk (.counting p))
  | .readCnt lk n p => some (n, .queued lk (.reading p))
  | .writeCnt lk n cnt => some (n, .queued lk (.counted cnt))
  | .readServing lk n cnt | .htmBegin lk n cnt | .checkSpeculate lk n cnt | .checkWait lk n cnt
  | .speculating lk n cnt | .spinWaitTm lk n cnt => some (n, .queued lk (.waiting (some cnt)))
  | .assertServing lk n cnt | .writeServing lk n cnt => some (n, .queued lk (.entering cnt))
  | .firstRead lk n => some (n, .queued lk .firstRead)
  | .firstWriteCnt lk n cnt => some (n, .queued lk (.firstGive cnt))
  | .firstReadAgain lk n => some (n, .queued lk .firstAgain)
  | .firstWrite lk n now => some (n, .queued lk (.firstServe now))
  | .readNext lk n | .clearTail lk n => some (n, .queued lk .closing)
  | .spinNext lk n => some (n, .queued lk .awaiting)
  | .haltFirst lk n | .haltAt lk n _ _ | .haltNext lk n _ _ | .readSuccessor lk n =>
    some (n, .queued lk .handing)
  | .clearWait lk n m => some (n, .queued lk (.clearing m))
  | .dealloc _ n => some (n, .left)

/-- How far the node `n` of a thread is that is not at hand. -/
def heldRole (held : List (Lid × Nat)) (n : Nat) : McsRole Tid Lid :=
  match held.find? (fun h => h.2 = n) with
  | some h => .queued h.1 .holds
  | none => .free

/-- How far the node `n` of a thread is. -/
def McsThread.role (th : McsThread Tid Lid) (n : Nat) : McsRole Tid Lid :=
  match McsPc.role? th.pc with
  | some (mine, r) => if n = mine then r else heldRole th.held n
  | none => heldRole th.held n

/-- The abstract view of a state. -/
def McsState.view (s : McsState Tid Lid) : McsView Tid Lid :=
  ⟨s.node, s.lock, fun n => McsThread.role (s.thread n.1) n.2⟩

end TxLock.Spec
