import Mathlib.Logic.Function.Basic
import Mathlib.Data.List.Basic

/-!
# The queue nodes of a thread

Every thread that uses a queue lock of `txlock.c` keeps nodes of its own: the free ones
in a singly linked list (`my_free_nodes`), those of the locks it uses in a doubly linked
one (`my_used_nodes`). Only the thread itself reads and writes the fields of a node that
make these lists, and the field `lock`; the fields it shares with other threads are in
`Native/Mcs`.

A node is named by its number in the order of allocation. `malloc` is assumed to
succeed; where it does not, an assertion ends the process.
-/

namespace TxLock.Native

/-- The nodes of a thread, with the fields that only the thread uses. -/
structure McsPool (Lid : Type) where
  /-- `my_free_nodes` -/
  myFreeNodes : Option Nat := none
  /-- `my_used_nodes` -/
  myUsedNodes : Option Nat := none
  listNext : Nat → Option Nat := fun _ => none
  listPrev : Nat → Option Nat := fun _ => none
  lock : Nat → Option Lid := fun _ => none
  /-- How many nodes were allocated. -/
  allocated : Nat := 0

/-- `NUM_NODES` -/
def numNodes : Nat := 8

namespace McsPool

variable {Lid : Type}

/-- `alloc_more_nodes` -/
def allocMoreNodes (p : McsPool Lid) : McsPool Lid :=
  let nodes := p.allocated
  { p with
    myFreeNodes := some nodes
    listNext := fun n =>
      if n < nodes ∨ nodes + numNodes ≤ n then p.listNext n
      else if n = nodes + (numNodes - 1) then none else some (n + 1)
    listPrev := fun n => if n < nodes ∨ nodes + numNodes ≤ n then p.listPrev n else none
    lock := fun n => if n < nodes ∨ nodes + numNodes ≤ n then p.lock n else none
    allocated := nodes + numNodes }

/-- The first free node, from a new batch when there is none. -/
def getFreeNode (p : McsPool Lid) : McsPool Lid × Nat :=
  match p.myFreeNodes with
  | some mine => (p, mine)
  | none => (p.allocMoreNodes, p.allocated)

/-- `mine->lock = lk` -/
def setLock (p : McsPool Lid) (mine : Nat) (lk : Lid) : McsPool Lid :=
  { p with lock := Function.update p.lock mine (some lk) }

/-- "we know we'll use the node": move `mine` from the free list to the used list. -/
def useNode (p : McsPool Lid) (mine : Nat) : McsPool Lid :=
  { p with
    myFreeNodes := p.listNext mine
    myUsedNodes := some mine
    listNext := Function.update p.listNext mine p.myUsedNodes
    listPrev :=
      match p.myUsedNodes with
      | some used => Function.update (Function.update p.listPrev used (some mine)) mine none
      | none => Function.update p.listPrev mine none }

/-- The lists in `dealloc_node`: out of the used list and onto the free list. The back link
    of the node stays as it is. -/
def deallocNode (p : McsPool Lid) (mine : Nat) : McsPool Lid :=
  let listNext' :=
    match p.listPrev mine with
    | some prev => Function.update p.listNext prev (p.listNext mine)
    | none => p.listNext
  { p with
    myFreeNodes := some mine
    myUsedNodes :=
      match p.listPrev mine with
      | some _ => p.myUsedNodes
      | none => p.listNext mine
    listNext := Function.update listNext' mine p.myFreeNodes
    listPrev :=
      match p.listNext mine with
      | some next => Function.update p.listPrev next (p.listPrev mine)
      | none => p.listPrev }

/-- The search of `mcs_unlock_common` from the node `mine` on, over `fuel` nodes. -/
def findFrom [DecidableEq Lid] (p : McsPool Lid) (lk : Lid) : Nat → Option Nat → Option Nat
  | 0, _ => none
  | _ + 1, none => none
  | fuel + 1, some mine =>
    if p.lock mine = some lk then some mine else p.findFrom lk fuel (p.listNext mine)

/-- The search of the used list for the node of `lk`; `none` when an assertion fails. The
    list is at most as long as there are nodes. -/
def findNode [DecidableEq Lid] (p : McsPool Lid) (lk : Lid) : Option Nat :=
  p.findFrom lk p.allocated p.myUsedNodes

end McsPool

end TxLock.Native
