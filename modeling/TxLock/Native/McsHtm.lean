import TxLock.Native.Mcs

/-!
# Conflicts of the transactions of `mcs_tm`

`Native/Mcs` lets a transaction abort at any time. Here a store also aborts every
transaction that has read the word it goes to. A transaction of `mcs_lock_common` reads
two words itself, `speculate` and `wait` of the node of its own thread; what the critical
section reads is up to the caller, and conflicts over it are aborts at any time as before.
-/

namespace TxLock.Native

/-- The words that a transaction of `mcs_lock_common` reads. -/
inductive McsWord (Tid : Type) where
  | speculate (n : Tid × Nat)
  | wait (n : Tid × Nat)
  deriving DecidableEq, Repr

/-- The node a word belongs to. -/
def McsWord.node {Tid : Type} : McsWord Tid → Tid × Nat
  | .speculate n | .wait n => n

/-- What the transaction of thread `t` has read. -/
def McsPc.readSet {Tid Lid : Type} (t : Tid) : McsPc Tid Lid → List (McsWord Tid)
  | .checkWait _ mine _ => [.speculate (t, mine)]
  | .speculating _ mine _ => [.speculate (t, mine), .wait (t, mine)]
  | _ => []

namespace McsState

variable {Tid Lid : Type} [DecidableEq Tid] [DecidableEq Lid]

/-- The word of these that a step stores to. -/
def stores (cfg : TmParams) (s : McsState Tid Lid) : McsAct Tid Lid → Option (McsWord Tid)
  | .run t =>
    match (s.thread t).pc with
    | .initWait _ _ mine => some (.wait (t, mine))
    | .initSpeculate _ _ mine => some (.speculate (t, mine))
    | .haltAt _ _ (some current) dist =>
      if dist ≥ cfg.minDistance then some (.speculate current) else none
    | .clearWait _ _ next => some (.wait next)
    | _ => none
  | _ => none

/-- The store to `w` aborts the transaction that has read it, which is one of the owner of
    the node. -/
def conflict (s : McsState Tid Lid) (w : McsWord Tid) : McsState Tid Lid :=
  let u := w.node.1
  if w ∈ (s.thread u).pc.readSet u then (s.abortStep u).getD s else s

/-- One step of `mcs_tm`, with the abort that its store causes. -/
def htmStep (cfg : TmParams) (s : McsState Tid Lid) (a : McsAct Tid Lid) :
    Option (McsState Tid Lid) :=
  (s.step cfg true a).map fun s' =>
    match s.stores cfg a with
    | some w => s'.conflict w
    | none => s'

end McsState

/-- Threads using any `mcs_tm` locks, with transactions that abort on a conflict. -/
def mcsHtm (Tid Lid : Type) [DecidableEq Tid] [DecidableEq Lid] (cfg : TmParams) :
    System (McsState Tid Lid) (McsAct Tid Lid) where
  init s := s = {}
  step := McsState.htmStep cfg

end TxLock.Native
