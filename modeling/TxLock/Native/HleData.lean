import TxLock.ForStd.Access
import TxLock.Native.TasHle

/-!
# Shared data under a `tas_hle` lock

Threads that lock and unlock one `tas_hle` lock and read and write shared data while they
have it. An elided section runs in its transaction: its writes wait for the commit, and an
abort drops what it has done. A section after the last try accesses the data directly.

Transactions are strongly isolated. An access of another thread, in a transaction or not,
to an address a transaction has written aborts the transaction, and so does a write to
an address it has read. The lock word is read and stored as `Native/TasHle` says.
-/

namespace TxLock.Native

/-- The lock and the shared data. -/
structure HleData (Tid Addr Val : Type) where
  hle : HleState Tid Unit
  data : Addr → Val
  /-- The accesses of the section each thread is in. -/
  ops : Tid → List (Access Addr Val)
  /-- The sections each thread has completed, in its order. -/
  finished : Tid → List (List (Access Addr Val))

/-- What a thread does next. -/
inductive HleDataAct (Tid Addr Val : Type) where
  | lock (t : Tid)
  | unlock (t : Tid)
  | run (t : Tid)
  | htmStart (t : Tid)
  | htmAbort (t : Tid)
  /-- The caller accesses the data in its section. -/
  | read (t : Tid) (x : Addr)
  | write (t : Tid) (x : Addr) (v : Val)
  deriving DecidableEq, Repr

namespace HleData

variable {Tid Addr Val : Type}

/-- The thread is in a section: its lock call has returned, and it has not unlocked. -/
def inSection (s : HleData Tid Addr Val) (t : Tid) : Bool :=
  (s.hle.thread t).pc = .out ∧ () ∈ (s.hle.thread t).locked

/-- Thread `t` is in a transaction. -/
def speculates (s : HleData Tid Addr Val) (t : Tid) : Bool := (s.hle.thread t).depth ≠ 0

variable [DecidableEq Tid] [DecidableEq Addr]

/-- The lock's threads have become those of `h`: what aborted transactions have done is
    dropped. -/
def setHle (s : HleData Tid Addr Val) (h : HleState Tid Unit) : HleData Tid Addr Val :=
  { s with
    hle := h
    ops := fun u =>
      if (s.hle.thread u).depth ≠ 0 ∧ (h.thread u).depth = 0 then [] else s.ops u }

/-- Thread `t` has unlocked. A section outside a transaction is complete, the end of the
    outermost transaction commits one, any other end is an inner one. -/
def unlocked (s : HleData Tid Addr Val) (h : HleState Tid Unit) (t : Tid) :
    HleData Tid Addr Val :=
  let done : HleData Tid Addr Val :=
    { s.setHle h with
      ops := Function.update (s.setHle h).ops t []
      finished := Function.update s.finished t (s.finished t ++ [s.ops t]) }
  match (s.hle.thread t).depth with
  | 0 => done
  | 1 => { done with data := Access.after s.data (s.ops t) }
  | _ => s.setHle h

/-- Every other transaction that `hit` says conflicts with an access aborts. -/
def conflict (cfg : TmParams) (s : HleData Tid Addr Val) (t : Tid)
    (hit : List (Access Addr Val) → Prop) [DecidablePred hit] : HleData Tid Addr Val :=
  s.setHle { s.hle with
    thread := fun u =>
      if u ≠ t ∧ (s.hle.thread u).depth ≠ 0 ∧ hit (s.ops u) then (s.hle.thread u).rollback cfg
      else s.hle.thread u }

/-- Thread `t` has done an access. -/
def push (s : HleData Tid Addr Val) (t : Tid) (a : Access Addr Val) : HleData Tid Addr Val :=
  { s with ops := Function.update s.ops t (s.ops t ++ [a]) }

/-- One step of the system. -/
def step (cfg : TmParams) (s : HleData Tid Addr Val) (a : HleDataAct Tid Addr Val) :
    Option (HleData Tid Addr Val) :=
  match a with
  | .lock t => (s.hle.step cfg (.lock t ())).map s.setHle
  | .run t => (s.hle.step cfg (.run t)).map s.setHle
  | .htmStart t => (s.hle.step cfg (.htmStart t)).map s.setHle
  | .htmAbort t => (s.hle.step cfg (.htmAbort t)).map s.setHle
  | .unlock t => (s.hle.step cfg (.unlock t ())).map (s.unlocked · t)
  | .read t x =>
    if s.inSection t then
      let v := if s.speculates t then Access.after s.data (s.ops t) x else s.data x
      some ((s.conflict cfg t (Access.Writes · x)).push t (.read x v))
    else none
  | .write t x v =>
    if s.inSection t then
      let s' := (s.conflict cfg t (Access.Touches · x)).push t (.write x v)
      if s.speculates t then some s' else some { s' with data := Function.update s.data x v }
    else none

end HleData

/-- Threads that share the data `d` under one lock. -/
def hleData (Tid Addr Val : Type) [DecidableEq Tid] [DecidableEq Addr] (cfg : TmParams)
    (d : Addr → Val) : System (HleData Tid Addr Val) (HleDataAct Tid Addr Val) where
  init s := (tasHle Tid Unit cfg).init s.hle ∧ s.data = d ∧ s.ops = (fun _ => []) ∧
    s.finished = fun _ => []
  step := HleData.step cfg

end TxLock.Native
