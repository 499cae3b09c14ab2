import TxLock.Native.Lll
import TxLock.Native.PthreadCond

/-!
# What a signal does to the condition variable and to the sleepers

The effect of each operation of `__pthread_cond_signal` on the words of the condition
variable and on the threads that sleep on them, with the kernel's `FUTEX_WAKE` and
`FUTEX_WAKE_OP`. Other threads may do anything between two operations.

`FUTEX_OP_CLEAR_WAKE_IF_GT_ONE` is `(4 << 24) | 1`: store 0 (`FUTEX_OP_SET` with the
argument 0) and wake sleepers of the second word if its old value was, as a signed number,
greater (`FUTEX_OP_CMP_GT`) than 1.
-/

namespace TxLock.Native

/-- The condition variable and the threads asleep on it. -/
structure CondWorld where
  totalSeq : Int := 0
  wakeupSeq : Int := 0
  futex : Int := 0
  /-- `cond->__data.__lock` -/
  lock : Word := 0
  /-- Threads asleep on `cond->__data.__futex`. -/
  asleep : Nat := 0
  /-- Threads asleep on `cond->__data.__lock`. -/
  lockAsleep : Nat := 0
  deriving DecidableEq, Repr

/-- The threads recorded as waiting in a lock word: all bits but bit 31. -/
def lockWaiters (w : Word) : Word := w &&& 0x7FFFFFFF

namespace CondWorld

variable (s : CondWorld)

/-- `__generic_mutex_unlock` while no other thread writes the lock word: the swap of
    `atomic_exchange_and_add` has its arguments in the wrong places and does not succeed. -/
def genericMutexUnlock : CondWorld :=
  let (_, w) := syncBoolCas s.lock (s.lock + 0x80000000) s.lock
  -- `atomic_add_zero` compares the old value with `-0x80000000`
  if s.lock = -0x80000000 then { s with lock := w }
  else { s with lock := w, lockAsleep := s.lockAsleep - 1 }

/-- `FUTEX_WAKE` on `cond->__data.__futex`. -/
def futexWake (nr : Nat) : CondWorld := { s with asleep := s.asleep - min nr s.asleep }

/-- The sleepers of the lock word that `FUTEX_OP_CLEAR_WAKE_IF_GT_ONE` wakes, one at most. -/
def wakeIfGtOne : Nat := if 1 < s.lock.toInt then min 1 s.lockAsleep else 0

/-- `FUTEX_WAKE_OP` with one thread of each word. -/
def futexWakeOp : CondWorld :=
  { s with
    lock := 0, asleep := s.asleep - min 1 s.asleep, lockAsleep := s.lockAsleep - s.wakeIfGtOne }

end CondWorld

/-- One operation of a call, with its answer and the state before and after it. -/
structure CondStep where
  op : CondOp
  answer : Int
  before : CondWorld
  after : CondWorld
  deriving DecidableEq, Repr

/-- The operation does what it should. -/
def CondStep.Answered (st : CondStep) : Prop :=
  let s := st.before
  match st.op with
  -- returns with bit 31 clear; what it has added to the count it has taken off again
  | .lllLock _ => s.lock &&& lockBit = 0 ∧ st.after = s
  | .lllUnlock _ => st.after = s.genericMutexUnlock
  | .load _ .totalSeq => st.answer = s.totalSeq ∧ st.after = s
  | .load _ .wakeupSeq => st.answer = s.wakeupSeq ∧ st.after = s
  | .add _ .wakeupSeq v => st.after = { s with wakeupSeq := s.wakeupSeq + v }
  | .add _ .futex v => st.after = { s with futex := s.futex + v }
  -- the result of the system call: the number of threads woken, or -1
  | .futexWakeUnlock _ =>
    (st.answer = (min 1 s.asleep + s.wakeIfGtOne : Nat) ∧ st.after = s.futexWakeOp) ∨
      (st.answer = -1 ∧ st.after = s)
  | .futexWake _ _ nr =>
    st.answer = (min nr.toNat s.asleep : Nat) ∧ st.after = s.futexWake nr.toNat
  | _ => False

instance (st : CondStep) : Decidable st.Answered := by
  unfold CondStep.Answered
  dsimp only
  split <;> infer_instance

end TxLock.Native
