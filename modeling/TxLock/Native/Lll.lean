import Mathlib.Logic.Function.Basic
import TxLock.ForStd.System

/-!
# The internal lock of the condition variables

`pthread_cond.c` protects every condition variable with `cond->__data.__lock`, an
`int` taken by `lll_lock` and released by `lll_unlock` or by the kernel on behalf
of `lll_futex_wake_unlock`. Bit 31 of the word says that the lock is held, the
bits below count the threads interested in it.

The file embeds the atomic macros and the lock built on them as a step function.
Every plain read and every compare-and-swap is a step of its own, so the threads
interleave between the read and the swap of each macro.
-/

namespace TxLock.Native

/-- A 32-bit lock word. -/
abbrev Word := BitVec 32

/-- GCC's `__sync_bool_compare_and_swap(ptr, expected, new)`: the result is `true`
    exactly when `new` was stored. -/
def syncBoolCas (w expected new : Word) : Bool × Word :=
  if w = expected then (true, new) else (false, w)

/-- `1 << 31`, the bit `atomic_bit_test_set (mutex, 31)` sets. -/
def lockBit : Word := 0x80000000

/-- Where a thread is in `lll_lock`, in the section it protects, or in the release. -/
inductive LllPc where
  /-- Not using the lock. -/
  | out
  /-- `__generic_mutex_lock`, first `atomic_bit_test_set`: about to read the word. -/
  | testRead
  /-- First `atomic_bit_test_set`, about to compare-and-swap; `old` was read. -/
  | testCas (old : Word)
  /-- About to `atomic_increment (mutex)`. -/
  | increment
  /-- `atomic_bit_test_set` of the wait loop, about to read. -/
  | retryRead
  /-- `atomic_bit_test_set` of the wait loop, about to compare-and-swap. -/
  | retryCas (old : Word)
  /-- Got the lock in the wait loop, about to `atomic_decrement (mutex)`. -/
  | decrement
  /-- About to read `v = *mutex`. -/
  | recheck
  /-- In `lll_futex_wait (mutex, v, ..)`. -/
  | futexWait (v : Word)
  /-- `lll_lock` has returned, the release has not started. -/
  | inside
  /-- `__pthread_cond_signal` after a `FUTEX_WAKE_OP` whose result is not 0: about to
      `lll_futex_wake` and then `lll_unlock`. `released` tells whether the kernel
      has stored 0 to the lock word. -/
  | signalWake (released : Bool)
  /-- `__generic_mutex_unlock`, `atomic_exchange_and_add`: about to read. -/
  | addRead
  /-- `atomic_exchange_and_add`: about to compare-and-swap; `old` was read. -/
  | addCas (old : Word)
  /-- About to `lll_futex_wake (mutex, 1, ..)`. -/
  | unlockWake
  deriving DecidableEq, Repr

/-- The lock word and the threads. -/
structure LllState (Tid : Type) where
  /-- `cond->__data.__lock`. -/
  lock : Word
  pc : Tid → LllPc

/-- What a thread does next: use the lock, or the next step of the code it is in. -/
inductive LllAct (Tid : Type) where
  /-- Call `lll_lock`. -/
  | lllLock (t : Tid)
  /-- The next step of the code thread `t` is in. -/
  | run (t : Tid)
  /-- Call `lll_unlock` at the end of the protected section. -/
  | lllUnlock (t : Tid)
  /-- End the section of `__pthread_cond_signal` with `lll_futex_wake_unlock`; the
      kernel answers with the number of threads woken, or with an error (`none`). -/
  | lllFutexWakeUnlock (t : Tid) (woken : Option Nat)
  deriving DecidableEq, Repr

namespace LllState

variable {Tid : Type} [DecidableEq Tid]

/-- Thread `t` goes on at `pc`. -/
def goto (s : LllState Tid) (t : Tid) (pc : LllPc) : LllState Tid :=
  { s with pc := Function.update s.pc t pc }

/-- The lock word becomes `w` and thread `t` goes on at `pc`. -/
def put (s : LllState Tid) (t : Tid) (w : Word) (pc : LllPc) : LllState Tid :=
  { lock := w, pc := Function.update s.pc t pc }

@[simp] theorem goto_lock (s : LllState Tid) (t : Tid) (pc : LllPc) :
    (s.goto t pc).lock = s.lock := rfl

@[simp] theorem goto_pc (s : LllState Tid) (t : Tid) (pc : LllPc) :
    (s.goto t pc).pc = Function.update s.pc t pc := rfl

@[simp] theorem put_lock (s : LllState Tid) (t : Tid) (w : Word) (pc : LllPc) :
    (s.put t w pc).lock = w := rfl

@[simp] theorem put_pc (s : LllState Tid) (t : Tid) (w : Word) (pc : LllPc) :
    (s.put t w pc).pc = Function.update s.pc t pc := rfl

/-- The next step of `__generic_mutex_lock` / `__generic_mutex_unlock` in thread `t`. -/
def runStep (s : LllState Tid) (t : Tid) : Option (LllState Tid) :=
  match s.pc t with
  | .testRead => some (s.goto t (.testCas s.lock))
  -- the macro passes `old | mask` as the expected value and `old` as the new one,
  -- and its loop goes round again when the swap succeeds
  | .testCas old =>
    let (stored, w) := syncBoolCas s.lock (old ||| lockBit) old
    if stored then some (s.put t w .testRead)
    else if old &&& lockBit = 0 then some (s.put t w .inside)
    else some (s.put t w .increment)
  | .increment => some (s.put t (s.lock + 1) .retryRead)
  | .retryRead => some (s.goto t (.retryCas s.lock))
  | .retryCas old =>
    let (stored, w) := syncBoolCas s.lock (old ||| lockBit) old
    if stored then some (s.put t w .retryRead)
    else if old &&& lockBit = 0 then some (s.put t w .decrement)
    else some (s.put t w .recheck)
  | .decrement => some (s.put t (s.lock - 1) .inside)
  -- `v` is declared unsigned, so `v >= 0` always continues the loop
  | .recheck =>
    if s.lock.toNat ≥ 0 then some (s.goto t .retryRead) else some (s.goto t (.futexWait s.lock))
  | .futexWait _ => some (s.goto t .retryRead)
  | .signalWake _ => some (s.goto t .addRead)
  | .addRead => some (s.goto t (.addCas s.lock))
  | .addCas old =>
    let (stored, w) := syncBoolCas s.lock (old + 0x80000000) old
    if stored then some (s.put t w .addRead)
    -- `atomic_add_zero` compares the old value with `-0x80000000`
    else if old = -0x80000000 then some (s.put t w .out)
    else some (s.put t w .unlockWake)
  | .unlockWake => some (s.goto t .out)
  | .out | .inside => none

/-- One step of the system. -/
def step (s : LllState Tid) : LllAct Tid → Option (LllState Tid)
  | .lllLock t => if s.pc t = .out then some (s.goto t .testRead) else none
  | .run t => s.runStep t
  | .lllUnlock t => if s.pc t = .inside then some (s.goto t .addRead) else none
  | .lllFutexWakeUnlock t woken =>
    if s.pc t = .inside then
      match woken with
      -- `if (! lll_futex_wake_unlock (..)) return 0;`
      | some 0 => some (s.put t 0 .out)
      | some (_ + 1) => some (s.put t 0 (.signalWake true))
      | none => some (s.goto t (.signalWake false))
    else none

end LllState

/-- Any number of threads using one condition variable's internal lock, whose word
    starts at `LLL_LOCK_INITIALIZER`. -/
def lll (Tid : Type) [DecidableEq Tid] : System (LllState Tid) (LllAct Tid) where
  init s := s = ⟨0, fun _ => .out⟩
  step := LllState.step

/-- Between a return of `lll_lock` and the start of the matching release. -/
def LllPc.isInside : LllPc → Bool
  | .inside => true
  | .signalWake released => !released
  | .out | .testRead | .testCas _ | .increment | .retryRead | .retryCas _ | .decrement
  | .recheck | .futexWait _ | .addRead | .addCas _ | .unlockWake => false

/-- In the code of `lll_lock`. -/
def LllPc.isLocking : LllPc → Bool
  | .testRead | .testCas _ | .increment | .retryRead | .retryCas _ | .decrement | .recheck
  | .futexWait _ => true
  | .out | .inside | .signalWake _ | .addRead | .addCas _ | .unlockWake => false

end TxLock.Native
