import TxLock.ForStd.Prog
import TxLock.Native.Txutil

/-!
# The lock functions, as one thread runs them

The functions of the table `lock_types` of `txlock.c` and `enter_htm` of `txutil.h`,
each a program over the operations the thread performs: its transaction
instructions, its accesses to the lock, its queue nodes and its statistics, and the
calls it makes to libpthread. What the other threads do is in the answers.

An address is an integer, 0 is `NULL`. Delays and memory barriers have no effect
here and are left out (`spin_begin`, `spin_wait`, `__sync_synchronize`).
-/

namespace TxLock.Native

open Prog

/-- The address of an object. -/
abbrev Addr := Int

/-- The volatile words of the locks, under the names of their fields. `all` is the first
    eight bytes as one word: the whole test-and-set lock, or the pair of a ticket lock. -/
inductive LockField where
  | val | ready | all | next | now | tail | nowServing
  deriving DecidableEq, Repr

/-- The fields of a queue node. -/
inductive NodeField where
  | lockNext | wait | speculate | cnt | lock | listNext | listPrev
  deriving DecidableEq, Repr

/-- What a lock function reads and writes. -/
inductive Loc where
  | lock (l : Addr) (f : LockField)
  | node (n : Addr) (f : NodeField)
  /-- `my_free_nodes` and `my_used_nodes` of the thread. -/
  | myFreeNodes
  | myUsedNodes
  deriving DecidableEq, Repr

/-- The counters of `my_tm_stats`. -/
inductive StatField where
  | cycles | tmCycles | locks | tries | stops | commits | overflows | conflicts
  deriving DecidableEq, Repr

/-- The width of a counter: `int64_t` or `int32_t`. -/
def StatField.width : StatField → Nat
  | .cycles | .tmCycles => 64
  | .locks | .tries | .stops | .commits | .overflows | .conflicts => 32

/-- The operations of the lock functions. -/
inductive LockOp where
  /-- `HTM_SIMPLE_BEGIN()`, answered by the status word. -/
  | xbegin
  /-- `HTM_END()` -/
  | xend
  /-- `HTM_IS_ACTIVE()` -/
  | xtest
  /-- `HTM_ABORT(code)` -/
  | xabort (code : Nat)
  /-- Read `spec_entry`. -/
  | specEntry
  | setSpecEntry (v : Int)
  /-- `my_tm_stats->f += v` -/
  | statsAdd (f : StatField) (v : Int)
  /-- The macro `RDTSC()`: the clock, or 0 without `TM_PROFILE_RDTSC`. -/
  | rdtscMacro
  /-- The function `rdtsc()`: always the clock. -/
  | rdtsc
  | load (x : Loc)
  | store (x : Loc) (v : Int)
  /-- `__sync_lock_test_and_set`, answered by the value replaced. -/
  | testAndSet (x : Loc) (v : Int)
  /-- `__sync_lock_release` -/
  | release (x : Loc)
  /-- `__sync_bool_compare_and_swap`, answered by 1 when `new` was stored. -/
  | cas (x : Loc) (old new : Int)
  /-- `__sync_fetch_and_add`, answered by the value before. -/
  | fetchAndAdd (x : Loc) (v : Int)
  | pthreadMutexLock (l : Addr)
  | pthreadMutexTrylock (l : Addr)
  | pthreadMutexUnlock (l : Addr)
  /-- `malloc` of a batch of queue nodes. -/
  | mallocNodes
  /-- A failed assertion. -/
  | assertFail
  deriving DecidableEq, Repr

/-- What the library reads from its environment, and the bound on the loops. -/
structure TxConfig extends TmParams where
  /-- `TM_COND_VARS` -/
  tmCondVars : Bool := true
  fuel : Nat
  deriving DecidableEq, Repr

/-- The code of a lock function. -/
abbrev LockProg := Prog LockOp

def load (x : Loc) : LockProg Int := perform (.load x)

def store (x : Loc) (v : Int) : LockProg Unit := emit (.store x v)

/-- `TM_STATS_ADD(my_tm_stats->f, v)` -/
def tmStatsAdd (f : StatField) (v : Int) : LockProg Unit := emit (.statsAdd f v)

/-- `TM_STATS_ADD(my_tm_stats->f, RDTSC())` -/
def tmStatsAddRdtsc (f : StatField) : LockProg Unit := do
  tmStatsAdd f (← perform .rdtscMacro)

/-- `TM_STATS_SUB(my_tm_stats->f, RDTSC())` -/
def tmStatsSubRdtsc (f : StatField) : LockProg Unit := do
  tmStatsAdd f (-(← perform .rdtscMacro))

/-- `assert(c)` -/
def assert (c : Bool) : LockProg Unit := if c then ret () else op .assertFail fun _ => halt

/-! ## Entering a transaction -/

/-- `_XBEGIN_STARTED` -/
def xbeginStarted : Int := 0xFFFFFFFF

/-- `status & mask` is not 0. -/
def statusHas (status : Int) (mask : Word) : Bool := BitVec.ofInt 32 status &&& mask != 0

/-- `_XABORT_CODE(status)` -/
def xabortCode (status : Int) : Word := (BitVec.ofInt 32 status >>> 24) &&& 0xFF

/-- The counter an abort is entered in. -/
def abortStats (status : Int) : LockProg Unit :=
  if statusHas status 4 then tmStatsAdd .conflicts 1
  else if statusHas status 8 then tmStatsAdd .overflows 1
  else if statusHas status 1 && xabortCode status == 7 then tmStatsAdd .stops 1
  else ret ()

def enterHtm (primitive : Addr) : LockProg Int := do
  emit (.setSpecEntry primitive)
  tmStatsAdd .tries 1
  tmStatsSubRdtsc .tmCycles
  let status ← perform .xbegin
  if status = xbeginStarted then return 0
  else
    tmStatsAddRdtsc .tmCycles
    abortStats status
    emit (.setSpecEntry 0)
    return 1

/-! ## Test-and-set locks -/

/-- `*val || __sync_lock_test_and_set(val, v)` -/
def tatas (x : Loc) (v : Int) : LockProg Int := do
  let w ← load x
  if w ≠ 0 then return 1
  else
    let old ← perform (.testAndSet x v)
    return if old ≠ 0 then 1 else 0

/-- `while (tatas(x, 1)) {}` -/
def tatasLoop (cfg : TxConfig) (x : Loc) : LockProg Unit :=
  loop (fun _ => do
    let e ← tatas x 1
    return if e ≠ 0 then .inl () else .inr ()) cfg.fuel ()

def tasLock (cfg : TxConfig) (l : Addr) : LockProg Int := do
  tmStatsAdd .locks 1
  tatasLoop cfg (.lock l .val)
  tmStatsSubRdtsc .cycles
  return 0

def tasTrylock (l : Addr) : LockProg Int := do
  let e ← tatas (.lock l .val) 1
  if e = 0 then
    tmStatsAdd .locks 1
    tmStatsSubRdtsc .cycles
    return 0
  else return 1

def tasUnlock (l : Addr) : LockProg Int := do
  emit (.release (.lock l .val))
  tmStatsAddRdtsc .cycles
  return 0

/-- The loop of `tas_lock_hle`. -/
def tasLockHleLoop (cfg : TxConfig) (l : Addr) : LockProg Unit :=
  loop (fun (tries : Word) => do
    let e ← enterHtm 0
    if e = 0 then return .inr ()
    else if tries + 1 ≥ cfg.numTries then
      tmStatsAdd .locks 1
      tatasLoop cfg (.lock l .val)
      return .inr ()
    else return .inl (tries + 1)) cfg.fuel 0

def tasLockHle (cfg : TxConfig) (l : Addr) : LockProg Int := do
  tasLockHleLoop cfg l
  let active ← perform .xtest
  if active ≠ 0 then
    let w ← load (.lock l .val)
    -- locked by another thread: spins until the abort
    if w = 1 then halt else return 0
  else return 0

/-- `assert(0)` -/
def tasTrylockHle (_ : Addr) : LockProg Int := do
  assert false
  return 0

def tasUnlockHle (l : Addr) : LockProg Int := do
  let active ← perform .xtest
  if active ≠ 0 then
    emit .xend
    tmStatsAdd .commits 1
    return 0
  else
    emit (.release (.lock l .val))
    tmStatsAddRdtsc .cycles
    return 0

/-- The loop of `tas_lock_tm`: `true` when it speculates, `false` when it has the lock. -/
def tasLockTmLoop (cfg : TxConfig) (l : Addr) : LockProg Bool :=
  loop (fun (tries : Word) => do
    let held ← tatas (.lock l .val) 1
    if held = 0 then return .inr false
    else
      let e ← enterHtm l
      if e = 0 then return .inr true
      else if tries + 1 ≥ cfg.numTries then
        tatasLoop cfg (.lock l .val)
        return .inr false
      else return .inl (tries + 1)) cfg.fuel 0

def tasLockTm (cfg : TxConfig) (l : Addr) : LockProg Int := do
  let spec ← perform .specEntry
  if spec = 0 then
    tmStatsAdd .locks 1
    let speculating ← tasLockTmLoop cfg l
    if speculating then return 0
    else
      tmStatsSubRdtsc .cycles
      return 0
  else
    tmStatsSubRdtsc .cycles
    return 0

def tasTrylockTm (l : Addr) : LockProg Int := do
  let spec ← perform .specEntry
  if spec = 0 then
    let e ← tatas (.lock l .val) 1
    if e = 0 then
      tmStatsAdd .locks 1
      tmStatsSubRdtsc .cycles
      return 0
    else return 1
  else return 0

def tasUnlockTm (l : Addr) : LockProg Int := do
  let spec ← perform .specEntry
  if spec ≠ 0 then return 0
  else
    emit (.release (.lock l .val))
    tmStatsAddRdtsc .cycles
    return 0

/-- `copy.ready` of a packed word: bits 32 to 47, signed. -/
def readyOf (all : Int) : Int := ((BitVec.ofInt 64 all).extractLsb' 32 16).toInt

/-- The loop of `tas_priority_lock_tm`: `true` when it speculates. -/
def tasPriorityLockTmLoop (cfg : TxConfig) (lk : Addr) : LockProg Bool :=
  loop (fun _ => do
    let all ← load (.lock lk .all)
    let held ← if readyOf all = 0 then tatas (.lock lk .val) 1 else ret 1
    if held = 0 then return .inr false
    -- the comparison is unsigned
    else if BitVec.ofInt 32 (readyOf all) < cfg.maxDistance - cfg.minDistance then
      let e ← enterHtm lk
      if e = 0 then return .inr true
      else
        let _ ← perform (.fetchAndAdd (.lock lk .ready) 1)
        tatasLoop cfg (.lock lk .val)
        let _ ← perform (.fetchAndAdd (.lock lk .ready) (-1))
        return .inr false
    else return .inl ()) cfg.fuel ()

def tasPriorityLockTm (cfg : TxConfig) (lk : Addr) : LockProg Int := do
  let spec ← perform .specEntry
  if spec = 0 then
    tmStatsAdd .locks 1
    let speculating ← tasPriorityLockTmLoop cfg lk
    if speculating then return 0
    else
      -- `rdtsc()`, not the macro
      tmStatsAdd .cycles (-(← perform .rdtsc))
      return 0
  else
    tmStatsAdd .cycles (-(← perform .rdtsc))
    return 0

def tasPriorityTrylockTm (lk : Addr) : LockProg Int := do
  let spec ← perform .specEntry
  if spec = 0 then
    let all ← load (.lock lk .all)
    let held ← if readyOf all = 0 then tatas (.lock lk .val) 1 else ret 1
    if held = 0 then
      tmStatsAdd .locks 1
      tmStatsSubRdtsc .cycles
      return 0
    else return 1
  else return 0

def tasPriorityUnlockTm (l : Addr) : LockProg Int := do
  let spec ← perform .specEntry
  if spec = 0 then
    emit (.release (.lock l .val))
    tmStatsAddRdtsc .cycles
    return 0
  else return 0

/-! ## Ticket locks -/

/-- A `uint32_t`. -/
def wrap32 (v : Int) : Int := v % 0x100000000

/-- The two halves of a ticket lock as one `int64_t`. -/
def packTicket (next now : Int) : Int := next + 0x100000000 * now

/-- The loop of `ticket_lock`. -/
def ticketLockLoop (cfg : TxConfig) (l : Addr) (myTicket : Int) : LockProg Unit :=
  loop (fun _ => do
    let now ← load (.lock l .now)
    if myTicket = now then return .inr ()
    else
      -- `dist`, for the delay
      let _ ← load (.lock l .now)
      return .inl ()) cfg.fuel ()

def ticketLock (cfg : TxConfig) (l : Addr) : LockProg Int := do
  tmStatsAdd .locks 1
  let myTicket ← perform (.fetchAndAdd (.lock l .next) 1)
  ticketLockLoop cfg l myTicket
  tmStatsSubRdtsc .cycles
  return 0

def ticketTrylock (l : Addr) : LockProg Int := do
  let now ← load (.lock l .now)
  let stored ← perform
    (.cas (.lock l .all) (packTicket now now) (packTicket (wrap32 (now + 1)) now))
  if stored ≠ 0 then
    tmStatsAdd .locks 1
    tmStatsSubRdtsc .cycles
    return 0
  else return 1

def ticketUnlock (l : Addr) : LockProg Int := do
  let now ← load (.lock l .now)
  store (.lock l .now) (wrap32 (now + 1))
  tmStatsAddRdtsc .cycles
  return 0

/-- The loop of `ticket_lock_tm`: `true` when it speculates. -/
def ticketLockTmLoop (cfg : TxConfig) (l : Addr) (myTicket : Int) : LockProg Bool :=
  loop (fun (tries : Word) => do
    let now ← load (.lock l .now)
    if myTicket = now then return .inr false
    else
      let now' ← load (.lock l .now)
      let dist := BitVec.ofInt 32 (myTicket - now')
      if dist ≤ cfg.maxDistance ∧ dist ≥ cfg.minDistance ∧ tries < cfg.numTries then
        let e ← enterHtm l
        if e = 0 then
          let cur ← load (.lock l .now)
          if cur = myTicket then emit (.xabort 1)
          return .inr true
        else return .inl (tries + 1)
      else return .inl tries) cfg.fuel 0

def ticketLockTm (cfg : TxConfig) (l : Addr) : LockProg Int := do
  let spec ← perform .specEntry
  if spec ≠ 0 then return 0
  else
    tmStatsAdd .locks 1
    let myTicket ← perform (.fetchAndAdd (.lock l .next) 1)
    let speculating ← ticketLockTmLoop cfg l myTicket
    if speculating then return 0
    else
      tmStatsSubRdtsc .cycles
      return 0

def ticketTrylockTm (l : Addr) : LockProg Int := do
  let spec ← perform .specEntry
  if spec ≠ 0 then return 0
  else
    -- the result is not used
    let _ ← ticketTrylock l
    return 0

def ticketUnlockTm (l : Addr) : LockProg Int := do
  let spec ← perform .specEntry
  if spec ≠ 0 then return 0
  else
    let now ← load (.lock l .now)
    store (.lock l .now) (wrap32 (now + 1))
    tmStatsAddRdtsc .cycles
    return 0

/-! ## Mutexes of libpthread -/

def pthreadLock (lk : Addr) : LockProg Int := do
  tmStatsAdd .locks 1
  let retval ← perform (.pthreadMutexLock lk)
  tmStatsSubRdtsc .cycles
  return retval

def pthreadTrylock (lk : Addr) : LockProg Int := do
  let retval ← perform (.pthreadMutexTrylock lk)
  if retval = 0 then
    tmStatsAdd .locks 1
    tmStatsSubRdtsc .cycles
  return retval

def pthreadUnlock (lk : Addr) : LockProg Int := do
  let retval ← perform (.pthreadMutexUnlock lk)
  tmStatsAddRdtsc .cycles
  return retval

/-- The loop of `pthread_lock_tm`: `true` when it speculates. -/
def pthreadLockTmLoop (cfg : TxConfig) (l : Addr) : LockProg Bool :=
  loop (fun (tries : Word) => do
    let busy ← perform (.pthreadMutexTrylock l)
    if busy = 0 then return .inr false
    else
      let e ← enterHtm l
      if e = 0 then return .inr true
      else if tries + 1 ≥ cfg.numTries then
        let _ ← perform (.pthreadMutexLock l)
        return .inr false
      else return .inl (tries + 1)) cfg.fuel 0

def pthreadLockTm (cfg : TxConfig) (l : Addr) : LockProg Int := do
  let spec ← perform .specEntry
  if spec ≠ 0 then return 0
  else
    tmStatsAdd .locks 1
    let speculating ← pthreadLockTmLoop cfg l
    if speculating then return 0
    else
      tmStatsSubRdtsc .cycles
      return 0

def pthreadTrylockTm (l : Addr) : LockProg Int := do
  let spec ← perform .specEntry
  if spec ≠ 0 then return 0
  else
    let retval ← perform (.pthreadMutexTrylock l)
    if retval = 0 then
      tmStatsAdd .locks 1
      tmStatsAddRdtsc .cycles
    return retval

def pthreadUnlockTm (l : Addr) : LockProg Int := do
  let spec ← perform .specEntry
  if spec ≠ 0 then return 0
  else
    let _ ← perform (.pthreadMutexUnlock l)
    tmStatsAddRdtsc .cycles
    return 0

/-! ## Queue locks -/

/-- `sizeof(mcs_node_t)` -/
def mcsNodeSize : Int := 42

/-- The body of the loop of `alloc_more_nodes`. -/
def initNode (n : Addr) : LockProg Unit := do
  store (.node n .listNext) (n + mcsNodeSize)
  store (.node n .listPrev) 0
  store (.node n .wait) 1
  store (.node n .speculate) 1
  store (.node n .lock) 0
  store (.node n .lockNext) 0
  store (.node n .cnt) 0

/-- `alloc_more_nodes` -/
def allocMoreNodes : LockProg Unit := do
  let nodes ← perform .mallocNodes
  assert (nodes ≠ 0)
  (List.range 8).forM fun i => initNode (nodes + mcsNodeSize * i)
  store (.node (nodes + mcsNodeSize * 7) .listNext) 0
  store .myFreeNodes nodes

/-- The first free node, from a new batch when there is none. -/
def getFreeNode : LockProg Addr := do
  let mine ← load .myFreeNodes
  if mine = 0 then
    allocMoreNodes
    let mine ← load .myFreeNodes
    assert (mine ≠ 0)
    return mine
  else return mine

/-- Move `mine` from the free list to the used list. -/
def useNode (mine : Addr) : LockProg Unit := do
  store .myFreeNodes (← load (.node mine .listNext))
  let used ← load .myUsedNodes
  store (.node mine .listNext) used
  if used ≠ 0 then store (.node used .listPrev) mine
  store .myUsedNodes mine
  store (.node mine .listPrev) 0

/-- `while (cond) {}` where the condition is on one word. -/
def spinWhile (cfg : TxConfig) (x : Loc) (cond : Int → Bool) : LockProg Unit :=
  loop (fun _ => do
    let v ← load x
    return if cond v then .inl () else .inr ()) cfg.fuel ()

/-- `mcs_lock_common` with `tm`, behind a predecessor: its position, and perhaps a
    transaction while it waits. -/
def mcsWaitTm (cfg : TxConfig) (lk mine pred : Addr) : LockProg Int := do
  store (.node pred .lockNext) mine
  spinWhile cfg (.node pred .cnt) (· = 0)
  let cnt := (← load (.node pred .cnt)) + 1
  store (.node mine .cnt) cnt
  let nowServing ← load (.lock lk .nowServing)
  let spec ← perform .specEntry
  let begun ←
    if nowServing < cnt - cfg.minDistance.toNat ∧ nowServing > cnt - cfg.maxDistance.toNat ∧
        spec = 0 then do
      emit (.setSpecEntry lk)
      let status ← perform .xbegin
      if status = xbeginStarted then
        let speculate ← load (.node mine .speculate)
        let waiting ← if speculate ≠ 1 then ret 0 else load (.node mine .wait)
        if waiting ≠ 1 then
          emit (.xabort 0)
          -- an abort does not return
          emit (.setSpecEntry 0)
          ret false
        else ret true
      else
        emit (.setSpecEntry 0)
        ret false
    else ret false
  if begun then return 0
  else
    spinWhile cfg (.node mine .wait) (· ≠ 0)
    let now ← load (.lock lk .nowServing)
    assert (now = cnt - 1)
    store (.lock lk .nowServing) cnt
    return 0

/-- `mcs_lock_common` once `mine` is in the queue, behind `pred`. -/
def mcsQueued (cfg : TxConfig) (lk : Addr) (tm : Bool) (mine pred : Addr) : LockProg Int := do
  useNode mine
  if pred ≠ 0 then
    if tm then mcsWaitTm cfg lk mine pred
    else
      store (.node pred .lockNext) mine
      spinWhile cfg (.node mine .wait) (· ≠ 0)
      return 0
  else if tm then
    let now ← load (.lock lk .nowServing)
    store (.node mine .cnt) (now + 1)
    let now' ← load (.lock lk .nowServing)
    store (.lock lk .nowServing) (now' + 1)
    return 0
  else return 0

def mcsLockCommon (cfg : TxConfig) (lk : Addr) (tryLock tm : Bool) : LockProg Int := do
  let spec ← perform .specEntry
  if spec ≠ 0 then return 0
  else
    let mine ← getFreeNode
    store (.node mine .lockNext) 0
    store (.node mine .lock) lk
    store (.node mine .wait) 1
    store (.node mine .speculate) 1
    store (.node mine .cnt) 0
    if tryLock then
      let stored ← perform (.cas (.lock lk .tail) 0 mine)
      if stored = 0 then return 1 else mcsQueued cfg lk tm mine 0
    else
      let pred ← perform (.testAndSet (.lock lk .tail) mine)
      mcsQueued cfg lk tm mine pred

def deallocNode (mine : Addr) : LockProg Unit := do
  store (.node mine .lockNext) 0
  let listPrev ← load (.node mine .listPrev)
  let listNext ← load (.node mine .listNext)
  if listPrev ≠ 0 then store (.node listPrev .listNext) listNext
  else store .myUsedNodes listNext
  if listNext ≠ 0 then store (.node listNext .listPrev) listPrev
  store (.node mine .listNext) (← load .myFreeNodes)
  store .myFreeNodes mine

/-- The search of the used list for the node of `lk`. -/
def findNode (cfg : TxConfig) (lk mine : Addr) : LockProg Addr :=
  loop (fun mine => do
    let lock ← load (.node mine .lock)
    if lock = lk then return .inr mine
    else
      let mine ← load (.node mine .listNext)
      assert (mine ≠ 0)
      return .inl mine) cfg.fuel mine

/-- The halting of the speculators behind `first`. -/
def haltSpeculators (cfg : TxConfig) (first : Addr) : LockProg Unit :=
  loop (fun (p : Addr × Word) => do
    if p.1 = 0 then return .inr ()
    else
      if p.2 ≥ cfg.minDistance then store (.node p.1 .speculate) 0
      if p.2 > cfg.maxDistance then return .inr ()
      else
        let current ← load (.node p.1 .lockNext)
        return .inl (current, p.2 + 1)) cfg.fuel (first, 1)

/-- `mcs_unlock_common` when there is a successor. -/
def mcsHandover (cfg : TxConfig) (mine : Addr) (tm : Bool) : LockProg Int := do
  if tm then haltSpeculators cfg (← load (.node mine .lockNext))
  let next ← load (.node mine .lockNext)
  store (.node next .wait) 0
  deallocNode mine
  return 0

def mcsUnlockCommon (cfg : TxConfig) (lk : Addr) (tm : Bool) : LockProg Int := do
  let first ← load .myUsedNodes
  assert (first ≠ 0)
  let mine ← findNode cfg lk first
  let next ← load (.node mine .lockNext)
  if next = 0 then
    let stored ← perform (.cas (.lock lk .tail) mine 0)
    if stored ≠ 0 then
      deallocNode mine
      return 0
    else
      spinWhile cfg (.node mine .lockNext) (· = 0)
      mcsHandover cfg mine tm
  else mcsHandover cfg mine tm

def mcsLock (cfg : TxConfig) (lk : Addr) : LockProg Int := mcsLockCommon cfg lk false false

def mcsTrylock (cfg : TxConfig) (lk : Addr) : LockProg Int := mcsLockCommon cfg lk true false

def mcsUnlock (cfg : TxConfig) (lk : Addr) : LockProg Int := mcsUnlockCommon cfg lk false

def mcsLockTm (cfg : TxConfig) (lk : Addr) : LockProg Int := mcsLockCommon cfg lk false true

def mcsTrylockTm (cfg : TxConfig) (lk : Addr) : LockProg Int := mcsLockCommon cfg lk true true

def mcsUnlockTm (cfg : TxConfig) (lk : Addr) : LockProg Int := do
  let spec ← perform .specEntry
  if spec = 0 then mcsUnlockCommon cfg lk true else return 0

/-! ## Dispatch -/

/-- The entries of `lock_types`. -/
inductive LockType where
  | pthread | pthreadTm | tas | tasTm | tasPriorityTm | tasHle | ticket | ticketTm | mcs | mcsTm
  deriving DecidableEq, Repr

/-- `lock_fun`, `trylock_fun` and `unlock_fun` of an entry. -/
structure LockFuns where
  lockFun : Addr → LockProg Int
  trylockFun : Addr → LockProg Int
  unlockFun : Addr → LockProg Int

/-- `lock_types` -/
def lockTypes (cfg : TxConfig) : LockType → LockFuns
  | .pthread => ⟨pthreadLock, pthreadTrylock, pthreadUnlock⟩
  | .pthreadTm => ⟨pthreadLockTm cfg, pthreadTrylockTm, pthreadUnlockTm⟩
  | .tas => ⟨tasLock cfg, tasTrylock, tasUnlock⟩
  | .tasTm => ⟨tasLockTm cfg, tasTrylockTm, tasUnlockTm⟩
  | .tasPriorityTm => ⟨tasPriorityLockTm cfg, tasPriorityTrylockTm, tasPriorityUnlockTm⟩
  | .tasHle => ⟨tasLockHle cfg, tasTrylockHle, tasUnlockHle⟩
  | .ticket => ⟨ticketLock cfg, ticketTrylock, ticketUnlock⟩
  | .ticketTm => ⟨ticketLockTm cfg, ticketTrylockTm, ticketUnlockTm⟩
  | .mcs => ⟨mcsLock cfg, mcsTrylock cfg, mcsUnlock cfg⟩
  | .mcsTm => ⟨mcsLockTm cfg, mcsTrylockTm cfg, mcsUnlockTm cfg⟩

def tlLock (cfg : TxConfig) (ty : LockType) (l : Addr) : LockProg Int := (lockTypes cfg ty).lockFun l

def tlTrylock (cfg : TxConfig) (ty : LockType) (l : Addr) : LockProg Int :=
  (lockTypes cfg ty).trylockFun l

def tlUnlock (cfg : TxConfig) (ty : LockType) (l : Addr) : LockProg Int :=
  (lockTypes cfg ty).unlockFun l

end TxLock.Native
