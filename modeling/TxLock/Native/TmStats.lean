import Mathlib.Data.BitVec
import Mathlib.Logic.Function.Basic
import TxLock.ForStd.System
import TxLock.Native.Txlock

/-!
# The records of the statistics

`tl_thread_enter` and `uninit_lib_txlock` of `txlock.c`. Every thread counts in a record of
its own, and the records form a list from `tm_stats_head`: a thread pushes its record with a
compare-and-swap, which it repeats until it succeeds. At the end the list is added up.

The read of `tm_stats_head`, the write of `next` and the compare-and-swap are one step each.
-/

namespace TxLock.Native

/-- `tm_stats_t`. A record is known by its address. -/
structure TmStats where
  count : (f : StatField) → BitVec f.width := fun _ => 0
  threads : Word := 0
  next : Option Nat := none

/-- `my_tm_stats->f += v` -/
def TmStats.add (r : TmStats) (f : StatField) (v : Int) : TmStats :=
  { r with count := Function.update r.count f (r.count f + BitVec.ofInt f.width v) }

/-- Where a thread is in `tl_thread_enter`. -/
inductive StatsPc where
  | out
  /-- About to read `tm_stats_head`. -/
  | readHead
  /-- About to write `my_tm_stats->next`. -/
  | writeNext (head : Option Nat)
  /-- About to compare-and-swap `tm_stats_head`. -/
  | cas
  deriving DecidableEq, Repr

/-- The records and the threads. -/
structure StatsState (Tid : Type) where
  /-- `tm_stats_head` -/
  head : Option Nat
  record : Nat → TmStats
  /-- The records that `aligned_alloc` has returned. -/
  allocated : List Nat
  /-- `my_tm_stats` -/
  mine : Tid → Option Nat
  pc : Tid → StatsPc

/-- What a thread does next. -/
inductive StatsAct (Tid : Type) where
  /-- Thread `t` calls `tl_thread_enter`; `aligned_alloc` would return `r`. -/
  | enter (t : Tid) (r : Nat)
  /-- The next step of `tl_thread_enter` in thread `t`. -/
  | run (t : Tid)
  /-- Thread `t` adds to one of its counters. -/
  | count (t : Tid) (f : StatField) (v : Int)
  deriving DecidableEq, Repr

namespace StatsState

variable {Tid : Type} [DecidableEq Tid]

/-- Thread `t` goes on at `pc`. -/
def goto (s : StatsState Tid) (t : Tid) (pc : StatsPc) : StatsState Tid :=
  { s with pc := Function.update s.pc t pc }

/-- Write the record `r`. -/
def setRecord (s : StatsState Tid) (r : Nat) (x : TmStats) : StatsState Tid :=
  { s with record := Function.update s.record r x }

/-- One step of the system. -/
def step (s : StatsState Tid) (a : StatsAct Tid) : Option (StatsState Tid) :=
  match a with
  | .enter t r =>
    if s.pc t ≠ .out then none
    -- `if (my_tm_stats == 0)`
    else if (s.mine t).isSome then some s
    else if r ∈ s.allocated then none
    else
      let s := { s with allocated := r :: s.allocated, mine := Function.update s.mine t (some r) }
      some ((s.setRecord r {}).goto t .readHead)
  | .run t =>
    match s.mine t, s.pc t with
    | some _, .readHead => some (s.goto t (.writeNext s.head))
    | some r, .writeNext head =>
      some ((s.setRecord r { s.record r with next := head }).goto t .cas)
    | some r, .cas =>
      if s.head = (s.record r).next then some ({ s with head := some r }.goto t .out)
      else some (s.goto t .readHead)
    | _, _ => none
  | .count t f v =>
    match s.mine t, s.pc t with
    | some r, .out => some (s.setRecord r ((s.record r).add f v))
    | _, _ => none

/-- The loop of `uninit_lib_txlock`, for at most `k` records. -/
def uninitLoop (record : Nat → TmStats) : Nat → Option Nat → TmStats → Option TmStats
  | _, none, total => some total
  | 0, some _, _ => none
  | k + 1, some curr, total =>
    uninitLoop record k (record curr).next { total with
      count := fun f => total.count f + (record curr).count f
      threads := total.threads + 1 }

/-- `uninit_lib_txlock`: the totals it puts in `tm_stats`. -/
def uninit (s : StatsState Tid) (k : Nat) : Option TmStats := uninitLoop s.record k s.head {}

end StatsState

/-- Threads that use the library, which thread `main` has initialised. -/
def tmStats (Tid : Type) [DecidableEq Tid] (main : Tid) :
    System (StatsState Tid) (StatsAct Tid) where
  init s := ∃ r, s = ⟨some r, fun _ => {}, [r], Function.update (fun _ => none) main (some r),
    fun _ => .out⟩
  step := StatsState.step

end TxLock.Native
