import Mathlib
import TxLock.ForStd.Counter
import TxLock.Native.HtmTrace

/-!
# A thread with hardware transactions, and its statistics

The thread of `Native/HtmThread` with its counters `my_tm_stats`, a clock that only moves
forward, and a record of what the counters are meant to count: the transactions that are over
and the locks that were acquired and released. Counters and record are part of what a
transaction buffers.

`TM_PROFILE_RDTSC` decides whether the macro `RDTSC()` reads the clock or is 0. The clock at an
event is what the code reads next to it, before any other access to a lock; where it reads
nothing, it is the clock itself.
-/

namespace TxLock.Native

open Prog

/-- A transaction that is over, or an attempt that did not start; `status` is that of the abort. -/
structure TxSpan where
  status : Option Int
  beginClock : Int
  endClock : Int
  deriving DecidableEq, Repr

/-- A lock that was acquired and released. -/
structure LockSpan where
  lock : Addr
  acquired : Int
  released : Int
  deriving DecidableEq, Repr

/-- The counters of a thread and the record of what they count. -/
structure Profile where
  /-- `my_tm_stats` -/
  stats : (f : StatField) → Counter f.width := fun _ => {}
  /-- What the code has read from the clock since its last access to a lock. -/
  reading : Option Int := none
  /-- The clock at the begins of the live transactions, the innermost first. -/
  live : List Int := []
  /-- Statuses and begins of the attempts that aborted since the clock was read. -/
  aborting : List (Int × Int) := []
  ended : List TxSpan := []
  /-- The lock function under way was called in a transaction. -/
  speculative : Bool := false
  /-- The locks the thread was told it has, and the clock at their acquisitions. -/
  held : List (Addr × Int) := []
  spans : List LockSpan := []

namespace Profile

/-- `my_tm_stats->f += v` -/
def add (r : Profile) (f : StatField) (v : Int) : Profile :=
  { r with stats := Function.update r.stats f ((r.stats f).add v) }

/-- `my_tm_stats->f` -/
def count (r : Profile) (f : StatField) : Int := (r.stats f).value.toInt

/-- History: what has been added to it. -/
def total (r : Profile) (f : StatField) : Int := (r.stats f).total

/-- The code reads `v` from the clock. -/
def readClock (r : Profile) (v : Int) : Profile :=
  { r with
    reading := some v
    aborting := []
    ended := r.ended ++ r.aborting.map fun a => ⟨some a.1, a.2, v⟩ }

/-- An operation of the code, answered by `v`. -/
def perform (r : Profile) (lo : LockOp) (v : Int) : Profile :=
  match lo with
  | .statsAdd f w => r.add f w
  | .rdtscMacro | .rdtsc => r.readClock v
  | .load _ | .store .. | .testAndSet .. | .release _ | .cas .. | .fetchAndAdd ..
  | .pthreadMutexLock _ | .pthreadMutexTrylock _ | .pthreadMutexUnlock _ =>
    { r with reading := none }
  | .xbegin | .xend | .xtest | .xabort _ | .specEntry | .setSpecEntry _ | .mallocNodes
  | .assertFail => r

/-- A transaction begins. -/
def begins (r : Profile) (now : Int) : Profile :=
  { r with live := r.reading.getD now :: r.live }

/-- The attempt that begins here aborts. -/
def aborts (r : Profile) (status now : Int) : Profile :=
  { r with aborting := r.aborting ++ [(status, r.reading.getD now)] }

/-- `HTM_END()` -/
def ends (r : Profile) (now : Int) : Profile :=
  match r.live with
  | [] => r
  | b :: live => { r with live := live, ended := r.ended ++ [⟨none, b, now⟩] }

/-- A lock function is called. -/
def calls (r : Profile) (inside : Bool) : Profile :=
  { r with reading := none, speculative := inside }

def acquire (r : Profile) (m : Addr) (clock : Int) : Profile :=
  { r with held := (m, r.reading.getD clock) :: r.held }

def release (r : Profile) (m : Addr) (clock : Int) : Profile :=
  match r.held.lookup m with
  | none => r
  | some c =>
    { r with
      held := r.held.erase (m, c)
      spans := r.spans ++ [⟨m, c, r.reading.getD clock⟩] }

/-- The lock function for `o` returns `x`. In a transaction nothing is acquired or released. -/
def returns (r : Profile) (o : CondOp) (x : Int) (inside : Bool) (clock : Int) : Profile :=
  if r.speculative || inside then r
  else match o with
    | .tlLock m | .tlTrylock m => if x = 0 then r.acquire m clock else r
    | .tlUnlock m => r.release m clock
    | _ => r

end Profile

/-- The thread, the clock, its profile and the profile at the outermost begin. -/
structure ProfiledState where
  htm : HtmState := {}
  clock : Nat := 0
  profile : Profile := {}
  saved : Profile := {}

/-- What happens next. -/
inductive ProfiledAct where
  /-- Time passes. -/
  | tick (n : Nat)
  | act (a : HtmAct)
  deriving DecidableEq, Repr

namespace ProfiledState

/-- `RDTSC()` -/
def rdtscMacro (profileRdtsc : Bool) (s : ProfiledState) : Int :=
  if profileRdtsc then s.clock else 0

/-- The profile an abort goes back to. -/
def keep (s : ProfiledState) : Profile := if s.htm.depth = 0 then s.profile else s.saved

/-- The clock answers the operations that read it. -/
def ClockAnswers (profileRdtsc : Bool) (s : ProfiledState) : HtmAct → Prop
  | .run v =>
    match s.htm.thread.code with
    | .lockFun _ _ _ _ (.op .rdtscMacro _) => v = s.rdtscMacro profileRdtsc
    | .lockFun _ _ _ _ (.op .rdtsc _) => v = s.clock
    | _ => True
  | .call _ | .htmBegin | .htmAbort _ => True

theorem clockAnswers_run_iff (profileRdtsc : Bool) (s : ProfiledState) (v : Int) :
    s.ClockAnswers profileRdtsc (.run v) ↔ ∀ p ∈ s.htm.thread.code.atOp,
      (p.2 = .rdtscMacro → v = s.rdtscMacro profileRdtsc) ∧ (p.2 = .rdtsc → v = s.clock) := by
  unfold ClockAnswers
  cases s.htm.thread.code with
  | app | call c ops p => simp [HtmCode.atOp]
  | lockFun c ops o k p =>
    cases p with
    | ret x | halt => simp [HtmCode.atOp]
    | op lo lk => cases lo <;> simp [HtmCode.atOp]

instance (profileRdtsc : Bool) (s : ProfiledState) : DecidablePred (s.ClockAnswers profileRdtsc)
  | .run v => decidable_of_iff' _ (clockAnswers_run_iff profileRdtsc s v)
  | .call _ | .htmBegin | .htmAbort _ => isTrue trivial

/-- The profile after an operation of a lock function. -/
def observeOp (profileRdtsc : Bool) (s : ProfiledState) (lo : LockOp) (v : Int) : Profile :=
  let now := s.rdtscMacro profileRdtsc
  match lo, s.htm.depth with
  | .xend, _ + 1 => s.profile.ends now
  -- the transaction aborts
  | .xabort code, _ + 1 => s.keep.aborts (explicitStatus code) now
  | .assertFail, _ + 1 => s.keep.aborts 0 now
  | lo, _ => s.profile.perform lo v

/-- The profile after an action. -/
def observe (cfg : TxConfig) (ty : LockType) (profileRdtsc : Bool) (s : ProfiledState)
    (a : HtmAct) : Profile :=
  let now := s.rdtscMacro profileRdtsc
  match a with
  | .call _ => s.profile
  | .htmBegin => s.profile.begins now
  | .htmAbort status => s.keep.aborts status now
  | .run v =>
    match s.htm.thread.code with
    | .call _ _ (.op o _) =>
      if (lockCode cfg ty o).isSome then s.profile.calls (s.htm.depth ≠ 0) else s.profile
    | .lockFun _ _ o _ (.ret x) => s.profile.returns o x (s.htm.depth ≠ 0) s.clock
    | .lockFun _ _ _ _ (.op lo _) => s.observeOp profileRdtsc lo v
    | _ => s.profile

/-- One step of the system. -/
def step (cfg : TxConfig) (ty : LockType) (profileRdtsc : Bool) (s : ProfiledState) :
    ProfiledAct → Option ProfiledState
  | .tick n => some { s with clock := s.clock + n }
  | .act a =>
    if a.NonNull ∧ s.ClockAnswers profileRdtsc a then
      (s.htm.step cfg ty a).map fun h =>
        { htm := h
          clock := s.clock
          profile := s.observe cfg ty profileRdtsc a
          saved := s.keep }
    else none

end ProfiledState

/-- A thread that uses locks of type `ty`, with its statistics. -/
def profiledThread (cfg : TxConfig) (ty : LockType) (profileRdtsc : Bool) :
    System ProfiledState ProfiledAct where
  init s := s = {}
  step := ProfiledState.step cfg ty profileRdtsc

end TxLock.Native
