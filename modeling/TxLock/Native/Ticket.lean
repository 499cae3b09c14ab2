import TxLock.Native.Txutil

/-!
# The ticket locks

`ticket` and `ticket_tm` of `txlock.c`. The lock is a pair of 32-bit counters in one
64-bit word: `next` is the next ticket to hand out, `now` the ticket being served.

Each access to the lock's words is one step: the fetch-and-add, every read of
`now`, the 64-bit compare-and-swap, and the read and the write of `l->now++`. What a
thread does to its own variables goes with the step before it.

A speculating waiter runs in a hardware transaction. The transaction of a ticket
lock is never committed: it ends by an abort, which may come at any moment, and
the thread goes on where `enter_htm` returns 1.
-/

namespace TxLock.Native

/-- Where a thread is in the code of a ticket lock. -/
inductive TicketPc where
  | out
  /-- `ticket_lock`: about to evaluate `my_ticket != l->now`. -/
  | spin (tries : Word)
  /-- About to read `l->now` for `dist`. -/
  | dist (tries : Word)
  /-- In `enter_htm`, about to begin a transaction. -/
  | enterHtm (tries : Word)
  /-- In a transaction, about to evaluate `l->now == my_ticket`. -/
  | check (tries : Word)
  /-- In a transaction; the call has returned 0 and the caller goes on. -/
  | spec (tries : Word)
  /-- `ticket_trylock`: about to read `l->now`. -/
  | tryRead
  /-- `ticket_trylock`: about to compare-and-swap both counters, from `t` and `t`. -/
  | tryCas (t : Word)
  /-- `ticket_unlock`: about to read `l->now`. -/
  | unlockRead
  /-- `ticket_unlock`: about to write `now + 1`. -/
  | unlockWrite (now : Word)
  deriving DecidableEq, Repr

/-- The lock's counters and the threads. -/
structure TicketState (Tid : Type) where
  next : Word
  now : Word
  pc : Tid → TicketPc
  /-- The thread's local `my_ticket` (in `ticket_trylock`: the ticket it swaps in). -/
  myTicket : Tid → Word
  /-- `spec_entry` is not 0. -/
  specEntry : Tid → Bool
  /-- The caller's record: its last lock or trylock returned 0 outside a transaction
      and it has not called unlock since. -/
  told : Tid → Bool

/-- What a thread does next. -/
inductive TicketAct (Tid : Type) where
  | lock (t : Tid)
  | trylock (t : Tid)
  | unlock (t : Tid)
  /-- The next step of the code thread `t` is in. -/
  | run (t : Tid)
  /-- The begin instruction of `enter_htm` starts a transaction. -/
  | htmStart (t : Tid)
  /-- The begin fails, or the running transaction aborts. -/
  | htmAbort (t : Tid)
  deriving DecidableEq, Repr

namespace TicketState

variable {Tid : Type} [DecidableEq Tid]

/-- Thread `t` goes on at `pc`. -/
def goto (s : TicketState Tid) (t : Tid) (pc : TicketPc) : TicketState Tid :=
  { s with pc := Function.update s.pc t pc }

/-- Set the caller's record of thread `t`. -/
def tell (s : TicketState Tid) (t : Tid) (b : Bool) : TicketState Tid :=
  { s with told := Function.update s.told t b }

/-- Set `spec_entry` of thread `t`. -/
def setSpec (s : TicketState Tid) (t : Tid) (b : Bool) : TicketState Tid :=
  { s with specEntry := Function.update s.specEntry t b }

/-- Thread `t` takes ticket `v`. -/
def take (s : TicketState Tid) (t : Tid) (v : Word) : TicketState Tid :=
  { s with next := v + 1, myTicket := Function.update s.myTicket t v }

/-- The next step of the code thread `t` is in; `tm` tells `ticket_tm` from `ticket`. -/
def runStep (cfg : TmParams) (tm : Bool) (s : TicketState Tid) (t : Tid) :
    Option (TicketState Tid) :=
  match s.pc t with
  -- `while (my_ticket != l->now)`
  | .spin tries =>
    if s.myTicket t ≠ s.now then some (s.goto t (.dist tries))
    else some ((s.goto t .out).tell t true)
  | .dist tries =>
    let dist := s.myTicket t - s.now
    if tm ∧ dist ≤ cfg.maxDistance ∧ dist ≥ cfg.minDistance ∧ tries < cfg.numTries then
      -- `spec_entry = primitive` comes before the begin instruction
      some ((s.goto t (.enterHtm tries)).setSpec t true)
    else some (s.goto t (.spin tries))
  | .check tries =>
    -- `HTM_ABORT(1)`: back to the `else` branch of `enter_htm`
    if s.now = s.myTicket t then some ((s.goto t (.spin (tries + 1))).setSpec t false)
    else some (s.goto t (.spec tries))
  -- `t.now = t.next = l->now;`, then one swap of both counters
  | .tryRead => some (s.goto t (.tryCas s.now))
  | .tryCas v =>
    if s.next = v ∧ s.now = v then some (((s.take t v).goto t .out).tell t true)
    -- `ticket_trylock` returns 1; `ticket_trylock_tm` drops the result and returns 0
    else some ((s.goto t .out).tell t (s.told t || tm))
  -- `l->now++;`, a read and a write
  | .unlockRead => some (s.goto t (.unlockWrite s.now))
  | .unlockWrite now => some ({ s with now := now + 1 }.goto t .out)
  | .out | .enterHtm _ | .spec _ => none

/-- One step of the system. A thread calls lock only while it is not told that it
    holds the lock, and unlock only while it is. The functions of `ticket_tm` return
    0 at once when `spec_entry` is set. -/
def step (cfg : TmParams) (tm : Bool) (s : TicketState Tid) :
    TicketAct Tid → Option (TicketState Tid)
  | .lock t =>
    match s.pc t with
    | .spec _ => if tm ∧ s.specEntry t then some s else none
    | .out =>
      if s.told t then none
      else if tm ∧ s.specEntry t then some (s.tell t true)
      -- `uint32_t my_ticket = __sync_fetch_and_add(&l->next, 1);`
      else some ((s.take t s.next).goto t (.spin 0))
    | _ => none
  | .trylock t =>
    match s.pc t with
    | .spec _ => if tm ∧ s.specEntry t then some s else none
    | .out =>
      if tm ∧ s.specEntry t then some (s.tell t true) else some (s.goto t .tryRead)
    | _ => none
  | .unlock t =>
    match s.pc t with
    | .spec _ => if tm ∧ s.specEntry t then some s else none
    | .out =>
      if ¬ s.told t then none
      else if tm ∧ s.specEntry t then some (s.tell t false)
      else some ((s.goto t .unlockRead).tell t false)
    | _ => none
  | .run t => s.runStep cfg tm t
  | .htmStart t =>
    match s.pc t with
    | .enterHtm tries => some (s.goto t (.check tries))
    | _ => none
  | .htmAbort t =>
    match s.pc t with
    | .enterHtm tries | .check tries | .spec tries =>
      some ((s.goto t (.spin (tries + 1))).setSpec t false)
    | _ => none

end TicketState

/-- Threads using one ticket lock, `ticket` or (`tm`) `ticket_tm`, whose counters
    start at any common value. -/
def ticket (Tid : Type) [DecidableEq Tid] (cfg : TmParams) (tm : Bool) :
    System (TicketState Tid) (TicketAct Tid) where
  init s := s.now = s.next ∧ (∀ t, s.pc t = .out) ∧ (∀ t, s.specEntry t = false) ∧
    ∀ t, s.told t = false
  step := TicketState.step cfg tm

end TxLock.Native
