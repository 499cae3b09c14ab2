import TxLock.Spec.LockFields
import TxLock.Spec.TicketTrylock
import TxLock.Spec.TlGraph

/-!
# The code of the ticket locks

Threads that run the code of `ticket` or `ticket_tm` on any locks, operation by operation, do
on each of them what the system `ticket` does, whose steps are the accesses to the counters.

## Key results

- `ticketGraph_lawful`: the control graph of the functions
- `ticket_step`: a step in the graph is a step of `ticket` or none, for each lock
- `ticket_code_refines`: what the code returns of a lock, `ticket` shows, and it leaves the
  same counters
-/

namespace TxLock.Spec

open Native Prog

variable {Tid : Type}

/-! ## The graph -/

/-- Where a thread is in the code of `ticket` or `ticket_tm`. -/
inductive TicketPlace where
  /-- The locks, about to take a ticket. -/
  | takeTicket
  | spin (myTicket : Int) (tries : Word)
  | dist (myTicket : Int) (tries : Word)
  | enterHtm (myTicket : Int) (tries : Word)
  /-- In a transaction, about to evaluate `l->now == my_ticket`. -/
  | check (myTicket : Int)
  /-- In a transaction, about to abort it. -/
  | aborting
  /-- In a transaction, where the functions of `ticket_tm` return 0. -/
  | spec
  /-- The trylocks. -/
  | tryRead
  | tryCas (now : Int)
  /-- The unlocks. -/
  | unlockRead
  | unlockWrite (now : Int)
  /-- About to return `x`, with nothing left to do on the lock. -/
  | ending (x : Int)
  deriving DecidableEq, Repr

/-- The ticket is near enough to its turn, and far enough, for a transaction. -/
def ticketSpeculates (cfg : TmParams) (tm : Bool) (dist : Word) (tries : Word) : Prop :=
  tm = true ∧ dist ≤ cfg.maxDistance ∧ dist ≥ cfg.minDistance ∧ tries < cfg.numTries

instance (cfg : TmParams) (tm : Bool) (dist tries : Word) :
    Decidable (ticketSpeculates cfg tm dist tries) :=
  inferInstanceAs (Decidable (_ ∧ _))

/-- What the functions do at a place. -/
def TicketPlace.node (cfg : TmParams) (tm : Bool) (l : Addr) :
    TicketPlace → GraphNode LockOp TicketPlace
  | .takeTicket => .op (.fetchAndAdd (.lock l .next) 1) fun v => .spin v 0
  | .spin v n => .op (.load (.lock l .now)) fun now => if v = now then .ending 0 else .dist v n
  | .dist v n => .op (.load (.lock l .now)) fun now =>
    if ticketSpeculates cfg tm (BitVec.ofInt 32 (v - now)) n then .enterHtm v n else .spin v n
  | .enterHtm v n => .op .xbegin fun status =>
    if status = xbeginStarted then .check v else .spin v (n + 1)
  | .check v => .op (.load (.lock l .now)) fun now => if now = v then .aborting else .spec
  | .aborting => .op (.xabort 1) fun _ => .spec
  | .spec => .ret 0
  | .tryRead => .op (.load (.lock l .now)) fun now => .tryCas now
  | .tryCas now =>
    -- the trylock of `ticket_tm` returns 0 either way
    .op (.cas (.lock l .all) (packTicket now now) (packTicket (wrap32 (now + 1)) now)) fun v =>
      .ending (if v ≠ 0 ∨ tm = true then 0 else 1)
  | .unlockRead => .op (.load (.lock l .now)) fun now => .unlockWrite now
  | .unlockWrite now => .op (.store (.lock l .now) (wrap32 (now + 1))) fun _ => .ending 0
  | .ending x => .ret x

/-- The places of a call. -/
def TicketPlace.fits (tm : Bool) : TlCall → TicketPlace → Bool
  | .lock, .takeTicket | .lock, .spin .. | .lock, .dist .. => true
  | .lock, .enterHtm .. | .lock, .check _ | .lock, .aborting => tm
  | .trylock, .tryRead | .trylock, .tryCas _ | .unlock, .unlockRead | .unlock, .unlockWrite _
  | _, .ending _ => true
  | _, .spec => tm
  | _, _ => false

/-- The functions of `ticket` or (`tm`) `ticket_tm`. -/
def ticketGraph (cfg : TmParams) (tm : Bool) : LockGraph TicketPlace where
  node := TicketPlace.node cfg tm
  start
    | _, true => .spec
    | .lock, false => .takeTicket
    | .trylock, false => .tryRead
    | .unlock, false => .unlockRead
  inTx
    | .check _ | .aborting | .spec => true
    | _ => false
  fits := TicketPlace.fits tm

section Lawful

variable {cfg : TxConfig} {tm : Bool} {l : Addr} {w x : Int}

/-- Where nothing is left to do on the lock outside a transaction. -/
theorem ticketGraph_ends_ending : (ticketGraph cfg.toTmParams tm).Ends l x 0 (.ending x) :=
  ⟨rfl, by simp [ticketGraph]⟩

theorem ticketGraph_ends_spec (hw : w ≠ 0) : (ticketGraph cfg.toTmParams tm).Ends l 0 w .spec :=
  ⟨rfl, by simp [ticketGraph, hw]⟩

/-- The loop of `ticket_lock` ends when the ticket is served. -/
theorem ticketLockLoop_walks {Q : Unit → Int → TicketPlace → Prop} {v : Int}
    (hgot : Q () 0 (.ending 0)) :
    (ticketLockLoop cfg l v).Walks (TicketPlace.node cfg.toTmParams false l) ownOp Q 0
      (.spin v 0) := by
  unfold ticketLockLoop
  refine walks_loop (I := fun _ w pl => w = 0 ∧ pl = .spin v 0) ?_ _ ⟨rfl, rfl⟩
  rintro - w pl ⟨rfl, rfl⟩
  simp only [bind_eq, walks_bind]
  refine walks_perform rfl rfl fun now => ?_
  by_cases hv : v = now
  · simp only [if_pos hv]
    exact hgot
  · simp only [if_neg hv, walks_bind]
    refine walks_perform rfl rfl fun now' => ?_
    have hplain : ¬ ticketSpeculates cfg.toTmParams false (BitVec.ofInt 32 (v - now')) 0 := by
      simp [ticketSpeculates]
    simp only [if_neg hplain]
    exact ⟨rfl, rfl⟩

theorem ticketLock_goes :
    (ticketGraph cfg.toTmParams false).Goes (ticketLock cfg l) l 0 .takeTicket := by
  unfold ticketLock LockGraph.Goes
  simp only [bind_eq, walks_bind, walks_tmStatsAdd, walks_tmStatsSubRdtsc, pure_eq, walks_ret]
  refine walks_perform rfl rfl fun v => ?_
  exact ticketLockLoop_walks ticketGraph_ends_ending

/-- `ticket_trylock` takes the lock with the swap, or not. -/
theorem ticketTrylock_walks {Q : Int → Int → TicketPlace → Prop}
    (hQ : ∀ v : Int, Q (if v ≠ 0 then 0 else 1) w (.ending (if v ≠ 0 ∨ tm = true then 0 else 1))) :
    (ticketTrylock l).Walks (TicketPlace.node cfg.toTmParams tm l) ownOp Q w .tryRead := by
  unfold ticketTrylock
  simp only [bind_eq, walks_bind]
  refine walks_perform rfl rfl fun now => walks_perform rfl rfl fun v => ?_
  have hv := hQ v
  by_cases h : v ≠ 0
  · rw [if_pos h] at hv
    simp only [if_pos h, walks_bind, walks_tmStatsAdd, walks_tmStatsSubRdtsc, pure_eq, walks_ret]
    exact hv
  · rw [if_neg h] at hv
    simp only [if_neg h, pure_eq, walks_ret]
    exact hv

theorem ticketTrylock_goes :
    (ticketGraph cfg.toTmParams false).Goes (ticketTrylock l) l 0 .tryRead := by
  refine ticketTrylock_walks fun v => ?_
  simp only [Bool.false_eq_true, or_false]
  exact ticketGraph_ends_ending

/-- `l->now++` -/
theorem ticketUnlock_goes :
    (ticketGraph cfg.toTmParams false).Goes (ticketUnlock l) l 0 .unlockRead := by
  unfold ticketUnlock LockGraph.Goes store
  simp only [bind_eq, walks_bind, walks_tmStatsAddRdtsc, pure_eq, walks_ret]
  refine walks_perform rfl rfl fun now => walks_emit rfl rfl fun _ => ?_
  exact ticketGraph_ends_ending

/-- The loop that speculates. -/
theorem ticketLockTmLoop_walks {Q : Bool → Int → TicketPlace → Prop} {v : Int}
    (hgot : Q false 0 (.ending 0)) (hspec : Q true l .spec) :
    (ticketLockTmLoop cfg l v).Walks (TicketPlace.node cfg.toTmParams true l) ownOp Q 0
      (.spin v 0) := by
  unfold ticketLockTmLoop
  refine walks_loop (I := fun tries w pl => w = 0 ∧ pl = .spin v tries) ?_ _ ⟨rfl, rfl⟩
  rintro tries w pl ⟨rfl, rfl⟩
  simp only [bind_eq, walks_bind]
  refine walks_perform rfl rfl fun now => ?_
  by_cases hv : v = now
  · simp only [if_pos hv]
    exact hgot
  · simp only [if_neg hv, walks_bind]
    refine walks_perform rfl rfl fun now' => ?_
    by_cases hdist : ticketSpeculates cfg.toTmParams true (BitVec.ofInt 32 (v - now')) tries
    · simp only [if_pos hdist, if_pos hdist.2, walks_bind]
      refine walks_enterHtm rfl ?_ fun status hstatus => ?_
      · simp only [if_true, walks_bind]
        refine walks_perform rfl rfl fun cur => ?_
        by_cases hcur : cur = v
        · -- the code goes on only if the abort does nothing
          simp only [if_pos hcur, walks_bind]
          refine walks_emit rfl rfl fun _ => ?_
          exact hspec
        · simp only [if_neg hcur]
          exact hspec
      · simp only [Int.one_ne_zero, if_false, if_neg hstatus]
        exact ⟨rfl, rfl⟩
    · have hdist' : ¬ (BitVec.ofInt 32 (v - now') ≤ cfg.maxDistance ∧
          BitVec.ofInt 32 (v - now') ≥ cfg.minDistance ∧ tries < cfg.numTries) :=
        fun h => hdist ⟨rfl, h⟩
      simp only [if_neg hdist, if_neg hdist']
      exact ⟨rfl, rfl⟩

theorem ticketLockTm_goes (hl : l ≠ 0) :
    (ticketGraph cfg.toTmParams true).Goes (ticketLockTm cfg l) l 0 .takeTicket := by
  unfold ticketLockTm LockGraph.Goes
  simp only [bind_eq, walks_bind, walks_specEntry, ne_eq, not_true_eq_false, if_false,
    walks_tmStatsAdd]
  refine walks_perform rfl rfl fun v => ?_
  apply ticketLockTmLoop_walks
  · simp only [Bool.false_eq_true, if_false, walks_bind, walks_tmStatsSubRdtsc, pure_eq, walks_ret]
    exact ticketGraph_ends_ending
  · exact ticketGraph_ends_spec hl

/-- What the trylock returns is dropped. -/
theorem ticketTrylockTm_goes :
    (ticketGraph cfg.toTmParams true).Goes (ticketTrylockTm l) l 0 .tryRead := by
  unfold ticketTrylockTm LockGraph.Goes
  simp only [bind_eq, walks_bind, walks_specEntry, ne_eq, not_true_eq_false, if_false]
  refine ticketTrylock_walks fun v => ?_
  simp only [or_true, if_true]
  exact ticketGraph_ends_ending

theorem ticketUnlockTm_goes :
    (ticketGraph cfg.toTmParams true).Goes (ticketUnlockTm l) l 0 .unlockRead := by
  unfold ticketUnlockTm LockGraph.Goes store
  simp only [bind_eq, walks_bind, walks_specEntry, ne_eq, not_true_eq_false, if_false,
    walks_tmStatsAddRdtsc, pure_eq, walks_ret]
  refine walks_perform rfl rfl fun now => walks_emit rfl rfl fun _ => ?_
  exact ticketGraph_ends_ending

/-- In a transaction the functions of `ticket_tm` do nothing and return 0. -/
theorem ticketTm_goes_spec (hw : w ≠ 0) (c : TlCall) :
    (ticketGraph cfg.toTmParams true).Goes (c.prog cfg .ticketTm l) l w .spec := by
  unfold LockGraph.Goes
  cases c with
  | lock =>
    simp only [TlCall.prog, tlLock, lockTypes, ticketLockTm, bind_eq, walks_bind,
      walks_specEntry, if_pos hw, pure_eq, walks_ret]
    exact ticketGraph_ends_spec hw
  | trylock =>
    simp only [TlCall.prog, tlTrylock, lockTypes, ticketTrylockTm, bind_eq, walks_bind,
      walks_specEntry, if_pos hw, pure_eq, walks_ret]
    exact ticketGraph_ends_spec hw
  | unlock =>
    simp only [TlCall.prog, tlUnlock, lockTypes, ticketUnlockTm, bind_eq, walks_bind,
      walks_specEntry, if_pos hw, pure_eq, walks_ret]
    exact ticketGraph_ends_spec hw

/-- `ticket` or (`tm`) `ticket_tm`. -/
def ticketType (tm : Bool) : LockType := if tm then .ticketTm else .ticket

theorem ticketGraph_lawful (cfg : TxConfig) (tm : Bool) :
    (ticketGraph cfg.toTmParams tm).Lawful cfg (ticketType tm) tm where
  goes c l hl := by
    cases tm with
    | false =>
      cases c with
      | lock => exact ticketLock_goes
      | trylock => exact ticketTrylock_goes
      | unlock => exact ticketUnlock_goes
    | true =>
      cases c with
      | lock => exact ticketLockTm_goes hl
      | trylock => exact ticketTrylockTm_goes
      | unlock => exact ticketUnlockTm_goes
  goes_tx htm c l w _ hw := by
    subst htm
    exact ticketTm_goes_spec hw c
  start_inTx c b := by
    cases c <;> cases b <;> rfl
  start_fits c b hb := by
    cases c <;> cases b <;> cases tm <;> first | rfl | cases hb rfl
  node_tx c l pl o next hfits hin hnode := by
    cases pl with
    | check v =>
      cases hnode
      refine .inl ⟨trivial, fun now => ?_⟩
      dsimp only
      split <;> cases c <;> first | exact ⟨rfl, hfits⟩ | cases hfits
    | aborting =>
      cases hnode
      exact .inr ⟨1, rfl⟩
    | spec => cases hnode
    | _ => cases hin
  node_out c l pl o next hfits hin hnode := by
    cases pl with
    -- each of these places belongs to one call, and goes on to one place
    | takeTicket | tryRead | tryCas now | unlockRead | unlockWrite now =>
      cases hnode
      refine .inl ⟨by simp [ReadsLock, ChangesLock], fun v => ⟨rfl, ?_⟩⟩
      cases c <;> first | rfl | cases hfits
    | spin v n =>
      cases hnode
      refine .inl ⟨.inl trivial, fun now => ?_⟩
      dsimp only
      split <;> cases c <;> first | exact ⟨rfl, rfl⟩ | cases hfits
    -- only `ticket_tm` goes from here to a transaction
    | dist v n =>
      cases hnode
      refine .inl ⟨.inl trivial, fun now => ?_⟩
      cases c with
      | lock =>
        dsimp only
        split
        · rename_i hdist
          exact ⟨rfl, hdist.1⟩
        · exact ⟨rfl, rfl⟩
      | trylock | unlock => cases hfits
    | enterHtm v n =>
      cases hnode
      cases c with
      | lock =>
        refine .inr ⟨rfl, hfits, fun status => ?_⟩
        dsimp only
        by_cases hstatus : status = xbeginStarted
        · rw [if_pos hstatus, decide_eq_true hstatus]
          exact ⟨rfl, hfits⟩
        · rw [if_neg hstatus, decide_eq_false hstatus]
          exact ⟨rfl, rfl⟩
      | trylock | unlock => cases hfits
    | ending x => cases hnode
    | check v | aborting | spec => cases hin

end Lawful

/-! ## What the places stand for -/

/-- The place in `ticket` of a call outside transactions. -/
def TicketPlace.pc : TicketPlace → TicketPc
  | .spin _ n => .spin n
  | .dist _ n => .dist n
  | .enterHtm _ n => .enterHtm n
  | .tryRead => .tryRead
  | .tryCas now => .tryCas (BitVec.ofInt 32 now)
  | .unlockRead => .unlockRead
  | .unlockWrite now => .unlockWrite (BitVec.ofInt 32 now)
  | .takeTicket | .check _ | .aborting | .spec | .ending _ => .out

/-- The ticket of a thread that waits. -/
def TicketPlace.ticket : TicketPlace → Option Int
  | .spin v _ | .dist v _ | .enterHtm v _ | .check v => some v
  | .takeTicket | .aborting | .spec | .tryRead | .tryCas _ | .unlockRead | .unlockWrite _
  | .ending _ => none

/-- What the code has read of the counters. -/
def TicketPlace.value : TicketPlace → Option Int
  | .spin v _ | .dist v _ | .enterHtm v _ | .check v | .tryCas v | .unlockWrite v => some v
  | .takeTicket | .aborting | .spec | .tryRead | .unlockRead | .ending _ => none

/-- The tries at the begin of a transaction. -/
def TicketPlace.tries : TicketPlace → Word
  | .enterHtm _ n => n
  | _ => 0

/-- In a transaction, before it is known that the ticket is not served. -/
def TicketPlace.checks : TicketPlace → Bool
  | .check _ | .aborting => true
  | _ => false

section Thread

variable (L : Addr) (th : GraphThread TicketPlace)

/-- The place in `ticket` of a thread, for the lock `L`. Calls on other locks, and those in a
    transaction that waits for another lock, are outside its code. -/
def GraphThread.ticketPc : TicketPc :=
  match th.saved, th.code with
  | some sv, code =>
    if sv.lock = L then
      if code.any fun c => c.place.checks then .check sv.place.tries else .spec sv.place.tries
    else .out
  | none, some c => if c.lock = L then c.place.pc else .out
  | none, none => .out

/-- The thread is told that it has the lock, or is about to be. -/
def GraphThread.ticketTold : Prop :=
  match th.saved, th.code with
  | some sv, _ => L ∈ sv.locked
  | none, some ⟨c, l, .ending x⟩ => L ∈ c.after l x th.locked
  | none, _ => L ∈ th.locked

/-- The ticket of a thread for the lock `L`. -/
def GraphThread.ticketMine : Option Int :=
  match th.saved, th.code with
  | some sv, _ => if sv.lock = L then sv.place.ticket else none
  | none, some c => if c.lock = L then c.place.ticket else none
  | none, none => none

/-- What `ticket` has shown of the call a thread is in, when it is on the lock `L`. -/
def GraphThread.ticketDue : List (Addr × LockEvent) :=
  match th.saved, th.code with
  | none, some ⟨.lock, l, .ending x⟩ => if l = L then [(l, .answer x)] else []
  | none, some ⟨.trylock, l, .ending x⟩ => if l = L then [(l, .tryCall), (l, .answer x)] else []
  | none, some ⟨.trylock, l, _⟩ => if l = L then [(l, .tryCall)] else []
  | none, some ⟨.unlock, l, _⟩ => if l = L then [(l, .unlockCall)] else []
  | _, _ => []

/-- The values a thread works with are counters, and it takes a ticket of a lock only when it
    does not have the lock. -/
structure TicketCodeOk : Prop where
  value : ∀ c v, th.code = some c → c.place.value = some v → ∃ w : Word, v = w.toNat
  ticket : ∀ sv v, th.saved = some sv → sv.place.ticket = some v → ∃ w : Word, v = w.toNat
  check : ∀ c v, th.code = some c → c.place = .check v →
    ∃ sv, th.saved = some sv ∧ sv.lock = c.lock ∧ sv.place.ticket = some v
  aborting : ∀ c, th.code = some c → c.place = .aborting →
    ∃ sv, th.saved = some sv ∧ sv.lock = c.lock
  fresh : ∀ c, th.code = some c → c.place = .takeTicket → c.lock ∉ th.locked

/-- The fields of `ticket` for a thread. -/
structure TicketThreadRep (pc : TicketPc) (specEntry told : Bool) (myTicket : Word) : Prop where
  place : pc = th.ticketPc L
  flag : specEntry = TicketPc.inHtm pc
  record : told = true ↔ th.ticketTold L
  mine : ∀ v, th.ticketMine L = some v → v = myTicket.toNat

end Thread

/-- The state of `ticket` that the memory of the lock `L` and the threads stand for. -/
structure TicketCodeRep (L : Addr) (g : GraphState Tid TicketPlace) (A : TicketState Tid) :
    Prop where
  next : A.next = TicketPair.next (g.obj L).word
  now : A.now = TicketPair.now (g.obj L).word
  ok : ∀ t, TicketCodeOk (g.thread t)
  thread : ∀ t, TicketThreadRep L (g.thread t) (A.pc t) (A.specEntry t) (A.told t) (A.myTicket t)

/-! ## Steps -/

section Step

variable [DecidableEq Tid] {cfg : TmParams} {tm : Bool} {L : Addr}
  {g g' : GraphState Tid TicketPlace} {A A' : TicketState Tid} {t : Tid} {c : GraphCode TicketPlace}

/-- A step of thread `t` alone. -/
theorem TicketCodeRep.update (h : TicketCodeRep L g A) {th : GraphThread TicketPlace}
    (hth : g'.thread = Function.update g.thread t th)
    (hnext : A'.next = TicketPair.next (g'.obj L).word)
    (hnow : A'.now = TicketPair.now (g'.obj L).word)
    (hother : ∀ u, u ≠ t → A'.pc u = A.pc u ∧ A'.specEntry u = A.specEntry u ∧
      A'.told u = A.told u ∧ A'.myTicket u = A.myTicket u)
    (hok : TicketCodeOk th)
    (hrep : TicketThreadRep L th (A'.pc t) (A'.specEntry t) (A'.told t) (A'.myTicket t)) :
    TicketCodeRep L g' A' where
  next := hnext
  now := hnow
  ok u := by
    rw [hth]
    by_cases hu : u = t
    · rw [hu, Function.update_self]
      exact hok
    · rw [Function.update_of_ne hu]
      exact h.ok u
  thread u := by
    rw [hth]
    by_cases hu : u = t
    · rw [hu, Function.update_self]
      exact hrep
    · obtain ⟨hpc, hspec, htold, hmine⟩ := hother u hu
      rw [Function.update_of_ne hu, hpc, hspec, htold, hmine]
      exact h.thread u

/-- A step of thread `t` that does not concern the lock `L`. -/
theorem TicketCodeRep.stay (h : TicketCodeRep L g A) {k : GraphState Tid TicketPlace}
    {th : GraphThread TicketPlace}
    (hth : k.thread = Function.update g.thread t th) (hobj : k.obj L = g.obj L)
    (hok : TicketCodeOk th) (hpc : th.ticketPc L = (g.thread t).ticketPc L)
    (htold : th.ticketTold L ↔ (g.thread t).ticketTold L)
    (hmine : ∀ v, th.ticketMine L = some v → (g.thread t).ticketMine L = some v) :
    TicketCodeRep L k A := by
  have ht := h.thread t
  refine h.update hth (by rw [hobj]; exact h.next) (by rw [hobj]; exact h.now)
    (fun u _ => ⟨rfl, rfl, rfl, rfl⟩) hok ⟨?_, ht.flag, ?_, fun v hv => ht.mine v (hmine v hv)⟩
  · rw [hpc]
    exact ht.place
  · rw [htold]
    exact ht.record

/-- What a step of thread `t` that returns `es` is to `ticket`. -/
def TicketFollows (cfg : TmParams) (tm : Bool) (L : Addr) (g : GraphState Tid TicketPlace)
    (A : TicketState Tid) (t : Tid) (es : List (Addr × LockEvent))
    (g' : GraphState Tid TicketPlace) : Prop :=
  (TicketCodeRep L g' A ∧ es.filter (fun e => e.1 = L) ++ (g'.thread t).ticketDue L =
    (g.thread t).ticketDue L) ∨
  ∃ a A', TicketState.step cfg tm A a = some A' ∧ TicketCodeRep L g' A' ∧ TicketAct.tid a = t ∧
    (g.thread t).ticketDue L ++
        callsOf ((TicketState.events tm A a).map fun e => (L, e.2)) =
      es.filter (fun e => e.1 = L) ++ (g'.thread t).ticketDue L

omit [DecidableEq Tid] in
/-- The fields of a thread outside transactions that is not in a call. -/
theorem TicketCodeRep.of_app (h : TicketCodeRep L g A) (hcode : (g.thread t).code = none)
    (hsaved : (g.thread t).saved = none) :
    A.pc t = .out ∧ A.specEntry t = false ∧ (A.told t = true ↔ L ∈ (g.thread t).locked) := by
  have ht := h.thread t
  have hpc : A.pc t = .out := by
    rw [ht.place]
    simp only [GraphThread.ticketPc, hsaved, hcode]
  refine ⟨hpc, by rw [ht.flag, hpc]; rfl, ?_⟩
  rw [ht.record]
  simp only [GraphThread.ticketTold, hsaved, hcode]

/-- A call in a transaction. -/
theorem TicketCodeOk.call_spec {locked : Finset Addr} {code : Option (GraphCode TicketPlace)}
    {saved : Option (GraphSaved TicketPlace)} (h : TicketCodeOk ⟨code, locked, saved⟩) (c : TlCall)
    (l : Addr) (locked' : Finset Addr) :
    TicketCodeOk ⟨some ⟨c, l, .spec⟩, locked', saved⟩ where
  value c' v hc hv := by
    obtain rfl := Option.some.inj hc
    cases hv
  ticket := h.ticket
  check c' v hc hpl := by
    obtain rfl := Option.some.inj hc
    cases hpl
  aborting c' hc hpl := by
    obtain rfl := Option.some.inj hc
    cases hpl
  fresh c' hc hpl := by
    obtain rfl := Option.some.inj hc
    cases hpl

/-- A thread whose call has returned. -/
theorem TicketCodeOk.app {locked : Finset Addr} {code : Option (GraphCode TicketPlace)}
    {saved : Option (GraphSaved TicketPlace)} (h : TicketCodeOk ⟨code, locked, saved⟩)
    (locked' : Finset Addr) : TicketCodeOk ⟨none, locked', saved⟩ where
  value c v hc := by cases hc
  ticket := h.ticket
  check c v hc := by cases hc
  aborting c hc := by cases hc
  fresh c hc := by cases hc

/-- A thread outside transactions, at a place outside them. -/
theorem TicketCodeOk.out {c : TlCall} {l : Addr} {pl : TicketPlace} {locked : Finset Addr}
    (hvalue : ∀ v, pl.value = some v → ∃ w : Word, v = w.toNat) (hchecks : pl.checks = false)
    (hfresh : pl = .takeTicket → l ∉ locked) :
    TicketCodeOk ⟨some ⟨c, l, pl⟩, locked, none⟩ where
  value c' v hc hv := by
    obtain rfl := Option.some.inj hc
    exact hvalue v hv
  ticket := by simp
  check c' v hc hpl := by
    obtain rfl := Option.some.inj hc
    subst hpl
    cases hchecks
  aborting c' hc hpl := by
    obtain rfl := Option.some.inj hc
    subst hpl
    cases hchecks
  fresh c' hc hpl := by
    obtain rfl := Option.some.inj hc
    exact hfresh hpl

theorem ticket_step_call (h : TicketCodeRep L g A) {c : TlCall} {l : Addr}
    (hcode : (g.thread t).code = none) (hlocked : c = .unlock → l ∈ (g.thread t).locked)
    (hfresh : c = .lock → (g.thread t).saved = none → l ∉ (g.thread t).locked) :
    TicketFollows cfg tm L g A t [] (g.setThread t { g.thread t with
      code := some ⟨c, l, (ticketGraph cfg tm).start c (g.thread t).saved.isSome⟩
      locked := c.before l (g.thread t).locked }) := by
  have hok := h.ok t
  have happ := h.of_app hcode
  have hstay := h.stay (t := t) (k := g.setThread t { g.thread t with
      code := some ⟨c, l, (ticketGraph cfg tm).start c (g.thread t).saved.isSome⟩
      locked := c.before l (g.thread t).locked }) rfl rfl
  unfold TicketFollows
  rw [GraphState.setThread_thread]
  have hth : g.thread t = ⟨none, (g.thread t).locked, (g.thread t).saved⟩ := by rw [← hcode]
  generalize (g.thread t).locked = locked at *
  generalize hsaved : (g.thread t).saved = saved at *
  rw [hth] at hok hstay ⊢
  cases saved with
  | some sv =>
    exact .inl ⟨hstay (hok.call_spec c l _) rfl Iff.rfl fun v hv => hv, rfl⟩
  | none =>
    obtain ⟨hpc, hspec, htold⟩ := happ rfl
    by_cases hl : l = L
    · subst hl
      cases c with
      | lock =>
        refine .inl ⟨hstay (.out (by simp [ticketGraph, TicketPlace.value]) rfl fun _ =>
          hfresh rfl rfl) ?_ Iff.rfl ?_, rfl⟩
        · simp [GraphThread.ticketPc, ticketGraph, TicketPlace.pc]
        · simp [GraphThread.ticketMine, ticketGraph, TicketPlace.ticket]
      | trylock =>
        refine .inr ⟨.trylock t, A.goto t .tryRead, ?_, ?_, rfl, ?_⟩
        · simp [TicketState.step, hpc, hspec]
        · refine h.update rfl h.next h.now ?_ (.out (by simp [ticketGraph, TicketPlace.value]) rfl
            (by simp [ticketGraph])) ⟨?_, ?_, ?_, ?_⟩
          · intro u hu
            simp [TicketState.goto, hu]
          · simp [TicketState.goto, GraphThread.ticketPc, ticketGraph, TicketPlace.pc]
          · simp [TicketState.goto, TicketPc.inHtm, hspec]
          · simp [TicketState.goto, GraphThread.ticketTold, ticketGraph, TlCall.before, htold]
          · simp [GraphThread.ticketMine, ticketGraph, TicketPlace.ticket]
        · simp [TicketState.events, hpc, hspec, callsOf, GraphThread.ticketDue, ticketGraph]
      | unlock =>
        have htold' : A.told t = true := htold.mpr (hlocked rfl)
        refine .inr ⟨.unlock t, (A.goto t .unlockRead).tell t false, ?_, ?_, rfl, ?_⟩
        · simp [TicketState.step, hpc, hspec, htold']
        · refine h.update rfl h.next h.now ?_ (.out (by simp [ticketGraph, TicketPlace.value]) rfl
            (by simp [ticketGraph])) ⟨?_, ?_, ?_, ?_⟩
          · intro u hu
            simp [TicketState.goto, TicketState.tell, hu]
          · simp [TicketState.goto, TicketState.tell, GraphThread.ticketPc, ticketGraph,
              TicketPlace.pc]
          · simp [TicketState.goto, TicketState.tell, TicketPc.inHtm, hspec]
          · simp [TicketState.tell, GraphThread.ticketTold, ticketGraph, TlCall.before]
          · simp [GraphThread.ticketMine, ticketGraph, TicketPlace.ticket]
        · simp [TicketState.events, hpc, hspec, callsOf, GraphThread.ticketDue]
    · -- a call on another lock
      refine .inl ⟨hstay ?_ ?_ ?_ ?_, ?_⟩
      · refine .out ?_ ?_ ?_
        · cases c <;> simp [ticketGraph, TicketPlace.value]
        · cases c <;> rfl
        · cases c <;> simp [ticketGraph, TlCall.before, hfresh]
      · simp [GraphThread.ticketPc, hl]
      · cases c <;> simp [GraphThread.ticketTold, ticketGraph, TlCall.before, Ne.symm hl]
      · simp [GraphThread.ticketMine, hl]
      · cases c <;> simp [GraphThread.ticketDue, ticketGraph, hl]

theorem ticket_step_ret (hg : GraphOk (ticketGraph cfg tm) tm g) (h : TicketCodeRep L g A) {x : Int}
    (hcode : (g.thread t).code = some c)
    (hnode : (ticketGraph cfg tm).node c.lock c.place = .ret x) :
    TicketFollows cfg tm L g A t
      (if (g.thread t).saved = none then TlCall.events c.call c.lock x else [])
      (g.setThread t { g.thread t with
        code := none, locked := c.call.after c.lock x (g.thread t).locked }) := by
  have hin := hg.inTx hcode
  have hok := h.ok t
  have hstay := h.stay (t := t) (k := g.setThread t { g.thread t with
        code := none, locked := c.call.after c.lock x (g.thread t).locked }) rfl rfl
  unfold TicketFollows
  rw [GraphState.setThread_thread]
  have hth : g.thread t = ⟨some c, (g.thread t).locked, (g.thread t).saved⟩ := by rw [← hcode]
  generalize (g.thread t).locked = locked at *
  generalize (g.thread t).saved = saved at *
  rw [hth] at hok hstay ⊢
  have hok' : ∀ locked', TicketCodeOk ⟨none, locked', saved⟩ := hok.app
  obtain ⟨call, l, pl⟩ := c
  cases pl with
  | ending y =>
    cases hnode
    -- the call ends outside a transaction, and tells its caller
    obtain rfl : saved = none := by simpa [ticketGraph] using hin
    refine .inl ⟨hstay (hok' _) ?_ Iff.rfl (by simp [GraphThread.ticketMine]), ?_⟩
    · simp [GraphThread.ticketPc, TicketPlace.pc]
    · by_cases hl : l = L
      · cases call <;> simp [GraphThread.ticketDue, TlCall.events, hl]
      · cases call <;> simp [GraphThread.ticketDue, TlCall.events, hl]
  | spec =>
    cases hnode
    cases saved with
    | none => cases hin
    | some sv => exact .inl ⟨hstay (hok' _) rfl Iff.rfl fun v hv => hv, rfl⟩
  | _ => cases hnode

/-- The abort of a transaction. -/
theorem ticket_step_abort (hg : GraphOk (ticketGraph cfg tm) tm g) (h : TicketCodeRep L g A)
    {sv : GraphSaved TicketPlace} {next : Int → TicketPlace} {status : Int}
    (hsaved : (g.thread t).saved = some sv)
    (hnode : (ticketGraph cfg tm).node sv.lock sv.place = .op .xbegin next)
    (hstatus : status ≠ xbeginStarted) :
    TicketFollows cfg tm L g A t [] (g.setThread t {
      code := some { sv.toGraphCode with place := next status }
      locked := sv.locked }) := by
  have hfits := (hg.saved hsaved).2.1
  have hok := h.ok t
  have ht := h.thread t
  obtain ⟨⟨call, l, pl⟩, svLocked⟩ := sv
  cases pl with
  | enterHtm v n =>
    cases hnode
    cases call with
    | lock =>
      obtain ⟨w, hw⟩ := hok.ticket _ v hsaved rfl
      have hok' : TicketCodeOk ⟨some ⟨.lock, l, .spin v (n + 1)⟩, svLocked, none⟩ :=
        .out (fun v' hv' => ⟨w, by cases hv'; exact hw⟩) rfl (by simp)
      simp only [if_neg hstatus]
      unfold TicketFollows
      rw [GraphState.setThread_thread]
      by_cases hl : l = L
      · subst hl
        have hpc : A.pc t = .check n ∨ A.pc t = .spec n := by
          rw [ht.place]
          simp only [GraphThread.ticketPc, hsaved, if_true, TicketPlace.tries]
          split
          · exact .inl rfl
          · exact .inr rfl
        have hmine := ht.mine v (by simp [GraphThread.ticketMine, hsaved, TicketPlace.ticket])
        have htold : A.told t = true ↔ l ∈ svLocked := by
          rw [ht.record]
          simp only [GraphThread.ticketTold, hsaved]
        refine .inr ⟨.htmAbort t, (A.goto t (.spin (n + 1))).setSpec t false, ?_, ?_, rfl, ?_⟩
        · rcases hpc with hpc | hpc <;> simp [TicketState.step, hpc]
        · refine h.update rfl h.next h.now ?_ hok' ⟨?_, ?_, ?_, ?_⟩
          · intro u hu
            simp [TicketState.goto, TicketState.setSpec, hu]
          · simp [TicketState.goto, TicketState.setSpec, GraphThread.ticketPc, TicketPlace.pc]
          · simp [TicketState.goto, TicketState.setSpec, TicketPc.inHtm]
          · simp [TicketState.goto, TicketState.setSpec, GraphThread.ticketTold, htold]
          · simpa [TicketState.goto, TicketState.setSpec, GraphThread.ticketMine,
              TicketPlace.ticket] using hmine
        · simp [TicketState.events, callsOf, GraphThread.ticketDue, hsaved]
      · -- the transaction waits for another lock
        refine .inl ⟨h.stay rfl rfl hok' ?_ ?_ ?_, ?_⟩
        · simp [GraphThread.ticketPc, hsaved, hl]
        · simp [GraphThread.ticketTold, hsaved]
        · simp [GraphThread.ticketMine, hl]
        · simp [GraphThread.ticketDue, hsaved]
    | trylock | unlock => cases hfits
  | _ => cases hnode

omit [DecidableEq Tid] in
/-- What a call on another lock returns does not matter. -/
theorem ticketTold_elsewhere {call : TlCall} {l : Addr} {pl : TicketPlace} {locked : Finset Addr}
    (hl : l ≠ L) : GraphThread.ticketTold L ⟨some ⟨call, l, pl⟩, locked, none⟩ ↔ L ∈ locked := by
  cases pl with
  | ending x =>
    simp only [GraphThread.ticketTold, TlCall.after]
    split
    · simp [Ne.symm hl]
    · exact Iff.rfl
  | _ => exact Iff.rfl

omit [DecidableEq Tid] in
theorem ticketTold_here {call : TlCall} {pl : TicketPlace} {locked : Finset Addr}
    (hpl : ∀ x, pl ≠ .ending x) :
    GraphThread.ticketTold L ⟨some ⟨call, L, pl⟩, locked, none⟩ ↔ L ∈ locked := by
  cases pl with
  | ending x => exact (hpl x rfl).elim
  | _ => exact Iff.rfl

/-- Outside transactions a call on another lock goes on. -/
theorem TicketCodeRep.elsewhere (h : TicketCodeRep L g A) {call : TlCall} {l : Addr}
    {pl pl' : TicketPlace} {locked : Finset Addr} (hl : l ≠ L)
    (hth : g.thread t = ⟨some ⟨call, l, pl⟩, locked, none⟩)
    (hth' : g'.thread = Function.update g.thread t ⟨some ⟨call, l, pl'⟩, locked, none⟩)
    (hobj : g'.obj L = g.obj L)
    (hvalue : ∀ v, pl'.value = some v → ∃ w : Word, v = w.toNat) (hchecks : pl'.checks = false)
    (htake : pl' ≠ .takeTicket) : TicketFollows cfg tm L g A t [] g' := by
  refine .inl ⟨h.stay hth' hobj (.out hvalue hchecks fun hpl => (htake hpl).elim) ?_ ?_ ?_, ?_⟩
  · rw [hth]
    simp [GraphThread.ticketPc, hl]
  · rw [hth, ticketTold_elsewhere hl, ticketTold_elsewhere hl]
  · simp [GraphThread.ticketMine, hl]
  · rw [hth', hth, Function.update_self]
    cases call <;> cases pl <;> cases pl' <;> simp [GraphThread.ticketDue, hl]

/-- Outside transactions a call on the lock goes on, with a step of `ticket`. -/
theorem TicketCodeRep.goOn (h : TicketCodeRep L g A) {call : TlCall} {pl' : TicketPlace}
    {locked : Finset Addr}
    (hth' : g'.thread = Function.update g.thread t ⟨some ⟨call, L, pl'⟩, locked, none⟩)
    (hnext : A'.next = TicketPair.next (g'.obj L).word)
    (hnow : A'.now = TicketPair.now (g'.obj L).word)
    (hother : ∀ u, u ≠ t → A'.pc u = A.pc u ∧ A'.specEntry u = A.specEntry u ∧
      A'.told u = A.told u ∧ A'.myTicket u = A.myTicket u)
    (hpc : A'.pc t = pl'.pc) (hspec : A'.specEntry t = TicketPc.inHtm pl'.pc)
    (htold : A'.told t = true ↔ GraphThread.ticketTold L ⟨some ⟨call, L, pl'⟩, locked, none⟩)
    (hmine : ∀ v, pl'.ticket = some v → v = (A'.myTicket t).toNat)
    (hvalue : ∀ v, pl'.value = some v → ∃ w : Word, v = w.toNat) (hchecks : pl'.checks = false)
    (htake : pl' ≠ .takeTicket) : TicketCodeRep L g' A' := by
  refine h.update hth' hnext hnow hother (.out hvalue hchecks fun hpl => (htake hpl).elim)
    ⟨?_, ?_, htold, ?_⟩
  · rw [hpc]
    simp [GraphThread.ticketPc]
  · rw [hspec, hpc]
  · intro v hv
    exact hmine v (by simpa [GraphThread.ticketMine] using hv)

omit [DecidableEq Tid] in
/-- The fields of a thread that is in a call on the lock outside transactions. -/
theorem TicketCodeRep.of_here (h : TicketCodeRep L g A) {call : TlCall} {pl : TicketPlace}
    {locked : Finset Addr} (hth : g.thread t = ⟨some ⟨call, L, pl⟩, locked, none⟩) :
    A.pc t = pl.pc ∧ A.specEntry t = TicketPc.inHtm pl.pc ∧
      (A.told t = true ↔ GraphThread.ticketTold L ⟨some ⟨call, L, pl⟩, locked, none⟩) ∧
      ∀ v, pl.ticket = some v → v = (A.myTicket t).toNat := by
  have ht := h.thread t
  rw [hth] at ht
  have hpc : A.pc t = pl.pc := by
    rw [ht.place]
    simp [GraphThread.ticketPc]
  refine ⟨hpc, by rw [ht.flag, hpc], ht.record, fun v hv => ht.mine v ?_⟩
  simpa [GraphThread.ticketMine] using hv

theorem ticket_step_fail (hg : GraphOk (ticketGraph cfg tm) tm g) (h : TicketCodeRep L g A)
    {next : Int → TicketPlace} {status : Int} (hcode : (g.thread t).code = some c)
    (hnode : (ticketGraph cfg tm).node c.lock c.place = .op .xbegin next)
    (hsaved : (g.thread t).saved = none) (hstatus : status ≠ xbeginStarted) :
    TicketFollows cfg tm L g A t [] (g.goto t c (next status)) := by
  have hfits := hg.fits hcode
  have hok := h.ok t
  obtain ⟨call, l, pl⟩ := c
  have hth : g.thread t = ⟨some ⟨call, l, pl⟩, (g.thread t).locked, none⟩ := by
    rw [← hcode, ← hsaved]
  unfold GraphState.goto
  dsimp only
  cases pl with
  | enterHtm v n =>
    cases hnode
    cases call with
    | lock =>
      obtain ⟨w, hw⟩ := hok.value _ v hcode rfl
      have hvalue : ∀ v', (TicketPlace.spin v (n + 1)).value = some v' → ∃ w : Word, v' = w.toNat :=
        fun v' hv' => ⟨w, by cases hv'; exact hw⟩
      simp only [if_neg hstatus, hsaved]
      by_cases hl : l = L
      · subst hl
        obtain ⟨hpc, -, htold, hmine⟩ := h.of_here hth
        -- a transaction that did not start costs a try, and the ticket stays
        refine .inr ⟨.htmAbort t, (A.goto t (.spin (n + 1))).setSpec t false, ?_, ?_, rfl, ?_⟩
        · simp [TicketState.step, hpc, TicketPlace.pc]
        · refine h.goOn rfl h.next h.now ?_ ?_ ?_ ?_ ?_ hvalue rfl (by simp)
          · intro u hu
            simp [TicketState.goto, TicketState.setSpec, hu]
          · simp [TicketState.goto, TicketState.setSpec, TicketPlace.pc]
          · simp [TicketState.setSpec, TicketPlace.pc, TicketPc.inHtm]
          · exact htold
          · exact hmine
        · rw [GraphState.setThread_thread, hth]
          simp [TicketState.events, callsOf, GraphThread.ticketDue]
      · exact h.elsewhere hl hth rfl rfl hvalue rfl (by simp)
    | trylock | unlock => cases hfits
  | _ => cases hnode

theorem ticket_step_begin (hg : GraphOk (ticketGraph cfg tm) tm g) (h : TicketCodeRep L g A)
    {next : Int → TicketPlace} (hcode : (g.thread t).code = some c)
    (hnode : (ticketGraph cfg tm).node c.lock c.place = .op .xbegin next)
    (hsaved : (g.thread t).saved = none) :
    TicketFollows cfg tm L g A t [] (g.setThread t { g.thread t with
      code := some { c with place := next xbeginStarted }
      saved := some ⟨c, (g.thread t).locked⟩ }) := by
  have hfits := hg.fits hcode
  have hok := h.ok t
  obtain ⟨call, l, pl⟩ := c
  have hth : g.thread t = ⟨some ⟨call, l, pl⟩, (g.thread t).locked, none⟩ := by
    rw [← hcode, ← hsaved]
  cases pl with
  | enterHtm v n =>
    cases hnode
    cases call with
    | lock =>
      obtain ⟨w, hw⟩ := hok.value _ v hcode rfl
      simp only [if_true]
      -- the ticket is known in the transaction, and in what an abort restores
      have hok' : TicketCodeOk ⟨some ⟨.lock, l, .check v⟩, (g.thread t).locked,
          some ⟨⟨.lock, l, .enterHtm v n⟩, (g.thread t).locked⟩⟩ := by
        refine ⟨fun c v' hc hv' => ⟨w, ?_⟩, fun sv v' hsv hv' => ⟨w, ?_⟩, fun c v' hc hpl => ?_,
          fun c hc hpl => ?_, fun c hc hpl => ?_⟩
        · cases hc
          cases hv'
          exact hw
        · cases hsv
          cases hv'
          exact hw
        · cases hc
          cases hpl
          exact ⟨_, rfl, rfl, rfl⟩
        · cases hc
          cases hpl
        · cases hc
          cases hpl
      by_cases hl : l = L
      · subst hl
        obtain ⟨hpc, hspec, htold, hmine⟩ := h.of_here hth
        refine .inr ⟨.htmStart t, A.goto t (.check n), ?_, ?_, rfl, ?_⟩
        · simp [TicketState.step, hpc, TicketPlace.pc]
        · refine h.update rfl h.next h.now ?_ hok' ⟨?_, ?_, ?_, ?_⟩
          · intro u hu
            simp [TicketState.goto, hu]
          · simp [TicketState.goto, GraphThread.ticketPc, TicketPlace.checks, TicketPlace.tries]
          · simp [TicketState.goto, TicketPc.inHtm, hspec, TicketPlace.pc]
          · exact htold
          · intro v' hv'
            exact hmine v' (by simpa [GraphThread.ticketMine] using hv')
        · rw [GraphState.setThread_thread, hth]
          simp [TicketState.events, callsOf, GraphThread.ticketDue]
      · -- a transaction at another lock: this one sees nothing
        refine .inl ⟨h.stay rfl rfl hok' ?_ ?_ ?_, ?_⟩
        · rw [hth]
          simp [GraphThread.ticketPc, hl]
        · rw [hth, ticketTold_elsewhere hl]
          exact Iff.rfl
        · simp [GraphThread.ticketMine, hl]
        · rw [GraphState.setThread_thread, hth]
          simp [GraphThread.ticketDue]
    | trylock | unlock => cases hfits
  | _ => cases hnode

/-- Outside transactions a call on the lock reads `now`. -/
theorem TicketCodeRep.load_here (h : TicketCodeRep L g A) {B : TicketState Tid} {call : TlCall}
    {pl pl' : TicketPlace} {locked : Finset Addr} (hth : g.thread t = ⟨some ⟨call, L, pl⟩, locked, none⟩)
    (hth' : g'.thread = Function.update g.thread t ⟨some ⟨call, L, pl'⟩, locked, none⟩)
    (hobj : g'.obj = g.obj) (hs : A.runStep cfg tm t = some B) (hnext : B.next = A.next)
    (hnow : B.now = A.now)
    (hother : ∀ u, u ≠ t → B.pc u = A.pc u ∧ B.specEntry u = A.specEntry u ∧
      B.told u = A.told u ∧ B.myTicket u = A.myTicket u)
    (hpc : B.pc t = pl'.pc) (hspec : B.specEntry t = TicketPc.inHtm pl'.pc)
    (htold : B.told t = true ↔ GraphThread.ticketTold L ⟨some ⟨call, L, pl'⟩, locked, none⟩)
    (hmine : ∀ v, pl'.ticket = some v → v = (B.myTicket t).toNat)
    (hvalue : ∀ v, pl'.value = some v → ∃ w : Word, v = w.toNat) (hchecks : pl'.checks = false)
    (htake : pl' ≠ .takeTicket)
    (hdue : GraphThread.ticketDue L ⟨some ⟨call, L, pl⟩, locked, none⟩ ++
        callsOf ((TicketState.events tm A (.run t)).map fun e => (L, e.2)) =
      GraphThread.ticketDue L ⟨some ⟨call, L, pl'⟩, locked, none⟩) :
    TicketFollows cfg tm L g A t [] g' := by
  refine .inr ⟨.run t, B, hs, ?_, rfl, ?_⟩
  · refine h.goOn hth' ?_ ?_ hother hpc hspec htold hmine hvalue hchecks htake
    · rw [hnext, hobj, h.next]
    · rw [hnow, hobj, h.now]
  · rw [hth', hth, Function.update_self]
    exact hdue

/-- In a transaction the code finds out whether its ticket is served. -/
theorem ticket_step_check (h : TicketCodeRep L g A) {call : TlCall} {l : Addr} {v : Int}
    (hcode : (g.thread t).code = some ⟨call, l, .check v⟩) :
    TicketFollows cfg tm L g A t [] (g.goto t ⟨call, l, .check v⟩
      (if LockField.now.read (g.obj l) = v then .aborting else .spec)) := by
  have hok := h.ok t
  have ht := h.thread t
  obtain ⟨sv, hsaved, hlock, hticket⟩ := hok.check _ v hcode rfl
  have hth : g.thread t = ⟨some ⟨call, l, .check v⟩, (g.thread t).locked, some sv⟩ := by
    rw [← hcode, ← hsaved]
  have hok' : ∀ pl', (pl' = .aborting ∨ pl' = .spec) →
      TicketCodeOk ⟨some ⟨call, l, pl'⟩, (g.thread t).locked, some sv⟩ := by
    intro pl' hpl'
    refine ⟨fun c v' hc hv' => ?_, fun sv' v' hsv hv' => ?_, fun c v' hc hpl => ?_,
      fun c hc hpl => ?_, fun c hc hpl => ?_⟩
    · cases hc
      rcases hpl' with rfl | rfl <;> cases hv'
    · exact hok.ticket sv' v' (by rw [hsaved]; exact hsv) hv'
    · cases hc
      rcases hpl' with rfl | rfl <;> cases hpl
    · cases hc
      exact ⟨sv, rfl, hlock⟩
    · cases hc
      rcases hpl' with rfl | rfl <;> cases hpl
  have hdue : ∀ pl', GraphThread.ticketDue L
      ⟨some ⟨call, l, pl'⟩, (g.thread t).locked, some sv⟩ = [] := fun _ => rfl
  rw [GraphState.goto_eq hth]
  by_cases hserved : LockField.now.read (g.obj l) = v
  · -- the transaction is about to abort
    rw [if_pos hserved]
    refine .inl ⟨h.stay rfl rfl (hok' _ (.inl rfl)) ?_ ?_ ?_, ?_⟩
    · rw [hth]
      simp [GraphThread.ticketPc, TicketPlace.checks]
    · rw [hth]
      exact Iff.rfl
    · rw [hth]
      exact fun v hv => hv
    · rw [GraphState.setThread_thread, hth, hdue, hdue]
      rfl
  · rw [if_neg hserved]
    by_cases hl : l = L
    · subst hl
      have hpc : A.pc t = .check sv.place.tries := by
        rw [ht.place, hth]
        simp [GraphThread.ticketPc, hlock, TicketPlace.checks]
      have hmine := ht.mine v (by rw [hth]; simp [GraphThread.ticketMine, hlock, hticket])
      have hne : A.now ≠ A.myTicket t := by
        intro heq
        apply hserved
        rw [hmine, ← heq, h.now]
        rfl
      refine .inr ⟨.run t, A.goto t (.spec sv.place.tries), ?_, ?_, rfl, ?_⟩
      · simp [TicketState.step, TicketState.runStep, hpc, hne]
      · refine h.update rfl h.next h.now ?_ (hok' _ (.inr rfl)) ⟨?_, ?_, ?_, ?_⟩
        · intro u hu
          simp [TicketState.goto, hu]
        · simp [TicketState.goto, GraphThread.ticketPc, hlock, TicketPlace.checks]
        · have hflag := ht.flag
          rw [hpc] at hflag
          simpa [TicketState.goto, TicketPc.inHtm] using hflag
        · have hrecord := ht.record
          rw [hth] at hrecord
          exact hrecord
        · have hm := ht.mine
          rw [hth] at hm
          exact hm
      · rw [GraphState.setThread_thread, hth, hdue, hdue]
        simp [TicketState.events, hpc, callsOf]
    · refine .inl ⟨h.stay rfl rfl (hok' _ (.inr rfl)) ?_ ?_ ?_, ?_⟩
      · rw [hth]
        simp [GraphThread.ticketPc, hlock, hl]
      · rw [hth]
        exact Iff.rfl
      · rw [hth]
        exact fun v hv => hv
      · rw [GraphState.setThread_thread, hth, hdue, hdue]
        rfl

omit [DecidableEq Tid] in
/-- What a read of `now` finds is the counter of `ticket`. -/
theorem TicketCodeRep.read_now (h : TicketCodeRep L g A) :
    LockField.now.read (g.obj L) = A.now.toNat := by
  rw [h.now]
  rfl

omit [DecidableEq Tid] in
theorem TicketCodeRep.served_iff (h : TicketCodeRep L g A) {v : Int}
    (hv : v = (A.myTicket t).toNat) :
    v = LockField.now.read (g.obj L) ↔ A.myTicket t = A.now := by
  rw [h.read_now, hv]
  constructor
  · intro heq
    exact BitVec.eq_of_toNat_eq (by omega)
  · intro heq
    rw [heq]

omit [DecidableEq Tid] in
/-- The counter a thread works with. -/
theorem TicketCodeRep.value (h : TicketCodeRep L g A) {call : TlCall} {l : Addr}
    {pl : TicketPlace} {locked : Finset Addr} {saved : Option (GraphSaved TicketPlace)} {v : Int}
    (hth : g.thread t = ⟨some ⟨call, l, pl⟩, locked, saved⟩) (hv : pl.value = some v) :
    ∃ w : Word, v = w.toNat := by
  have hok := h.ok t
  rw [hth] at hok
  exact hok.value _ v rfl hv

/-- `my_ticket != l->now` -/
theorem ticket_step_spin (h : TicketCodeRep L g A) {l : Addr} {v : Int} {n : Word}
    {locked : Finset Addr} (hth : g.thread t = ⟨some ⟨.lock, l, .spin v n⟩, locked, none⟩) :
    TicketFollows cfg tm L g A t [] (g.goto t ⟨.lock, l, .spin v n⟩
      (if v = LockField.now.read (g.obj l) then .ending 0 else .dist v n)) := by
  obtain ⟨w, hw⟩ := h.value hth rfl
  rw [GraphState.goto_eq hth]
  by_cases hl : l = L
  · subst hl
    obtain ⟨hpc, hspec, htold, hmine⟩ := h.of_here hth
    have hserved := h.served_iff (hmine v rfl)
    by_cases hv : v = LockField.now.read (g.obj l)
    · -- the ticket is served
      rw [if_pos hv]
      have heq := hserved.mp hv
      refine h.load_here hth rfl rfl (B := (A.goto t .out).tell t true) ?_ rfl rfl ?_ ?_ ?_ ?_ ?_
        (by simp [TicketPlace.value]) rfl (by simp) ?_
      · simp [TicketState.runStep, hpc, TicketPlace.pc, heq]
      · intro u hu
        simp [TicketState.goto, TicketState.tell, hu]
      · simp [TicketState.goto, TicketState.tell, TicketPlace.pc]
      · simp [TicketState.goto, TicketState.tell, hspec, TicketPlace.pc, TicketPc.inHtm]
      · simp [TicketState.tell, GraphThread.ticketTold, TlCall.after]
      · simp [TicketPlace.ticket]
      · simp [TicketState.events, hpc, TicketPlace.pc, heq, callsOf, GraphThread.ticketDue]
    · rw [if_neg hv]
      have hne : A.myTicket t ≠ A.now := fun heq => hv (hserved.mpr heq)
      refine h.load_here hth rfl rfl (B := A.goto t (.dist n)) ?_ rfl rfl ?_ ?_ ?_ htold hmine
        (fun v' hv' => ⟨w, by cases hv'; exact hw⟩) rfl (by simp) ?_
      · simp [TicketState.runStep, hpc, TicketPlace.pc, hne]
      · intro u hu
        simp [TicketState.goto, hu]
      · simp [TicketState.goto, TicketPlace.pc]
      · simp [TicketState.goto, hspec, TicketPlace.pc, TicketPc.inHtm]
      · simp [TicketState.events, hpc, TicketPlace.pc, hne, callsOf, GraphThread.ticketDue]
  · split
    · exact h.elsewhere hl hth rfl rfl (by simp [TicketPlace.value]) rfl (by simp)
    · exact h.elsewhere hl hth rfl rfl (fun v' hv' => ⟨w, by cases hv'; exact hw⟩) rfl (by simp)

/-- `dist = my_ticket - l->now` -/
theorem ticket_step_dist (h : TicketCodeRep L g A) {l : Addr} {v : Int} {n : Word}
    {locked : Finset Addr} (hth : g.thread t = ⟨some ⟨.lock, l, .dist v n⟩, locked, none⟩) :
    TicketFollows cfg tm L g A t [] (g.goto t ⟨.lock, l, .dist v n⟩
      (if ticketSpeculates cfg tm (BitVec.ofInt 32 (v - LockField.now.read (g.obj l))) n then
        .enterHtm v n else .spin v n)) := by
  obtain ⟨w, hw⟩ := h.value hth rfl
  have hvalue : ∀ v', some v = some v' → ∃ w : Word, v' = w.toNat :=
    fun v' hv' => ⟨w, by cases hv'; exact hw⟩
  rw [GraphState.goto_eq hth]
  by_cases hl : l = L
  · subst hl
    obtain ⟨hpc, hspec, htold, hmine⟩ := h.of_here hth
    -- the difference of the words is that of the fields, as both wrap at 32 bits
    have hdist : BitVec.ofInt 32 (v - LockField.now.read (g.obj l)) = A.myTicket t - A.now := by
      rw [h.read_now, hmine v rfl, ofInt_sub]
    rw [hdist]
    by_cases hfar : ticketSpeculates cfg tm (A.myTicket t - A.now) n
    · rw [if_pos hfar]
      refine h.load_here hth rfl rfl (B := (A.goto t (.enterHtm n)).setSpec t true) ?_ rfl rfl ?_
        ?_ ?_ htold hmine hvalue rfl (by simp) ?_
      · simp only [TicketState.runStep, hpc, TicketPlace.pc]
        exact if_pos hfar
      · intro u hu
        simp [TicketState.goto, TicketState.setSpec, hu]
      · simp [TicketState.goto, TicketState.setSpec, TicketPlace.pc]
      · simp [TicketState.setSpec, TicketPlace.pc, TicketPc.inHtm]
      · simp [TicketState.events, hpc, TicketPlace.pc, callsOf, GraphThread.ticketDue]
    · rw [if_neg hfar]
      refine h.load_here hth rfl rfl (B := A.goto t (.spin n)) ?_ rfl rfl ?_ ?_ ?_ htold hmine
        hvalue rfl (by simp) ?_
      · simp only [TicketState.runStep, hpc, TicketPlace.pc]
        exact if_neg hfar
      · intro u hu
        simp [TicketState.goto, hu]
      · simp [TicketState.goto, TicketPlace.pc]
      · simp [TicketState.goto, hspec, TicketPlace.pc, TicketPc.inHtm]
      · simp [TicketState.events, hpc, TicketPlace.pc, callsOf, GraphThread.ticketDue]
  · split
    · exact h.elsewhere hl hth rfl rfl hvalue rfl (by simp)
    · exact h.elsewhere hl hth rfl rfl hvalue rfl (by simp)

/-- The reads of `now` in trylock and unlock. -/
theorem ticket_step_read (h : TicketCodeRep L g A) {call : TlCall} {l : Addr} {pl : TicketPlace}
    {pl' : Int → TicketPlace} {locked : Finset Addr}
    (hpl : (call = .trylock ∧ pl = .tryRead ∧ pl' = .tryCas) ∨
      (call = .unlock ∧ pl = .unlockRead ∧ pl' = .unlockWrite))
    (hth : g.thread t = ⟨some ⟨call, l, pl⟩, locked, none⟩) :
    TicketFollows cfg tm L g A t [] (g.goto t ⟨call, l, pl⟩
      (pl' (LockField.now.read (g.obj l)))) := by
  have hvalue : ∀ v', (pl' (LockField.now.read (g.obj l))).value = some v' →
      ∃ w : Word, v' = w.toNat := by
    intro v' hv'
    refine ⟨TicketPair.now (g.obj l).word, ?_⟩
    rcases hpl with ⟨-, -, rfl⟩ | ⟨-, -, rfl⟩ <;> cases hv' <;> rfl
  rw [GraphState.goto_eq hth]
  by_cases hl : l = L
  · subst hl
    obtain ⟨hpc, hspec, htold, hmine⟩ := h.of_here hth
    have hnow : BitVec.ofInt 32 (LockField.now.read (g.obj l)) = A.now := by
      rw [h.read_now, ofInt_toNat]
    rcases hpl with ⟨rfl, rfl, rfl⟩ | ⟨rfl, rfl, rfl⟩
    · refine h.load_here hth rfl rfl (B := A.goto t (.tryCas A.now)) ?_ rfl rfl ?_ ?_ ?_ htold
        hmine hvalue rfl (by simp) ?_
      · simp [TicketState.runStep, hpc, TicketPlace.pc]
      · intro u hu
        simp [TicketState.goto, hu]
      · simp [TicketState.goto, TicketPlace.pc, hnow]
      · simp [TicketState.goto, hspec, TicketPlace.pc, TicketPc.inHtm]
      · simp [TicketState.events, hpc, TicketPlace.pc, callsOf, GraphThread.ticketDue]
    · refine h.load_here hth rfl rfl (B := A.goto t (.unlockWrite A.now)) ?_ rfl rfl ?_ ?_ ?_
        htold hmine hvalue rfl (by simp) ?_
      · simp [TicketState.runStep, hpc, TicketPlace.pc]
      · intro u hu
        simp [TicketState.goto, hu]
      · simp [TicketState.goto, TicketPlace.pc, hnow]
      · simp [TicketState.goto, hspec, TicketPlace.pc, TicketPc.inHtm]
      · simp [TicketState.events, hpc, TicketPlace.pc, callsOf, GraphThread.ticketDue]
  · refine h.elsewhere hl hth rfl rfl hvalue ?_ ?_
    · rcases hpl with ⟨-, -, rfl⟩ | ⟨-, -, rfl⟩ <;> rfl
    · rcases hpl with ⟨-, -, rfl⟩ | ⟨-, -, rfl⟩ <;> simp

theorem ticket_step_load (hg : GraphOk (ticketGraph cfg tm) tm g) (h : TicketCodeRep L g A)
    {m : Addr} {f : LockField} {next : Int → TicketPlace} (hcode : (g.thread t).code = some c)
    (hnode : (ticketGraph cfg tm).node c.lock c.place = .op (.load (.lock m f)) next) :
    TicketFollows cfg tm L g A t [] (g.goto t c (next (f.read (g.obj m)))) := by
  have hin := hg.inTx hcode
  have hfits := hg.fits hcode
  have hth : (g.thread t).saved = none →
      g.thread t = ⟨some c, (g.thread t).locked, none⟩ := by
    intro hsaved
    rw [← hcode, ← hsaved]
  obtain ⟨call, l, pl⟩ := c
  cases pl with
  | check v =>
    cases hnode
    exact ticket_step_check h hcode
  | spin v n =>
    cases hnode
    cases call with
    | lock => exact ticket_step_spin h (hth (by simpa [ticketGraph] using hin))
    | trylock | unlock => cases hfits
  | dist v n =>
    cases hnode
    cases call with
    | lock => exact ticket_step_dist h (hth (by simpa [ticketGraph] using hin))
    | trylock | unlock => cases hfits
  | tryRead =>
    cases hnode
    cases call with
    | trylock =>
      exact ticket_step_read h (.inl ⟨rfl, rfl, rfl⟩) (hth (by simpa [ticketGraph] using hin))
    | lock | unlock => cases hfits
  | unlockRead =>
    cases hnode
    cases call with
    | unlock =>
      exact ticket_step_read h (.inr ⟨rfl, rfl, rfl⟩) (hth (by simpa [ticketGraph] using hin))
    | lock | trylock => cases hfits
  | _ => cases hnode

/-- The code goes on at `pl` and leaves the lock `l` as `obj`. -/
def GraphState.gotoObj (g : GraphState Tid TicketPlace) (t : Tid) (c : GraphCode TicketPlace)
    (pl : TicketPlace) (l : Addr) (obj : LockObj Tid) : GraphState Tid TicketPlace :=
  { g.goto t c pl with obj := Function.update g.obj l obj }

theorem gotoObj_thread {call : TlCall} {l : Addr} {pl : TicketPlace} {locked : Finset Addr}
    (hth : g.thread t = ⟨some ⟨call, l, pl⟩, locked, none⟩) (pl' : TicketPlace)
    (obj : LockObj Tid) :
    (g.gotoObj t ⟨call, l, pl⟩ pl' l obj).thread =
      Function.update g.thread t ⟨some ⟨call, l, pl'⟩, locked, none⟩ := by
  unfold GraphState.gotoObj
  rw [GraphState.goto_eq hth]
  rfl

theorem gotoObj_here {pl : TicketPlace} {obj : LockObj Tid} :
    (g.gotoObj t c pl L obj).obj L = obj := Function.update_self ..

theorem gotoObj_elsewhere {l : Addr} {pl : TicketPlace} {obj : LockObj Tid} (hl : l ≠ L) :
    (g.gotoObj t c pl l obj).obj L = g.obj L := Function.update_of_ne (Ne.symm hl) ..

/-- A call on the lock changes it. -/
theorem TicketCodeRep.modify_here (h : TicketCodeRep L g A) {B : TicketState Tid} {call : TlCall}
    {pl pl' : TicketPlace} {locked : Finset Addr} {obj : LockObj Tid} {a : TicketAct Tid}
    (hth : g.thread t = ⟨some ⟨call, L, pl⟩, locked, none⟩)
    (hs : A.step cfg tm a = some B) (ha : TicketAct.tid a = t)
    (hnext : B.next = TicketPair.next obj.word) (hnow : B.now = TicketPair.now obj.word)
    (hother : ∀ u, u ≠ t → B.pc u = A.pc u ∧ B.specEntry u = A.specEntry u ∧
      B.told u = A.told u ∧ B.myTicket u = A.myTicket u)
    (hpc : B.pc t = pl'.pc) (hspec : B.specEntry t = TicketPc.inHtm pl'.pc)
    (htold : B.told t = true ↔ GraphThread.ticketTold L ⟨some ⟨call, L, pl'⟩, locked, none⟩)
    (hmine : ∀ v, pl'.ticket = some v → v = (B.myTicket t).toNat)
    (hvalue : ∀ v, pl'.value = some v → ∃ w : Word, v = w.toNat) (hchecks : pl'.checks = false)
    (htake : pl' ≠ .takeTicket)
    (hdue : GraphThread.ticketDue L ⟨some ⟨call, L, pl⟩, locked, none⟩ ++
        callsOf ((TicketState.events tm A a).map fun e => (L, e.2)) =
      GraphThread.ticketDue L ⟨some ⟨call, L, pl'⟩, locked, none⟩) :
    TicketFollows cfg tm L g A t [] (g.gotoObj t ⟨call, L, pl⟩ pl' L obj) := by
  have hth' := gotoObj_thread hth pl' obj
  refine .inr ⟨a, B, hs, ?_, ha, ?_⟩
  · refine h.goOn hth' ?_ ?_ hother hpc hspec htold hmine hvalue hchecks htake
    · rw [gotoObj_here]
      exact hnext
    · rw [gotoObj_here]
      exact hnow
  · rw [hth', hth, Function.update_self]
    exact hdue

/-- `my_ticket = __sync_fetch_and_add(&l->next, 1)` -/
theorem ticket_step_take (h : TicketCodeRep L g A) {l : Addr} {locked : Finset Addr}
    (hth : g.thread t = ⟨some ⟨.lock, l, .takeTicket⟩, locked, none⟩) :
    TicketFollows cfg tm L g A t [] (g.gotoObj t ⟨.lock, l, .takeTicket⟩
      (.spin (LockField.next.read (g.obj l)) 0) l
      (LockField.next.write (g.obj l) (LockField.next.read (g.obj l) + 1))) := by
  have hvalue : ∀ v, (TicketPlace.spin (LockField.next.read (g.obj l)) 0).value = some v →
      ∃ w : Word, v = w.toNat :=
    fun v hv => ⟨TicketPair.next (g.obj l).word, by cases hv; rfl⟩
  by_cases hl : l = L
  · subst hl
    obtain ⟨hpc, hspec, htold, -⟩ := h.of_here hth
    -- a thread calls `lock` only for a lock that it does not have
    have hfresh : l ∉ locked := by
      have hok := h.ok t
      rw [hth] at hok
      exact hok.fresh _ rfl rfl
    have hnot : A.told t = false := by
      rw [Bool.eq_false_iff, ne_eq, htold]
      exact hfresh
    refine h.modify_here hth (a := .lock t) (B := (A.take t A.next).goto t (.spin 0)) ?_ rfl ?_ ?_
      ?_ ?_ ?_ ?_ ?_ hvalue rfl (by simp) ?_
    · simp [TicketState.step, hpc, TicketPlace.pc, hnot, hspec, TicketPc.inHtm]
    · rw [write_next_succ]
      simp [TicketState.goto, TicketState.take, h.next]
    · rw [write_next_succ]
      simp [TicketState.goto, TicketState.take, h.now]
    · intro u hu
      simp [TicketState.goto, TicketState.take, hu]
    · simp [TicketState.goto, TicketPlace.pc]
    · simp [TicketState.goto, TicketState.take, TicketPlace.pc, hspec, TicketPc.inHtm]
    · exact htold
    · intro v hv
      cases hv
      rw [LockField.read, ← h.next]
      simp [TicketState.goto, TicketState.take]
    · rfl
  · exact h.elsewhere hl hth (gotoObj_thread hth _ _) (gotoObj_elsewhere hl) hvalue rfl (by simp)

/-- The swap of `ticket_trylock`. -/
theorem ticket_step_cas (h : TicketCodeRep L g A) {l : Addr} {w : Word} {locked : Finset Addr}
    {v : Int} {obj : LockObj Tid}
    (hth : g.thread t = ⟨some ⟨.trylock, l, .tryCas w.toNat⟩, locked, none⟩)
    (hv : v = if TicketPair.next (g.obj l).word = w ∧ TicketPair.now (g.obj l).word = w then 1
      else 0)
    (hobj : obj = if TicketPair.next (g.obj l).word = w ∧ TicketPair.now (g.obj l).word = w then
      { g.obj l with word := TicketPair.pack (w + 1) w } else g.obj l) :
    TicketFollows cfg tm L g A t [] (g.gotoObj t ⟨.trylock, l, .tryCas w.toNat⟩
      (.ending (if v ≠ 0 ∨ tm = true then 0 else 1)) l obj) := by
  have hvalue : ∀ x v', (TicketPlace.ending x).value = some v' → ∃ w : Word, v' = w.toNat := by
    intro x v' hv'
    cases hv'
  by_cases hl : l = L
  · subst hl
    obtain ⟨hpc, hspec, htold, -⟩ := h.of_here hth
    rw [TicketPlace.pc, ofInt_toNat] at hpc
    rw [← h.next, ← h.now] at hv hobj
    by_cases hfree : A.next = w ∧ A.now = w
    · -- nobody is at the lock
      rw [if_pos hfree] at hv hobj
      subst hv hobj
      simp only [ne_eq, Int.one_ne_zero, not_false_eq_true, true_or, if_true]
      refine h.modify_here hth (a := .run t) (B := ((A.take t w).goto t .out).tell t true) ?_ rfl
        ?_ ?_ ?_ ?_ ?_ ?_ ?_ (hvalue 0) rfl (by simp) ?_
      · simp [TicketState.step, TicketState.runStep, hpc, hfree]
      · simp [TicketState.goto, TicketState.take, TicketState.tell]
      · simp [TicketState.goto, TicketState.take, TicketState.tell, hfree.2]
      · intro u hu
        simp [TicketState.goto, TicketState.take, TicketState.tell, hu]
      · simp [TicketState.goto, TicketState.tell, TicketPlace.pc]
      · simp [TicketState.goto, TicketState.take, TicketState.tell, TicketPlace.pc, hspec,
          TicketPc.inHtm]
      · simp [TicketState.tell, GraphThread.ticketTold, TlCall.after]
      · simp [TicketPlace.ticket]
      · simp [TicketState.events, hpc, hfree, callsOf, GraphThread.ticketDue]
    · rw [if_neg hfree] at hv hobj
      subst hv hobj
      simp only [ne_eq, not_true_eq_false, false_or]
      refine h.modify_here hth (a := .run t) (B := (A.goto t .out).tell t (A.told t || tm)) ?_ rfl
        h.next h.now ?_ ?_ ?_ ?_ ?_ (hvalue _) rfl (by simp) ?_
      · simp only [TicketState.step, TicketState.runStep, hpc]
        rw [if_neg hfree]
      · intro u hu
        simp [TicketState.goto, TicketState.tell, hu]
      · simp [TicketState.goto, TicketState.tell, TicketPlace.pc]
      · simp [TicketState.goto, TicketState.tell, TicketPlace.pc, hspec, TicketPc.inHtm]
      · rw [ticketTold_here (by simp)] at htold
        cases tm
        · simp [TicketState.tell, GraphThread.ticketTold, TlCall.after, htold]
        · simp [TicketState.tell, GraphThread.ticketTold, TlCall.after]
      · simp [TicketPlace.ticket]
      · simp [TicketState.events, hpc, hfree, callsOf, GraphThread.ticketDue]
  · exact h.elsewhere hl hth (gotoObj_thread hth _ _) (gotoObj_elsewhere hl) (hvalue _) rfl
      (by simp)

/-- The write of `l->now++`. -/
theorem ticket_step_serve (h : TicketCodeRep L g A) {l : Addr} {w : Word} {locked : Finset Addr}
    (hth : g.thread t = ⟨some ⟨.unlock, l, .unlockWrite w.toNat⟩, locked, none⟩) :
    TicketFollows cfg tm L g A t [] (g.gotoObj t ⟨.unlock, l, .unlockWrite w.toNat⟩ (.ending 0) l
      (LockField.now.write (g.obj l) (wrap32 (w.toNat + 1)))) := by
  have hvalue : ∀ v', (TicketPlace.ending 0).value = some v' → ∃ w : Word, v' = w.toNat := by
    intro v' hv'
    cases hv'
  by_cases hl : l = L
  · subst hl
    obtain ⟨hpc, hspec, htold, -⟩ := h.of_here hth
    rw [TicketPlace.pc, ofInt_toNat] at hpc
    -- the store of 32 bits leaves `next` alone, and wraps as `now` does
    rw [write_now_succ]
    refine h.modify_here hth (a := .run t) (B := { A with now := w + 1 }.goto t .out) ?_ rfl
      ?_ ?_ ?_ ?_ ?_ ?_ ?_ hvalue rfl (by simp) ?_
    · simp [TicketState.step, TicketState.runStep, hpc]
    · simp [TicketState.goto, h.next]
    · simp [TicketState.goto]
    · intro u hu
      simp [TicketState.goto, hu]
    · simp [TicketState.goto, TicketPlace.pc]
    · simp [TicketState.goto, TicketPlace.pc, hspec, TicketPc.inHtm]
    · rw [ticketTold_here (by simp)] at htold
      simp [TicketState.goto, GraphThread.ticketTold, TlCall.after, htold]
    · simp [TicketPlace.ticket]
    · simp [TicketState.events, hpc, callsOf, GraphThread.ticketDue]
  · exact h.elsewhere hl hth (gotoObj_thread hth _ _) (gotoObj_elsewhere hl) hvalue rfl (by simp)

theorem ticket_step_modify (hg : GraphOk (ticketGraph cfg tm) tm g) (h : TicketCodeRep L g A)
    {o : LockOp} {m : Addr} {f : LockObj Tid → Option (Int × LockObj Tid)} {v : Int}
    {obj : LockObj Tid} {next : Int → TicketPlace} (hcode : (g.thread t).code = some c)
    (hnode : (ticketGraph cfg tm).node c.lock c.place = .op o next)
    (hsaved : (g.thread t).saved = none) (ho : o.modify t = some (m, f))
    (hf : f (g.obj m) = some (v, obj)) :
    TicketFollows cfg tm L g A t []
      { g.goto t c (next v) with obj := Function.update g.obj m obj } := by
  have hfits := hg.fits hcode
  have hth : g.thread t = ⟨some c, (g.thread t).locked, none⟩ := by rw [← hcode, ← hsaved]
  obtain ⟨call, l, pl⟩ := c
  cases pl with
  | takeTicket =>
    cases hnode
    cases ho
    cases hf
    cases call <;> cases hfits
    exact ticket_step_take h hth
  | tryCas now =>
    obtain ⟨w, rfl⟩ := h.value hth rfl
    cases hnode
    cases ho
    cases call <;> cases hfits
    simp only [write_all_eq_iff, write_all_take, Option.some.injEq] at hf
    refine ticket_step_cas h hth ((congrArg Prod.fst hf).symm.trans ?_)
      ((congrArg Prod.snd hf).symm.trans ?_)
    · split <;> rfl
    · split <;> rfl
  | unlockWrite now =>
    obtain ⟨w, rfl⟩ := h.value hth rfl
    cases hnode
    cases ho
    cases hf
    cases call <;> cases hfits
    exact ticket_step_serve h hth
  | _ =>
    cases hnode
    try cases ho

/-- No thread calls lock outside transactions on a lock it has. -/
def TicketFresh (g : GraphState Tid TicketPlace) : TlAct Tid → Prop
  | .call t .lock l => (g.thread t).saved = none → l ∉ (g.thread t).locked
  | _ => True

/-- A step in the graph is a step of `ticket` or none, for each lock. -/
theorem ticket_step (hg : GraphOk (ticketGraph cfg tm) tm g) (h : TicketCodeRep L g A)
    {a : TlAct Tid} {es : List (Addr × LockEvent)} (hfresh : TicketFresh g a)
    (hs : GraphStep (ticketGraph cfg tm) g a es g') :
    TicketFollows cfg tm L g A (TlAct.tid a) es g' := by
  cases hs with
  | own => exact .inl ⟨h, rfl⟩
  | @call t call l hcode hlocked =>
    refine ticket_step_call h hcode hlocked fun hc => ?_
    subst hc
    exact hfresh
  | ret hcode hnode => exact ticket_step_ret hg h hcode hnode
  | load hcode hnode => exact ticket_step_load hg h hcode hnode
  | modify hcode hnode hsaved ho hf => exact ticket_step_modify hg h hcode hnode hsaved ho hf
  | begin hcode hnode hsaved => exact ticket_step_begin hg h hcode hnode hsaved
  | fail hcode hnode hsaved hstatus => exact ticket_step_fail hg h hcode hnode hsaved hstatus
  | abort ha hsaved hnode hstatus =>
    subst ha
    exact ticket_step_abort hg h hsaved hnode hstatus

end Step

/-! ## Runs -/

section Run

/-- No thread calls `tl_lock` outside transactions on a lock it has. -/
def TlFresh (s : TlState Tid) : TlAct Tid → Prop
  | .call t .lock l => s.tx t = none → l ∉ (s.thread t).locked
  | _ => True

instance (s : TlState Tid) (a : TlAct Tid) : Decidable (TlFresh s a) :=
  match a with
  | .call t .lock l => inferInstanceAs (Decidable (s.tx t = none → l ∉ (s.thread t).locked))
  | .call _ .trylock _ | .call _ .unlock _ | .run _ _ | .htmBegin _ | .htmAbort _ _ =>
    isTrue trivial

variable {cfg : TxConfig} {tm : Bool} {L : Addr} {s : TlState Tid} {g : GraphState Tid TicketPlace}

theorem TicketFresh.of_tlFresh {a : TlAct Tid} (hg : InGraph (ticketGraph cfg.toTmParams tm) tm g s)
    (h : TlFresh s a) : TicketFresh g a := by
  cases a with
  | call t call l =>
    cases call with
    | lock =>
      intro hsaved
      rw [(hg.thread t).locked]
      exact h ((hg.thread t).saved.mp hsaved)
    | trylock | unlock => trivial
  | run _ _ | htmBegin _ | htmAbort _ _ => trivial

/-- What `ticket` shows of the calls on the lock `L`. -/
def ticketEvents (tm : Bool) (L : Addr) (A : TicketState Tid) (a : TicketAct Tid) :
    List (Addr × LockEvent) :=
  (TicketState.events tm A a).map fun e => (L, e.2)

/-- The start. -/
theorem TicketCodeRep.init :
    TicketCodeRep L (⟨fun _ => {}, fun _ => {}⟩ : GraphState Tid TicketPlace)
      ⟨0, 0, fun _ => .out, fun _ => 0, fun _ => false, fun _ => false⟩ where
  next := rfl
  now := by simp [TicketPair.now]
  ok t := by
    refine ⟨fun c v hc => ?_, fun sv v hsv => ?_, fun c v hc => ?_, fun c hc => ?_, fun c hc => ?_⟩
    · cases hc
    · cases hsv
    · cases hc
    · cases hc
    · cases hc
  thread t := by
    refine ⟨rfl, rfl, ?_, fun v hv => ?_⟩
    · simp [GraphThread.ticketTold]
    · cases hv

variable [DecidableEq Tid]

/-- The runs of the code and those of `ticket`, for the lock `L`. -/
theorem ticket_code_rep (tm : Bool) {tr : List (TlState Tid × TlAct Tid)}
    (h : (tlSystem Tid cfg (ticketType tm)).Run TlFresh tr s) (L : Addr) :
    ∃ tr' A g, (ticket Tid cfg.toTmParams tm).Run System.Free tr' A ∧ TicketCodeRep L g A ∧
      InGraph (ticketGraph cfg.toTmParams tm) tm g s ∧
      ∀ t, System.events (callsSeen TicketAct.tid (ticketEvents tm L) t) tr' =
        (tlLog t tr).filter (fun e => e.1 = L) ++ (g.thread t).ticketDue L := by
  refine tl_refines (ticketGraph_lawful cfg tm) TicketAct.tid (ticketEvents tm L)
    (GraphThread.ticketDue L) (D := TicketFresh)
    (fun g s a hg hc => .of_tlFresh hg hc) ⟨_, ?_, TicketCodeRep.init⟩ rfl ?_ h
  · exact ⟨rfl, fun _ => rfl, fun _ => rfl, fun _ => rfl⟩
  · intro g A a es g' hok hrep hfresh hs
    exact ticket_step hok hrep hfresh hs

/-- What the code of `ticket` or `ticket_tm` returns of a lock outside transactions, the system
    `ticket` shows, and the two leave the same counters. Threads in the application are told
    the same. -/
theorem ticket_code_refines (tm : Bool) {tr : List (TlState Tid × TlAct Tid)}
    (h : (tlSystem Tid cfg (ticketType tm)).Run TlFresh tr s) (L : Addr) :
    ∃ tr' A, (ticket Tid cfg.toTmParams tm).Run System.Free tr' A ∧
      A.next = TicketPair.next (s.obj L).word ∧ A.now = TicketPair.now (s.obj L).word ∧
      (∀ t, (tlLog t tr).filter (fun e => e.1 = L) <+:
        System.events (callsSeen TicketAct.tid (ticketEvents tm L) t) tr') ∧
      ∀ t, (s.thread t).code = .app → s.tx t = none → A.pc t = .out ∧ A.specEntry t = false ∧
        (A.told t = true ↔ L ∈ (s.thread t).locked) ∧
        System.events (callsSeen TicketAct.tid (ticketEvents tm L) t) tr' =
          (tlLog t tr).filter fun e => e.1 = L := by
  obtain ⟨tr', A, g, hrun, hrep, hg, hsee⟩ := ticket_code_rep tm h L
  refine ⟨tr', A, hrun, ?_, ?_, fun t => ?_, fun t happ htx => ?_⟩
  · rw [hrep.next, hg.obj]
  · rw [hrep.now, hg.obj]
  · rw [hsee t]
    exact List.prefix_append _ _
  · have hcode := hg.code_of_app happ
    have hsaved := (hg.thread t).saved.mpr htx
    obtain ⟨hpc, hspec, htold⟩ := hrep.of_app hcode hsaved
    refine ⟨hpc, hspec, ?_, ?_⟩
    · rw [htold, (hg.thread t).locked]
    · rw [hsee t]
      simp [GraphThread.ticketDue, hcode]

/-- Thread 0 has the lock 1, and thread 1 waits for its ticket in a transaction. -/
theorem ticket_code_refines_speculating : ∃ tr s,
    (tlSystem (Fin 2) { fuel := 1 } .ticketTm).Run TlFresh tr s ∧ (s.tx 1).isSome = true ∧
      ∃ tr' A, (ticket (Fin 2) {} true).Run System.Free tr' A ∧
        A.next = TicketPair.next (s.obj 1).word ∧ A.now = TicketPair.now (s.obj 1).word ∧
        (∀ t, (tlLog t tr).filter (fun e => e.1 = 1) <+:
          System.events (callsSeen TicketAct.tid (ticketEvents true 1) t) tr') ∧
        ∀ t, (s.thread t).code = .app → s.tx t = none → A.pc t = .out ∧ A.specEntry t = false ∧
          (A.told t = true ↔ 1 ∈ (s.thread t).locked) ∧
          System.events (callsSeen TicketAct.tid (ticketEvents true 1) t) tr' =
            (tlLog t tr).filter fun e => e.1 = 1 := by
  let s₀ : TlState (Fin 2) := ⟨fun _ => {}, fun _ => {}, fun _ => none, false⟩
  let as : List (TlAct (Fin 2)) := .call 0 .lock 1 :: List.replicate 7 (.run 0 0) ++
    .call 1 .lock 1 :: List.replicate 9 (.run 1 0) ++ [.htmBegin 1]
  have htx : ((tlSystem (Fin 2) { fuel := 1 } .ticketTm).exec s₀ as).map
      (fun s => (s.tx 1).isSome) = some true := by decide
  obtain ⟨s, hs, htx⟩ := Option.map_eq_some_iff.mp htx
  have hrun := (System.Run.init (M := tlSystem (Fin 2) { fuel := 1 } .ticketTm) rfl).exec hs
  have hfresh := hrun.of_forall_mem (C := TlFresh) (by decide)
  exact ⟨_, s, hfresh, htx, ticket_code_refines true hfresh 1⟩

omit [DecidableEq Tid] in
/-- `ticket` counts a thread's last lock sooner than the code does. -/
theorem ticketTold_of_base {th : GraphThread TicketPlace} (h : L ∈ th.base) : th.ticketTold L := by
  obtain ⟨code, locked, saved⟩ := th
  cases saved with
  | some sv => exact h
  | none =>
    cases code with
    | none => exact h
    | some c =>
      obtain ⟨call, l, pl⟩ := c
      cases pl with
      | ending x => exact TlCall.subset_after call l x locked h
      | _ => exact h

/-- Fewer than 2^32 threads that run the code of `ticket`: two of them never have the same
    lock. -/
theorem ticket_code_exclusive [Fintype Tid] (hcard : Fintype.card Tid < 2 ^ 32)
    {tr : List (TlState Tid × TlAct Tid)} (h : (tlSystem Tid cfg .ticket).Run TlFresh tr s)
    {t u : Tid} (hne : t ≠ u) : Disjoint (TlState.base s t) (TlState.base s u) := by
  rw [Finset.disjoint_left]
  intro l ht hu
  obtain ⟨tr', A, g, hrun, hrep, hg, -⟩ := ticket_code_rep false h l
  rw [← hg.base] at ht hu
  have htold : ∀ {v}, l ∈ (g.thread v).base → A.told v = true := fun hv =>
    (hrep.thread _).record.mpr (ticketTold_of_base hv)
  -- the swaps of `ticket_trylock` are never dropped
  have htruthful : ∀ x ∈ tr', TicketTruthful false x.1 x.2 := by
    rintro ⟨A', a⟩ -
    refine ⟨?_, .of_card hcard A'⟩
    cases a with
    | run w =>
      intro hfalse
      cases hfalse
    | lock w | trylock w | unlock w | htmStart w | htmAbort w => trivial
  obtain ⟨F, hrel⟩ := ticket_rel (hrun.of_forall_mem htruthful)
  have ht := (hrel.thread t).holds.mp (.inl (htold ht))
  have hu := (hrel.thread u).holds.mp (.inl (htold hu))
  exact hne (Option.some.inj (ht.symm.trans hu))

/-- Thread 0 has the lock 1, for which thread 1 waits. -/
theorem ticket_code_exclusive_waiting : ∃ tr s,
    (tlSystem (Fin 2) { fuel := 1 } .ticket).Run TlFresh tr s ∧ 1 ∈ TlState.base s 0 ∧
      Disjoint (TlState.base s 0) (TlState.base s 1) := by
  let s₀ : TlState (Fin 2) := ⟨fun _ => {}, fun _ => {}, fun _ => none, false⟩
  let as : List (TlAct (Fin 2)) := .call 0 .lock 1 :: List.replicate 6 (.run 0 0) ++
    .call 1 .lock 1 :: List.replicate 3 (.run 1 0)
  have hbase : ((tlSystem (Fin 2) { fuel := 1 } .ticket).exec s₀ as).map
      (fun s => decide (1 ∈ TlState.base s 0)) = some true := by decide
  obtain ⟨s, hs, hbase⟩ := Option.map_eq_some_iff.mp hbase
  have hrun := (System.Run.init (M := tlSystem (Fin 2) { fuel := 1 } .ticket) rfl).exec hs
  have hfresh := hrun.of_forall_mem (C := TlFresh) (by decide)
  exact ⟨_, s, hfresh, of_decide_eq_true hbase,
    ticket_code_exclusive (by decide) hfresh (by decide)⟩

end Run

end TxLock.Spec
