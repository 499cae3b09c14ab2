import Mathlib.Data.Finset.Card
import TxLock.Spec.TicketInvariant

/-!
# Correctness of the ticket locks across wraparound

`ticket_correct` collects what the simulation of `TicketInvariant` says about the
lock's own words: `next - now`, taken modulo 2^32, counts the threads engaged with
the lock, their tickets are the values of the circular interval from `now` to
`next`, only the thread with ticket `now` is in the critical section, and threads
enter in the order of their tickets. It holds in every state of every run, however
often the two counters have wrapped around.
-/

namespace TxLock.Spec

open Native

variable {Tid : Type}

/-- The thread holds the lock or waits for it: it owes a ticket. -/
def ticketEngaged (s : TicketState Tid) (t : Tid) : Bool :=
  TicketPc.isWaiting (s.pc t) || s.told t || TicketPc.isReleasing (s.pc t)

/-- The thread is between the return of a successful lock or trylock outside a
    transaction and the end of its unlock. -/
def ticketHolds (s : TicketState Tid) (t : Tid) : Bool :=
  s.told t || TicketPc.isReleasing (s.pc t)

/-- `ticket_tm` is used through lock and unlock only. -/
def TicketUse (tm : Bool) (_ : TicketState Tid) : TicketAct Tid → Prop
  | .trylock _ => tm = false
  | _ => True

instance (tm : Bool) (s : TicketState Tid) : DecidablePred (TicketUse tm s)
  | .trylock _ => inferInstanceAs (Decidable (tm = false))
  | .lock _ | .unlock _ | .run _ | .htmStart _ | .htmAbort _ => isTrue trivial

/-- The law of a ticket lock in state `s` after the steps `tr`. -/
structure TicketLaw [DecidableEq Tid] [Fintype Tid] (cfg : TmParams) (tm : Bool)
    (tr : List (TicketState Tid × TicketAct Tid)) (s : TicketState Tid) : Prop where
  /-- `next - now` is the number of threads holding or waiting. -/
  count : (s.next - s.now).toNat = (Finset.univ.filter fun t => ticketEngaged s t).card
  /-- Their tickets lie in the circular interval from `now` to `next`. -/
  interval : ∀ t, ticketEngaged s t → (s.myTicket t - s.now).toNat < (s.next - s.now).toNat
  /-- Each value of that interval is the ticket of exactly one of them. -/
  unique : ∀ v, (v - s.now).toNat < (s.next - s.now).toNat →
    ∃! t, ticketEngaged s t ∧ s.myTicket t = v
  /-- Only the thread whose ticket is `now` holds the lock. -/
  serving : ∀ t, ticketHolds s t → s.myTicket t = s.now
  exclusive : ∀ t u, ticketHolds s t → ticketHolds s u → t = u
  /-- A trylock succeeds only when the interval is empty. -/
  trylock : ∀ t v s', s.pc t = .tryCas v → s.step cfg tm (.run t) = some s' →
    s.told t = false → s'.told t = true → s.next = s.now ∧ ∀ u, ¬ ticketEngaged s u
  /-- The threads that took a ticket are those that entered, in the same order,
      followed by those that still wait, each once. -/
  order : ∃ waiting : List Tid,
    Fifo.arrivals (System.events (ticketActs tm) tr) =
      Fifo.enters (System.events (ticketActs tm) tr) ++ waiting ∧
    waiting.Nodup ∧ ∀ t, t ∈ waiting ↔ TicketPc.isWaiting (s.pc t) = true

namespace TicketRel

variable {A : Fifo Tid} {s : TicketState Tid}

/-- The members of the abstract queue are the engaged threads. -/
theorem mem_queue (h : TicketRel A s) (t : Tid) : t ∈ A.queue ↔ ticketEngaged s t = true := by
  rw [h.mem_iff t]
  simp [ticketEngaged, or_assoc]

/-- The difference of the counters is the length of the queue. -/
theorem dist_eq (h : TicketRel A s) (hlen : A.queue.length < 2 ^ 32) :
    (s.next - s.now).toNat = A.queue.length := by
  rw [h.next, toNat_add_ofNat_sub s.now hlen]

/-- The thread that holds the lock is the first of the queue. -/
theorem head_of_holds (h : TicketRel A s) {t : Tid} (ht : ticketHolds s t = true) :
    A.queue.head? = some t := by
  have hhold : A.holder = some t := (h.thread t).holds.mp (by simpa [ticketHolds] using ht)
  simp only [Fifo.holder, Option.ite_none_right_eq_some] at hhold
  exact hhold.2

end TicketRel

/-- In the code of `ticket_trylock`. -/
private def inTrylock : TicketPc → Bool
  | .tryRead | .tryCas _ => true
  | .out | .spin _ | .dist _ | .enterHtm _ | .check _ | .spec _ | .unlockRead
  | .unlockWrite _ => false

/-- A thread gets into the code of a trylock only by calling it. -/
private theorem step_inTrylock [DecidableEq Tid] {cfg : TmParams} {tm : Bool}
    {s s' : TicketState Tid} {a : TicketAct Tid} (hs : s.step cfg tm a = some s') {u : Tid}
    (hu : inTrylock (s'.pc u) = true) : inTrylock (s.pc u) = true ∨ a = .trylock u := by
  by_contra hnot
  simp only [not_or, Bool.not_eq_true] at hnot
  obtain ⟨hnot, ha⟩ := hnot
  cases a with
  | lock t | unlock t | htmStart t | htmAbort t | trylock t | run t =>
    by_cases hut : u = t
    · subst hut
      cases hpc : s.pc u <;>
        simp only [TicketState.step, TicketState.runStep, hpc, reduceCtorEq, not_true_eq_false,
          inTrylock] at hs hnot ha <;>
        (repeat' split at hs) <;> simp only [Option.some.injEq, reduceCtorEq] at hs <;>
        subst hs <;>
        simp [TicketState.goto, TicketState.tell, TicketState.setSpec, TicketState.take,
          inTrylock, hpc] at hu
    · cases hpc : s.pc t <;>
        simp only [TicketState.step, TicketState.runStep, hpc, reduceCtorEq] at hs <;>
        (repeat' split at hs) <;> simp only [Option.some.injEq, reduceCtorEq] at hs <;>
        subst hs <;>
        simp [TicketState.goto, TicketState.tell, TicketState.setSpec, TicketState.take, hut,
          hnot] at hu

/-- A run of `ticket_tm` without trylocks never drops a trylock's result, as no thread
    ever gets into the code of a trylock. -/
private theorem trySound_of_use [DecidableEq Tid] {cfg : TmParams} {tm : Bool}
    {tr : List (TicketState Tid × TicketAct Tid)} {s : TicketState Tid}
    (h : (ticket Tid cfg tm).Run (TicketUse tm) tr s) :
    (ticket Tid cfg tm).Run (TicketTrySound tm) tr s ∧
      (tm = true → ∀ t, inTrylock (s.pc t) = false) := by
  cases tm with
  | false => exact ⟨h.mono fun s a _ => by cases a <;> simp [TicketTrySound], nofun⟩
  | true =>
    refine h.invariant_trace
      (I := fun tr s => (ticket Tid cfg true).Run (TicketTrySound true) tr s ∧
        (true = true → ∀ t, inTrylock (s.pc t) = false)) ?_ ?_
    · exact fun s hi => ⟨.init hi, fun _ t => by simp [hi.2.1 t, inTrylock]⟩
    · rintro tr s a s' - ⟨hr, hpc⟩ hc hs
      refine ⟨hr.step ?_ hs, fun _ t => ?_⟩
      · cases a with
        | run t =>
          intro _ v hv
          simpa [hv, inTrylock] using hpc rfl t
        | _ => trivial
      · by_contra hin
        rcases step_inTrylock hs (by simpa using hin) with ht | rfl
        · simp [hpc rfl t] at ht
        · exact absurd hc (by simp [TicketUse])

/-- Ticket locks are correct wherever their counters stand: in every state of every run
    with fewer than 2^32 threads, under any interleaving and with speculation that may
    abort at any point. -/
theorem ticket_correct [DecidableEq Tid] [Fintype Tid] (hcard : Fintype.card Tid < 2 ^ 32)
    (cfg : TmParams) (tm : Bool) (tr : List (TicketState Tid × TicketAct Tid))
    (s : TicketState Tid) (h : (ticket Tid cfg tm).Run (TicketUse tm) tr s) :
    TicketLaw cfg tm tr s := by
  obtain ⟨hsound, hnotry⟩ := trySound_of_use h
  obtain ⟨A, hexec, hR⟩ := ticket_simulates hcard hsound
  have hlen : A.queue.length < 2 ^ 32 := Nat.lt_of_le_of_lt hR.nodup.length_le_card hcard
  have hdist := hR.dist_eq hlen
  refine ⟨?_, fun t ht => ?_, fun v hv => ?_, fun t ht => ?_, fun t u ht hu => ?_, ?_, ?_⟩
  · -- the engaged threads are those in the queue of the abstract lock
    have hset : (Finset.univ.filter fun t => ticketEngaged s t) = A.queue.toFinset := by
      ext t; simp [hR.mem_queue t]
    rw [hdist, hset, List.toFinset_card_of_nodup hR.nodup]
  · rw [hdist]
    exact hR.numbered.dist_lt (Nat.le_of_lt hlen) ((hR.mem_queue t).mpr ht)
  · rw [hdist] at hv
    simpa only [hR.mem_queue] using hR.numbered.existsUnique (Nat.le_of_lt hlen) hv
  · -- the holder is the first of the queue, so its number is `now`
    obtain ⟨q, hq⟩ := List.head?_eq_some_iff.mp (hR.head_of_holds ht)
    have hnum := hR.numbered
    rw [hq] at hnum
    exact hnum.1
  · have := hR.head_of_holds ht
    rw [hR.head_of_holds hu, Option.some.injEq] at this
    exact this.symm
  · intro t v s' hpc hs htold htold'
    simp only [TicketState.step, TicketState.runStep, hpc] at hs
    split at hs <;> rename_i hv <;> simp only [Option.some.injEq] at hs <;> subst hs
    · -- the exchange of trylock has found `next` equal to `now`: the queue is empty
      have hA := hR.eq_empty hlen (hv.1.trans hv.2.symm)
      refine ⟨hv.1.trans hv.2.symm, fun u hu => ?_⟩
      have := (hR.mem_queue u).mpr hu
      rw [hA] at this
      simp [Fifo.empty] at this
    · -- the trylock failed: only `ticket_trylock_tm` would tell its caller otherwise
      cases tm with
      | false => simp [TicketState.goto, TicketState.tell, htold] at htold'
      | true => simpa [hpc, inTrylock] using hnotry rfl t
  · refine ⟨A.waiting, Fifo.exec_arrivals hexec, ?_, fun t => ((hR.thread t).waiting).symm⟩
    cases hi : A.inside with
    | false => simpa [Fifo.waiting, hi] using hR.nodup
    | true => simpa [Fifo.waiting, hi] using hR.nodup.sublist (List.tail_sublist _)

/-- Two threads and counters about to wrap around. Thread 0 takes ticket 2^32 - 1, thread 1
    ticket 0, for which it speculates and aborts; after the unlock it holds the lock. -/
theorem ticket_correct_wrapping :
    ∃ tr s, @TicketLaw (Fin 2) _ _ {} true tr s ∧ s.next = 1 ∧ s.now = 0 ∧ s.told 1 = true ∧
      (∃ p ∈ tr, p.1.pc 1 = .spec 0 ∧ p.2 = .htmAbort 1) := by
  let s₀ : TicketState (Fin 2) :=
    ⟨0xffffffff, 0xffffffff, fun _ => .out, fun _ => 0, fun _ => false, fun _ => false⟩
  let as : List (TicketAct (Fin 2)) :=
    [.lock 0, .run 0, .lock 1, .run 1, .run 1, .htmStart 1, .run 1, .htmAbort 1, .unlock 0, .run 0,
      .run 0, .run 1]
  have hs : ((ticket (Fin 2) {} true).exec s₀ as).map (fun s => (s.next, s.now, s.told 1)) =
      some (1, 0, true) := by decide
  obtain ⟨s, hexec, hend⟩ := Option.map_eq_some_iff.mp hs
  simp only [Prod.mk.injEq] at hend
  have hinit : (ticket (Fin 2) {} true).init s₀ := ⟨rfl, fun _ => rfl, fun _ => rfl, fun _ => rfl⟩
  have hrun := ((System.Run.init hinit).exec hexec).of_forall_mem (C := TicketUse true) (by decide)
  have habort : ∃ p ∈ (ticket (Fin 2) {} true).execTrace s₀ as,
      p.1.pc 1 = .spec 0 ∧ p.2 = .htmAbort 1 := by decide
  exact ⟨_, s, ticket_correct (by simp) {} true _ _ hrun, hend.1, hend.2.1, hend.2.2, habort⟩

end TxLock.Spec
