import Mathlib.Data.Fintype.Card
import TxLock.ForStd.Fifo
import TxLock.ForStd.Numbered
import TxLock.Native.Ticket

/-!
# Ticket locks simulate the first-come first-served lock

`TicketRel A s` relates a state of a ticket lock to the abstract queue `A`: the
members of the queue hold the consecutive tickets from `now` on, `next` is the
ticket after them, waiting threads are those that wait in `A` and the thread that
holds the lock is the one that is in. Threads that speculate are waiting threads:
they keep their ticket and their place.

The relation is kept by every step as long as there are fewer threads than ticket
values (`TicketRel.step`), wherever the counters stand.
-/

namespace TxLock.Spec

open Native

/-- Owes a ticket and has not been served: spinning, or in a transaction. -/
def TicketPc.isWaiting : TicketPc → Bool
  | .spin _ | .dist _ | .enterHtm _ | .check _ | .spec _ => true
  | .out | .tryRead | .tryCas _ | .unlockRead | .unlockWrite _ => false

/-- In `ticket_unlock`, before `now` is written. -/
def TicketPc.isReleasing : TicketPc → Bool
  | .unlockRead | .unlockWrite _ => true
  | .out | .spin _ | .dist _ | .enterHtm _ | .check _ | .spec _ | .tryRead | .tryCas _ => false

/-- Outside the lock's code or in a trylock. -/
def TicketPc.isIdle : TicketPc → Bool
  | .out | .tryRead | .tryCas _ => true
  | .spin _ | .dist _ | .enterHtm _ | .check _ | .spec _ | .unlockRead | .unlockWrite _ => false

/-- Between the store to `spec_entry` and the end of the transaction. -/
def TicketPc.inHtm : TicketPc → Bool
  | .enterHtm _ | .check _ | .spec _ => true
  | .out | .spin _ | .dist _ | .tryRead | .tryCas _ | .unlockRead | .unlockWrite _ => false

variable {Tid : Type}

/-- What a step does to the lock as its callers see it: take a ticket, enter the
    critical section, give the lock up. -/
def ticketActs (tm : Bool) (s : TicketState Tid) : TicketAct Tid → List (FifoAct Tid)
  | .lock t => if s.pc t = .out ∧ ¬ (tm ∧ s.specEntry t) then [.arrive t] else []
  | .run t =>
    match s.pc t with
    | .spin _ => if s.myTicket t = s.now then [.enter t] else []
    | .tryCas v => if s.next = v ∧ s.now = v then [.arrive t, .enter t] else []
    | .unlockWrite _ => [.leave t]
    | _ => []
  | _ => []

/-- The place of one thread, with the caller's record and `spec_entry`, agrees with
    the abstract lock. -/
structure TicketThreadOk (A : Fifo Tid) (now : Word) (t : Tid) (pc : TicketPc)
    (told spec : Bool) : Prop where
  waiting : TicketPc.isWaiting pc = true ↔ t ∈ A.waiting
  holds : told = true ∨ TicketPc.isReleasing pc = true ↔ A.holder = some t
  idle : told = true → TicketPc.isIdle pc = true
  spec : spec = TicketPc.inHtm pc
  write : ∀ v, pc = .unlockWrite v → v = now

/-- The relation between a ticket lock and the abstract lock. -/
structure TicketRel (A : Fifo Tid) (s : TicketState Tid) : Prop where
  nodup : A.queue.Nodup
  inside : A.Valid
  numbered : Numbered s.myTicket s.now A.queue
  next : s.next = s.now + BitVec.ofNat 32 A.queue.length
  thread : ∀ t, TicketThreadOk A s.now t (s.pc t) (s.told t) (s.specEntry t)

/-- The last step of `ticket_trylock_tm` is truthful when its compare-and-swap finds
    the lock free: the result it drops is 0 then. -/
def TicketTrySound (tm : Bool) (s : TicketState Tid) : TicketAct Tid → Prop
  | .run t => tm = true → ∀ v, s.pc t = .tryCas v → s.next = v ∧ s.now = v
  | _ => True

namespace TicketRel

variable {A : Fifo Tid} {s s' : TicketState Tid}

/-- The threads engaged with the lock are the members of the queue. -/
theorem mem_iff (h : TicketRel A s) (t : Tid) :
    t ∈ A.queue ↔ TicketPc.isWaiting (s.pc t) = true ∨ s.told t = true ∨
      TicketPc.isReleasing (s.pc t) = true := by
  rw [h.inside.mem_queue_iff, (h.thread t).waiting, (h.thread t).holds]

/-- The waiting thread whose ticket is `now` is the first of the queue, and nobody is in. -/
theorem head_of_ticket (h : TicketRel A s) (hlen : A.queue.length < 2 ^ 32) {t : Tid}
    (hw : TicketPc.isWaiting (s.pc t) = true) (hv : s.myTicket t = s.now) :
    A.queue.head? = some t ∧ A.inside = false := by
  have hmem : t ∈ A.queue := (h.mem_iff t).mpr (.inl hw)
  have hhead := h.numbered.head?_of_eq (Nat.le_of_lt hlen) hmem hv
  refine ⟨hhead, ?_⟩
  cases hi : A.inside with
  | false => rfl
  | true =>
    have hhold : A.holder = some t := by simp [Fifo.holder, hi, hhead]
    exact absurd ((h.thread t).waiting.mp hw) (Fifo.holder_not_waiting h.nodup hhold)

/-- Equal counters mean that nobody is engaged with the lock. -/
theorem eq_empty (h : TicketRel A s) (hlen : A.queue.length < 2 ^ 32) (hv : s.next = s.now) :
    A = Fifo.empty := by
  have hzero : A.queue.length = 0 := by
    have := toNat_add_ofNat_sub s.now hlen
    rw [← h.next, hv, BitVec.sub_self] at this
    simpa using this.symm
  have hq : A.queue = [] := List.length_eq_zero_iff.mp hzero
  have hi : A.inside = false := by
    cases hi : A.inside with
    | false => rfl
    | true => exact absurd hq (h.inside hi)
  cases A
  simp_all [Fifo.empty]

/-! ## Steps -/

/-- A step that moves one thread and leaves the counters and the queue alone. -/
private theorem move (h : TicketRel A s) {t : Tid}
    (hnext : s'.next = s.next) (hnow : s'.now = s.now) (hmy : s'.myTicket = s.myTicket)
    (hu : ∀ u, u ≠ t → s'.pc u = s.pc u ∧ s'.told u = s.told u ∧ s'.specEntry u = s.specEntry u)
    (ht : TicketThreadOk A s.now t (s'.pc t) (s'.told t) (s'.specEntry t)) :
    TicketRel A s' := by
  refine ⟨h.nodup, h.inside, by rw [hmy, hnow]; exact h.numbered, by rw [hnext, hnow, h.next],
    fun u => ?_⟩
  rw [hnow]
  by_cases hut : u = t
  · rw [hut]; exact ht
  · rw [(hu u hut).1, (hu u hut).2.1, (hu u hut).2.2]; exact h.thread u

/-- A thread other than the one that moves keeps its place when the abstract lock
    changes, as long as it is not about to write `now`. -/
private theorem threadOk_of_ne (h : TicketRel A s) (A' : Fifo Tid) (now : Word) {u : Tid}
    (hw : u ∈ A'.waiting ↔ u ∈ A.waiting) (hh : A'.holder = some u ↔ A.holder = some u)
    (hnow : A.holder = some u → now = s.now) :
    TicketThreadOk A' now u (s.pc u) (s.told u) (s.specEntry u) where
  waiting := (h.thread u).waiting.trans hw.symm
  holds := (h.thread u).holds.trans hh.symm
  idle := (h.thread u).idle
  spec := (h.thread u).spec
  write v hv := by
    have hhold : A.holder = some u := (h.thread u).holds.mp (.inr (by rw [hv]; rfl))
    rw [hnow hhold]
    exact (h.thread u).write v hv

variable [DecidableEq Tid]

/-- Taking the next ticket puts a thread at the end of the queue. -/
private theorem lock (h : TicketRel A s) {t : Tid} (hpc : s.pc t = .out)
    (htold : s.told t = false) (hspec : s.specEntry t = false) :
    (fifo Tid).exec A [.arrive t] = some ⟨A.queue ++ [t], A.inside⟩ ∧
      TicketRel ⟨A.queue ++ [t], A.inside⟩ ((s.take t s.next).goto t (.spin 0)) := by
  -- a thread outside the code without the lock is not in the queue
  have ht : t ∉ A.queue := by
    rw [h.mem_iff t, hpc, htold]; simp [TicketPc.isWaiting, TicketPc.isReleasing]
  obtain ⟨hwait, hhold⟩ := h.inside.arrive t
  refine ⟨by simp [System.exec, fifo, Fifo.step, ht], ⟨?_, fun _ => by simp, ?_, ?_, fun u => ?_⟩⟩
  · exact List.nodup_append.mpr ⟨h.nodup, List.nodup_singleton t, by
      intro a ha b hb hab
      rw [List.mem_singleton.mp hb] at hab
      exact ht (hab ▸ ha)⟩
  · refine numbered_concat.mpr ⟨h.numbered.congr fun u hu => ?_, ?_⟩
    · have hut : u ≠ t := fun e => ht (e ▸ hu)
      simp [TicketState.take, TicketState.goto, hut]
    · simp [TicketState.take, TicketState.goto, h.next]
  · show s.next + 1 = s.now + BitVec.ofNat 32 (A.queue ++ [t]).length
    rw [h.next, List.length_append, List.length_singleton, BitVec.ofNat_add, BitVec.add_assoc]
    rfl
  · by_cases hu : u = t
    · subst hu
      have hnh : A.holder ≠ some u := fun e => ht ((h.inside.mem_queue_iff u).mpr (.inr e))
      constructor <;> simp [TicketState.take, TicketState.goto, hwait, hhold, htold, hspec, hnh,
        TicketPc.isWaiting, TicketPc.isReleasing, TicketPc.inHtm]
    · have := h.threadOk_of_ne ⟨A.queue ++ [t], A.inside⟩ s.now (u := u)
        (by rw [hwait]; simp [hu]) (by rw [hhold]) fun _ => rfl
      simpa [TicketState.take, TicketState.goto, hu] using this

/-- The waiting thread whose ticket is served enters. -/
private theorem enter (h : TicketRel A s) (hlen : A.queue.length < 2 ^ 32) {t : Tid}
    {tries : Word} (hpc : s.pc t = .spin tries) (hv : s.myTicket t = s.now) :
    (fifo Tid).exec A [.enter t] = some { A with inside := true } ∧
      TicketRel { A with inside := true } ((s.goto t .out).tell t true) := by
  obtain ⟨hhead, hin⟩ := h.head_of_ticket hlen (by rw [hpc]; rfl) hv
  obtain ⟨q, hq⟩ := List.head?_eq_some_iff.mp hhead
  have hn := h.nodup
  rw [hq] at hn
  have htq : t ∉ q := (List.nodup_cons.mp hn).1
  have hspec := (h.thread t).spec
  rw [hpc] at hspec
  refine ⟨by simp [System.exec, fifo, Fifo.step, hhead, hin],
    ⟨h.nodup, fun _ => by simp [hq], h.numbered, h.next, fun u => ?_⟩⟩
  by_cases hu : u = t
  · subst hu
    constructor <;> simp [TicketState.tell, TicketState.goto, Fifo.waiting, Fifo.holder, hq, htq,
      hspec, TicketPc.isWaiting, TicketPc.isReleasing, TicketPc.isIdle, TicketPc.inHtm]
  · have := h.threadOk_of_ne { A with inside := true } s.now (u := u)
      (by simp [Fifo.waiting, hin, hq, hu]) (by simp [Fifo.holder, hin, hq, Ne.symm hu])
      fun _ => rfl
    simpa [TicketState.tell, TicketState.goto, hu] using this

/-- A trylock whose compare-and-swap finds both counters at the value it read finds
    the lock free and takes it. -/
private theorem trylock (h : TicketRel A s) (hlen : A.queue.length < 2 ^ 32) {t : Tid}
    {v : Word} (hpc : s.pc t = .tryCas v) (hnext : s.next = v) (hnow : s.now = v) :
    (fifo Tid).exec A [.arrive t, .enter t] = some ⟨[t], true⟩ ∧
      TicketRel ⟨[t], true⟩ (((s.take t v).goto t .out).tell t true) := by
  obtain rfl := h.eq_empty hlen (hnext.trans hnow.symm)
  have hspec := (h.thread t).spec
  rw [hpc] at hspec
  refine ⟨by simp [System.exec, fifo, Fifo.step, Fifo.empty],
    ⟨by simp, fun _ => by simp, ?_, ?_, fun u => ?_⟩⟩
  · simp [TicketState.take, TicketState.goto, TicketState.tell, hnow]
  · simp [TicketState.take, TicketState.goto, TicketState.tell, hnow]
  by_cases hu : u = t
  · subst hu
    constructor <;> simp [TicketState.tell, TicketState.goto, TicketState.take, Fifo.waiting,
      Fifo.holder, hspec, TicketPc.isWaiting, TicketPc.isReleasing, TicketPc.isIdle,
      TicketPc.inHtm]
  · have := h.threadOk_of_ne ⟨[t], true⟩ s.now (u := u) (by simp [Fifo.waiting, Fifo.empty])
      (by simp [Fifo.holder, Fifo.empty, Ne.symm hu]) fun _ => rfl
    simpa [TicketState.tell, TicketState.goto, TicketState.take, hu] using this

/-- Writing `now + 1` gives the lock to the next of the queue. -/
private theorem unlock (h : TicketRel A s) {t : Tid} {v : Word}
    (hpc : s.pc t = .unlockWrite v) :
    (fifo Tid).exec A [.leave t] = some ⟨A.queue.tail, false⟩ ∧
      TicketRel ⟨A.queue.tail, false⟩ ({ s with now := v + 1 }.goto t .out) := by
  have hok := h.thread t
  rw [hpc] at hok
  obtain rfl : v = s.now := hok.write v rfl
  -- the thread is the holder, so it is the head of the queue
  have hhold : A.holder = some t := hok.holds.mp (.inr rfl)
  have htold : s.told t = false := by
    cases ht : s.told t with
    | false => rfl
    | true => exact absurd (hok.idle ht) (by simp [TicketPc.isIdle])
  have hspec : s.specEntry t = false := hok.spec
  simp only [Fifo.holder, Option.ite_none_right_eq_some] at hhold
  obtain ⟨hin, hhead⟩ := hhold
  obtain ⟨q, hq⟩ := List.head?_eq_some_iff.mp hhead
  have hn := h.nodup
  have hnum := h.numbered
  have hnext := h.next
  rw [hq] at hn hnum hnext
  have htq : t ∉ q := (List.nodup_cons.mp hn).1
  refine ⟨by simp [System.exec, fifo, Fifo.step, hhead, hin],
    ⟨?_, fun _ => by simp_all, ?_, ?_, fun u => ?_⟩⟩
  · rw [hq]; exact (List.nodup_cons.mp hn).2
  · -- the others move up: their numbers count from `now + 1`
    rw [hq]; exact hnum.2
  · rw [hq]
    show s.next = s.now + 1 + BitVec.ofNat 32 q.length
    rw [hnext, List.length_cons, Nat.add_comm, BitVec.ofNat_add, ← BitVec.add_assoc]
    rfl
  by_cases hu : u = t
  · subst hu
    constructor <;> simp [TicketState.goto, Fifo.waiting, Fifo.holder, hq, htq, htold, hspec,
      TicketPc.isWaiting, TicketPc.isReleasing, TicketPc.inHtm]
  · have := h.threadOk_of_ne ⟨A.queue.tail, false⟩ (s.now + 1) (u := u)
      (by simp [Fifo.waiting, hin]) (by simp [Fifo.holder, hin, hq, Ne.symm hu])
      fun e => by simp [Fifo.holder, hin, hq, Ne.symm hu] at e
    simpa [TicketState.goto, hu] using this

/-- A step that only moves its thread, within waiting, releasing or neither. -/
private theorem quiet (h : TicketRel A s) {t : Tid} (pc : TicketPc)
    (hw : TicketPc.isWaiting pc = TicketPc.isWaiting (s.pc t))
    (hr : TicketPc.isReleasing pc = TicketPc.isReleasing (s.pc t))
    (hi : TicketPc.isIdle pc = TicketPc.isIdle (s.pc t))
    (hwrite : ∀ v, pc = .unlockWrite v → v = s.now) :
    TicketRel A ((s.goto t pc).setSpec t (TicketPc.inHtm pc)) := by
  refine h.move (t := t) rfl rfl rfl
    (fun u hu => by simp [TicketState.goto, TicketState.setSpec, hu]) ?_
  have hok := h.thread t
  simp only [TicketState.goto, TicketState.setSpec, Function.update_self]
  exact ⟨hw ▸ hok.waiting, hr ▸ hok.holds, hi ▸ hok.idle, rfl, hwrite⟩

/-- `spec_entry` need not be written when the thread stays in or out of a transaction. -/
private theorem setSpec_goto (h : TicketRel A s) {t : Tid} {pc : TicketPc}
    (hpc : TicketPc.inHtm pc = TicketPc.inHtm (s.pc t)) :
    (s.goto t pc).setSpec t (TicketPc.inHtm pc) = s.goto t pc := by
  have : s.specEntry t = TicketPc.inHtm pc := (h.thread t).spec.trans hpc.symm
  simp [TicketState.goto, TicketState.setSpec, ← this]

/-- A step inside the lock's code is answered by the abstract lock. -/
private theorem runStep {cfg : TmParams} {tm : Bool} (h : TicketRel A s)
    (hlen : A.queue.length < 2 ^ 32) {t : Tid} (hc : TicketTrySound tm s (.run t))
    (hs : s.runStep cfg tm t = some s') :
    ∃ A', (fifo Tid).exec A (ticketActs tm s (.run t)) = some A' ∧ TicketRel A' s' := by
  have hq := fun pc => h.quiet (t := t) pc
  have hg : ∀ pc, TicketPc.inHtm pc = TicketPc.inHtm (s.pc t) →
      (s.goto t pc).setSpec t (TicketPc.inHtm pc) = s.goto t pc := fun _ => h.setSpec_goto
  cases hpc : s.pc t with
  | out | enterHtm _ | spec _ => simp [TicketState.runStep, hpc] at hs
  | spin tries =>
    simp only [TicketState.runStep, hpc, ne_eq, ite_not] at hs
    split at hs <;> rename_i hv <;> simp only [Option.some.injEq] at hs <;> subst hs
    · obtain ⟨he, hr⟩ := h.enter hlen hpc hv
      exact ⟨_, by simpa [ticketActs, hpc, hv] using he, hr⟩
    · refine ⟨A, by simp [ticketActs, hpc, hv, System.exec], ?_⟩
      rw [← hg _ (by rw [hpc]; rfl)]
      exact hq _ (by rw [hpc]; rfl) (by rw [hpc]; rfl) (by rw [hpc]; rfl) (by simp)
  | dist tries =>
    simp only [TicketState.runStep, hpc] at hs
    refine ⟨A, by simp [ticketActs, hpc, System.exec], ?_⟩
    split at hs <;> simp only [Option.some.injEq] at hs <;> subst hs
    · exact hq (.enterHtm tries) (by rw [hpc]; rfl) (by rw [hpc]; rfl) (by rw [hpc]; rfl) (by simp)
    · rw [← hg _ (by rw [hpc]; rfl)]
      exact hq _ (by rw [hpc]; rfl) (by rw [hpc]; rfl) (by rw [hpc]; rfl) (by simp)
  | check tries =>
    simp only [TicketState.runStep, hpc] at hs
    refine ⟨A, by simp [ticketActs, hpc, System.exec], ?_⟩
    split at hs <;> simp only [Option.some.injEq] at hs <;> subst hs
    · exact hq (.spin _) (by rw [hpc]; rfl) (by rw [hpc]; rfl) (by rw [hpc]; rfl) (by simp)
    · rw [← hg _ (by rw [hpc]; rfl)]
      exact hq _ (by rw [hpc]; rfl) (by rw [hpc]; rfl) (by rw [hpc]; rfl) (by simp)
  | tryRead | unlockRead =>
    simp only [TicketState.runStep, hpc, Option.some.injEq] at hs
    subst hs
    refine ⟨A, by simp [ticketActs, hpc, System.exec], ?_⟩
    rw [← hg _ (by rw [hpc]; rfl)]
    exact hq _ (by rw [hpc]; rfl) (by rw [hpc]; rfl) (by rw [hpc]; rfl) (by simp)
  | tryCas v =>
    simp only [TicketState.runStep, hpc] at hs
    split at hs <;> rename_i hv <;> simp only [Option.some.injEq] at hs <;> subst hs
    · obtain ⟨he, hr⟩ := h.trylock hlen hpc hv.1 hv.2
      exact ⟨_, by simpa [ticketActs, hpc, hv] using he, hr⟩
    · -- the swap fails only in `ticket`, whose caller is told nothing
      have htm : tm = false := by
        cases tm with
        | false => rfl
        | true => exact absurd (hc rfl v hpc) hv
      refine ⟨A, by simp [ticketActs, hpc, hv, System.exec], ?_⟩
      have htell : (s.goto t .out).tell t (s.told t || tm) = s.goto t .out := by
        simp [TicketState.goto, TicketState.tell, htm]
      rw [htell, ← hg _ (by rw [hpc]; rfl)]
      exact hq _ (by rw [hpc]; rfl) (by rw [hpc]; rfl) (by rw [hpc]; rfl) (by simp)
  | unlockWrite v =>
    simp only [TicketState.runStep, hpc, Option.some.injEq] at hs
    subst hs
    obtain ⟨he, hr⟩ := h.unlock hpc
    exact ⟨_, by simpa [ticketActs, hpc] using he, hr⟩

/-- Every step of a ticket lock is answered by the abstract lock. -/
theorem step {cfg : TmParams} {tm : Bool} (h : TicketRel A s) (hlen : A.queue.length < 2 ^ 32)
    {a : TicketAct Tid} (hc : TicketTrySound tm s a) (hs : s.step cfg tm a = some s') :
    ∃ A', (fifo Tid).exec A (ticketActs tm s a) = some A' ∧ TicketRel A' s' := by
  cases a with
  | run t => exact h.runStep hlen hc hs
  | lock t =>
    have hspec := (h.thread t).spec
    cases hpc : s.pc t <;> simp only [TicketState.step, hpc, reduceCtorEq] at hs
    case spec tries =>
      simp only [Option.ite_none_right_eq_some, Option.some.injEq] at hs
      exact ⟨A, by simp [ticketActs, hpc, System.exec], hs.2 ▸ h⟩
    case out =>
      rw [hpc] at hspec
      rw [show s.specEntry t = false from hspec] at hs
      simp only [Bool.false_eq_true, and_false, ↓reduceIte, Option.ite_none_left_eq_some,
        Option.some.injEq, Bool.not_eq_true] at hs
      obtain ⟨he, hr⟩ := h.lock hpc hs.1 hspec
      exact ⟨_, by simpa [ticketActs, hpc, show s.specEntry t = false from hspec] using he,
        hs.2 ▸ hr⟩
  | trylock t =>
    have hspec := (h.thread t).spec
    refine ⟨A, rfl, ?_⟩
    cases hpc : s.pc t <;> simp only [TicketState.step, hpc, reduceCtorEq] at hs
    case spec tries =>
      simp only [Option.ite_none_right_eq_some, Option.some.injEq] at hs
      exact hs.2 ▸ h
    case out =>
      rw [hpc] at hspec
      rw [show s.specEntry t = false from hspec] at hs
      simp only [Bool.false_eq_true, and_false, ↓reduceIte, Option.some.injEq] at hs
      rw [← hs, ← h.setSpec_goto (by rw [hpc]; rfl)]
      exact h.quiet _ (by rw [hpc]; rfl) (by rw [hpc]; rfl) (by rw [hpc]; rfl) (by simp)
  | unlock t =>
    have hok := h.thread t
    refine ⟨A, rfl, ?_⟩
    cases hpc : s.pc t <;> simp only [TicketState.step, hpc, reduceCtorEq] at hs
    case spec tries =>
      simp only [Option.ite_none_right_eq_some, Option.some.injEq] at hs
      exact hs.2 ▸ h
    case out =>
      rw [hpc] at hok
      rw [show s.specEntry t = false from hok.spec] at hs
      simp only [Bool.false_eq_true, and_false, ↓reduceIte, Option.ite_none_left_eq_some,
        Option.some.injEq, Decidable.not_not] at hs
      obtain ⟨htold, rfl⟩ := hs
      -- the holder starts to release: it still is the one that is in
      refine h.move (t := t) rfl rfl rfl
        (fun u hu => by simp [TicketState.goto, TicketState.tell, hu]) ?_
      have hhold := hok.holds.mp (.inl htold)
      have hwait : t ∉ A.waiting := Fifo.holder_not_waiting h.nodup hhold
      constructor <;> simp [TicketState.goto, TicketState.tell, hhold, hwait, hok.spec,
        TicketPc.isWaiting, TicketPc.isReleasing, TicketPc.inHtm]
  | htmStart t =>
    refine ⟨A, rfl, ?_⟩
    cases hpc : s.pc t <;> simp only [TicketState.step, hpc, reduceCtorEq, Option.some.injEq] at hs
    case enterHtm tries =>
      rw [← hs, ← h.setSpec_goto (by rw [hpc]; rfl)]
      exact h.quiet _ (by rw [hpc]; rfl) (by rw [hpc]; rfl) (by rw [hpc]; rfl) (by simp)
  | htmAbort t =>
    refine ⟨A, rfl, ?_⟩
    -- an aborted waiter resumes waiting, with its ticket and its place
    cases hpc : s.pc t <;> simp only [TicketState.step, hpc, reduceCtorEq, Option.some.injEq] at hs
    all_goals
      subst hs
      exact h.quiet (.spin _) (by rw [hpc]; rfl) (by rw [hpc]; rfl) (by rw [hpc]; rfl) (by simp)

/-- Nobody is engaged with the lock at the start. -/
theorem init {cfg : TmParams} {tm : Bool} (hi : (ticket Tid cfg tm).init s) :
    TicketRel Fifo.empty s := by
  obtain ⟨hnow, hpc, hspec, htold⟩ := hi
  refine ⟨List.nodup_nil, fun h => by simp [Fifo.empty] at h, trivial, ?_, fun t => ?_⟩
  · simp [Fifo.empty, hnow]
  · rw [hpc, htold, hspec]
    constructor <;> simp [Fifo.waiting, Fifo.holder, Fifo.empty, TicketPc.isWaiting,
      TicketPc.isReleasing, TicketPc.inHtm]

end TicketRel

/-- A ticket lock whose trylocks are truthful simulates the first-come first-served
    lock, as long as it has fewer threads than ticket values. -/
theorem ticket_simulates [DecidableEq Tid] [Fintype Tid] {cfg : TmParams} {tm : Bool}
    (hcard : Fintype.card Tid < 2 ^ 32) {tr : List (TicketState Tid × TicketAct Tid)}
    {s : TicketState Tid} (h : (ticket Tid cfg tm).Run (TicketTrySound tm) tr s) :
    ∃ A, (fifo Tid).exec Fifo.empty (System.events (ticketActs tm) tr) = some A ∧
      TicketRel A s := by
  exact h.simulates (R := TicketRel) (fun s => TicketRel.init) fun A s a s' hR hc hs =>
    hR.step (Nat.lt_of_le_of_lt hR.nodup.length_le_card hcard) hc hs

end TxLock.Spec
