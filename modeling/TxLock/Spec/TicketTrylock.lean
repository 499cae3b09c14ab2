import TxLock.ForStd.TryLock
import TxLock.Spec.TicketCorrect

/-!
# Trylock of the ticket locks

`ticket_trylock` swaps both counters at once and succeeds only when nobody holds the lock
or waits for it. `ticket_trylock_tm` makes the same swap but drops its result, so it tells
the truth only when the swap succeeds (`TicketTrySound`).

## Key results

- `ticket_trylockRep`: the trylock is truthful as long as no swap of `ticket_trylock_tm`
  fails and fewer threads than ticket values are at the lock
-/

namespace TxLock.Spec

open Native

variable {Tid : Type}

/-- The thread that takes a step. -/
def TicketAct.tid : TicketAct Tid → Tid
  | .lock t | .trylock t | .unlock t | .run t | .htmStart t | .htmAbort t => t

/-- The trylock a thread is in, with the steps it takes before its last one. -/
def TicketPc.trying : TicketPc → Option (Unit × Nat)
  | .tryRead => some ((), 1)
  | .tryCas _ => some ((), 0)
  | .out | .spin _ | .dist _ | .enterHtm _ | .check _ | .spec _ | .unlockRead
  | .unlockWrite _ => none

/-- What the place of a thread and the caller's record say about it. -/
def TicketPc.view (pc : TicketPc) (told : Bool) : TryView Unit where
  holds _ := told = true ∨ TicketPc.isReleasing pc = true
  told _ := told = true
  trying := TicketPc.trying pc
  sure := False

/-- What a step is to the callers of the lock. -/
def TicketState.events (tm : Bool) (s : TicketState Tid) :
    TicketAct Tid → List (Unit × LockEvent)
  | .trylock t =>
    if s.pc t = .out ∧ ¬ (tm ∧ s.specEntry t) then [((), .tryCall)] else []
  | .unlock t =>
    if s.pc t = .out ∧ ¬ (tm ∧ s.specEntry t) then [((), .unlockCall)] else []
  | .run t =>
    match s.pc t with
    | .spin _ => if s.myTicket t ≠ s.now then [] else [((), .take), ((), .answer 0)]
    | .tryCas v =>
      if s.next = v ∧ s.now = v then [((), .take), ((), .answer 0)]
      else [((), .answer (if tm then 0 else 1))]
    | .unlockWrite _ => [((), .give)]
    | .out | .dist _ | .enterHtm _ | .check _ | .spec _ | .tryRead | .unlockRead => []
  | .lock _ | .htmStart _ | .htmAbort _ => []

/-- `ticket` and `ticket_tm` as their callers see them. -/
def ticketView (Tid : Type) [DecidableEq Tid] (cfg : TmParams) (tm : Bool) : LockView Tid where
  State := TicketState Tid
  Act := TicketAct Tid
  Lock := Unit
  Words := Word × Word
  Own := Unit
  sys := ticket Tid cfg tm
  actor := TicketAct.tid
  run := .run
  events := TicketState.events tm
  words s _ := (s.next, s.now)
  own _ _ := ()

/-- Fewer threads than ticket values hold the lock or wait for it. -/
def TicketFits (s : TicketState Tid) : Prop :=
  ∀ l : List Tid, l.Nodup → (∀ t ∈ l, ticketEngaged s t = true) → l.length < 2 ^ 32

/-- The swap of a `ticket_trylock_tm` succeeds, and the tickets are enough. -/
def TicketTruthful (tm : Bool) (s : TicketState Tid) (a : TicketAct Tid) : Prop :=
  TicketTrySound tm s a ∧ TicketFits s

instance (tm : Bool) (s : TicketState Tid) (a : TicketAct Tid) :
    Decidable (TicketTrySound tm s a) :=
  match a with
  | .run t =>
    match hpc : s.pc t with
    | .tryCas v =>
      decidable_of_iff (tm = true → s.next = v ∧ s.now = v) (by simp [TicketTrySound, hpc])
    | .out | .spin _ | .dist _ | .enterHtm _ | .check _ | .spec _ | .tryRead | .unlockRead
    | .unlockWrite _ => isTrue (by simp [TicketTrySound, hpc])
  | .lock _ | .trylock _ | .unlock _ | .htmStart _ | .htmAbort _ => isTrue trivial

theorem TicketFits.of_card [Fintype Tid] (hcard : Fintype.card Tid < 2 ^ 32)
    (s : TicketState Tid) : TicketFits s := fun _ hl _ =>
  Nat.lt_of_le_of_lt hl.length_le_card hcard

theorem TicketRel.length_lt {A : Fifo Tid} {s : TicketState Tid} (h : TicketRel A s)
    (hfits : TicketFits s) : A.queue.length < 2 ^ 32 :=
  hfits A.queue h.nodup fun t ht => (h.mem_queue t).mp ht

/-- The word of a free lock tells that no thread holds it. -/
theorem TicketRel.not_holds {A : Fifo Tid} {s : TicketState Tid} (h : TicketRel A s)
    (hlen : A.queue.length < 2 ^ 32) (hv : s.next = s.now) (t : Tid) :
    ¬ (s.told t = true ∨ TicketPc.isReleasing (s.pc t) = true) := by
  intro ht
  have hholder := (h.thread t).holds.mp ht
  rw [h.eq_empty hlen hv] at hholder
  simp [Fifo.holder, Fifo.empty] at hholder

/-- A step that moves a thread which is not in a trylock. -/
theorem TicketPc.lockStep {kept : Prop} {pc pc' : TicketPc} {told : Bool}
    (hr : TicketPc.isReleasing pc' = TicketPc.isReleasing pc)
    (hx : TicketPc.trying pc = none) (hx' : TicketPc.trying pc' = none) :
    LockStep 1 kept (TicketPc.view pc told) (TicketPc.view pc' told) [] :=
  .quiet (fun _ => by simp [TicketPc.view, hr]) (fun _ => Iff.rfl) hx hx'

section Step

variable [DecidableEq Tid] {cfg : TmParams} {tm : Bool} {s s' : TicketState Tid}
  {a : TicketAct Tid} {t u : Tid}

/-- A step leaves the other threads alone. -/
theorem TicketState.frame (hs : s.step cfg tm a = some s') (hu : u ≠ TicketAct.tid a) :
    s'.pc u = s.pc u ∧ s'.told u = s.told u := by
  cases a with
  | lock t | unlock t | htmStart t | htmAbort t | trylock t | run t =>
    have hut : u ≠ t := hu
    cases hpc : s.pc t <;>
      simp only [TicketState.step, TicketState.runStep, hpc, reduceCtorEq] at hs <;>
      (repeat' split at hs) <;> simp only [Option.some.injEq, reduceCtorEq] at hs <;>
      subst hs <;>
      simp [TicketState.goto, TicketState.tell, TicketState.setSpec, TicketState.take, hut]

/-- The next step of the code thread `t` is in. -/
theorem TicketRel.lockStep_run {A : Fifo Tid} (h : TicketRel A s) (hlen : A.queue.length < 2 ^ 32)
    (hc : TicketTrySound tm s (.run t)) (hs : s.runStep cfg tm t = some s') :
    LockStep 1 (s'.next = s.next ∧ s'.now = s.now) (TicketPc.view (s.pc t) (s.told t))
      (TicketPc.view (s'.pc t) (s'.told t)) (TicketState.events tm s (.run t)) := by
  unfold TicketState.runStep at hs
  unfold TicketState.events
  cases hpc : s.pc t with
  | out | enterHtm _ | spec _ => simp [hpc] at hs
  | spin tries =>
    simp only [hpc] at hs ⊢
    split at hs <;> rename_i hv <;> simp only [Option.some.injEq] at hs <;> subst hs
    · simp only [if_pos hv, TicketState.goto, Function.update_self]
      exact TicketPc.lockStep rfl rfl rfl
    · simp only [if_neg hv, TicketState.goto, TicketState.tell, Function.update_self]
      have hno : s.told t = false := by
        cases htold : s.told t with
        | false => rfl
        | true =>
          have hidle := (h.thread t).idle htold
          simp [hpc, TicketPc.isIdle] at hidle
      refine .locks (fun _ => ?_) (fun _ => ?_) rfl rfl
      · simp [TicketPc.view, TicketPc.isReleasing]
      · simp [TicketPc.view]
  | dist tries | check tries =>
    simp only [hpc] at hs ⊢
    split at hs <;> simp only [Option.some.injEq] at hs <;> subst hs <;>
      simp only [TicketState.goto, TicketState.setSpec, Function.update_self] <;>
      exact TicketPc.lockStep rfl rfl rfl
  | unlockRead =>
    simp only [hpc, Option.some.injEq] at hs ⊢
    subst hs
    simp only [TicketState.goto, Function.update_self]
    exact TicketPc.lockStep rfl rfl rfl
  | tryRead =>
    simp only [hpc, Option.some.injEq] at hs ⊢
    subst hs
    simp only [TicketState.goto, Function.update_self]
    exact .goesOn (fun _ => Iff.rfl) (fun _ => Iff.rfl) rfl rfl (by decide) id
      (.inl ⟨trivial, trivial⟩)
  | tryCas v =>
    simp only [hpc] at hs ⊢
    split at hs <;> rename_i hv <;> simp only [Option.some.injEq] at hs <;> subst hs
    · -- both counters are equal, so nobody holds the lock or waits for it
      have hfree := h.not_holds hlen (hv.1.trans hv.2.symm) t
      rw [hpc] at hfree
      simp only [if_pos hv, TicketState.goto, TicketState.tell, TicketState.take,
        Function.update_self]
      refine .gets (m := 0) (fun _ => ?_) (fun _ => ?_) rfl hfree
      · simp [TicketPc.view, TicketPc.isReleasing]
      · simp [TicketPc.view]
    · have htm : tm = false := by
        cases tm with
        | false => rfl
        | true => exact absurd (hc rfl v hpc) hv
      simp only [if_neg hv, htm, TicketState.goto, TicketState.tell, Function.update_self,
        Bool.or_false]
      exact .fails (m := 0) (fun _ => Iff.rfl) (fun _ => Iff.rfl) rfl (by decide) not_false
        ⟨trivial, trivial⟩
  | unlockWrite v =>
    simp only [hpc, Option.some.injEq] at hs ⊢
    subst hs
    simp only [TicketState.goto, Function.update_self]
    have hno : s.told t = false := by
      cases htold : s.told t with
      | false => rfl
      | true =>
        have hidle := (h.thread t).idle htold
        simp [hpc, TicketPc.isIdle] at hidle
    refine .gives (fun _ => ?_) (fun _ => Iff.rfl) rfl rfl
    simp [TicketPc.view, TicketPc.isReleasing, hno]

/-- The calls of `ticket_lock`, `ticket_trylock` and `ticket_unlock`, and the transactions. -/
theorem TicketRel.lockStep {A : Fifo Tid} (h : TicketRel A s) (hlen : A.queue.length < 2 ^ 32)
    (hc : TicketTrySound tm s a) (hs : s.step cfg tm a = some s') :
    LockStep 1 ((s'.next, s'.now) = (s.next, s.now))
      (TicketPc.view (s.pc (TicketAct.tid a)) (s.told (TicketAct.tid a)))
      (TicketPc.view (s'.pc (TicketAct.tid a)) (s'.told (TicketAct.tid a)))
      (TicketState.events tm s a) := by
  cases a with
  | run t => exact (h.lockStep_run hlen hc hs).mono fun hk => Prod.ext hk.1 hk.2
  | lock t =>
    have hspec := (h.thread t).spec
    simp only [TicketAct.tid, TicketState.events]
    cases hpc : s.pc t <;> simp only [TicketState.step, hpc, reduceCtorEq] at hs
    case spec tries =>
      simp only [Option.ite_none_right_eq_some, Option.some.injEq] at hs
      rw [← hs.2, hpc]
      exact TicketPc.lockStep rfl rfl rfl
    case out =>
      rw [hpc] at hspec
      rw [show s.specEntry t = false from hspec] at hs
      simp only [Bool.false_eq_true, and_false, ↓reduceIte, Option.ite_none_left_eq_some,
        Option.some.injEq] at hs
      rw [← hs.2]
      simp only [TicketState.goto, TicketState.take, Function.update_self]
      exact TicketPc.lockStep rfl rfl rfl
  | trylock t =>
    have hspec := (h.thread t).spec
    simp only [TicketAct.tid, TicketState.events]
    cases hpc : s.pc t <;> simp only [TicketState.step, hpc, reduceCtorEq] at hs
    case spec tries =>
      simp only [Option.ite_none_right_eq_some, Option.some.injEq] at hs
      rw [← hs.2, hpc]
      exact TicketPc.lockStep rfl rfl rfl
    case out =>
      rw [hpc] at hspec
      have hspec : s.specEntry t = false := hspec
      simp only [hspec, Bool.false_eq_true, and_false, ↓reduceIte, Option.some.injEq] at hs
      subst hs
      simp only [hspec, Bool.false_eq_true, and_false, not_false_eq_true, and_self, ↓reduceIte,
        TicketState.goto, Function.update_self]
      exact .tries (fun _ => Iff.rfl) (fun _ => Iff.rfl) rfl rfl (Nat.le_refl 1) trivial
  | unlock t =>
    have hspec := (h.thread t).spec
    simp only [TicketAct.tid, TicketState.events]
    cases hpc : s.pc t <;> simp only [TicketState.step, hpc, reduceCtorEq] at hs
    case spec tries =>
      simp only [Option.ite_none_right_eq_some, Option.some.injEq] at hs
      rw [← hs.2, hpc]
      exact TicketPc.lockStep rfl rfl rfl
    case out =>
      rw [hpc] at hspec
      have hspec : s.specEntry t = false := hspec
      simp only [hspec, Bool.false_eq_true, and_false, ↓reduceIte, Option.ite_none_left_eq_some,
        Option.some.injEq, Decidable.not_not] at hs
      obtain ⟨htold, rfl⟩ := hs
      -- the thread keeps the lock until it writes `now`
      simp only [hspec, Bool.false_eq_true, and_false, not_false_eq_true, and_self, ↓reduceIte,
        TicketState.goto, TicketState.tell, Function.update_self]
      refine .callsUnlock (fun _ => ?_) (fun _ => ?_) rfl rfl
      · simp [TicketPc.view, TicketPc.isReleasing, htold]
      · simp [TicketPc.view]
  | htmStart t =>
    simp only [TicketAct.tid, TicketState.events]
    cases hpc : s.pc t <;> simp only [TicketState.step, hpc, reduceCtorEq, Option.some.injEq] at hs
    case enterHtm tries =>
      subst hs
      simp only [TicketState.goto, Function.update_self]
      exact TicketPc.lockStep rfl rfl rfl
  | htmAbort t =>
    simp only [TicketAct.tid, TicketState.events]
    cases hpc : s.pc t <;> simp only [TicketState.step, hpc, reduceCtorEq, Option.some.injEq] at hs
    all_goals
      subst hs
      simp only [TicketState.goto, TicketState.setSpec, Function.update_self]
      exact TicketPc.lockStep rfl rfl rfl

/-- Every run with truthful trylocks is one of the first-come first-served lock. -/
theorem ticket_rel {tr : List (TicketState Tid × TicketAct Tid)}
    (h : (ticket Tid cfg tm).Run (TicketTruthful tm) tr s) : ∃ A, TicketRel A s := by
  refine h.invariant (I := fun s => ∃ A, TicketRel A s)
    (fun s hi => ⟨_, TicketRel.init hi⟩) fun s a s' hi hc hs => ?_
  obtain ⟨A, hrel⟩ := hi
  obtain ⟨A', -, hrel'⟩ := hrel.step (hrel.length_lt hc.2) hc.1 hs
  exact ⟨A', hrel'⟩

/-- A thread in a call of trylock can go on. -/
theorem TicketState.exists_runStep (ht : TicketPc.trying (s.pc t) ≠ none) :
    ∃ s', s.runStep cfg tm t = some s' := by
  unfold TicketState.runStep
  cases hpc : s.pc t with
  | tryRead => exact ⟨_, rfl⟩
  | tryCas v =>
    simp only
    split <;> exact ⟨_, rfl⟩
  | out | spin _ | dist _ | enterHtm _ | check _ | spec _ | unlockRead | unlockWrite _ =>
    simp [hpc, TicketPc.trying] at ht

/-- The trylock of the ticket locks is truthful while no swap of `ticket_trylock_tm` fails. -/
theorem ticket_trylockRep (cfg : TmParams) (tm : Bool) :
    TrylockRep (ticketView Tid cfg tm) (TicketTruthful tm) 1
      fun s t => TicketPc.view (s.pc t) (s.told t) where
  init s hs t l := by
    obtain ⟨-, hpc, -, htold⟩ := hs
    have hpc := hpc t
    have htold := htold t
    constructor <;> simp [TicketPc.view, TicketPc.isReleasing, hpc, htold]
  exclusive tr s h t u l ht hu := by
    obtain ⟨A, hrel⟩ := ticket_rel h
    have ht := (hrel.thread t).holds.mp ht
    have hu := (hrel.thread u).holds.mp hu
    exact Option.some.inj (ht.symm.trans hu)
  told tr s h t l := .inl
  enabled tr s h t ht := TicketState.exists_runStep ht
  frame tr s h a s' hs u hu := by
    have hf := TicketState.frame hs hu
    exact congrArg₂ TicketPc.view hf.1 hf.2
  step tr s h a s' hc hs := by
    obtain ⟨A, hrel⟩ := ticket_rel h
    exact (hrel.lockStep (hrel.length_lt hc.2) hc.1 hs).mono fun hk =>
      .of_step hs (funext fun _ => hk) rfl

end Step

end TxLock.Spec
