import TxLock.ForStd.Refine
import TxLock.Spec.TicketTrylock

/-!
# A speculating ticket lock is a ticket lock

To its callers outside transactions `ticket_tm` does nothing that `ticket` could not do, as
long as no `ticket_trylock_tm` drops the result of a swap that has failed. A thread of
`ticket_tm` that speculates keeps its ticket and stands for one of `ticket` that waits for
its turn.

## Key results

- `TicketState.plain_step`: every step of `ticket_tm` is a step of `ticket` or none
- `ticket_elision`: what the callers see of a run of `ticket_tm` they see of a run of `ticket`
-/

namespace TxLock.Spec

open Native

variable {Tid : Type}

/-- The place in `ticket` that a place in `ticket_tm` stands for. -/
def TicketPc.plain : TicketPc → TicketPc
  | .spin _ | .enterHtm _ | .check _ | .spec _ => .spin 0
  | .dist _ => .dist 0
  | .out => .out
  | .tryRead => .tryRead
  | .tryCas v => .tryCas v
  | .unlockRead => .unlockRead
  | .unlockWrite now => .unlockWrite now

def TicketState.plain (s : TicketState Tid) : TicketState Tid where
  next := s.next
  now := s.now
  pc t := TicketPc.plain (s.pc t)
  myTicket := s.myTicket
  specEntry _ := false
  told := s.told

/-- `spec_entry` is set from the store before the begin to the end of the transaction. -/
def TicketSpecOk (s : TicketState Tid) : Prop := ∀ t, s.specEntry t = TicketPc.inHtm (s.pc t)

section Step

variable [DecidableEq Tid] {cfg : TmParams} {s s' : TicketState Tid} {a : TicketAct Tid} {t : Tid}

/-- Only the thread that takes the step is affected, and its `spec_entry` says where it is. -/
theorem TicketSpecOk.step {tm : Bool} (h : TicketSpecOk s) (hs : s.step cfg tm a = some s') :
    TicketSpecOk s' := by
  intro u
  cases a with
  | lock t | unlock t | htmStart t | htmAbort t | trylock t | run t =>
    have hspec := h t
    by_cases hu : u = t
    · subst hu
      cases hpc : s.pc u <;>
        simp only [TicketState.step, TicketState.runStep, hpc, reduceCtorEq] at hs <;>
        (repeat' split at hs) <;> simp only [Option.some.injEq, reduceCtorEq] at hs <;>
        subst hs <;>
        simp_all [TicketState.goto, TicketState.tell, TicketState.setSpec, TicketState.take,
          TicketPc.inHtm]
    · have hus := h u
      cases hpc : s.pc t <;>
        simp only [TicketState.step, TicketState.runStep, hpc, reduceCtorEq] at hs <;>
        (repeat' split at hs) <;> simp only [Option.some.injEq, reduceCtorEq] at hs <;>
        subst hs <;>
        simp [TicketState.goto, TicketState.tell, TicketState.setSpec, TicketState.take, hu, hus]

omit [DecidableEq Tid] in
/-- Outside the code of the lock `spec_entry` is 0, and so it is in `ticket`. -/
theorem TicketSpecOk.out (h : TicketSpecOk s) (hpc : s.pc t = .out) :
    s.specEntry t = false ∧ (TicketState.plain s).pc t = .out := by
  constructor
  · rw [h t, hpc]
    rfl
  · simp only [TicketState.plain, hpc, TicketPc.plain]

theorem TicketState.plain_goto {pc : TicketPc} :
    TicketState.plain (s.goto t pc) = (TicketState.plain s).goto t (TicketPc.plain pc) := by
  simp only [TicketState.plain, TicketState.goto, TicketState.mk.injEq, true_and, and_true]
  funext u
  by_cases hu : u = t
  · simp [hu]
  · simp [hu]

theorem TicketState.plain_goto_eq {pc : TicketPc} (hpc : TicketPc.plain pc = TicketPc.plain (s.pc t)) :
    TicketState.plain (s.goto t pc) = TicketState.plain s := by
  rw [TicketState.plain_goto, hpc]
  unfold TicketState.goto
  rw [show TicketPc.plain (s.pc t) = (TicketState.plain s).pc t from rfl, Function.update_eq_self]

theorem TicketState.plain_setSpec {b : Bool} :
    TicketState.plain (s.setSpec t b) = TicketState.plain s := rfl

theorem TicketState.plain_tell {b : Bool} :
    TicketState.plain (s.tell t b) = (TicketState.plain s).tell t b := rfl

theorem TicketState.plain_take {v : Word} :
    TicketState.plain (s.take t v) = (TicketState.plain s).take t v := rfl

/-- The next step of the code thread `t` is in. -/
theorem TicketState.plain_runStep (hc : TicketTrySound true s (.run t))
    (hs : s.runStep cfg true t = some s') :
    (TicketState.events true s (.run t) = [] ∧ TicketState.plain s' = TicketState.plain s) ∨
      (TicketState.plain s).runStep cfg false t = some (TicketState.plain s') ∧
        TicketState.events false (TicketState.plain s) (.run t) =
          TicketState.events true s (.run t) := by
  have hpc' : (TicketState.plain s).pc t = TicketPc.plain (s.pc t) := rfl
  unfold TicketState.runStep at hs ⊢
  unfold TicketState.events
  cases hpc : s.pc t with
  | out | enterHtm tries | spec tries => simp [hpc] at hs
  | spin tries =>
    simp only [hpc, TicketPc.plain] at hpc' hs
    simp only [hpc, hpc']
    refine .inr ⟨?_, rfl⟩
    split at hs <;> rename_i hv <;> simp only [Option.some.injEq] at hs <;> subst hs
    · rw [if_pos (by exact hv), TicketState.plain_goto]
      rfl
    · rw [if_neg (by exact hv), TicketState.plain_tell, TicketState.plain_goto]
      rfl
  | dist tries =>
    simp only [hpc, TicketPc.plain] at hpc' hs
    simp only [hpc, hpc', Bool.false_eq_true, false_and, if_false, and_true]
    refine .inr ?_
    split at hs <;> simp only [Option.some.injEq] at hs <;> subst hs
    · -- the thread goes to speculate, and the one of `ticket` looks at `now` again
      rw [TicketState.plain_setSpec, TicketState.plain_goto]
      rfl
    · rw [TicketState.plain_goto]
      rfl
  | check tries =>
    simp only [hpc] at hs
    simp only [hpc, true_and]
    refine .inl ?_
    split at hs <;> simp only [Option.some.injEq] at hs <;> subst hs
    · rw [TicketState.plain_setSpec]
      exact TicketState.plain_goto_eq (by rw [hpc]; rfl)
    · exact TicketState.plain_goto_eq (by rw [hpc]; rfl)
  | tryRead | unlockRead =>
    simp only [hpc, TicketPc.plain, Option.some.injEq] at hpc' hs
    subst hs
    simp only [hpc, hpc', and_true]
    rw [TicketState.plain_goto]
    exact .inr rfl
  | tryCas v =>
    have hv := hc rfl v hpc
    simp only [hpc, TicketPc.plain] at hpc' hs
    simp only [hpc, hpc']
    rw [if_pos hv, Option.some.injEq] at hs
    subst hs
    refine .inr ⟨?_, ?_⟩
    · rw [if_pos (by exact hv), TicketState.plain_tell, TicketState.plain_goto, TicketState.plain_take]
      rfl
    · rw [if_pos hv, if_pos (by exact hv)]
  | unlockWrite now =>
    simp only [hpc, TicketPc.plain, Option.some.injEq] at hpc' hs
    subst hs
    simp only [hpc, hpc', and_true]
    rw [TicketState.plain_goto]
    exact .inr rfl

/-- Every step of `ticket_tm` is the same step of `ticket`, or `ticket` does nothing. -/
theorem TicketState.plain_step (h : TicketSpecOk s) (hc : TicketTrySound true s a)
    (hs : s.step cfg true a = some s') :
    (TicketState.events true s a = [] ∧ TicketState.plain s' = TicketState.plain s) ∨
      (TicketState.plain s).step cfg false a = some (TicketState.plain s') ∧
        TicketState.events false (TicketState.plain s) a = TicketState.events true s a := by
  cases a with
  | run t => exact TicketState.plain_runStep hc hs
  | lock t =>
    cases hpc : s.pc t <;> simp only [TicketState.step, hpc, reduceCtorEq] at hs
    case spec tries =>
      -- the functions of `ticket_tm` do nothing in a transaction
      simp only [Option.ite_none_right_eq_some, Option.some.injEq] at hs
      exact .inl ⟨rfl, by rw [hs.2]⟩
    case out =>
      obtain ⟨hspec, hout⟩ := TicketSpecOk.out h hpc
      simp only [hspec, Bool.false_eq_true, and_false, if_false, Option.ite_none_left_eq_some,
        Option.some.injEq] at hs
      obtain ⟨htold, rfl⟩ := hs
      refine .inr ⟨?_, rfl⟩
      rw [TicketState.plain_goto, TicketState.plain_take]
      simp only [TicketState.step, hout, Bool.false_eq_true, false_and, if_false]
      rw [if_neg (by exact htold)]
      rfl
  | trylock t =>
    cases hpc : s.pc t <;> simp only [TicketState.step, hpc, reduceCtorEq] at hs
    case spec tries =>
      simp only [Option.ite_none_right_eq_some, Option.some.injEq] at hs
      exact .inl ⟨by simp [TicketState.events, hpc], by rw [hs.2]⟩
    case out =>
      obtain ⟨hspec, hout⟩ := TicketSpecOk.out h hpc
      simp only [hspec, Bool.false_eq_true, and_false, if_false, Option.some.injEq] at hs
      subst hs
      refine .inr ⟨?_, by simp [TicketState.events, hpc, hspec, hout]⟩
      rw [TicketState.plain_goto]
      simp only [TicketState.step, hout, Bool.false_eq_true, false_and, if_false]
      rfl
  | unlock t =>
    cases hpc : s.pc t <;> simp only [TicketState.step, hpc, reduceCtorEq] at hs
    case spec tries =>
      simp only [Option.ite_none_right_eq_some, Option.some.injEq] at hs
      exact .inl ⟨by simp [TicketState.events, hpc], by rw [hs.2]⟩
    case out =>
      obtain ⟨hspec, hout⟩ := TicketSpecOk.out h hpc
      simp only [hspec, Bool.false_eq_true, and_false, if_false, Option.ite_none_left_eq_some,
        Option.some.injEq] at hs
      obtain ⟨htold, rfl⟩ := hs
      refine .inr ⟨?_, by simp [TicketState.events, hpc, hspec, hout]⟩
      rw [TicketState.plain_tell, TicketState.plain_goto]
      simp only [TicketState.step, hout, Bool.false_eq_true, false_and, if_false]
      rw [if_neg (by exact htold)]
      rfl
  | htmStart t =>
    cases hpc : s.pc t <;> simp only [TicketState.step, hpc, reduceCtorEq, Option.some.injEq] at hs
    subst hs
    exact .inl ⟨rfl, TicketState.plain_goto_eq (by rw [hpc]; rfl)⟩
  | htmAbort t =>
    cases hpc : s.pc t <;> simp only [TicketState.step, hpc, reduceCtorEq, Option.some.injEq] at hs
    all_goals
      subst hs
      refine .inl ⟨rfl, ?_⟩
      rw [TicketState.plain_setSpec]
      exact TicketState.plain_goto_eq (by rw [hpc]; rfl)

/-- What the callers see of a run of `ticket_tm` they see of a run of `ticket`, which leaves
    the counters the same. -/
theorem ticket_elision (cfg : TmParams) {tr : List (TicketState Tid × TicketAct Tid)}
    (h : (ticketView Tid cfg true).sys.Run (TicketTrySound true) tr s) :
    ∃ tr' s', (ticketView Tid cfg false).sys.Run System.Free tr' s' ∧
      (ticketView Tid cfg false).log tr' = (ticketView Tid cfg true).log tr ∧
      (ticketView Tid cfg false).words s' = (ticketView Tid cfg true).words s := by
  have hinit : ∀ s, (ticket Tid cfg true).init s →
      (ticket Tid cfg false).init (TicketState.plain s) ∧ TicketSpecOk s := by
    intro s hs
    obtain ⟨hnow, hpc, hspec, htold⟩ := hs
    refine ⟨⟨hnow, fun t => ?_, fun _ => rfl, htold⟩, fun t => ?_⟩
    · simp only [TicketState.plain, hpc t, TicketPc.plain]
    · rw [hspec t, hpc t]
      rfl
  have href := h.refines (N := ticket Tid cfg false)
    (R := fun A s => A = TicketState.plain s ∧ TicketSpecOk s)
    (e := fun s a => (TicketState.events true s a).map (TicketAct.tid a, ·))
    (f := fun s a => (TicketState.events false s a).map (TicketAct.tid a, ·))
    (fun s hs => ⟨_, (hinit s hs).1, rfl, (hinit s hs).2⟩) fun A s a s' hR hc hs => ?_
  · obtain ⟨tr', s', hrun, hlog, rfl, -⟩ := href
    exact ⟨tr', _, hrun, hlog, rfl⟩
  · obtain ⟨rfl, hok⟩ := hR
    rcases TicketState.plain_step hok hc hs with ⟨hnil, heq⟩ | ⟨hstep, hsame⟩
    · exact .inl ⟨by rw [hnil]; rfl, heq.symm, hok.step hs⟩
    · exact .inr ⟨a, _, hstep, by rw [hsame], rfl, hok.step hs⟩

end Step

/-- Thread 0 has the lock, threads 1 and 2 wait for it, and thread 2 goes on without it. -/
theorem ticket_elision_speculating : ∃ tr s,
    (ticketView (Fin 3) {} true).sys.Run (TicketTrySound true) tr s ∧
      TicketState.pc s 2 = .spec 0 ∧
      ∃ tr' s', (ticketView (Fin 3) {} false).sys.Run System.Free tr' s' ∧
        (ticketView (Fin 3) {} false).log tr' = (ticketView (Fin 3) {} true).log tr ∧
        (ticketView (Fin 3) {} false).words s' = (ticketView (Fin 3) {} true).words s := by
  let s₀ : TicketState (Fin 3) := ⟨0, 0, fun _ => .out, fun _ => 0, fun _ => false, fun _ => false⟩
  let as : List (TicketAct (Fin 3)) :=
    [.lock 0, .run 0, .lock 1, .lock 2, .run 2, .run 2, .htmStart 2, .run 2]
  have hspec : ((ticket (Fin 3) {} true).exec s₀ as).map
      (fun s => s.pc 2) = some (.spec 0) := by decide
  have hsound : ∀ p ∈ (ticket (Fin 3) {} true).execTrace s₀ as, TicketTrySound true p.1 p.2 := by
    decide
  obtain ⟨s, hs, hspec⟩ := Option.map_eq_some_iff.mp hspec
  have hinit : (ticket (Fin 3) {} true).init s₀ :=
    ⟨rfl, fun _ => rfl, fun _ => rfl, fun _ => rfl⟩
  have hrun := ((System.Run.init hinit).exec hs).of_forall_mem hsound
  exact ⟨_, s, hrun, hspec, ticket_elision {} hrun⟩

end TxLock.Spec
