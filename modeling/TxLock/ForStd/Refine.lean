import TxLock.ForStd.TryLock

/-!
# Refinement of transition systems

Observers see a list of events of every step. A system refines another one when everything
that can be seen of its runs can be seen of runs of the other system: its steps are answered
one by one, or by no step where there is nothing to see. Where a step of this system shows
what the other system has shown before, the difference is due.

## Key results

- `Run.refines_owing`, `Run.refines_due`, `Run.refines`: the runs of a system from what one
  step shows
-/

namespace TxLock

namespace System

variable {σ α ε : Type} {M : System σ α} {C : σ → α → Prop}

/-- Refinement seen by observers: every step is answered by one step of the other system or
    by none. Observer `u` sees `e u` of a step of this system and `f u` of one of the other;
    `R A d s` relates the two states and what each observer has seen of the other system and
    is going to see of this one. -/
theorem Run.refines_owing {σ' α' υ : Type} {N : System σ' α'} {e : υ → σ → α → List ε}
    {f : υ → σ' → α' → List ε} {R : σ' → (υ → List ε) → σ → Prop}
    (hinit : ∀ s, M.init s → ∃ A, N.init A ∧ R A (fun _ => []) s)
    (hstep : ∀ A d s a s', R A d s → C s a → M.step s a = some s' →
      (∃ d', (∀ u, e u s a ++ d' u = d u) ∧ R A d' s') ∨
        ∃ a' A' d', N.step A a' = some A' ∧ (∀ u, d u ++ f u A a' = e u s a ++ d' u) ∧
          R A' d' s')
    {tr : List (σ × α)} {s : σ} (h : M.Run C tr s) :
    ∃ tr' A d, N.Run Free tr' A ∧ (∀ u, events (f u) tr' = events (e u) tr ++ d u) ∧
      R A d s := by
  induction h with
  | init h =>
    obtain ⟨A, hA, hR⟩ := hinit _ h
    exact ⟨[], A, _, .init hA, fun u => by simp, hR⟩
  | @step tr s s' a _ hc hs ih =>
    obtain ⟨tr', A, d, hrun, hsee, hR⟩ := ih
    rcases hstep A d _ _ _ hR hc hs with ⟨d', hsame, hR'⟩ | ⟨a', A', d', hs', hsame, hR'⟩
    · refine ⟨tr', A, d', hrun, fun u => ?_, hR'⟩
      rw [hsee u, events_append, events_singleton, List.append_assoc, hsame u]
    · refine ⟨tr' ++ [(A, a')], A', d', .step hrun trivial hs', fun u => ?_, hR'⟩
      simp only [events_append, events_singleton, hsee u, List.append_assoc, hsame u]

/-- Refinement in which what is due is told by the state: observer `u` has seen `d s u` of the
    other system and is going to see it of this one. -/
theorem Run.refines_due {σ' α' υ : Type} {N : System σ' α'} {e : υ → σ → α → List ε}
    {f : υ → σ' → α' → List ε} {d : σ → υ → List ε} {R : σ' → σ → Prop}
    (hinit : ∀ s, M.init s → (∀ u, d s u = []) ∧ ∃ A, N.init A ∧ R A s)
    (hstep : ∀ A s a s', R A s → C s a → M.step s a = some s' →
      ((∀ u, e u s a ++ d s' u = d s u) ∧ R A s') ∨
        ∃ a' A', N.step A a' = some A' ∧ (∀ u, d s u ++ f u A a' = e u s a ++ d s' u) ∧ R A' s')
    {tr : List (σ × α)} {s : σ} (h : M.Run C tr s) :
    ∃ tr' A, N.Run Free tr' A ∧ (∀ u, events (f u) tr' = events (e u) tr ++ d s u) ∧ R A s := by
  have howing := h.refines_owing (N := N) (R := fun A due s => R A s ∧ due = d s) (e := e)
    (f := f) (fun s hs => ?_) fun A due s a s' hR hc hs => ?_
  · obtain ⟨tr', A, _, hrun, hsee, hR, rfl⟩ := howing
    exact ⟨tr', A, hrun, hsee, hR⟩
  · obtain ⟨hnil, A, hA, hR⟩ := hinit s hs
    exact ⟨A, hA, hR, funext fun u => (hnil u).symm⟩
  · obtain ⟨hR, rfl⟩ := hR
    rcases hstep A s a s' hR hc hs with ⟨hsame, hR'⟩ | ⟨a', A', hs', hsame, hR'⟩
    · exact .inl ⟨d s', hsame, hR', rfl⟩
    · exact .inr ⟨a', A', d s', hs', hsame, hR', rfl⟩

/-- Refinement in which the two systems are seen to do the same at the same time. -/
theorem Run.refines {σ' α' : Type} {N : System σ' α'} {e : σ → α → List ε}
    {f : σ' → α' → List ε} {R : σ' → σ → Prop} (hinit : ∀ s, M.init s → ∃ A, N.init A ∧ R A s)
    (hstep : ∀ A s a s', R A s → C s a → M.step s a = some s' →
      (e s a = [] ∧ R A s') ∨ ∃ a' A', N.step A a' = some A' ∧ f A a' = e s a ∧ R A' s')
    {tr : List (σ × α)} {s : σ} (h : M.Run C tr s) :
    ∃ tr' A, N.Run Free tr' A ∧ events f tr' = events e tr ∧ R A s := by
  have hdue := h.refines_due (N := N) (R := R) (e := fun _ : Unit => e) (f := fun _ => f)
    (d := fun _ _ => []) (fun s hs => ⟨fun _ => rfl, hinit s hs⟩) fun A s a s' hR hc hs => ?_
  · obtain ⟨tr', A, hrun, hsee, hR⟩ := hdue
    exact ⟨tr', A, hrun, by simpa using hsee (), hR⟩
  · rcases hstep A s a s' hR hc hs with ⟨hnil, hR'⟩ | ⟨a', A', hs', hsame, hR'⟩
    · exact .inl ⟨fun _ => by rw [hnil]; rfl, hR'⟩
    · exact .inr ⟨a', A', hs', fun _ => by simp [hsame], hR'⟩

end System

namespace LockView

variable {Tid : Type} [DecidableEq Tid] (V : LockView Tid)

/-- What the step is to the callers in thread `t`. -/
def seenBy (t : Tid) (s : V.State) (a : V.Act) : List (V.Lock × LockEvent) :=
  if V.actor a = t then V.events s a else []

/-- The events of thread `t` in a run. -/
def logOf (t : Tid) (tr : List (V.State × V.Act)) : List (V.Lock × LockEvent) :=
  System.events (V.seenBy t) tr

end LockView

end TxLock
