import Mathlib.Data.List.Induction

/-!
# Transition systems and their runs

A system is a set of initial states and a guarded step function: `step s a` is
`some s'` when action `a` can be taken in `s`, and `none` otherwise. The same
function is evaluated on concrete schedules (`exec`) and reasoned about over all
runs (`Run`), so the two cannot drift apart.

A run records the state before each step and the action taken. `Run C` holds the
runs whose steps all meet the condition `C`, a relation between the state before
the step and the action; `Run Free` are all runs.

## Key results

- `Run.invariant`: what holds initially and is kept by every step holds in every
  state a run reaches
- `Run.invariant_trace`: the same for a property of the history and the state
- `Run.invariant_after`: the same for the history since some moment of the run
- `Run.exec`: a schedule that executes extends a run
- `Run.condition_iff`, `Run.condition_iff_step`: a condition on the steps is exact for a
  property of the states
- `Run.append_inv`: a run can be cut at any of its steps
- `Run.simulates`: forward simulation by an abstract system
-/

namespace TxLock

/-- A transition system: initial states and a guarded step function. -/
structure System (σ α : Type) where
  /-- The states a run may start in. -/
  init : σ → Prop
  /-- The state after an action, `none` when the action is not enabled. -/
  step : σ → α → Option σ

namespace System

variable {σ α ε : Type} (M : System σ α)

/-- The condition every step meets. -/
def Free (_ : σ) (_ : α) : Prop := True

/-- `M.Run C tr s`: the steps `tr` lead from an initial state to `s`, and each of
    them meets `C`. An entry of `tr` is the state before the step and its action. -/
inductive Run (C : σ → α → Prop) : List (σ × α) → σ → Prop where
  | init {s : σ} (h : M.init s) : Run C [] s
  | step {tr : List (σ × α)} {s s' : σ} {a : α} (h : Run C tr s) (hc : C s a)
      (hs : M.step s a = some s') : Run C (tr ++ [(s, a)]) s'

/-- The states reached by runs whose steps all meet `C`. -/
def Reachable (C : σ → α → Prop) (s : σ) : Prop := ∃ tr, M.Run C tr s

/-- Take the actions of a schedule in order. -/
def exec (s : σ) : List α → Option σ
  | [] => some s
  | a :: as => (M.step s a).bind (exec · as)

/-- The steps of a schedule, as a run records them. -/
def execTrace (s : σ) : List α → List (σ × α)
  | [] => []
  | a :: as => (s, a) :: ((M.step s a).map (execTrace · as)).getD []

/-- The events of a run, when `out s a` are the events of the step `a` from `s`. -/
def events (out : σ → α → List ε) (tr : List (σ × α)) : List ε :=
  tr.flatMap fun p => out p.1 p.2

@[simp] theorem events_nil (out : σ → α → List ε) : events out [] = [] := rfl

@[simp] theorem events_append (out : σ → α → List ε) (tr tr' : List (σ × α)) :
    events out (tr ++ tr') = events out tr ++ events out tr' := by
  simp only [events, List.flatMap_append]

@[simp] theorem events_singleton (out : σ → α → List ε) (s : σ) (a : α) :
    events out [(s, a)] = out s a := by
  simp only [events, List.flatMap_cons, List.flatMap_nil, List.append_nil]

variable {M} {C D : σ → α → Prop}

/-- A property of the history and the state that holds at the start and is kept by
    every step of a run holds at the end of the run. -/
theorem Run.invariant_trace {I : List (σ × α) → σ → Prop}
    (hinit : ∀ s, M.init s → I [] s)
    (hstep : ∀ tr s a s', M.Run C tr s → I tr s → C s a → M.step s a = some s' →
      I (tr ++ [(s, a)]) s')
    {tr : List (σ × α)} {s : σ} (h : M.Run C tr s) : I tr s := by
  induction h with
  | init h => exact hinit _ h
  | step h hc hs ih => exact hstep _ _ _ _ h ih hc hs

/-- A property that holds initially and is kept by every step holds in every state
    a run reaches. -/
theorem Run.invariant {I : σ → Prop} (hinit : ∀ s, M.init s → I s)
    (hstep : ∀ s a s', I s → C s a → M.step s a = some s' → I s')
    {tr : List (σ × α)} {s : σ} (h : M.Run C tr s) : I s :=
  Run.invariant_trace (I := fun _ s => I s) hinit
    (fun _ s a s' _ hi hc hs => hstep s a s' hi hc hs) h

/-- A run that meets a condition meets every weaker one. -/
theorem Run.mono (hCD : ∀ s a, C s a → D s a) {tr : List (σ × α)} {s : σ}
    (h : M.Run C tr s) : M.Run D tr s := by
  induction h with
  | init h => exact .init h
  | step _ hc hs ih => exact .step ih (hCD _ _ hc) hs

theorem Run.free {tr : List (σ × α)} {s : σ} (h : M.Run C tr s) : M.Run Free tr s :=
  h.mono fun _ _ _ => trivial

/-- A run whose recorded steps all meet `C` is a run under `C`. -/
theorem Run.of_forall_mem {tr : List (σ × α)} {s : σ} (h : M.Run D tr s)
    (hC : ∀ p ∈ tr, C p.1 p.2) : M.Run C tr s := by
  induction h with
  | init h => exact .init h
  | step _ _ hs ih =>
    refine .step (ih fun p hp => hC p (List.mem_append_left _ hp)) ?_ hs
    exact hC (_, _) (List.mem_append_right _ (List.mem_singleton.mpr rfl))

/-- The last step of a run. -/
theorem Run.concat_inv {tr : List (σ × α)} {s s' : σ} {a : α} (h : M.Run C (tr ++ [(s, a)]) s') :
    M.Run C tr s ∧ C s a ∧ M.step s a = some s' := by
  generalize htr : tr ++ [(s, a)] = l at h
  cases h with
  | init => simp at htr
  | step hr hc hs =>
    obtain ⟨rfl, hp⟩ := List.append_inj' htr rfl
    cases hp
    exact ⟨hr, hc, hs⟩

/-- A run can be cut after any prefix of its steps. -/
theorem Run.cut {tr tr' : List (σ × α)} {s : σ} (h : M.Run C (tr ++ tr') s) :
    ∃ t, M.Run C tr t := by
  induction tr' using List.reverseRecOn generalizing s with
  | nil => exact ⟨s, by simpa using h⟩
  | append_singleton tr' p ih =>
    rw [← List.append_assoc] at h
    exact ih h.concat_inv.1

/-- The step recorded in the middle of a run was taken there. -/
theorem Run.append_inv {tr tr' : List (σ × α)} {s t : σ} {a : α}
    (h : M.Run C (tr ++ (s, a) :: tr') t) :
    M.Run C tr s ∧ C s a ∧ ∃ s', M.step s a = some s' := by
  have h' : M.Run C ((tr ++ [(s, a)]) ++ tr') t := by simpa using h
  obtain ⟨u, hu⟩ := h'.cut
  obtain ⟨hr, hc, hs⟩ := hu.concat_inv
  exact ⟨hr, hc, _, hs⟩

/-- A property of what has happened since the steps `tr`. -/
theorem Run.invariant_after {I : List (σ × α) → σ → Prop} {tr : List (σ × α)}
    (hstart : ∀ s, M.Run C tr s → I [] s)
    (hstep : ∀ seg s a s', M.Run C (tr ++ seg) s → I seg s → C s a → M.step s a = some s' →
      I (seg ++ [(s, a)]) s')
    {seg : List (σ × α)} {s : σ} (h : M.Run C (tr ++ seg) s) : I seg s := by
  induction seg using List.reverseRecOn generalizing s with
  | nil => exact hstart s (by simpa using h)
  | append_singleton seg p ih =>
    rw [← List.append_assoc] at h
    obtain ⟨hr, hc, hs⟩ := h.concat_inv
    exact hstep seg p.1 p.2 s hr (ih hr) hc hs

/-- A condition that is exact: with it a run keeps the invariant `I`, which makes its
    states right and its steps sound, and a step without it leads to a state that is not
    right or is not sound itself. -/
theorem Run.condition_iff_step {I Ok : σ → Prop} {E : σ → α → Prop}
    (hinit : ∀ s, M.init s → I s)
    (hstep : ∀ s a s', I s → C s a → M.step s a = some s' → I s')
    (hok : ∀ s, I s → Ok s)
    (hsound : ∀ s a s', I s → C s a → M.step s a = some s' → E s a)
    (hexact : ∀ s a s', I s → M.step s a = some s' → Ok s' → E s a → C s a)
    {tr : List (σ × α)} {s : σ} (h : M.Run Free tr s) :
    (∀ p ∈ tr, C p.1 p.2) ↔ Ok s ∧ ∀ p ∈ tr, Ok p.1 ∧ E p.1 p.2 := by
  constructor
  · intro hC
    have hrun := h.of_forall_mem hC
    refine ⟨hok s (hrun.invariant hinit hstep), fun p hp => ?_⟩
    obtain ⟨tr₁, tr₂, rfl⟩ := List.append_of_mem hp
    obtain ⟨hcut, hc, s', hs⟩ := hrun.append_inv
    have hI := hcut.invariant hinit hstep
    exact ⟨hok _ hI, hsound _ _ _ hI hc hs⟩
  · -- the first step without the condition is seen in the state it leads to
    induction h with
    | init => simp
    | @step tr s s' a hr _ hs ih =>
      rintro ⟨hok', hall⟩
      have hlast := hall (s, a) (by simp)
      have hC := ih ⟨hlast.1, fun p hp => hall p (List.mem_append_left _ hp)⟩
      have hI := (hr.of_forall_mem hC).invariant hinit hstep
      intro p hp
      rcases List.mem_append.mp hp with hp | hp
      · exact hC p hp
      · rw [List.mem_singleton.mp hp]
        exact hexact s a s' hI hs hok' hlast.2

/-- An exact condition for a property of the states alone. -/
theorem Run.condition_iff {I Ok : σ → Prop} (hinit : ∀ s, M.init s → I s)
    (hstep : ∀ s a s', I s → C s a → M.step s a = some s' → I s')
    (hok : ∀ s, I s → Ok s)
    (hexact : ∀ s a s', I s → M.step s a = some s' → Ok s' → C s a)
    {tr : List (σ × α)} {s : σ} (h : M.Run Free tr s) :
    (∀ p ∈ tr, C p.1 p.2) ↔ Ok s ∧ ∀ p ∈ tr, Ok p.1 := by
  have hiff := h.condition_iff_step (E := Free) hinit hstep hok (fun _ _ _ _ _ _ => trivial)
    fun s a s' hi hs hok' _ => hexact s a s' hi hs hok'
  simpa only [Free, and_true] using hiff

/-- A schedule that executes extends a run. -/
theorem Run.exec {tr : List (σ × α)} {s s' : σ} (h : M.Run Free tr s) :
    ∀ {as : List α}, M.exec s as = some s' → M.Run Free (tr ++ M.execTrace s as) s' := by
  intro as
  induction as generalizing tr s with
  | nil =>
    intro he
    simp only [System.exec, Option.some.injEq] at he
    subst he
    simpa [execTrace] using h
  | cons a as ih =>
    intro he
    simp only [System.exec] at he
    cases hs : M.step s a with
    | none => simp [hs] at he
    | some t =>
      simp only [hs, Option.bind_some] at he
      have := ih (.step h trivial hs) he
      simpa [execTrace, hs] using this

/-- A schedule from an initial state that ends in a state with property `p` shows
    that such a state is reachable. -/
theorem reachable_of_exec {s : σ} (as : List α) {p : σ → Bool} (hi : M.init s)
    (h : (M.exec s as).map p = some true) : ∃ s', M.Reachable Free s' ∧ p s' = true := by
  cases hs : M.exec s as with
  | none => simp [hs] at h
  | some s' =>
    simp only [hs, Option.map_some, Option.some.injEq] at h
    exact ⟨s', ⟨_, (Run.init hi).exec hs⟩, h⟩

/-- `exec` of a longer schedule, cut in two. -/
theorem exec_append (s : σ) (as bs : List α) :
    M.exec s (as ++ bs) = (M.exec s as).bind (M.exec · bs) := by
  induction as generalizing s with
  | nil => rfl
  | cons a as ih =>
    simp only [List.cons_append, System.exec]
    cases M.step s a with
    | none => rfl
    | some t => exact ih t

/-- Forward simulation: when every step of a run is answered by the schedule `out s a`
    of an abstract system and `R` relates the states before and after, the abstract
    system executes the events of the whole run. -/
theorem Run.simulates {σ' α' : Type} {N : System σ' α'} {out : σ → α → List α'}
    {R : σ' → σ → Prop} {A₀ : σ'} (hinit : ∀ s, M.init s → R A₀ s)
    (hstep : ∀ A s a s', R A s → C s a → M.step s a = some s' →
      ∃ A', N.exec A (out s a) = some A' ∧ R A' s')
    {tr : List (σ × α)} {s : σ} (h : M.Run C tr s) :
    ∃ A, N.exec A₀ (events out tr) = some A ∧ R A s := by
  induction h with
  | init h => exact ⟨A₀, rfl, hinit _ h⟩
  | step _ hc hs ih =>
    obtain ⟨A, hA, hR⟩ := ih
    obtain ⟨A', hA', hR'⟩ := hstep A _ _ _ hR hc hs
    refine ⟨A', ?_, hR'⟩
    rw [events_append, exec_append, hA, events_singleton]
    exact hA'

end System

end TxLock
