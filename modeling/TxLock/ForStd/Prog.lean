import Mathlib.Logic.Basic

/-!
# Programs over answered operations

A program performs operations one after the other and goes on with the answer to
each: what it reads, what a call returns, whether a swap succeeded. The environment
gives the answers, so the runs of a program, with every answer at every operation, are
its runs among any other threads.

A loop takes a bound on its iterations. A run that reaches the bound stops there
(`halt`), so with every bound the programs have every finite piece of the behaviour of
the unbounded loop.

## Key results

- `Prog.Leads`: performing a trace of answered operations leads from one program to another
- `Prog.leads_bind`, `Prog.returns_bind`: runs of a sequence are sequences of runs
- `Prog.avoids_bind`, `Prog.Avoids.loop`: operations a program never performs
- `Prog.Performs.exists_mem`: operations a program performs before it returns
- `Prog.wp_bind`, `Prog.wp_loop`: what a program returns when its answers are as allowed
- `Prog.stateWp_bind`, `Prog.stateWp_loop`: the state in which a program returns
- `Prog.Preserves.bind`, `Prog.Preserves.loop`: what the runs of a program preserve
- `Prog.Finishes.bind`, `Prog.Finishes.loop`: answers after which a program only returns
-/

namespace TxLock

/-- A program with operations `Op`, each answered by an integer, that returns an `α`. -/
inductive Prog (Op α : Type) where
  | ret (x : α)
  | op (o : Op) (k : Int → Prog Op α)
  /-- Nothing more happens: the process is gone, or a loop has reached its bound. -/
  | halt

namespace Prog

variable {Op α β σ τ : Type}

def bind : Prog Op α → (α → Prog Op β) → Prog Op β
  | ret x, f => f x
  | op o k, f => op o fun v => (k v).bind f
  | halt, _ => halt

instance : Monad (Prog Op) where
  pure := ret
  bind := bind

/-- Perform an operation. -/
def perform (o : Op) : Prog Op Int := op o ret

/-- Perform an operation whose answer is not used. -/
def emit (o : Op) : Prog Op Unit := op o fun _ => ret ()

/-- Repeat `body` until it gives a result, `fuel` times at most. -/
def loop (body : σ → Prog Op (σ ⊕ β)) : Nat → σ → Prog Op β
  | 0, _ => halt
  | fuel + 1, s => (body s).bind fun
    | .inl s' => loop body fuel s'
    | .inr x => ret x

@[simp] theorem pure_eq (x : α) : (pure x : Prog Op α) = ret x := rfl

@[simp] theorem bind_eq (p : Prog Op α) (f : α → Prog Op β) : p >>= f = p.bind f := rfl

@[simp] theorem ret_bind (x : α) (f : α → Prog Op β) : (ret x).bind f = f x := rfl

@[simp] theorem op_bind (o : Op) (k : Int → Prog Op α) (f : α → Prog Op β) :
    (op o k).bind f = op o fun v => (k v).bind f := rfl

@[simp] theorem ite_bind {c : Prop} [Decidable c] (p q : Prog Op α) (f : α → Prog Op β) :
    (if c then p else q).bind f = if c then p.bind f else q.bind f := by
  split <;> rfl

@[simp] theorem halt_bind (f : α → Prog Op β) : (halt : Prog Op α).bind f = halt := rfl

@[simp] theorem perform_bind (o : Op) (f : Int → Prog Op β) : (perform o).bind f = op o f := rfl

@[simp] theorem emit_bind (o : Op) (f : Unit → Prog Op β) :
    (emit o).bind f = op o fun _ => f () := rfl

theorem bind_assoc {γ : Type} (p : Prog Op α) (f : α → Prog Op β) (g : β → Prog Op γ) :
    (p.bind f).bind g = p.bind fun x => (f x).bind g := by
  induction p with
  | ret x => rfl
  | halt => rfl
  | op o k ih => exact congrArg (op o) (funext ih)

/-! ## Runs -/

/-- Performing the operations of `tr`, with the answers in it, leads from `p` to `q`. -/
inductive Leads : Prog Op α → List (Op × Int) → Prog Op α → Prop where
  | nil (p : Prog Op α) : Leads p [] p
  | cons {o : Op} {k : Int → Prog Op α} {v : Int} {tr : List (Op × Int)} {q : Prog Op α}
      (h : Leads (k v) tr q) : Leads (op o k) ((o, v) :: tr) q

/-- `p` performs `tr` and returns `x`. -/
def Returns (p : Prog Op α) (tr : List (Op × Int)) (x : α) : Prop := p.Leads tr (ret x)

@[simp] theorem leads_nil_iff {p q : Prog Op α} : p.Leads [] q ↔ p = q := by
  constructor
  · intro h
    cases h
    rfl
  · rintro rfl
    exact .nil p

@[simp] theorem leads_op_cons {o o' : Op} {k : Int → Prog Op α} {v : Int} {tr : List (Op × Int)}
    {q : Prog Op α} : (op o k).Leads ((o', v) :: tr) q ↔ o' = o ∧ (k v).Leads tr q := by
  constructor
  · intro h
    cases h with
    | cons h => exact ⟨rfl, h⟩
  · rintro ⟨rfl, h⟩
    exact .cons h

@[simp] theorem not_ret_leads_cons {x : α} {e : Op × Int} {tr : List (Op × Int)}
    {q : Prog Op α} : ¬ (ret x).Leads (e :: tr) q := nofun

@[simp] theorem not_halt_leads_cons {e : Op × Int} {tr : List (Op × Int)} {q : Prog Op α} :
    ¬ (halt : Prog Op α).Leads (e :: tr) q := nofun

@[simp] theorem returns_ret {x y : α} {tr : List (Op × Int)} :
    (ret x : Prog Op α).Returns tr y ↔ tr = [] ∧ y = x := by
  constructor
  · intro h
    cases h
    exact ⟨rfl, rfl⟩
  · rintro ⟨rfl, rfl⟩
    exact .nil _

@[simp] theorem returns_op {o : Op} {k : Int → Prog Op α} {tr : List (Op × Int)} {y : α} :
    (op o k).Returns tr y ↔ ∃ v tr', tr = (o, v) :: tr' ∧ (k v).Returns tr' y := by
  constructor
  · intro h
    cases h with
    | cons h => exact ⟨_, _, rfl, h⟩
  · rintro ⟨v, tr', rfl, h⟩
    exact .cons h

@[simp] theorem not_halt_returns {tr : List (Op × Int)} {y : α} :
    ¬ (halt : Prog Op α).Returns tr y := nofun

@[simp] theorem returns_ite {c : Prop} [Decidable c] {p q : Prog Op α} {tr : List (Op × Int)}
    {y : α} : (if c then p else q).Returns tr y ↔ if c then p.Returns tr y else q.Returns tr y := by
  split <;> rfl

/-- Follow a trace: what `p` returns at its end, if `p` performs it. -/
def replay [DecidableEq Op] : Prog Op α → List (Op × Int) → Option α
  | ret x, [] => some x
  | op o k, (o', v) :: tr => if o' = o then (k v).replay tr else none
  | _, _ => none

theorem returns_of_replay [DecidableEq Op] {p : Prog Op α} {tr : List (Op × Int)} {x : α}
    (h : p.replay tr = some x) : p.Returns tr x := by
  induction p generalizing tr with
  | ret y =>
    cases tr with
    | nil =>
      obtain rfl := Option.some.inj h
      exact .nil _
    | cons e tr => simp [replay] at h
  | halt => simp [replay] at h
  | op o k ih =>
    cases tr with
    | nil => simp [replay] at h
    | cons e tr =>
      simp only [replay, Option.ite_none_right_eq_some] at h
      obtain ⟨rfl, h⟩ := h
      exact .cons (ih _ h)

/-- One more operation at the end of a run. -/
theorem Leads.concat {p : Prog Op α} {o : Op} {k : Int → Prog Op α} {tr : List (Op × Int)}
    (h : p.Leads tr (op o k)) (v : Int) : p.Leads (tr ++ [(o, v)]) (k v) := by
  generalize hq : op o k = q at h
  induction h with
  | nil =>
    subst hq
    exact .cons (.nil _)
  | cons _ ih => exact .cons (ih hq)

/-- The last operation of a run. -/
theorem Leads.concat_inv {p q : Prog Op α} {o : Op} {v : Int} {tr : List (Op × Int)}
    (h : p.Leads (tr ++ [(o, v)]) q) : ∃ k, p.Leads tr (op o k) ∧ q = k v := by
  induction tr generalizing p with
  | nil =>
    rw [List.nil_append] at h
    cases p with
    | op o' k =>
      obtain ⟨rfl, hk⟩ := leads_op_cons.mp h
      exact ⟨k, .nil _, (leads_nil_iff.mp hk).symm⟩
    | ret | halt => simp at h
  | cons e tr ih =>
    rw [List.cons_append] at h
    cases p with
    | op o' k =>
      obtain ⟨rfl, hk⟩ := leads_op_cons.mp h
      obtain ⟨k', h', rfl⟩ := ih hk
      exact ⟨k', .cons h', rfl⟩
    | ret | halt => simp at h

/-- A run of a sequence is in its first part, or has finished it. -/
theorem leads_bind {p : Prog Op α} {f : α → Prog Op β} {tr : List (Op × Int)} {q : Prog Op β}
    (h : (p.bind f).Leads tr q) :
    (∃ q', p.Leads tr q' ∧ q = q'.bind f) ∨
      ∃ tr₁ tr₂ x, tr = tr₁ ++ tr₂ ∧ p.Returns tr₁ x ∧ (f x).Leads tr₂ q := by
  induction p generalizing tr with
  | ret x => exact .inr ⟨[], tr, x, rfl, .nil _, h⟩
  | halt =>
    cases h
    exact .inl ⟨halt, .nil _, rfl⟩
  | op o k ih =>
    cases h with
    | nil => exact .inl ⟨op o k, .nil _, rfl⟩
    | cons h =>
      rcases ih _ h with ⟨q', hq, rfl⟩ | ⟨tr₁, tr₂, x, rfl, h₁, h₂⟩
      · exact .inl ⟨q', .cons hq, rfl⟩
      · exact .inr ⟨_ :: tr₁, tr₂, x, rfl, .cons h₁, h₂⟩

/-- A sequence returns when its parts do. -/
theorem returns_bind {p : Prog Op α} {f : α → Prog Op β} {tr : List (Op × Int)} {y : β} :
    (p.bind f).Returns tr y ↔
      ∃ tr₁ tr₂ x, tr = tr₁ ++ tr₂ ∧ p.Returns tr₁ x ∧ (f x).Returns tr₂ y := by
  constructor
  · intro h
    rcases leads_bind h with ⟨q', hq, hy⟩ | h
    · cases q' with
      | ret x => exact ⟨tr, [], x, by simp, hq, by rw [show f x = ret y from hy.symm]; exact .nil _⟩
      | op | halt => simp at hy
    · exact h
  · rintro ⟨tr₁, tr₂, x, rfl, h₁, h₂⟩
    induction p generalizing tr₁ with
    | ret y =>
      cases h₁
      exact h₂
    | op o k ih =>
      cases h₁ with
      | cons h₁ => exact .cons (ih _ _ h₁)
    | halt => cases h₁

/-- A loop that returns does so in its last round; what it did before belongs to rounds
    that went on. -/
theorem returns_loop {body : σ → Prog Op (σ ⊕ β)} {fuel : Nat} {s : σ} {tr : List (Op × Int)}
    {x : β} (h : (loop body fuel s).Returns tr x) :
    ∃ tr₁ tr₂ s', tr = tr₁ ++ tr₂ ∧ (body s').Returns tr₂ (.inr x) ∧
      ∀ e ∈ tr₁, ∃ s₁ s₂ tr', (body s₁).Returns tr' (.inl s₂) ∧ e ∈ tr' := by
  induction fuel generalizing s tr with
  | zero => cases h
  | succ fuel ih =>
    obtain ⟨tr₁, tr₂, r, rfl, hbody, hrest⟩ := returns_bind.mp h
    cases r with
    | inl s' =>
      obtain ⟨tr₃, tr₄, s'', rfl, hlast, hbefore⟩ := ih hrest
      refine ⟨tr₁ ++ tr₃, tr₄, s'', by rw [List.append_assoc], hlast, fun e he => ?_⟩
      rcases List.mem_append.mp he with he | he
      · exact ⟨s, s', tr₁, hbody, he⟩
      · exact hbefore e he
    | inr y =>
      cases hrest
      exact ⟨[], tr₁, s, by simp, hbody, by simp⟩

/-! ## Operations that are not performed -/

/-- No run of the program performs an operation with `P`. -/
def Avoids (P : Op → Prop) : Prog Op α → Prop
  | ret _ => True
  | op o k => ¬ P o ∧ ∀ v, (k v).Avoids P
  | halt => True

section

variable {P : Op → Prop}

@[simp] theorem avoids_ret (x : α) : (ret x : Prog Op α).Avoids P := trivial

@[simp] theorem avoids_halt : (halt : Prog Op α).Avoids P := trivial

@[simp] theorem avoids_op {o : Op} {k : Int → Prog Op α} :
    (op o k).Avoids P ↔ ¬ P o ∧ ∀ v, (k v).Avoids P := Iff.rfl

@[simp] theorem avoids_perform {o : Op} : (perform o).Avoids P ↔ ¬ P o := by
  simp [perform]

@[simp] theorem avoids_emit {o : Op} : (emit o).Avoids P ↔ ¬ P o := by
  simp [emit]

@[simp] theorem avoids_ite {c : Prop} [Decidable c] {p q : Prog Op α} :
    (if c then p else q).Avoids P ↔ if c then p.Avoids P else q.Avoids P := by
  split <;> rfl

/-- A sequence performs what its first part does, and what the rest does after a value
    the first part returns. -/
@[simp] theorem avoids_bind {p : Prog Op α} {f : α → Prog Op β} :
    (p.bind f).Avoids P ↔ p.Avoids P ∧ ∀ x, (∃ tr, p.Returns tr x) → (f x).Avoids P := by
  induction p with
  | ret x =>
    constructor
    · rintro h
      refine ⟨trivial, ?_⟩
      rintro y ⟨tr, hy⟩
      cases hy
      exact h
    · intro h
      exact h.2 x ⟨[], .nil _⟩
  | halt =>
    refine iff_of_true trivial ⟨trivial, ?_⟩
    rintro x ⟨tr, hx⟩
    cases hx
  | op o k ih =>
    rw [op_bind, avoids_op, avoids_op]
    constructor
    · rintro ⟨ho, hk⟩
      refine ⟨⟨ho, fun v => ((ih v).mp (hk v)).1⟩, ?_⟩
      rintro x ⟨tr, hx⟩
      cases hx with
      | cons hx => exact ((ih _).mp (hk _)).2 x ⟨_, hx⟩
    · rintro ⟨⟨ho, hk⟩, hf⟩
      refine ⟨ho, fun v => (ih v).mpr ⟨hk v, ?_⟩⟩
      rintro x ⟨tr, hx⟩
      exact hf x ⟨_, .cons hx⟩

namespace Avoids

theorem loop {body : σ → Prog Op (σ ⊕ β)} (hbody : ∀ s, (body s).Avoids P) (fuel : Nat) (s : σ) :
    (Prog.loop body fuel s).Avoids P := by
  induction fuel generalizing s with
  | zero => trivial
  | succ fuel ih =>
    refine avoids_bind.mpr ⟨hbody s, fun x _ => ?_⟩
    cases x with
    | inl s' => exact ih s'
    | inr y => trivial

theorem forM {f : σ → Prog Op Unit} (hf : ∀ x, (f x).Avoids P) (l : List σ) :
    (ForM.forM l f : Prog Op Unit).Avoids P := by
  induction l with
  | nil => trivial
  | cons x l ih =>
    rw [List.forM_cons, bind_eq, avoids_bind]
    exact ⟨hf x, fun _ _ => ih⟩

theorem mono {R : Op → Prop} (hRP : ∀ o, R o → P o) {p : Prog Op α} (hp : p.Avoids P) :
    p.Avoids R := by
  induction p with
  | ret | halt => trivial
  | op o k ih => exact ⟨fun hR => hp.1 (hRP o hR), fun v => ih v (hp.2 v)⟩

/-- The program a run has come to avoids them as well. -/
theorem of_leads {p q : Prog Op α} {tr : List (Op × Int)} (hp : p.Avoids P)
    (h : p.Leads tr q) : q.Avoids P := by
  induction h with
  | nil => exact hp
  | cons _ ih => exact ih (hp.2 _)

/-- None of the operations of a run is one of them. -/
theorem not_mem {p q : Prog Op α} {tr : List (Op × Int)} (hp : p.Avoids P)
    (h : p.Leads tr q) {e : Op × Int} (he : e ∈ tr) : ¬ P e.1 := by
  induction h with
  | nil => simp at he
  | cons _ ih =>
    rcases List.mem_cons.mp he with rfl | he
    · exact hp.1
    · exact ih (hp.2 _) he

end Avoids

end

/-! ## Operations that are performed -/

/-- Every run performs an operation with `P`, or returns a value with `E`. -/
def Performs (P : Op → Int → Prop) (E : α → Prop) : Prog Op α → Prop
  | ret x => E x
  | op o k => ∀ v, P o v ∨ (k v).Performs P E
  | halt => True

namespace Performs

variable {P : Op → Int → Prop}

theorem of_forall {E : α → Prop} (hE : ∀ x, E x) (p : Prog Op α) : p.Performs P E := by
  induction p with
  | ret x => exact hE x
  | halt => trivial
  | op o k ih => exact fun v => .inr (ih v)

theorem mono {E F : α → Prop} (hEF : ∀ x, E x → F x) {p : Prog Op α} (h : p.Performs P E) :
    p.Performs P F := by
  induction p with
  | ret x => exact hEF x h
  | halt => trivial
  | op o k ih => exact fun v => (h v).imp_right (ih v)

theorem bind {E : β → Prop} {p : Prog Op α} {f : α → Prog Op β}
    (h : p.Performs P fun x => (f x).Performs P E) : (p.bind f).Performs P E := by
  induction p with
  | ret x => exact h
  | halt => trivial
  | op o k ih => exact fun v => (h v).imp_right (ih v)

theorem loop {E : β → Prop} {body : σ → Prog Op (σ ⊕ β)}
    (hbody : ∀ s, (body s).Performs P (Sum.elim (fun _ => True) E)) (fuel : Nat) (s : σ) :
    (loop body fuel s).Performs P E := by
  induction fuel generalizing s with
  | zero => trivial
  | succ fuel ih =>
    refine bind ((hbody s).mono fun r hr => ?_)
    cases r with
    | inl s' => exact ih s'
    | inr x => exact hr

theorem exists_mem {E : α → Prop} {p : Prog Op α} (h : p.Performs P E) {tr : List (Op × Int)}
    {x : α} (hret : p.Returns tr x) : E x ∨ ∃ e ∈ tr, P e.1 e.2 := by
  induction p generalizing tr with
  | ret y =>
    cases hret
    exact .inl h
  | halt => cases hret
  | op o k ih =>
    cases hret with
    | cons hret =>
      cases h _ with
      | inl hP => exact .inr ⟨_, List.mem_cons_self, hP⟩
      | inr hk =>
        refine (ih _ hk hret).imp_right fun hmem => ?_
        obtain ⟨e, he, hP⟩ := hmem
        exact ⟨e, List.mem_cons_of_mem _ he, hP⟩

end Performs

/-! ## Weakest preconditions -/

/-- Whatever a run returns satisfies `Q`, as long as its answers are allowed by `A`. -/
def wp (A : Op → Int → Prop) (Q : α → Prop) : Prog Op α → Prop
  | ret x => Q x
  | op o k => ∀ v, A o v → (k v).wp A Q
  | halt => True

section

variable {A : Op → Int → Prop}

@[simp] theorem wp_ret {Q : α → Prop} {x : α} : (ret x : Prog Op α).wp A Q ↔ Q x := Iff.rfl

@[simp] theorem wp_halt {Q : α → Prop} : (halt : Prog Op α).wp A Q := trivial

@[simp] theorem wp_op {Q : α → Prop} {o : Op} {k : Int → Prog Op α} :
    (op o k).wp A Q ↔ ∀ v, A o v → (k v).wp A Q := Iff.rfl

@[simp] theorem wp_perform {Q : Int → Prop} {o : Op} :
    (perform o).wp A Q ↔ ∀ v, A o v → Q v := Iff.rfl

@[simp] theorem wp_emit {Q : Unit → Prop} {o : Op} :
    (emit o).wp A Q ↔ ∀ v, A o v → Q () := Iff.rfl

@[simp] theorem wp_ite {Q : α → Prop} {c : Prop} [Decidable c] {p q : Prog Op α} :
    (if c then p else q).wp A Q ↔ if c then p.wp A Q else q.wp A Q := by
  split <;> rfl

@[simp] theorem wp_bind {Q : β → Prop} {p : Prog Op α} {f : α → Prog Op β} :
    (p.bind f).wp A Q ↔ p.wp A fun x => (f x).wp A Q := by
  induction p with
  | ret x => rfl
  | halt => exact iff_of_true trivial trivial
  | op o k ih =>
    show (∀ v, A o v → ((k v).bind f).wp A Q) ↔ ∀ v, A o v → (k v).wp A fun x => (f x).wp A Q
    simp only [ih]

theorem wp_mono {Q R : α → Prop} (hQR : ∀ x, Q x → R x) {p : Prog Op α} (h : p.wp A Q) :
    p.wp A R := by
  induction p with
  | ret x => exact hQR x h
  | halt => trivial
  | op o k ih => exact fun v hv => ih v (h v hv)

theorem wp_of_forall {Q : α → Prop} (hQ : ∀ x, Q x) (p : Prog Op α) : p.wp A Q := by
  induction p with
  | ret x => exact hQ x
  | halt => trivial
  | op o k ih => exact fun v _ => ih v

/-- What every round leaves, with the invariant `I` of its states. -/
theorem wp_loop {I : σ → Prop} {Q : β → Prop} {body : σ → Prog Op (σ ⊕ β)}
    (hbody : ∀ s, I s → (body s).wp A (Sum.elim I Q)) (fuel : Nat) {s : σ} (hs : I s) :
    (loop body fuel s).wp A Q := by
  induction fuel generalizing s with
  | zero => trivial
  | succ fuel ih =>
    refine wp_bind.mpr (wp_mono (fun r hr => ?_) (hbody s hs))
    cases r with
    | inl s' => exact ih hr
    | inr x => exact hr

theorem wp.of_returns {Q : α → Prop} {p : Prog Op α} {tr : List (Op × Int)} {x : α}
    (h : p.wp A Q) (hret : p.Returns tr x) (hA : ∀ e ∈ tr, A e.1 e.2) : Q x := by
  induction p generalizing tr with
  | ret y =>
    cases hret
    exact h
  | halt => cases hret
  | op o k ih =>
    cases hret with
    | cons hret =>
      have hv := hA _ List.mem_cons_self
      exact ih _ (h _ hv) hret fun e he => hA e (List.mem_cons_of_mem _ he)

end

/-! ## Programs that change a state -/

/-- An operation `o` answered by `v` takes the state from `s` to `s'` when `T o v s s'`. What a
    run from `s` returns, and the state it returns in, satisfy `Q`. -/
def stateWp (T : Op → Int → τ → τ → Prop) (Q : α → τ → Prop) : Prog Op α → τ → Prop
  | ret x, s => Q x s
  | op o k, s => ∀ v s', T o v s s' → (k v).stateWp T Q s'
  | halt, _ => True

section

variable {T : Op → Int → τ → τ → Prop} {s : τ}

@[simp] theorem stateWp_ret {Q : α → τ → Prop} {x : α} :
    (ret x : Prog Op α).stateWp T Q s ↔ Q x s := Iff.rfl

@[simp] theorem stateWp_halt {Q : α → τ → Prop} : (halt : Prog Op α).stateWp T Q s := trivial

@[simp] theorem stateWp_op {Q : α → τ → Prop} {o : Op} {k : Int → Prog Op α} :
    (op o k).stateWp T Q s ↔ ∀ v s', T o v s s' → (k v).stateWp T Q s' := Iff.rfl

theorem stateWp_bind {Q : β → τ → Prop} {p : Prog Op α} {f : α → Prog Op β} :
    (p.bind f).stateWp T Q s ↔ p.stateWp T (fun x s' => (f x).stateWp T Q s') s := by
  induction p generalizing s with
  | ret x => rfl
  | halt => exact iff_of_true trivial trivial
  | op o k ih =>
    show (∀ v s', T o v s s' → ((k v).bind f).stateWp T Q s') ↔
      ∀ v s', T o v s s' → (k v).stateWp T (fun x s' => (f x).stateWp T Q s') s'
    simp only [ih]

theorem stateWp_mono {Q R : α → τ → Prop} (hQR : ∀ x s', Q x s' → R x s') {p : Prog Op α}
    (h : p.stateWp T Q s) : p.stateWp T R s := by
  induction p generalizing s with
  | ret x => exact hQR x s h
  | halt => trivial
  | op o k ih => exact fun v s' hs => ih v (h v s' hs)

theorem stateWp_of_forall {Q : α → τ → Prop} (hQ : ∀ x s', Q x s') (p : Prog Op α) :
    p.stateWp T Q s := by
  induction p generalizing s with
  | ret x => exact hQ x s
  | halt => trivial
  | op o k ih => exact fun v s' _ => ih v

theorem stateWp_and {Q R : α → τ → Prop} {p : Prog Op α} (hQ : p.stateWp T Q s)
    (hR : p.stateWp T R s) : p.stateWp T (fun x s' => Q x s' ∧ R x s') s := by
  induction p generalizing s with
  | ret x => exact ⟨hQ, hR⟩
  | halt => trivial
  | op o k ih => exact fun v s' hs => ih v (hQ v s' hs) (hR v s' hs)

/-- The first part of a sequence does not matter. -/
theorem stateWp_bind_of_forall {Q : β → τ → Prop} {p : Prog Op α} {f : α → Prog Op β}
    (hf : ∀ x s', (f x).stateWp T Q s') : (p.bind f).stateWp T Q s :=
  stateWp_bind.mpr (stateWp_of_forall hf p)

/-- What every round leaves, with the invariant `I` of its states. -/
theorem stateWp_loop {I : σ → τ → Prop} {Q : β → τ → Prop} {body : σ → Prog Op (σ ⊕ β)}
    (hbody : ∀ i s, I i s → (body i).stateWp T (Sum.elim I Q) s) (fuel : Nat) {i : σ}
    (hi : I i s) : (loop body fuel i).stateWp T Q s := by
  induction fuel generalizing i s with
  | zero => trivial
  | succ fuel ih =>
    apply stateWp_bind.mpr
    apply stateWp_mono _ (hbody i s hi)
    intro r s' hr
    cases r with
    | inl i' => exact ih hr
    | inr x => exact hr

/-- A run from a state with `R` that returns does so in a state with `R`. -/
def Preserves (T : Op → Int → τ → τ → Prop) (R : τ → Prop) (p : Prog Op α) : Prop :=
  ∀ s, R s → p.stateWp T (fun _ => R) s

namespace Preserves

variable {R : τ → Prop}

theorem ret (x : α) : Preserves T R (Prog.ret x : Prog Op α) := fun _ hs => hs

theorem halt : Preserves T R (Prog.halt : Prog Op α) := fun _ _ => trivial

theorem op {o : Op} {k : Int → Prog Op α} (ho : ∀ v s s', T o v s s' → R s → R s')
    (hk : ∀ v, Preserves T R (k v)) : Preserves T R (op o k) :=
  fun s hs v s' ht => hk v s' (ho v s s' ht hs)

theorem bind {p : Prog Op α} {f : α → Prog Op β} (hp : Preserves T R p)
    (hf : ∀ x, Preserves T R (f x)) : Preserves T R (p.bind f) := by
  intro s hs
  apply stateWp_bind.mpr
  exact stateWp_mono (fun x s' hs' => hf x s' hs') (hp s hs)

theorem loop {body : σ → Prog Op (σ ⊕ β)} (hbody : ∀ i, Preserves T R (body i)) (fuel : Nat)
    (i : σ) : Preserves T R (Prog.loop body fuel i) := by
  intro s hs
  apply stateWp_loop (I := fun _ => R) _ fuel hs
  intro i s hs
  apply stateWp_mono _ (hbody i s hs)
  intro r s' hs'
  cases r <;> exact hs'

/-- The program performs only operations that keep the property. -/
theorem of_avoids {P : Op → Prop} (hT : ∀ o v s s', ¬ P o → T o v s s' → R s → R s')
    {p : Prog Op α} (hp : p.Avoids P) : Preserves T R p := by
  induction p with
  | ret x => exact ret x
  | halt => exact halt
  | op o k ih => exact op (fun v s s' => hT o v s s' hp.1) fun v => ih v (hp.2 v)

end Preserves

end

/-! ## Last operations -/

/-- After an answer with `P` the program does nothing more than return an `x` with `Q`. -/
def Finishes (P : Op → Int → Prop) (Q : α → Prop) : Prog Op α → Prop
  | ret _ => True
  | op o k => ∀ v, (P o v → ∃ x, k v = ret x ∧ Q x) ∧ (k v).Finishes P Q
  | halt => True

namespace Finishes

variable {P : Op → Int → Prop}

theorem of_avoids {Q : α → Prop} {p : Prog Op α} (h : p.Avoids fun o => ∃ v, P o v) :
    p.Finishes P Q := by
  induction p with
  | ret | halt => trivial
  | op o k ih => exact fun v => ⟨fun hP => absurd ⟨v, hP⟩ h.1, ih v (h.2 v)⟩

/-- An operation that is not a last one. -/
theorem of_op {Q : α → Prop} {o : Op} {k : Int → Prog Op α} (ho : ∀ v, ¬ P o v)
    (hk : ∀ v, (k v).Finishes P Q) : (op o k).Finishes P Q :=
  fun v => ⟨fun hP => absurd hP (ho v), hk v⟩

theorem bind {Q : α → Prop} {R : β → Prop} {p : Prog Op α} {f : α → Prog Op β}
    (hp : p.Finishes P Q) (hQ : ∀ x, Q x → ∃ y, f x = ret y ∧ R y)
    (hf : ∀ x, (f x).Finishes P R) : (p.bind f).Finishes P R := by
  induction p with
  | ret x => exact hf x
  | halt => trivial
  | op o k ih =>
    intro v
    show (P o v → ∃ y, (k v).bind f = ret y ∧ R y) ∧ ((k v).bind f).Finishes P R
    refine ⟨fun hP => ?_, ih v (hp v).2⟩
    obtain ⟨x, hk, hx⟩ := (hp v).1 hP
    obtain ⟨y, hy, hR⟩ := hQ x hx
    exact ⟨y, by rw [hk, ret_bind, hy], hR⟩

theorem loop {Q : β → Prop} {body : σ → Prog Op (σ ⊕ β)}
    (hbody : ∀ s, (body s).Finishes P (Sum.elim (fun _ => False) Q)) (fuel : Nat) (s : σ) :
    (loop body fuel s).Finishes P Q := by
  induction fuel generalizing s with
  | zero => trivial
  | succ fuel ih =>
    apply (hbody s).bind
    · intro r hr
      cases r with
      | inl s' => exact hr.elim
      | inr x => exact ⟨x, rfl, hr⟩
    · intro r
      cases r with
      | inl s' => exact ih s'
      | inr x => trivial

theorem leads {Q : α → Prop} {p q : Prog Op α} {tr : List (Op × Int)} (hp : p.Finishes P Q)
    (h : p.Leads tr q) : q.Finishes P Q := by
  induction h with
  | nil => exact hp
  | cons _ ih => exact ih (hp _).2

/-- The program a run with such an answer at its end has come to. -/
theorem of_leads {Q : α → Prop} {p q : Prog Op α} {tr : List (Op × Int)} {o : Op} {v : Int}
    (hp : p.Finishes P Q) (h : p.Leads (tr ++ [(o, v)]) q) (hP : P o v) :
    ∃ x, q = ret x ∧ Q x := by
  obtain ⟨k, hbefore, rfl⟩ := h.concat_inv
  have hk : (op o k).Finishes P Q := hp.leads hbefore
  exact (hk v).1 hP

end Finishes

/-! ## Calls to an object -/

section

variable {act : Op → Option (σ → Option (Int × σ))} {A : Op → Int → Prop}

/-- A run of a program that calls an object with the states `σ`. A call finds the object in
    some state, where others have left it, and leaves it in another; `act o` tells how the
    object answers the operation `o`, and in which states it does not let it return. The other
    operations are answered as `A` allows. The run records the states before and after each
    call, and ends where the program has returned or halted or is at a call. -/
inductive RunsTo (act : Op → Option (σ → Option (Int × σ))) (A : Op → Int → Prop) :
    Prog Op α → List (σ × σ) → Prog Op α → Prop where
  | ret (x : α) : RunsTo act A (ret x) [] (ret x)
  | halt : RunsTo act A halt [] halt
  | wait {o : Op} {k : Int → Prog Op α} {f : σ → Option (Int × σ)} (hf : act o = some f) :
    RunsTo act A (op o k) [] (op o k)
  | call {o : Op} {k : Int → Prog Op α} {f : σ → Option (Int × σ)} {s s' : σ} {v : Int}
      {cs : List (σ × σ)} {q : Prog Op α} (hf : act o = some f) (hs : f s = some (v, s'))
      (h : RunsTo act A (k v) cs q) : RunsTo act A (op o k) ((s, s') :: cs) q
  | go {o : Op} {k : Int → Prog Op α} {v : Int} {cs : List (σ × σ)} {q : Prog Op α}
      (ho : act o = none) (hv : A o v) (h : RunsTo act A (k v) cs q) :
    RunsTo act A (op o k) cs q

@[simp] theorem runsTo_ret {x : α} {cs : List (σ × σ)} {q : Prog Op α} :
    RunsTo act A (ret x) cs q ↔ cs = [] ∧ q = ret x := by
  constructor
  · intro h
    cases h
    exact ⟨rfl, rfl⟩
  · rintro ⟨rfl, rfl⟩
    exact .ret x

theorem runsTo_go {o : Op} {k : Int → Prog Op α} {cs : List (σ × σ)} {q : Prog Op α}
    (ho : act o = none) :
    RunsTo act A (op o k) cs q ↔ ∃ v, A o v ∧ RunsTo act A (k v) cs q := by
  constructor
  · intro h
    cases h with
    | wait hf | call hf => simp [ho] at hf
    | go _ hv h => exact ⟨_, hv, h⟩
  · rintro ⟨v, hv, h⟩
    exact .go ho hv h

theorem runsTo_call {o : Op} {k : Int → Prog Op α} {f : σ → Option (Int × σ)}
    {cs : List (σ × σ)} {q : Prog Op α} (hf : act o = some f) :
    RunsTo act A (op o k) cs q ↔ (cs = [] ∧ q = op o k) ∨
      ∃ s v s' cs', cs = (s, s') :: cs' ∧ f s = some (v, s') ∧ RunsTo act A (k v) cs' q := by
  constructor
  · intro h
    cases h with
    | wait => exact .inl ⟨rfl, rfl⟩
    | call hf' hs h =>
      rw [hf, Option.some.injEq] at hf'
      subst hf'
      exact .inr ⟨_, _, _, _, rfl, hs, h⟩
    | go ho => simp [hf] at ho
  · rintro (⟨rfl, rfl⟩ | ⟨s, v, s', cs', rfl, hs, h⟩)
    · exact .wait hf
    · exact .call hf hs h

/-- The run whose calls find the states `ss`, one after the other, and whose other operations
    are answered by 0: its calls, and what it returns. -/
def serve (act : Op → Option (σ → Option (Int × σ))) :
    Prog Op α → List σ → Option (List (σ × σ) × α)
  | ret x, [] => some ([], x)
  | ret _, _ :: _ => none
  | halt, _ => none
  | op o k, ss =>
    match act o with
    | none => (k 0).serve act ss
    | some f =>
      match ss with
      | [] => none
      | s :: ss => (f s).bind fun r =>
        ((k r.1).serve act ss).map fun c => ((s, r.2) :: c.1, c.2)

theorem runsTo_of_serve (hA : ∀ o, act o = none → A o 0) {p : Prog Op α} {ss : List σ}
    {cs : List (σ × σ)} {x : α} (h : p.serve act ss = some (cs, x)) :
    RunsTo act A p cs (.ret x) := by
  induction p generalizing ss cs with
  | ret y =>
    cases ss with
    | nil =>
      simp only [serve, Option.some.injEq, Prod.mk.injEq] at h
      obtain ⟨rfl, rfl⟩ := h
      exact .ret y
    | cons s ss => simp [serve] at h
  | halt => simp [serve] at h
  | op o k ih =>
    unfold serve at h
    cases ho : act o with
    | none =>
      simp only [ho] at h
      exact .go ho (hA o ho) (ih 0 h)
    | some f =>
      simp only [ho] at h
      cases ss with
      | nil => simp at h
      | cons s ss =>
        simp only [Option.bind_eq_some_iff, Option.map_eq_some_iff, Prod.mk.injEq] at h
        obtain ⟨⟨v, s'⟩, hs, ⟨cs', y⟩, hk, rfl, rfl⟩ := h
        exact .call ho hs (ih v hk)

end

end Prog

end TxLock
