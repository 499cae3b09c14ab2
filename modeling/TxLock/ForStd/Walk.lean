import TxLock.ForStd.Prog

/-!
# Programs that walk a control graph

A control graph has an operation at each of its places, and for each answer the place it
leads to. A program walks the graph when it performs the operations of the places, one
after the other, whatever they are answered. The operations that concern only the thread
itself are not in the graph; they change the thread's own state.

A program that is cut into steps by a graph can be followed by a transition system whose
steps are the places of the graph.

## Key results

- `Prog.walks_bind`, `Prog.walks_loop`: walks of a sequence and of a loop
- `Prog.walks_own`, `Prog.walks_node`: what the next operation of a walk is
-/

namespace TxLock

/-- A place of a control graph: the end, or an operation and where its answers lead. -/
inductive GraphNode (Op Pl : Type) where
  | ret (x : Int)
  | op (o : Op) (next : Int → Pl)

namespace Prog

variable {Op α β σ τ Pl : Type}

/-- From the place `pl` and with the own state `w`, the program walks the graph `G`, and where it
    returns, `Q` holds of what it returns, its own state and its place. An operation with
    `own o = some f` is the thread's own: answered by `v` it changes the state `w` to `f w v`. -/
def Walks (G : Pl → GraphNode Op Pl) (own : Op → Option (τ → Int → Option τ))
    (Q : α → τ → Pl → Prop) : Prog Op α → τ → Pl → Prop
  | ret x, w, pl => Q x w pl
  | halt, _, _ => True
  | op o k, w, pl =>
    match own o with
    | some f => ∀ v w', f w v = some w' → (k v).Walks G own Q w' pl
    | none => ∃ next, G pl = .op o next ∧ ∀ v, (k v).Walks G own Q w (next v)

section

variable {G : Pl → GraphNode Op Pl} {own : Op → Option (τ → Int → Option τ)} {w : τ} {pl : Pl}

@[simp] theorem walks_ret {Q : α → τ → Pl → Prop} {x : α} :
    (ret x : Prog Op α).Walks G own Q w pl ↔ Q x w pl := Iff.rfl

@[simp] theorem walks_halt {Q : α → τ → Pl → Prop} :
    (halt : Prog Op α).Walks G own Q w pl := trivial

/-- An operation of the thread's own. -/
theorem walks_own {Q : α → τ → Pl → Prop} {o : Op} {k : Int → Prog Op α}
    {f : τ → Int → Option τ} (ho : own o = some f) :
    (op o k).Walks G own Q w pl ↔ ∀ v w', f w v = some w' → (k v).Walks G own Q w' pl := by
  simp only [Walks, ho]

/-- An operation of the graph. -/
theorem walks_node {Q : α → τ → Pl → Prop} {o : Op} {k : Int → Prog Op α} (ho : own o = none) :
    (op o k).Walks G own Q w pl ↔
      ∃ next, G pl = .op o next ∧ ∀ v, (k v).Walks G own Q w (next v) := by
  simp only [Walks, ho]

theorem walks_ite {Q : α → τ → Pl → Prop} {c : Prop} [Decidable c] {p q : Prog Op α} :
    (if c then p else q).Walks G own Q w pl ↔
      if c then p.Walks G own Q w pl else q.Walks G own Q w pl := by
  split <;> rfl

theorem walks_mono {Q R : α → τ → Pl → Prop} (hQR : ∀ x w pl, Q x w pl → R x w pl)
    {p : Prog Op α} (h : p.Walks G own Q w pl) : p.Walks G own R w pl := by
  induction p generalizing w pl with
  | ret x => exact hQR x w pl h
  | halt => trivial
  | op o k ih =>
    cases ho : own o with
    | some f =>
      rw [walks_own ho] at h ⊢
      exact fun v w' hw => ih v (h v w' hw)
    | none =>
      rw [walks_node ho] at h ⊢
      obtain ⟨next, hnode, hnext⟩ := h
      exact ⟨next, hnode, fun v => ih v (hnext v)⟩

/-- A sequence walks on from where its first part returns. -/
theorem walks_bind {Q : β → τ → Pl → Prop} {p : Prog Op α} {f : α → Prog Op β} :
    (p.bind f).Walks G own Q w pl ↔
      p.Walks G own (fun x w' pl' => (f x).Walks G own Q w' pl') w pl := by
  induction p generalizing w pl with
  | ret x => rfl
  | halt => exact iff_of_true trivial trivial
  | op o k ih =>
    rw [op_bind]
    cases ho : own o with
    | some g => simp only [walks_own ho, ih]
    | none => simp only [walks_node ho, ih]

/-- The rounds of a loop, with the invariant `I` of where they begin. -/
theorem walks_loop {I : σ → τ → Pl → Prop} {Q : β → τ → Pl → Prop}
    {body : σ → Prog Op (σ ⊕ β)}
    (hbody : ∀ i w pl, I i w pl → (body i).Walks G own (Sum.elim I Q) w pl) (fuel : Nat) {i : σ}
    (hi : I i w pl) : (loop body fuel i).Walks G own Q w pl := by
  induction fuel generalizing i w pl with
  | zero => trivial
  | succ fuel ih =>
    apply walks_bind.mpr
    apply walks_mono _ (hbody i w pl hi)
    intro r w' pl' hr
    cases r with
    | inl i' => exact ih hr
    | inr x => exact hr

end

end Prog

end TxLock
