import Mathlib.Logic.Function.Basic

/-!
# Sequences of reads and writes

A section of code as the reads and writes it has done to a store, each with the value
read or written. `Access.Legal d l` says that every read of `l` finds its value when `l`
runs alone from `d`, `Access.after d l` is what it leaves.

## Key results

- `Access.legal_append`, `Access.after_append`: one section after another
- `Access.Legal.congr`: only the addresses a section touches matter
-/

namespace TxLock

/-- A read or a write, with the value. -/
inductive Access (ι ν : Type) where
  | read (x : ι) (v : ν)
  | write (x : ι) (v : ν)
  deriving DecidableEq, Repr

namespace Access

variable {ι ν : Type}

/-- The address `x` is written by some access. -/
def Writes (l : List (Access ι ν)) (x : ι) : Prop := ∃ v, write x v ∈ l

/-- The address `x` is read or written by some access. -/
def Touches (l : List (Access ι ν)) (x : ι) : Prop := (∃ v, read x v ∈ l) ∨ Writes l x

theorem Writes.touches {l : List (Access ι ν)} {x : ι} (h : Writes l x) : Touches l x := .inr h

@[simp] theorem not_touches_nil (x : ι) : ¬ Touches ([] : List (Access ι ν)) x := by
  simp [Touches, Writes]

theorem writes_append {l l' : List (Access ι ν)} {x : ι} :
    Writes (l ++ l') x ↔ Writes l x ∨ Writes l' x := by
  simp only [Writes, List.mem_append, exists_or]

theorem touches_append {l l' : List (Access ι ν)} {x : ι} :
    Touches (l ++ l') x ↔ Touches l x ∨ Touches l' x := by
  simp only [Touches, writes_append, List.mem_append, exists_or]
  exact or_or_or_comm

@[simp] theorem not_writes_read (x y : ι) (v : ν) : ¬ Writes [read y v] x := by simp [Writes]

@[simp] theorem writes_write (x y : ι) (v : ν) : Writes [write y v] x ↔ x = y := by simp [Writes]

@[simp] theorem touches_read (x y : ι) (v : ν) : Touches [read y v] x ↔ x = y := by
  simp [Touches]

@[simp] theorem touches_write (x y : ι) (v : ν) : Touches [write y v] x ↔ x = y := by
  simp [Touches]

variable [DecidableEq ι]

instance (l : List (Access ι ν)) (x : ι) : Decidable (Writes l x) :=
  decidable_of_iff (l.any fun
    | .write y _ => y = x
    | .read _ _ => false) (by
      simp only [List.any_eq_true, Writes]
      constructor
      · rintro ⟨a | ⟨y, v⟩, hmem, ha⟩
        · simp at ha
        · simp only [decide_eq_true_eq] at ha
          exact ⟨v, ha ▸ hmem⟩
      · rintro ⟨v, hmem⟩
        exact ⟨_, hmem, by simp⟩)

instance (l : List (Access ι ν)) (x : ι) : Decidable (Touches l x) :=
  decidable_of_iff (l.any fun
    | .write y _ | .read y _ => y = x) (by
      simp only [List.any_eq_true, Touches, Writes]
      constructor
      · rintro ⟨⟨y, v⟩ | ⟨y, v⟩, hmem, ha⟩ <;> simp only [decide_eq_true_eq] at ha
        · exact .inl ⟨v, ha ▸ hmem⟩
        · exact .inr ⟨v, ha ▸ hmem⟩
      · rintro (⟨v, hmem⟩ | ⟨v, hmem⟩)
        · exact ⟨_, hmem, by simp⟩
        · exact ⟨_, hmem, by simp⟩)

/-- The store after the writes. -/
def after (d : ι → ν) : List (Access ι ν) → ι → ν
  | [] => d
  | read _ _ :: l => after d l
  | write x v :: l => after (Function.update d x v) l

/-- Every read finds its value. -/
def Legal (d : ι → ν) : List (Access ι ν) → Prop
  | [] => True
  | read x v :: l => d x = v ∧ Legal d l
  | write x v :: l => Legal (Function.update d x v) l

variable {d d' : ι → ν} {l l' : List (Access ι ν)}

theorem after_append (d : ι → ν) (l l' : List (Access ι ν)) :
    after d (l ++ l') = after (after d l) l' := by
  induction l generalizing d with
  | nil => rfl
  | cons a l ih => cases a <;> exact ih _

theorem legal_append : Legal d (l ++ l') ↔ Legal d l ∧ Legal (after d l) l' := by
  induction l generalizing d with
  | nil => simp [Legal, after]
  | cons a l ih =>
    cases a with
    | read x v => simp only [List.cons_append, Legal, after, ih, and_assoc]
    | write x v => simp only [List.cons_append, Legal, after, ih]

/-- An address that is not written keeps its value. -/
theorem after_of_not_writes {x : ι} (hx : ¬ Writes l x) : after d l x = d x := by
  induction l generalizing d with
  | nil => rfl
  | cons a l ih =>
    have hrest : ¬ Writes l x := fun ⟨v, hv⟩ => hx ⟨v, List.mem_cons_of_mem _ hv⟩
    cases a with
    | read y v => exact ih hrest
    | write y v =>
      have hxy : x ≠ y := fun hxy => hx ⟨v, hxy ▸ List.mem_cons_self⟩
      rw [after, ih hrest, Function.update_of_ne hxy]

/-- A section finds the same values in a store that agrees on what it touches. -/
theorem Legal.congr (h : Legal d l) (hd : ∀ x, Touches l x → d' x = d x) : Legal d' l := by
  induction l generalizing d d' with
  | nil => trivial
  | cons a l ih =>
    have hrest : ∀ {a : Access ι ν} {x}, Touches l x → Touches (a :: l) x := fun hx =>
      hx.imp (fun ⟨v, hv⟩ => ⟨v, List.mem_cons_of_mem _ hv⟩)
        fun ⟨v, hv⟩ => ⟨v, List.mem_cons_of_mem _ hv⟩
    cases a with
    | read x v =>
      refine ⟨(hd x (.inl ⟨v, List.mem_cons_self⟩)).trans h.1, ih h.2 fun y hy => ?_⟩
      exact hd y (hrest hy)
    | write x v =>
      refine ih h fun y hy => ?_
      by_cases hyx : y = x
      · rw [hyx, Function.update_self, Function.update_self]
      · rw [Function.update_of_ne hyx, Function.update_of_ne hyx]
        exact hd y (hrest hy)

end Access

end TxLock
