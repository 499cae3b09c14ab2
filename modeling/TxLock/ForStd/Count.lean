import Mathlib.Data.Fintype.Card

/-!
# Counting after a change at one place

How many elements of a finite type satisfy a predicate, when the predicate changes at one
element.

## Key results

- `card_filter_succ`: one element more
- `card_filter_le`, `card_filter_lt`, `card_filter_le_succ`: no fewer elements, more of them, or
  one fewer at most
-/

namespace TxLock

variable {α : Type} [Fintype α] {p q : α → Prop} [DecidablePred p] [DecidablePred q] {a : α}

/-- A predicate that holds of `a`, and elsewhere where `q` does, holds of one element more. -/
theorem card_filter_succ (hp : p a) (hq : ¬ q a) (h : ∀ b, b ≠ a → (p b ↔ q b)) :
    (Finset.univ.filter p).card = (Finset.univ.filter q).card + 1 := by
  classical
  have hset : Finset.univ.filter p = insert a (Finset.univ.filter q) := by
    ext b
    simp only [Finset.mem_filter, Finset.mem_univ, true_and, Finset.mem_insert]
    by_cases hb : b = a
    · subst hb
      exact iff_of_true hp (.inl rfl)
    · rw [h b hb]
      exact ⟨.inr, fun hb' => hb'.resolve_left hb⟩
  have hnot : a ∉ Finset.univ.filter q := by
    simpa using hq
  rw [hset, Finset.card_insert_of_notMem hnot]

/-- A predicate that holds of no more elements. -/
theorem card_filter_le (h : ∀ b, p b → q b) :
    (Finset.univ.filter p).card ≤ (Finset.univ.filter q).card :=
  Finset.card_le_card (Finset.monotone_filter_right _ fun b _ hb => h b hb)

/-- A predicate that holds of fewer elements, as it does not hold of `a`. -/
theorem card_filter_lt (h : ∀ b, p b → q b) (hp : ¬ p a) (hq : q a) :
    (Finset.univ.filter p).card < (Finset.univ.filter q).card := by
  refine Finset.card_lt_card ((Finset.ssubset_iff_of_subset fun b hb => ?_).mpr ⟨a, ?_, ?_⟩)
  · simp only [Finset.mem_filter, Finset.mem_univ, true_and] at hb ⊢
    exact h b hb
  · simpa using hq
  · simpa using hp

/-- A predicate that holds of no more elements, but for `a`. -/
theorem card_filter_le_succ (h : ∀ b, b ≠ a → p b → q b) :
    (Finset.univ.filter p).card ≤ (Finset.univ.filter q).card + 1 := by
  classical
  refine (Finset.card_le_card fun b hb => ?_).trans
    (Finset.card_insert_le a (Finset.univ.filter q))
  simp only [Finset.mem_filter, Finset.mem_univ, true_and, Finset.mem_insert] at hb ⊢
  by_cases hba : b = a
  · exact .inl hba
  · exact .inr (h b hba hb)

end TxLock
