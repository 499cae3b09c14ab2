import Mathlib.Logic.Function.Basic
import Mathlib.Data.List.Basic
import Mathlib.Data.List.Induction

/-!
# Linked lists on a heap

A list kept in memory by links: `f a` is the address after `a`, `none` is the null
pointer. `Linked f p l` says that following `f` from `p` visits the cells `l` and
then ends. A doubly linked list (`DLinked`) is linked forwards by one field and, in
reverse, by another.

The operations are stated for any new link function that agrees with the old one on
the cells that are not written, so they apply to a field of a record as well.

## Key results

- `Linked.unique`, `Linked.nodup`: the cells are determined by the links, and a list
  that ends visits no cell twice
- `Linked.concat`, `Linked.take`: linking a cell behind the last one, cutting the list
  behind a cell
- `Linked.follow_eq`: the cells, computed
- `DLinked.push`, `DLinked.pop`, `DLinked.symm`: a queue that is served at both ends
- `DLinked.next_eq_iff`: its links are inverse to each other
- `Chained.cons`, `Chained.remove`: a list with back links, cells added in front and
  removed anywhere
-/

namespace TxLock

variable {ι : Type} {f g : ι → Option ι} {p : Option ι} {a b : ι} {l l' : List ι}

/-- Following `f` from `p` visits exactly the cells `l`. -/
def Linked (f : ι → Option ι) : Option ι → List ι → Prop
  | p, [] => p = none
  | p, a :: l => p = some a ∧ Linked f (f a) l

@[simp] theorem linked_nil : Linked f p [] ↔ p = none := Iff.rfl

@[simp] theorem linked_cons : Linked f p (a :: l) ↔ p = some a ∧ Linked f (f a) l := Iff.rfl

namespace Linked

theorem head?_eq (h : Linked f p l) : l.head? = p := by
  cases l with
  | nil => exact h.symm
  | cons a l => exact h.1.symm

theorem eq_nil_iff (h : Linked f p l) : l = [] ↔ p = none := by
  rw [← h.head?_eq, List.head?_eq_none_iff]

/-- The first cell of a list that is not empty. -/
theorem exists_cons (h : Linked f (some a) l) : ∃ l', l = a :: l' ∧ Linked f (f a) l' := by
  cases l with
  | nil => simp at h
  | cons b l =>
    simp only [linked_cons, Option.some.injEq] at h
    obtain ⟨rfl, h⟩ := h
    exact ⟨l, rfl, h⟩

/-- The links determine the cells. -/
theorem unique (h : Linked f p l) (h' : Linked f p l') : l = l' := by
  induction l generalizing p l' with
  | nil =>
    rw [linked_nil] at h
    exact (h'.eq_nil_iff.mpr h).symm
  | cons a l ih =>
    obtain ⟨rfl, h⟩ := h
    obtain ⟨r, rfl, hr⟩ := h'.exists_cons
    rw [ih h hr]

/-- Only the links of the cells matter. -/
theorem congr (h : Linked f p l) (hfg : ∀ a ∈ l, g a = f a) : Linked g p l := by
  induction l generalizing p with
  | nil => exact h
  | cons a l ih =>
    refine ⟨h.1, ?_⟩
    rw [hfg a List.mem_cons_self]
    exact ih h.2 fun b hb => hfg b (List.mem_cons_of_mem _ hb)

/-- The list behind one of its cells. -/
theorem drop (h : Linked f p (l ++ a :: l')) : Linked f (some a) (a :: l') := by
  induction l generalizing p with
  | nil => exact ⟨rfl, h.2⟩
  | cons b l ih => exact ih h.2

/-- A list that ends visits no cell twice: behind a second visit the list would have
    to go on as it did behind the first. -/
theorem nodup (h : Linked f p l) : l.Nodup := by
  induction l generalizing p with
  | nil => exact List.nodup_nil
  | cons a l ih =>
    refine List.nodup_cons.mpr ⟨fun hmem => ?_, ih h.2⟩
    obtain ⟨l₁, l₂, rfl⟩ := List.append_of_mem hmem
    have hself : Linked f (some a) (a :: (l₁ ++ a :: l₂)) := ⟨rfl, h.2⟩
    have hagain : Linked f (some a) (a :: l₂) := h.2.drop
    have hlen := congrArg List.length (hself.unique hagain)
    simp only [List.length_cons, List.length_append] at hlen
    omega

/-- The link of a cell leads to the cell behind it. -/
theorem next_eq (h : Linked f p (l ++ a :: l')) : f a = l'.head? := h.drop.2.head?_eq.symm

/-- Cut the list behind the cell `a`. -/
theorem take (h : Linked f p (l ++ a :: l')) (ha : g a = none) (hfg : ∀ b ∈ l, g b = f b) :
    Linked g p (l ++ [a]) := by
  induction l generalizing p with
  | nil => exact ⟨h.1, ha⟩
  | cons b l ih =>
    refine ⟨h.1, ?_⟩
    rw [hfg b List.mem_cons_self]
    exact ih h.2 fun c hc => hfg c (List.mem_cons_of_mem _ hc)

/-- Link the cell `b` behind the last cell `a`. -/
theorem concat (h : Linked f p (l ++ [a])) (hfg : ∀ c ∈ l, g c = f c) (ha : g a = some b)
    (hb : g b = none) : Linked g p (l ++ [a] ++ [b]) := by
  induction l generalizing p with
  | nil => exact ⟨h.1, ha, hb⟩
  | cons c l ih =>
    refine ⟨h.1, ?_⟩
    rw [hfg c List.mem_cons_self]
    exact ih h.2 fun d hd => hfg d (List.mem_cons_of_mem _ hd)

end Linked

/-- The cells that following `f` from `p` visits, the first `k` of them. -/
def follow (f : ι → Option ι) : Nat → Option ι → List ι
  | 0, _ => []
  | _ + 1, none => []
  | k + 1, some a => a :: follow f k (f a)

theorem Linked.follow_eq {k : Nat} (h : Linked f p l) (hk : l.length ≤ k) :
    follow f k p = l := by
  induction l generalizing p k with
  | nil =>
    rw [linked_nil] at h
    subst h
    cases k <;> rfl
  | cons a l ih =>
    obtain ⟨rfl, h⟩ := h
    cases k with
    | zero => simp at hk
    | succ k =>
      simp only [List.length_cons, Nat.add_le_add_iff_right] at hk
      rw [follow, ih h hk]

/-- A doubly linked list with the cells `q`: from `first` by `next`, from `last` by `prev`. -/
structure DLinked (next prev : ι → Option ι) (first last : Option ι) (q : List ι) : Prop where
  fwd : Linked next first q
  bwd : Linked prev last q.reverse

namespace DLinked

variable {next prev next' prev' : ι → Option ι} {first last : Option ι} {q : List ι}

theorem empty : DLinked next prev none none [] := ⟨rfl, rfl⟩

theorem symm (h : DLinked next prev first last q) : DLinked prev next last first q.reverse :=
  ⟨h.bwd, by rw [List.reverse_reverse]; exact h.fwd⟩

theorem nodup (h : DLinked next prev first last q) : q.Nodup := h.fwd.nodup

theorem first_eq_none_iff (h : DLinked next prev first last q) : first = none ↔ q = [] :=
  h.fwd.eq_nil_iff.symm

theorem last_eq_none_iff (h : DLinked next prev first last q) : last = none ↔ q = [] := by
  rw [← h.bwd.eq_nil_iff, List.reverse_eq_nil_iff]

/-- The last cell is the end of the list. -/
theorem exists_concat (h : DLinked next prev first (some a) q) : ∃ q', q = q' ++ [a] := by
  obtain ⟨r, hr, -⟩ := h.bwd.exists_cons
  refine ⟨r.reverse, ?_⟩
  rw [← List.reverse_reverse q, hr, List.reverse_cons]

theorem mem_first (h : DLinked next prev (some a) last q) : a ∈ q := by
  obtain ⟨r, rfl, -⟩ := h.fwd.exists_cons
  exact List.mem_cons_self

theorem mem_last (h : DLinked next prev first (some a) q) : a ∈ q :=
  List.mem_reverse.mp h.symm.mem_first

/-- Where a link leads from a cell of the list, the other link leads back. -/
theorem prev_of_next (h : DLinked next prev first last q) (ha : a ∈ q) (hn : next a = some b) :
    b ∈ q ∧ prev b = some a := by
  obtain ⟨l, r, rfl⟩ := List.append_of_mem ha
  have hr : r.head? = some b := by rw [← h.fwd.next_eq, hn]
  obtain ⟨r', rfl⟩ := List.head?_eq_some_iff.mp hr
  have hbwd := h.bwd
  simp only [List.reverse_append, List.reverse_cons, List.append_assoc, List.cons_append,
    List.nil_append] at hbwd
  exact ⟨by simp, by rw [hbwd.next_eq, List.head?_cons]⟩

/-- The links are inverse to each other on the list. -/
theorem next_eq_iff (h : DLinked next prev first last q) (ha : a ∈ q) (hb : b ∈ q) :
    next a = some b ↔ prev b = some a :=
  ⟨fun hn => (h.prev_of_next ha hn).2,
    fun hp => (h.symm.prev_of_next (List.mem_reverse.mpr hb) hp).2⟩

/-- Only the links of the cells matter. -/
theorem congr (h : DLinked next prev first last q) (hn : ∀ a ∈ q, next' a = next a)
    (hp : ∀ a ∈ q, prev' a = prev a) : DLinked next' prev' first last q :=
  ⟨h.fwd.congr hn, h.bwd.congr fun a ha => hp a (List.mem_reverse.mp ha)⟩

/-- The first cell of an empty queue. -/
theorem single (hn : next a = none) (hp : prev a = none) :
    DLinked next prev (some a) (some a) [a] :=
  ⟨⟨rfl, hn⟩, ⟨rfl, hp⟩⟩

/-- A cell `b` is linked behind the last cell `a`. -/
theorem push (h : DLinked next prev first (some a) q) (hb : b ∉ q)
    (hn : ∀ c ∈ q, c ≠ a → next' c = next c) (hna : next' a = some b) (hnb : next' b = none)
    (hp : ∀ c ∈ q, prev' c = prev c) (hpb : prev' b = some a) :
    DLinked next' prev' first (some b) (q ++ [b]) := by
  obtain ⟨r, rfl⟩ := h.exists_concat
  have hnodup := h.nodup
  refine ⟨?_, ?_⟩
  · refine h.fwd.concat (fun c hc => hn c (List.mem_append_left _ hc) ?_) hna hnb
    rintro rfl
    exact absurd rfl (List.nodup_append.mp hnodup |>.2.2 c hc c (List.mem_singleton.mpr rfl))
  · rw [List.reverse_append, List.reverse_singleton, List.singleton_append]
    refine ⟨rfl, ?_⟩
    rw [hpb]
    exact h.bwd.congr fun c hc => hp c (List.mem_reverse.mp hc)

/-- The first cell is taken off: the next one becomes the first, or the list is empty. -/
theorem pop (h : DLinked next prev (some a) last q) :
    ∃ r, q = a :: r ∧ a ∉ r ∧ Linked next (next a) r ∧
      (next a = none → DLinked next' prev' none none r) ∧
      ∀ b, next a = some b → prev' b = none → (∀ c ∈ r, next' c = next c) →
        (∀ c ∈ r, c ≠ b → prev' c = prev c) → DLinked next' prev' (some b) last r := by
  obtain ⟨r, rfl, hr⟩ := h.fwd.exists_cons
  have hnodup := h.nodup
  refine ⟨r, rfl, (List.nodup_cons.mp hnodup).1, hr, fun hnone => ?_, fun b hb hpb hn hp => ?_⟩
  · rw [hr.eq_nil_iff.mpr hnone]
    exact .empty
  · rw [hb] at hr
    obtain ⟨r', rfl, -⟩ := hr.exists_cons
    refine ⟨hr.congr hn, ?_⟩
    have hbwd := h.bwd
    simp only [List.reverse_cons, List.append_assoc, List.singleton_append] at hbwd ⊢
    refine hbwd.take hpb fun c hc => hp c ?_ ?_
    · exact List.mem_cons_of_mem _ (List.mem_reverse.mp hc)
    · rintro rfl
      simp only [List.nodup_cons] at hnodup
      exact hnodup.2.1 (List.mem_reverse.mp hc)

end DLinked

/-- Following `next` from `p` visits the cells `l`, and `prev` leads from each of them to the
    one before, from the first to `b`. -/
def Chained (next prev : ι → Option ι) : Option ι → Option ι → List ι → Prop
  | _, p, [] => p = none
  | b, p, a :: l => p = some a ∧ prev a = b ∧ Chained next prev (some a) (next a) l

namespace Chained

variable {next prev next' prev' : ι → Option ι} {before : Option ι}

theorem linked (h : Chained next prev before p l) : Linked next p l := by
  induction l generalizing before p with
  | nil => exact h
  | cons a l ih => exact ⟨h.1, ih h.2.2⟩

/-- Only the links of the cells matter. -/
theorem congr (h : Chained next prev before p l) (hn : ∀ a ∈ l, next' a = next a)
    (hp : ∀ a ∈ l, prev' a = prev a) : Chained next' prev' before p l := by
  induction l generalizing before p with
  | nil => exact h
  | cons a l ih =>
    obtain ⟨rfl, hb, h⟩ := h
    refine ⟨rfl, by rw [hp a List.mem_cons_self, hb], ?_⟩
    rw [hn a List.mem_cons_self]
    exact ih h (fun c hc => hn c (List.mem_cons_of_mem _ hc))
      fun c hc => hp c (List.mem_cons_of_mem _ hc)

/-- The back link of a cell leads to the cell before it. -/
theorem prev_eq (h : Chained next prev before p (l ++ a :: l')) :
    prev a = l.getLast?.or before := by
  induction l generalizing before p with
  | nil => exact h.2.1
  | cons c l ih =>
    rw [ih h.2.2]
    cases l using List.reverseRecOn with
    | nil => rfl
    | append_singleton l d => rw [← List.cons_append, List.getLast?_concat, List.getLast?_concat]; rfl

/-- The link of a cell leads to the cell behind it. -/
theorem next_eq (h : Chained next prev before p (l ++ a :: l')) : next a = l'.head? :=
  h.linked.next_eq

/-- The links are inverse to each other. -/
theorem next_eq_iff (h : Chained next prev none p l) (ha : a ∈ l) (hb : b ∈ l) :
    next a = some b ↔ prev b = some a := by
  constructor
  · intro hn
    obtain ⟨l₁, l₂, rfl⟩ := List.append_of_mem ha
    rw [h.next_eq] at hn
    obtain ⟨l₃, rfl⟩ := List.head?_eq_some_iff.mp hn
    have hsplit : l₁ ++ a :: b :: l₃ = (l₁ ++ [a]) ++ b :: l₃ := by simp
    rw [hsplit] at h
    rw [h.prev_eq, List.getLast?_concat]
    rfl
  · intro hp
    obtain ⟨l₁, l₂, rfl⟩ := List.append_of_mem hb
    rw [h.prev_eq, Option.or_none] at hp
    obtain ⟨l₃, rfl⟩ := List.getLast?_eq_some_iff.mp hp
    rw [List.append_assoc] at h
    exact h.next_eq

variable [DecidableEq ι]

/-- A cell is added in front. -/
theorem cons (h : Chained next prev before p l) (ha : a ∉ l) (hna : next' a = p)
    (hpa : prev' a = before) (hn : ∀ c ∈ l, next' c = next c)
    (hp : ∀ c ∈ l, prev' c = if p = some c then some a else prev c) :
    Chained next' prev' before (some a) (a :: l) := by
  refine ⟨rfl, hpa, ?_⟩
  rw [hna]
  cases l with
  | nil => exact h
  | cons c l =>
    obtain ⟨rfl, -, h⟩ := h
    refine ⟨rfl, by rw [hp c List.mem_cons_self, if_pos rfl], ?_⟩
    rw [hn c List.mem_cons_self]
    have hnodup : c ∉ l := by
      have hl : Linked next (some c) (c :: l) := ⟨rfl, h.linked⟩
      exact (List.nodup_cons.mp hl.nodup).1
    refine h.congr (fun d hd => hn d (List.mem_cons_of_mem _ hd)) fun d hd => ?_
    rw [hp d (List.mem_cons_of_mem _ hd), if_neg]
    rintro ⟨⟩
    exact hnodup hd

/-- The cell `a` is taken out: the one before it, or the start, is linked to the one
    behind it. -/
theorem remove (h : Chained next prev before p (l ++ a :: l'))
    (hb : ∀ c, before = some c → c ∉ l ++ a :: l')
    (hn : ∀ c ∈ l ++ l', next' c = if prev a = some c then next a else next c)
    (hp : ∀ c ∈ l ++ l', prev' c = if next a = some c then prev a else prev c) :
    Chained next' prev' before (if l = [] then next a else p) (l ++ l') := by
  have hnodup := h.linked.nodup
  induction l generalizing before p with
  | nil =>
    -- `a` is the first cell: the start and the cell behind it take over its links
    obtain ⟨rfl, hpa, h⟩ := h
    rw [if_pos rfl, List.nil_append]
    cases l' with
    | nil => exact h
    | cons c l' =>
      obtain ⟨hnc, hpc, h⟩ := h
      have hbc : before ≠ some c := fun he => hb c he (by simp)
      refine ⟨hnc, by rw [hp c (by simp), if_pos hnc, hpa], ?_⟩
      rw [hn c (by simp), hpa, if_neg hbc]
      refine h.congr (fun d hd => ?_) fun d hd => ?_
      · rw [hn d (by simp [hd]), hpa, if_neg]
        exact fun he => hb d he (by simp [hd])
      · rw [hp d (by simp [hd]), hnc, if_neg]
        rintro ⟨⟩
        simp only [List.nil_append, List.nodup_cons] at hnodup
        exact hnodup.2.1 hd
  | cons d l ih =>
    -- the first cell stays, so only the end of the rest can be next to `a`
    obtain ⟨rfl, hpd, h⟩ := h
    rw [if_neg (by simp)]
    simp only [List.cons_append, List.nodup_cons] at hnodup
    have hd : ∀ c ∈ l ++ l', c ≠ d := by
      rintro c hc rfl
      exact hnodup.1 (by simp only [List.mem_append, List.mem_cons] at hc ⊢; tauto)
    have hrest := ih h (by rintro c ⟨⟩; exact hnodup.1)
      (fun c hc => hn c (by simp only [List.cons_append, List.mem_cons, hc, or_true]))
      (fun c hc => hp c (by simp only [List.cons_append, List.mem_cons, hc, or_true])) hnodup.2
    refine ⟨rfl, ?_, ?_⟩
    · rw [hp d (by simp), if_neg, hpd]
      intro hnext
      have hmem : d ∈ l' := List.mem_of_mem_head? (h.next_eq ▸ hnext)
      exact hd d (List.mem_append_right _ hmem) rfl
    · -- the start is linked past `a` exactly when `a` was the cell behind it
      have hprev : prev a = some d ↔ l = [] := by
        rw [h.prev_eq]
        cases l using List.reverseRecOn with
        | nil => simp
        | append_singleton l c =>
          have hc := hd c (by simp)
          simp [hc]
      rw [hn d (by simp)]
      simp only [hprev]
      exact hrest

end Chained

end TxLock
