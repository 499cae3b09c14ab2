import Mathlib.Data.List.Nodup
import Mathlib.Data.BitVec

/-!
# Consecutive numbers modulo a power of two

Queues whose members hold consecutive numbers in a fixed-width counter that may
wrap around. `Numbered num v q` says that the members of `q` hold `v`, `v + 1`, ...
in order. As long as the queue is no longer than the counter has values, the
numbers lie in the circular interval that starts at `v`, one for each member.

Candidates for upstreaming next to the `BitVec` library.
-/

namespace TxLock

variable {w : Nat} {ι : Type} {num num' : ι → BitVec w} {v : BitVec w} {q : List ι} {t : ι}

/-- The members of `q` hold the consecutive numbers from `v` on. -/
def Numbered (num : ι → BitVec w) : BitVec w → List ι → Prop
  | _, [] => True
  | v, t :: q => num t = v ∧ Numbered num (v + 1) q

@[simp] theorem numbered_nil : Numbered num v [] := trivial

@[simp] theorem numbered_cons : Numbered num v (t :: q) ↔ num t = v ∧ Numbered num (v + 1) q :=
  Iff.rfl

/-- The distance from `v` to the number `i` places after it. -/
theorem toNat_add_ofNat_sub (v : BitVec w) {i : Nat} (hi : i < 2 ^ w) :
    (v + BitVec.ofNat w i - v).toNat = i := by
  have : v + BitVec.ofNat w i - v = BitVec.ofNat w i := by
    rw [BitVec.add_comm, BitVec.add_sub_cancel]
  rw [this, BitVec.toNat_ofNat, Nat.mod_eq_of_lt hi]

/-- Every number is `v` plus its distance from `v`. -/
theorem add_ofNat_toNat_sub (v u : BitVec w) : v + BitVec.ofNat w (u - v).toNat = u := by
  rw [BitVec.ofNat_toNat, BitVec.setWidth_eq, BitVec.add_comm, BitVec.sub_add_cancel]

private theorem add_one_add_ofNat (v : BitVec w) (i : Nat) :
    v + 1 + BitVec.ofNat w i = v + BitVec.ofNat w (i + 1) := by
  rw [BitVec.ofNat_add, BitVec.add_assoc, BitVec.add_comm 1]
  rfl

/-- `Numbered` depends only on the numbers of the queue's members. -/
theorem Numbered.congr (h : Numbered num v q) (hn : ∀ t ∈ q, num' t = num t) :
    Numbered num' v q := by
  induction q generalizing v with
  | nil => trivial
  | cons t q ih =>
    refine ⟨?_, ih h.2 fun u hu => hn u (List.mem_cons_of_mem t hu)⟩
    rw [hn t List.mem_cons_self, h.1]

/-- Joining a queue at its end takes the number its length points to. -/
theorem numbered_concat :
    Numbered num v (q ++ [t]) ↔ Numbered num v q ∧ num t = v + BitVec.ofNat w q.length := by
  induction q generalizing v with
  | nil => simp
  | cons u q ih =>
    simp only [List.cons_append, numbered_cons, ih, List.length_cons, and_assoc,
      add_one_add_ofNat]

/-- The member at place `i` holds the number `i` places after `v`. -/
theorem Numbered.getElem (h : Numbered num v q) {i : Nat} (hi : i < q.length) :
    num q[i] = v + BitVec.ofNat w i := by
  induction q generalizing v i with
  | nil => simp at hi
  | cons t q ih =>
    cases i with
    | zero => simpa using h.1
    | succ i =>
      rw [List.getElem_cons_succ, ih h.2 (by simpa using hi), add_one_add_ofNat]

/-- A member's number lies in the circular interval of the queue. -/
theorem Numbered.dist_lt (h : Numbered num v q) (hq : q.length ≤ 2 ^ w) (ht : t ∈ q) :
    (num t - v).toNat < q.length := by
  obtain ⟨i, hi, rfl⟩ := List.getElem_of_mem ht
  rw [h.getElem hi, toNat_add_ofNat_sub v (by omega)]
  exact hi

/-- Two members with one number are at one place. -/
theorem Numbered.inj (h : Numbered num v q) (hq : q.length ≤ 2 ^ w) {u : ι} (ht : t ∈ q)
    (hu : u ∈ q) (htu : num t = num u) : t = u := by
  obtain ⟨i, hi, rfl⟩ := List.getElem_of_mem ht
  obtain ⟨j, hj, rfl⟩ := List.getElem_of_mem hu
  rw [h.getElem hi, h.getElem hj] at htu
  have hij : i = j := by
    rw [← toNat_add_ofNat_sub v (show i < 2 ^ w by omega), htu, toNat_add_ofNat_sub v (by omega)]
  subst hij
  rfl

/-- The member that holds `v` is the first one. -/
theorem Numbered.head?_of_eq (h : Numbered num v q) (hq : q.length ≤ 2 ^ w) (ht : t ∈ q)
    (hv : num t = v) : q.head? = some t := by
  cases q with
  | nil => simp at ht
  | cons u q => rw [List.head?_cons, h.inj hq List.mem_cons_self ht (h.1.trans hv.symm)]

/-- Every number in the circular interval of the queue belongs to exactly one member. -/
theorem Numbered.existsUnique (h : Numbered num v q) (hq : q.length ≤ 2 ^ w) {n : BitVec w}
    (hn : (n - v).toNat < q.length) : ∃! t, t ∈ q ∧ num t = n := by
  refine ⟨q[(n - v).toNat], ⟨List.getElem_mem hn, ?_⟩, fun u hu => ?_⟩
  · rw [h.getElem hn, add_ofNat_toNat_sub]
  · refine h.inj hq hu.1 (List.getElem_mem hn) ?_
    rw [hu.2, h.getElem hn, add_ofNat_toNat_sub]

end TxLock
