import Mathlib.Algebra.Ring.Parity
import Mathlib.Data.BitVec
import Mathlib.Tactic.Ring

/-!
# Linear congruential generators modulo a power of two

The map `x ↦ c + a * x` with `a - 1` divisible by 4 and `c` odd. `2 ^ k` steps of it change
a multiple of `2 ^ k` by an odd multiple of `2 ^ k`, so the bits of the value can be cleared one
after the other, from below: modulo `2 ^ w` the value 0 is reached in fewer than `2 ^ w`
steps, wherever the generator starts.

## Key results

- `lcg_iterate_two_pow`: `2 ^ k` steps at once
- `exists_lcg_iterate_dvd`: the lowest `k` bits are all clear after fewer than `2 ^ k` steps
- `exists_reset_iterate_eq_zero`: a generator that is reset at 0 comes back to 0
-/

namespace TxLock

section

variable {R : Type} [CommRing R]

/-- One step of the generator. -/
def lcg (a c x : R) : R := c + a * x

variable {a c : R}

/-- `2 ^ k` steps add an odd multiple of `2 ^ k`, up to a multiple of `2 ^ (k + 2)` times the
    value. -/
theorem lcg_iterate_two_pow (ha : ∃ t, a = 1 + 4 * t) (hc : Odd c) (k : Nat) :
    ∃ s t, ∀ x, (lcg a c)^[2 ^ k] x = x + 2 ^ k * (2 * s + 1) + 2 ^ (k + 2) * t * x := by
  induction k with
  | zero =>
    obtain ⟨t, rfl⟩ := ha
    obtain ⟨s, rfl⟩ := hc
    refine ⟨s, t, fun x => ?_⟩
    simp only [pow_zero, Function.iterate_one, lcg]
    ring
  | succ k ih =>
    obtain ⟨s, t, hk⟩ := ih
    -- the two halves add up to twice an odd multiple
    refine ⟨s + 2 ^ k * t * (2 * s + 1), t + 2 * 2 ^ k * t * t, fun x => ?_⟩
    rw [pow_succ, Nat.mul_two, Function.iterate_add_apply, hk, hk]
    ring

/-- Where every value is even or odd, some multiple of `2 ^ k` is reached in fewer than `2 ^ k`
    steps. -/
theorem exists_lcg_iterate_dvd (ha : ∃ t, a = 1 + 4 * t) (hc : Odd c)
    (hparity : ∀ x : R, Even x ∨ Odd x) (x : R) (k : Nat) :
    ∃ n < 2 ^ k, 2 ^ k ∣ (lcg a c)^[n] x := by
  induction k with
  | zero => exact ⟨0, Nat.one_pos, by simp⟩
  | succ k ih =>
    obtain ⟨n, hn, z, hz⟩ := ih
    rcases hparity z with ⟨y, rfl⟩ | ⟨y, rfl⟩
    · refine ⟨n, by omega, y, ?_⟩
      rw [hz]
      ring
    · -- bit `k` is set, and `2 ^ k` more steps clear it
      obtain ⟨s, t, hk⟩ := lcg_iterate_two_pow ha hc k
      refine ⟨2 ^ k + n, by omega, y + s + 1 + 2 * 2 ^ k * t * (2 * y + 1), ?_⟩
      rw [Function.iterate_add_apply, hz, hk]
      ring

/-- A generator that goes on from `r` when it is at 0 comes to 0 again and again: from anywhere
    it does so in at most `2 ^ w - 1` steps, and in one at least. -/
theorem exists_reset_iterate_eq_zero [DecidableEq R] {w : Nat} (ha : ∃ t, a = 1 + 4 * t)
    (hc : Odd c) (hparity : ∀ x : R, Even x ∨ Odd x) (hw : (2 : R) ^ w = 0) {r : R} (hr : r ≠ 0)
    (x : R) :
    ∃ n, 0 < n ∧ n < 2 ^ w ∧ (fun y => lcg a c (if y = 0 then r else y))^[n] x = 0 := by
  -- where the generator starts, apart from the reset
  obtain ⟨y, hy, hyne⟩ : ∃ y, lcg a c y = lcg a c (if x = 0 then r else x) ∧ y ≠ 0 := by
    by_cases hx : x = 0
    · exact ⟨r, by rw [if_pos hx], hr⟩
    · exact ⟨x, by rw [if_neg hx], hx⟩
  have hzero : ∃ n, (lcg a c)^[n] y = 0 := by
    obtain ⟨n, -, hn⟩ := exists_lcg_iterate_dvd ha hc hparity y w
    rw [hw] at hn
    exact ⟨n, zero_dvd_iff.mp hn⟩
  obtain ⟨n, hn, hdvd⟩ := exists_lcg_iterate_dvd ha hc hparity y w
  rw [hw, zero_dvd_iff] at hdvd
  have hle := Nat.find_min' hzero hdvd
  -- before the first 0 there is no reset
  have hsame : ∀ k < Nat.find hzero,
      (fun y => lcg a c (if y = 0 then r else y))^[k + 1] x = (lcg a c)^[k + 1] y := by
    intro k hk
    induction k with
    | zero => exact hy.symm
    | succ k ih =>
      rw [Function.iterate_succ_apply', ih (by omega), Function.iterate_succ_apply' _ (k + 1)]
      show lcg a c (if (lcg a c)^[k + 1] y = 0 then r else _) = _
      rw [if_neg (Nat.find_min hzero hk)]
  have hpos : 0 < Nat.find hzero := by
    rw [Nat.find_pos]
    exact hyne
  refine ⟨Nat.find hzero, hpos, by omega, ?_⟩
  obtain ⟨k, hk⟩ := Nat.exists_eq_add_of_le' hpos
  have hfirst := hsame k (by omega)
  rw [hk, hfirst, ← hk]
  exact Nat.find_spec hzero

end

/-! ## Words -/

theorem bitVec_even_or_odd {w : Nat} (x : BitVec w) : Even x ∨ Odd x := by
  have hcast : ∀ n : Nat, x.toNat = n → x = (n : BitVec w) := by
    intro n hn
    rw [← hn]
    rw [BitVec.natCast_eq_ofNat, BitVec.ofNat_toNat, BitVec.setWidth_eq]
  rcases Nat.even_or_odd' x.toNat with ⟨k, hk | hk⟩
  · left
    rw [hcast _ hk]
    exact ⟨k, by push_cast; ring⟩
  · right
    rw [hcast _ hk]
    exact ⟨k, by push_cast; ring⟩

theorem bitVec_two_pow (w : Nat) : (2 : BitVec w) ^ w = 0 := by
  have h : ((2 ^ w : Nat) : BitVec w) = 0 := by
    apply BitVec.eq_of_toNat_eq
    rw [BitVec.natCast_eq_ofNat, BitVec.toNat_ofNat, Nat.mod_self]
    rfl
  push_cast at h
  exact h

end TxLock
