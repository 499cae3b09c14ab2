import Mathlib.Data.BitVec

/-!
# Counters that wrap

A register of `w` bits that is added to and read back as a signed number. Next to it stands what
has been added in all; the two agree modulo `2 ^ w` whatever is added. The register is read back
exactly whenever the total is in range at that time, also if it was not before.

Candidates for upstreaming next to the `BitVec` library.
-/

namespace TxLock

/-- A register of `w` bits, with what has been added to it. -/
structure Counter (w : Nat) where
  value : BitVec w := 0
  /-- History: the sum of what has been added. -/
  total : Int := 0
  wraps : value = BitVec.ofInt w total := by rfl

namespace Counter

variable {w : Nat}

/-- `value += v` -/
def add (c : Counter w) (v : Int) : Counter w where
  value := c.value + BitVec.ofInt w v
  total := c.total + v
  wraps := by rw [c.wraps, BitVec.ofInt_add]

@[simp] theorem add_total (c : Counter w) (v : Int) : (c.add v).total = c.total + v := rfl

/-- Read back as a signed number, the register is the total, if that is in range. -/
theorem toInt_eq (c : Counter w) (hw : 0 < w) (hlow : -2 ^ (w - 1) ≤ c.total)
    (hhigh : c.total < 2 ^ (w - 1)) : c.value.toInt = c.total := by
  rw [c.wraps]
  exact BitVec.toInt_ofInt_eq_self hw hlow hhigh

end Counter

end TxLock
