import Mathlib
import TxLock.Native.TlSystem
import TxLock.Spec.PriorityTrylock

/-!
# The fields of the locks in memory

What the accesses to the fields of a lock read and leave, for the fields of a test-and-set
lock and those of a ticket lock.

## Key results

- `read_val_ne_zero`, `write_val`, `write_ready_add`: the fields `val` and `ready`
- `write_next_succ`, `write_now_succ`, `write_all_eq_iff`, `write_all_take`: the two counters
-/

namespace TxLock.Spec

open Native

variable {Tid : Type} {o : LockObj Tid}

/-! ## Test-and-set locks -/

/-- A signed field is 0 when its bits are. -/
theorem read_val_ne_zero : LockField.val.read o ≠ 0 ↔ TasAll.val o.word ≠ 0 := by
  unfold LockField.read
  exact not_congr ⟨fun h => BitVec.eq_of_toInt_eq (by simpa using h), fun h => by rw [h]; rfl⟩

theorem write_val {v : Int} :
    (LockField.val.write o v).word = TasAll.setVal o.word (BitVec.ofInt 32 v) := rfl

/-- The whole word. -/
theorem ofInt_read_all : BitVec.ofInt 64 (LockField.all.read o) = o.word :=
  BitVec.ofInt_toInt

/-- A snapshot that no thread waits. -/
theorem readyOf_eq_zero {v : Int} :
    readyOf v = 0 ↔ TasAll.ready (BitVec.ofInt 64 v) = 0 := by
  exact ⟨fun h => BitVec.eq_of_toInt_eq (h.trans BitVec.toInt_zero.symm),
    fun h => congrArg BitVec.toInt h⟩

/-- `__sync_fetch_and_add(&lk->ready, d)` -/
theorem write_ready_add (d : Int) :
    (LockField.ready.write o (LockField.ready.read o + d)).word =
      TasAll.addReady o.word (BitVec.ofInt 16 d) := by
  simp only [LockField.write, LockField.read, TasAll.addReady, BitVec.ofInt_add,
    BitVec.ofInt_toInt]

/-! ## Ticket locks -/

namespace TicketPair

variable (n w : Word) (p : BitVec 64)

theorem toNat_next : (TicketPair.next p).toNat = p.toNat % 2 ^ 32 := by
  simp [TicketPair.next]

theorem toNat_now : (TicketPair.now p).toNat = p.toNat / 2 ^ 32 := by
  have hp := p.isLt
  simp only [TicketPair.now, BitVec.extractLsb'_toNat, Nat.shiftRight_eq_div_pow]
  omega

theorem toNat_pack : (TicketPair.pack n w).toNat = n.toNat + 2 ^ 32 * w.toNat := by
  have hn := n.isLt
  unfold TicketPair.pack
  rw [BitVec.toNat_append, ← Nat.shiftLeft_add_eq_or_of_lt hn, Nat.shiftLeft_eq]
  omega

@[simp] theorem next_pack : TicketPair.next (TicketPair.pack n w) = n := by
  apply BitVec.eq_of_toNat_eq
  rw [toNat_next, toNat_pack]
  omega

@[simp] theorem now_pack : TicketPair.now (TicketPair.pack n w) = w := by
  have hn := n.isLt
  apply BitVec.eq_of_toNat_eq
  rw [toNat_now, toNat_pack]
  omega

theorem pack_eq : TicketPair.pack (TicketPair.next p) (TicketPair.now p) = p := by
  apply BitVec.eq_of_toNat_eq
  rw [toNat_pack, toNat_next, toNat_now]
  omega

end TicketPair

theorem pack_inj {n w n' w' : Word} :
    TicketPair.pack n w = TicketPair.pack n' w' ↔ n = n' ∧ w = w' := by
  constructor
  · intro h
    have hn := congrArg TicketPair.next h
    have hw := congrArg TicketPair.now h
    simp only [TicketPair.next_pack, TicketPair.now_pack] at hn hw
    exact ⟨hn, hw⟩
  · rintro ⟨rfl, rfl⟩
    rfl

/-- A pair of counters as the code packs it. -/
theorem ofInt_packTicket (n w : Word) :
    BitVec.ofInt 64 (packTicket n.toNat w.toNat) = TicketPair.pack n w := by
  apply BitVec.eq_of_toNat_eq
  have hn := n.isLt
  have hw := w.isLt
  rw [BitVec.toNat_ofInt, TicketPair.toNat_pack, packTicket]
  omega

theorem ofInt_toNat (n : Word) : BitVec.ofInt 32 n.toNat = n := by
  simp

theorem ofInt_succ (n : Word) : BitVec.ofInt 32 (n.toNat + 1) = n + 1 := by
  apply BitVec.eq_of_toNat_eq
  rw [BitVec.toNat_ofInt, BitVec.toNat_add]
  simp
  omega

theorem wrap32_succ (n : Word) : wrap32 (n.toNat + 1) = ((n + 1).toNat : Int) := by
  unfold wrap32
  rw [BitVec.toNat_add]
  simp

theorem ofInt_sub (n w : Word) : BitVec.ofInt 32 (n.toNat - w.toNat) = n - w := by
  apply BitVec.eq_of_toNat_eq
  rw [BitVec.toNat_ofInt, BitVec.toNat_sub]
  have hn := n.isLt
  have hw := w.isLt
  omega

/-- Taking a ticket. -/
theorem write_next_succ :
    LockField.next.write o (LockField.next.read o + 1) =
      { o with word := TicketPair.pack (TicketPair.next o.word + 1) (TicketPair.now o.word) } := by
  unfold LockField.write LockField.read
  rw [ofInt_succ]

/-- Serving the next ticket. -/
theorem write_now_succ (v : Word) :
    LockField.now.write o (wrap32 (v.toNat + 1)) =
      { o with word := TicketPair.pack (TicketPair.next o.word) (v + 1) } := by
  unfold LockField.write
  rw [wrap32_succ, ofInt_toNat]

/-- The two counters have the values of a pair. -/
theorem write_all_eq_iff (v : Word) :
    LockField.all.write o (packTicket v.toNat v.toNat) = o ↔
      TicketPair.next o.word = v ∧ TicketPair.now o.word = v := by
  unfold LockField.write
  rw [ofInt_packTicket]
  have hpack := TicketPair.pack_eq o.word
  constructor
  · intro h
    have hword := congrArg LockObj.word h
    rw [← hpack] at hword
    obtain ⟨hnext, hnow⟩ := pack_inj.mp hword
    exact ⟨hnext.symm, hnow.symm⟩
  · rintro ⟨hnext, hnow⟩
    rw [hnext, hnow] at hpack
    rw [hpack]

theorem write_all_take (v : Word) :
    LockField.all.write o (packTicket (wrap32 (v.toNat + 1)) v.toNat) =
      { o with word := TicketPair.pack (v + 1) v } := by
  unfold LockField.write
  rw [wrap32_succ, ofInt_packTicket]

end TxLock.Spec
