import Mathlib
import TxLock.ForStd.Count
import TxLock.Native.CondCounters

/-!
# What the counters of the condition variable count

`total_seq` counts the waiters that have registered, `wakeup_seq` those that may leave,
`woken_seq` those that have left. Between the last two are the waiters that are eligible, and
behind `woken_seq` are those that wait and have seen no broadcast. A deadline is checked by a
waiter that is not eligible, so the timeout has room for its own wakeup.

`total_seq` has 64 bits. All this holds until it wraps.

## Key results

- `Counts`: the counters, for numbers of registrations, of waiters and of waiters without a
  broadcast; one lemma for each thing that is done to them
- `CountInv.step`: every step keeps them
- `cond_counters`: the counters in every run with fewer than 2^64 registrations
- `cond_counters_wrapped`: after 2^64 registrations they are wrong
-/

namespace TxLock.Spec

open Native

/-! ## The counters alone -/

/-- The counters after `n` registrations, with `waiting` waiters, `current` of which have seen
    no broadcast. -/
structure Counts (clock : Bool) (d : CondData) (n waiting current : Nat) : Prop where
  total : d.totalSeq.toNat = n
  woken_le : d.wokenSeq.toNat ≤ d.wakeupSeq.toNat
  wakeup_le : d.wakeupSeq.toNat ≤ n
  futex : d.futex = d.totalSeq.setWidth 32 + d.wakeupSeq.setWidth 32
  nwaiters : d.nwaiters = BitVec.ofNat 32 (2 * waiting) + if clock then 1 else 0
  behind : d.wokenSeq.toNat + current = n

namespace Counts

variable {clock : Bool} {d : CondData} {n waiting current : Nat}

theorem setWidth_succ (x : BitVec 64) : (x + 1).setWidth 32 = x.setWidth 32 + 1 := by
  rw [BitVec.setWidth_add _ _ (by decide)]
  rfl

theorem ofNat_two_mul_succ (k : Nat) :
    BitVec.ofNat 32 (2 * (k + 1)) = BitVec.ofNat 32 (2 * k) + 2 := by
  rw [Nat.mul_add, BitVec.ofNat_add]
  rfl

/-- A new waiter. -/
theorem register (h : Counts clock d n waiting current) (hn : n + 1 < 2 ^ 64) (mutex : Addr) :
    Counts clock (d.register mutex) (n + 1) (waiting + 1) (current + 1) := by
  have htotal : (d.totalSeq + 1).toNat = n + 1 := by
    have := h.total
    bv_omega
  refine ⟨htotal, h.woken_le, Nat.le_succ_of_le h.wakeup_le, ?_, ?_, ?_⟩
  · show d.futex + 1 = (d.totalSeq + 1).setWidth 32 + d.wakeupSeq.setWidth 32
    rw [h.futex, setWidth_succ]
    ac_rfl
  · show d.nwaiters + 2 = _
    rw [h.nwaiters, ofNat_two_mul_succ]
    ac_rfl
  · have := h.behind
    show d.wokenSeq.toNat + (current + 1) = n + 1
    omega

/-- A wakeup that the counters have room for. -/
theorem wakeOne (h : Counts clock d n waiting current) (hlt : d.wakeupSeq.toNat < n) :
    Counts clock d.wakeOne n waiting current := by
  have htotal := h.total
  have hwakeup : (d.wakeupSeq + 1).toNat = d.wakeupSeq.toNat + 1 := by bv_omega
  refine ⟨h.total, ?_, ?_, ?_, h.nwaiters, h.behind⟩
  · have := h.woken_le
    show d.wokenSeq.toNat ≤ (d.wakeupSeq + 1).toNat
    omega
  · show (d.wakeupSeq + 1).toNat ≤ n
    omega
  · show d.futex + 1 = d.totalSeq.setWidth 32 + (d.wakeupSeq + 1).setWidth 32
    rw [h.futex, setWidth_succ, BitVec.add_assoc]

/-- A waiter that is eligible leaves the sequence. -/
theorem woken (h : Counts clock d n waiting (current + 1)) (hne : d.wokenSeq ≠ d.wakeupSeq) :
    Counts clock d.woken n waiting current := by
  have htotal := h.total
  have hlt : d.wokenSeq.toNat < d.wakeupSeq.toNat := by
    have hle := h.woken_le
    have : d.wokenSeq.toNat ≠ d.wakeupSeq.toNat := fun he => hne (BitVec.eq_of_toNat_eq he)
    omega
  have hwoken : (d.wokenSeq + 1).toNat = d.wokenSeq.toNat + 1 := by bv_omega
  refine ⟨h.total, ?_, h.wakeup_le, h.futex, h.nwaiters, ?_⟩
  · show (d.wokenSeq + 1).toNat ≤ d.wakeupSeq.toNat
    omega
  · have := h.behind
    show (d.wokenSeq + 1).toNat + current = n
    omega

/-- A waiter leaves the count of waiters. -/
theorem leave (h : Counts clock d n (waiting + 1) current) :
    Counts clock d.leave n waiting current := by
  refine ⟨h.total, h.woken_le, h.wakeup_le, h.futex, ?_, h.behind⟩
  show d.nwaiters - 2 = _
  rw [h.nwaiters, ofNat_two_mul_succ]
  bv_omega

/-- A timeout, for which the counters have room. -/
theorem expire (h : Counts clock d n (waiting + 1) (current + 1))
    (hlt : d.wakeupSeq.toNat < n) : Counts clock d.expire n waiting current := by
  have hwake := h.wakeOne hlt
  refine (hwake.woken fun heq => ?_).leave
  have htotal := h.total
  have hle := h.woken_le
  have heq : d.wokenSeq = d.wakeupSeq + 1 := heq
  bv_omega

theorem signal (h : Counts clock d n waiting current) : Counts clock d.signal n waiting current := by
  unfold CondData.signal
  split
  · rename_i hgt
    have htotal := h.total
    exact h.wakeOne (by bv_omega)
  · exact h

/-- After a broadcast that wakes somebody no waiter is behind. -/
theorem broadcast (h : Counts clock d n waiting current) (hgt : d.totalSeq > d.wakeupSeq) :
    Counts clock d.broadcast n waiting 0 := by
  unfold CondData.broadcast
  rw [if_pos hgt]
  refine ⟨h.total, Nat.le_refl _, Nat.le_of_eq h.total, ?_, h.nwaiters, h.total⟩
  show d.totalSeq.setWidth 32 * 2 = d.totalSeq.setWidth 32 + d.totalSeq.setWidth 32
  bv_omega

end Counts

/-! ## The waiters -/

/-- The thread has registered and not left. -/
def Waits : CondPhase → Prop
  | .waiting _ => True
  | .out => False

instance : DecidablePred Waits := fun ph => by
  unfold Waits
  split <;> infer_instance

/-- What a waiter remembers, `k` changes of `broadcast_seq` after its registration. -/
structure WaiterOk (d : CondData) (n : Nat) (w : CondWait) (k : Nat) : Prop where
  few : k < 2 ^ 32
  bcSeq : w.bcSeq + BitVec.ofNat 32 k = d.broadcastSeq
  /-- It was counted after the wakeups that it has seen. -/
  seq : w.seq.toNat < n

namespace WaiterOk

variable {d : CondData} {n k : Nat} {w : CondWait}

/-- A waiter sees whether there was a broadcast. -/
theorem bcSeq_eq_iff (h : WaiterOk d n w k) : w.bcSeq = d.broadcastSeq ↔ k = 0 := by
  have hk := h.few
  have hb := h.bcSeq
  constructor
  · intro heq
    have hzero : BitVec.ofNat 32 k = 0 := by
      rw [heq] at hb
      bv_omega
    have hmod : k % 2 ^ 32 = 0 := by simpa using congrArg BitVec.toNat hzero
    omega
  · rintro rfl
    simpa using hb

end WaiterOk

section Threads

variable {Tid : Type} [DecidableEq Tid] [Fintype Tid] {clock : Bool} {n : Nat} {s : CondSys Tid}

/-- The threads that have registered and not left. -/
def waitingCount (s : CondSys Tid) : Nat := (Finset.univ.filter fun t => Waits (s.phase t)).card

/-- Those of them that have seen no broadcast since. -/
def currentCount (s : CondSys Tid) : Nat :=
  (Finset.univ.filter fun t => Waits (s.phase t) ∧ s.since t = 0).card

/-- The counters count the threads, and the threads remember what is right. -/
structure CountInv (clock : Bool) (n : Nat) (s : CondSys Tid) : Prop where
  counts : Counts clock s.data n (waitingCount s) (currentCount s)
  waiter : ∀ t w, s.phase t = .waiting w → WaiterOk s.data n w (s.since t)

/-- What thread `t` changes. -/
structure ThreadStep (s s' : CondSys Tid) (t : Tid) (ph : CondPhase) : Prop where
  phase : s'.phase = Function.update s.phase t ph
  since : ∀ u, u ≠ t → s'.since u = s.since u

namespace ThreadStep

variable {s' : CondSys Tid} {t : Tid} {ph : CondPhase}

omit [Fintype Tid] in
theorem phase_self (h : ThreadStep s s' t ph) : s'.phase t = ph := by
  rw [h.phase, Function.update_self]

omit [Fintype Tid] in
theorem phase_of_ne (h : ThreadStep s s' t ph) {u : Tid} (hu : u ≠ t) :
    s'.phase u = s.phase u := by
  rw [h.phase, Function.update_of_ne hu]

/-- A thread that does not register and does not leave. -/
theorem stays (h : ThreadStep s s' t ph) (hw : Waits ph ↔ Waits (s.phase t))
    (hk : Waits ph → s'.since t = s.since t) :
    waitingCount s' = waitingCount s ∧ currentCount s' = currentCount s := by
  have hwait : ∀ u, Waits (s'.phase u) ↔ Waits (s.phase u) := by
    intro u
    by_cases hu : u = t
    · rw [hu, h.phase_self, hw]
    · rw [h.phase_of_ne hu]
  have hcurrent : ∀ u, Waits (s'.phase u) ∧ s'.since u = 0 ↔ Waits (s.phase u) ∧ s.since u = 0 := by
    intro u
    by_cases hu : u = t
    · rw [hu, h.phase_self, hw]
      exact and_congr_right fun hwt => by rw [hk (hw.mpr hwt)]
    · rw [h.phase_of_ne hu, h.since u hu]
  exact ⟨congrArg Finset.card (Finset.filter_congr fun u _ => hwait u),
    congrArg Finset.card (Finset.filter_congr fun u _ => hcurrent u)⟩

/-- A thread that registers. -/
theorem registers (h : ThreadStep s s' t ph) (hw : Waits ph) (hk : s'.since t = 0)
    (hout : ¬ Waits (s.phase t)) :
    waitingCount s' = waitingCount s + 1 ∧ currentCount s' = currentCount s + 1 := by
  constructor
  · refine card_filter_succ (a := t) ?_ hout fun u hu => ?_
    · rwa [h.phase_self]
    · rw [h.phase_of_ne hu]
  · refine card_filter_succ (a := t) ?_ (fun hc => hout hc.1) fun u hu => ?_
    · rw [h.phase_self]
      exact ⟨hw, hk⟩
    · rw [h.phase_of_ne hu, h.since u hu]

/-- A thread that leaves, with or without a broadcast since its registration. -/
theorem leaves (h : ThreadStep s s' t ph) (hout : ¬ Waits ph) (hw : Waits (s.phase t)) :
    waitingCount s = waitingCount s' + 1 ∧
      currentCount s = currentCount s' + if s.since t = 0 then 1 else 0 := by
  constructor
  · refine card_filter_succ (a := t) hw ?_ fun u hu => ?_
    · rwa [h.phase_self]
    · rw [h.phase_of_ne hu]
  · split
    · rename_i hk
      refine card_filter_succ (a := t) ⟨hw, hk⟩ ?_ fun u hu => ?_
      · rw [h.phase_self]
        exact fun hc => hout hc.1
      · rw [h.phase_of_ne hu, h.since u hu]
    · rename_i hk
      refine congrArg Finset.card (Finset.filter_congr fun u _ => ?_)
      by_cases hu : u = t
      · rw [hu, h.phase_self]
        exact iff_of_false (fun hc => hk hc.2) fun hc => hout hc.1
      · rw [h.phase_of_ne hu, h.since u hu]

omit [Fintype Tid] in
/-- The other waiters remember what they did. -/
theorem waiter (h : ThreadStep s s' t ph) {n' : Nat}
    (hok : ∀ u w, s.phase u = .waiting w → WaiterOk s.data n w (s.since u))
    (hbc : s'.data.broadcastSeq = s.data.broadcastSeq) (hn : n ≤ n')
    (ht : ∀ w, ph = .waiting w → WaiterOk s'.data n' w (s'.since t)) :
    ∀ u w, s'.phase u = .waiting w → WaiterOk s'.data n' w (s'.since u) := by
  intro u w hu
  by_cases hut : u = t
  · subst hut
    exact ht w (h.phase_self.symm.trans hu)
  · rw [h.phase_of_ne hut] at hu
    have hold := hok u w hu
    rw [h.since u hut]
    exact ⟨hold.few, hold.bcSeq.trans hbc.symm, Nat.lt_of_lt_of_le hold.seq hn⟩

end ThreadStep

/-! ## The sections -/

namespace CountInv

variable {t : Tid} {s' : CondSys Tid}

/-- Thread `t` goes on waiting, or stays out, and the data is as it was. -/
theorem stays {ph : CondPhase} (h : CountInv clock n s) (hts : ThreadStep s s' t ph)
    (hdata : s'.data = s.data) (hw : Waits ph ↔ Waits (s.phase t))
    (hk : Waits ph → s'.since t = s.since t)
    (hok : ∀ w, ph = .waiting w → WaiterOk s.data n w (s.since t)) : CountInv clock n s' := by
  obtain ⟨hwait, hcurrent⟩ := hts.stays hw hk
  refine ⟨?_, hts.waiter h.waiter (by rw [hdata]) (Nat.le_refl n) fun w hph => ?_⟩
  · rw [hdata, hwait, hcurrent]
    exact h.counts
  · rw [hdata, hk (by rw [hph]; trivial)]
    exact hok w hph

/-- A waiter that leaves without a broadcast since its registration. -/
theorem leavesCurrent (h : CountInv clock n s) (hts : ThreadStep s s' t .out)
    (hw : Waits (s.phase t)) (hk : s.since t = 0)
    (hbc : s'.data.broadcastSeq = s.data.broadcastSeq)
    (hcounts : Counts clock s.data n (waitingCount s' + 1) (currentCount s' + 1) →
      Counts clock s'.data n (waitingCount s') (currentCount s')) : CountInv clock n s' := by
  obtain ⟨hwait, hcurrent⟩ := hts.leaves id hw
  rw [if_pos hk] at hcurrent
  refine ⟨hcounts ?_, hts.waiter h.waiter hbc (Nat.le_refl n) nofun⟩
  rw [← hwait, ← hcurrent]
  exact h.counts

/-- A waiter that leaves after a broadcast. -/
theorem leavesOld (h : CountInv clock n s) (hts : ThreadStep s s' t .out)
    (hw : Waits (s.phase t)) (hk : s.since t ≠ 0) (hdata : s'.data = s.data.leave) :
    CountInv clock n s' := by
  obtain ⟨hwait, hcurrent⟩ := hts.leaves id hw
  rw [if_neg hk, Nat.add_zero] at hcurrent
  refine ⟨?_, hts.waiter h.waiter (by rw [hdata]; rfl) (Nat.le_refl n) nofun⟩
  rw [hdata, ← hcurrent]
  exact Counts.leave (hwait ▸ h.counts)

/-- A waiter that is not eligible leaves room for its own wakeup. -/
theorem room {current : Nat} {d : CondData} {w : CondWait} {k waiting : Nat}
    (h : Counts clock d n waiting (current + 1)) (hw : WaiterOk d n w k)
    (hnot : ¬ (d.wakeupSeq ≠ w.seq ∧ d.wokenSeq ≠ d.wakeupSeq)) : d.wakeupSeq.toNat < n := by
  by_cases hseq : d.wakeupSeq = w.seq
  · rw [hseq]
    exact hw.seq
  · have heq : d.wokenSeq = d.wakeupSeq := by
      by_contra hne
      exact hnot ⟨hseq, hne⟩
    have hbehind := h.behind
    rw [heq] at hbehind
    omega

/-- A waiter that comes back from its sleep. -/
theorem wakeUp (h : CountInv clock n s) {w : CondWait} (hph : s.phase t = .waiting w)
    {err sec usec : Int} {d : CondData} {ph : CondPhase}
    (hup : CondSection.wakeUp s.data w err sec usec = (d, ph)) (hdata : s'.data = d)
    (hts : ThreadStep s s' t ph) (hk : s'.since t = s.since t) : CountInv clock n s' := by
  obtain rfl : (CondSection.wakeUp s.data w err sec usec).1 = d := congrArg Prod.fst hup
  obtain rfl : (CondSection.wakeUp s.data w err sec usec).2 = ph := congrArg Prod.snd hup
  have hw : Waits (s.phase t) := by
    rw [hph]
    trivial
  have hok := h.waiter t w hph
  -- it goes on waiting, with the same `seq` and the same `bc_seq`
  have hstays : ∀ w', w'.seq = w.seq → w'.bcSeq = w.bcSeq → s'.data = s.data →
      ThreadStep s s' t (.waiting w') → CountInv clock n s' := by
    intro w' hseq hbc hd hts
    refine h.stays hts hd (iff_of_true trivial hw) (fun _ => hk) fun w'' hw'' => ?_
    cases hw''
    exact ⟨hok.few, by rw [hbc]; exact hok.bcSeq, by rw [hseq]; exact hok.seq⟩
  -- the deadline has passed
  have hexpires : s.since t = 0 → ¬ (s.data.wakeupSeq ≠ w.seq ∧ s.data.wokenSeq ≠ s.data.wakeupSeq) →
      s'.data = s.data.expire → ThreadStep s s' t .out → CountInv clock n s' := by
    intro hk0 hnot hd hts
    refine h.leavesCurrent hts hw hk0 (by rw [hd]; rfl) fun hcounts => ?_
    rw [hd]
    exact hcounts.expire (room hcounts hok hnot)
  unfold CondSection.wakeUp at hdata hts
  by_cases hbc : w.bcSeq ≠ s.data.broadcastSeq
  · rw [if_pos hbc] at hdata hts
    exact h.leavesOld hts hw (fun hk0 => hbc (hok.bcSeq_eq_iff.mpr hk0)) hdata
  have hk0 : s.since t = 0 := hok.bcSeq_eq_iff.mp (not_not.mp hbc)
  rw [if_neg hbc] at hdata hts
  by_cases helig : s.data.wakeupSeq ≠ w.seq ∧ s.data.wokenSeq ≠ s.data.wakeupSeq
  · rw [if_pos helig] at hdata hts
    refine h.leavesCurrent hts hw hk0 (by rw [hdata]; rfl) fun hcounts => ?_
    rw [hdata]
    exact (hcounts.woken helig.2).leave
  rw [if_neg helig] at hdata hts
  cases hab : w.abstime with
  | none =>
    simp only [hab] at hdata hts
    refine hstays _ ?_ ?_ hdata hts <;> rfl
  | some abstime =>
    simp only [hab] at hdata hts
    by_cases herr : err = -ETIMEDOUT
    · rw [if_pos herr] at hdata hts
      exact hexpires hk0 helig hdata hts
    rw [if_neg herr] at hdata hts
    unfold CondSection.timedHead at hdata hts
    by_cases hrt : (relTime abstime sec usec).tvSec < 0
    · rw [if_pos hrt, if_neg hbc] at hdata hts
      exact hexpires hk0 helig hdata hts
    · rw [if_neg hrt] at hdata hts
      refine hstays _ ?_ ?_ hdata hts <;> rfl

/-- A thread that registers. -/
theorem registers (h : CountInv clock n s) (hn : n + 1 < 2 ^ 64) (hout : s.phase t = .out)
    {mutex : Addr} {w : CondWait}
    (hdata : s'.data = s.data.register mutex)
    (hseq : w.seq = s.data.wakeupSeq) (hbc : w.bcSeq = s.data.broadcastSeq)
    (hts : ThreadStep s s' t (.waiting w)) (hk : s'.since t = 0) : CountInv clock (n + 1) s' := by
  have hnot : ¬ Waits (s.phase t) := by
    rw [hout]
    exact id
  obtain ⟨hwait, hcurrent⟩ := hts.registers trivial hk hnot
  refine ⟨?_, hts.waiter h.waiter (by rw [hdata]; rfl) (Nat.le_succ n) fun w' hw' => ?_⟩
  · rw [hdata, hwait, hcurrent]
    exact h.counts.register hn mutex
  · cases hw'
    refine ⟨by rw [hk]; decide, ?_, ?_⟩
    · rw [hk, hbc, hdata]
      exact BitVec.add_zero _
    · rw [hseq]
      exact Nat.lt_succ_of_le h.counts.wakeup_le

/-- A thread that registers and finds its deadline passed. -/
theorem registersExpired (h : CountInv clock n s) (hn : n + 1 < 2 ^ 64) (hout : s.phase t = .out)
    {mutex : Addr} (hdata : s'.data = (s.data.register mutex).expire)
    (hts : ThreadStep s s' t .out) : CountInv clock (n + 1) s' := by
  obtain ⟨hwait, hcurrent⟩ := hts.stays (by rw [hout]) nofun
  refine ⟨?_, hts.waiter h.waiter (by rw [hdata]; rfl) (Nat.le_succ n) nofun⟩
  rw [hdata, hwait, hcurrent]
  exact (h.counts.register hn mutex).expire (Nat.lt_succ_of_le h.counts.wakeup_le)

omit [DecidableEq Tid] in
/-- A broadcast that wakes somebody: it has reached every waiter. -/
theorem broadcasts (h : CountInv clock n s) (hgt : s.data.totalSeq > s.data.wakeupSeq)
    (hfew : ∀ u, Waits (s.phase u) → s.since u + 1 < 2 ^ 32) (hphase : s'.phase = s.phase)
    (hsince : ∀ u, s'.since u = s.since u + 1) (hdata : s'.data = s.data.broadcast) :
    CountInv clock n s' := by
  have hwait : waitingCount s' = waitingCount s := by
    unfold waitingCount
    rw [hphase]
  have hcurrent : currentCount s' = 0 := by
    refine Finset.card_eq_zero.mpr (Finset.filter_eq_empty_iff.mpr fun u _ hu => ?_)
    rw [hsince u] at hu
    exact Nat.succ_ne_zero _ hu.2
  refine ⟨?_, fun u w hu => ?_⟩
  · rw [hdata, hwait, hcurrent]
    exact h.counts.broadcast hgt
  · rw [hphase] at hu
    have hok := h.waiter u w hu
    have hbc : s'.data.broadcastSeq = s.data.broadcastSeq + 1 := by
      rw [hdata, CondData.broadcast, if_pos hgt]
    rw [hsince u]
    refine ⟨hfew u (by rw [hu]; trivial), ?_, hok.seq⟩
    rw [hbc, ← hok.bcSeq, BitVec.ofNat_add, BitVec.add_assoc]
    rfl

/-- A section that thread `t` does outside a transaction. -/
theorem runs (h : CountInv clock n s) {x : CondSection} {d : CondData} {ph : CondPhase}
    (hrun : x.run s.data (s.phase t) = some (d, ph)) (hdata : s'.data = d)
    (hphase : s'.phase = Function.update s.phase t ph) (hsince : s'.since = s.sinceAfter t x)
    (hfew : x = .broadcast → s.data.totalSeq > s.data.wakeupSeq →
      ∀ u, Waits (s.phase u) → s.since u + 1 < 2 ^ 32)
    (hn : x.registers → n + 1 < 2 ^ 64) :
    CountInv clock (n + if x.registers then 1 else 0) s' := by
  -- only a registration and a broadcast change `since`
  have hsame : x.registers = false → x ≠ .broadcast → s'.since = s.since := by
    intro hr hb
    rw [hsince, CondSys.sinceAfter, hr, if_neg Bool.false_ne_true, if_neg fun hc => hb hc.1]
  have hstep : x ≠ .broadcast → ThreadStep s s' t ph := by
    intro hb
    refine ⟨hphase, fun u hu => ?_⟩
    rw [hsince, CondSys.sinceAfter, if_neg fun hc : x = _ ∧ _ => hb hc.1]
    split
    · exact Function.update_of_ne hu _ _
    · rfl
  have hzero : x.registers = true → s'.since t = 0 := by
    intro hr
    rw [hsince, CondSys.sinceAfter, if_pos hr, Function.update_self]
  cases hp : s.phase t with
  | waiting w =>
    cases x with
    | wake err sec usec =>
      rw [hp] at hrun
      simp only [CondSection.run] at hrun
      split at hrun
      · refine h.wakeUp hp (Option.some.inj hrun) hdata (hstep nofun) ?_
        rw [hsame rfl nofun]
      · cases hrun
    | wait | timedwait | signal | broadcast => cases hp ▸ hrun
  | out =>
    have hnot : ¬ Waits (s.phase t) := by
      rw [hp]
      exact id
    -- the thread stays out, and the data is as it was
    have hquiet : ph = .out → d = s.data → x ≠ .broadcast → CountInv clock n s' := by
      intro hph hd hb
      subst hph
      exact h.stays (hstep hb) (hdata.trans hd) (iff_of_false id hnot) nofun nofun
    cases x with
    | wake => cases hp ▸ hrun
    | wait mutex err =>
      rw [hp] at hrun
      simp only [CondSection.run] at hrun
      by_cases herr : err = 0
      · have hr : (CondSection.wait mutex err).registers = true := decide_eq_true herr
        rw [if_neg (not_not.mpr herr)] at hrun
        cases hrun
        rw [if_pos hr]
        exact h.registers (hn hr) hp hdata rfl rfl (hstep nofun) (hzero hr)
      · have hr : (CondSection.wait mutex err).registers = false := decide_eq_false herr
        rw [if_pos herr] at hrun
        cases hrun
        rw [hr]
        exact hquiet rfl rfl nofun
    | timedwait mutex abstime err sec usec =>
      rw [hp] at hrun
      simp only [CondSection.run] at hrun
      by_cases herr : abstime.Invalid ∨ err ≠ 0
      · have hr : (CondSection.timedwait mutex abstime err sec usec).registers = false := by
          refine decide_eq_false fun hc => ?_
          exact herr.elim hc.1 fun hne => hne hc.2
        rw [if_pos herr] at hrun
        cases hrun
        rw [hr]
        exact hquiet rfl rfl nofun
      · have hr : (CondSection.timedwait mutex abstime err sec usec).registers = true :=
          decide_eq_true ⟨fun hc => herr (.inl hc), not_not.mp fun hc => herr (.inr hc)⟩
        rw [if_neg herr, CondSection.timedHead] at hrun
        rw [if_pos hr]
        split at hrun
        · -- the deadline has passed already, and there was no broadcast in between
          have hbc : (CondSection.newWait (s.data.register mutex) (some abstime)).bcSeq =
              (s.data.register mutex).broadcastSeq := rfl
          rw [if_neg (not_not.mpr hbc)] at hrun
          cases hrun
          exact h.registersExpired (hn hr) hp hdata (hstep nofun)
        · cases hrun
          refine h.registers (hn hr) hp hdata ?_ ?_ (hstep nofun) (hzero hr) <;> rfl
    | signal =>
      rw [hp] at hrun
      cases hrun
      obtain ⟨hwait, hcurrent⟩ := (hstep nofun).stays (iff_of_false id hnot) nofun
      refine ⟨?_, (hstep nofun).waiter h.waiter ?_ (Nat.le_refl n) nofun⟩
      · rw [hdata, hwait, hcurrent]
        exact h.counts.signal
      · rw [hdata]
        unfold CondData.signal
        split <;> rfl
    | broadcast =>
      rw [hp] at hrun
      cases hrun
      have hph : s'.phase = s.phase := by
        rw [hphase, ← hp, Function.update_eq_self]
      have hr : ¬ CondSection.broadcast.registers = true := Bool.false_ne_true
      by_cases hgt : s.data.totalSeq > s.data.wakeupSeq
      · refine h.broadcasts hgt (hfew rfl hgt) hph (fun u => ?_) hdata
        rw [hsince, CondSys.sinceAfter, if_neg hr, if_pos ⟨rfl, hgt⟩]
      · have hs : s'.since = s.since := by
          rw [hsince, CondSys.sinceAfter, if_neg hr, if_neg fun hc => hgt hc.2]
        have hd : s'.data = s.data := by
          rw [hdata, CondData.broadcast, if_neg hgt]
        have hts : ThreadStep s s' t .out := ⟨hphase, fun u _ => by rw [hs]⟩
        exact h.stays hts hd (iff_of_false id hnot) nofun nofun

end CountInv

/-! ## Runs -/

section Runs

variable {s' : CondSys Tid} {cfg : TxConfig} {a : CondSysAct Tid}

/-- Thread `t` does the section `x` on the committed data. -/
structure Inside (s s' : CondSys Tid) (t : Tid) (x : CondSection) (ph : CondPhase) : Prop where
  free : s.tx t = none
  run : x.run s.data (s.phase t) = some (s'.data, ph)
  phase : s'.phase = Function.update s.phase t ph
  since : s'.since = s.sinceAfter t x

/-- A step outside the internal lock: at most a waiting thread goes on. -/
structure Outside (s s' : CondSys Tid) : Prop where
  data : s'.data = s.data
  since : s'.since = s.since
  phase : s'.phase = s.phase ∨ ∃ t w w', s.phase t = .waiting w ∧ w'.seq = w.seq ∧
    w'.bcSeq = w.bcSeq ∧ s'.phase = Function.update s.phase t (.waiting w')

omit [Fintype Tid] in
/-- What is done in a transaction is not seen, and what a transaction has begun with is left
    as it was. -/
theorem step_cases (hs : CondSys.step cfg s a = some s') :
    (∃ t x ph, a = .call t x ∧ Inside s s' t x ph) ∨
      CondSys.registered s a = [] ∧ Outside s s' := by
  cases a with
  | call t x =>
    cases htx : s.tx t with
    | none =>
      refine .inl ⟨t, x, ?_⟩
      have hrun : (x.run s.data (s.phase t)).map (fun r => { s with
          data := r.1, phase := Function.update s.phase t r.2, since := s.sinceAfter t x }) =
          some s' := by
        simpa only [CondSys.step, htx] using hs
      obtain ⟨⟨d, ph⟩, hr, rfl⟩ := Option.map_eq_some_iff.mp hrun
      exact ⟨ph, rfl, htx, hr, rfl, rfl⟩
    | some v =>
      -- in a transaction the section works on what the transaction has buffered
      have hrun : ∃ r, s' = { s with tx := Function.update s.tx t (some r) } := by
        cases x with
        | wake => simp [CondSys.step, htx] at hs
        | wait | timedwait | signal | broadcast =>
          simp only [CondSys.step, htx, Option.map_eq_some_iff] at hs
          obtain ⟨r, -, rfl⟩ := hs
          exact ⟨r, rfl⟩
      obtain ⟨r, rfl⟩ := hrun
      refine .inr ⟨?_, rfl, rfl, .inl rfl⟩
      simp [CondSys.registered, htx]
  | sleep t =>
    simp only [CondSys.step] at hs
    split at hs
    · rename_i w htx hph
      split at hs
      · cases hs
      · cases hs
        exact .inr ⟨rfl, rfl, rfl, .inr ⟨t, w, { w with asleep := true }, hph, rfl, rfl, rfl⟩⟩
    · cases hs
  | enterHtm t =>
    refine .inr ⟨rfl, ?_⟩
    simp only [CondSys.step] at hs
    split at hs
    · split at hs
      · cases hs
        exact ⟨rfl, rfl, .inl rfl⟩
      · cases hs
    · split at hs
      · cases hs
        exact ⟨rfl, rfl, .inl rfl⟩
      · cases hs
    · cases hs
  | lockHtm t =>
    refine .inr ⟨rfl, ?_⟩
    simp only [CondSys.step] at hs
    split at hs
    · cases hs
      exact ⟨rfl, rfl, .inl rfl⟩
    · cases hs
  | abort t =>
    refine .inr ⟨rfl, ?_⟩
    -- an abort ends the attempt to speculate: a waiter goes to sleep
    have hfailed : s'.data = s.data → s'.since = s.since →
        s'.phase = Function.update s.phase t (CondSys.beginFailed (s.phase t)) → Outside s s' := by
      intro hd hk hp
      refine ⟨hd, hk, ?_⟩
      cases hph : s.phase t with
      | out =>
        rw [hph, CondSys.beginFailed, ← hph, Function.update_eq_self] at hp
        exact .inl hp
      | waiting w =>
        rw [hph] at hp
        exact .inr ⟨t, w, { w with tries := w.tries + 1, asleep := true }, hph, rfl, rfl, hp⟩
    simp only [CondSys.step] at hs
    split at hs
    · cases hs
      exact hfailed rfl rfl rfl
    · rename_i w _ hph
      split at hs
      · cases hs
        refine hfailed rfl rfl ?_
        rw [hph]
      · cases hs
    · cases hs

/-- The hypothesis on the broadcasts: fewer than 2^32 of them change `broadcast_seq` during
    one wait. -/
def FewBroadcasts (s : CondSys Tid) (a : CondSysAct Tid) : Prop :=
  ∀ t, a = .call t .broadcast → s.tx t = none → s.data.totalSeq > s.data.wakeupSeq →
    ∀ u, Waits (s.phase u) → s.since u + 1 < 2 ^ 32

instance (s : CondSys Tid) (a : CondSysAct Tid) : Decidable (FewBroadcasts s a) :=
  inferInstanceAs (Decidable (∀ _, _ → _))

theorem CountInv.outside (h : CountInv clock n s) (ho : Outside s s') : CountInv clock n s' := by
  obtain hph | ⟨t, w, w', hph, hseq, hbc, hph'⟩ := ho.phase
  · have hwait : waitingCount s' = waitingCount s := by
      unfold waitingCount
      rw [hph]
    have hcurrent : currentCount s' = currentCount s := by
      unfold currentCount
      rw [hph, ho.since]
    refine ⟨?_, ?_⟩
    · rw [ho.data, hwait, hcurrent]
      exact h.counts
    · rw [ho.data, ho.since, hph]
      exact h.waiter
  · have hts : ThreadStep s s' t (.waiting w') := ⟨hph', fun u _ => by rw [ho.since]⟩
    have hok := h.waiter t w hph
    have hw : Waits (s.phase t) := by
      rw [hph]
      trivial
    refine h.stays hts ho.data (iff_of_true trivial hw) (fun _ => by rw [ho.since]) ?_
    intro w'' hw''
    cases hw''
    refine ⟨hok.few, ?_, ?_⟩
    · rw [hbc]
      exact hok.bcSeq
    · rw [hseq]
      exact hok.seq

/-- Every step keeps the count, as long as `total_seq` does not wrap. -/
theorem CountInv.step (h : CountInv clock n s) (hs : CondSys.step cfg s a = some s')
    (hfew : FewBroadcasts s a) (hn : n + (CondSys.registered s a).length < 2 ^ 64) :
    CountInv clock (n + (CondSys.registered s a).length) s' := by
  obtain ⟨t, x, ph, rfl, hi⟩ | ⟨hr, ho⟩ := step_cases hs
  · have hlen : (CondSys.registered s (.call t x)).length = if x.registers then 1 else 0 := by
      cases hx : x.registers <;> simp [CondSys.registered, hi.free, hx]
    rw [hlen] at hn ⊢
    refine h.runs hi.run rfl hi.phase hi.since ?_ fun hx => ?_
    · intro hb hgt
      exact hfew t (by rw [hb]) hi.free hgt
    · rwa [if_pos hx] at hn
  · rw [hr]
    exact h.outside ho

theorem CountInv.init {mutex : Addr} (hi : (condSys Tid cfg clock mutex).init s) :
    CountInv clock 0 s := by
  have hout : ∀ t, ¬ Waits (s.phase t) := by
    intro t hw
    obtain rfl : s = _ := hi
    exact hw
  -- nobody waits
  have hwait : waitingCount s = 0 :=
    Finset.card_eq_zero.mpr (Finset.filter_eq_empty_iff.mpr fun t _ hw => hout t hw)
  have hcurrent : currentCount s = 0 :=
    Finset.card_eq_zero.mpr (Finset.filter_eq_empty_iff.mpr fun t _ hw => hout t hw.1)
  refine ⟨?_, fun t w hph => (hout t (by rw [hph]; trivial)).elim⟩
  rw [hwait, hcurrent]
  obtain rfl : s = _ := hi
  exact ⟨rfl, Nat.le_refl _, Nat.le_refl _, rfl, (BitVec.zero_add _).symm, rfl⟩

/-- The count after a run in which `total_seq` has not wrapped. -/
theorem CountInv.of_run {mutex : Addr} {tr : List (CondSys Tid × CondSysAct Tid)}
    (h : (condSys Tid cfg clock mutex).Run FewBroadcasts tr s)
    (hn : (System.events CondSys.registered tr).length < 2 ^ 64) :
    CountInv clock (System.events CondSys.registered tr).length s := by
  induction h with
  | init hi => exact CountInv.init hi
  | step _ hc hs ih =>
    rw [System.events_append, System.events_singleton, List.length_append] at hn ⊢
    exact (ih (Nat.lt_of_le_of_lt (Nat.le_add_right _ _) hn)).step hs hc hn

end Runs

/-! ## The counters in a run -/

/-- The counters are what they count. -/
structure CountersOk (clock : Bool) (s : CondSys Tid) : Prop where
  woken_le : s.data.wokenSeq ≤ s.data.wakeupSeq
  wakeup_le : s.data.wakeupSeq ≤ s.data.totalSeq
  futex : s.data.futex = (s.data.totalSeq + s.data.wakeupSeq).setWidth 32
  waiters : (s.data.nwaiters >>> 1).toNat = waitingCount s
  clockBit : s.data.nwaiters.getLsbD 0 = clock
  current : (s.data.totalSeq - s.data.wokenSeq).toNat = currentCount s

/-- `tl_unlock` reports an error to the section. -/
def UnlockFails : CondSection → Prop
  | .wait _ err => err ≠ 0
  | .timedwait _ _ err _ _ => err ≠ 0
  | .wake .. | .signal | .broadcast => False

/-- A wait that cannot release the mutex leaves the data alone, in a transaction too. -/
theorem unlockFails_run {x : CondSection} (hx : UnlockFails x) {d : CondData} {ph : CondPhase}
    {r : CondData × CondPhase} (hr : x.run d ph = some r) : r.1 = d := by
  cases x with
  | wait mutex err =>
    have herr : err ≠ 0 := hx
    cases ph with
    | out =>
      simp only [CondSection.run] at hr
      rw [if_pos herr] at hr
      cases hr
      rfl
    | waiting => cases hr
  | timedwait mutex abstime err sec usec =>
    have herr : abstime.Invalid ∨ err ≠ 0 := .inr hx
    cases ph with
    | out =>
      simp only [CondSection.run] at hr
      rw [if_pos herr] at hr
      cases hr
      rfl
    | waiting => cases hr
  | wake | signal | broadcast => exact hx.elim

/-- The upper bits of `nwaiters` and the lowest one. -/
theorem nwaiters_bits {k : Nat} (hk : k < 2 ^ 31) (clock : Bool) :
    ((BitVec.ofNat 32 (2 * k) + if clock then 1 else 0) >>> 1).toNat = k ∧
      (BitVec.ofNat 32 (2 * k) + if clock then 1 else 0).getLsbD 0 = clock := by
  have hval : (BitVec.ofNat 32 (2 * k) + if clock then 1 else 0).toNat =
      2 * k + if clock then 1 else 0 := by
    cases clock <;> simp <;> omega
  constructor
  · rw [BitVec.toNat_ushiftRight, hval, Nat.shiftRight_eq_div_pow]
    split <;> omega
  · rw [BitVec.getLsbD, hval, Nat.testBit_zero]
    cases clock <;> simp

omit [DecidableEq Tid] in
theorem CountInv.ok (h : CountInv clock n s) (hcard : Fintype.card Tid < 2 ^ 31) :
    CountersOk clock s := by
  have hk : waitingCount s < 2 ^ 31 :=
    Nat.lt_of_le_of_lt (Finset.card_le_univ _) hcard
  have hle := h.counts.woken_le
  have hle' := h.counts.wakeup_le
  have htotal := h.counts.total
  refine ⟨hle, ?_, ?_, ?_, ?_, ?_⟩
  · show s.data.wakeupSeq.toNat ≤ s.data.totalSeq.toNat
    omega
  · rw [h.counts.futex, BitVec.setWidth_add _ _ (by decide)]
  · rw [h.counts.nwaiters]
    exact (nwaiters_bits hk clock).1
  · rw [h.counts.nwaiters]
    exact (nwaiters_bits hk clock).2
  · have hbehind := h.counts.behind
    rw [BitVec.toNat_sub_of_le (show s.data.wokenSeq.toNat ≤ s.data.totalSeq.toNat by omega)]
    omega

/-- In every state of every run, with less than 2^31 threads and less than 2^64
    registrations, the counters are what they count, and a wait that cannot release the mutex
    changes none of them. -/
theorem cond_counters (cfg : TxConfig) (clock : Bool) (mutex : Addr)
    (hcard : Fintype.card Tid < 2 ^ 31) {tr : List (CondSys Tid × CondSysAct Tid)}
    {s : CondSys Tid} (h : (condSys Tid cfg clock mutex).Run FewBroadcasts tr s)
    (hn : (System.events CondSys.registered tr).length < 2 ^ 64) :
    CountersOk clock s ∧ ∀ t x s', UnlockFails x →
      CondSys.step cfg s (.call t x) = some s' → s'.data = s.data := by
  refine ⟨(CountInv.of_run h hn).ok hcard, fun t x s' hx hs => ?_⟩
  obtain ⟨t', x', ph, ha, hi⟩ | ⟨-, ho⟩ := step_cases hs
  · cases ha
    exact unlockFails_run hx hi.run
  · exact ho.data

end Threads

/-- The broadcast in a transaction is undone; a signal and then a broadcast wake the waiters,
    the second of which has not left yet. -/
theorem cond_counters_broadcast : ∃ s : CondSys (Fin 3),
    (condSys (Fin 3) { fuel := 0 } true 0).Reachable FewBroadcasts s ∧
      s.data = ⟨2, 2, 2, 4, 3, 1, 8⟩ ∧ CountersOk true s := by
  have hs : ((condSys (Fin 3) { fuel := 0 } true 0).exec
      ⟨{ nwaiters := 1, mutex := 0 }, fun _ => .out, fun _ => none, fun _ => 0⟩
      [.call 0 (.wait 8 0), .call 1 (.timedwait 8 ⟨5, 0⟩ 0 1 0), .enterHtm 0,
        .call 0 .broadcast, .abort 0, .call 2 (.wait 8 1), .call 2 .signal,
        .call 0 (.wake 0 0 0), .call 2 .broadcast]).map CondSys.data =
      some ⟨2, 2, 2, 4, 3, 1, 8⟩ := by decide
  obtain ⟨s, hexec, hdata⟩ := Option.map_eq_some_iff.mp hs
  have hfree := (System.Run.init (M := condSys (Fin 3) { fuel := 0 } true 0) rfl).exec hexec
  have hrun := hfree.of_forall_mem (C := FewBroadcasts) (by decide)
  exact ⟨s, ⟨_, hrun⟩, hdata, (cond_counters _ true 0 (by decide) hrun (by decide)).1⟩

/-! ## The wrap of `total_seq` -/

/-- After `n` waits with a deadline that has passed. -/
def allExpired (n : Nat) : CondSys (Fin 1) where
  data := {
    totalSeq := BitVec.ofNat 64 n
    wakeupSeq := BitVec.ofNat 64 n
    wokenSeq := BitVec.ofNat 64 n
    futex := BitVec.ofNat 32 (2 * n) }
  phase _ := .out
  tx _ := none
  since _ := 0

theorem allExpired_run (n : Nat) : ∃ tr,
    (condSys (Fin 1) { fuel := 0 } false 0).Run FewBroadcasts tr (allExpired n) := by
  induction n with
  | zero => exact ⟨[], .init rfl⟩
  | succ n ih =>
    obtain ⟨tr, htr⟩ := ih
    refine ⟨_, htr.step (a := .call 0 (.timedwait 0 ⟨0, 0⟩ 0 1 0)) nofun ?_⟩
    have hstep : (condSys (Fin 1) { fuel := 0 } false 0).step (allExpired n)
        (.call 0 (.timedwait 0 ⟨0, 0⟩ 0 1 0)) = some { allExpired n with
          data := ((allExpired n).data.register 0).expire
          phase := Function.update (allExpired n).phase 0 .out
          since := Function.update (allExpired n).since 0 0 } := rfl
    have hphase : Function.update (allExpired n).phase 0 .out = (allExpired n).phase :=
      Function.update_eq_self _ _
    have hsince : Function.update (allExpired n).since 0 0 = (allExpired n).since :=
      Function.update_eq_self _ _
    have hseq : BitVec.ofNat 64 n + 1 = BitVec.ofNat 64 (n + 1) := (BitVec.ofNat_add n 1).symm
    have hfutex : BitVec.ofNat 32 (2 * n) + 1 + 1 = BitVec.ofNat 32 (2 * (n + 1)) := by
      rw [Counts.ofNat_two_mul_succ, BitVec.add_assoc]
      rfl
    have hdata : ((allExpired n).data.register 0).expire = (allExpired (n + 1)).data := by
      simp only [allExpired, CondData.register, CondData.expire, CondData.wakeOne, CondData.woken,
        CondData.leave, hseq, hfutex]
      rfl
    rw [hstep, hphase, hsince, hdata]
    rfl

/-- After 2^64 registrations `total_seq` is 0 again, and `wakeup_seq` is not. -/
theorem cond_counters_wrapped : ∃ tr s,
    (condSys (Fin 1) { fuel := 0 } false 0).Run FewBroadcasts tr s ∧
      s.data.totalSeq = 0 ∧ ¬ CountersOk false s := by
  obtain ⟨tr, htr⟩ := allExpired_run (2 ^ 64 - 1)
  refine ⟨_, _, htr.step (a := .call 0 (.wait 0 0)) (by simp [FewBroadcasts]) rfl, ?_, fun h => ?_⟩
  · show BitVec.ofNat 64 (2 ^ 64 - 1) + 1 = 0
    decide
  · have hle : BitVec.ofNat 64 (2 ^ 64 - 1) ≤ BitVec.ofNat 64 (2 ^ 64 - 1) + 1 := h.wakeup_le
    exact absurd hle (by decide)

end TxLock.Spec
