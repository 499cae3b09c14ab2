import Mathlib
import TxLock.Native.CondFutex
import TxLock.Spec.CondCounters

/-!
# No wakeup of the condition variable is lost

A signal moves `wakeup_seq` on, and some waiter has to notice. Either it is not blocked, and
finds the futex changed before it sleeps, or the kernel wakes it. There are always as many
waiters awake that may leave as there are signals that nobody has taken yet, except while a
broadcast has released the internal lock and has not woken the sleepers yet: then a signal may
wake a thread that the broadcast was for. A signal whose call to release the lock and wake a
thread has failed has the lock until it has woken one.

The futex has 32 bits. A waiter that sleeps after 2^32 changes of it would miss them.

## Key results

- `section_cases`: what a section does to the data and to its thread
- `WakeInv.step`: every step keeps enough waiters awake
- `cond_no_lost_wakeup`: the waiters that are awake in every state of a run, and how they may
  leave
-/

namespace TxLock.Spec

open Native

/-! ## The sections -/

/-- The waiter may leave without a broadcast. -/
def TurnCome (d : CondData) (w : CondWait) : Prop :=
  d.wakeupSeq ≠ w.seq ∧ d.wokenSeq ≠ d.wakeupSeq

/-- What a section does, from the data `d` and the phase `ph`. -/
inductive SectionStep (d : CondData) (ph : CondPhase) (x : CondSection) :
    CondData → CondPhase → Prop where
  | nothing (hout : ph = .out) (hr : x.registers = false)
      (hmarks : x = .signal ∨ x = .broadcast → ¬ d.totalSeq > d.wakeupSeq) :
    SectionStep d ph x d .out
  | registers {mutex : Addr} {w : CondWait} (hout : ph = .out) (hr : x.registers = true)
      (hseq : w.seq = d.wakeupSeq) (hbc : w.bcSeq = d.broadcastSeq)
      (hfutex : w.futexVal = (d.register mutex).futex) :
    SectionStep d ph x (d.register mutex) (.waiting w)
  /-- The deadline has passed at once. -/
  | expired {mutex : Addr} (hout : ph = .out) (hr : x.registers = true) :
    SectionStep d ph x (d.register mutex).expire .out
  | signals (hout : ph = .out) (hx : x = .signal) (hgt : d.totalSeq > d.wakeupSeq) :
    SectionStep d ph x d.wakeOne .out
  | broadcasts (hout : ph = .out) (hx : x = .broadcast) (hgt : d.totalSeq > d.wakeupSeq) :
    SectionStep d ph x d.broadcast .out
  | leavesOld {w : CondWait} (hph : ph = .waiting w) (hx : ∃ err sec usec, x = .wake err sec usec)
      (hbc : w.bcSeq ≠ d.broadcastSeq) : SectionStep d ph x d.leave .out
  | takes {w : CondWait} (hph : ph = .waiting w) (hx : ∃ err sec usec, x = .wake err sec usec)
      (hbc : w.bcSeq = d.broadcastSeq) (hturn : TurnCome d w) : SectionStep d ph x d.woken.leave .out
  | expires {w : CondWait} (hph : ph = .waiting w) (hx : ∃ err sec usec, x = .wake err sec usec)
      (hbc : w.bcSeq = d.broadcastSeq) (hnot : ¬ TurnCome d w) : SectionStep d ph x d.expire .out
  | sleeps {w w' : CondWait} (hph : ph = .waiting w) (hx : ∃ err sec usec, x = .wake err sec usec)
      (hbc : w.bcSeq = d.broadcastSeq) (hnot : ¬ TurnCome d w) (hseq : w'.seq = w.seq)
      (hbc' : w'.bcSeq = w.bcSeq) (hfutex : w'.futexVal = d.futex) :
    SectionStep d ph x d (.waiting w')

/-- A waiter that has the internal lock again leaves or sleeps on. -/
theorem wakeUp_cases {d d' : CondData} {w : CondWait} {ph : CondPhase} {err sec usec : Int}
    (h : CondSection.wakeUp d w err sec usec = (d', ph)) :
    SectionStep d (.waiting w) (.wake err sec usec) d' ph := by
  have hx : ∃ err' sec' usec', CondSection.wake err sec usec = .wake err' sec' usec' :=
    ⟨_, _, _, rfl⟩
  unfold CondSection.wakeUp at h
  by_cases hbc : w.bcSeq ≠ d.broadcastSeq
  · rw [if_pos hbc] at h
    cases h
    exact .leavesOld rfl hx hbc
  rw [if_neg hbc] at h
  have hbc : w.bcSeq = d.broadcastSeq := not_not.mp hbc
  -- no broadcast: a signal that is not taken, or the deadline, ends the wait
  by_cases hturn : d.wakeupSeq ≠ w.seq ∧ d.wokenSeq ≠ d.wakeupSeq
  · rw [if_pos hturn] at h
    cases h
    exact .takes rfl hx hbc hturn
  rw [if_neg hturn] at h
  cases hab : w.abstime with
  | none =>
    simp only [hab] at h
    cases h
    exact .sleeps rfl hx hbc hturn rfl rfl rfl
  | some abstime =>
    simp only [hab] at h
    by_cases herr : err = -ETIMEDOUT
    · rw [if_pos herr] at h
      cases h
      exact .expires rfl hx hbc hturn
    -- `__pthread_cond_timedwait` reads the clock again before it sleeps
    rw [if_neg herr, CondSection.timedHead] at h
    by_cases hrt : (relTime abstime sec usec).tvSec < 0
    · rw [if_pos hrt, if_neg (not_not.mpr hbc)] at h
      cases h
      exact .expires rfl hx hbc hturn
    · rw [if_neg hrt] at h
      cases h
      exact .sleeps rfl hx hbc hturn rfl rfl rfl

theorem section_cases {x : CondSection} {d d' : CondData} {ph ph' : CondPhase}
    (h : x.run d ph = some (d', ph')) : SectionStep d ph x d' ph' := by
  cases ph with
  | waiting w =>
    cases x with
    | wake err sec usec =>
      simp only [CondSection.run, Option.ite_none_right_eq_some, Option.some.injEq] at h
      exact wakeUp_cases h.2
    | wait | timedwait | signal | broadcast => cases h
  | out =>
    cases x with
    | wake => cases h
    | wait mutex err =>
      simp only [CondSection.run] at h
      by_cases herr : err = 0
      · rw [if_neg (not_not.mpr herr)] at h
        cases h
        exact .registers rfl (decide_eq_true herr) rfl rfl rfl
      · rw [if_pos herr] at h
        cases h
        exact .nothing rfl (decide_eq_false herr) (by simp)
    | timedwait mutex abstime err sec usec =>
      simp only [CondSection.run] at h
      by_cases herr : abstime.Invalid ∨ err ≠ 0
      · rw [if_pos herr] at h
        cases h
        refine .nothing rfl (decide_eq_false fun hc => ?_) (by simp)
        exact herr.elim hc.1 fun hne => hne hc.2
      · have hr : (CondSection.timedwait mutex abstime err sec usec).registers = true :=
          decide_eq_true ⟨fun hc => herr (.inl hc), not_not.mp fun hc => herr (.inr hc)⟩
        have hbc : (CondSection.newWait (d.register mutex) (some abstime)).bcSeq =
            (d.register mutex).broadcastSeq := rfl
        rw [if_neg herr, CondSection.timedHead] at h
        split at h
        · -- there was no broadcast in between
          rw [if_neg (not_not.mpr hbc)] at h
          cases h
          exact .expired rfl hr
        · cases h
          exact .registers rfl hr rfl rfl rfl
    | signal =>
      simp only [CondSection.run, CondData.signal, Option.some.injEq] at h
      split at h
      · cases h
        exact .signals rfl rfl (by assumption)
      · cases h
        exact .nothing rfl rfl fun _ => by assumption
    | broadcast =>
      simp only [CondSection.run, Option.some.injEq] at h
      by_cases hgt : d.totalSeq > d.wakeupSeq
      · cases h
        exact .broadcasts rfl rfl hgt
      · rw [CondData.broadcast, if_neg hgt] at h
        cases h
        exact .nothing rfl rfl fun _ => hgt

/-- Only a thread that is not waiting signals. -/
theorem waker_out {x : CondSection} {d : CondData} {ph : CondPhase} {r : CondData × CondPhase}
    (hx : x = .signal ∨ x = .broadcast) (h : x.run d ph = some r) : ph = .out ∧ r.2 = .out := by
  rcases hx with rfl | rfl <;> cases ph <;> simp [CondSection.run] at h <;> simp [← h]

/-! ## The waiters that may leave -/

/-- How many signals nobody has taken yet. -/
def pending (d : CondData) : Nat := d.wakeupSeq.toNat - d.wokenSeq.toNat

theorem pending_wakeOne {d : CondData} (hle : d.wokenSeq.toNat ≤ d.wakeupSeq.toNat)
    (hlt : d.wakeupSeq.toNat + 1 < 2 ^ 64) : pending d.wakeOne = pending d + 1 := by
  have hwakeup : (d.wakeupSeq + 1).toNat = d.wakeupSeq.toNat + 1 := by bv_omega
  show (d.wakeupSeq + 1).toNat - d.wokenSeq.toNat = d.wakeupSeq.toNat - d.wokenSeq.toNat + 1
  omega

theorem pending_woken {d : CondData} (hle : d.wokenSeq.toNat ≤ d.wakeupSeq.toNat)
    (hne : d.wokenSeq ≠ d.wakeupSeq) : pending d = pending d.woken.leave + 1 := by
  have hlt : d.wokenSeq.toNat ≠ d.wakeupSeq.toNat := fun heq => hne (BitVec.eq_of_toNat_eq heq)
  have hwoken : (d.wokenSeq + 1).toNat = d.wokenSeq.toNat + 1 := by bv_omega
  show d.wakeupSeq.toNat - d.wokenSeq.toNat = d.wakeupSeq.toNat - (d.wokenSeq + 1).toNat + 1
  omega

theorem pending_expire {d : CondData} (hle : d.wokenSeq.toNat ≤ d.wakeupSeq.toNat)
    (hlt : d.wakeupSeq.toNat + 1 < 2 ^ 64) : pending d.expire = pending d := by
  have hwakeup : (d.wakeupSeq + 1).toNat = d.wakeupSeq.toNat + 1 := by bv_omega
  have hwoken : (d.wokenSeq + 1).toNat = d.wokenSeq.toNat + 1 := by bv_omega
  show (d.wakeupSeq + 1).toNat - (d.wokenSeq + 1).toNat = d.wakeupSeq.toNat - d.wokenSeq.toNat
  omega

theorem pending_broadcast {d : CondData} (hgt : d.totalSeq > d.wakeupSeq) :
    pending d.broadcast = 0 := by
  unfold CondData.broadcast
  rw [if_pos hgt]
  exact Nat.sub_self _

/-- The waiter was counted before the last wakeup. -/
def SeqBefore (v : BitVec 64) : CondPhase → Prop
  | .waiting w => w.seq ≠ v
  | .out => False

instance (v : BitVec 64) : DecidablePred (SeqBefore v)
  | .waiting w => inferInstanceAs (Decidable (w.seq ≠ v))
  | .out => inferInstanceAs (Decidable False)

section Served

variable {Tid : Type}

/-- The waiter may take a signal. -/
def Eligible (s : CondSys Tid) (t : Tid) : Prop :=
  s.since t = 0 ∧ SeqBefore s.data.wakeupSeq (s.phase t)

instance (s : CondSys Tid) : DecidablePred (Eligible s) := fun t =>
  inferInstanceAs (Decidable (s.since t = 0 ∧ SeqBefore s.data.wakeupSeq (s.phase t)))

variable [DecidableEq Tid] [Fintype Tid] {s s' : CondSys Tid} {P P' : Tid → Prop} [DecidablePred P]
  [DecidablePred P'] {t : Tid} {x : CondSection} {ph : CondPhase} {clock : Bool} {n : Nat}

/-- How many waiters with `P` may take a signal. -/
def served (s : CondSys Tid) (P : Tid → Prop) [DecidablePred P] : Nat :=
  (Finset.univ.filter fun t => Eligible s t ∧ P t).card

/-- The waiters were counted after the wakeups that they have seen. -/
def SeqLe (s : CondSys Tid) : Prop :=
  ∀ t w, s.phase t = .waiting w → w.seq.toNat ≤ s.data.wakeupSeq.toNat

omit [DecidableEq Tid] [Fintype Tid] in
/-- After another wakeup every waiter without a broadcast is eligible. -/
theorem eligible_of_later (hle : SeqLe s) (hwait : Waits (s.phase t)) (hk : s.since t = 0)
    (hphase : s'.phase t = s.phase t) (hsince : s'.since t = s.since t)
    (hlater : s.data.wakeupSeq.toNat < s'.data.wakeupSeq.toNat) : Eligible s' t := by
  refine ⟨hsince.trans hk, ?_⟩
  rw [hphase]
  cases hp : s.phase t with
  | out =>
    rw [hp] at hwait
    exact hwait.elim
  | waiting w =>
    intro heq
    have := hle t w hp
    rw [heq] at this
    omega

omit [DecidableEq Tid] [Fintype Tid] in
theorem Eligible.waits (h : Eligible s t) : Waits (s.phase t) := by
  have hb := h.2
  cases hp : s.phase t with
  | out =>
    rw [hp] at hb
    exact hb.elim
  | waiting w => trivial

omit [DecidableEq Tid] [Fintype Tid] in
theorem Eligible.later (h : Eligible s t) (hle : SeqLe s) (hphase : s'.phase t = s.phase t)
    (hsince : s'.since t = s.since t)
    (hlater : s.data.wakeupSeq.toNat ≤ s'.data.wakeupSeq.toNat) : Eligible s' t := by
  obtain hlt | heq := Nat.lt_or_eq_of_le hlater
  · exact eligible_of_later hle h.waits h.1 hphase hsince hlt
  · refine ⟨hsince.trans h.1, ?_⟩
    rw [hphase, ← BitVec.eq_of_toNat_eq heq]
    exact h.2

omit [Fintype Tid] in
theorem Inside.phase_of_ne (h : Inside s s' t x ph) {u : Tid} (hu : u ≠ t) :
    s'.phase u = s.phase u := by
  rw [h.phase, Function.update_of_ne hu]

omit [Fintype Tid] in
theorem Inside.since_of_ne (h : Inside s s' t x ph)
    (hx : ¬ (x = .broadcast ∧ s.data.totalSeq > s.data.wakeupSeq)) {u : Tid} (hu : u ≠ t) :
    s'.since u = s.since u := by
  rw [h.since, CondSys.sinceAfter, if_neg hx]
  split
  · exact Function.update_of_ne hu _ _
  · rfl

omit [DecidableEq Tid] in
/-- A waiter that is not eligible and has seen no broadcast leaves room for its own wakeup. -/
theorem CountInv.room_of_not (h : CountInv clock n s) {w : CondWait} (hph : s.phase t = .waiting w)
    (hk : s.since t = 0) (hnot : ¬ TurnCome s.data w) : s.data.wakeupSeq.toNat < n := by
  have hcurrent : 0 < currentCount s := by
    refine Finset.card_pos.mpr ⟨t, Finset.mem_filter.mpr ⟨Finset.mem_univ t, ?_, hk⟩⟩
    rw [hph]
    trivial
  obtain ⟨c, hc⟩ := Nat.exists_eq_succ_of_ne_zero hcurrent.ne'
  have hcounts := h.counts
  rw [hc] at hcounts
  exact room hcounts (h.waiter t w hph) hnot

/-- No section but a signal needs another waiter. -/
theorem served_section (hcount : CountInv clock n s) (hn : x.registers → n + 1 < 2 ^ 64)
    (hle : SeqLe s) (hi : Inside s s' t x ph)
    (hx : x = .signal → ¬ s.data.totalSeq > s.data.wakeupSeq)
    (hP : ∀ u, u ≠ t → P u → P' u) (h : pending s.data ≤ served s P) :
    pending s'.data ≤ served s' P' := by
  have hwoken := hcount.counts.woken_le
  have hwakeup := hcount.counts.wakeup_le
  have htotal := hcount.counts.total
  have hlt := s.data.totalSeq.isLt
  -- the other waiters stay eligible
  have hothers : ¬ (x = .broadcast ∧ s.data.totalSeq > s.data.wakeupSeq) →
      s.data.wakeupSeq.toNat ≤ s'.data.wakeupSeq.toNat →
      ∀ u, u ≠ t → Eligible s u ∧ P u → Eligible s' u ∧ P' u := by
    intro hb hlater u hu he
    exact ⟨he.1.later hle (hi.phase_of_ne hu) (hi.since_of_ne hb hu) hlater, hP u hu he.2⟩
  have hkeeps : ¬ (x = .broadcast ∧ s.data.totalSeq > s.data.wakeupSeq) →
      s.data.wakeupSeq.toNat ≤ s'.data.wakeupSeq.toNat → ¬ Eligible s t →
      pending s'.data = pending s.data → pending s'.data ≤ served s' P' := by
    intro hb hlater hnot heq
    rw [heq]
    refine h.trans (card_filter_le fun u hu => hothers hb hlater u (fun hut => ?_) hu)
    exact hnot (hut ▸ hu.1)
  have hout : s.phase t = .out → ¬ Eligible s t := by
    intro hph he
    have hw := he.waits
    rw [hph] at hw
    exact hw
  have hreg : x.registers = true → ¬ (x = .broadcast ∧ s.data.totalSeq > s.data.wakeupSeq) := by
    rintro hr ⟨rfl, -⟩
    simp [CondSection.registers] at hr
  have hwake : (∃ err sec usec, x = .wake err sec usec) →
      ¬ (x = .broadcast ∧ s.data.totalSeq > s.data.wakeupSeq) := by
    rintro ⟨_, _, _, rfl⟩ ⟨hb, -⟩
    simp at hb
  have hcurrent : ∀ w, s.phase t = .waiting w → w.bcSeq = s.data.broadcastSeq → s.since t = 0 :=
    fun w hph hbc => (hcount.waiter t w hph).bcSeq_eq_iff.mp hbc
  -- a waiter whose turn has not come is not eligible, or there is nothing to take
  have hturn : ∀ w, s.phase t = .waiting w → ¬ TurnCome s.data w →
      ¬ Eligible s t ∨ pending s.data = 0 := by
    intro w hph hnot
    by_cases heq : s.data.wokenSeq = s.data.wakeupSeq
    · exact .inr (by rw [pending, heq, Nat.sub_self])
    · refine .inl fun he => hnot ⟨fun hseq => ?_, heq⟩
      have hb := he.2
      rw [hph] at hb
      exact hb hseq.symm
  generalize hd : s'.data = d' at *
  cases section_cases (hi.run.trans (by rw [hd])) with
  | nothing hph hr hmarks =>
    exact hkeeps (fun hb => hmarks (.inr hb.1) hb.2) (Nat.le_refl _) (hout hph) rfl
  | registers hph hr => exact hkeeps (hreg hr) (Nat.le_refl _) (hout hph) rfl
  | @expired mutex hph hr =>
    have hroom : s.data.wakeupSeq.toNat + 1 < 2 ^ 64 := by
      have := hn hr
      omega
    have hlater : (s.data.register mutex).expire.wakeupSeq.toNat = s.data.wakeupSeq.toNat + 1 := by
      show (s.data.wakeupSeq + 1).toNat = _
      bv_omega
    exact hkeeps (hreg hr) (by omega) (hout hph)
      (pending_expire (d := s.data.register mutex) hwoken hroom)
  | signals hph hxs hgt => exact absurd hgt (hx hxs)
  | broadcasts hph hxb hgt =>
    rw [pending_broadcast hgt]
    exact Nat.zero_le _
  | @leavesOld w hph hxw hbc =>
    refine hkeeps (hwake hxw) (Nat.le_refl _) (fun he => hbc ?_) rfl
    exact (hcount.waiter t w hph).bcSeq_eq_iff.mpr he.1
  | takes hph hxw hbc hturn =>
    -- one signal less, and one waiter
    have hpend := pending_woken hwoken hturn.2
    have hcard : served s P ≤ served s' P' + 1 :=
      card_filter_le_succ (hothers (hwake hxw) (Nat.le_refl _))
    omega
  | @expires w hph hxw hbc hnot =>
    have hroom := hcount.room_of_not hph (hcurrent w hph hbc) hnot
    have hpend : pending s.data.expire = pending s.data := pending_expire hwoken (by omega)
    have hlater : s.data.expire.wakeupSeq.toNat = s.data.wakeupSeq.toNat + 1 := by
      show (s.data.wakeupSeq + 1).toNat = _
      bv_omega
    rcases hturn w hph hnot with hnot | hzero
    · exact hkeeps (hwake hxw) (by omega) hnot hpend
    · rw [hpend, hzero]
      exact Nat.zero_le _
  | @sleeps w w' hph hxw hbc hnot =>
    rcases hturn w hph hnot with hnot | hzero
    · exact hkeeps (hwake hxw) (Nat.le_refl _) hnot rfl
    · rw [hzero]
      exact Nat.zero_le _

/-- A signal makes every waiter without a broadcast eligible. -/
theorem signal_eligible (hcount : CountInv clock n s) (hle : SeqLe s) (hi : Inside s s' t .signal ph)
    (hgt : s.data.totalSeq > s.data.wakeupSeq) :
    pending s'.data = pending s.data + 1 ∧
      ∀ u, Waits (s.phase u) → s.since u = 0 → Eligible s' u := by
  have hwoken := hcount.counts.woken_le
  have hwakeup := hcount.counts.wakeup_le
  have htotal := hcount.counts.total
  have hlt := s.data.totalSeq.isLt
  -- fewer wakeups than waits have been counted, so there is room for one more
  have hroom : s.data.wakeupSeq.toNat + 1 < 2 ^ 64 := by bv_omega
  have hrun := hi.run
  have hsince := hi.since
  cases hph : s.phase t with
  | waiting w =>
    rw [hph] at hrun
    cases hrun
  | out =>
    rw [hph] at hrun
    simp only [CondSection.run, CondData.signal, if_pos hgt, Option.some.injEq, Prod.mk.injEq] at hrun
    obtain ⟨hd, rfl⟩ := hrun
    have hphase : s'.phase = s.phase := by rw [hi.phase, ← hph, Function.update_eq_self]
    have hsame : s'.since = s.since := by
      rw [hi.since, CondSys.sinceAfter]
      simp [CondSection.registers]
    -- with the new wakeup there is one that none of the waiters has read
    have hlater : s.data.wakeupSeq.toNat < s'.data.wakeupSeq.toNat := by
      rw [← hd]
      show _ < (s.data.wakeupSeq + 1).toNat
      bv_omega
    refine ⟨?_, fun u hw hk => eligible_of_later hle hw hk (by rw [hphase]) (by rw [hsame]) hlater⟩
    rw [← hd, pending_wakeOne hwoken hroom]

/-- A signal for which a waiter is woken that was not counted before. -/
theorem served_signal_one (hcount : CountInv clock n s) (hle : SeqLe s)
    (hi : Inside s s' t .signal ph) (hgt : s.data.totalSeq > s.data.wakeupSeq)
    (hP : ∀ u, P u → P' u) {u : Tid} (hw : Waits (s.phase u)) (hk : s.since u = 0) (hnot : ¬ P u)
    (hu : P' u) (h : pending s.data ≤ served s P) : pending s'.data ≤ served s' P' := by
  obtain ⟨hpend, helig⟩ := signal_eligible hcount hle hi hgt
  rw [hpend]
  have hcard : served s P < served s' P' :=
    card_filter_lt (fun v hv => ⟨helig v hv.1.waits hv.1.1, hP v hv.2⟩) (fun hc => hnot hc.2)
      ⟨helig u hw hk, hu⟩
  omega

/-- A signal when every waiter is counted. -/
theorem served_signal_all (hcount : CountInv clock n s) (hle : SeqLe s)
    (hi : Inside s s' t .signal ph) (hgt : s.data.totalSeq > s.data.wakeupSeq)
    (hP : ∀ u, Waits (s.phase u) → P' u) : pending s'.data ≤ served s' P' := by
  obtain ⟨hpend, helig⟩ := signal_eligible hcount hle hi hgt
  have hcard : currentCount s ≤ served s' P' :=
    card_filter_le fun u hu => ⟨helig u hu.1 hu.2, hP u hu.1⟩
  have hbehind := hcount.counts.behind
  have htotal := hcount.counts.total
  have hwoken := hcount.counts.woken_le
  have hlt : s.data.wakeupSeq.toNat < s.data.totalSeq.toNat := hgt
  rw [hpend, pending]
  omega

end Served

/-! ## The futex -/

/-- The counters do not go back. -/
structure Grows (d d' : CondData) : Prop where
  total : d.totalSeq.toNat ≤ d'.totalSeq.toNat
  wakeup : d.wakeupSeq.toNat ≤ d'.wakeupSeq.toNat
  woken : d.wokenSeq.toNat ≤ d'.wokenSeq.toNat

/-- The futex is the sum of two counters. -/
theorem Counts.futex_eq {clock : Bool} {d : CondData} {n waiting current : Nat}
    (h : Counts clock d n waiting current) : d.futex = BitVec.ofNat 32 (CondFutex.seqs d) := by
  rw [h.futex, CondFutex.seqs, BitVec.ofNat_add]
  rfl

/-- When the sum has not grown, no counter has moved on whose move would be missed. -/
theorem Grows.eq_of_seqs {d d' : CondData} (h : Grows d d')
    (hseqs : CondFutex.seqs d' - CondFutex.seqs d = 0) (hle : d'.wokenSeq.toNat ≤ d'.wakeupSeq.toNat) :
    d'.wakeupSeq = d.wakeupSeq ∧ (d.wokenSeq = d.wakeupSeq → d'.wokenSeq = d'.wakeupSeq) := by
  have htotal := h.total
  have hwakeup := h.wakeup
  have hwoken := h.woken
  simp only [CondFutex.seqs] at hseqs
  have heq : d'.wakeupSeq.toNat = d.wakeupSeq.toNat := by omega
  refine ⟨BitVec.eq_of_toNat_eq heq, fun he => BitVec.eq_of_toNat_eq ?_⟩
  rw [he] at hwoken
  omega

section Futex

variable {Tid : Type} [DecidableEq Tid] [Fintype Tid] {s s' : CondSys Tid} {t : Tid}
  {x : CondSection} {ph : CondPhase} {clock : Bool} {n : Nat}

theorem section_grows (hcount : CountInv clock n s) (hn : x.registers → n + 1 < 2 ^ 64)
    (hi : Inside s s' t x ph) : Grows s.data s'.data := by
  have hwoken := hcount.counts.woken_le
  have hwakeup := hcount.counts.wakeup_le
  have htotal := hcount.counts.total
  have hlt := s.data.totalSeq.isLt
  have hregister : x.registers = true → s.data.totalSeq.toNat ≤ (s.data.totalSeq + 1).toNat := by
    intro hr
    have := hn hr
    bv_omega
  -- a wakeup for which there is room
  have hwake : s.data.wakeupSeq.toNat + 1 < 2 ^ 64 →
      s.data.wakeupSeq.toNat ≤ (s.data.wakeupSeq + 1).toNat ∧
        s.data.wokenSeq.toNat ≤ (s.data.wokenSeq + 1).toNat := by
    intro hroom
    constructor <;> bv_omega
  have hrefl : Grows s.data s.data := ⟨Nat.le_refl _, Nat.le_refl _, Nat.le_refl _⟩
  generalize hd : s'.data = d' at *
  cases section_cases (hi.run.trans (by rw [hd])) with
  | nothing => exact hrefl
  | registers hph hr => exact ⟨hregister hr, Nat.le_refl _, Nat.le_refl _⟩
  | expired hph hr =>
    have := hn hr
    obtain ⟨h₁, h₂⟩ := hwake (by omega)
    exact ⟨hregister hr, h₁, h₂⟩
  | signals hph hxs hgt =>
    have hlt' : s.data.wakeupSeq.toNat < s.data.totalSeq.toNat := hgt
    exact ⟨Nat.le_refl _, (hwake (by omega)).1, Nat.le_refl _⟩
  | broadcasts hph hxb hgt =>
    unfold CondData.broadcast
    rw [if_pos hgt]
    refine ⟨Nat.le_refl _, ?_, ?_⟩
    · show s.data.wakeupSeq.toNat ≤ s.data.totalSeq.toNat
      omega
    · show s.data.wokenSeq.toNat ≤ s.data.totalSeq.toNat
      omega
  | leavesOld => exact ⟨Nat.le_refl _, Nat.le_refl _, Nat.le_refl _⟩
  | takes hph hxw hbc hturn =>
    have hne : s.data.wokenSeq.toNat ≠ s.data.wakeupSeq.toNat := fun heq =>
      hturn.2 (BitVec.eq_of_toNat_eq heq)
    refine ⟨Nat.le_refl _, Nat.le_refl _, ?_⟩
    show s.data.wokenSeq.toNat ≤ (s.data.wokenSeq + 1).toNat
    bv_omega
  | @expires w hph hxw hbc hnot =>
    have hk := (hcount.waiter t w hph).bcSeq_eq_iff.mp hbc
    have hroom := hcount.room_of_not hph hk hnot
    obtain ⟨h₁, h₂⟩ := hwake (by omega)
    exact ⟨Nat.le_refl _, h₁, h₂⟩
  | sleeps => exact hrefl

end Futex

/-- What a waiter knows of the futex. -/
structure SleeperOk {Tid : Type} (s : CondFutex Tid) (t : Tid) (w : CondWait) : Prop where
  seq_le : w.seq.toNat ≤ s.cond.data.wakeupSeq.toNat
  futex : w.futexVal + BitVec.ofNat 32 (s.changes t) = s.cond.data.futex
  /-- A broadcast has changed the futex. -/
  old : s.cond.since t ≠ 0 → s.changes t ≠ 0
  /-- As long as the futex is what it has read, there is nothing for it to take. -/
  fresh : s.cond.since t = 0 → s.changes t = 0 →
    w.seq = s.cond.data.wakeupSeq ∨ s.cond.data.wokenSeq = s.cond.data.wakeupSeq

/-- Where a thread may be in the kernel. -/
def PcOk (pc : FutexPc) (tx : Option (CondData × CondPhase)) (ph : CondPhase) : Prop :=
  match pc with
  | .futexWait | .blocked | .returned => tx = none ∧ ∃ w, ph = .waiting w ∧ w.asleep = true
  | .wakeMore | .wakeLocked | .wakeAll => ph = .out
  | .out => tx = none → ∀ w, ph = .waiting w → w.asleep = false

section System

variable {Tid : Type} [DecidableEq Tid] [Fintype Tid] {s s' : CondFutex Tid} {t : Tid}
  {clock : Bool} {n : Nat} {cfg : TxConfig} {a : CondFutexAct Tid}

/-- A signal has yet to wake a thread before it releases the internal lock. -/
def owed (s : CondFutex Tid) : Nat := if ∃ u, s.futexPc u = .wakeLocked then 1 else 0

omit [DecidableEq Tid] in
theorem owed_of_lockFree (h : s.LockFree) : owed s = 0 := if_neg fun ⟨u, hu⟩ => h u hu

omit [DecidableEq Tid] in
theorem owed_le (h : (∃ u, s.futexPc u = .wakeLocked) → ∃ u, s'.futexPc u = .wakeLocked) :
    owed s ≤ owed s' := by
  unfold owed
  split
  · rename_i hex
    rw [if_pos (h hex)]
  · exact Nat.zero_le _

/-- There are enough waiters awake, unless a broadcast is about to wake everybody. -/
structure CallsOk (s : CondFutex Tid) : Prop where
  pc : ∀ t, PcOk (s.futexPc t) (s.cond.tx t) (s.cond.phase t)
  broadcast : ∀ t, s.futexPc t = .blocked → s.cond.since t ≠ 0 → ∃ u, s.futexPc u = .wakeAll
  /-- A signal that has the internal lock is for any of the waiters. -/
  locked : (∃ u, s.futexPc u = .wakeLocked) →
    ∀ t, Waits (s.cond.phase t) → s.cond.since t = 0 → Eligible s.cond t
  awake : (∃ u, s.futexPc u = .wakeAll) ∨
    pending s.cond.data ≤ (served s.cond fun t => s.futexPc t ≠ .blocked) + owed s

/-- The counters, the waiters and the calls they are in. -/
structure WakeInv (clock : Bool) (n : Nat) (s : CondFutex Tid) : Prop extends CallsOk s where
  counts : CountInv clock n s.cond
  sleeper : ∀ t w, s.cond.phase t = .waiting w → SleeperOk s t w
  eligible : pending s.cond.data ≤ served s.cond fun _ => True

/-! ## The steps -/

/-- The thread that an action counts as a new waiter. -/
def CondFutex.registered (s : CondFutex Tid) : CondFutexAct Tid → List Tid
  | .call t x _ => CondSys.registered s.cond (.call t x)
  | _ => []

/-- A step is a section, a step outside the internal lock, or the kernel's. -/
inductive FutexStep (s s' : CondFutex Tid) : CondFutexAct Tid → Prop where
  | inside {t : Tid} {x : CondSection} {answer : WakeOpAnswer Tid} {ph : CondPhase}
      (hentry : s.futexPc t = CondFutex.entry x) (hfree : s.LockFree)
      (hi : Inside s.cond s'.cond t x ph) (htx : s'.cond.tx = s.cond.tx)
      (hpc : CondFutex.afterSection s.futexPc t x s.cond.data ph answer = some s'.futexPc)
      (hchanges : s'.changes = s.changesAfter s'.cond.data t (CondFutex.reads ph)) :
    FutexStep s s' (.call t x answer)
  | outside {b : CondFutexAct Tid} {t : Tid} {p : FutexPc} (hreg : CondFutex.registered s b = [])
      (hpc : s.futexPc t = .out) (ho : Outside s.cond s'.cond)
      (hother : ∀ u, u ≠ t → s'.cond.tx u = s.cond.tx u ∧ s'.cond.phase u = s.cond.phase u)
      (hwait : ∀ u w', s'.cond.phase u = .waiting w' → ∃ w, s.cond.phase u = .waiting w ∧
        w'.seq = w.seq ∧ w'.futexVal = w.futexVal)
      (hpc' : s'.futexPc = Function.update s.futexPc t p) (hp : p ≠ .blocked ∧ p ≠ .wakeLocked)
      (hok : PcOk p (s'.cond.tx t) (s'.cond.phase t)) (hchanges : s'.changes = s.changes) :
    FutexStep s s' b
  | futexWait {t : Tid} {w : CondWait} {p : FutexPc} (hpc : s.futexPc t = .futexWait)
      (hph : s.cond.phase t = .waiting w)
      (hp : p = if s.cond.data.futex = w.futexVal then .blocked else .returned)
      (hs : s' = { s with futexPc := Function.update s.futexPc t p }) :
    FutexStep s s' (.futexWait t)
  /-- Threads that are blocked are woken, and a signal may return. -/
  | wakes {b : CondFutexAct Tid} {pc : Tid → FutexPc} (hreg : CondFutex.registered s b = [])
      (hs : s' = { s with futexPc := pc })
      (hpc : ∀ u, pc u = s.futexPc u ∨ (s.futexPc u = .blocked ∧ pc u = .returned) ∨
        (s.futexPc u = .wakeMore ∧ pc u = .out)) : FutexStep s s' b
  | wakesLocked {t : Tid} {woken : Option Tid} {pc : Tid → FutexPc}
      (hpc : s.futexPc t = .wakeLocked) (hwake : CondFutex.wakeOne s.futexPc woken = some pc)
      (hs : s' = { s with futexPc := Function.update pc t .out }) :
    FutexStep s s' (.futexWake t woken)
  | wakesAll {t : Tid} {woken : Option Tid} (hpc : s.futexPc t = .wakeAll)
      (hs : s' = { s with
        futexPc := Function.update (CondFutex.wakeEverybody s.futexPc) t .out }) :
    FutexStep s s' (.futexWake t woken)

/-- The kernel wakes one thread that is blocked, or there is none. -/
theorem wakeOne_cases {pc pc' : Tid → FutexPc} {woken : Option Tid}
    (h : CondFutex.wakeOne pc woken = some pc') :
    (woken = none ∧ (∀ u, pc u ≠ .blocked) ∧ pc' = pc) ∨
      ∃ u, woken = some u ∧ pc u = .blocked ∧ pc' = Function.update pc u .returned := by
  cases woken with
  | none =>
    simp only [CondFutex.wakeOne, Option.ite_none_left_eq_some, Option.some.injEq] at h
    exact .inl ⟨rfl, by simpa using h.1, h.2.symm⟩
  | some u =>
    simp only [CondFutex.wakeOne, Option.ite_none_right_eq_some, Option.some.injEq] at h
    exact .inr ⟨u, rfl, h.1, h.2.symm⟩

/-- A thread that the kernel does not wake stays where it is. -/
theorem wakeOne_same {pc pc' : Tid → FutexPc} {woken : Option Tid}
    (h : CondFutex.wakeOne pc woken = some pc') (u : Tid) :
    pc' u = pc u ∨ pc u = .blocked ∧ pc' u = .returned := by
  obtain ⟨-, -, rfl⟩ | ⟨v, -, hv, rfl⟩ := wakeOne_cases h
  · exact .inl rfl
  · by_cases huv : u = v
    · subst huv
      exact .inr ⟨hv, Function.update_self ..⟩
    · exact .inl (Function.update_of_ne huv ..)

theorem wakeOne_kept {pc pc' : Tid → FutexPc} {woken : Option Tid} {q : FutexPc}
    (h : CondFutex.wakeOne pc woken = some pc') (hq : q ≠ .blocked) {u : Tid} (hu : pc u = q) :
    pc' u = q := by
  rcases wakeOne_same h u with heq | ⟨hb, -⟩
  · exact heq.trans hu
  · exact absurd (hu.symm.trans hb) hq

theorem of_wakeOne {pc pc' : Tid → FutexPc} {woken : Option Tid} {q : FutexPc}
    (h : CondFutex.wakeOne pc woken = some pc') (hq : q ≠ .returned) {u : Tid} (hu : pc' u = q) :
    pc u = q := by
  rcases wakeOne_same h u with heq | ⟨-, hr⟩
  · exact heq.symm.trans hu
  · exact absurd (hu.symm.trans hr) hq

omit [Fintype Tid] in
/-- A step outside the internal lock moves one thread, which remembers what it has read. -/
theorem outside_cases {c c' : CondSys Tid} {b : CondSysAct Tid}
    (hb : b = .sleep t ∨ b = .enterHtm t ∨ b = .lockHtm t ∨ b = .abort t)
    (hs : CondSys.step cfg c b = some c') :
    (∀ u, u ≠ t → c'.tx u = c.tx u ∧ c'.phase u = c.phase u) ∧
      ∀ u w', c'.phase u = .waiting w' → ∃ w, c.phase u = .waiting w ∧
        w'.seq = w.seq ∧ w'.futexVal = w.futexVal := by
  -- the phase of the thread is as it was, or it is asleep
  have hmoves : ∀ ph, c'.phase = Function.update c.phase t ph →
      (∀ w', ph = .waiting w' → ∃ w, c.phase t = .waiting w ∧ w'.seq = w.seq ∧
        w'.futexVal = w.futexVal) → (∀ u, u ≠ t → c'.tx u = c.tx u) →
      (∀ u, u ≠ t → c'.tx u = c.tx u ∧ c'.phase u = c.phase u) ∧
      ∀ u w', c'.phase u = .waiting w' → ∃ w, c.phase u = .waiting w ∧
        w'.seq = w.seq ∧ w'.futexVal = w.futexVal := by
    intro ph hph hw htx
    refine ⟨fun u hu => ⟨htx u hu, by rw [hph, Function.update_of_ne hu]⟩, fun u w' hu => ?_⟩
    rw [hph] at hu
    by_cases hut : u = t
    · subst hut
      exact hw w' (by simpa using hu)
    · rw [Function.update_of_ne hut] at hu
      exact ⟨w', hu, rfl, rfl⟩
  have hstays : c'.phase = c.phase → (∀ u, u ≠ t → c'.tx u = c.tx u) → _ :=
    fun hph => hmoves (c.phase t) (by rw [hph, Function.update_eq_self])
      fun w' hw => ⟨w', hw, rfl, rfl⟩
  have hfailed : ∀ w', CondSys.beginFailed (c.phase t) = .waiting w' →
      ∃ w, c.phase t = .waiting w ∧ w'.seq = w.seq ∧ w'.futexVal = w.futexVal := by
    intro w' hw
    cases hp : c.phase t with
    | out =>
      rw [hp] at hw
      cases hw
    | waiting w =>
      rw [hp] at hw
      cases hw
      exact ⟨w, rfl, rfl, rfl⟩
  rcases hb with rfl | rfl | rfl | rfl
  · simp only [CondSys.step] at hs
    split at hs
    · rename_i w _ hph
      simp only [Option.ite_none_left_eq_some, Option.some.injEq] at hs
      obtain ⟨-, rfl⟩ := hs
      refine hmoves _ rfl (fun w' hw => ?_) fun _ _ => rfl
      cases hw
      exact ⟨w, hph, rfl, rfl⟩
    · cases hs
  · simp only [CondSys.step] at hs
    split at hs
    · simp only [Option.ite_none_right_eq_some, Option.some.injEq] at hs
      obtain ⟨-, rfl⟩ := hs
      exact hstays rfl fun u hu => Function.update_of_ne hu ..
    · simp only [Option.ite_none_right_eq_some, Option.some.injEq] at hs
      obtain ⟨-, rfl⟩ := hs
      exact hstays rfl fun u hu => Function.update_of_ne hu ..
    · cases hs
  · simp only [CondSys.step] at hs
    split at hs
    · cases hs
      exact hstays rfl fun u hu => Function.update_of_ne hu ..
    · cases hs
  · simp only [CondSys.step] at hs
    split at hs
    · cases hs
      exact hmoves _ rfl hfailed fun u hu => Function.update_of_ne hu ..
    · rename_i w _ hph
      simp only [Option.ite_none_right_eq_some, Option.some.injEq] at hs
      obtain ⟨-, rfl⟩ := hs
      exact hmoves _ rfl (hph ▸ hfailed) fun _ _ => rfl
    · cases hs

/-- Where a thread goes on that is not in a transaction. -/
theorem entering_ok (ph : CondPhase) :
    (CondFutex.entering ph ≠ .blocked ∧ CondFutex.entering ph ≠ .wakeLocked) ∧
      PcOk (CondFutex.entering ph) none ph := by
  cases ph with
  | out => simp [CondFutex.entering, PcOk]
  | waiting w => cases h : w.asleep <;> simp [CondFutex.entering, PcOk, h]

/-- The step of a thread outside the internal lock, with the system call it leads to. -/
theorem FutexStep.of_outside {b : CondSysAct Tid}
    (hb : b = .sleep t ∨ b = .enterHtm t ∨ b = .lockHtm t ∨ b = .abort t)
    (hreg : CondFutex.registered s a = []) (hs : s.outside cfg t b = some s') :
    FutexStep s s' a := by
  simp only [CondFutex.outside, Option.ite_none_right_eq_some, Option.map_eq_some_iff] at hs
  obtain ⟨hpc, c, hc, rfl⟩ := hs
  have ho : Outside s.cond c := by
    obtain ⟨u, x, ph, rfl, -⟩ | ⟨-, ho⟩ := step_cases hc
    · simp at hb
    · exact ho
  obtain ⟨hother, hwait⟩ := outside_cases hb hc
  refine .outside hreg hpc ho hother hwait rfl ?_ ?_ rfl
  · split
    · exact (entering_ok _).1
    · simp
  · cases htx : c.tx t with
    | none => exact (entering_ok _).2
    | some v => simp [PcOk]

omit [Fintype Tid] in
/-- A section in a transaction. -/
theorem tx_section {c c' : CondSys Tid} {x : CondSection} (htx : (c.tx t).isSome = true)
    (hs : CondSys.step cfg c (.call t x) = some c') :
    CondFutex.entry x = .out ∧ ∃ v, c' = { c with tx := Function.update c.tx t (some v) } := by
  obtain ⟨v, htx⟩ := Option.isSome_iff_exists.mp htx
  cases x with
  | wake => simp [CondSys.step, htx] at hs
  | wait | timedwait | signal | broadcast =>
    simp only [CondSys.step, htx, Option.map_eq_some_iff] at hs
    obtain ⟨r, -, rfl⟩ := hs
    exact ⟨rfl, r, rfl⟩

omit [Fintype Tid] in
/-- A section outside transactions. -/
theorem inside_section {c c' : CondSys Tid} {x : CondSection} (htx : c.tx t = none)
    (hs : CondSys.step cfg c (.call t x) = some c') :
    Inside c c' t x (c'.phase t) ∧ c'.tx = c.tx := by
  have hrun : (x.run c.data (c.phase t)).map (fun r => { c with
      data := r.1, phase := Function.update c.phase t r.2, since := c.sinceAfter t x }) = some c' := by
    simpa only [CondSys.step, htx] using hs
  obtain ⟨r, hr, rfl⟩ := Option.map_eq_some_iff.mp hrun
  refine ⟨⟨htx, ?_, ?_, rfl⟩, rfl⟩
  · simpa using hr
  · simp

theorem FutexStep.of_step (hs : s.step cfg a = some s') : FutexStep s s' a := by
  cases a with
  | call t x answer =>
    simp only [CondFutex.step, Option.ite_none_right_eq_some, Option.bind_eq_some_iff] at hs
    obtain ⟨⟨hentry, hfree⟩, c, hc, hs⟩ := hs
    cases htx : (s.cond.tx t).isSome with
    | true =>
      simp only [htx, if_true, Option.some.injEq] at hs
      subst hs
      -- a section in a transaction makes no call of the kernel that others see
      obtain ⟨hout, v, rfl⟩ := tx_section htx hc
      rw [hout] at hentry
      refine .outside (t := t) ?_ hentry ⟨rfl, rfl, .inl rfl⟩ (fun u hu => ?_) ?_
        (p := .out) ?_ (by simp) ?_ rfl
      · obtain ⟨v, htx⟩ := Option.isSome_iff_exists.mp htx
        simp [CondFutex.registered, CondSys.registered, htx]
      · exact ⟨Function.update_of_ne hu .., rfl⟩
      · exact fun u w hw => ⟨w, hw, rfl, rfl⟩
      · rw [← hentry, Function.update_eq_self]
      · simp [PcOk]
    | false =>
      simp only [htx, Bool.false_eq_true, if_false, Option.map_eq_some_iff] at hs
      obtain ⟨pc, hpc, rfl⟩ := hs
      obtain ⟨hi, htx'⟩ := inside_section (by simpa using htx) hc
      exact .inside hentry hfree hi htx' hpc rfl
  | sleep t => exact .of_outside (.inl rfl) rfl hs
  | enterHtm t => exact .of_outside (.inr (.inl rfl)) rfl hs
  | lockHtm t => exact .of_outside (.inr (.inr (.inl rfl))) rfl hs
  | abort t => exact .of_outside (.inr (.inr (.inr rfl))) rfl hs
  | futexWait t =>
    simp only [CondFutex.step] at hs
    split at hs
    · rename_i w hpc hph
      simp only [Option.some.injEq] at hs
      exact .futexWait hpc hph rfl hs.symm
    · cases hs
  | futexReturn t =>
    simp only [CondFutex.step, Option.ite_none_right_eq_some, Option.some.injEq] at hs
    obtain ⟨hpc, rfl⟩ := hs
    refine .wakes rfl rfl fun u => ?_
    by_cases hu : u = t
    · subst hu
      exact .inr (.inl ⟨hpc, Function.update_self ..⟩)
    · exact .inl (Function.update_of_ne hu ..)
  | futexWake t woken =>
    simp only [CondFutex.step] at hs
    split at hs
    · rename_i hpc
      simp only [Option.map_eq_some_iff] at hs
      -- the second wake of a signal, which has released the lock
      obtain ⟨pc, hwake, rfl⟩ := hs
      refine .wakes rfl rfl fun u => ?_
      by_cases hu : u = t
      · subst hu
        exact .inr (.inr ⟨hpc, Function.update_self ..⟩)
      · rw [Function.update_of_ne hu]
        exact (wakeOne_same hwake u).imp_right .inl
    · rename_i hpc
      simp only [Option.map_eq_some_iff] at hs
      obtain ⟨pc, hwake, rfl⟩ := hs
      exact .wakesLocked hpc hwake rfl
    · rename_i hpc
      simp only [Option.some.injEq] at hs
      exact .wakesAll hpc hs.symm
    · cases hs

/-! ## What the steps keep -/

omit [DecidableEq Tid] [Fintype Tid] in
/-- A waiter remembers what it has read while the counters grow. -/
theorem SleeperOk.later {w : CondWait} (h : SleeperOk s t w)
    (hgrows : Grows s.cond.data s'.cond.data)
    (hle : s'.cond.data.wokenSeq.toNat ≤ s'.cond.data.wakeupSeq.toNat)
    (hfutex : s.cond.data.futex = BitVec.ofNat 32 (CondFutex.seqs s.cond.data))
    (hfutex' : s'.cond.data.futex = BitVec.ofNat 32 (CondFutex.seqs s'.cond.data))
    (hchanges : s'.changes t =
      s.changes t + (CondFutex.seqs s'.cond.data - CondFutex.seqs s.cond.data))
    (hsince : s'.cond.since t = s.cond.since t ∨
      CondFutex.seqs s.cond.data < CondFutex.seqs s'.cond.data ∧ s'.cond.since t ≠ 0) :
    SleeperOk s' t w := by
  -- the futex counts registrations and wakeups, and both only grow
  have hseqs : CondFutex.seqs s.cond.data ≤ CondFutex.seqs s'.cond.data :=
    Nat.add_le_add hgrows.total hgrows.wakeup
  refine ⟨h.seq_le.trans hgrows.wakeup, ?_, fun hk => ?_, fun hk hc => ?_⟩
  · rw [hchanges, BitVec.ofNat_add, ← BitVec.add_assoc, h.futex, hfutex, ← BitVec.ofNat_add, hfutex']
    congr 1
    omega
  · rcases hsince with hsame | ⟨hlt, -⟩
    · have := h.old (hsame ▸ hk)
      omega
    · omega
  · rcases hsince with hsame | ⟨-, hne⟩
    · obtain ⟨hwakeup, hwoken⟩ := hgrows.eq_of_seqs (by omega) hle
      refine (h.fresh (hsame ▸ hk) (by omega)).imp (fun heq => ?_) hwoken
      rw [heq, hwakeup]
    · exact absurd hk hne

omit [Fintype Tid] in
/-- A broadcast with a waiter to wake. -/
theorem broadcast_inside {c c' : CondSys Tid} {ph : CondPhase} (hi : Inside c c' t .broadcast ph)
    (hgt : c.data.totalSeq > c.data.wakeupSeq) :
    c'.data = c.data.broadcast ∧ ph = .out ∧ ∀ u, c'.since u = c.since u + 1 := by
  have hrun := hi.run
  have hsince := hi.since
  cases hph : c.phase t with
  | waiting w =>
    rw [hph] at hrun
    cases hrun
  | out =>
    rw [hph] at hrun
    simp only [CondSection.run, Option.some.injEq, Prod.mk.injEq] at hrun
    refine ⟨hrun.1.symm, hrun.2.symm, fun u => ?_⟩
    simp [hsince, CondSys.sinceAfter, CondSection.registers, hgt]

/-- The waiters after a section of thread `t`. -/
theorem WakeInv.sleeper_inside (h : WakeInv clock n s) {n' : Nat}
    (h' : CountInv clock n' s'.cond) {x : CondSection} {ph : CondPhase}
    (hn : x.registers → n + 1 < 2 ^ 64) (hi : Inside s.cond s'.cond t x ph)
    (hchanges : s'.changes = s.changesAfter s'.cond.data t (CondFutex.reads ph)) (u : Tid)
    (w : CondWait) (hw : s'.cond.phase u = .waiting w) : SleeperOk s' u w := by
  have hgrows := section_grows h.counts hn hi
  by_cases hu : u = t
  · subst hu
    have hph : ph = .waiting w := by
      rw [← hw, hi.phase, Function.update_self]
    subst hph
    have hzero : s'.changes u = 0 := by
      rw [hchanges]
      simp [CondFutex.changesAfter, CondFutex.reads]
    have hrun := hi.run
    have hsince := hi.since
    generalize hd : s'.cond.data = d' at *
    -- the waiter has just read the futex
    have hread : w.seq.toNat ≤ d'.wakeupSeq.toNat → w.futexVal = d'.futex →
        s'.cond.since u = 0 → (w.seq = d'.wakeupSeq ∨ d'.wokenSeq = d'.wakeupSeq) →
        SleeperOk s' u w := by
      intro hle hf hk hnone
      refine ⟨by rwa [hd], ?_, fun hne => absurd hk hne, fun _ _ => by rwa [hd]⟩
      rw [hzero, hd, ← hf]
      exact BitVec.add_zero _
    cases section_cases hrun with
    | registers hph hr hseq hbc hfutex =>
      refine hread (by rw [hseq]; rfl) hfutex ?_ (.inl hseq)
      rw [hsince, CondSys.sinceAfter, if_pos hr, Function.update_self]
    | @sleeps w₀ w' hph hxw hbc hnot hseq hbc' hfutex =>
      have hok := h.sleeper u w₀ hph
      have hk : s'.cond.since u = 0 := by
        obtain ⟨_, _, _, rfl⟩ := hxw
        rw [hsince]
        simpa [CondSys.sinceAfter, CondSection.registers] using
          (h.counts.waiter u w₀ hph).bcSeq_eq_iff.mp hbc
      refine hread (by rw [hseq]; exact hok.seq_le) hfutex hk ?_
      by_contra hnone
      rw [not_or] at hnone
      exact hnot ⟨fun heq => hnone.1 (hseq.trans heq.symm), hnone.2⟩
  · rw [hi.phase_of_ne hu] at hw
    refine (h.sleeper u w hw).later hgrows h'.counts.woken_le h.counts.counts.futex_eq
      h'.counts.futex_eq ?_ ?_
    · rw [hchanges]
      simp [CondFutex.changesAfter, hu]
    · by_cases hb : x = .broadcast ∧ s.cond.data.totalSeq > s.cond.data.wakeupSeq
      · -- the broadcast has made up for all waiters
        obtain ⟨rfl, hgt⟩ := hb
        have hlt : s.cond.data.wakeupSeq.toNat < s.cond.data.totalSeq.toNat := hgt
        obtain ⟨hd, -, hsince⟩ := broadcast_inside hi hgt
        refine .inr ⟨?_, by rw [hsince u]; exact Nat.succ_ne_zero _⟩
        rw [hd, CondData.broadcast, if_pos hgt]
        simp only [CondFutex.seqs]
        omega
      · exact .inl (hi.since_of_ne hb hu)

/-- The calls a section makes or leads to. -/
theorem afterSection_cases {pc pc' : Tid → FutexPc} {x : CondSection} {d : CondData} {ph : CondPhase}
    {answer : WakeOpAnswer Tid} (hentry : pc t = CondFutex.entry x)
    (hout : x = .signal ∨ x = .broadcast → ph = .out)
    (h : CondFutex.afterSection pc t x d ph answer = some pc') :
    (∃ woken pc₁ p, x = .signal ∧ d.totalSeq > d.wakeupSeq ∧
        CondFutex.wakeOne pc woken = some pc₁ ∧ (p = .wakeMore ∨ p = .out) ∧
        pc' = Function.update pc₁ t p) ∨
      (x = .signal ∧ d.totalSeq > d.wakeupSeq ∧ pc' = Function.update pc t .wakeLocked) ∨
      (x = .broadcast ∧ d.totalSeq > d.wakeupSeq ∧ pc' = Function.update pc t .wakeAll) ∨
      ((x = .signal ∨ x = .broadcast → ¬ d.totalSeq > d.wakeupSeq) ∧
        pc' = Function.update pc t (CondFutex.entering ph)) := by
  cases x with
  | signal =>
    obtain rfl := hout (.inl rfl)
    by_cases hgt : d.totalSeq > d.wakeupSeq
    · simp only [CondFutex.afterSection, CondFutex.marks, hgt, decide_true, if_true] at h
      cases answer with
      | failed => exact .inr (.inl ⟨rfl, hgt, (Option.some.inj h).symm⟩)
      | done woken lockWoken =>
        -- the answer decides whether the signal goes on to wake another thread
        obtain ⟨pc₁, hwake, rfl⟩ := Option.map_eq_some_iff.mp h
        refine .inl ⟨woken, pc₁, _, rfl, hgt, hwake, ?_, rfl⟩
        split
        · exact .inl rfl
        · exact .inr rfl
    · simp only [CondFutex.afterSection, CondFutex.marks, hgt, decide_false, Bool.false_eq_true,
        if_false, Option.some.injEq] at h
      refine .inr (.inr (.inr ⟨fun _ => hgt, ?_⟩))
      have hpc : pc t = .out := hentry
      rw [← h, CondFutex.entering, ← hpc, Function.update_eq_self]
  | broadcast =>
    obtain rfl := hout (.inr rfl)
    by_cases hgt : d.totalSeq > d.wakeupSeq
    · simp only [CondFutex.afterSection, CondFutex.marks, hgt, decide_true, if_true,
        Option.some.injEq] at h
      exact .inr (.inr (.inl ⟨rfl, hgt, h.symm⟩))
    · simp only [CondFutex.afterSection, CondFutex.marks, hgt, decide_false, Bool.false_eq_true,
        if_false, Option.some.injEq] at h
      exact .inr (.inr (.inr ⟨fun _ => hgt, h.symm⟩))
  | wait | timedwait | wake =>
    simp only [CondFutex.afterSection, Option.some.injEq] at h
    exact .inr (.inr (.inr ⟨by simp, h.symm⟩))

omit [Fintype Tid] in
theorem lockFree_update {c : CondSys Tid} {changes : Tid → Nat} {p : FutexPc} (h : s.LockFree)
    (hp : p ≠ .wakeLocked) :
    CondFutex.LockFree { cond := c, futexPc := Function.update s.futexPc t p, changes := changes } := by
  intro u
  show Function.update s.futexPc t p u ≠ .wakeLocked
  by_cases hut : u = t
  · subst hut
    rwa [Function.update_self]
  · rw [Function.update_of_ne hut]
    exact h u

omit [Fintype Tid] in
/-- The other threads stay in their calls. -/
theorem exists_update_kept {pc : Tid → FutexPc} {p q : FutexPc} (ht : pc t ≠ q) :
    (∃ u, pc u = q) → ∃ u, Function.update pc t p u = q := by
  rintro ⟨u, hu⟩
  refine ⟨u, ?_⟩
  rw [Function.update_of_ne, hu]
  rintro rfl
  exact ht hu

omit [Fintype Tid] in
/-- A thread in a call that nobody has entered was there before. -/
theorem of_update_eq {pc : Tid → FutexPc} {p q : FutexPc} (hp : p ≠ q) {u : Tid}
    (hu : Function.update pc t p u = q) : u ≠ t ∧ pc u = q := by
  by_cases hut : u = t
  · subst hut
    exact absurd ((Function.update_self ..).symm.trans hu) hp
  · exact ⟨hut, (Function.update_of_ne hut ..).symm.trans hu⟩

omit [Fintype Tid] in
/-- Thread `t` has moved, and the others are where they were. -/
theorem pcOk_update {pc pc' : Tid → FutexPc} {tx tx' : Tid → Option (CondData × CondPhase)}
    {phase phase' : Tid → CondPhase} {p : FutexPc} (h : ∀ u, PcOk (pc u) (tx u) (phase u))
    (hpc : pc' = Function.update pc t p) (hself : PcOk p (tx' t) (phase' t))
    (hother : ∀ u, u ≠ t → tx' u = tx u ∧ phase' u = phase u) (u : Tid) :
    PcOk (pc' u) (tx' u) (phase' u) := by
  subst hpc
  by_cases hut : u = t
  · subst hut
    rwa [Function.update_self]
  · rw [Function.update_of_ne hut, (hother u hut).1, (hother u hut).2]
    exact h u

/-- So they are when the kernel has woken one of them. -/
theorem pcOk_wakeOne {pc pc' : Tid → FutexPc} {tx : Tid → Option (CondData × CondPhase)}
    {phase : Tid → CondPhase} {woken : Option Tid} (h : ∀ u, PcOk (pc u) (tx u) (phase u))
    (hwake : CondFutex.wakeOne pc woken = some pc') (u : Tid) :
    PcOk (pc' u) (tx u) (phase u) := by
  have hok := h u
  rcases wakeOne_same hwake u with heq | ⟨hb, hr⟩
  · rwa [heq]
  · rw [hb] at hok
    rwa [hr]

theorem pcOk_out {tx : Option (CondData × CondPhase)} {ph : CondPhase} (h : ph = .out) :
    PcOk .out tx ph := by
  subst h
  intro _ w hw
  cases hw

omit [DecidableEq Tid] in
theorem WakeInv.seqLe (h : WakeInv clock n s) : SeqLe s.cond :=
  fun u w hu => (h.sleeper u w hu).seq_le

omit [DecidableEq Tid] in
/-- A thread that is blocked waits. -/
theorem WakeInv.waits_of_blocked (h : WakeInv clock n s) (ht : s.futexPc t = .blocked) :
    Waits (s.cond.phase t) := by
  have hok := h.pc t
  rw [ht] at hok
  obtain ⟨-, w, hph, -⟩ := hok
  rw [hph]
  trivial

/-- A signal, and the call that releases the internal lock. -/
theorem WakeInv.signals (h : WakeInv clock n s) {woken : Option Tid} {pc₁ : Tid → FutexPc}
    {p : FutexPc} (hout : s.futexPc t = .out) (hfree : s.LockFree)
    (hi : Inside s.cond s'.cond t .signal .out) (htx : s'.cond.tx = s.cond.tx)
    (hgt : s.cond.data.totalSeq > s.cond.data.wakeupSeq)
    (hwake : CondFutex.wakeOne s.futexPc woken = some pc₁) (hp : p = .wakeMore ∨ p = .out)
    (hpc' : s'.futexPc = Function.update pc₁ t p) : CallsOk s' := by
  have hkept : (∃ u, s.futexPc u = .wakeAll) → ∃ u, s'.futexPc u = .wakeAll := by
    rintro ⟨u, hu⟩
    rw [hpc']
    have ht : pc₁ t = .out := wakeOne_kept hwake (by simp) hout
    exact exists_update_kept (by simp [ht]) ⟨u, wakeOne_kept hwake (by simp) hu⟩
  -- nobody comes to sleep or to have the internal lock
  have hold : ∀ q, q = .blocked ∨ q = .wakeLocked → ∀ u, s'.futexPc u = q →
      u ≠ t ∧ s.futexPc u = q := by
    intro q hq u hu
    rw [hpc'] at hu
    obtain ⟨hut, hu⟩ := of_update_eq
      (by rcases hp with rfl | rfl <;> rcases hq with rfl | rfl <;> simp) hu
    exact ⟨hut, of_wakeOne hwake (by rcases hq with rfl | rfl <;> simp) hu⟩
  have hblocked := hold .blocked (.inl rfl)
  refine ⟨pcOk_update (pcOk_wakeOne h.pc hwake) hpc' ?_
    fun u hu => ⟨by rw [htx], hi.phase_of_ne hu⟩, fun u hu hk => ?_, fun ⟨u, hu⟩ => ?_, ?_⟩
  · rw [hi.phase, Function.update_self]
    rcases hp with rfl | rfl
    · rfl
    · exact pcOk_out rfl
  · obtain ⟨hut, hb⟩ := hblocked u hu
    rw [hi.since_of_ne (by simp) hut] at hk
    exact hkept (h.broadcast u hb hk)
  · exact absurd (hold .wakeLocked (.inr rfl) u hu).2 (hfree u)
  · by_cases howed : ∃ u, s.futexPc u = .wakeAll
    · exact .inl (hkept howed)
    have hbefore := h.awake.resolve_left howed
    rw [owed_of_lockFree hfree, Nat.add_zero] at hbefore
    refine .inr (Nat.le_trans ?_ (Nat.le_add_right _ _))
    obtain ⟨-, hnone, -⟩ | ⟨v, rfl, hv, rfl⟩ := wakeOne_cases hwake
    · -- nobody is blocked
      exact served_signal_all h.counts h.seqLe hi hgt fun u _ hu =>
        hnone u (hblocked u hu).2
    · have hvt : v ≠ t := by
        rintro rfl
        rw [hout] at hv
        cases hv
      have hk : s.cond.since v = 0 := by
        by_contra hne
        exact howed (h.broadcast v hv hne)
      have hreturned : s'.futexPc v = .returned := by
        rw [hpc', Function.update_of_ne hvt, Function.update_self]
      exact served_signal_one h.counts h.seqLe hi hgt
        (fun u hu hb => hu (hblocked u hb).2) (h.waits_of_blocked hv) hk
        (not_not.mpr hv) (by simp [hreturned]) hbefore

/-- A signal whose call fails: it has counted a wakeup, and has yet to wake a thread. -/
theorem WakeInv.signalFails (h : WakeInv clock n s) (hout : s.futexPc t = .out)
    (hfree : s.LockFree) (hi : Inside s.cond s'.cond t .signal .out) (htx : s'.cond.tx = s.cond.tx)
    (hgt : s.cond.data.totalSeq > s.cond.data.wakeupSeq)
    (hpc' : s'.futexPc = Function.update s.futexPc t .wakeLocked) : CallsOk s' := by
  obtain ⟨hpend, helig⟩ := signal_eligible h.counts h.seqLe hi hgt
  have hself : s'.futexPc t = .wakeLocked := by rw [hpc', Function.update_self]
  have hself' : s'.cond.phase t = .out := by rw [hi.phase, Function.update_self]
  have hkept : (∃ u, s.futexPc u = .wakeAll) → ∃ u, s'.futexPc u = .wakeAll := by
    rw [hpc']
    exact exists_update_kept (by simp [hout])
  refine ⟨pcOk_update h.pc hpc' hself' fun u hu => ⟨by rw [htx], hi.phase_of_ne hu⟩,
    fun u hu hk => ?_, fun _ u hw hk => ?_, ?_⟩
  · rw [hpc'] at hu
    obtain ⟨hut, hu⟩ := of_update_eq (by simp) hu
    rw [hi.since_of_ne (by simp) hut] at hk
    exact hkept (h.broadcast u hu hk)
  · have hut : u ≠ t := by
      rintro rfl
      rw [hself'] at hw
      exact hw
    rw [hi.phase_of_ne hut] at hw
    rw [hi.since_of_ne (by simp) hut] at hk
    exact helig u hw hk
  · refine h.awake.imp hkept fun hle => ?_
    rw [owed_of_lockFree hfree, Nat.add_zero] at hle
    -- the signal itself is what is owed
    have hone : owed s' = 1 := if_pos ⟨t, hself⟩
    rw [hpend, hone]
    refine Nat.succ_le_succ (hle.trans (card_filter_le fun u hu =>
      ⟨helig u hu.1.waits hu.1.1, fun hb => hu.2 ?_⟩))
    rw [hpc'] at hb
    exact (of_update_eq (by simp) hb).2

/-- A broadcast, which has yet to wake everybody. -/
theorem WakeInv.broadcasts (h : WakeInv clock n s) (hfree : s.LockFree)
    (hi : Inside s.cond s'.cond t .broadcast .out) (htx : s'.cond.tx = s.cond.tx)
    (hpc' : s'.futexPc = Function.update s.futexPc t .wakeAll) : CallsOk s' := by
  have howed : s'.futexPc t = .wakeAll := by rw [hpc', Function.update_self]
  refine ⟨pcOk_update h.pc hpc' ?_ fun u hu => ⟨by rw [htx], hi.phase_of_ne hu⟩,
    fun _ _ _ => ⟨t, howed⟩, fun ⟨u, hu⟩ => ?_, .inl ⟨t, howed⟩⟩
  · rw [hi.phase, Function.update_self]
    rfl
  · rw [hpc'] at hu
    exact absurd (of_update_eq (by simp) hu).2 (hfree u)

/-- A section that neither signals nor broadcasts. -/
theorem WakeInv.quiet (h : WakeInv clock n s) {x : CondSection} {ph : CondPhase}
    (hn : x.registers → n + 1 < 2 ^ 64) (hentry : s.futexPc t = CondFutex.entry x)
    (hfree : s.LockFree) (hi : Inside s.cond s'.cond t x ph) (htx : s'.cond.tx = s.cond.tx)
    (hmarks : x = .signal ∨ x = .broadcast → ¬ s.cond.data.totalSeq > s.cond.data.wakeupSeq)
    (hpc' : s'.futexPc = Function.update s.futexPc t (CondFutex.entering ph)) : CallsOk s' := by
  have hkept : (∃ u, s.futexPc u = .wakeAll) → ∃ u, s'.futexPc u = .wakeAll := by
    rw [hpc']
    refine exists_update_kept ?_
    rw [hentry]
    cases x <;> simp [CondFutex.entry]
  obtain ⟨⟨hblocked, hlocked⟩, hok⟩ := entering_ok ph
  refine ⟨pcOk_update h.pc hpc' ?_ fun u hu => ⟨by rw [htx], hi.phase_of_ne hu⟩,
    fun u hu hk => ?_, fun ⟨u, hu⟩ => ?_, h.awake.imp hkept fun hle => ?_⟩
  · rw [htx, hi.free, hi.phase, Function.update_self]
    exact hok
  · rw [hpc'] at hu
    obtain ⟨hut, hu⟩ := of_update_eq hblocked hu
    rw [hi.since_of_ne (fun hb => hmarks (.inr hb.1) hb.2) hut] at hk
    exact hkept (h.broadcast u hu hk)
  · rw [hpc'] at hu
    exact absurd (of_update_eq hlocked hu).2 (hfree u)
  · -- no signal is in the lock, so those awake are as many as are pending
    rw [owed_of_lockFree hfree, Nat.add_zero] at hle
    refine Nat.le_trans ?_ (Nat.le_add_right _ _)
    refine served_section h.counts hn h.seqLe hi (fun hx => hmarks (.inl hx))
      (fun u hu hb => ?_) hle
    rwa [hpc', Function.update_of_ne hu]

/-- A section of thread `t`. -/
theorem WakeInv.inside (h : WakeInv clock n s) {n' : Nat} (h' : CountInv clock n' s'.cond)
    {x : CondSection} {answer : WakeOpAnswer Tid} {ph : CondPhase}
    (hn : x.registers → n + 1 < 2 ^ 64) (hentry : s.futexPc t = CondFutex.entry x)
    (hfree : s.LockFree) (hi : Inside s.cond s'.cond t x ph) (htx : s'.cond.tx = s.cond.tx)
    (hpc : CondFutex.afterSection s.futexPc t x s.cond.data ph answer = some s'.futexPc)
    (hchanges : s'.changes = s.changesAfter s'.cond.data t (CondFutex.reads ph)) :
    WakeInv clock n' s' := by
  have hout : x = .signal ∨ x = .broadcast → ph = .out := fun hx => (waker_out hx hi.run).2
  have hcalls : CallsOk s' := by
    -- a signal that wakes, a signal whose call fails, a broadcast, or none of these
    rcases afterSection_cases hentry hout hpc with ⟨woken, pc₁, p, rfl, hgt, hwake, hp, hpc'⟩ |
      ⟨rfl, hgt, hpc'⟩ | ⟨rfl, hgt, hpc'⟩ | ⟨hmarks, hpc'⟩
    · obtain rfl := hout (.inl rfl)
      exact h.signals hentry hfree hi htx hgt hwake hp hpc'
    · obtain rfl := hout (.inl rfl)
      exact h.signalFails hentry hfree hi htx hgt hpc'
    · obtain rfl := hout (.inr rfl)
      exact h.broadcasts hfree hi htx hpc'
    · exact h.quiet hn hentry hfree hi htx hmarks hpc'
  refine ⟨hcalls, h', h.sleeper_inside h' hn hi hchanges, ?_⟩
  by_cases hx : x = .signal ∧ s.cond.data.totalSeq > s.cond.data.wakeupSeq
  · obtain ⟨rfl, hgt⟩ := hx
    exact served_signal_all h.counts h.seqLe hi hgt fun _ _ => trivial
  · exact served_section h.counts hn h.seqLe hi (fun hs hgt => hx ⟨hs, hgt⟩) (fun _ _ _ => trivial)
      h.eligible

/-- A step outside the internal lock. -/
theorem WakeInv.outside (h : WakeInv clock n s) {p : FutexPc} (hpc : s.futexPc t = .out)
    (ho : Outside s.cond s'.cond)
    (hother : ∀ u, u ≠ t → s'.cond.tx u = s.cond.tx u ∧ s'.cond.phase u = s.cond.phase u)
    (hwait : ∀ u w', s'.cond.phase u = .waiting w' → ∃ w, s.cond.phase u = .waiting w ∧
      w'.seq = w.seq ∧ w'.futexVal = w.futexVal)
    (hpc' : s'.futexPc = Function.update s.futexPc t p) (hp : p ≠ .blocked ∧ p ≠ .wakeLocked)
    (hok : PcOk p (s'.cond.tx t) (s'.cond.phase t)) (hchanges : s'.changes = s.changes) :
    WakeInv clock n s' := by
  have hkept : (∃ u, s.futexPc u = .wakeAll) → ∃ u, s'.futexPc u = .wakeAll := by
    rw [hpc']
    exact exists_update_kept (by simp [hpc])
  have howed : owed s ≤ owed s' := by
    refine owed_le ?_
    rw [hpc']
    exact exists_update_kept (by simp [hpc])
  -- the same waiters are eligible
  have helig : ∀ u, Eligible s.cond u → Eligible s'.cond u := by
    intro u ⟨hk, hb⟩
    refine ⟨by rw [ho.since, hk], ?_⟩
    rw [ho.data]
    rcases ho.phase with hph | ⟨v, w, w', hv, hseq, -, hph⟩
    · rwa [hph]
    · rw [hph]
      by_cases huv : u = v
      · subst huv
        rw [hv] at hb
        rw [Function.update_self]
        exact fun heq => hb (hseq.symm.trans heq)
      · rwa [Function.update_of_ne huv]
  refine ⟨⟨pcOk_update h.pc hpc' hok hother, fun u hu hk => ?_, fun ⟨v, hv⟩ u hw hk => ?_, ?_⟩,
    h.counts.outside ho, fun u w' hw' => ?_, ?_⟩
  · rw [hpc'] at hu
    exact hkept (h.broadcast u (of_update_eq hp.1 hu).2 (by rwa [← ho.since]))
  · rw [hpc'] at hv
    refine helig u (h.locked ⟨v, (of_update_eq hp.2 hv).2⟩ u ?_ (by rwa [← ho.since]))
    cases hph : s'.cond.phase u with
    | out =>
      rw [hph] at hw
      exact hw.elim
    | waiting w' =>
      obtain ⟨w, hph, -⟩ := hwait u w' hph
      rw [hph]
      trivial
  · refine h.awake.imp hkept fun hle => ?_
    rw [ho.data]
    refine hle.trans (Nat.add_le_add (card_filter_le fun u hu =>
      ⟨helig u hu.1, fun hb => hu.2 ?_⟩) howed)
    rw [hpc'] at hb
    exact (of_update_eq hp.1 hb).2
  · obtain ⟨w, hw, hseq, hval⟩ := hwait u w' hw'
    obtain ⟨hle, hfutex, hold, hfresh⟩ := h.sleeper u w hw
    rw [← ho.since, ← hchanges] at hold
    rw [← ho.since, ← hchanges, ← hseq, ← ho.data] at hfresh
    exact ⟨by rw [hseq, ho.data]; exact hle, by rw [hval, hchanges, ho.data]; exact hfutex, hold,
      hfresh⟩
  · rw [ho.data]
    exact h.eligible.trans (card_filter_le fun u hu => ⟨helig u hu.1, trivial⟩)

omit [DecidableEq Tid] [Fintype Tid] in
/-- A waiter sees whether the futex has changed. -/
theorem SleeperOk.futexVal_iff {w : CondWait} (h : SleeperOk s t w) (hfew : s.changes t < 2 ^ 32) :
    s.cond.data.futex = w.futexVal ↔ s.changes t = 0 := by
  have hfutex := h.futex
  constructor
  · intro heq
    rw [heq] at hfutex
    have hzero : BitVec.ofNat 32 (s.changes t) = 0 := by bv_omega
    have hmod : s.changes t % 2 ^ 32 = 0 := by simpa using congrArg BitVec.toNat hzero
    omega
  · intro hzero
    rw [hzero] at hfutex
    rw [← hfutex]
    exact BitVec.add_zero _

/-- The kernel compares the futex. -/
theorem WakeInv.futexWait (h : WakeInv clock n s) (hfew : s.changes t < 2 ^ 32)
    (hpc : s.futexPc t = .futexWait) {w : CondWait} (hph : s.cond.phase t = .waiting w) {p : FutexPc}
    (hp : p = if s.cond.data.futex = w.futexVal then .blocked else .returned) :
    WakeInv clock n { s with futexPc := Function.update s.futexPc t p } := by
  have hok := h.sleeper t w hph
  have hkept : (∃ u, s.futexPc u = .wakeAll) →
      ∃ u, Function.update s.futexPc t p u = .wakeAll := exists_update_kept (by simp [hpc])
  have howed : owed s ≤ owed { s with futexPc := Function.update s.futexPc t p } :=
    owed_le (exists_update_kept (by simp [hpc]))
  -- a waiter that is blocked has seen all there is
  have hseen : p = .blocked → s.changes t = 0 ∧ s.cond.since t = 0 := by
    intro hb
    rw [hp] at hb
    split at hb
    · rename_i heq
      have hzero := (hok.futexVal_iff hfew).mp heq
      refine ⟨hzero, ?_⟩
      by_contra hk
      exact hok.old hk hzero
    · cases hb
  have hlocked : p ≠ .wakeLocked := by
    rw [hp]
    split <;> simp
  refine ⟨⟨pcOk_update h.pc rfl ?_ fun _ _ => ⟨rfl, rfl⟩, fun u hu hk => ?_,
    fun ⟨u, hu⟩ => h.locked ⟨u, (of_update_eq hlocked hu).2⟩, h.awake.imp hkept fun hle => ?_⟩,
    h.counts, fun u w' hw' => ?_, h.eligible⟩
  · have hcall := h.pc t
    rw [hpc] at hcall
    rw [hp]
    split <;> exact hcall
  · have hu : Function.update s.futexPc t p u = .blocked := hu
    by_cases hut : u = t
    · subst hut
      rw [Function.update_self] at hu
      exact absurd (hseen hu).2 hk
    · rw [Function.update_of_ne hut] at hu
      exact hkept (h.broadcast u hu hk)
  · by_cases hb : p = .blocked
    · obtain ⟨hzero, hk⟩ := hseen hb
      rcases hok.fresh hk hzero with hseq | hnone
      · refine hle.trans (Nat.add_le_add (card_filter_le fun u hu => ⟨hu.1, ?_⟩) howed)
        show Function.update s.futexPc t p u ≠ .blocked
        have hut : u ≠ t := by
          rintro rfl
          have hbefore := hu.1.2
          rw [hph] at hbefore
          exact hbefore hseq
        rw [Function.update_of_ne hut]
        exact hu.2
      · show pending s.cond.data ≤ _
        rw [pending, hnone, Nat.sub_self]
        exact Nat.zero_le _
    · exact hle.trans (Nat.add_le_add (card_filter_le fun u hu =>
        ⟨hu.1, fun hblocked => hu.2 (of_update_eq hb hblocked).2⟩) howed)
  · obtain ⟨hle, hfutex, hold, hfresh⟩ := h.sleeper u w' hw'
    exact ⟨hle, hfutex, hold, hfresh⟩

omit [DecidableEq Tid] [Fintype Tid] in
/-- The kernel does not touch what a waiter knows. -/
theorem SleeperOk.calls {w : CondWait} (h : SleeperOk s t w) (pc : Tid → FutexPc) :
    SleeperOk { s with futexPc := pc } t w :=
  ⟨h.seq_le, h.futex, h.old, h.fresh⟩

omit [DecidableEq Tid] in
/-- The kernel wakes a thread. -/
theorem WakeInv.wakes (h : WakeInv clock n s) {pc : Tid → FutexPc}
    (hpc : ∀ u, pc u = s.futexPc u ∨ (s.futexPc u = .blocked ∧ pc u = .returned) ∨
      (s.futexPc u = .wakeMore ∧ pc u = .out)) : WakeInv clock n { s with futexPc := pc } := by
  -- nobody comes to sleep or to have a wakeup left to make, and nobody is relieved of it
  have hold : ∀ u, pc u = .blocked ∨ pc u = .wakeLocked → s.futexPc u = pc u := by
    intro u hu
    rcases hpc u with heq | ⟨-, hr⟩ | ⟨-, hr⟩
    · exact heq.symm
    · simp [hr] at hu
    · simp [hr] at hu
  have hkept : ∀ u, s.futexPc u = .wakeAll ∨ s.futexPc u = .wakeLocked → pc u = s.futexPc u := by
    intro u hu
    rcases hpc u with heq | ⟨hb, -⟩ | ⟨hb, -⟩
    · exact heq
    · simp [hb] at hu
    · simp [hb] at hu
  have hall : (∃ u, s.futexPc u = .wakeAll) → ∃ u, pc u = .wakeAll :=
    fun ⟨u, hu⟩ => ⟨u, (hkept u (.inl hu)).trans hu⟩
  have howed : owed s ≤ owed { s with futexPc := pc } :=
    owed_le fun ⟨u, hu⟩ => ⟨u, (hkept u (.inr hu)).trans hu⟩
  refine ⟨⟨fun u => ?_, fun u hu hk => ?_, fun ⟨u, hu⟩ => ?_, h.awake.imp hall fun hle => ?_⟩,
    h.counts, fun u w hw => (h.sleeper u w hw).calls pc, h.eligible⟩
  · show PcOk (pc u) (s.cond.tx u) (s.cond.phase u)
    have hok := h.pc u
    rcases hpc u with heq | ⟨hb, hr⟩ | ⟨hm, hout⟩
    · rwa [heq]
    · rw [hb] at hok
      rwa [hr]
    · rw [hm] at hok
      rw [hout]
      exact pcOk_out hok
  · exact hall (h.broadcast u ((hold u (.inl hu)).trans hu) hk)
  · exact h.locked ⟨u, (hold u (.inr hu)).trans hu⟩
  · refine hle.trans (Nat.add_le_add (card_filter_le fun u hu => ⟨hu.1, fun hb => hu.2 ?_⟩) howed)
    exact (hold u (.inl hb)).trans hb

/-- The signal that has the internal lock wakes a thread, and releases the lock. -/
theorem WakeInv.wakesLocked (h : WakeInv clock n s) (hpc : s.futexPc t = .wakeLocked)
    {woken : Option Tid} {pc : Tid → FutexPc} (hwake : CondFutex.wakeOne s.futexPc woken = some pc) :
    WakeInv clock n { s with futexPc := Function.update pc t .out } := by
  have hout : s.cond.phase t = .out := by
    have hok := h.pc t
    rwa [hpc] at hok
  have hblocked : ∀ u, Function.update pc t .out u = .blocked → s.futexPc u = .blocked :=
    fun u hu => of_wakeOne hwake (by simp) (of_update_eq (by simp) hu).2
  have hkept : (∃ u, s.futexPc u = .wakeAll) → ∃ u, Function.update pc t .out u = .wakeAll := by
    rintro ⟨u, hu⟩
    have ht : pc t = .wakeLocked := wakeOne_kept hwake (by simp) hpc
    exact exists_update_kept (by simp [ht]) ⟨u, wakeOne_kept hwake (by simp) hu⟩
  refine ⟨⟨pcOk_update (pcOk_wakeOne h.pc hwake) rfl (pcOk_out hout) fun _ _ => ⟨rfl, rfl⟩,
    fun u hu hk => hkept (h.broadcast u (hblocked u hu) hk), fun _ => h.locked ⟨t, hpc⟩, ?_⟩,
    h.counts, fun u w hw => (h.sleeper u w hw).calls _, h.eligible⟩
  · by_cases hall : ∃ u, s.futexPc u = .wakeAll
    · exact .inl (hkept hall)
    refine .inr (Nat.le_trans ?_ (Nat.le_add_right _ _))
    obtain ⟨-, hnone, -⟩ | ⟨v, -, hv, rfl⟩ := wakeOne_cases hwake
    · -- nobody is blocked
      exact h.eligible.trans (card_filter_le fun u hu => ⟨hu.1, fun hb => hnone u (hblocked u hb)⟩)
    · -- the thread that is woken is one more
      have hvt : v ≠ t := by
        rintro rfl
        rw [hpc] at hv
        cases hv
      have hk : s.cond.since v = 0 := by
        by_contra hne
        exact hall (h.broadcast v hv hne)
      have helig := h.locked ⟨t, hpc⟩ v (h.waits_of_blocked hv) hk
      have hone : owed s = 1 := if_pos ⟨t, hpc⟩
      -- what the signal owed is paid by the thread it wakes
      have hle := h.awake.resolve_left hall
      rw [hone] at hle
      refine hle.trans (card_filter_lt (fun u hu => ⟨hu.1, fun hb => hu.2 (hblocked u hb)⟩)
        (fun hc => hc.2 hv) ⟨helig, ?_⟩)
      show Function.update (Function.update s.futexPc v .returned) t .out v ≠ .blocked
      rw [Function.update_of_ne hvt, Function.update_self]
      simp

/-- A broadcast wakes everybody. -/
theorem WakeInv.wakesAll (h : WakeInv clock n s) (hpc : s.futexPc t = .wakeAll) :
    WakeInv clock n
      { s with futexPc := Function.update (CondFutex.wakeEverybody s.futexPc) t .out } := by
  have hout : s.cond.phase t = .out := by
    have hok := h.pc t
    rwa [hpc] at hok
  have hnone : ∀ u, Function.update (CondFutex.wakeEverybody s.futexPc) t .out u ≠ .blocked := by
    intro u hu
    have hu : CondFutex.wakeEverybody s.futexPc u = .blocked := (of_update_eq (by simp) hu).2
    unfold CondFutex.wakeEverybody at hu
    split at hu
    · cases hu
    · contradiction
  have hwoken : ∀ u, PcOk (CondFutex.wakeEverybody s.futexPc u) (s.cond.tx u) (s.cond.phase u) := by
    intro u
    have hok := h.pc u
    unfold CondFutex.wakeEverybody
    split
    · rename_i hb
      rwa [hb] at hok
    · exact hok
  refine ⟨⟨pcOk_update hwoken rfl (pcOk_out hout) fun _ _ => ⟨rfl, rfl⟩,
    fun u hu => absurd hu (hnone u), fun ⟨u, hu⟩ => h.locked ⟨u, ?_⟩,
    .inr (Nat.le_trans ?_ (Nat.le_add_right _ _))⟩, h.counts,
    fun u w hw => (h.sleeper u w hw).calls _, h.eligible⟩
  · have hu : CondFutex.wakeEverybody s.futexPc u = .wakeLocked := (of_update_eq (by simp) hu).2
    unfold CondFutex.wakeEverybody at hu
    split at hu
    · cases hu
    · exact hu
  · exact h.eligible.trans (card_filter_le fun u hu => ⟨hu.1, hnone u⟩)

/-! ## Runs -/

/-- Fewer than 2^32 broadcasts during one wait, and fewer than 2^32 changes of the futex between
    the read of it and the sleep. -/
def FewChanges (s : CondFutex Tid) : CondFutexAct Tid → Prop
  | .call t x _ => FewBroadcasts s.cond (.call t x)
  | .futexWait t => s.changes t < 2 ^ 32
  | .sleep _ | .enterHtm _ | .lockHtm _ | .abort _ | .futexReturn _ | .futexWake _ _ => True

instance (s : CondFutex Tid) : DecidablePred (FewChanges s)
  | .call t x _ => inferInstanceAs (Decidable (FewBroadcasts s.cond (.call t x)))
  | .futexWait t => inferInstanceAs (Decidable (s.changes t < 2 ^ 32))
  | .sleep _ | .enterHtm _ | .lockHtm _ | .abort _ | .futexReturn _ | .futexWake _ _ =>
    inferInstanceAs (Decidable True)

theorem WakeInv.step (h : WakeInv clock n s) (hs : s.step cfg a = some s') (hfew : FewChanges s a)
    (hn : n + (CondFutex.registered s a).length < 2 ^ 64) :
    WakeInv clock (n + (CondFutex.registered s a).length) s' := by
  cases FutexStep.of_step hs with
  | @inside t x answer ph hentry hfree hi htx hpc hchanges =>
    have hlen : (CondFutex.registered s (.call t x answer)).length =
        if x.registers then 1 else 0 := by
      cases hx : x.registers <;> simp [CondFutex.registered, CondSys.registered, hi.free, hx]
    rw [hlen] at hn ⊢
    have hbound : x.registers → n + 1 < 2 ^ 64 := by
      intro hx
      rwa [if_pos hx] at hn
    refine h.inside (h.counts.runs hi.run rfl hi.phase hi.since (fun hb hgt => ?_) hbound) hbound
      hentry hfree hi htx hpc hchanges
    exact hfew t (by rw [hb]) hi.free hgt
  | outside hreg hpc ho hother hwait hpc' hp hok hchanges =>
    rw [hreg]
    exact h.outside hpc ho hother hwait hpc' hp hok hchanges
  | futexWait hpc hph hp hs' =>
    subst hs'
    exact h.futexWait hfew hpc hph hp
  | wakes hreg hs' hpc =>
    subst hs'
    rw [hreg]
    exact h.wakes hpc
  | wakesLocked hpc hwake hs' =>
    subst hs'
    exact h.wakesLocked hpc hwake
  | wakesAll hpc hs' =>
    subst hs'
    exact h.wakesAll hpc

theorem WakeInv.init {mutex : Addr} (hi : (condFutex Tid cfg clock mutex).init s) :
    WakeInv clock 0 s := by
  obtain ⟨hcond, hpc, hchanges⟩ := hi
  have hout : ∀ t, s.cond.phase t = .out ∧ s.cond.tx t = none := by
    intro t
    rw [show s.cond = _ from hcond]
    exact ⟨rfl, rfl⟩
  have hzero : pending s.cond.data = 0 := by
    rw [show s.cond = _ from hcond]
    rfl
  refine ⟨⟨fun t => ?_, fun t ht => ?_, fun ⟨u, hu⟩ => ?_, .inr ?_⟩, CountInv.init hcond,
    fun t w hw => ?_, ?_⟩
  · rw [hpc t, (hout t).1]
    intro _ w hw
    cases hw
  · rw [hpc t] at ht
    cases ht
  · rw [hpc u] at hu
    cases hu
  · rw [hzero]
    exact Nat.zero_le _
  · rw [(hout t).1] at hw
    cases hw
  · rw [hzero]
    exact Nat.zero_le _

/-- After a run in which `total_seq` has not wrapped. -/
theorem WakeInv.of_run {mutex : Addr} {tr : List (CondFutex Tid × CondFutexAct Tid)}
    (h : (condFutex Tid cfg clock mutex).Run FewChanges tr s)
    (hn : (System.events CondFutex.registered tr).length < 2 ^ 64) :
    WakeInv clock (System.events CondFutex.registered tr).length s := by
  induction h with
  | init hi => exact WakeInv.init hi
  | step _ hc hs ih =>
    rw [System.events_append, System.events_singleton, List.length_append] at hn ⊢
    exact (ih (Nat.lt_of_le_of_lt (Nat.le_add_right _ _) hn)).step hs hc hn

/-! ## The waiters that are awake may leave -/

/-- The thread that acts. -/
def CondFutexAct.tid : CondFutexAct Tid → Tid
  | .call t _ _ | .sleep t | .enterHtm t | .lockHtm t | .abort t | .futexWait t | .futexReturn t
  | .futexWake t _ => t

/-- The waiter may leave: there was a broadcast, or it may take a signal. -/
def MayLeave (d : CondData) (w : CondWait) : Prop := w.bcSeq ≠ d.broadcastSeq ∨ TurnCome d w

/-- Thread `t` can leave by at most `k` steps of its own. The abort of its transaction may be one
    of them. -/
def CanLeave (cfg : TxConfig) (s : CondFutex Tid) (t : Tid) (k : Nat) : Prop :=
  ∃ as : List (CondFutexAct Tid), as.length ≤ k ∧ (∀ a ∈ as, CondFutexAct.tid a = t) ∧
    ∃ s', (condFutex Tid cfg false 0).exec s as = some s' ∧ s'.cond.phase t = .out

theorem CanLeave.cons {k : Nat} (hs : s.step cfg a = some s') (h : CanLeave cfg s' t k)
    (ha : CondFutexAct.tid a = t) : CanLeave cfg s t (k + 1) := by
  obtain ⟨as, hlen, has, s'', hexec, hout⟩ := h
  refine ⟨a :: as, ?_, ?_, s'', ?_, hout⟩
  · rw [List.length_cons]
    omega
  · rw [List.forall_mem_cons]
    exact ⟨ha, has⟩
  · show (s.step cfg a).bind _ = _
    rw [hs]
    exact hexec

/-- The sleep is over. -/
theorem canLeave_of_returned {w : CondWait} (hpc : s.futexPc t = .returned) (hfree : s.LockFree)
    (htx : s.cond.tx t = none) (hph : s.cond.phase t = .waiting w) (hasleep : w.asleep = true)
    (hmay : MayLeave s.cond.data w) : CanLeave cfg s t 1 := by
  -- the section, and where it ends
  have hrun : ∃ d, CondSection.run s.cond.data (s.cond.phase t) (.wake 0 0 0) = some (d, .out) := by
    rw [hph]
    simp only [CondSection.run, hasleep, if_true, CondSection.wakeUp]
    by_cases hbc : w.bcSeq ≠ s.cond.data.broadcastSeq
    · rw [if_pos hbc]
      exact ⟨_, rfl⟩
    · have hturn : s.cond.data.wakeupSeq ≠ w.seq ∧ s.cond.data.wokenSeq ≠ s.cond.data.wakeupSeq :=
        hmay.resolve_left hbc
      rw [if_neg hbc, if_pos hturn]
      exact ⟨_, rfl⟩
  obtain ⟨d, hrun⟩ := hrun
  let c : CondSys Tid := { s.cond with
    data := d, phase := Function.update s.cond.phase t .out
    since := s.cond.sinceAfter t (.wake 0 0 0) }
  have hcond : s.cond.step cfg (.call t (.wake 0 0 0)) = some c := by
    simp only [CondSys.step, htx, hrun, Option.map_some, c]
  have hs : s.step cfg (.call t (.wake 0 0 0) .failed) =
      some ⟨c, Function.update s.futexPc t .out, s.changesAfter d t false⟩ := by
    simp only [CondFutex.step, CondFutex.entry, hpc, hfree, and_self, if_true, hcond,
      Option.bind_some, htx,
      Option.isSome_none, Bool.false_eq_true, if_false, CondFutex.afterSection, c,
      Function.update_self, CondFutex.entering, CondFutex.reads, Option.map_some]
  refine CanLeave.cons (k := 0) hs ⟨[], Nat.le_refl 0, by simp, _, rfl, ?_⟩ rfl
  exact Function.update_self ..

/-- About to sleep, but the futex has changed. -/
theorem canLeave_of_futexWait {w : CondWait} (hpc : s.futexPc t = .futexWait)
    (htx : s.cond.tx t = none) (hph : s.cond.phase t = .waiting w) (hasleep : w.asleep = true)
    (hfutex : s.cond.data.futex ≠ w.futexVal) (hfree : s.LockFree)
    (hmay : MayLeave s.cond.data w) : CanLeave cfg s t 2 := by
  have hfree' : CondFutex.LockFree { s with futexPc := Function.update s.futexPc t .returned } :=
    lockFree_update hfree (by simp)
  have hs : s.step cfg (.futexWait t) =
      some { s with futexPc := Function.update s.futexPc t .returned } := by
    simp [CondFutex.step, hpc, hph, hfutex]
  exact CanLeave.cons hs (canLeave_of_returned (Function.update_self ..) hfree' htx hph hasleep hmay)
    rfl

/-- Not asleep yet, in a transaction perhaps. -/
theorem canLeave_of_out {w : CondWait} (hpc : s.futexPc t = .out) (hph : s.cond.phase t = .waiting w)
    (hasleep : s.cond.tx t = none → w.asleep = false)
    (hfutex : s.cond.data.futex ≠ w.futexVal) (hfree : s.LockFree)
    (hmay : MayLeave s.cond.data w) : CanLeave cfg s t 3 := by
  -- however it goes to sleep
  have hsleeps : ∀ (w' : CondWait) (c : CondSys Tid) (b : CondSysAct Tid) (a : CondFutexAct Tid),
      s.step cfg a = s.outside cfg t b → CondFutexAct.tid a = t → s.cond.step cfg b = some c →
      c.tx t = none → c.phase t = .waiting w' → w'.asleep = true → c.data = s.cond.data →
      w'.futexVal = w.futexVal → MayLeave s.cond.data w' → CanLeave cfg s t 3 := by
    intro w' c b a ha htid hb htx hph' hasleep' hd hval hmay'
    have hs : s.step cfg a = some { s with
        cond := c, futexPc := Function.update s.futexPc t .futexWait } := by
      rw [ha, CondFutex.outside, if_pos hpc, hb]
      simp [htx, hph', CondFutex.entering, hasleep']
    refine CanLeave.cons hs
      (canLeave_of_futexWait (Function.update_self ..) htx hph' hasleep' ?_ ?_ ?_) htid
    · show c.data.futex ≠ _
      rwa [hd, hval]
    · exact lockFree_update hfree (by simp)
    · show MayLeave c.data w'
      rwa [hd]
  cases htx : s.cond.tx t with
  | some v =>
    have hcond : s.cond.step cfg (.abort t) = some { s.cond with
        tx := Function.update s.cond.tx t none
        phase := Function.update s.cond.phase t
          (.waiting { w with tries := w.tries + 1, asleep := true }) } := by
      simp only [CondSys.step, htx, hph, CondSys.beginFailed]
    exact hsleeps { w with tries := w.tries + 1, asleep := true } _ (.abort t) (.abort t) rfl rfl
      hcond (Function.update_self ..) (Function.update_self ..) rfl rfl rfl hmay
  | none =>
    by_cases hat : CondSys.attempts cfg w = true
    · have hcond : s.cond.step cfg (.abort t) = some { s.cond with
          phase := Function.update s.cond.phase t
            (.waiting { w with tries := w.tries + 1, asleep := true }) } := by
        simp only [CondSys.step, htx, hph, hat, if_true, CondSys.beginFailed]
      exact hsleeps { w with tries := w.tries + 1, asleep := true } _ (.abort t) (.abort t) rfl rfl
        hcond htx (Function.update_self ..) rfl rfl rfl hmay
    · have hcond : s.cond.step cfg (.sleep t) = some { s.cond with
          phase := Function.update s.cond.phase t (.waiting { w with asleep := true }) } := by
        simp [CondSys.step, htx, hph, hat, hasleep htx]
      exact hsleeps { w with asleep := true } _ (.sleep t) (.sleep t) rfl rfl hcond htx
        (Function.update_self ..) rfl rfl rfl hmay

/-- A waiter that is awake and may leave can do so, unless another thread is faster. -/
theorem WakeInv.canLeave (h : WakeInv clock n s) {w : CondWait} (hph : s.cond.phase t = .waiting w)
    (hawake : s.futexPc t ≠ .blocked) (hfew : s.changes t < 2 ^ 32) (hfree : s.LockFree)
    (hmay : MayLeave s.cond.data w) : CanLeave cfg s t 3 := by
  have hok := h.sleeper t w hph
  have hpc := h.pc t
  -- the futex has changed since the waiter has read it, so it does not sleep on it
  have hfutex : s.cond.data.futex ≠ w.futexVal := by
    intro heq
    have hzero := (hok.futexVal_iff hfew).mp heq
    by_cases hk : s.cond.since t = 0
    · -- nothing has changed, so there is nothing to leave for
      rcases hmay with hbc | hturn
      · exact hbc ((h.counts.waiter t w hph).bcSeq_eq_iff.mpr hk)
      · exact (hok.fresh hk hzero).elim (fun hseq => hturn.1 hseq.symm) hturn.2
    · exact hok.old hk hzero
  -- how many steps there are left depends on the call the waiter is in
  have hmono : ∀ k, k ≤ 3 → CanLeave cfg s t k → CanLeave cfg s t 3 := by
    rintro k hk ⟨as, hlen, hrest⟩
    exact ⟨as, hlen.trans hk, hrest⟩
  cases hp : s.futexPc t with
  | out =>
    rw [hp] at hpc
    exact canLeave_of_out hp hph (fun htx => hpc htx w hph) hfutex hfree hmay
  | futexWait =>
    rw [hp] at hpc
    obtain ⟨htx, w', hph', hasleep⟩ := hpc
    rw [hph] at hph'
    cases hph'
    exact hmono 2 (by decide) (canLeave_of_futexWait hp htx hph hasleep hfutex hfree hmay)
  | returned =>
    rw [hp] at hpc
    obtain ⟨htx, w', hph', hasleep⟩ := hpc
    rw [hph] at hph'
    cases hph'
    exact hmono 1 (by decide) (canLeave_of_returned hp hfree htx hph hasleep hmay)
  | blocked => exact absurd hp hawake
  | wakeMore | wakeLocked | wakeAll =>
    rw [hp] at hpc
    rw [show s.cond.phase t = .out from hpc] at hph
    cases hph

/-! ## No wakeup is lost -/

/-- No wakeup is lost in the state `s`. -/
structure NoneLost (cfg : TxConfig) (s : CondFutex Tid) : Prop where
  /-- For every signal that is not taken a waiter is awake that may take one, unless a broadcast
      has yet to wake everybody, or a signal that has the internal lock a thread. -/
  signals : (∀ t, s.futexPc t ≠ .wakeAll) → s.LockFree →
    pending s.cond.data ≤ served s.cond fun t => s.futexPc t ≠ .blocked
  /-- Nobody that a broadcast was for sleeps on after it. -/
  broadcasts : (∀ t, s.futexPc t ≠ .wakeAll) → ∀ t, s.futexPc t = .blocked → s.cond.since t = 0
  /-- The wakeups that are still to be made wait for nobody. -/
  wakes : ∀ t, s.futexPc t = .wakeAll ∨ s.futexPc t = .wakeMore ∨ s.futexPc t = .wakeLocked →
    ∃ woken s', s.step cfg (.futexWake t woken) = some s' ∧ s'.futexPc t = .out
  /-- Who is awake and may leave can do so, when nobody has the internal lock. -/
  leaves : ∀ t w, s.cond.phase t = .waiting w → s.futexPc t ≠ .blocked → s.changes t < 2 ^ 32 →
    s.LockFree → MayLeave s.cond.data w → CanLeave cfg s t 3

/-- The kernel wakes a thread if one is blocked. -/
theorem exists_wakeOne (pc : Tid → FutexPc) : ∃ woken pc', CondFutex.wakeOne pc woken = some pc' := by
  by_cases h : ∃ u, pc u = .blocked
  · obtain ⟨u, hu⟩ := h
    exact ⟨some u, _, if_pos hu⟩
  · exact ⟨none, pc, if_neg h⟩

/-- A wakeup that is still to be made can be made. -/
theorem futexWake_goesOn
    (ht : s.futexPc t = .wakeAll ∨ s.futexPc t = .wakeMore ∨ s.futexPc t = .wakeLocked) :
    ∃ woken s', s.step cfg (.futexWake t woken) = some s' ∧ s'.futexPc t = .out := by
  rcases ht with hpc | hpc | hpc
  · refine ⟨none, { s with
      futexPc := Function.update (CondFutex.wakeEverybody s.futexPc) t .out }, ?_,
      Function.update_self ..⟩
    simp only [CondFutex.step, hpc]
  all_goals
    obtain ⟨woken, pc, hwake⟩ := exists_wakeOne s.futexPc
    refine ⟨woken, { s with futexPc := Function.update pc t .out }, ?_, Function.update_self ..⟩
    simp only [CondFutex.step, hpc, hwake, Option.map_some]

/-- In every state of every run no wakeup is lost, as long as the counters do not wrap. -/
theorem cond_no_lost_wakeup (cfg : TxConfig) (clock : Bool) (mutex : Addr)
    {tr : List (CondFutex Tid × CondFutexAct Tid)}
    (h : (condFutex Tid cfg clock mutex).Run FewChanges tr s)
    (hn : (System.events CondFutex.registered tr).length < 2 ^ 64) : NoneLost cfg s := by
  have hinv := WakeInv.of_run h hn
  refine ⟨fun hnone hfree => ?_, fun hnone t ht => ?_, fun t ht => futexWake_goesOn ht,
    fun t w hph hawake hfew hfree hmay => hinv.canLeave hph hawake hfew hfree hmay⟩
  · have hle := hinv.awake.resolve_left fun ⟨u, hu⟩ => hnone u hu
    rwa [owed_of_lockFree hfree, Nat.add_zero] at hle
  · by_contra hk
    obtain ⟨u, hu⟩ := hinv.broadcast t ht hk
    exact hnone u hu

end System

/-- Threads 0 and 1 are asleep, thread 2 broadcasts, thread 3 begins to wait and sleeps. The call
    of a signal fails, and it wakes thread 0, which the broadcast was for; then the broadcast
    wakes the others. -/
theorem cond_no_lost_wakeup_stolen : ∃ tr s,
    (condFutex (Fin 5) { fuel := 0 } false 0).Run FewChanges tr s ∧ pending s.cond.data = 1 ∧
      s.futexPc 3 = .returned ∧ NoneLost { fuel := 0 } s := by
  let s₀ : CondFutex (Fin 5) :=
    ⟨⟨{}, fun _ => .out, fun _ => none, fun _ => 0⟩, fun _ => .out, fun _ => 0⟩
  let as : List (CondFutexAct (Fin 5)) :=
    [.call 0 (.wait 8 0) .failed, .abort 0, .futexWait 0, .call 1 (.wait 8 0) .failed, .abort 1,
      .futexWait 1, .call 2 .broadcast .failed, .call 3 (.wait 8 0) .failed, .abort 3,
      .futexWait 3, .call 4 .signal .failed, .futexWake 4 (some 0), .futexWake 2 none]
  have hs : ((condFutex (Fin 5) { fuel := 0 } false 0).exec s₀ as).map
      (fun s => (pending s.cond.data, s.futexPc 3)) = some (1, .returned) := by decide
  obtain ⟨s, hexec, hs⟩ := Option.map_eq_some_iff.mp hs
  have hinit : (condFutex (Fin 5) { fuel := 0 } false 0).init s₀ := ⟨rfl, fun _ => rfl, fun _ => rfl⟩
  have hrun := ((System.Run.init hinit).exec hexec).of_forall_mem (C := FewChanges) (by decide)
  rw [Prod.mk.injEq] at hs
  exact ⟨_, s, hrun, hs.1, hs.2, cond_no_lost_wakeup _ false 0 hrun (by decide)⟩

end TxLock.Spec
