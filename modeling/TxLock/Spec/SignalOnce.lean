import Mathlib
import TxLock.Native.Futex

/-!
# One call of `__pthread_cond_signal`

A signal that finds a waiter to wake asks the kernel to wake it and to release the
internal lock in one system call. The call answers with the number of threads woken, and
the code takes every answer but 0 for a failure: then it wakes another thread and releases
the lock again. The kernel releases the lock by storing 0, which also clears the count of
the threads that wait for it.

## Key results

- `signal_once`: exactly when a signal releases the lock once and wakes one thread at most
- `signal_twice`: a signal that finds two sleepers
-/

namespace TxLock.Spec

open Native Prog

/-- A call of `__pthread_cond_signal` that returns 0. -/
structure SignalRun (cond : Addr) (steps : List CondStep) : Prop where
  returns : (pthreadCondSignal cond).Returns (steps.map fun st => (st.op, st.answer)) 0
  answered : ∀ st ∈ steps, st.Answered

/-- The operation releases the internal lock. -/
def CondStep.releases (st : CondStep) : Bool :=
  match st.op with
  | .lllUnlock _ => true
  | .futexWakeUnlock _ => st.answer ≠ -1
  | _ => false

/-- How many sleepers of the futex the operation wakes. -/
def CondStep.wakes (st : CondStep) : Nat := st.before.asleep - st.after.asleep

/-- What is asked of a signal. -/
structure SignalOnce (steps : List CondStep) : Prop where
  /-- The lock is released once. -/
  released : steps.countP CondStep.releases = 1
  /-- No unlock comes after a release. -/
  unlocked : ∀ pre st post cond, steps = pre ++ st :: post → st.op = .lllUnlock cond →
    pre.countP CondStep.releases = 0
  /-- One thread is woken at most. -/
  woken : (steps.map CondStep.wakes).sum ≤ 1
  /-- The count of the threads that wait for the lock is kept. -/
  counted : ∀ st ∈ steps, lockWaiters st.after.lock = lockWaiters st.before.lock

/-- The system call fails, or it finds nobody asleep on the futex and no thread recorded as
    waiting for the lock. -/
def WakesNobody (cond : Addr) (steps : List CondStep) : Prop :=
  ∀ st ∈ steps, st.op = .futexWakeUnlock cond →
    st.answer = -1 ∨ (st.before.asleep = 0 ∧ lockWaiters st.before.lock = 0)

/-! ## The operations -/

section

variable {cond : Addr} {st : CondStep} {steps : List CondStep}

/-- An operation that neither releases nor wakes, and leaves the lock word alone. -/
structure Quiet (cond : Addr) (st : CondStep) : Prop where
  releases : CondStep.releases st = false
  wakes : CondStep.wakes st = 0
  counted : lockWaiters st.after.lock = lockWaiters st.before.lock
  notUnlock : ∀ c, st.op ≠ .lllUnlock c
  notWake : ∀ c, st.op ≠ .futexWakeUnlock c

/-- When there is one release, no unlock comes after it. -/
theorem unlocked_of_released (h : steps.countP CondStep.releases = 1) {pre post : List CondStep}
    (hsteps : steps = pre ++ st :: post) (hop : st.op = .lllUnlock cond) :
    pre.countP CondStep.releases = 0 := by
  have hrel : CondStep.releases st = true := by simp only [CondStep.releases, hop]
  rw [hsteps, List.countP_append, List.countP_cons_of_pos hrel] at h
  omega

theorem quiet_of_op (h : st.Answered) (hop : st.op = .lllLock cond ∨ st.op = .load cond .totalSeq ∨
    st.op = .load cond .wakeupSeq ∨ st.op = .add cond .wakeupSeq 1 ∨ st.op = .add cond .futex 1) :
    Quiet cond st := by
  rcases hop with hop | hop | hop | hop | hop <;> simp only [CondStep.Answered, hop] at h <;>
    exact ⟨by simp [CondStep.releases, hop], by simp [CondStep.wakes, h], by simp [h], by simp [hop],
      by simp [hop]⟩

theorem lllUnlock_step (h : st.Answered) (hop : st.op = .lllUnlock cond) :
    CondStep.wakes st = 0 ∧ lockWaiters st.after.lock = lockWaiters st.before.lock := by
  simp only [CondStep.Answered, hop] at h
  have hne : st.before.lock ≠ st.before.lock + 0x80000000 := by
    intro he
    bv_omega
  simp only [CondStep.wakes, h, CondWorld.genericMutexUnlock, syncBoolCas, if_neg hne]
  split <;> simp

theorem futexWake_step (h : st.Answered) (hop : st.op = .futexWake cond .futex 1) :
    CondStep.releases st = false ∧ CondStep.wakes st ≤ 1 ∧
      lockWaiters st.after.lock = lockWaiters st.before.lock := by
  simp only [CondStep.Answered, hop] at h
  refine ⟨by simp [CondStep.releases, hop], ?_, by simp [h, CondWorld.futexWake]⟩
  simp only [CondStep.wakes, h, CondWorld.futexWake]
  omega

/-- The end of a signal. -/
inductive SignalTail (cond : Addr) : List CondStep → Prop where
  | unlock {u : CondStep} (hu : u.op = .lllUnlock cond) : SignalTail cond [u]
  | woken {f : CondStep} (hf : f.op = .futexWakeUnlock cond) (hans : f.answer = 0) :
    SignalTail cond [f]
  | again {f g u : CondStep} (hf : f.op = .futexWakeUnlock cond) (hans : f.answer ≠ 0)
      (hg : g.op = .futexWake cond .futex 1) (hu : u.op = .lllUnlock cond) :
    SignalTail cond [f, g, u]

theorem signal_ops (h : SignalRun cond steps) :
    ∃ pre post, steps = pre ++ post ∧ (∀ st ∈ pre, Quiet cond st) ∧ SignalTail cond post := by
  have hret := h.returns
  have hans := h.answered
  simp only [pthreadCondSignal, gt_iff_lt, pure_eq, bind_eq, emit_bind, perform_bind, returns_op,
    List.map_eq_cons_iff, Prod.mk.injEq, returns_ite, returns_ret, and_true, exists_eq_right,
    ↓existsAndEq, true_and, List.map_eq_nil_iff, exists_eq_right_right] at hret
  obtain ⟨a, b, c, rest, ⟨rfl, ha⟩, ⟨hb, hc⟩, hret⟩ := hret
  simp only [List.forall_mem_cons] at hans
  have hqa := quiet_of_op hans.1 (.inl ha)
  have hqb := quiet_of_op hans.2.1 (.inr (.inl hb))
  have hqc := quiet_of_op hans.2.2.1 (.inr (.inr (.inl hc)))
  split at hret
  · -- there are waiters to be woken
    obtain ⟨d, e, f, rest', ⟨rfl, hd, he, hf⟩, hret⟩ := hret
    simp only [List.forall_mem_cons] at hans
    have hqd := quiet_of_op hans.2.2.2.1 (.inr (.inr (.inr (.inl hd))))
    have hqe := quiet_of_op hans.2.2.2.2.1 (.inr (.inr (.inr (.inr he))))
    have hpre : ∀ st ∈ [a, b, c, d, e], Quiet cond st := by
      simp only [List.forall_mem_cons]
      exact ⟨hqa, hqb, hqc, hqd, hqe, by simp⟩
    split at hret
    · rename_i hzero
      subst hret
      exact ⟨[a, b, c, d, e], [f], rfl, hpre, .woken hf hzero⟩
    · rename_i hne
      obtain ⟨g, u, rfl, hg, hu⟩ := hret
      exact ⟨[a, b, c, d, e], [f, g, u], rfl, hpre, .again hf hne hg hu⟩
  · obtain ⟨u, rfl, hu⟩ := hret
    refine ⟨[a, b, c], [u], rfl, ?_, .unlock hu⟩
    simp only [List.forall_mem_cons]
    exact ⟨hqa, hqb, hqc, by simp⟩

/-- A quiet beginning does not matter. -/
theorem signalOnce_append {pre post : List CondStep} (hpre : ∀ st ∈ pre, Quiet cond st) :
    SignalOnce (pre ++ post) ↔ SignalOnce post := by
  induction pre with
  | nil => rfl
  | cons st pre ih =>
    rw [List.forall_mem_cons] at hpre
    obtain ⟨hst, hpre⟩ := hpre
    rw [← ih hpre]
    constructor
    · intro h
      have hrel := h.released
      have hsum := h.woken
      rw [List.cons_append, List.countP_cons_of_neg (by simp [hst.releases])] at hrel
      rw [List.cons_append, List.map_cons, List.sum_cons, hst.wakes, Nat.zero_add] at hsum
      exact ⟨hrel, fun _ _ _ _ => unlocked_of_released hrel, hsum,
        fun u hu => h.counted u (List.mem_cons_of_mem _ hu)⟩
    · intro h
      have hrel : (st :: pre ++ post).countP CondStep.releases = 1 := by
        rw [List.cons_append, List.countP_cons_of_neg (by simp [hst.releases])]
        exact h.released
      refine ⟨hrel, fun _ _ _ _ => unlocked_of_released hrel, ?_, ?_⟩
      · rw [List.cons_append, List.map_cons, List.sum_cons, hst.wakes, Nat.zero_add]
        exact h.woken
      · rw [List.cons_append, List.forall_mem_cons]
        exact ⟨hst.counted, h.counted⟩

/-- What the system call of a signal does. -/
theorem futexWakeUnlock_step (h : st.Answered) (hop : st.op = .futexWakeUnlock cond) :
    (st.answer = -1 ∧ st.after = st.before) ∨
      (0 ≤ st.answer ∧ CondStep.releases st = true ∧ CondStep.wakes st ≤ 1 ∧ st.after.lock = 0 ∧
        (st.before.asleep = 0 ∧ lockWaiters st.before.lock = 0 → st.answer = 0) ∧
        (st.answer = 0 → st.before.asleep = 0)) := by
  simp only [CondStep.Answered, hop] at h
  rcases h with ⟨hans, hafter⟩ | h
  · right
    refine ⟨by omega, ?_, ?_, by rw [hafter]; rfl, ?_, ?_⟩
    · simp only [CondStep.releases, hop]
      have hne : st.answer ≠ -1 := by omega
      simpa using hne
    · simp only [CondStep.wakes, hafter, CondWorld.futexWakeOp]
      omega
    · intro hnobody
      obtain ⟨hasleep, hwaiters⟩ := hnobody
      -- with no waiters recorded the word is 0 or negative
      have hlock : ¬ 1 < st.before.lock.toInt := by
        have hmod : st.before.lock.toNat % 2 ^ 31 = 0 := by
          rw [← Nat.and_two_pow_sub_one_eq_mod]
          exact congrArg BitVec.toNat hwaiters
        have hlt := st.before.lock.isLt
        rw [BitVec.toInt_eq_toNat_cond]
        split <;> omega
      rw [hans, hasleep, CondWorld.wakeIfGtOne, if_neg hlock]
      rfl
    · intro hzero
      omega
  · exact .inl h

theorem signal_once (h : SignalRun cond steps) : SignalOnce steps ↔ WakesNobody cond steps := by
  obtain ⟨pre, post, rfl, hpre, htail⟩ := signal_ops h
  have hans : ∀ st ∈ post, st.Answered := fun st hst => h.answered st (List.mem_append_right _ hst)
  have hnobody : WakesNobody cond (pre ++ post) ↔ WakesNobody cond post := by
    unfold WakesNobody
    rw [List.forall_mem_append]
    exact and_iff_right fun st hst hop => absurd hop ((hpre st hst).notWake cond)
  rw [signalOnce_append hpre, hnobody]
  cases htail with
  -- nobody to wake: the plain unlock does all that the law asks
  | @unlock u hu =>
    obtain ⟨hwakes, hcount⟩ := lllUnlock_step (hans u (by simp)) hu
    have hone : [u].countP CondStep.releases = 1 := by simp [CondStep.releases, hu]
    refine iff_of_true ⟨hone, fun _ _ _ _ => unlocked_of_released hone, ?_, ?_⟩ ?_
    · simp [hwakes]
    · simpa using hcount
    · simp [WakesNobody, hu]
  | @woken f hf hzero =>
    -- the system call has succeeded, and it woke nobody
    rcases futexWakeUnlock_step (hans f (by simp)) hf with ⟨hneg, -⟩ | ⟨-, hrel, hwakes, hlock, -, hasleep⟩
    · rw [hzero] at hneg
      simp at hneg
    have hcounted : lockWaiters f.after.lock = lockWaiters f.before.lock ↔
        lockWaiters f.before.lock = 0 := by
      rw [hlock]
      exact eq_comm
    constructor
    · intro h
      simp only [WakesNobody, List.forall_mem_singleton]
      exact fun _ => .inr ⟨hasleep hzero, hcounted.mp (h.counted f (by simp))⟩
    · intro h
      have hnone := h f (by simp) hf
      rw [hzero] at hnone
      simp only [Int.reduceNeg, Int.reduceEq, false_or] at hnone
      have hone : [f].countP CondStep.releases = 1 := by simp [hrel]
      refine ⟨hone, fun _ _ _ _ => unlocked_of_released hone, by simpa using hwakes, ?_⟩
      rw [List.forall_mem_singleton]
      exact hcounted.mpr hnone.2
  | @again f g u hf hne hg hu =>
    obtain ⟨hgrel, hgwakes, hgcount⟩ := futexWake_step (hans g (by simp)) hg
    obtain ⟨huwakes, hucount⟩ := lllUnlock_step (hans u (by simp)) hu
    have hurel : CondStep.releases u = true := by simp [CondStep.releases, hu]
    rcases futexWakeUnlock_step (hans f (by simp)) hf with ⟨hneg, hsame⟩ | ⟨hpos, hrel, -, -, hnone, -⟩
    · -- the system call has failed
      have hfrel : CondStep.releases f = false := by simp [CondStep.releases, hf, hneg]
      have hfwakes : CondStep.wakes f = 0 := by simp [CondStep.wakes, hsame]
      have hone : [f, g, u].countP CondStep.releases = 1 := by simp [hfrel, hgrel, hurel]
      refine iff_of_true ⟨hone, fun _ _ _ _ => unlocked_of_released hone, ?_, ?_⟩ ?_
      · simpa [hfwakes, huwakes] using hgwakes
      · simp [hsame, hgcount, hucount]
      · simp [WakesNobody, hneg, hg, hu]
    · -- it has woken somebody, so the second wake is one too many
      refine iff_of_false (fun h => ?_) fun h => ?_
      · have htwo := h.released
        simp [hrel, hgrel, hurel] at htwo
      · rcases h f (by simp) hf with hneg | hzero
        · omega
        · exact hne (hnone hzero)

end

/-- Nobody sleeps on the futex or waits for the lock. -/
theorem signal_once_no_sleeper :
    ∃ steps, steps.length = 6 ∧ SignalRun 1 steps ∧ SignalOnce steps := by
  let s : CondWorld := { totalSeq := 1 }
  let s' : CondWorld := { totalSeq := 1, wakeupSeq := 1 }
  let s'' : CondWorld := { totalSeq := 1, wakeupSeq := 1, futex := 1 }
  let steps : List CondStep :=
    [⟨.lllLock 1, 0, s, s⟩, ⟨.load 1 .totalSeq, 1, s, s⟩, ⟨.load 1 .wakeupSeq, 0, s, s⟩,
      ⟨.add 1 .wakeupSeq 1, 0, s, s'⟩, ⟨.add 1 .futex 1, 0, s', s''⟩,
      ⟨.futexWakeUnlock 1, 0, s'', s''⟩]
  have hrun : SignalRun 1 steps := ⟨returns_of_replay (by decide), by decide⟩
  exact ⟨steps, rfl, hrun, (signal_once hrun).mpr (by unfold WakesNobody; decide)⟩

/-- With two sleepers the system call wakes one and releases the lock; the code wakes the other
    and releases the lock again. With nobody asleep and two threads recorded as waiting for the
    lock the call forgets them. -/
theorem signal_twice :
    (∃ steps, SignalRun 1 steps ∧ steps.countP CondStep.releases = 2 ∧
      (steps.map CondStep.wakes).sum = 2) ∧
    ∃ steps, SignalRun 1 steps ∧ ∃ st ∈ steps, lockWaiters st.before.lock = 2 ∧
      lockWaiters st.after.lock = 0 := by
  let s : CondWorld := { totalSeq := 2, asleep := 2 }
  let s₁ : CondWorld := { s with wakeupSeq := 1 }
  let s₂ : CondWorld := { s₁ with futex := 1 }
  let s₃ : CondWorld := { s₂ with asleep := 1 }
  let s₄ : CondWorld := { s₂ with asleep := 0 }
  let w : CondWorld := { totalSeq := 1 }
  let w₁ : CondWorld := { w with wakeupSeq := 1 }
  let w₂ : CondWorld := { w₁ with futex := 1, lock := 0x80000002 }
  refine ⟨⟨[⟨.lllLock 1, 0, s, s⟩, ⟨.load 1 .totalSeq, 2, s, s⟩, ⟨.load 1 .wakeupSeq, 0, s, s⟩,
      ⟨.add 1 .wakeupSeq 1, 0, s, s₁⟩, ⟨.add 1 .futex 1, 0, s₁, s₂⟩,
      ⟨.futexWakeUnlock 1, 1, s₂, s₃⟩, ⟨.futexWake 1 .futex 1, 1, s₃, s₄⟩, ⟨.lllUnlock 1, 0, s₄, s₄⟩],
      ⟨returns_of_replay (by decide), by decide⟩, by decide, by decide⟩,
    [⟨.lllLock 1, 0, w, w⟩, ⟨.load 1 .totalSeq, 1, w, w⟩, ⟨.load 1 .wakeupSeq, 0, w, w⟩,
      ⟨.add 1 .wakeupSeq 1, 0, w, w₁⟩, ⟨.add 1 .futex 1, 0, w₁, { w₁ with futex := 1 }⟩,
      ⟨.futexWakeUnlock 1, 0, w₂, { w₂ with lock := 0 }⟩],
    ⟨returns_of_replay (by decide), by decide⟩, by decide⟩

end TxLock.Spec
