import Mathlib.Data.Fintype.Basic
import TxLock.Native.Lll

/-!
# Exclusion by the condition variables' internal lock

The macro `atomic_bit_test_set` hands `__sync_bool_compare_and_swap` the new value
where it expects the old one, and repeats while the swap succeeds. On a word with
bit 31 clear the swap therefore fails and the macro returns with the word as it
was: `lll_lock` returns without having set the bit. The word keeps its initial 0
in every reachable state (`LllInv`), so `lll_lock` returns after one read and one
failed swap whoever holds the lock.

## Key results

- `lll_lock_stays_zero`: the lock word is 0 in every reachable state
- `lll_not_exclusive`: two threads get inside at the same time
- `lll_exclusive_of_serialised`: threads that are kept apart by their callers are
  kept apart, and from any state in which they are not, two threads can get inside
-/

namespace TxLock.Spec

open Native

variable {Tid : Type} [DecidableEq Tid]

/-- At most one thread is between a return of `lll_lock` and its release. -/
def LllExclusive (s : LllState Tid) : Prop :=
  ∀ t u, (s.pc t).isInside → (s.pc u).isInside → t = u

/-- Thread `t` is in a call of `lll_lock` or in the section that call protects. -/
def LllBusy (s : LllState Tid) (t : Tid) : Prop :=
  (s.pc t).isLocking ∨ (s.pc t).isInside

/-- A step that calls `lll_lock` is taken only while no other thread is in a call of
    `lll_lock` or in a protected section. -/
def LllSerialised (s : LllState Tid) : LllAct Tid → Prop
  | .lllLock t => ∀ u, u ≠ t → ¬ LllBusy s u
  | _ => True

instance (s : LllState Tid) (t : Tid) : Decidable (LllBusy s t) :=
  inferInstanceAs (Decidable (_ ∨ _))

instance [Fintype Tid] (s : LllState Tid) : DecidablePred (LllSerialised s)
  | .lllLock t => inferInstanceAs (Decidable (∀ u, u ≠ t → ¬ LllBusy s u))
  | .run _ | .lllUnlock _ | .lllFutexWakeUnlock _ _ => isTrue trivial

/-! ## The lock word never changes -/

/-- The places a thread can be in while the lock word is 0, with what it has read. -/
def LllPc.ReadsZero : LllPc → Prop
  | .testCas old | .addCas old => old = 0
  | .increment | .retryRead | .retryCas _ | .decrement | .recheck | .futexWait _ => False
  | .out | .testRead | .inside | .signalWake _ | .addRead | .unlockWake => True

/-- The lock word is 0 and every thread has read it so. -/
structure LllInv (s : LllState Tid) : Prop where
  lock : s.lock = 0
  pc : ∀ t, LllPc.ReadsZero (s.pc t)

private theorem LllInv.goto {s : LllState Tid} (h : LllInv s) (t : Tid) {pc : LllPc}
    (hpc : LllPc.ReadsZero pc) : LllInv (s.goto t pc) := by
  refine ⟨h.lock, fun u => ?_⟩
  by_cases hu : u = t
  · subst hu; simpa using hpc
  · simpa [hu] using h.pc u

private theorem LllInv.put {s : LllState Tid} (h : LllInv s) (t : Tid) {pc : LllPc}
    (hpc : LllPc.ReadsZero pc) : LllInv (s.put t 0 pc) := by
  refine ⟨rfl, fun u => ?_⟩
  by_cases hu : u = t
  · subst hu; simpa using hpc
  · simpa [hu] using h.pc u

/-- On the word 0 the swap of `atomic_bit_test_set` fails and the macro returns 0. -/
theorem testCas_zero {s : LllState Tid} {t : Tid} (hl : s.lock = 0)
    (hpc : s.pc t = .testCas 0) : s.runStep t = some (s.put t 0 .inside) := by
  simp [LllState.runStep, hpc, hl, syncBoolCas, lockBit]

/-- On the word 0 the swap of `atomic_exchange_and_add` fails, and `atomic_add_zero`
    does not find the value it looks for. -/
theorem addCas_zero {s : LllState Tid} {t : Tid} (hl : s.lock = 0)
    (hpc : s.pc t = .addCas 0) : s.runStep t = some (s.put t 0 .unlockWake) := by
  simp [LllState.runStep, hpc, hl, syncBoolCas]

private theorem LllInv.runStep {s s' : LllState Tid} {t : Tid} (h : LllInv s)
    (hs : s.runStep t = some s') : LllInv s' := by
  have ht := h.pc t
  cases hpc : s.pc t with
  | testCas old | addCas old =>
    rw [hpc] at ht
    obtain rfl : old = 0 := ht
    first
    | rw [testCas_zero h.lock hpc, Option.some.injEq] at hs
    | rw [addCas_zero h.lock hpc, Option.some.injEq] at hs
    subst hs
    exact h.put t trivial
  | testRead | addRead =>
    simp only [LllState.runStep, hpc, Option.some.injEq] at hs
    subst hs
    exact h.goto t h.lock
  | signalWake _ | unlockWake =>
    simp only [LllState.runStep, hpc, Option.some.injEq] at hs
    subst hs
    exact h.goto t trivial
  | out | inside => simp [LllState.runStep, hpc] at hs
  | increment | retryRead | retryCas _ | decrement | recheck | futexWait _ =>
    simp only [hpc, LllPc.ReadsZero] at ht

private theorem LllInv.step {s s' : LllState Tid} {a : LllAct Tid} (h : LllInv s)
    (hs : s.step a = some s') : LllInv s' := by
  cases a with
  | run t => exact h.runStep hs
  | lllLock t | lllUnlock t =>
    simp only [LllState.step, Option.ite_none_right_eq_some, Option.some.injEq] at hs
    obtain ⟨-, rfl⟩ := hs
    exact h.goto t trivial
  | lllFutexWakeUnlock t woken =>
    simp only [LllState.step, Option.ite_none_right_eq_some] at hs
    obtain ⟨-, hs⟩ := hs
    split at hs <;> simp only [Option.some.injEq] at hs <;> subst hs
    · exact h.put t trivial
    · exact h.put t trivial
    · exact h.goto t trivial

theorem lllInv_of_run {C : LllState Tid → LllAct Tid → Prop} {tr : List _} {s : LllState Tid}
    (h : (lll Tid).Run C tr s) : LllInv s := by
  refine h.invariant (I := LllInv) ?_ fun s a s' hi _ hs => hi.step hs
  rintro s rfl
  exact ⟨rfl, fun _ => trivial⟩

/-- The lock word keeps its initial value in every reachable state: no call of
    `lll_lock` leaves a trace in it. -/
theorem lll_lock_stays_zero {s : LllState Tid} (h : (lll Tid).Reachable System.Free s) :
    s.lock = 0 := by
  obtain ⟨tr, h⟩ := h
  exact (lllInv_of_run h).lock

/-! ## Two threads inside -/

/-- Both threads call `lll_lock`, read 0 and fail their swap. -/
private def twoInside : List (LllAct (Fin 2)) :=
  [.lllLock 0, .lllLock 1, .run 0, .run 1, .run 0, .run 1]

/-- `lll_lock` does not exclude: two threads that call it on a free lock are both
    inside after one read and one swap each. -/
theorem lll_not_exclusive :
    ¬ ∀ tr s, (lll (Fin 2)).Run System.Free tr s → LllExclusive s := by
  intro h
  obtain ⟨s, ⟨tr, hr⟩, hs⟩ := System.reachable_of_exec (M := lll (Fin 2)) twoInside
    (p := fun s => (s.pc 0).isInside && (s.pc 1).isInside) rfl (by decide)
  simp only [Bool.and_eq_true] at hs
  exact absurd (h tr s hr 0 1 hs.1 hs.2) (by decide)

/-! ## Callers that keep themselves apart -/

/-- A step inside the lock's code only moves its own thread, and that thread is not
    busy after the step unless it was before. -/
private theorem runStep_cases {s s' : LllState Tid} {t : Tid} (hs : s.runStep t = some s') :
    ∃ w pc, s' = s.put t w pc ∧ (pc.isLocking ∨ pc.isInside → LllBusy s t) := by
  have hgoto : ∀ pc, s.goto t pc = s.put t s.lock pc := fun _ => rfl
  unfold LllState.runStep at hs
  simp only [LllBusy, hgoto] at hs ⊢
  split at hs <;> rename_i hpc <;> rw [hpc] <;> (repeat' split at hs) <;>
    simp only [Option.some.injEq, reduceCtorEq] at hs <;>
    exact ⟨_, _, hs.symm, by simp [LllPc.isLocking, LllPc.isInside]⟩

private theorem busy_put_self {s : LllState Tid} {t : Tid} {w : Word} {pc : LllPc} :
    LllBusy (s.put t w pc) t ↔ (pc.isLocking ∨ pc.isInside) := by
  simp [LllBusy]

private theorem busy_put_ne {s : LllState Tid} {t u : Tid} {w : Word} {pc : LllPc}
    (h : u ≠ t) : LllBusy (s.put t w pc) u ↔ LllBusy s u := by
  simp [LllBusy, h]

/-- At most one thread is in `lll_lock` or inside. -/
def LllOneBusy (s : LllState Tid) : Prop := ∀ t u, LllBusy s t → LllBusy s u → t = u

/-- Moving one thread keeps `LllOneBusy` when that thread was busy, ends up not busy,
    or no other thread is. -/
private theorem LllOneBusy.put {s : LllState Tid} (h : LllOneBusy s) {t : Tid} {w : Word}
    {pc : LllPc} (hpc : pc.isLocking ∨ pc.isInside → LllBusy s t ∨ ∀ u, u ≠ t → ¬ LllBusy s u) :
    LllOneBusy (s.put t w pc) := by
  -- the moved thread is the only busy one as soon as it is busy
  have key : ∀ u, u ≠ t → LllBusy s u → ¬ (pc.isLocking ∨ pc.isInside) := by
    intro u hu hb hp
    rcases hpc hp with ht | ht
    · exact hu (h u t hb ht)
    · exact ht u hu hb
  intro u v hu hv
  by_cases hut : u = t <;> by_cases hvt : v = t
  · rw [hut, hvt]
  · subst hut
    exact absurd (busy_put_self.mp hu) (key v hvt ((busy_put_ne hvt).mp hv))
  · subst hvt
    exact absurd (busy_put_self.mp hv) (key u hut ((busy_put_ne hut).mp hu))
  · exact h u v ((busy_put_ne hut).mp hu) ((busy_put_ne hvt).mp hv)

private theorem LllOneBusy.step {s s' : LllState Tid} {a : LllAct Tid} (h : LllOneBusy s)
    (hc : LllSerialised s a) (hs : s.step a = some s') : LllOneBusy s' := by
  cases a with
  | run t =>
    obtain ⟨w, pc, rfl, hpc⟩ := runStep_cases hs
    exact h.put fun hp => .inl (hpc hp)
  | lllLock t =>
    simp only [LllState.step, Option.ite_none_right_eq_some, Option.some.injEq] at hs
    obtain ⟨-, rfl⟩ := hs
    exact h.put (w := s.lock) fun _ => .inr hc
  | lllUnlock t =>
    simp only [LllState.step, Option.ite_none_right_eq_some, Option.some.injEq] at hs
    obtain ⟨hin, rfl⟩ := hs
    exact h.put (w := s.lock) fun _ => .inl (.inr (by rw [hin]; rfl))
  | lllFutexWakeUnlock t woken =>
    simp only [LllState.step, Option.ite_none_right_eq_some] at hs
    obtain ⟨hin, hs⟩ := hs
    have hb : LllBusy s t := .inr (by rw [hin]; rfl)
    split at hs <;> simp only [Option.some.injEq] at hs <;> subst hs
    · exact h.put fun _ => .inl hb
    · exact h.put fun _ => .inl hb
    · exact h.put (w := s.lock) fun _ => .inl hb

theorem lll_oneBusy_of_run {tr : List _} {s : LllState Tid}
    (h : (lll Tid).Run LllSerialised tr s) : LllOneBusy s := by
  refine h.invariant (I := LllOneBusy) ?_ fun s a s' hi hc hs => hi.step hc hs
  rintro s rfl t u ht
  simp [LllBusy, LllPc.isLocking, LllPc.isInside] at ht

/-- A busy thread gets inside by its own next steps, whatever the others do. -/
private theorem exec_inside {s : LllState Tid} (h : LllInv s) {t : Tid} (hb : LllBusy s t) :
    ∃ as s', (lll Tid).exec s as = some s' ∧ (s'.pc t).isInside ∧ LllInv s' ∧
      ∀ u, u ≠ t → s'.pc u = s.pc u := by
  have ht := h.pc t
  -- the last step of `lll_lock`: the failing swap
  have hcas : ∀ {r : LllState Tid}, LllInv r → r.pc t = .testCas 0 →
      (lll Tid).exec r [.run t] = some (r.put t 0 .inside) := by
    intro r hr hpc
    show ((lll Tid).step r (.run t)).bind _ = _
    rw [show (lll Tid).step r (.run t) = _ from testCas_zero hr.lock hpc]
    rfl
  cases hpc : s.pc t with
  | testRead =>
    have hread : s.runStep t = some (s.goto t (.testCas 0)) := by
      simp only [LllState.runStep, hpc, h.lock]
    have hinv : LllInv (s.goto t (.testCas 0)) := h.goto t rfl
    refine ⟨[.run t, .run t], (s.goto t (.testCas 0)).put t 0 .inside, ?_, ?_, ?_, ?_⟩
    · show ((lll Tid).step s (.run t)).bind _ = _
      rw [show (lll Tid).step s (.run t) = _ from hread]
      exact hcas hinv (by simp)
    · simp [LllPc.isInside]
    · exact hinv.put t trivial
    · intro u hu; simp [hu]
  | testCas old =>
    rw [hpc] at ht
    obtain rfl : old = 0 := ht
    refine ⟨[.run t], s.put t 0 .inside, hcas h hpc, ?_, h.put t trivial, ?_⟩
    · simp [LllPc.isInside]
    · intro u hu; simp [hu]
  | inside => exact ⟨[], s, rfl, by rw [hpc]; rfl, h, fun _ _ => rfl⟩
  | signalWake released =>
    refine ⟨[], s, rfl, ?_, h, fun _ _ => rfl⟩
    simpa [LllBusy, hpc, LllPc.isLocking] using hb
  | increment | retryRead | retryCas _ | decrement | recheck | futexWait _ =>
    simp only [hpc, LllPc.ReadsZero] at ht
  | out | addRead | addCas _ | unlockWake =>
    simp [LllBusy, hpc, LllPc.isLocking, LllPc.isInside] at hb

/-- Exclusion holds in every run whose callers serialise their uses of the lock
    themselves, and the first call that does not wait for another thread to leave
    can be run on to a state with two threads inside. -/
theorem lll_exclusive_of_serialised (Tid : Type) [DecidableEq Tid] :
    (∀ tr s, (lll Tid).Run LllSerialised tr s → LllExclusive s) ∧
    (∀ s t u, (lll Tid).Reachable System.Free s → s.pc t = .out → u ≠ t → LllBusy s u →
      ∃ as s', (lll Tid).exec s (.lllLock t :: as) = some s' ∧ ¬ LllExclusive s') := by
  refine ⟨fun tr s h t u ht hu => lll_oneBusy_of_run h t u (.inr ht) (.inr hu), ?_⟩
  rintro s t u ⟨tr, hr⟩ hout hne hb
  have hinv := lllInv_of_run hr
  have hinv₀ : LllInv (s.goto t .testRead) := hinv.goto t trivial
  have hcall : (lll Tid).step s (.lllLock t) = some (s.goto t .testRead) := if_pos hout
  -- first the other thread goes on until it is inside, then the caller
  obtain ⟨as, s₁, he₁, hin₁, hinv₁, hpc₁⟩ := exec_inside hinv₀ (t := u)
    (show LllBusy (s.put t s.lock .testRead) u from (busy_put_ne hne).mpr hb)
  have ht₁ : s₁.pc t = .testRead := by rw [hpc₁ t hne.symm]; simp
  obtain ⟨bs, s₂, he₂, hin₂, -, hpc₂⟩ := exec_inside hinv₁ (t := t)
    (.inl (by rw [ht₁]; rfl))
  refine ⟨as ++ bs, s₂, ?_, fun hex => hne (hex u t ?_ hin₂)⟩
  · show ((lll Tid).step s (.lllLock t)).bind _ = _
    rw [hcall]
    show (lll Tid).exec (s.goto t .testRead) (as ++ bs) = some s₂
    rw [System.exec_append, he₁]
    exact he₂
  · rw [hpc₂ u hne]; exact hin₁

/-- Thread 0 takes the lock and releases it, then thread 1 takes it; it is inside when thread 0
    calls again. -/
theorem lll_exclusive_of_serialised_in_turn :
    ∃ tr s, (lll (Fin 2)).Run LllSerialised tr s ∧ s.pc 0 = .out ∧ s.pc 1 = .inside ∧
      (∃ p ∈ tr, p.1.pc 0 = .inside) ∧ LllExclusive s ∧
      ∃ as s', (lll (Fin 2)).exec s (.lllLock 0 :: as) = some s' ∧ ¬ LllExclusive s' := by
  let as : List (LllAct (Fin 2)) :=
    [.lllLock 0, .run 0, .run 0, .lllUnlock 0, .run 0, .run 0, .run 0, .lllLock 1, .run 1, .run 1]
  have hs : ((lll (Fin 2)).exec ⟨0, fun _ => .out⟩ as).map (fun s => (s.pc 0, s.pc 1)) =
      some (.out, .inside) := by decide
  obtain ⟨s, hexec, hpc⟩ := Option.map_eq_some_iff.mp hs
  obtain ⟨hout, hin⟩ := Prod.mk.inj hpc
  have hrun := ((System.Run.init (M := lll (Fin 2)) rfl).exec hexec).of_forall_mem
    (C := LllSerialised) (by decide)
  have hinside : ∃ p ∈ (lll (Fin 2)).execTrace ⟨0, fun _ => .out⟩ as, p.1.pc 0 = .inside := by
    decide
  refine ⟨_, s, hrun, hout, hin, hinside, (lll_exclusive_of_serialised (Fin 2)).1 _ _ hrun,
    (lll_exclusive_of_serialised (Fin 2)).2 _ 0 1 ⟨_, hrun.free⟩ hout (by decide) ?_⟩
  exact .inr (by rw [hin]; rfl)

end TxLock.Spec
