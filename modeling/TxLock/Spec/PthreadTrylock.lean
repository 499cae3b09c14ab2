import TxLock.ForStd.TryLock
import TxLock.Native.PthreadLock

/-!
# Trylock of the mutex locks

A lock of type `pthread` or `pthread_tm` is a normal mutex that only the functions of
`txlock.c` use: it is free, or one thread has locked it once. What the trylock of libpthread
answers about such a mutex is handed on to the caller.

## Key results

- `PthreadInv.move`: what each step is to the callers, and what it does to the mutex
- `pthread_trylockRep`: the trylock of both locks is truthful
-/

namespace TxLock.Spec

open Native

variable {Tid Lid : Type}

/-! ## A normal mutex -/

namespace Mutex

variable [DecidableEq Tid] (t u : Tid)

/-- The mutex of which `t` is the owner. -/
def owned : Mutex Tid := Mutex.acquire {} t

omit [DecidableEq Tid] in
theorem owned_ne_free : Mutex.owned t ≠ {} := by
  simp [Mutex.owned, Mutex.acquire]

theorem lock_free : Native.Mutex.lock {} t = some (0, Mutex.owned t) := by
  simp [Native.Mutex.lock, Mutex.owned]

theorem lock_owned : (Mutex.owned u).lock t = none := by
  simp [Native.Mutex.lock, Mutex.owned, Mutex.acquire]

theorem trylock_free : Native.Mutex.trylock {} t = (0, Mutex.owned t) := by
  simp [Native.Mutex.trylock, Mutex.owned]

theorem trylock_owned : (Mutex.owned u).trylock t = (EBUSY, Mutex.owned u) := by
  simp [Native.Mutex.trylock, Mutex.owned, Mutex.acquire]

theorem unlock_owned : (Mutex.owned t).unlock t = some (0, {}) := by
  simp [Native.Mutex.unlock, Mutex.owned, Mutex.acquire]

end Mutex

/-! ## The steps -/

/-- The thread that takes a step. -/
def PthreadAct.tid : PthreadAct Tid Lid → Tid
  | .lock t _ | .trylock t _ | .unlock t _ | .run t | .htmStart t | .htmAbort t => t

/-- The trylock a thread is in, with the steps it takes before its last one. -/
def PthreadPc.trying : PthreadPc Lid → Option (Lid × Nat)
  | .mutexTrylock l => some (l, 0)
  | .out | .mutexLock _ | .testTrylock _ _ | .enterHtm _ _ | .mutexUnlock _ => none

/-- In the loop of `pthread_lock_tm`. -/
def PthreadPc.speculates : PthreadPc Lid → Bool
  | .testTrylock _ _ | .enterHtm _ _ => true
  | .out | .mutexLock _ | .mutexTrylock _ | .mutexUnlock _ => false

/-- The locks the thread had when its transaction began, or has now. -/
def PthreadThread.base (th : PthreadThread Lid) : Finset Lid :=
  match th.spec with
  | some sv => sv.locked
  | none => th.locked

def PthreadThread.view (th : PthreadThread Lid) : TryView Lid where
  holds l := l ∈ PthreadThread.base th ∨ th.pc = .mutexUnlock l
  told l := l ∈ PthreadThread.base th
  trying := PthreadPc.trying th.pc
  sure := False

/-- What a step is to the callers of the lock. -/
def PthreadState.events [DecidableEq Tid] (tm : Bool) (s : PthreadState Tid Lid) :
    PthreadAct Tid Lid → List (Lid × LockEvent)
  | .trylock t l => if tm ∧ (s.thread t).spec.isSome then [] else [(l, .tryCall)]
  | .unlock t l => if tm ∧ (s.thread t).spec.isSome then [] else [(l, .unlockCall)]
  | .run t =>
    match (s.thread t).pc with
    | .mutexLock l =>
      match (s.mutex l).lock t with
      | some (retval, _) =>
        -- `pthread_lock_tm` drops the result
        (if retval = 0 then [(l, .take)] else []) ++ [(l, .answer (if tm then 0 else retval))]
      | none => []
    | .testTrylock l _ =>
      if ((s.mutex l).trylock t).1 ≠ 0 then [] else [(l, .take), (l, .answer 0)]
    | .mutexTrylock l =>
      let retval := ((s.mutex l).trylock t).1
      if retval = 0 then [(l, .take), (l, .answer 0)] else [(l, .answer retval)]
    | .mutexUnlock l => [(l, .give)]
    | .out | .enterHtm _ _ => []
  | .lock _ _ | .htmStart _ | .htmAbort _ => []

/-- `pthread` and `pthread_tm` as their callers see them. -/
def pthreadView (Tid Lid : Type) [DecidableEq Tid] [DecidableEq Lid] (cfg : TmParams)
    (tm : Bool) : LockView Tid where
  State := PthreadState Tid Lid
  Act := PthreadAct Tid Lid
  Lock := Lid
  Words := Mutex Tid
  Own := Unit
  sys := pthreadMutex Tid Lid cfg tm
  actor := PthreadAct.tid
  run := .run
  events := PthreadState.events tm
  words s := s.mutex
  own _ _ := ()

/-- Each mutex is free or owned by the thread that has it, and only `pthread_tm` speculates. -/
structure PthreadInv (tm : Bool) (s : PthreadState Tid Lid) : Prop where
  spec : ∀ t, (s.thread t).spec ≠ none → (s.thread t).pc = .out ∧ tm = true
  place : ∀ t, PthreadPc.speculates (s.thread t).pc = true → tm = true
  unlock : ∀ t l, (s.thread t).pc = .mutexUnlock l → l ∉ (s.thread t).locked
  word : ∀ l, WordOk {} Mutex.owned (s.mutex l) fun t => (PthreadThread.view (s.thread t)).holds l

section Step

variable [DecidableEq Tid] [DecidableEq Lid] {cfg : TmParams} {tm : Bool}
  {s s' : PthreadState Tid Lid} {a : PthreadAct Tid Lid} {t : Tid}

/-- What thread `t` is left as by its step from `s` to `s'`. -/
structure PthreadMove (tm : Bool) (s s' : PthreadState Tid Lid) (t : Tid) (th : PthreadThread Lid)
    (es : List (Lid × LockEvent)) : Prop where
  thread : s'.thread = Function.update s.thread t th
  spec : th.spec ≠ none → th.pc = .out ∧ tm = true
  place : PthreadPc.speculates th.pc = true → tm = true
  unlock : ∀ l, th.pc = .mutexUnlock l → l ∉ th.locked
  word : WordStep {} Mutex.owned 0 (s'.mutex = s.mutex) s.mutex s'.mutex t
    (PthreadThread.view (s.thread t)) (PthreadThread.view th) es

omit [DecidableEq Tid] [DecidableEq Lid] in
theorem PthreadInv.spec_none (h : PthreadInv tm s) (hpc : (s.thread t).pc ≠ .out) :
    (s.thread t).spec = none := by
  by_contra hne
  exact hpc (h.spec t hne).1

omit [DecidableEq Tid] in
/-- A function of libpthread that leaves the mutex as it is. -/
theorem setMutex_eq {l : Lid} {m : Mutex Tid} (hm : s.mutex l = m) : s.setMutex l m = s := by
  unfold PthreadState.setMutex
  rw [← hm, Function.update_eq_self]

omit [DecidableEq Lid] in
/-- A step that only moves the thread, not in a call of trylock or unlock. -/
theorem PthreadMove.goto {pc : PthreadPc Lid} (hspec : (s.thread t).spec = none)
    (hpc : PthreadPc.trying (s.thread t).pc = none) (hpc' : PthreadPc.trying pc = none)
    (hunlock : ∀ l, (s.thread t).pc ≠ .mutexUnlock l ∧ pc ≠ .mutexUnlock l)
    (hplace : PthreadPc.speculates pc = true → tm = true) :
    PthreadMove tm s (s.goto t pc) t { s.thread t with pc := pc } [] where
  thread := rfl
  spec hne := absurd hspec hne
  place := hplace
  unlock l hl := absurd hl (hunlock l).2
  word := by
    refine .of_same (.quiet (fun k => ?_) (fun _ => Iff.rfl) hpc hpc') fun k => by simp
    simp [PthreadThread.view, PthreadThread.base, (hunlock k).1, (hunlock k).2]

omit [DecidableEq Lid] in
/-- A call in a transaction changes the record of the transaction only. -/
theorem PthreadMove.record {th : PthreadThread Lid} (hpc : (s.thread t).pc = .out)
    (htm : tm = true) (hspec : (s.thread t).spec.isSome = true) (hpc' : th.pc = .out)
    (hspec' : th.spec = (s.thread t).spec) : PthreadMove tm s (s.setThread t th) t th [] where
  thread := rfl
  spec _ := ⟨hpc', htm⟩
  place _ := htm
  unlock l hl := by simp [hpc'] at hl
  word := by
    obtain ⟨sv, hsv⟩ := Option.isSome_iff_exists.mp hspec
    refine .of_same (.quiet (fun k => ?_) (fun k => ?_) ?_ ?_) fun k => by simp
    · simp [PthreadThread.view, PthreadThread.base, hspec', hsv, hpc, hpc']
    · simp [PthreadThread.view, PthreadThread.base, hspec', hsv]
    · simp [PthreadThread.view, hpc, PthreadPc.trying]
    · simp [PthreadThread.view, hpc', PthreadPc.trying]

/-- The thread gets the free mutex and returns 0. -/
theorem PthreadMove.gets {l : Lid} {e : LockEvent} (hspec : (s.thread t).spec = none)
    (hfree : s.mutex l = {}) (hunlock : ∀ l, (s.thread t).pc ≠ .mutexUnlock l)
    (he : e ≠ .take ∧ e ≠ .give)
    (hstep : ∀ x', (∀ k, x'.holds k ↔ (PthreadThread.view (s.thread t)).holds k ∨ k = l) →
      (∀ k, x'.told k ↔ (PthreadThread.view (s.thread t)).told k ∨ k = l) → x'.trying = none →
      LockStep 0 ((s.setMutex l (Mutex.owned t)).mutex = s.mutex)
        (PthreadThread.view (s.thread t)) x' [(l, .take), (l, e)]) :
    PthreadMove tm s ((s.setMutex l (Mutex.owned t)).gets t l) t
      { s.thread t with pc := .out, locked := insert l (s.thread t).locked }
      [(l, .take), (l, e)] where
  thread := rfl
  spec hne := absurd hspec hne
  place hpc := by simp [PthreadPc.speculates] at hpc
  unlock l hl := by simp at hl
  word := by
    refine .of_take (hstep _ ?_ ?_ rfl) hfree fun k => by simp [Ne.symm he.1, Ne.symm he.2]
    all_goals
      intro k
      simp [PthreadThread.view, PthreadThread.base, hspec, hunlock, or_comm]

/-- The next step of the code thread `t` is in. -/
theorem PthreadInv.runStep (h : PthreadInv tm s) (hs : s.runStep tm t = some s') :
    ∃ th, PthreadMove tm s s' t th (PthreadState.events tm s (.run t)) := by
  unfold PthreadState.runStep at hs
  unfold PthreadState.events
  -- what libpthread does to a mutex depends on whether it is free
  have hmutex : ∀ l, s.mutex l = {} ∨ ∃ u, s.mutex l = Mutex.owned u := by
    intro l
    by_cases hfree : s.mutex l = {}
    · exact .inl hfree
    · exact .inr ((h.word l).exists_taken hfree)
  cases hpc : (s.thread t).pc with
  | out | enterHtm l tries => simp [hpc] at hs
  | mutexLock l =>
    have hspec := h.spec_none (t := t) (by simp [hpc])
    simp only [hpc] at hs ⊢
    rcases hmutex l with hm | ⟨u, hm⟩
    · rw [hm, Mutex.lock_free] at hs ⊢
      simp only [true_or, if_true, ite_self, Option.some.injEq, List.cons_append,
        List.nil_append] at hs ⊢
      subst hs
      exact ⟨_, .gets hspec hm (by simp [hpc]) (by simp) fun x' hh ht hx =>
        .locks hh ht (by simp [PthreadThread.view, hpc, PthreadPc.trying]) hx⟩
    · rw [hm, Mutex.lock_owned] at hs
      simp at hs
  | testTrylock l tries =>
    have hspec := h.spec_none (t := t) (by simp [hpc])
    have htm := h.place t (by rw [hpc]; rfl)
    simp only [hpc] at hs ⊢
    rcases hmutex l with hm | ⟨u, hm⟩
    · rw [hm, Mutex.trylock_free] at hs ⊢
      simp only [ne_eq, not_true_eq_false, if_false, Option.some.injEq] at hs ⊢
      subst hs
      exact ⟨_, .gets hspec hm (by simp [hpc]) (by simp) fun x' hh ht hx =>
        .locks hh ht (by simp [PthreadThread.view, hpc, PthreadPc.trying]) hx⟩
    · rw [hm, Mutex.trylock_owned] at hs ⊢
      rw [setMutex_eq hm] at hs
      have hbusy : EBUSY ≠ 0 := by decide
      simp only [ne_eq, hbusy, not_false_eq_true, if_true, Option.some.injEq] at hs ⊢
      subst hs
      exact ⟨_, .goto hspec (by rw [hpc]; rfl) rfl (by simp [hpc]) fun _ => htm⟩
  | mutexTrylock l =>
    have hspec := h.spec_none (t := t) (by simp [hpc])
    have htry : (PthreadThread.view (s.thread t)).trying = some (l, 0) := by
      simp [PthreadThread.view, hpc, PthreadPc.trying]
    simp only [hpc] at hs ⊢
    rcases hmutex l with hm | ⟨u, hm⟩
    · have hno := (h.word l).not_holds Mutex.owned_ne_free hm t
      rw [hm, Mutex.trylock_free] at hs ⊢
      simp only [if_true, Option.some.injEq] at hs ⊢
      subst hs
      exact ⟨_, .gets hspec hm (by simp [hpc]) (by simp) fun x' hh ht _ => .gets hh ht htry hno⟩
    · rw [hm, Mutex.trylock_owned] at hs ⊢
      rw [setMutex_eq hm] at hs
      have hbusy : EBUSY ≠ 0 := by decide
      simp only [hbusy, if_false, Option.some.injEq] at hs ⊢
      subst hs
      refine ⟨{ s.thread t with pc := .out }, rfl, fun hne => absurd hspec hne,
        by simp [PthreadPc.speculates], by simp, .of_same ?_ fun k => by simp⟩
      refine .fails (fun k => ?_) (fun _ => Iff.rfl) htry hbusy not_false rfl
      simp [PthreadThread.view, PthreadThread.base, hpc]
  | mutexUnlock l =>
    have hspec := h.spec_none (t := t) (by simp [hpc])
    have hno := h.unlock t l hpc
    have hl : (PthreadThread.view (s.thread t)).holds l := .inr hpc
    simp only [hpc] at hs ⊢
    rw [(h.word l).eq_taken hl, Mutex.unlock_owned] at hs
    simp only [Option.some.injEq] at hs
    subst hs
    refine ⟨{ s.thread t with pc := .out }, rfl, fun hne => absurd hspec hne,
      by simp [PthreadPc.speculates], by simp, ?_⟩
    refine .of_give [] (.gives (fun k => ?_) (fun _ => Iff.rfl) ?_ rfl) hl fun k => by simp
    · simp only [PthreadThread.view, PthreadThread.base, hspec, hpc, reduceCtorEq, or_false,
        PthreadPc.mutexUnlock.injEq]
      by_cases hk : k = l
      · simp [hk, hno]
      · simp [hk, Ne.symm hk]
    · simp [PthreadThread.view, hpc, PthreadPc.trying]

/-- Every step does to the mutex and to the thread what it is to the callers. -/
theorem PthreadInv.move (h : PthreadInv tm s) (hs : s.step cfg tm a = some s') :
    ∃ th, PthreadMove tm s s' (PthreadAct.tid a) th (PthreadState.events tm s a) := by
  have hout : ∀ {t : Tid}, (s.thread t).pc = .out → PthreadPc.trying (s.thread t).pc = none := by
    intro t hpc
    rw [hpc]
    rfl
  -- outside a transaction the functions do not return at once
  have hnone : ∀ {t : Tid}, ¬ (tm = true ∧ (s.thread t).spec.isSome = true) →
      (s.thread t).spec = none := by
    intro t hsp
    by_contra hne
    exact hsp ⟨(h.spec t hne).2, Option.isSome_iff_ne_none.mpr hne⟩
  cases a with
  | lock t l =>
    simp only [PthreadState.step] at hs
    split at hs
    · simp at hs
    rename_i hpc
    have hpc := not_not.mp hpc
    split at hs <;> rename_i hsp
    · simp only [Option.some.injEq] at hs
      subst hs
      exact ⟨_, .record hpc hsp.1 hsp.2 rfl rfl⟩
    · split at hs <;> rename_i htm <;> simp only [Option.some.injEq] at hs <;> subst hs
      · exact ⟨_, .goto (hnone hsp) (hout hpc) rfl (by simp [hpc]) fun _ => htm⟩
      · exact ⟨_, .goto (hnone hsp) (hout hpc) rfl (by simp [hpc]) (by simp [PthreadPc.speculates])⟩
  | trylock t l =>
    simp only [PthreadState.step] at hs
    split at hs
    · simp at hs
    rename_i hpc
    have hpc := not_not.mp hpc
    simp only [PthreadState.events]
    split at hs <;> rename_i hsp <;> simp only [Option.some.injEq] at hs <;> subst hs
    · rw [if_pos hsp]
      exact ⟨_, .record hpc hsp.1 hsp.2 rfl rfl⟩
    · rw [if_neg hsp]
      refine ⟨{ s.thread t with pc := .mutexTrylock l }, rfl, fun hne => absurd (hnone hsp) hne,
        by simp [PthreadPc.speculates], by simp, .of_same ?_ fun k => by simp⟩
      refine .tries (fun k => ?_) (fun _ => Iff.rfl) (hout hpc) rfl (Nat.le_refl 0) rfl
      simp [PthreadThread.view, PthreadThread.base, PthreadAct.tid, hpc]
  | unlock t l =>
    simp only [PthreadState.step] at hs
    split at hs
    · simp at hs
    rename_i hcall
    obtain ⟨hpc, hl⟩ := not_or.mp hcall
    have hpc := not_not.mp hpc
    have hl := not_not.mp hl
    simp only [PthreadState.events, PthreadAct.tid]
    split at hs <;> rename_i hsp <;> simp only [Option.some.injEq] at hs <;> subst hs
    · rw [if_pos hsp]
      exact ⟨_, .record hpc hsp.1 hsp.2 hpc rfl⟩
    · rw [if_neg hsp]
      have hspec := hnone hsp
      refine ⟨{ s.thread t with locked := (s.thread t).locked.erase l, pc := .mutexUnlock l }, rfl,
        fun hne => absurd hspec hne, by simp [PthreadPc.speculates], ?_, .of_same ?_ fun k => by simp⟩
      · rintro k hk
        obtain rfl : l = k := by simpa using hk
        simp
      refine .callsUnlock (fun k => ?_) (fun k => ?_) (hout hpc) rfl
      · simp only [PthreadThread.view, PthreadThread.base, hspec, hpc, reduceCtorEq, or_false,
          PthreadPc.mutexUnlock.injEq, Finset.mem_erase]
        by_cases hk : k = l
        · simp [hk, hl]
        · simp [hk, Ne.symm hk]
      · simp [PthreadThread.view, PthreadThread.base, hspec, and_comm]
  | run t => exact h.runStep hs
  | htmStart t =>
    simp only [PthreadState.step] at hs
    split at hs <;> rename_i hpc <;> simp only [Option.some.injEq, reduceCtorEq] at hs
    subst hs
    have hspec := h.spec_none (t := t) (by simp [hpc])
    have htm := h.place t (by rw [hpc]; rfl)
    simp only [PthreadState.events, PthreadAct.tid]
    refine ⟨_, rfl, fun _ => ⟨rfl, htm⟩, fun _ => htm, by simp,
      .of_same (.quiet ?_ ?_ ?_ rfl) fun k => by simp⟩
    · exact fun k => by simp [PthreadThread.view, PthreadThread.base, hspec, hpc]
    · exact fun k => by simp [PthreadThread.view, PthreadThread.base, hspec]
    · simp [PthreadThread.view, hpc, PthreadPc.trying]
  | htmAbort t =>
    have hfailed : ∀ (l : Lid) (tries : Word), PthreadPc.trying (.htmFailed cfg l tries) = none ∧
        ∀ k, PthreadPc.htmFailed cfg l tries ≠ .mutexUnlock k := by
      intro l tries
      unfold PthreadPc.htmFailed
      split
      · exact ⟨rfl, by simp⟩
      · exact ⟨rfl, by simp⟩
    simp only [PthreadState.step] at hs
    simp only [PthreadState.events, PthreadAct.tid]
    split at hs
    · rename_i sv hsv
      obtain ⟨hpc, htm⟩ := h.spec t (by simp [hsv])
      simp only [Option.some.injEq] at hs
      subst hs
      refine ⟨_, rfl, fun hne => absurd rfl hne, fun _ => htm,
        fun l hl => absurd hl ((hfailed ..).2 l),
        .of_same (.quiet ?_ ?_ (hout hpc) (hfailed ..).1) fun k => by simp⟩
      · exact fun k => by simp [PthreadThread.view, PthreadThread.base, hsv, hpc, hfailed]
      · exact fun k => by simp [PthreadThread.view, PthreadThread.base, hsv]
    · rename_i hspec
      split at hs <;> rename_i hpc <;> simp only [Option.some.injEq, reduceCtorEq] at hs
      subst hs
      have htm := h.place t (by rw [hpc]; rfl)
      exact ⟨_, .goto hspec (by rw [hpc]; rfl) (hfailed ..).1
        (fun l => ⟨by simp [hpc], (hfailed ..).2 l⟩) fun _ => htm⟩

/-- A step leaves the other threads alone. -/
theorem PthreadInv.frame (h : PthreadInv tm s) (hs : s.step cfg tm a = some s') {u : Tid}
    (hu : u ≠ PthreadAct.tid a) : s'.thread u = s.thread u := by
  obtain ⟨th, hmove⟩ := h.move hs
  rw [hmove.thread, Function.update_of_ne hu]

theorem PthreadInv.wordStep (h : PthreadInv tm s) (hs : s.step cfg tm a = some s') :
    WordStep {} Mutex.owned 0 (s'.mutex = s.mutex) s.mutex s'.mutex (PthreadAct.tid a)
      (PthreadThread.view (s.thread (PthreadAct.tid a)))
      (PthreadThread.view (s'.thread (PthreadAct.tid a))) (PthreadState.events tm s a) := by
  obtain ⟨th, hmove⟩ := h.move hs
  rw [hmove.thread, Function.update_self]
  exact hmove.word

theorem PthreadInv.step (h : PthreadInv tm s) (hs : s.step cfg tm a = some s') :
    PthreadInv tm s' := by
  obtain ⟨th, hmove⟩ := h.move hs
  have hself : s'.thread (PthreadAct.tid a) = th := by rw [hmove.thread, Function.update_self]
  refine ⟨fun t hne => ?_, fun t hpl => ?_, fun t l hl => ?_, ?_⟩
  · by_cases ht : t = PthreadAct.tid a
    · rw [ht, hself] at hne ⊢
      exact hmove.spec hne
    · rw [h.frame hs ht] at hne ⊢
      exact h.spec t hne
  · by_cases ht : t = PthreadAct.tid a
    · rw [ht, hself] at hpl
      exact hmove.place hpl
    · rw [h.frame hs ht] at hpl
      exact h.place t hpl
  · by_cases ht : t = PthreadAct.tid a
    · rw [ht, hself] at hl ⊢
      exact hmove.unlock l hl
    · rw [h.frame hs ht] at hl ⊢
      exact h.unlock t l hl
  · exact WordOk.step _ (fun u => PthreadThread.view (s'.thread u)) Mutex.owned_ne_free h.word
      (fun u hu => congrArg PthreadThread.view (h.frame hs hu)) (h.wordStep hs)

theorem pthread_inv {C : PthreadState Tid Lid → PthreadAct Tid Lid → Prop} {tr}
    {s : PthreadState Tid Lid} (h : (pthreadMutex Tid Lid cfg tm).Run C tr s) :
    PthreadInv tm s := by
  refine h.invariant (fun s hs => ?_) fun s a s' hi _ hs => hi.step hs
  obtain rfl : s = _ := hs
  refine ⟨fun t hne => absurd rfl hne, by simp [PthreadPc.speculates], by simp,
    fun l => .inl ⟨rfl, fun t => ?_⟩⟩
  simp [PthreadThread.view, PthreadThread.base]

/-- A thread in a call of trylock can go on. -/
theorem PthreadState.exists_runStep (ht : PthreadPc.trying (s.thread t).pc ≠ none) :
    ∃ s', s.runStep tm t = some s' := by
  unfold PthreadState.runStep
  cases hpc : (s.thread t).pc with
  | mutexTrylock l =>
    simp only
    split <;> exact ⟨_, rfl⟩
  | out | mutexLock l | testTrylock l tries | enterHtm l tries | mutexUnlock l =>
    simp [hpc, PthreadPc.trying] at ht

/-- The trylock of `pthread` and of `pthread_tm` is truthful in every run. -/
theorem pthread_trylockRep (cfg : TmParams) (tm : Bool) :
    TrylockRep (pthreadView Tid Lid cfg tm) System.Free 0
      fun s t => PthreadThread.view (s.thread t) where
  init s hs t l := by
    obtain rfl : s = ⟨fun _ => {}, fun _ => {}⟩ := hs
    exact ⟨not_or.mpr ⟨Finset.notMem_empty l, nofun⟩, Finset.notMem_empty l⟩
  exclusive tr s h t u l := ((pthread_inv h).word l).unique
  told tr s h t l := .inl
  enabled tr s h t ht := PthreadState.exists_runStep ht
  frame tr s h a s' hs u hu := congrArg PthreadThread.view ((pthread_inv h).frame hs hu)
  step tr s h a s' _ hs := ((pthread_inv h).wordStep hs).step.mono fun hk => .of_step hs hk rfl

end Step

end TxLock.Spec
