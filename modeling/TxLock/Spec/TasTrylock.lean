import TxLock.ForStd.TryLock
import TxLock.Native.Tas

/-!
# Trylock of the test-and-set locks

The field `val` of a `tas` or `tas_tm` lock is 1 exactly while one thread has the lock
outside a transaction. A test-and-set that finds it at 1 stores the 1 again, so a trylock
that fails leaves the word as it was.

## Key results

- `TasInv.step`: what each step is to the callers, and that it keeps `val` right
- `tas_trylockRep`: the trylock of both locks is truthful
-/

namespace TxLock.Spec

open Native

variable {Tid Lid : Type}

theorem word_one_ne_zero : (1 : Word) ≠ 0 := by decide

/-- The thread that takes a step. -/
def TasAct.tid : TasAct Tid Lid → Tid
  | .lock t _ | .trylock t _ | .unlock t _ | .run t | .htmStart t | .htmAbort t => t

/-- The trylock a thread is in, with the steps it takes before its last one. -/
def TasPc.trying : TasPc Lid → Option (Lid × Nat)
  | .tryRead l => some (l, 1)
  | .trySwap l => some (l, 0)
  | .out | .testRead _ _ | .testSwap _ _ | .enterHtm _ _ | .waitRead _ | .waitSwap _ => none

/-- In the loop of `tas_lock_tm` that speculates. -/
def TasPc.speculates : TasPc Lid → Bool
  | .testRead _ _ | .testSwap _ _ | .enterHtm _ _ => true
  | .out | .waitRead _ | .waitSwap _ | .tryRead _ | .trySwap _ => false

/-- The locks the thread had when its transaction began, or has now. -/
def TasThread.base (th : TasThread Lid) : Finset Lid :=
  match th.spec with
  | some sv => sv.locked
  | none => th.locked

def TasThread.view (th : TasThread Lid) : TryView Lid where
  holds l := l ∈ TasThread.base th
  told l := l ∈ TasThread.base th
  trying := TasPc.trying th.pc
  sure := False

/-- What a step is to the callers of the lock. -/
def TasState.events (tm : Bool) (s : TasState Tid Lid) :
    TasAct Tid Lid → List (Lid × LockEvent)
  | .trylock t l => if tm ∧ (s.thread t).spec.isSome then [] else [(l, .tryCall)]
  | .unlock t l =>
    if tm ∧ (s.thread t).spec.isSome then [] else [(l, .unlockCall), (l, .give)]
  | .run t =>
    match (s.thread t).pc with
    | .testSwap l _ | .waitSwap l => if s.val l ≠ 0 then [] else [(l, .take), (l, .answer 0)]
    | .tryRead l => if s.val l ≠ 0 then [(l, .answer 1)] else []
    | .trySwap l => if s.val l ≠ 0 then [(l, .answer 1)] else [(l, .take), (l, .answer 0)]
    | .out | .testRead _ _ | .enterHtm _ _ | .waitRead _ => []
  | .lock _ _ | .htmStart _ | .htmAbort _ => []

/-- `tas` and `tas_tm` as their callers see them. -/
def tasView (Tid Lid : Type) [DecidableEq Tid] [DecidableEq Lid] (cfg : TmParams) (tm : Bool) :
    LockView Tid where
  State := TasState Tid Lid
  Act := TasAct Tid Lid
  Lock := Lid
  Words := Word
  Own := Unit
  sys := tas Tid Lid cfg tm
  actor := TasAct.tid
  run := .run
  events := TasState.events tm
  words s := s.val
  own _ _ := ()

/-- The word of a lock says whether a thread has it, and only `tas_tm` speculates. -/
structure TasInv (tm : Bool) (s : TasState Tid Lid) : Prop where
  spec : ∀ t, (s.thread t).spec ≠ none → (s.thread t).pc = .out ∧ tm = true
  place : ∀ t, TasPc.speculates (s.thread t).pc = true → tm = true
  word : ∀ l, WordOk 0 (fun _ => 1) (s.val l) fun t => (TasThread.view (s.thread t)).holds l

section Step

variable [DecidableEq Tid] [DecidableEq Lid] {cfg : TmParams} {tm : Bool}
  {s s' : TasState Tid Lid} {a : TasAct Tid Lid} {t : Tid}

/-- What thread `t` is left as by its step from `s` to `s'`. -/
structure TasMove (tm : Bool) (s s' : TasState Tid Lid) (t : Tid) (th : TasThread Lid)
    (es : List (Lid × LockEvent)) : Prop where
  thread : s'.thread = Function.update s.thread t th
  spec : th.spec ≠ none → th.pc = .out ∧ tm = true
  place : TasPc.speculates th.pc = true → tm = true
  word : WordStep 0 (fun _ => 1) 1 (s'.val = s.val) s.val s'.val t (TasThread.view (s.thread t))
    (TasThread.view th) es

omit [DecidableEq Tid] [DecidableEq Lid] in
theorem TasInv.spec_none (h : TasInv tm s) (hpc : (s.thread t).pc ≠ .out) :
    (s.thread t).spec = none := by
  by_contra hne
  exact hpc (h.spec t hne).1

omit [DecidableEq Tid] in
/-- A test-and-set that finds the lock taken changes nothing. -/
theorem TasInv.setVal_eq (h : TasInv tm s) {l : Lid} (hv : s.val l ≠ 0) : s.setVal l 1 = s := by
  obtain ⟨-, hone⟩ := (h.word l).exists_taken hv
  unfold TasState.setVal
  rw [← hone, Function.update_eq_self]

omit [DecidableEq Lid] in
/-- A step that only moves the thread, not in a call of trylock. -/
theorem TasMove.goto {pc : TasPc Lid} (hspec : (s.thread t).spec = none)
    (hpc : TasPc.trying (s.thread t).pc = none) (hpc' : TasPc.trying pc = none)
    (hplace : TasPc.speculates pc = true → tm = true) :
    TasMove tm s (s.goto t pc) t { s.thread t with pc := pc } [] where
  thread := rfl
  spec hne := absurd hspec hne
  place := hplace
  word := .of_same (.quiet (fun _ => Iff.rfl) (fun _ => Iff.rfl) hpc hpc') fun k => by simp

omit [DecidableEq Lid] in
/-- A round of a loop that waits. -/
theorem TasMove.stay (hspec : (s.thread t).spec = none)
    (hpc : TasPc.trying (s.thread t).pc = none)
    (hplace : TasPc.speculates (s.thread t).pc = true → tm = true) :
    TasMove tm s s t (s.thread t) [] where
  thread := (Function.update_eq_self t _).symm
  spec hne := absurd hspec hne
  place := hplace
  word := .of_same (.quiet (fun _ => Iff.rfl) (fun _ => Iff.rfl) hpc hpc) fun k => by simp

omit [DecidableEq Lid] in
/-- A call in a transaction changes the record of the transaction only. -/
theorem TasMove.record {th : TasThread Lid} (hpc : (s.thread t).pc = .out) (htm : tm = true)
    (hspec : (s.thread t).spec.isSome = true) (hpc' : th.pc = .out)
    (hspec' : th.spec = (s.thread t).spec) : TasMove tm s (s.setThread t th) t th [] where
  thread := rfl
  spec _ := ⟨hpc', htm⟩
  place _ := htm
  word := by
    obtain ⟨sv, hsv⟩ := Option.isSome_iff_exists.mp hspec
    refine .of_same (.quiet (fun k => ?_) (fun k => ?_) ?_ ?_) fun k => by simp
    · simp [TasThread.view, TasThread.base, hspec', hsv]
    · simp [TasThread.view, TasThread.base, hspec', hsv]
    · simp [TasThread.view, hpc, TasPc.trying]
    · simp [TasThread.view, hpc', TasPc.trying]

/-- The thread takes the lock and returns 0. -/
theorem TasMove.gets {l : Lid} {e : LockEvent} (hspec : (s.thread t).spec = none)
    (hv : s.val l = 0) (he : e ≠ .take ∧ e ≠ .give)
    (hstep : ∀ x', (∀ k, x'.holds k ↔ (TasThread.view (s.thread t)).holds k ∨ k = l) →
      (∀ k, x'.told k ↔ (TasThread.view (s.thread t)).told k ∨ k = l) → x'.trying = none →
      LockStep 1 ((s.setVal l 1).val = s.val) (TasThread.view (s.thread t)) x'
        [(l, .take), (l, e)]) :
    TasMove tm s ((s.setVal l 1).gets t l) t
      { s.thread t with pc := .out, locked := insert l (s.thread t).locked }
      [(l, .take), (l, e)] where
  thread := rfl
  spec hne := absurd hspec hne
  place hpc := by simp [TasPc.speculates] at hpc
  word := by
    refine .of_take (hstep _ ?_ ?_ rfl) hv fun k => by simp [Ne.symm he.1, Ne.symm he.2]
    all_goals
      intro k
      simp [TasThread.view, TasThread.base, hspec, or_comm]

omit [DecidableEq Lid] in
/-- A trylock finds the lock taken and returns 1. -/
theorem TasMove.fails {l : Lid} {m : Nat} (hspec : (s.thread t).spec = none)
    (hpc : TasPc.trying (s.thread t).pc = some (l, m)) :
    TasMove tm s (s.goto t .out) t { s.thread t with pc := .out } [(l, .answer 1)] where
  thread := rfl
  spec hne := absurd hspec hne
  place hpc := by simp [TasPc.speculates] at hpc
  word := by
    refine .of_same ?_ fun k => by simp
    exact .fails (fun _ => Iff.rfl) (fun _ => Iff.rfl) hpc (by decide) not_false rfl

/-- The next step of the code thread `t` is in. -/
theorem TasInv.runStep (h : TasInv tm s) (hs : s.runStep t = some s') :
    ∃ th, TasMove tm s s' t th (TasState.events tm s (.run t)) := by
  unfold TasState.runStep at hs
  unfold TasState.events
  cases hpc : (s.thread t).pc with
  | out | enterHtm l tries => simp [hpc] at hs
  | testRead l tries =>
    have hspec := h.spec_none (t := t) (by simp [hpc])
    have htm := h.place t (by rw [hpc]; rfl)
    simp only [hpc] at hs ⊢
    split at hs <;> simp only [Option.some.injEq] at hs <;> subst hs <;>
      exact ⟨_, .goto hspec (by rw [hpc]; rfl) rfl fun _ => htm⟩
  | testSwap l tries =>
    have hspec := h.spec_none (t := t) (by simp [hpc])
    have htm := h.place t (by rw [hpc]; rfl)
    simp only [hpc] at hs ⊢
    split at hs <;> rename_i hv <;> simp only [Option.some.injEq] at hs <;> subst hs
    · -- the word was 1 already, so the exchange has changed nothing
      rw [h.setVal_eq hv, if_pos hv]
      exact ⟨_, .goto hspec (by rw [hpc]; rfl) rfl fun _ => htm⟩
    · rw [if_neg hv]
      exact ⟨_, .gets hspec (not_not.mp hv) (by simp) fun x' hh ht hx =>
        .locks hh ht (by simp [TasThread.view, hpc, TasPc.trying]) hx⟩
  | waitRead l =>
    have hspec := h.spec_none (t := t) (by simp [hpc])
    simp only [hpc] at hs ⊢
    split at hs <;> simp only [Option.some.injEq] at hs <;> subst hs
    · exact ⟨_, .stay hspec (by rw [hpc]; rfl) (by simp [hpc, TasPc.speculates])⟩
    · exact ⟨_, .goto hspec (by rw [hpc]; rfl) rfl (by simp [TasPc.speculates])⟩
  | waitSwap l =>
    have hspec := h.spec_none (t := t) (by simp [hpc])
    simp only [hpc] at hs ⊢
    split at hs <;> rename_i hv <;> simp only [Option.some.injEq] at hs <;> subst hs
    · rw [h.setVal_eq hv, if_pos hv]
      exact ⟨_, .goto hspec (by rw [hpc]; rfl) rfl (by simp [TasPc.speculates])⟩
    · rw [if_neg hv]
      exact ⟨_, .gets hspec (not_not.mp hv) (by simp) fun x' hh ht hx =>
        .locks hh ht (by simp [TasThread.view, hpc, TasPc.trying]) hx⟩
  | tryRead l =>
    have hspec := h.spec_none (t := t) (by simp [hpc])
    simp only [hpc] at hs ⊢
    split at hs <;> rename_i hv <;> simp only [Option.some.injEq] at hs <;> subst hs
    · rw [if_pos hv]
      exact ⟨_, .fails hspec (by rw [hpc]; rfl)⟩
    · rw [if_neg hv]
      refine ⟨{ s.thread t with pc := .trySwap l }, rfl, fun hne => absurd hspec hne,
        by simp [TasPc.speculates], .of_same ?_ fun k => by simp⟩
      -- the first read has found the lock free; the exchange decides
      exact .goesOn (fun _ => Iff.rfl) (fun _ => Iff.rfl) (by simp [TasThread.view, hpc, TasPc.trying])
        rfl Nat.one_pos id (.inl rfl)
  | trySwap l =>
    have hspec := h.spec_none (t := t) (by simp [hpc])
    simp only [hpc] at hs ⊢
    split at hs <;> rename_i hv <;> simp only [Option.some.injEq] at hs <;> subst hs
    · rw [h.setVal_eq hv, if_pos hv]
      exact ⟨_, .fails hspec (by rw [hpc]; rfl)⟩
    · rw [if_neg hv]
      have hfree := (h.word l).not_holds (fun _ => word_one_ne_zero) (not_not.mp hv) t
      exact ⟨_, .gets hspec (not_not.mp hv) (by simp) fun x' hh ht _ =>
        .gets (m := 0) hh ht (by simp [TasThread.view, hpc, TasPc.trying]) hfree⟩

/-- Every step does to the word and to the thread what it is to the callers. -/
theorem TasInv.move (h : TasInv tm s) (hs : s.step cfg tm a = some s') :
    ∃ th, TasMove tm s s' (TasAct.tid a) th (TasState.events tm s a) := by
  have hout : ∀ {t : Tid}, (s.thread t).pc = .out → TasPc.trying (s.thread t).pc = none := by
    intro t hpc
    rw [hpc]
    rfl
  -- outside a transaction the functions do not return at once
  have hnone : ∀ {t : Tid}, ¬ (tm = true ∧ (s.thread t).spec.isSome = true) →
      (s.thread t).spec = none := by
    intro t hsp
    by_contra hne
    exact hsp ⟨(h.spec t hne).2, Option.isSome_iff_ne_none.mpr hne⟩
  cases a with
  | lock t l =>
    simp only [TasState.step] at hs
    split at hs
    · simp at hs
    rename_i hpc
    have hpc := not_not.mp hpc
    split at hs <;> rename_i hsp
    · simp only [Option.some.injEq] at hs
      subst hs
      exact ⟨_, .record hpc hsp.1 hsp.2 rfl rfl⟩
    · split at hs <;> rename_i htm <;> simp only [Option.some.injEq] at hs <;> subst hs
      · exact ⟨_, .goto (hnone hsp) (hout hpc) rfl fun _ => htm⟩
      · exact ⟨_, .goto (hnone hsp) (hout hpc) rfl (by simp [TasPc.speculates])⟩
  | trylock t l =>
    simp only [TasState.step] at hs
    split at hs
    · simp at hs
    rename_i hpc
    have hpc := not_not.mp hpc
    simp only [TasState.events]
    split at hs <;> rename_i hsp <;> simp only [Option.some.injEq] at hs <;> subst hs
    · rw [if_pos hsp]
      exact ⟨_, .record hpc hsp.1 hsp.2 rfl rfl⟩
    · rw [if_neg hsp]
      refine ⟨{ s.thread t with pc := .tryRead l }, rfl, fun hne => absurd (hnone hsp) hne,
        by simp [TasPc.speculates], .of_same ?_ fun k => by simp⟩
      exact .tries (fun _ => Iff.rfl) (fun _ => Iff.rfl) (hout hpc) rfl (Nat.le_refl 1) rfl
  | unlock t l =>
    simp only [TasState.step] at hs
    split at hs
    · simp at hs
    rename_i hcall
    obtain ⟨hpc, hl⟩ := not_or.mp hcall
    have hpc := not_not.mp hpc
    have hl := not_not.mp hl
    simp only [TasState.events, TasAct.tid]
    split at hs <;> rename_i hsp <;> simp only [Option.some.injEq] at hs <;> subst hs
    · rw [if_pos hsp]
      exact ⟨_, .record hpc hsp.1 hsp.2 hpc rfl⟩
    · rw [if_neg hsp]
      have hspec := hnone hsp
      refine ⟨{ s.thread t with locked := (s.thread t).locked.erase l }, rfl,
        fun hne => absurd hspec hne, fun hpl => h.place t hpl, ?_⟩
      refine .of_give [(l, .unlockCall)] (.unlocks (fun k => ?_) (fun k => ?_) (hout hpc) (hout hpc))
        ?_ fun k => by simp
      · simp [TasThread.view, TasThread.base, hspec, and_comm]
      · simp [TasThread.view, TasThread.base, hspec, and_comm]
      · simpa [TasThread.view, TasThread.base, hspec] using hl
  | run t => exact h.runStep hs
  | htmStart t =>
    simp only [TasState.step] at hs
    split at hs <;> rename_i hpc <;> simp only [Option.some.injEq, reduceCtorEq] at hs
    subst hs
    have hspec := h.spec_none (t := t) (by simp [hpc])
    have htm := h.place t (by rw [hpc]; rfl)
    simp only [TasState.events, TasAct.tid]
    refine ⟨_, rfl, fun _ => ⟨rfl, htm⟩, fun _ => htm, .of_same (.quiet ?_ ?_ ?_ rfl) fun k => by simp⟩
    · exact fun k => by simp [TasThread.view, TasThread.base, hspec]
    · exact fun k => by simp [TasThread.view, TasThread.base, hspec]
    · simp [TasThread.view, hpc, TasPc.trying]
  | htmAbort t =>
    have hfailed : ∀ (l : Lid) (tries : Word), TasPc.trying (.htmFailed cfg l tries) = none := by
      intro l tries
      unfold TasPc.htmFailed
      split <;> rfl
    simp only [TasState.step] at hs
    simp only [TasState.events, TasAct.tid]
    split at hs
    · rename_i sv hsv
      obtain ⟨hpc, htm⟩ := h.spec t (by simp [hsv])
      simp only [Option.some.injEq] at hs
      subst hs
      refine ⟨_, rfl, fun hne => absurd rfl hne, fun _ => htm,
        .of_same (.quiet ?_ ?_ (hout hpc) (hfailed ..)) fun k => by simp⟩
      · exact fun k => by simp [TasThread.view, TasThread.base, hsv]
      · exact fun k => by simp [TasThread.view, TasThread.base, hsv]
    · rename_i hspec
      split at hs <;> rename_i hpc <;> simp only [Option.some.injEq, reduceCtorEq] at hs
      subst hs
      have htm := h.place t (by rw [hpc]; rfl)
      exact ⟨_, .goto hspec (by rw [hpc]; rfl) (hfailed ..) fun _ => htm⟩

/-- A step leaves the other threads alone. -/
theorem TasInv.frame (h : TasInv tm s) (hs : s.step cfg tm a = some s') {u : Tid}
    (hu : u ≠ TasAct.tid a) : s'.thread u = s.thread u := by
  obtain ⟨th, hmove⟩ := h.move hs
  rw [hmove.thread, Function.update_of_ne hu]

theorem TasInv.wordStep (h : TasInv tm s) (hs : s.step cfg tm a = some s') :
    WordStep 0 (fun _ => 1) 1 (s'.val = s.val) s.val s'.val (TasAct.tid a)
      (TasThread.view (s.thread (TasAct.tid a))) (TasThread.view (s'.thread (TasAct.tid a)))
      (TasState.events tm s a) := by
  obtain ⟨th, hmove⟩ := h.move hs
  rw [hmove.thread, Function.update_self]
  exact hmove.word

theorem TasInv.step (h : TasInv tm s) (hs : s.step cfg tm a = some s') : TasInv tm s' := by
  obtain ⟨th, hmove⟩ := h.move hs
  have hself : s'.thread (TasAct.tid a) = th := by rw [hmove.thread, Function.update_self]
  refine ⟨fun t hne => ?_, fun t hpl => ?_, ?_⟩
  · by_cases ht : t = TasAct.tid a
    · rw [ht, hself] at hne ⊢
      exact hmove.spec hne
    · rw [h.frame hs ht] at hne ⊢
      exact h.spec t hne
  · by_cases ht : t = TasAct.tid a
    · rw [ht, hself] at hpl
      exact hmove.place hpl
    · rw [h.frame hs ht] at hpl
      exact h.place t hpl
  · exact WordOk.step _ (fun u => TasThread.view (s'.thread u)) (fun _ => word_one_ne_zero) h.word
      (fun u hu => congrArg TasThread.view (h.frame hs hu)) (h.wordStep hs)

theorem tas_inv {C : TasState Tid Lid → TasAct Tid Lid → Prop} {tr} {s : TasState Tid Lid}
    (h : (tas Tid Lid cfg tm).Run C tr s) : TasInv tm s := by
  refine h.invariant (fun s hs => ?_) fun s a s' hi _ hs => hi.step hs
  obtain rfl : s = _ := hs
  refine ⟨fun t hne => absurd rfl hne, by simp [TasPc.speculates], fun l => .inl ⟨rfl, fun t => ?_⟩⟩
  simp [TasThread.view, TasThread.base]

/-- A thread in a call of trylock can go on. -/
theorem TasState.exists_runStep (ht : TasPc.trying (s.thread t).pc ≠ none) :
    ∃ s', s.runStep t = some s' := by
  unfold TasState.runStep
  cases hpc : (s.thread t).pc with
  | tryRead l | trySwap l =>
    simp only
    split <;> exact ⟨_, rfl⟩
  | out | testRead l tries | testSwap l tries | enterHtm l tries | waitRead l | waitSwap l =>
    simp [hpc, TasPc.trying] at ht

/-- The trylock of `tas` and of `tas_tm` is truthful in every run. -/
theorem tas_trylockRep (cfg : TmParams) (tm : Bool) :
    TrylockRep (tasView Tid Lid cfg tm) System.Free 1
      fun s t => TasThread.view (s.thread t) where
  init s hs t l := by
    obtain rfl : s = ⟨fun _ => 0, fun _ => {}⟩ := hs
    exact ⟨Finset.notMem_empty l, Finset.notMem_empty l⟩
  exclusive tr s h t u l := ((tas_inv h).word l).unique
  told tr s h t l := id
  enabled tr s h t ht := TasState.exists_runStep ht
  frame tr s h a s' hs u hu := congrArg TasThread.view ((tas_inv h).frame hs hu)
  step tr s h a s' _ hs := ((tas_inv h).wordStep hs).step.mono fun hk => .of_step hs hk rfl

end Step

end TxLock.Spec
