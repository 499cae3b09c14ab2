import TxLock.ForStd.TryLock
import TxLock.Spec.TasPriority

/-!
# Trylock of `tas_priority_tm`

The trylock reads the whole word first and gives up when threads wait. Only the test-and-set
after it decides who has the lock: as with the other test-and-set locks the field `val` is 1
exactly while a thread has the lock, and a swap that finds it at 1 changes no field.

## Key results

- `PrioValOk.move`: what each step is to the callers, and what it does to `val`
- `priority_trylockRep`: the trylock is truthful
-/

namespace TxLock.Spec

open Native

variable {Tid Lid : Type}

namespace TasAll

/-- The fields make up the word. -/
theorem pack_eq (w : BitVec 64) :
    TasAll.pack (TasAll.val w) (TasAll.ready w) (TasAll.cnt w) = w := by
  unfold TasAll.pack TasAll.val TasAll.ready TasAll.cnt
  ext i hi
  by_cases h32 : i < 32
  · have h48 : i < 48 := by omega
    simp [hi, h32, h48]
  · by_cases h48 : i < 48
    · have hready : i - 32 < 16 := by omega
      have hsum : 32 + (i - 32) = i := by omega
      simp [hi, h32, h48, hready, hsum]
    · have hcnt : i - 48 < 16 := by omega
      have hsum : 48 + (i - 48) = i := by omega
      have hready : ¬ i - 32 < 16 := by omega
      simp [hi, h32, h48, hcnt, hsum, hready]

theorem setVal_eq {w : BitVec 64} {v : Word} (h : TasAll.val w = v) : TasAll.setVal w v = w := by
  unfold TasAll.setVal
  rw [← h, pack_eq]

end TasAll

/-- The thread that takes a step. -/
def PrioAct.tid : PrioAct Tid Lid → Tid
  | .lock t _ | .trylock t _ | .unlock t _ | .run t | .htmStart t | .htmAbort t => t

/-- The trylock a thread is in, with the steps it takes before its last one. -/
def PrioPc.trying : PrioPc Lid → Option (Lid × Nat)
  | .tryAll l => some (l, 2)
  | .tryRead l => some (l, 1)
  | .trySwap l => some (l, 0)
  | .out | .readAll _ | .fastRead _ _ | .fastSwap _ _ | .enterHtm _ | .incReady _ | .waitRead _
  | .waitSwap _ | .decReady _ => none

theorem PrioPc.ne_decReady {pc : PrioPc Lid} {x : Lid × Nat} (h : PrioPc.trying pc = some x)
    (l : Lid) : pc ≠ .decReady l := by
  rintro rfl
  simp [PrioPc.trying] at h

def PrioThread.view (th : PrioThread Lid) : TryView Lid where
  holds l := PrioThread.Holds th l
  told l := l ∈ PrioThread.base th
  trying := PrioPc.trying th.pc
  sure := False

/-- What a step is to the callers of the lock. -/
def PrioState.events (s : PrioState Tid Lid) : PrioAct Tid Lid → List (Lid × LockEvent)
  | .trylock t l => if (s.thread t).spec.isSome then [] else [(l, .tryCall)]
  | .unlock t l => if (s.thread t).spec.isSome then [] else [(l, .unlockCall), (l, .give)]
  | .run t =>
    match (s.thread t).pc with
    | .fastSwap l _ => if TasAll.val (s.all l) ≠ 0 then [] else [(l, .take), (l, .answer 0)]
    | .waitSwap l => if TasAll.val (s.all l) ≠ 0 then [] else [(l, .take)]
    | .decReady l => [(l, .answer 0)]
    | .tryAll l => if TasAll.ready (s.all l) = 0 then [] else [(l, .answer 1)]
    | .tryRead l => if TasAll.val (s.all l) ≠ 0 then [(l, .answer 1)] else []
    | .trySwap l =>
      if TasAll.val (s.all l) ≠ 0 then [(l, .answer 1)] else [(l, .take), (l, .answer 0)]
    | .out | .readAll _ | .fastRead _ _ | .enterHtm _ | .incReady _ | .waitRead _ => []
  | .lock _ _ | .htmStart _ | .htmAbort _ => []

/-- `tas_priority_tm` as its callers see it. -/
def priorityView (Tid Lid : Type) [DecidableEq Tid] [DecidableEq Lid] (cfg : TmParams) :
    LockView Tid where
  State := PrioState Tid Lid
  Act := PrioAct Tid Lid
  Lock := Lid
  Words := BitVec 64
  Own := Unit
  sys := tasPriority Tid Lid cfg
  actor := PrioAct.tid
  run := .run
  events := PrioState.events
  words s := s.all
  own _ _ := ()

/-- The field `val` of the locks. -/
def PrioState.val (s : PrioState Tid Lid) (l : Lid) : Word := TasAll.val (s.all l)

/-- The field `val` says whether a thread has the lock. -/
structure PrioValOk (s : PrioState Tid Lid) : Prop where
  spec : SpecOut s
  word : ∀ l, WordOk 0 (fun _ => 1) (PrioState.val s l)
    fun t => (PrioThread.view (s.thread t)).holds l

section Step

variable [DecidableEq Tid] [DecidableEq Lid] {cfg : TmParams} {s s' : PrioState Tid Lid}
  {a : PrioAct Tid Lid} {t : Tid}

/-- What thread `t` is left as by its step from `s` to `s'`. -/
structure PrioMove (s s' : PrioState Tid Lid) (t : Tid) (th : PrioThread Lid)
    (es : List (Lid × LockEvent)) : Prop where
  thread : s'.thread = Function.update s.thread t th
  word : WordStep 0 (fun _ => 1) 2 (s'.all = s.all) (PrioState.val s) (PrioState.val s') t
    (PrioThread.view (s.thread t)) (PrioThread.view th) es

omit [DecidableEq Tid] [DecidableEq Lid] in
theorem PrioValOk.spec_none (h : PrioValOk s) (hpc : (s.thread t).pc ≠ .out) :
    (s.thread t).spec = none := by
  by_contra hne
  exact hpc (h.spec t hne)

omit [DecidableEq Tid] in
/-- A test-and-set that finds the lock taken changes nothing. -/
theorem PrioValOk.swapVal_eq (h : PrioValOk s) {l : Lid} (hv : TasAll.val (s.all l) ≠ 0) :
    s.swapVal l = s := by
  obtain ⟨-, hone⟩ := (h.word l).exists_taken hv
  unfold PrioState.swapVal PrioState.setAll
  rw [TasAll.setVal_eq hone, Function.update_eq_self]

omit [DecidableEq Tid] in
/-- The field `val` after a store to it, or to `ready`. -/
theorem val_setAll (l : Lid) (w : BitVec 64) :
    PrioState.val (s.setAll l w) = Function.update (PrioState.val s) l (TasAll.val w) := by
  funext k
  by_cases hk : k = l
  · subst hk
    simp [PrioState.val, PrioState.setAll]
  · simp [PrioState.val, PrioState.setAll, hk]

omit [DecidableEq Lid] in
/-- A step that only moves the thread, not in a call of trylock. -/
theorem PrioMove.goto {pc : PrioPc Lid} (hpc : PrioPc.trying (s.thread t).pc = none)
    (hpc' : PrioPc.trying pc = none)
    (hdec : ∀ l, (s.thread t).pc ≠ .decReady l ∧ pc ≠ .decReady l) :
    PrioMove s (s.goto t pc) t { s.thread t with pc := pc } [] where
  thread := rfl
  word := by
    refine .of_same (.quiet (fun k => ?_) (fun _ => Iff.rfl) hpc hpc') fun k => by simp
    simp [PrioThread.view, PrioThread.Holds, PrioThread.base, (hdec k).1, (hdec k).2]

/-- The same with a change of `ready`. -/
theorem PrioMove.addReady {pc : PrioPc Lid} {l : Lid} {d : BitVec 16}
    (hpc : PrioPc.trying (s.thread t).pc = none) (hpc' : PrioPc.trying pc = none)
    (hdec : ∀ l, (s.thread t).pc ≠ .decReady l ∧ pc ≠ .decReady l) :
    PrioMove s ((s.setAll l (TasAll.addReady (s.all l) d)).goto t pc) t
      { s.thread t with pc := pc } [] where
  thread := rfl
  word := by
    have hval : PrioState.val ((s.setAll l (TasAll.addReady (s.all l) d)).goto t pc) =
        PrioState.val s := by
      show PrioState.val (s.setAll l _) = _
      rw [val_setAll, TasAll.val_addReady]
      exact Function.update_eq_self l (PrioState.val s)
    rw [hval]
    refine .of_same (.quiet (fun k => ?_) (fun _ => Iff.rfl) hpc hpc') fun k => by simp
    simp [PrioThread.view, PrioThread.Holds, PrioThread.base, (hdec k).1, (hdec k).2]

omit [DecidableEq Lid] in
/-- A call in a transaction changes the record of the transaction only. -/
theorem PrioMove.record {th : PrioThread Lid} (hpc : (s.thread t).pc = .out)
    (hspec : (s.thread t).spec.isSome = true) (hpc' : th.pc = .out)
    (hspec' : th.spec = (s.thread t).spec) : PrioMove s (s.setThread t th) t th [] where
  thread := rfl
  word := by
    obtain ⟨sv, hsv⟩ := Option.isSome_iff_exists.mp hspec
    refine .of_same (.quiet (fun k => ?_) (fun k => ?_) ?_ ?_) fun k => by simp
    · simp [PrioThread.view, PrioThread.Holds, PrioThread.base, hspec', hsv, hpc, hpc']
    · simp [PrioThread.view, PrioThread.base, hspec', hsv]
    · simp [PrioThread.view, hpc, PrioPc.trying]
    · simp [PrioThread.view, hpc', PrioPc.trying]

/-- The thread takes the lock and returns 0. -/
theorem PrioMove.gets {l : Lid} {e : LockEvent} (hspec : (s.thread t).spec = none)
    (hdec : ∀ l, (s.thread t).pc ≠ .decReady l) (hv : TasAll.val (s.all l) = 0)
    (he : e ≠ .take ∧ e ≠ .give)
    (hstep : ∀ x', (∀ k, x'.holds k ↔ (PrioThread.view (s.thread t)).holds k ∨ k = l) →
      (∀ k, x'.told k ↔ (PrioThread.view (s.thread t)).told k ∨ k = l) → x'.trying = none →
      LockStep 2 ((s.swapVal l).all = s.all) (PrioThread.view (s.thread t)) x'
        [(l, .take), (l, e)]) :
    PrioMove s ((s.swapVal l).gets t l) t
      { s.thread t with pc := .out, locked := insert l (s.thread t).locked }
      [(l, .take), (l, e)] where
  thread := rfl
  word := by
    have hval : PrioState.val ((s.swapVal l).gets t l) =
        Function.update (PrioState.val s) l 1 := by
      show PrioState.val (s.setAll l _) = _
      rw [val_setAll, TasAll.val_setVal]
    rw [hval]
    refine .of_take (hstep _ ?_ ?_ rfl) hv fun k => by simp [Ne.symm he.1, Ne.symm he.2]
    all_goals
      intro k
      simp [PrioThread.view, PrioThread.Holds, PrioThread.base, hspec, hdec, or_comm]

omit [DecidableEq Lid] in
/-- A trylock gives up and returns 1. -/
theorem PrioMove.fails {l : Lid} {m : Nat}
    (hpc : PrioPc.trying (s.thread t).pc = some (l, m)) :
    PrioMove s (s.goto t .out) t { s.thread t with pc := .out } [(l, .answer 1)] where
  thread := rfl
  word := by
    have hdec := PrioPc.ne_decReady hpc
    refine .of_same ?_ fun k => by simp
    refine .fails (fun k => ?_) (fun _ => Iff.rfl) hpc (by decide) not_false rfl
    simp [PrioThread.view, PrioThread.Holds, PrioThread.base, hdec]

omit [DecidableEq Lid] in
/-- A trylock goes on. -/
theorem PrioMove.goesOn {pc : PrioPc Lid} {l : Lid} {m m' : Nat}
    (hpc : PrioPc.trying (s.thread t).pc = some (l, m)) (hpc' : PrioPc.trying pc = some (l, m'))
    (hm : m' < m) : PrioMove s (s.goto t pc) t { s.thread t with pc := pc } [] where
  thread := rfl
  word := by
    have hdec := PrioPc.ne_decReady hpc
    have hdec' := PrioPc.ne_decReady hpc'
    refine .of_same ?_ fun k => by simp
    refine .goesOn (fun k => ?_) (fun _ => Iff.rfl) hpc hpc' hm id (.inl rfl)
    simp [PrioThread.view, PrioThread.Holds, PrioThread.base, hdec, hdec']

omit [DecidableEq Lid] in
/-- The loop goes on without the lock. -/
theorem afterFast_plain (cfg : TmParams) (l : Lid) (copy : BitVec 64) :
    PrioPc.trying (.afterFast cfg l copy) = none ∧
      ∀ k, PrioPc.afterFast cfg l copy ≠ .decReady k := by
  unfold PrioPc.afterFast
  split
  · exact ⟨rfl, by simp⟩
  · exact ⟨rfl, by simp⟩

/-- The next step of the code thread `t` is in. -/
theorem PrioValOk.runStep (h : PrioValOk s) (hs : s.runStep cfg t = some s') :
    ∃ th, PrioMove s s' t th (PrioState.events s (.run t)) := by
  unfold PrioState.runStep at hs
  unfold PrioState.events
  cases hpc : (s.thread t).pc with
  | out | enterHtm l => simp [hpc] at hs
  | readAll l =>
    simp only [hpc] at hs ⊢
    split at hs <;> simp only [Option.some.injEq] at hs <;> subst hs
    · exact ⟨_, .goto (by rw [hpc]; rfl) rfl (by simp [hpc])⟩
    · obtain ⟨hno, hdec⟩ := afterFast_plain cfg l (s.all l)
      exact ⟨_, .goto (by rw [hpc]; rfl) hno fun k => ⟨by simp [hpc], hdec k⟩⟩
  | fastRead l copy =>
    obtain ⟨hno, hdec⟩ := afterFast_plain cfg l copy
    simp only [hpc] at hs ⊢
    split at hs <;> simp only [Option.some.injEq] at hs <;> subst hs
    · exact ⟨_, .goto (by rw [hpc]; rfl) hno fun k => ⟨by simp [hpc], hdec k⟩⟩
    · exact ⟨_, .goto (by rw [hpc]; rfl) rfl (by simp [hpc])⟩
  | fastSwap l copy =>
    obtain ⟨hno, hdec⟩ := afterFast_plain cfg l copy
    simp only [hpc] at hs ⊢
    split at hs <;> rename_i hv <;> simp only [Option.some.injEq] at hs <;> subst hs
    · rw [h.swapVal_eq hv, if_pos hv]
      exact ⟨_, .goto (by rw [hpc]; rfl) hno fun k => ⟨by simp [hpc], hdec k⟩⟩
    · rw [if_neg hv]
      exact ⟨_, .gets (h.spec_none (by simp [hpc])) (by simp [hpc]) (not_not.mp hv) (by simp)
        fun x' hh ht hx => .locks hh ht (by simp [PrioThread.view, hpc, PrioPc.trying]) hx⟩
  | incReady l =>
    simp only [hpc, Option.some.injEq] at hs ⊢
    subst hs
    exact ⟨_, .addReady (by rw [hpc]; rfl) rfl (by simp [hpc])⟩
  | waitRead l =>
    simp only [hpc] at hs ⊢
    split at hs <;> simp only [Option.some.injEq] at hs <;> subst hs
    · refine ⟨s.thread t, (Function.update_eq_self t _).symm, .of_same ?_ fun k => by simp⟩
      have hno : PrioPc.trying (s.thread t).pc = none := by rw [hpc]; rfl
      exact .quiet (fun _ => Iff.rfl) (fun _ => Iff.rfl) hno hno
    · exact ⟨_, .goto (by rw [hpc]; rfl) rfl (by simp [hpc])⟩
  | waitSwap l =>
    have hspec := h.spec_none (t := t) (by simp [hpc])
    simp only [hpc] at hs ⊢
    split at hs <;> rename_i hv <;> simp only [Option.some.injEq] at hs <;> subst hs
    · rw [h.swapVal_eq hv, if_pos hv]
      exact ⟨_, .goto (by rw [hpc]; rfl) rfl (by simp [hpc])⟩
    · rw [if_neg hv]
      -- the lock is taken here, and returned with after the step that follows
      have hval : PrioState.val ((s.swapVal l).goto t (.decReady l)) =
          Function.update (PrioState.val s) l 1 := by
        show PrioState.val (s.setAll l _) = _
        rw [val_setAll, TasAll.val_setVal]
      refine ⟨{ s.thread t with pc := .decReady l }, rfl, ?_⟩
      rw [hval]
      refine .of_take (.takes (fun k => ?_) (fun _ => Iff.rfl) ?_ rfl) (not_not.mp hv)
        fun k => by simp
      · simp [PrioThread.view, PrioThread.Holds, PrioThread.base, hpc, eq_comm]
      · simp [PrioThread.view, hpc, PrioPc.trying]
  | decReady l =>
    have hspec := h.spec_none (t := t) (by simp [hpc])
    simp only [hpc, Option.some.injEq] at hs ⊢
    subst hs
    have hval : PrioState.val ((s.setAll l (TasAll.addReady (s.all l) (-1))).gets t l) =
        PrioState.val s := by
      show PrioState.val (s.setAll l _) = _
      rw [val_setAll, TasAll.val_addReady]
      exact Function.update_eq_self l (PrioState.val s)
    refine ⟨{ s.thread t with pc := .out, locked := insert l (s.thread t).locked }, rfl, ?_⟩
    rw [hval]
    refine .of_same (.returns (fun k => ?_) (fun k => ?_) ?_ rfl) fun k => by simp
    · simp [PrioThread.view, PrioThread.Holds, PrioThread.base, hspec, hpc, or_comm, eq_comm]
    · simp [PrioThread.view, PrioThread.base, hspec, or_comm]
    · simp [PrioThread.view, hpc, PrioPc.trying]
  | tryAll l =>
    simp only [hpc] at hs ⊢
    split at hs <;> rename_i hready <;> simp only [Option.some.injEq] at hs <;> subst hs
    · rw [if_pos hready]
      exact ⟨_, .goesOn (by rw [hpc]; rfl) rfl (by decide)⟩
    · rw [if_neg hready]
      exact ⟨_, .fails (by rw [hpc]; rfl)⟩
  | tryRead l =>
    simp only [hpc] at hs ⊢
    split at hs <;> rename_i hv <;> simp only [Option.some.injEq] at hs <;> subst hs
    · rw [if_pos hv]
      exact ⟨_, .fails (by rw [hpc]; rfl)⟩
    · rw [if_neg hv]
      exact ⟨_, .goesOn (by rw [hpc]; rfl) rfl (by decide)⟩
  | trySwap l =>
    simp only [hpc] at hs ⊢
    split at hs <;> rename_i hv <;> simp only [Option.some.injEq] at hs <;> subst hs
    · rw [h.swapVal_eq hv, if_pos hv]
      exact ⟨_, .fails (by rw [hpc]; rfl)⟩
    · rw [if_neg hv]
      have hno := (h.word l).not_holds (fun _ => by decide) (not_not.mp hv) t
      exact ⟨_, .gets (h.spec_none (by simp [hpc])) (by simp [hpc]) (not_not.mp hv) (by simp)
        fun x' hh ht _ => .gets (m := 0) hh ht (by simp [PrioThread.view, hpc, PrioPc.trying]) hno⟩

/-- Every step does to `val` and to the thread what it is to the callers. -/
theorem PrioValOk.move (h : PrioValOk s) (hs : s.step cfg a = some s') :
    ∃ th, PrioMove s s' (PrioAct.tid a) th (PrioState.events s a) := by
  have hout : ∀ {t : Tid}, (s.thread t).pc = .out → PrioPc.trying (s.thread t).pc = none := by
    intro t hpc
    rw [hpc]
    rfl
  cases a with
  | lock t l =>
    simp only [PrioState.step] at hs
    split at hs
    · simp at hs
    rename_i hpc
    have hpc := not_not.mp hpc
    split at hs <;> rename_i hsp <;> simp only [Option.some.injEq] at hs <;> subst hs
    · exact ⟨_, .record hpc hsp rfl rfl⟩
    · exact ⟨_, .goto (hout hpc) rfl (by simp [hpc])⟩
  | trylock t l =>
    simp only [PrioState.step] at hs
    split at hs
    · simp at hs
    rename_i hpc
    have hpc := not_not.mp hpc
    simp only [PrioState.events]
    split at hs <;> rename_i hsp <;> simp only [Option.some.injEq] at hs <;> subst hs
    · rw [if_pos hsp]
      exact ⟨_, .record hpc hsp rfl rfl⟩
    · rw [if_neg hsp]
      refine ⟨{ s.thread t with pc := .tryAll l }, rfl, .of_same ?_ fun k => by simp⟩
      -- two reads lie before the exchange that decides the try
      refine .tries (fun k => ?_) (fun _ => Iff.rfl) (hout hpc) rfl (Nat.le_refl 2) rfl
      simp [PrioThread.view, PrioThread.Holds, PrioThread.base, PrioAct.tid, hpc]
  | unlock t l =>
    simp only [PrioState.step] at hs
    split at hs
    · simp at hs
    rename_i hcall
    obtain ⟨hpc, hl⟩ := not_or.mp hcall
    have hpc := not_not.mp hpc
    have hl := not_not.mp hl
    simp only [PrioState.events, PrioAct.tid]
    split at hs <;> rename_i hsp <;> simp only [Option.some.injEq] at hs <;> subst hs
    · rw [if_pos hsp]
      exact ⟨_, .record hpc hsp hpc rfl⟩
    · rw [if_neg hsp]
      have hspec : (s.thread t).spec = none := by simpa using hsp
      -- the release clears `val`, and leaves `ready` as it is
      have hval : ∀ th, PrioState.val ((s.setThread t th).setAll l (TasAll.setVal (s.all l) 0)) =
          Function.update (PrioState.val s) l 0 := by
        intro th
        rw [val_setAll, TasAll.val_setVal]
        rfl
      refine ⟨{ s.thread t with locked := (s.thread t).locked.erase l }, rfl, ?_⟩
      rw [hval]
      refine .of_give [(l, .unlockCall)] (.unlocks (fun k => ?_) (fun k => ?_) (hout hpc) (hout hpc))
        (.inl ?_) fun k => by simp
      · simp [PrioThread.view, PrioThread.Holds, PrioThread.base, hspec, hpc, and_comm]
      · simp [PrioThread.view, PrioThread.base, hspec, and_comm]
      · simpa [PrioThread.base, hspec] using hl
  | run t => exact h.runStep hs
  | htmStart t =>
    simp only [PrioState.step] at hs
    split at hs <;> rename_i hpc <;> simp only [Option.some.injEq, reduceCtorEq] at hs
    subst hs
    have hspec := h.spec_none (t := t) (by simp [hpc])
    simp only [PrioState.events, PrioAct.tid]
    refine ⟨_, rfl, .of_same (.quiet ?_ ?_ ?_ rfl) fun k => by simp⟩
    · exact fun k => by simp [PrioThread.view, PrioThread.Holds, PrioThread.base, hspec, hpc]
    · exact fun k => by simp [PrioThread.view, PrioThread.base, hspec]
    · simp [PrioThread.view, hpc, PrioPc.trying]
  | htmAbort t =>
    simp only [PrioState.step] at hs
    simp only [PrioState.events, PrioAct.tid]
    split at hs
    · rename_i sv hsv
      have hpc := h.spec t (by simp [hsv])
      simp only [Option.some.injEq] at hs
      subst hs
      refine ⟨_, rfl, .of_same (.quiet ?_ ?_ (hout hpc) rfl) fun k => by simp⟩
      · exact fun k => by simp [PrioThread.view, PrioThread.Holds, PrioThread.base, hsv, hpc]
      · exact fun k => by simp [PrioThread.view, PrioThread.base, hsv]
    · split at hs <;> rename_i hpc <;> simp only [Option.some.injEq, reduceCtorEq] at hs
      subst hs
      exact ⟨_, .goto (by rw [hpc]; rfl) rfl (by simp [hpc])⟩

/-- A step leaves the other threads alone. -/
theorem PrioValOk.frame (h : PrioValOk s) (hs : s.step cfg a = some s') {u : Tid}
    (hu : u ≠ PrioAct.tid a) : s'.thread u = s.thread u := by
  obtain ⟨th, hmove⟩ := h.move hs
  rw [hmove.thread, Function.update_of_ne hu]

theorem PrioValOk.wordStep (h : PrioValOk s) (hs : s.step cfg a = some s') :
    WordStep 0 (fun _ => 1) 2 (s'.all = s.all) (PrioState.val s) (PrioState.val s') (PrioAct.tid a)
      (PrioThread.view (s.thread (PrioAct.tid a))) (PrioThread.view (s'.thread (PrioAct.tid a)))
      (PrioState.events s a) := by
  obtain ⟨th, hmove⟩ := h.move hs
  rw [hmove.thread, Function.update_self]
  exact hmove.word

theorem PrioValOk.step (h : PrioValOk s) (hs : s.step cfg a = some s') : PrioValOk s' :=
  ⟨h.spec.step hs, WordOk.step _ (fun u => PrioThread.view (s'.thread u)) (fun _ => by decide) h.word
    (fun u hu => congrArg PrioThread.view (h.frame hs hu)) (h.wordStep hs)⟩

theorem priority_val {C : PrioState Tid Lid → PrioAct Tid Lid → Prop} {tr}
    {s : PrioState Tid Lid} (h : (tasPriority Tid Lid cfg).Run C tr s) : PrioValOk s := by
  refine h.invariant (fun s hs => ?_) fun s a s' hi _ hs => hi.step hs
  obtain rfl : s = _ := hs
  refine ⟨fun _ _ => rfl, fun l => .inl ⟨?_, fun t => ?_⟩⟩
  · simp [PrioState.val, TasAll.val]
  · simp [PrioThread.view, PrioThread.Holds, PrioThread.base]

/-- A thread in a call of trylock can go on. -/
theorem PrioState.exists_runStep (ht : PrioPc.trying (s.thread t).pc ≠ none) :
    ∃ s', s.runStep cfg t = some s' := by
  unfold PrioState.runStep
  cases hpc : (s.thread t).pc with
  | tryAll l | tryRead l | trySwap l =>
    simp only
    split <;> exact ⟨_, rfl⟩
  | out | readAll l | fastRead l copy | fastSwap l copy | enterHtm l | incReady l | waitRead l
  | waitSwap l | decReady l => simp [hpc, PrioPc.trying] at ht

/-- The trylock of `tas_priority_tm` is truthful in every run. -/
theorem priority_trylockRep (cfg : TmParams) :
    TrylockRep (priorityView Tid Lid cfg) System.Free 2
      fun s t => PrioThread.view (s.thread t) where
  init s hs t l := by
    obtain rfl : s = ⟨fun _ => 0, fun _ => {}⟩ := hs
    exact ⟨not_or.mpr ⟨Finset.notMem_empty l, nofun⟩, Finset.notMem_empty l⟩
  exclusive tr s h t u l := ((priority_val h).word l).unique
  told tr s h t l := .inl
  enabled tr s h t ht := PrioState.exists_runStep ht
  frame tr s h a s' hs u hu := congrArg PrioThread.view ((priority_val h).frame hs hu)
  step tr s h a s' _ hs := ((priority_val h).wordStep hs).step.mono fun hk => .of_step hs hk rfl

end Step

end TxLock.Spec
