import TxLock.ForStd.Count
import TxLock.Native.TasPriority

/-!
# What the fields of a `tas_priority_tm` lock say

The field `val` is 1 while a thread has the lock outside a transaction, `ready` is the
number of threads that count themselves in it. A thread may get the lock past the
waiting ones by a snapshot in which `ready` is 0; a snapshot that is older than the
first waiter serves it once.

## Key results

- `PrioState.effect_of_step`: what a step does to the words, the holders and the waiters
- `PrioInv.step`: the fields say who holds the locks and how many wait
- `tas_priority_law`: the fields are right and the waiters are passed once by each thread
-/

namespace TxLock.Spec

open Native

variable {Tid Lid : Type}

/-! ## The fields of the word -/

namespace TasAll

variable (w : BitVec 64) (v : Word) (r c : BitVec 16)

@[simp] theorem val_pack : TasAll.val (TasAll.pack v r c) = v := by
  unfold TasAll.val TasAll.pack
  ext i hi
  have h48 : i < 48 := by omega
  have h64 : i < 64 := by omega
  simp [hi, h48, h64]

@[simp] theorem ready_pack : TasAll.ready (TasAll.pack v r c) = r := by
  unfold TasAll.ready TasAll.pack
  ext i hi
  have h48 : 32 + i < 48 := by omega
  have h64 : 32 + i < 64 := by omega
  simp [hi, h48, h64]

@[simp] theorem cnt_pack : TasAll.cnt (TasAll.pack v r c) = c := by
  unfold TasAll.cnt TasAll.pack
  ext i hi
  have h64 : 48 + i < 64 := by omega
  have hready : 48 + i - 32 = 16 + i := by omega
  have hval : v.getLsbD (48 + i) = false := BitVec.getLsbD_of_ge v _ (by omega)
  simp [hi, h64, hready, hval]

@[simp] theorem val_setVal : TasAll.val (TasAll.setVal w v) = v := val_pack _ _ _

@[simp] theorem ready_setVal : TasAll.ready (TasAll.setVal w v) = TasAll.ready w := ready_pack _ _ _

@[simp] theorem cnt_setVal : TasAll.cnt (TasAll.setVal w v) = TasAll.cnt w := cnt_pack _ _ _

@[simp] theorem val_addReady : TasAll.val (TasAll.addReady w r) = TasAll.val w := val_pack _ _ _

@[simp] theorem ready_addReady : TasAll.ready (TasAll.addReady w r) = TasAll.ready w + r :=
  ready_pack _ _ _

@[simp] theorem cnt_addReady : TasAll.cnt (TasAll.addReady w r) = TasAll.cnt w := cnt_pack _ _ _

end TasAll

/-! ## Holders and waiters -/

namespace PrioThread

variable (th : PrioThread Lid) (l : Lid)

/-- The locks the thread had when its transaction began, or has now. -/
def base : Finset Lid :=
  match th.spec with
  | some sv => sv.locked
  | none => th.locked

/-- The thread has the lock outside a transaction. -/
def Holds : Prop := l ∈ base th ∨ th.pc = .decReady l

/-- The thread has counted itself in `ready` and not taken the lock yet. -/
def Waits : Prop := th.pc = .waitRead l ∨ th.pc = .waitSwap l

/-- The thread is between its increment of `ready` and its decrement. -/
def Counted : Prop := Waits th l ∨ th.pc = .decReady l

/-- The thread may get the lock by a snapshot in which `ready` is 0. -/
def Passes : Prop :=
  (∃ copy, th.pc = .fastRead l copy ∨ th.pc = .fastSwap l copy) ∨ th.pc = .tryRead l ∨
    th.pc = .trySwap l

variable [DecidableEq Lid]

instance : Decidable (Holds th l) := by unfold Holds; infer_instance

instance : Decidable (Counted th l) := by unfold Counted Waits; infer_instance

end PrioThread

/-- What a step of thread `t` does, which leaves the thread as `th` and the words as `all`. -/
inductive PrioEffect [DecidableEq Lid] (s : PrioState Tid Lid) (t : Tid) (th : PrioThread Lid) :
    (Lid → BitVec 64) → Prop where
  | quiet (hh : ∀ k, PrioThread.Holds th k ↔ PrioThread.Holds (s.thread t) k)
      (hc : ∀ k, PrioThread.Counted th k ↔ PrioThread.Counted (s.thread t) k) :
    PrioEffect s t th s.all
  /-- A test-and-set finds the lock taken. -/
  | fails {l : Lid} (hv : TasAll.val (s.all l) ≠ 0)
      (hh : ∀ k, PrioThread.Holds th k ↔ PrioThread.Holds (s.thread t) k)
      (hc : ∀ k, PrioThread.Counted th k ↔ PrioThread.Counted (s.thread t) k) :
    PrioEffect s t th (Function.update s.all l (TasAll.setVal (s.all l) 1))
  /-- A test-and-set takes the lock. -/
  | takes {l : Lid} (hv : TasAll.val (s.all l) = 0)
      (hh : ∀ k, PrioThread.Holds th k ↔ PrioThread.Holds (s.thread t) k ∨ k = l)
      (hc : ∀ k, PrioThread.Counted th k ↔ PrioThread.Counted (s.thread t) k) :
    PrioEffect s t th (Function.update s.all l (TasAll.setVal (s.all l) 1))
  | releases {l : Lid} (hl : PrioThread.Holds (s.thread t) l)
      (hh : ∀ k, PrioThread.Holds th k ↔ PrioThread.Holds (s.thread t) k ∧ k ≠ l)
      (hc : ∀ k, PrioThread.Counted th k ↔ PrioThread.Counted (s.thread t) k) :
    PrioEffect s t th (Function.update s.all l (TasAll.setVal (s.all l) 0))
  | counts {l : Lid} (hl : ¬ PrioThread.Counted (s.thread t) l)
      (hh : ∀ k, PrioThread.Holds th k ↔ PrioThread.Holds (s.thread t) k)
      (hc : ∀ k, PrioThread.Counted th k ↔ PrioThread.Counted (s.thread t) k ∨ k = l) :
    PrioEffect s t th (Function.update s.all l (TasAll.addReady (s.all l) 1))
  | leaves {l : Lid} (hl : PrioThread.Counted (s.thread t) l)
      (hh : ∀ k, PrioThread.Holds th k ↔ PrioThread.Holds (s.thread t) k)
      (hc : ∀ k, PrioThread.Counted th k ↔ PrioThread.Counted (s.thread t) k ∧ k ≠ l) :
    PrioEffect s t th (Function.update s.all l (TasAll.addReady (s.all l) (-1)))

/-- A thread in a transaction is not in the code of the lock. -/
def SpecOut (s : PrioState Tid Lid) : Prop := ∀ t, (s.thread t).spec ≠ none → (s.thread t).pc = .out

section Step

variable [DecidableEq Tid] [DecidableEq Lid] {cfg : TmParams} {s s' : PrioState Tid Lid}

/-- The next step of a thread that is not in a transaction. -/
theorem PrioState.effect_of_runStep {t : Tid} (hspec : SpecOut s) (hs : s.runStep cfg t = some s') :
    ∃ th, s'.thread = Function.update s.thread t th ∧ th.spec = none ∧
      PrioEffect s t th s'.all := by
  have hnone : (s.thread t).pc ≠ .out → (s.thread t).spec = none := by
    intro hpc
    by_contra h
    exact hpc (hspec t h)
  -- what follows the fast path has not counted itself
  have hafter : ∀ (l k : Lid) (copy : BitVec 64), PrioPc.afterFast cfg l copy ≠ .decReady k ∧
      PrioPc.afterFast cfg l copy ≠ .waitRead k ∧ PrioPc.afterFast cfg l copy ≠ .waitSwap k := by
    intro l k copy
    unfold PrioPc.afterFast
    split <;> simp
  cases hpc : (s.thread t).pc with
  | out | enterHtm l => simp [PrioState.runStep, hpc] at hs
  -- the reads change no word, and nothing that the thread has
  | readAll l | fastRead l copy | tryAll l | tryRead l =>
    have hsp := hnone (by simp [hpc])
    simp only [PrioState.runStep, hpc] at hs
    split at hs <;> simp only [Option.some.injEq] at hs <;> subst hs <;>
      refine ⟨_, rfl, hsp, .quiet (fun k => ?_) fun k => ?_⟩ <;>
      simp [PrioThread.Holds, PrioThread.base, PrioThread.Counted, PrioThread.Waits, hpc, hsp, hafter]
  | waitRead l =>
    have hsp := hnone (by simp [hpc])
    simp only [PrioState.runStep, hpc] at hs
    split at hs <;> simp only [Option.some.injEq] at hs <;> subst hs
    · exact ⟨_, (Function.update_eq_self t _).symm, hsp, .quiet (fun _ => Iff.rfl) fun _ => Iff.rfl⟩
    · refine ⟨_, rfl, hsp, .quiet (fun k => ?_) fun k => ?_⟩ <;>
        simp [PrioThread.Holds, PrioThread.base, PrioThread.Counted, PrioThread.Waits, hpc, hsp]
  | fastSwap l copy | trySwap l =>
    have hsp := hnone (by simp [hpc])
    simp only [PrioState.runStep, hpc] at hs
    split at hs <;> rename_i hval <;> simp only [Option.some.injEq] at hs <;> subst hs
    · refine ⟨_, rfl, hsp, .fails hval (fun k => ?_) fun k => ?_⟩ <;>
        simp [PrioThread.Holds, PrioThread.base, PrioThread.Counted, PrioThread.Waits, hpc, hsp,
          PrioState.swapVal, PrioState.setAll, hafter]
    · refine ⟨_, rfl, hsp, .takes (not_not.mp hval) (fun k => ?_) fun k => ?_⟩ <;>
        simp [PrioThread.Holds, PrioThread.base, PrioThread.Counted, PrioThread.Waits, hpc, hsp,
          PrioState.swapVal, PrioState.setAll, or_comm]
  -- a waiter that gets the lock is still counted until `decReady`
  | waitSwap l =>
    have hsp := hnone (by simp [hpc])
    simp only [PrioState.runStep, hpc] at hs
    split at hs <;> rename_i hval <;> simp only [Option.some.injEq] at hs <;> subst hs
    · refine ⟨_, rfl, hsp, .fails hval (fun k => ?_) fun k => ?_⟩ <;>
        simp [PrioThread.Holds, PrioThread.base, PrioThread.Counted, PrioThread.Waits, hpc, hsp,
          PrioState.swapVal, PrioState.setAll]
    · refine ⟨_, rfl, hsp, .takes (not_not.mp hval) (fun k => ?_) fun k => ?_⟩ <;>
        simp [PrioThread.Holds, PrioThread.base, PrioThread.Counted, PrioThread.Waits, hpc, hsp,
          PrioState.swapVal, PrioState.setAll, eq_comm]
  | incReady l =>
    have hsp := hnone (by simp [hpc])
    simp only [PrioState.runStep, hpc, Option.some.injEq] at hs
    subst hs
    refine ⟨_, rfl, hsp, .counts ?_ (fun k => ?_) fun k => ?_⟩ <;>
      simp [PrioThread.Holds, PrioThread.base, PrioThread.Counted, PrioThread.Waits, hpc, hsp,
        PrioState.setAll, eq_comm]
  | decReady l =>
    have hsp := hnone (by simp [hpc])
    simp only [PrioState.runStep, hpc, Option.some.injEq] at hs
    subst hs
    refine ⟨_, rfl, hsp, .leaves ?_ (fun k => ?_) fun k => ?_⟩ <;>
      simp [PrioThread.Holds, PrioThread.base, PrioThread.Counted, PrioThread.Waits, hpc, hsp,
        PrioState.setAll, eq_comm, or_comm]

/-- What a step does, and that a thread in a transaction stays out of the code of the lock. -/
theorem PrioState.effect_of_step {a : PrioAct Tid Lid} (hspec : SpecOut s)
    (hs : s.step cfg a = some s') :
    ∃ t th, s'.thread = Function.update s.thread t th ∧ (th.spec ≠ none → th.pc = .out) ∧
      PrioEffect s t th s'.all := by
  -- a lock taken in a transaction is no lock that the thread holds
  have hgets : ∀ (t : Tid) (l : Lid), (s.thread t).pc = .out → (s.thread t).spec.isSome → ∀ k,
      (PrioThread.Holds { s.thread t with pc := .out, locked := insert l (s.thread t).locked } k ↔
        PrioThread.Holds (s.thread t) k) ∧
      (PrioThread.Counted { s.thread t with pc := .out, locked := insert l (s.thread t).locked } k ↔
        PrioThread.Counted (s.thread t) k) := by
    intro t l hpc hsp k
    obtain ⟨sv, hsv⟩ := Option.isSome_iff_exists.mp hsp
    simp [PrioThread.Holds, PrioThread.base, PrioThread.Counted, PrioThread.Waits, hpc, hsv]
  cases a with
  | lock t l | trylock t l =>
    simp only [PrioState.step] at hs
    split at hs
    · simp at hs
    rename_i hpc
    have hpc := not_not.mp hpc
    split at hs <;> rename_i hsp <;> simp only [Option.some.injEq] at hs <;> subst hs
    · exact ⟨t, _, rfl, fun _ => rfl, .quiet (fun k => (hgets t l hpc hsp k).1)
        fun k => (hgets t l hpc hsp k).2⟩
    · refine ⟨t, _, rfl, fun h => absurd (by simpa using hsp) h, .quiet (fun k => ?_) fun k => ?_⟩ <;>
        simp [PrioThread.Holds, PrioThread.base, PrioThread.Counted, PrioThread.Waits, hpc]
  | unlock t l =>
    simp only [PrioState.step] at hs
    split at hs
    · simp at hs
    rename_i hcall
    obtain ⟨hpc, hl⟩ := not_or.mp hcall
    have hpc := not_not.mp hpc
    have hl := not_not.mp hl
    split at hs <;> rename_i hsp <;> simp only [Option.some.injEq] at hs <;> subst hs
    · obtain ⟨sv, hsv⟩ := Option.isSome_iff_exists.mp hsp
      refine ⟨t, _, rfl, fun _ => hpc, .quiet (fun k => ?_) fun k => ?_⟩ <;>
        simp [PrioThread.Holds, PrioThread.base, PrioThread.Counted, PrioThread.Waits, hpc, hsv]
    · have hsv : (s.thread t).spec = none := by simpa using hsp
      refine ⟨t, _, rfl, fun h => absurd hsv h, .releases (.inl ?_) (fun k => ?_) fun k => ?_⟩
      · simpa [PrioThread.base, hsv] using hl
      · simp [PrioThread.Holds, PrioThread.base, hpc, hsv, and_comm]
      · simp [PrioThread.Counted, PrioThread.Waits, hpc]
  | run t =>
    obtain ⟨th, hth, hsp, heff⟩ := PrioState.effect_of_runStep hspec hs
    exact ⟨t, th, hth, fun h => absurd hsp h, heff⟩
  | htmStart t =>
    simp only [PrioState.step] at hs
    split at hs <;> rename_i hpc <;> simp only [Option.some.injEq, reduceCtorEq] at hs
    subst hs
    have hsp : (s.thread t).spec = none := by
      by_contra h
      simp [hspec t h] at hpc
    refine ⟨t, _, rfl, fun _ => rfl, .quiet (fun k => ?_) fun k => ?_⟩ <;>
      simp [PrioThread.Holds, PrioThread.base, PrioThread.Counted, PrioThread.Waits, hpc, hsp]
  -- an abort gives back the locks of the transaction, which were never held
  | htmAbort t =>
    simp only [PrioState.step] at hs
    split at hs <;> rename_i hsv
    · simp only [Option.some.injEq] at hs
      subst hs
      have hpc := hspec t (by simp [hsv])
      refine ⟨t, _, rfl, by simp, .quiet (fun k => ?_) fun k => ?_⟩ <;>
        simp [PrioThread.Holds, PrioThread.base, PrioThread.Counted, PrioThread.Waits, hpc, hsv]
    · split at hs <;> rename_i hpc <;> simp only [Option.some.injEq, reduceCtorEq] at hs
      subst hs
      refine ⟨t, _, rfl, fun h => absurd hsv h, .quiet (fun k => ?_) fun k => ?_⟩ <;>
        simp [PrioThread.Holds, PrioThread.base, PrioThread.Counted, PrioThread.Waits, hpc, hsv]

theorem SpecOut.step {a : PrioAct Tid Lid} (hspec : SpecOut s) (hs : s.step cfg a = some s') :
    SpecOut s' := by
  obtain ⟨t, th, hth, hout, -⟩ := PrioState.effect_of_step hspec hs
  intro u hu
  rw [hth] at hu ⊢
  by_cases hut : u = t
  · subst hut
    rw [Function.update_self] at hu ⊢
    exact hout hu
  · rw [Function.update_of_ne hut] at hu ⊢
    exact hspec u hu

end Step

/-! ## What the fields say -/

/-- The threads between their increment of `ready` and their decrement. -/
def PrioState.counted [Fintype Tid] [DecidableEq Lid] (s : PrioState Tid Lid) (l : Lid) :
    Finset Tid :=
  Finset.univ.filter fun t => PrioThread.Counted (s.thread t) l

/-- `val` tells whether some thread has the lock, `ready` how many wait. -/
structure FieldsOk [Fintype Tid] [DecidableEq Lid] (s : PrioState Tid Lid) (l : Lid) : Prop where
  held : TasAll.val (s.all l) = 0 ∧ (∀ t, ¬ PrioThread.Holds (s.thread t) l) ∨
    TasAll.val (s.all l) = 1 ∧ ∃! t, PrioThread.Holds (s.thread t) l
  ready : TasAll.ready (s.all l) = BitVec.ofNat 16 (PrioState.counted s l).card
  cnt : TasAll.cnt (s.all l) = 0

section Inv

variable [DecidableEq Tid] [Fintype Tid] [DecidableEq Lid] {s s' : PrioState Tid Lid} {t : Tid}
  {th : PrioThread Lid} {l : Lid}

omit [Fintype Tid] [DecidableEq Lid] in
/-- The holders of a lock after a step that changes thread `t`. -/
theorem holds_update (hth : s'.thread = Function.update s.thread t th) (u : Tid) :
    PrioThread.Holds (s'.thread u) l ↔
      if u = t then PrioThread.Holds th l else PrioThread.Holds (s.thread u) l := by
  rw [hth]
  by_cases hut : u = t
  · subst hut
    simp
  · simp [hut]

theorem counted_congr (hth : s'.thread = Function.update s.thread t th)
    (hc : PrioThread.Counted th l ↔ PrioThread.Counted (s.thread t) l) :
    PrioState.counted s' l = PrioState.counted s l := by
  refine Finset.filter_congr fun u _ => ?_
  rw [hth]
  by_cases hut : u = t
  · subst hut
    rwa [Function.update_self]
  · rw [Function.update_of_ne hut]

/-- A thread that counts itself is one more. -/
theorem card_counted_insert (hth : s'.thread = Function.update s.thread t th)
    (hl : ¬ PrioThread.Counted (s.thread t) l) (hc : PrioThread.Counted th l) :
    (PrioState.counted s' l).card = (PrioState.counted s l).card + 1 := by
  refine card_filter_succ (a := t) ?_ hl fun u hu => ?_
  · rwa [hth, Function.update_self]
  · rw [hth, Function.update_of_ne hu]

/-- A step that does not change who has the lock. -/
theorem FieldsOk.held_congr (h : FieldsOk s l) (hth : s'.thread = Function.update s.thread t th)
    (hh : PrioThread.Holds th l ↔ PrioThread.Holds (s.thread t) l)
    (hval : TasAll.val (s'.all l) = TasAll.val (s.all l)) :
    TasAll.val (s'.all l) = 0 ∧ (∀ u, ¬ PrioThread.Holds (s'.thread u) l) ∨
      TasAll.val (s'.all l) = 1 ∧ ∃! u, PrioThread.Holds (s'.thread u) l := by
  have hsame : ∀ u, PrioThread.Holds (s'.thread u) l ↔ PrioThread.Holds (s.thread u) l := by
    intro u
    rw [holds_update hth]
    by_cases hut : u = t
    · subst hut
      rw [if_pos rfl]
      exact hh
    · rw [if_neg hut]
  simp only [hsame, hval]
  exact h.held

/-- A step that does not concern the lock. -/
theorem FieldsOk.congr (h : FieldsOk s l) (hth : s'.thread = Function.update s.thread t th)
    (hall : s'.all l = s.all l) (hh : PrioThread.Holds th l ↔ PrioThread.Holds (s.thread t) l)
    (hc : PrioThread.Counted th l ↔ PrioThread.Counted (s.thread t) l) : FieldsOk s' l where
  held := h.held_congr hth hh (by rw [hall])
  ready := by
    rw [hall, counted_congr hth hc]
    exact h.ready
  cnt := by
    rw [hall]
    exact h.cnt

/-- Every step keeps the fields right. -/
theorem FieldsOk.step (h : ∀ k, FieldsOk s k) (hth : s'.thread = Function.update s.thread t th)
    (heff : PrioEffect s t th s'.all) (k : Lid) : FieldsOk s' k := by
  generalize hall : s'.all = all at heff
  have hk := h k
  have hother : ∀ {l : Lid} {w : BitVec 64}, all = Function.update s.all l w → k ≠ l →
      s'.all k = s.all k := by
    intro l w hw hkl
    rw [hall, hw, Function.update_of_ne hkl]
  cases heff with
  | quiet hh hc => exact hk.congr hth (by rw [hall]) (hh k) (hc k)
  | @fails l hv hh hc =>
    by_cases hkl : k = l
    · subst hkl
      have hone : TasAll.val (s.all k) = 1 := by
        rcases hk.held with ⟨hz, -⟩ | ⟨hone, -⟩
        · exact absurd hz hv
        · exact hone
      refine ⟨hk.held_congr hth (hh k) (by simp [hall, hone]), ?_, by simp [hall, hk.cnt]⟩
      rw [counted_congr hth (hc k)]
      simp [hall, hk.ready]
    · exact hk.congr hth (hother rfl hkl) (hh k) (hc k)
  | @takes l hv hh hc =>
    by_cases hkl : k = l
    · subst hkl
      have hfree : ∀ u, ¬ PrioThread.Holds (s.thread u) k := by
        rcases hk.held with ⟨-, hfree⟩ | ⟨hone, -⟩
        · exact hfree
        · rw [hv] at hone
          simp at hone
      refine ⟨.inr ⟨by simp [hall], t, ?_, fun u hu => ?_⟩, ?_, by simp [hall, hk.cnt]⟩
      · show PrioThread.Holds (s'.thread t) k
        rw [holds_update hth, if_pos rfl]
        exact (hh k).mpr (.inr rfl)
      · by_contra hut
        simp only [holds_update hth, if_neg hut] at hu
        exact hfree u hu
      · rw [counted_congr hth (hc k)]
        simp [hall, hk.ready]
    · exact hk.congr hth (hother rfl hkl) ((hh k).trans (or_iff_left hkl)) (hc k)
  | @releases l hl hh hc =>
    by_cases hkl : k = l
    · subst hkl
      have honly : ∀ u, PrioThread.Holds (s.thread u) k → u = t := by
        rcases hk.held with ⟨-, hfree⟩ | ⟨-, v, -, huniq⟩
        · exact absurd hl (hfree t)
        · intro u hu
          rw [huniq u hu, huniq t hl]
      refine ⟨.inl ⟨by simp [hall], fun u hu => ?_⟩, ?_, by simp [hall, hk.cnt]⟩
      · rw [holds_update hth] at hu
        by_cases hut : u = t
        · rw [if_pos hut] at hu
          exact ((hh k).mp hu).2 rfl
        · rw [if_neg hut] at hu
          exact hut (honly u hu)
      · rw [counted_congr hth (hc k)]
        simp [hall, hk.ready]
    · exact hk.congr hth (hother rfl hkl) ((hh k).trans (and_iff_left hkl)) (hc k)
  | @counts l hl hh hc =>
    by_cases hkl : k = l
    · subst hkl
      refine ⟨hk.held_congr hth (hh k) (by simp [hall]), ?_, by simp [hall, hk.cnt]⟩
      rw [card_counted_insert hth hl ((hc k).mpr (.inr rfl)), BitVec.ofNat_add]
      simp [hall, hk.ready]
    · exact hk.congr hth (hother rfl hkl) (hh k) ((hc k).trans (or_iff_left hkl))
  | @leaves l hl hh hc =>
    by_cases hkl : k = l
    · subst hkl
      refine ⟨hk.held_congr hth (hh k) (by simp [hall]), ?_, by simp [hall, hk.cnt]⟩
      -- seen backwards, the thread counts itself again
      have hback : s.thread = Function.update s'.thread t (s.thread t) := by
        rw [hth, Function.update_idem, Function.update_eq_self]
      have hno : ¬ PrioThread.Counted (s'.thread t) k := by
        rw [hth, Function.update_self]
        exact fun hcount => ((hc k).mp hcount).2 rfl
      have hcard := card_counted_insert hback hno hl
      have hready : TasAll.ready (s'.all k) = TasAll.ready (s.all k) + -1 := by simp [hall]
      rw [hready, hk.ready, hcard, BitVec.ofNat_add, BitVec.add_assoc, BitVec.add_neg_eq_sub]
      simp
    · exact hk.congr hth (hother rfl hkl) (hh k) ((hc k).trans (and_iff_left hkl))

end Inv

/-! ## How often the waiters are passed -/

/-- The thread that takes lock `l` by a test-and-set after a snapshot in which `ready` is 0. -/
def PrioState.passed [DecidableEq Lid] (l : Lid) (s : PrioState Tid Lid) :
    PrioAct Tid Lid → List Tid
  | .run t =>
    match (s.thread t).pc with
    | .fastSwap k _ | .trySwap k => if k = l ∧ TasAll.val (s.all l) = 0 then [t] else []
    | .out | .readAll _ | .fastRead _ _ | .enterHtm _ | .incReady _ | .waitRead _ | .waitSwap _
    | .decReady _ | .tryAll _ | .tryRead _ => []
  | _ => []

section Passes

variable [DecidableEq Tid] [DecidableEq Lid] {cfg : TmParams} {s s' : PrioState Tid Lid} {l : Lid}

instance (th : PrioThread Lid) (l : Lid) : Decidable (PrioThread.Passes th l) :=
  match h : th.pc with
  | .fastRead k copy | .fastSwap k copy =>
    decidable_of_iff (k = l) (by simp [PrioThread.Passes, h])
  | .tryRead k | .trySwap k => decidable_of_iff (k = l) (by simp [PrioThread.Passes, h])
  | .out | .readAll _ | .enterHtm _ | .incReady _ | .waitRead _ | .waitSwap _ | .decReady _
  | .tryAll _ => isFalse (by simp [PrioThread.Passes, h])

/-- How often a thread may still take the lock by a snapshot it has. -/
def PrioThread.chances (th : PrioThread Lid) (l : Lid) : Nat := if PrioThread.Passes th l then 1 else 0

theorem PrioThread.chances_le_one (th : PrioThread Lid) : PrioThread.chances th l ≤ 1 := by
  unfold PrioThread.chances
  split <;> omega

theorem PrioThread.chances_eq_zero {th : PrioThread Lid} (h : ¬ PrioThread.Passes th l) :
    PrioThread.chances th l = 0 := if_neg h

omit [DecidableEq Lid] in
theorem not_passes_afterFast (cfg : TmParams) (k : Lid) (copy : BitVec 64) (th : PrioThread Lid) :
    ¬ PrioThread.Passes { th with pc := .afterFast cfg k copy } l := by
  unfold PrioPc.afterFast
  split <;> simp [PrioThread.Passes]

/-- While `ready` is not 0, no snapshot gives the thread a new chance, and taking the lock
    uses one up. -/
theorem PrioState.chances_runStep {t : Tid} (hs : s.runStep cfg t = some s')
    (hready : TasAll.ready (s.all l) ≠ 0) :
    (∀ u, u ≠ t → s'.thread u = s.thread u) ∧ (PrioState.passed l s (.run t)).count t +
      PrioThread.chances (s'.thread t) l ≤ PrioThread.chances (s.thread t) l := by
  have hgoto : ∀ (r : PrioState Tid Lid) {pc : PrioPc Lid}, r.thread = s.thread →
      (∀ u, u ≠ t → (r.goto t pc).thread u = s.thread u) ∧
        (r.goto t pc).thread t = { s.thread t with pc := pc } := by
    intro r pc hr
    simp only [PrioState.goto, PrioState.setThread, hr, Function.update_self, and_true]
    exact fun u hu => Function.update_of_ne hu _ _
  have hgets : ∀ (r : PrioState Tid Lid) {k : Lid}, r.thread = s.thread →
      (∀ u, u ≠ t → (r.gets t k).thread u = s.thread u) ∧ ((r.gets t k).thread t).pc = .out := by
    intro r k hr
    simp only [PrioState.gets, PrioState.setThread, hr, Function.update_self, and_true]
    exact fun u hu => Function.update_of_ne hu _ _
  have hout : ∀ {th : PrioThread Lid}, th.pc = .out → PrioThread.chances th l = 0 := by
    intro th hpc
    exact PrioThread.chances_eq_zero (by simp [PrioThread.Passes, hpc])
  cases hpc : (s.thread t).pc with
  | out | enterHtm k => simp [PrioState.runStep, hpc] at hs
  | readAll k | tryAll k =>
    simp only [PrioState.runStep, hpc] at hs
    simp only [PrioState.passed, hpc, List.count_nil, Nat.zero_add]
    split at hs <;> rename_i hcopy <;> simp only [Option.some.injEq] at hs <;> subst hs <;>
      refine ⟨(hgoto s rfl).1, ?_⟩ <;> rw [(hgoto s rfl).2, PrioThread.chances_eq_zero] <;>
      first
        | exact Nat.zero_le _
        | exact not_passes_afterFast _ _ _ _
        | simp [PrioThread.Passes]
    -- a snapshot taken now has a `ready` that is not 0
    all_goals
      have hkl : k ≠ l := fun hkl => hready (hkl ▸ hcopy)
      simpa using hkl
  | fastRead k copy | tryRead k =>
    simp only [PrioState.runStep, hpc] at hs
    simp only [PrioState.passed, hpc, List.count_nil, Nat.zero_add]
    split at hs <;> simp only [Option.some.injEq] at hs <;> subst hs
    · refine ⟨(hgoto s rfl).1, ?_⟩
      rw [(hgoto s rfl).2, PrioThread.chances_eq_zero]
      · exact Nat.zero_le _
      · first
          | exact not_passes_afterFast _ _ _ _
          | simp [PrioThread.Passes]
    · refine ⟨(hgoto s rfl).1, ?_⟩
      rw [(hgoto s rfl).2]
      simp [PrioThread.chances, PrioThread.Passes, hpc]
  | fastSwap k copy | trySwap k =>
    simp only [PrioState.runStep, hpc] at hs
    simp only [PrioState.passed, hpc]
    split at hs <;> rename_i hval <;> simp only [Option.some.injEq] at hs <;> subst hs
    · have htaken : ¬ (k = l ∧ TasAll.val (s.all l) = 0) := fun ⟨hkl, hz⟩ => hval (hkl ▸ hz)
      refine ⟨(hgoto (s.swapVal k) rfl).1, ?_⟩
      rw [(hgoto (s.swapVal k) rfl).2, if_neg htaken, PrioThread.chances_eq_zero]
      · exact Nat.zero_le _
      · first
          | exact not_passes_afterFast _ _ _ _
          | simp [PrioThread.Passes]
    · refine ⟨(hgets (s.swapVal k) rfl).1, ?_⟩
      rw [hout (hgets (s.swapVal k) rfl).2]
      by_cases hkl : k = l
      · have hchance : PrioThread.chances (s.thread t) l = 1 := by
          simp [PrioThread.chances, PrioThread.Passes, hpc, hkl]
        rw [hchance]
        split <;> simp
      · simp [hkl]
  | waitRead k =>
    simp only [PrioState.runStep, hpc] at hs
    simp only [PrioState.passed, hpc, List.count_nil, Nat.zero_add]
    split at hs <;> simp only [Option.some.injEq] at hs <;> subst hs
    · exact ⟨fun _ _ => rfl, Nat.le_refl _⟩
    · refine ⟨(hgoto s rfl).1, ?_⟩
      rw [(hgoto s rfl).2, PrioThread.chances_eq_zero (by simp [PrioThread.Passes])]
      exact Nat.zero_le _
  | waitSwap k =>
    simp only [PrioState.runStep, hpc] at hs
    simp only [PrioState.passed, hpc, List.count_nil, Nat.zero_add]
    split at hs <;> simp only [Option.some.injEq] at hs <;> subst hs <;>
      refine ⟨(hgoto (s.swapVal k) rfl).1, ?_⟩ <;>
      rw [(hgoto (s.swapVal k) rfl).2, PrioThread.chances_eq_zero (by simp [PrioThread.Passes])] <;>
      exact Nat.zero_le _
  | incReady k =>
    simp only [PrioState.runStep, hpc, Option.some.injEq] at hs
    subst hs
    refine ⟨(hgoto (s.setAll k _) rfl).1, ?_⟩
    rw [(hgoto (s.setAll k _) rfl).2, PrioThread.chances_eq_zero (by simp [PrioThread.Passes])]
    simp [PrioState.passed, hpc]
  | decReady k =>
    simp only [PrioState.runStep, hpc, Option.some.injEq] at hs
    subst hs
    refine ⟨(hgets (s.setAll k _) rfl).1, ?_⟩
    rw [hout (hgets (s.setAll k _) rfl).2]
    simp [PrioState.passed, hpc]

/-- The same for every step and every thread. -/
theorem PrioState.chances_step {a : PrioAct Tid Lid} (hs : s.step cfg a = some s')
    (hready : TasAll.ready (s.all l) ≠ 0) (u : Tid) :
    (PrioState.passed l s a).count u + PrioThread.chances (s'.thread u) l ≤
      PrioThread.chances (s.thread u) l := by
  -- a call, a begin or an abort of thread `t` takes no snapshot
  have hcall : ∀ (r : PrioState Tid Lid) (t : Tid) (th : PrioThread Lid), r.thread = s.thread →
      ¬ PrioThread.Passes th l → PrioThread.chances ((r.setThread t th).thread u) l ≤
        PrioThread.chances (s.thread u) l := by
    intro r t th hr hth
    simp only [PrioState.setThread, hr]
    by_cases hut : u = t
    · subst hut
      rw [Function.update_self, PrioThread.chances_eq_zero hth]
      exact Nat.zero_le _
    · rw [Function.update_of_ne hut]
  cases a with
  | run t =>
    obtain ⟨hother, hself⟩ := PrioState.chances_runStep hs hready
    by_cases hut : u = t
    · subst hut
      exact hself
    · have hno : u ∉ PrioState.passed l s (.run t) := by
        cases hpc : (s.thread t).pc with
        | fastSwap k copy | trySwap k =>
          simp only [PrioState.passed, hpc]
          split <;> simp [hut]
        | _ => simp [PrioState.passed, hpc]
      rw [List.count_eq_zero_of_not_mem hno, hother u hut, Nat.zero_add]
  | lock t k | trylock t k =>
    simp only [PrioState.passed, List.count_nil, Nat.zero_add]
    simp only [PrioState.step] at hs
    split at hs
    · simp at hs
    split at hs <;> simp only [Option.some.injEq] at hs <;> subst hs
    · exact hcall s t _ rfl (by simp [PrioThread.Passes])
    · exact hcall s t _ rfl (by simp [PrioThread.Passes])
  | unlock t k =>
    simp only [PrioState.passed, List.count_nil, Nat.zero_add]
    simp only [PrioState.step] at hs
    split at hs
    · simp at hs
    rename_i hcond
    have hpc : (s.thread t).pc = .out := not_not.mp (not_or.mp hcond).1
    split at hs <;> simp only [Option.some.injEq] at hs <;> subst hs
    · exact hcall s t _ rfl (by simp [PrioThread.Passes, hpc])
    · exact hcall s t _ rfl (by simp [PrioThread.Passes, hpc])
  | htmStart t =>
    simp only [PrioState.passed, List.count_nil, Nat.zero_add]
    simp only [PrioState.step] at hs
    split at hs <;> simp only [Option.some.injEq, reduceCtorEq] at hs
    subst hs
    exact hcall s t _ rfl (by simp [PrioThread.Passes])
  | htmAbort t =>
    simp only [PrioState.passed, List.count_nil, Nat.zero_add]
    simp only [PrioState.step] at hs
    split at hs
    · simp only [Option.some.injEq] at hs
      subst hs
      exact hcall s t _ rfl (by simp [PrioThread.Passes])
    · split at hs <;> simp only [Option.some.injEq, reduceCtorEq] at hs
      subst hs
      exact hcall s t _ rfl (by simp [PrioThread.Passes])

end Passes

/-! ## Runs -/

/-- What the fields of a lock say, for at most 32767 threads. -/
structure PriorityLaw [Fintype Tid] [DecidableEq Lid] (s : PrioState Tid Lid) (l : Lid) : Prop where
  held : TasAll.val (s.all l) = 1 ↔ ∃! t, PrioThread.Holds (s.thread t) l
  free : TasAll.val (s.all l) = 0 ↔ ∀ t, ¬ PrioThread.Holds (s.thread t) l
  ready : (TasAll.ready (s.all l)).toInt = (PrioState.counted s l).card
  cnt : TasAll.cnt (s.all l) = 0
  waited : TasAll.val (s.all l) = 0 →
    TasAll.ready (s.all l) = 0 ∨ ∃ t, PrioThread.Waits (s.thread t) l

/-- While the steps `tr` find `ready` above 0, each thread takes the lock once at most by a
    snapshot in which it is 0. -/
def PassedOnce [DecidableEq Tid] [DecidableEq Lid] (l : Lid)
    (tr : List (PrioState Tid Lid × PrioAct Tid Lid)) : Prop :=
  (∀ p ∈ tr, 0 < (TasAll.ready (p.1.all l)).toInt) →
    ∀ t, (System.events (PrioState.passed l) tr).count t ≤ 1

section Run

variable [DecidableEq Tid] [Fintype Tid] [DecidableEq Lid] {cfg : TmParams}
  {s s' : PrioState Tid Lid}

omit [DecidableEq Tid] in
theorem FieldsOk.priorityLaw {l : Lid} (h : FieldsOk s l) (hcard : Fintype.card Tid ≤ 32767) :
    PriorityLaw s l := by
  have hle : (PrioState.counted s l).card ≤ 32767 := (Finset.card_le_univ _).trans hcard
  refine ⟨?_, ?_, ?_, h.cnt, fun hfree => ?_⟩
  · rcases h.held with ⟨hz, hno⟩ | ⟨hone, hex⟩
    · rw [hz]
      exact ⟨fun h => absurd h (by decide), fun ⟨t, ht, _⟩ => absurd ht (hno t)⟩
    · exact ⟨fun _ => hex, fun _ => hone⟩
  · rcases h.held with ⟨hz, hno⟩ | ⟨hone, t, ht, -⟩
    · exact ⟨fun _ => hno, fun _ => hz⟩
    · rw [hone]
      exact ⟨fun h => absurd h (by decide), fun hno => absurd ht (hno t)⟩
  · have hnat : (TasAll.ready (s.all l)).toNat = (PrioState.counted s l).card := by
      rw [h.ready, BitVec.toNat_ofNat, Nat.mod_eq_of_lt (by omega)]
    rw [BitVec.toInt_eq_toNat_of_lt (by omega), hnat]
  · -- a thread that has taken the lock and not decremented `ready` yet has it
    have hno : ∀ t, ¬ PrioThread.Holds (s.thread t) l := by
      rcases h.held with ⟨-, hno⟩ | ⟨hone, -⟩
      · exact hno
      · rw [hfree] at hone
        exact absurd hone (by decide)
    by_cases hempty : PrioState.counted s l = ∅
    · left
      rw [h.ready, hempty]
      rfl
    · obtain ⟨t, ht⟩ := Finset.nonempty_iff_ne_empty.mpr hempty
      have hcount : PrioThread.Counted (s.thread t) l := (Finset.mem_filter.mp ht).2
      exact .inr ⟨t, hcount.resolve_right fun hdec => hno t (.inr hdec)⟩

/-- What a run keeps. -/
structure PrioInv (cfg : TmParams) (tr : List (PrioState Tid Lid × PrioAct Tid Lid))
    (s : PrioState Tid Lid) : Prop where
  spec : SpecOut s
  fields : ∀ l, FieldsOk s l
  passed : ∀ l tr₁ tr₂, tr = tr₁ ++ tr₂ → (∀ p ∈ tr₂, 0 < (TasAll.ready (p.1.all l)).toInt) →
    ∀ t, (System.events (PrioState.passed l) tr₂).count t +
      PrioThread.chances (s.thread t) l ≤ 1

theorem PrioInv.init (hs : s = ⟨fun _ => 0, fun _ => {}⟩) : PrioInv cfg [] s := by
  subst hs
  refine ⟨fun t ht => absurd rfl ht, fun l => ⟨.inl ⟨?_, fun t => ?_⟩, ?_, ?_⟩, ?_⟩
  · show TasAll.val 0 = 0
    decide
  · simp [PrioThread.Holds, PrioThread.base]
  · simp [PrioState.counted, PrioThread.Counted, PrioThread.Waits]
    decide
  · show TasAll.cnt 0 = 0
    decide
  · intro l tr₁ tr₂ htr _ t
    obtain ⟨-, rfl⟩ := List.append_eq_nil_iff.mp htr.symm
    simpa using PrioThread.chances_le_one _

theorem PrioInv.step {tr : List (PrioState Tid Lid × PrioAct Tid Lid)} {a : PrioAct Tid Lid}
    (h : PrioInv cfg tr s) (hs : s.step cfg a = some s') :
    PrioInv cfg (tr ++ [(s, a)]) s' := by
  obtain ⟨t, th, hth, -, heff⟩ := PrioState.effect_of_step h.spec hs
  refine ⟨h.spec.step hs, FieldsOk.step h.fields hth heff, fun l tr₁ tr₂ htr hready u => ?_⟩
  cases tr₂ using List.reverseRecOn with
  | nil => simpa using PrioThread.chances_le_one _
  | append_singleton tr₂ p =>
    rw [← List.append_assoc] at htr
    obtain ⟨rfl, hp⟩ := List.append_inj' htr rfl
    simp only [List.cons.injEq, and_true] at hp
    subst hp
    have hpos := hready (s, a) (by simp)
    have hne : TasAll.ready (s.all l) ≠ 0 := fun hz => by
      simp only [hz] at hpos
      exact absurd hpos (by decide)
    have hbefore := h.passed l tr₁ tr₂ rfl (fun p hp => hready p (by simp [hp])) u
    have hstep := PrioState.chances_step hs hne u
    simp only [System.events_append, System.events_singleton, List.count_append]
    omega

/-- In every state of every run of at most 32767 threads `val` says that one thread has the
    lock and `ready` how many wait, one of them before its test-and-set if the lock is free;
    and over any steps with `ready` above 0 each thread passes the waiting ones once. -/
theorem tas_priority_law (hcard : Fintype.card Tid ≤ 32767)
    (tr : List (PrioState Tid Lid × PrioAct Tid Lid)) (s : PrioState Tid Lid)
    (h : (tasPriority Tid Lid cfg).Run System.Free tr s) :
    (∀ l, PriorityLaw s l) ∧ ∀ l tr₁ tr₂, tr = tr₁ ++ tr₂ → PassedOnce l tr₂ := by
  have hinv : PrioInv cfg tr s := h.invariant_trace (I := PrioInv cfg) (fun _ hs => .init hs)
    fun _ _ _ _ _ hi _ hs => hi.step hs
  refine ⟨fun l => (hinv.fields l).priorityLaw hcard, fun l tr₁ tr₂ htr hready t => ?_⟩
  have hpassed := hinv.passed l tr₁ tr₂ htr hready t
  omega

end Run

/-- Thread 0 takes the lock, thread 1 waits for it, thread 2 has a snapshot from before. -/
theorem tas_priority_law_passed :
    ∃ tr s, (tasPriority (Fin 3) (Fin 1) {}).Run System.Free tr s ∧
      (TasAll.ready (s.all 0)).toInt = 1 ∧ PriorityLaw s 0 ∧
      (System.events (PrioState.passed 0) tr).count 2 = 1 := by
  let as : List (PrioAct (Fin 3) (Fin 1)) :=
    [.lock 0 0, .run 0, .run 0, .run 0, .lock 2 0, .run 2, .lock 1 0, .run 1, .run 1, .htmAbort 1,
      .run 1, .unlock 0 0, .run 2, .run 2]
  have hstate : ((tasPriority (Fin 3) (Fin 1) {}).exec ⟨fun _ => 0, fun _ => {}⟩ as).map
      (fun s => (TasAll.ready (s.all 0)).toInt) = some 1 := by decide
  have hevents : (System.events (PrioState.passed 0) ((tasPriority (Fin 3) (Fin 1) {}).execTrace
      ⟨fun _ => 0, fun _ => {}⟩ as)).count 2 = 1 := by decide
  obtain ⟨s, hs, hready⟩ := Option.map_eq_some_iff.mp hstate
  have hrun := (System.Run.init (M := tasPriority (Fin 3) (Fin 1) {})
    (s := ⟨fun _ => 0, fun _ => {}⟩) rfl).exec hs
  exact ⟨_, s, hrun, hready, (tas_priority_law (by decide) _ s hrun).1 0, hevents⟩

end TxLock.Spec
