import TxLock.ForStd.Refine
import TxLock.Spec.TasTrylock

/-!
# A speculating test-and-set lock is a test-and-set lock

To its callers outside transactions `tas_tm` does nothing that `tas` could not do. A thread
of `tas_tm` that speculates stands for one of `tas` that waits: it has not written the lock,
and the transaction it is in will be undone.

## Key results

- `TasState.plain_step`: every step of `tas_tm` is a step of `tas` or none
- `tas_elision`: what the callers see of a run of `tas_tm` they see of a run of `tas`
-/

namespace TxLock.Spec

open Native

variable {Tid Lid : Type}

/-- The place in `tas` that a place in `tas_tm` stands for. -/
def TasPc.plain : TasPc Lid → TasPc Lid
  | .testRead l _ | .enterHtm l _ | .waitRead l => .waitRead l
  | .testSwap l _ | .waitSwap l => .waitSwap l
  | .out => .out
  | .tryRead l => .tryRead l
  | .trySwap l => .trySwap l

/-- A thread in a transaction waits, with the locks it had at the begin. -/
def TasThread.plain (th : TasThread Lid) : TasThread Lid :=
  match th.spec with
  | some sv => { pc := .waitRead sv.lock, locked := sv.locked }
  | none => { pc := TasPc.plain th.pc, locked := th.locked }

def TasState.plain (s : TasState Tid Lid) : TasState Tid Lid where
  val := s.val
  thread t := TasThread.plain (s.thread t)

section

variable {s : TasState Tid Lid} {t : Tid} {l : Lid} {th : TasThread Lid}

theorem TasThread.plain_of_none (h : th.spec = none) :
    TasThread.plain th = { pc := TasPc.plain th.pc, locked := th.locked } := by
  simp only [TasThread.plain, h]

theorem TasState.plain_pc (h : (s.thread t).spec = none) :
    ((TasState.plain s).thread t).pc = TasPc.plain (s.thread t).pc := by
  simp only [TasState.plain, TasThread.plain_of_none h]

theorem TasPc.plain_htmFailed (cfg : TmParams) (l : Lid) (tries : Word) :
    TasPc.plain (.htmFailed cfg l tries) = .waitRead l := by
  unfold TasPc.htmFailed
  split <;> rfl

variable [DecidableEq Tid]

theorem TasState.plain_setThread :
    TasState.plain (s.setThread t th) = (TasState.plain s).setThread t (TasThread.plain th) := by
  simp only [TasState.plain, TasState.setThread, TasState.mk.injEq, true_and]
  funext u
  by_cases hu : u = t
  · simp [hu]
  · simp [hu]

/-- A step that only the transaction knows of. -/
theorem TasState.plain_setThread_eq (h : TasThread.plain th = TasThread.plain (s.thread t)) :
    TasState.plain (s.setThread t th) = TasState.plain s := by
  rw [TasState.plain_setThread, h]
  unfold TasState.setThread
  rw [show TasThread.plain (s.thread t) = (TasState.plain s).thread t from rfl,
    Function.update_eq_self]

theorem TasState.plain_goto {pc : TasPc Lid} (h : (s.thread t).spec = none) :
    TasState.plain (s.goto t pc) = (TasState.plain s).goto t (TasPc.plain pc) := by
  rw [TasState.goto, TasState.plain_setThread, TasThread.plain_of_none (by exact h)]
  simp only [TasState.goto, TasState.plain, TasThread.plain_of_none h]

theorem TasState.plain_goto_eq {pc : TasPc Lid} (h : (s.thread t).spec = none)
    (hpc : TasPc.plain pc = TasPc.plain (s.thread t).pc) :
    TasState.plain (s.goto t pc) = TasState.plain s := by
  refine TasState.plain_setThread_eq ?_
  rw [TasThread.plain_of_none h, TasThread.plain_of_none (by exact h), hpc]

variable [DecidableEq Lid]

omit [DecidableEq Tid] in
theorem TasState.plain_setVal {w : Word} :
    TasState.plain (s.setVal l w) = (TasState.plain s).setVal l w := rfl

theorem TasState.plain_gets (h : (s.thread t).spec = none) :
    TasState.plain (s.gets t l) = (TasState.plain s).gets t l := by
  rw [TasState.gets, TasState.plain_setThread, TasThread.plain_of_none (by exact h)]
  simp only [TasState.gets, TasState.plain, TasThread.plain_of_none h, TasPc.plain]

end

section Step

variable [DecidableEq Tid] [DecidableEq Lid] {cfg : TmParams} {s s' : TasState Tid Lid}
  {a : TasAct Tid Lid} {t : Tid}

/-- The next step of the code thread `t` is in. -/
theorem TasState.plain_runStep (h : TasInv true s) (hs : s.runStep t = some s') :
    (TasState.events true s (.run t) = [] ∧ TasState.plain s' = TasState.plain s) ∨
      (TasState.plain s).runStep t = some (TasState.plain s') ∧
        TasState.events false (TasState.plain s) (.run t) = TasState.events true s (.run t) := by
  have hout : (s.thread t).pc ≠ .out := by
    intro hpc
    simp [TasState.runStep, hpc] at hs
  have hspec := h.spec_none hout
  have hpc' := TasState.plain_pc hspec
  unfold TasState.runStep at hs ⊢
  unfold TasState.events
  cases hpc : (s.thread t).pc with
  | out | enterHtm l tries => simp [hpc] at hs
  | testRead l tries =>
    simp only [hpc, TasPc.plain] at hpc' hs
    simp only [hpc, hpc', and_true, true_and]
    split at hs <;> rename_i hv <;> simp only [Option.some.injEq] at hs <;> subst hs
    · -- the thread goes to speculate, and the one of `tas` reads the lock again
      exact .inl (TasState.plain_goto_eq hspec (by rw [hpc]; rfl))
    · rw [if_neg (by exact hv), TasState.plain_goto hspec]
      exact .inr rfl
  | testSwap l tries | waitSwap l | trySwap l =>
    simp only [hpc, TasPc.plain] at hpc' hs
    simp only [hpc, hpc']
    refine .inr ⟨?_, rfl⟩
    split at hs <;> rename_i hv <;> simp only [Option.some.injEq] at hs <;> subst hs
    · rw [if_pos (by exact hv), TasState.plain_goto (by exact hspec)]
      rfl
    · rw [if_neg (by exact hv), TasState.plain_gets (by exact hspec)]
      rfl
  | tryRead l =>
    simp only [hpc, TasPc.plain] at hpc' hs
    simp only [hpc, hpc']
    refine .inr ⟨?_, rfl⟩
    split at hs <;> rename_i hv <;> simp only [Option.some.injEq] at hs <;> subst hs
    · rw [if_pos (by exact hv), TasState.plain_goto hspec]
      rfl
    · rw [if_neg (by exact hv), TasState.plain_goto hspec]
      rfl
  | waitRead l =>
    simp only [hpc, TasPc.plain] at hpc' hs
    simp only [hpc, hpc', and_true]
    refine .inr ?_
    split at hs <;> rename_i hv <;> simp only [Option.some.injEq] at hs <;> subst hs
    · rw [if_pos (by exact hv)]
    · rw [if_neg (by exact hv), TasState.plain_goto hspec]
      rfl

/-- Every step of `tas_tm` is the same step of `tas`, or `tas` does nothing. -/
theorem TasState.plain_step (h : TasInv true s) (hs : s.step cfg true a = some s') :
    (TasState.events true s a = [] ∧ TasState.plain s' = TasState.plain s) ∨
      (TasState.plain s).step cfg false a = some (TasState.plain s') ∧
        TasState.events false (TasState.plain s) a = TasState.events true s a := by
  cases a with
  | run t => exact TasState.plain_runStep h hs
  | lock t l =>
    simp only [TasState.step, true_and] at hs
    split at hs
    · simp at hs
    rename_i hpc
    have hpc := not_not.mp hpc
    split at hs <;> rename_i hsp
    · -- in a transaction: its records are not those of `tas`
      obtain ⟨sv, hsv⟩ := Option.isSome_iff_exists.mp hsp
      simp only [Option.some.injEq] at hs
      subst hs
      refine .inl ⟨rfl, TasState.plain_setThread_eq ?_⟩
      simp only [TasThread.plain, hsv]
    · have hspec : (s.thread t).spec = none := by simpa using hsp
      simp only [if_true, Option.some.injEq] at hs
      subst hs
      refine .inr ⟨?_, rfl⟩
      simp [TasState.step, TasState.plain_pc hspec, hpc, TasState.plain_goto hspec, TasPc.plain]
  | trylock t l =>
    simp only [TasState.step, true_and] at hs
    simp only [TasState.events, true_and]
    split at hs
    · simp at hs
    rename_i hpc
    have hpc := not_not.mp hpc
    split at hs <;> rename_i hsp
    · obtain ⟨sv, hsv⟩ := Option.isSome_iff_exists.mp hsp
      simp only [Option.some.injEq] at hs
      subst hs
      refine .inl ⟨if_pos hsp, TasState.plain_setThread_eq ?_⟩
      simp only [TasThread.plain, hsv]
    · have hspec : (s.thread t).spec = none := by simpa using hsp
      simp only [Option.some.injEq] at hs
      subst hs
      refine .inr ⟨?_, by simp [hspec]⟩
      simp [TasState.step, TasState.plain_pc hspec, hpc, TasState.plain_goto hspec, TasPc.plain]
  | unlock t l =>
    simp only [TasState.step, true_and] at hs
    simp only [TasState.events, true_and]
    split at hs
    · simp at hs
    rename_i hcall
    obtain ⟨hpc, hl⟩ := not_or.mp hcall
    have hpc := not_not.mp hpc
    have hl := not_not.mp hl
    split at hs <;> rename_i hsp
    · obtain ⟨sv, hsv⟩ := Option.isSome_iff_exists.mp hsp
      simp only [Option.some.injEq] at hs
      subst hs
      refine .inl ⟨if_pos hsp, TasState.plain_setThread_eq ?_⟩
      simp only [TasThread.plain, hsv]
    · have hspec : (s.thread t).spec = none := by simpa using hsp
      have hth : (TasState.plain s).thread t = { pc := .out, locked := (s.thread t).locked } := by
        simp only [TasState.plain, TasThread.plain_of_none hspec, hpc, TasPc.plain]
      simp only [Option.some.injEq] at hs
      subst hs
      refine .inr ⟨?_, by simp [hspec]⟩
      simp [TasState.step, hth, hl, TasState.plain_setVal, TasState.plain_setThread,
        TasThread.plain, hspec, hpc, TasPc.plain]
  | htmStart t =>
    simp only [TasState.step] at hs
    split at hs <;> rename_i hpc <;> simp only [Option.some.injEq, reduceCtorEq] at hs
    subst hs
    have hspec := h.spec_none (t := t) (by simp [hpc])
    refine .inl ⟨rfl, TasState.plain_setThread_eq ?_⟩
    simp only [TasThread.plain, hspec, hpc, TasPc.plain]
  | htmAbort t =>
    simp only [TasState.step] at hs
    split at hs
    · rename_i sv hsv
      simp only [Option.some.injEq] at hs
      subst hs
      refine .inl ⟨rfl, TasState.plain_setThread_eq ?_⟩
      simp only [TasThread.plain, hsv, TasPc.plain_htmFailed]
    · rename_i hspec
      split at hs <;> rename_i hpc <;> simp only [Option.some.injEq, reduceCtorEq] at hs
      subst hs
      refine .inl ⟨rfl, TasState.plain_goto_eq hspec ?_⟩
      rw [TasPc.plain_htmFailed, hpc, TasPc.plain]

/-- What the callers see of a run of `tas_tm` they see of a run of `tas`, which leaves the
    lock words the same. -/
theorem tas_elision (cfg : TmParams) {tr : List (TasState Tid Lid × TasAct Tid Lid)}
    (h : (tasView Tid Lid cfg true).sys.Run System.Free tr s) :
    ∃ tr' s', (tasView Tid Lid cfg false).sys.Run System.Free tr' s' ∧
      (tasView Tid Lid cfg false).log tr' = (tasView Tid Lid cfg true).log tr ∧
      (tasView Tid Lid cfg false).words s' = (tasView Tid Lid cfg true).words s := by
  have hinit : ∀ s, (tas Tid Lid cfg true).init s →
      (tas Tid Lid cfg false).init (TasState.plain s) := by
    intro s hs
    rw [show s = _ from hs]
    rfl
  have href := h.refines (N := tas Tid Lid cfg false)
    (R := fun A s => A = TasState.plain s ∧ TasInv true s)
    (e := fun s a => (TasState.events true s a).map (TasAct.tid a, ·))
    (f := fun s a => (TasState.events false s a).map (TasAct.tid a, ·))
    (fun s hs => ⟨_, hinit s hs, rfl, tas_inv (C := System.Free) (.init hs)⟩) fun A s a s' hR _ hs => ?_
  · obtain ⟨tr', s', hrun, hlog, rfl, -⟩ := href
    exact ⟨tr', _, hrun, hlog, rfl⟩
  · obtain ⟨rfl, hinv⟩ := hR
    rcases TasState.plain_step hinv hs with ⟨hnil, heq⟩ | ⟨hstep, hsame⟩
    · exact .inl ⟨by rw [hnil]; rfl, heq.symm, hinv.step hs⟩
    · exact .inr ⟨a, _, hstep, by rw [hsame], rfl, hinv.step hs⟩

end Step

/-- Thread 0 has the lock, and thread 1 goes on without it. -/
theorem tas_elision_speculating : ∃ tr s,
    (tasView (Fin 2) Unit {} true).sys.Run System.Free tr s ∧
      (TasState.thread s 1).spec.isSome = true ∧
      ∃ tr' s', (tasView (Fin 2) Unit {} false).sys.Run System.Free tr' s' ∧
        (tasView (Fin 2) Unit {} false).log tr' = (tasView (Fin 2) Unit {} true).log tr ∧
        (tasView (Fin 2) Unit {} false).words s' = (tasView (Fin 2) Unit {} true).words s := by
  let s₀ : TasState (Fin 2) Unit := ⟨fun _ => 0, fun _ => {}⟩
  let as : List (TasAct (Fin 2) Unit) :=
    [.lock 0 (), .run 0, .run 0, .lock 1 (), .run 1, .htmStart 1]
  have hspec : ((tas (Fin 2) Unit {} true).exec s₀ as).map
      (fun s => (s.thread 1).spec.isSome) = some true := by decide
  obtain ⟨s, hs, hspec⟩ := Option.map_eq_some_iff.mp hspec
  have hrun := (System.Run.init (M := tas (Fin 2) Unit {} true) rfl).exec hs
  exact ⟨_, s, hrun, hspec, tas_elision {} hrun⟩

end TxLock.Spec
