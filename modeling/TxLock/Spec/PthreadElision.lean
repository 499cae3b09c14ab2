import TxLock.ForStd.Refine
import TxLock.Spec.PthreadTrylock

/-!
# A speculating mutex is a mutex

To its callers outside transactions `pthread_tm` does nothing that `pthread` could not do.
A thread of `pthread_tm` that speculates stands for one of `pthread` that waits in
`pthread_mutex_lock`: the trylocks it has made have not got the mutex, and the transaction
it is in will be undone.

## Key results

- `PthreadState.plain_step`: every step of `pthread_tm` is a step of `pthread` or none
- `pthread_elision`: what the callers see of a run of `pthread_tm` they see of a run of `pthread`
-/

namespace TxLock.Spec

open Native

variable {Tid Lid : Type}

/-- The place in `pthread` that a place in `pthread_tm` stands for. -/
def PthreadPc.plain : PthreadPc Lid → PthreadPc Lid
  | .testTrylock l _ | .enterHtm l _ | .mutexLock l => .mutexLock l
  | .out => .out
  | .mutexTrylock l => .mutexTrylock l
  | .mutexUnlock l => .mutexUnlock l

/-- A thread in a transaction waits, with the locks it had at the begin. -/
def PthreadThread.plain (th : PthreadThread Lid) : PthreadThread Lid :=
  match th.spec with
  | some sv => { pc := .mutexLock sv.lock, locked := sv.locked }
  | none => { pc := PthreadPc.plain th.pc, locked := th.locked }

def PthreadState.plain (s : PthreadState Tid Lid) : PthreadState Tid Lid where
  mutex := s.mutex
  thread t := PthreadThread.plain (s.thread t)

section

variable {s : PthreadState Tid Lid} {t : Tid} {l : Lid} {th : PthreadThread Lid}

theorem PthreadThread.plain_of_none (h : th.spec = none) :
    PthreadThread.plain th = { pc := PthreadPc.plain th.pc, locked := th.locked } := by
  simp only [PthreadThread.plain, h]

theorem PthreadState.plain_pc (h : (s.thread t).spec = none) :
    ((PthreadState.plain s).thread t).pc = PthreadPc.plain (s.thread t).pc := by
  simp only [PthreadState.plain, PthreadThread.plain_of_none h]

theorem PthreadPc.plain_htmFailed (cfg : TmParams) (l : Lid) (tries : Word) :
    PthreadPc.plain (.htmFailed cfg l tries) = .mutexLock l := by
  unfold PthreadPc.htmFailed
  split <;> rfl

variable [DecidableEq Tid]

theorem PthreadState.plain_setThread :
    PthreadState.plain (s.setThread t th) =
      (PthreadState.plain s).setThread t (PthreadThread.plain th) := by
  simp only [PthreadState.plain, PthreadState.setThread, PthreadState.mk.injEq, true_and]
  funext u
  by_cases hu : u = t
  · simp [hu]
  · simp [hu]

/-- A step that only the transaction knows of. -/
theorem PthreadState.plain_setThread_eq
    (h : PthreadThread.plain th = PthreadThread.plain (s.thread t)) :
    PthreadState.plain (s.setThread t th) = PthreadState.plain s := by
  rw [PthreadState.plain_setThread, h]
  unfold PthreadState.setThread
  rw [show PthreadThread.plain (s.thread t) = (PthreadState.plain s).thread t from rfl,
    Function.update_eq_self]

theorem PthreadState.plain_goto {pc : PthreadPc Lid} (h : (s.thread t).spec = none) :
    PthreadState.plain (s.goto t pc) = (PthreadState.plain s).goto t (PthreadPc.plain pc) := by
  rw [PthreadState.goto, PthreadState.plain_setThread, PthreadThread.plain_of_none (by exact h)]
  simp only [PthreadState.goto, PthreadState.plain, PthreadThread.plain_of_none h]

theorem PthreadState.plain_goto_eq {pc : PthreadPc Lid} (h : (s.thread t).spec = none)
    (hpc : PthreadPc.plain pc = PthreadPc.plain (s.thread t).pc) :
    PthreadState.plain (s.goto t pc) = PthreadState.plain s := by
  refine PthreadState.plain_setThread_eq ?_
  rw [PthreadThread.plain_of_none h, PthreadThread.plain_of_none (by exact h), hpc]

variable [DecidableEq Lid]

theorem PthreadState.plain_gets (h : (s.thread t).spec = none) :
    PthreadState.plain (s.gets t l) = (PthreadState.plain s).gets t l := by
  rw [PthreadState.gets, PthreadState.plain_setThread, PthreadThread.plain_of_none (by exact h)]
  simp only [PthreadState.gets, PthreadState.plain, PthreadThread.plain_of_none h, PthreadPc.plain]

end

section Step

variable [DecidableEq Tid] [DecidableEq Lid] {cfg : TmParams} {s s' : PthreadState Tid Lid}
  {a : PthreadAct Tid Lid} {t : Tid}

/-- The next step of the code thread `t` is in. -/
theorem PthreadState.plain_runStep (h : PthreadInv true s) (hs : s.runStep true t = some s') :
    (PthreadState.events true s (.run t) = [] ∧ PthreadState.plain s' = PthreadState.plain s) ∨
      (PthreadState.plain s).runStep false t = some (PthreadState.plain s') ∧
        PthreadState.events false (PthreadState.plain s) (.run t) =
          PthreadState.events true s (.run t) := by
  have hout : (s.thread t).pc ≠ .out := by
    intro hpc
    simp [PthreadState.runStep, hpc] at hs
  have hspec := h.spec_none hout
  have hpc' := PthreadState.plain_pc hspec
  -- what libpthread does to a mutex depends on whether it is free
  have hmutex : ∀ l, s.mutex l = {} ∨ ∃ u, s.mutex l = Mutex.owned u := by
    intro l
    by_cases hfree : s.mutex l = {}
    · exact .inl hfree
    · exact .inr ((h.word l).exists_taken hfree)
  have hplain : ∀ l, (PthreadState.plain s).mutex l = s.mutex l := fun _ => rfl
  unfold PthreadState.runStep at hs ⊢
  unfold PthreadState.events
  cases hpc : (s.thread t).pc with
  | out | enterHtm l tries => simp [hpc] at hs
  | mutexLock l =>
    simp only [hpc, PthreadPc.plain] at hpc' hs
    simp only [hpc, hpc', hplain]
    rcases hmutex l with hm | ⟨u, hm⟩
    · simp only [hm, Mutex.lock_free, true_or, if_true, Option.some.injEq] at hs ⊢
      subst hs
      exact .inr ⟨by rw [PthreadState.plain_gets (by exact hspec)]; rfl, rfl⟩
    · simp [hm, Mutex.lock_owned] at hs
  | testTrylock l tries =>
    simp only [hpc, PthreadPc.plain] at hpc' hs
    simp only [hpc, hpc', hplain]
    rcases hmutex l with hm | ⟨u, hm⟩
    · -- the mutex is free: the thread of `pthread` gets it with `pthread_mutex_lock`
      simp only [hm, Mutex.trylock_free, Mutex.lock_free, ne_eq, not_true_eq_false, if_false,
        true_or, if_true, Option.some.injEq] at hs ⊢
      subst hs
      exact .inr ⟨by rw [PthreadState.plain_gets (by exact hspec)]; rfl, rfl⟩
    · have hbusy : EBUSY ≠ 0 := by decide
      simp only [hm, Mutex.trylock_owned, setMutex_eq hm, ne_eq, hbusy, not_false_eq_true, if_true,
        Option.some.injEq, true_and] at hs ⊢
      subst hs
      exact .inl (PthreadState.plain_goto_eq hspec (by rw [hpc]; rfl))
  | mutexTrylock l =>
    simp only [hpc, PthreadPc.plain] at hpc' hs
    simp only [hpc, hpc', hplain, and_true]
    refine .inr ?_
    split at hs <;> rename_i hv <;> simp only [Option.some.injEq] at hs <;> subst hs
    · rw [if_pos hv, PthreadState.plain_gets (by exact hspec)]
      rfl
    · rw [if_neg hv, PthreadState.plain_goto (by exact hspec)]
      rfl
  | mutexUnlock l =>
    simp only [hpc, PthreadPc.plain] at hpc' hs
    simp only [hpc, hpc', hplain, and_true]
    refine .inr ?_
    split at hs <;> simp only [Option.some.injEq, reduceCtorEq] at hs
    subst hs
    rw [PthreadState.plain_goto (by exact hspec)]
    rfl

/-- Every step of `pthread_tm` is the same step of `pthread`, or `pthread` does nothing. -/
theorem PthreadState.plain_step (h : PthreadInv true s) (hs : s.step cfg true a = some s') :
    (PthreadState.events true s a = [] ∧ PthreadState.plain s' = PthreadState.plain s) ∨
      (PthreadState.plain s).step cfg false a = some (PthreadState.plain s') ∧
        PthreadState.events false (PthreadState.plain s) a = PthreadState.events true s a := by
  cases a with
  | run t => exact PthreadState.plain_runStep h hs
  | lock t l =>
    simp only [PthreadState.step, true_and] at hs
    split at hs
    · simp at hs
    rename_i hpc
    have hpc := not_not.mp hpc
    split at hs <;> rename_i hsp
    · -- in a transaction: its records are not those of `pthread`
      obtain ⟨sv, hsv⟩ := Option.isSome_iff_exists.mp hsp
      simp only [Option.some.injEq] at hs
      subst hs
      refine .inl ⟨rfl, PthreadState.plain_setThread_eq ?_⟩
      simp only [PthreadThread.plain, hsv]
    · have hspec : (s.thread t).spec = none := by simpa using hsp
      simp only [if_true, Option.some.injEq] at hs
      subst hs
      refine .inr ⟨?_, rfl⟩
      simp [PthreadState.step, PthreadState.plain_pc hspec, hpc, PthreadState.plain_goto hspec,
        PthreadPc.plain]
  | trylock t l =>
    simp only [PthreadState.step, true_and] at hs
    simp only [PthreadState.events, true_and]
    split at hs
    · simp at hs
    rename_i hpc
    have hpc := not_not.mp hpc
    split at hs <;> rename_i hsp
    · obtain ⟨sv, hsv⟩ := Option.isSome_iff_exists.mp hsp
      simp only [Option.some.injEq] at hs
      subst hs
      refine .inl ⟨if_pos hsp, PthreadState.plain_setThread_eq ?_⟩
      simp only [PthreadThread.plain, hsv]
    · have hspec : (s.thread t).spec = none := by simpa using hsp
      simp only [Option.some.injEq] at hs
      subst hs
      refine .inr ⟨?_, by simp [hspec]⟩
      simp [PthreadState.step, PthreadState.plain_pc hspec, hpc, PthreadState.plain_goto hspec,
        PthreadPc.plain]
  | unlock t l =>
    simp only [PthreadState.step, true_and] at hs
    simp only [PthreadState.events, true_and]
    split at hs
    · simp at hs
    rename_i hcall
    obtain ⟨hpc, hl⟩ := not_or.mp hcall
    have hpc := not_not.mp hpc
    have hl := not_not.mp hl
    split at hs <;> rename_i hsp
    · obtain ⟨sv, hsv⟩ := Option.isSome_iff_exists.mp hsp
      simp only [Option.some.injEq] at hs
      subst hs
      refine .inl ⟨if_pos hsp, PthreadState.plain_setThread_eq ?_⟩
      simp only [PthreadThread.plain, hsv]
    · have hspec : (s.thread t).spec = none := by simpa using hsp
      have hth : (PthreadState.plain s).thread t = { pc := .out, locked := (s.thread t).locked } := by
        simp only [PthreadState.plain, PthreadThread.plain_of_none hspec, hpc, PthreadPc.plain]
      simp only [Option.some.injEq] at hs
      subst hs
      refine .inr ⟨?_, by simp [hspec]⟩
      simp [PthreadState.step, hth, hl, PthreadState.plain_setThread,
        PthreadThread.plain, hspec, PthreadPc.plain]
  | htmStart t =>
    simp only [PthreadState.step] at hs
    split at hs <;> rename_i hpc <;> simp only [Option.some.injEq, reduceCtorEq] at hs
    subst hs
    have hspec := h.spec_none (t := t) (by simp [hpc])
    refine .inl ⟨rfl, PthreadState.plain_setThread_eq ?_⟩
    simp only [PthreadThread.plain, hspec, hpc, PthreadPc.plain]
  | htmAbort t =>
    simp only [PthreadState.step] at hs
    split at hs
    · rename_i sv hsv
      simp only [Option.some.injEq] at hs
      subst hs
      refine .inl ⟨rfl, PthreadState.plain_setThread_eq ?_⟩
      simp only [PthreadThread.plain, hsv, PthreadPc.plain_htmFailed]
    · rename_i hspec
      split at hs <;> rename_i hpc <;> simp only [Option.some.injEq, reduceCtorEq] at hs
      subst hs
      refine .inl ⟨rfl, PthreadState.plain_goto_eq hspec ?_⟩
      rw [PthreadPc.plain_htmFailed, hpc, PthreadPc.plain]

/-- What the callers see of a run of `pthread_tm` they see of a run of `pthread`, which leaves the
    mutexes the same. -/
theorem pthread_elision (cfg : TmParams) {tr : List (PthreadState Tid Lid × PthreadAct Tid Lid)}
    (h : (pthreadView Tid Lid cfg true).sys.Run System.Free tr s) :
    ∃ tr' s', (pthreadView Tid Lid cfg false).sys.Run System.Free tr' s' ∧
      (pthreadView Tid Lid cfg false).log tr' = (pthreadView Tid Lid cfg true).log tr ∧
      (pthreadView Tid Lid cfg false).words s' = (pthreadView Tid Lid cfg true).words s := by
  have hinit : ∀ s, (pthreadMutex Tid Lid cfg true).init s →
      (pthreadMutex Tid Lid cfg false).init (PthreadState.plain s) := by
    intro s hs
    rw [show s = _ from hs]
    rfl
  have href := h.refines (N := pthreadMutex Tid Lid cfg false)
    (R := fun A s => A = PthreadState.plain s ∧ PthreadInv true s)
    (e := fun s a => (PthreadState.events true s a).map (PthreadAct.tid a, ·))
    (f := fun s a => (PthreadState.events false s a).map (PthreadAct.tid a, ·))
    (fun s hs => ⟨_, hinit s hs, rfl, pthread_inv (C := System.Free) (.init hs)⟩) fun A s a s' hR _ hs => ?_
  · obtain ⟨tr', s', hrun, hlog, rfl, -⟩ := href
    exact ⟨tr', _, hrun, hlog, rfl⟩
  · obtain ⟨rfl, hinv⟩ := hR
    rcases PthreadState.plain_step hinv hs with ⟨hnil, heq⟩ | ⟨hstep, hsame⟩
    · exact .inl ⟨by rw [hnil]; rfl, heq.symm, hinv.step hs⟩
    · exact .inr ⟨a, _, hstep, by rw [hsame], rfl, hinv.step hs⟩

end Step

/-- Thread 0 has the mutex, and thread 1 goes on without it. -/
theorem pthread_elision_speculating : ∃ tr s,
    (pthreadView (Fin 2) Unit {} true).sys.Run System.Free tr s ∧
      (PthreadState.thread s 1).spec.isSome = true ∧
      ∃ tr' s', (pthreadView (Fin 2) Unit {} false).sys.Run System.Free tr' s' ∧
        (pthreadView (Fin 2) Unit {} false).log tr' = (pthreadView (Fin 2) Unit {} true).log tr ∧
        (pthreadView (Fin 2) Unit {} false).words s' =
          (pthreadView (Fin 2) Unit {} true).words s := by
  let s₀ : PthreadState (Fin 2) Unit := ⟨fun _ => {}, fun _ => {}⟩
  let as : List (PthreadAct (Fin 2) Unit) := [.lock 0 (), .run 0, .lock 1 (), .run 1, .htmStart 1]
  have hspec : ((pthreadMutex (Fin 2) Unit {} true).exec s₀ as).map
      (fun s => (s.thread 1).spec.isSome) = some true := by decide
  obtain ⟨s, hs, hspec⟩ := Option.map_eq_some_iff.mp hspec
  have hrun := (System.Run.init (M := pthreadMutex (Fin 2) Unit {} true) rfl).exec hs
  exact ⟨_, s, hrun, hspec, pthread_elision {} hrun⟩

end TxLock.Spec
