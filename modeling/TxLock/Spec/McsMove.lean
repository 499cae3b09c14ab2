import TxLock.Spec.McsNodes

/-!
# The steps of `mcs_tm` that speculate, halt and hand over

`McsMove cfg s t s'` lists what a step of thread `t` can be: a move into or inside the
speculation of `mcs_lock_common`, the check of `now_serving`, a move into or inside the
halting walk of `mcs_unlock_common`, or another step, which leads to none of these places
and stores to no flag `speculate` of another thread.

## Key results

- `McsState.step_move`: every step is one of these
-/

namespace TxLock.Spec

open Native McsView

variable {Tid Lid : Type}

/-- The place is none of those that `McsMove` lists. -/
def McsPc.isPlain : McsPc Tid Lid → Bool
  | .htmBegin _ _ _ | .checkSpeculate _ _ _ | .checkWait _ _ _ | .speculating _ _ _
  | .writeServing _ _ _ | .haltFirst _ _ | .haltAt _ _ _ _ | .haltNext _ _ _ _
  | .readSuccessor _ _ | .clearWait _ _ _ => false
  | .out | .initLockNext _ _ _ | .initWait _ _ _ | .initSpeculate _ _ _ | .initCnt _ _ _
  | .swapTail _ _ | .casTail _ _ | .link _ _ _ | .spinWait _ _ | .spinCnt _ _ _ | .readCnt _ _ _
  | .writeCnt _ _ _ | .readServing _ _ _ | .spinWaitTm _ _ _ | .assertServing _ _ _
  | .firstRead _ _ | .firstWriteCnt _ _ _ | .firstReadAgain _ _ | .firstWrite _ _ _
  | .readNext _ _ | .clearTail _ _ | .spinNext _ _ | .dealloc _ _ => true

variable [DecidableEq Tid] [DecidableEq Lid]

/-- The halting walk is at the node `x`, at the distance `d`. -/
def McsState.halt (cfg : TmParams) (s : McsState Tid Lid) (x : Tid × Nat) (d : Word) :
    McsState Tid Lid :=
  if d ≥ cfg.minDistance then s.setNode x { s.node x with speculate := false } else s

/-- A step of thread `t` from `s`. -/
inductive McsMove (cfg : TmParams) (s : McsState Tid Lid) (t : Tid) : McsState Tid Lid → Prop where
  | window {lk : Lid} {n : Nat} {cnt : BitVec 64} (hpc : (s.thread t).pc = .readServing lk n cnt)
      (hin : inWindow cfg (s.lock lk).nowServing cnt = true) :
    McsMove cfg s t (s.goto t (.htmBegin lk n cnt))
  | start {lk : Lid} {n : Nat} {cnt : BitVec 64} (hpc : (s.thread t).pc = .htmBegin lk n cnt) :
    McsMove cfg s t (s.goto t (.checkSpeculate lk n cnt))
  | checkSpeculate {lk : Lid} {n : Nat} {cnt : BitVec 64}
      (hpc : (s.thread t).pc = .checkSpeculate lk n cnt)
      (hflag : (s.node (t, n)).speculate = true) :
    McsMove cfg s t (s.goto t (.checkWait lk n cnt))
  | checkWait {lk : Lid} {n : Nat} {cnt : BitVec 64} (hpc : (s.thread t).pc = .checkWait lk n cnt)
      (hwait : (s.node (t, n)).wait = true) :
    McsMove cfg s t
      (s.setThread t { s.thread t with pc := .speculating lk n cnt, ret := some 0 })
  /-- A call in the transaction. -/
  | inside {lk : Lid} {n : Nat} {cnt : BitVec 64} (hpc : (s.thread t).pc = .speculating lk n cnt) :
    McsMove cfg s t s
  | assert {lk : Lid} {n : Nat} {cnt : BitVec 64} (hpc : (s.thread t).pc = .assertServing lk n cnt)
      (hnow : (s.lock lk).nowServing = cnt - 1) :
    McsMove cfg s t (s.goto t (.writeServing lk n cnt))
  | halting {lk : Lid} {n : Nat}
      (hpc : (s.thread t).pc = .readNext lk n ∨ (s.thread t).pc = .spinNext lk n) :
    McsMove cfg s t (s.goto t (.haltFirst lk n))
  | haltFirst {lk : Lid} {n : Nat} (hpc : (s.thread t).pc = .haltFirst lk n) :
    McsMove cfg s t (s.goto t (.haltAt lk n (s.node (t, n)).lockNext 1))
  | haltEnd {lk : Lid} {n : Nat} {d : Word} (hpc : (s.thread t).pc = .haltAt lk n none d) :
    McsMove cfg s t (s.goto t (.readSuccessor lk n))
  | haltAt {lk : Lid} {n : Nat} {x : Tid × Nat} {d : Word}
      (hpc : (s.thread t).pc = .haltAt lk n (some x) d) (hd : ¬ d > cfg.maxDistance) :
    McsMove cfg s t ((McsState.halt cfg s x d).goto t (.haltNext lk n x d))
  | haltBreak {lk : Lid} {n : Nat} {x : Tid × Nat} {d : Word}
      (hpc : (s.thread t).pc = .haltAt lk n (some x) d) (hd : d > cfg.maxDistance) :
    McsMove cfg s t ((McsState.halt cfg s x d).goto t (.readSuccessor lk n))
  | haltNext {lk : Lid} {n : Nat} {x : Tid × Nat} {d : Word}
      (hpc : (s.thread t).pc = .haltNext lk n x d) :
    McsMove cfg s t (s.goto t (.haltAt lk n (s.node x).lockNext (d + 1)))
  | successor {lk : Lid} {n : Nat} {m : Tid × Nat} (hpc : (s.thread t).pc = .readSuccessor lk n)
      (hnext : (s.node (t, n)).lockNext = some m) :
    McsMove cfg s t (s.goto t (.clearWait lk n m))
  | crash {lk : Lid} {n : Nat} (hpc : (s.thread t).pc = .readSuccessor lk n)
      (hnext : (s.node (t, n)).lockNext = none) : McsMove cfg s t { s with aborted := true }
  | other {s' : McsState Tid Lid} (hplain : McsPc.isPlain (s'.thread t).pc = true)
      (hflags : ∀ x, x.1 ≠ t → (s'.node x).speculate = (s.node x).speculate) :
    McsMove cfg s t s'

namespace McsState

variable {s s' : McsState Tid Lid} {t : Tid} {lk : Lid} {cfg : TmParams} {a : McsAct Tid Lid}

omit [DecidableEq Lid] in
/-- A store to a node that leaves its flag `speculate` alone. -/
theorem setNode_speculate {n x : Tid × Nat} {v : McsNode Tid}
    (h : v.speculate = (s.node n).speculate) :
    ((s.setNode n v).node x).speculate = (s.node x).speculate := by
  by_cases hx : x = n
  · subst hx
    simp [McsState.setNode, h]
  · simp [McsState.setNode, hx]

omit [DecidableEq Lid] in
/-- A store to a node of thread `t`. -/
theorem setNode_speculate_ne {n : Nat} {x : Tid × Nat} {v : McsNode Tid} (hx : x.1 ≠ t) :
    ((s.setNode (t, n) v).node x).speculate = (s.node x).speculate := by
  have hne : x ≠ (t, n) := fun e => hx (congrArg Prod.fst e)
  simp [McsState.setNode, hne]

omit [DecidableEq Lid] in
@[simp] theorem halt_thread (x : Tid × Nat) (d : Word) :
    (McsState.halt cfg s x d).thread = s.thread := by
  unfold McsState.halt
  split <;> rfl

omit [DecidableEq Lid] in
@[simp] theorem halt_lock (x : Tid × Nat) (d : Word) : (McsState.halt cfg s x d).lock = s.lock := by
  unfold McsState.halt
  split <;> rfl

omit [DecidableEq Lid] in
/-- The walk only clears the flag of the node it is at. -/
theorem halt_speculate {x y : Tid × Nat} {d : Word}
    (h : ((McsState.halt cfg s x d).node y).speculate = true) :
    (s.node y).speculate = true ∧ (y = x → d < cfg.minDistance) := by
  unfold McsState.halt at h
  split at h
  · by_cases hy : y = x
    · subst hy
      simp [McsState.setNode] at h
    · rw [show ((s.setNode x _).node y) = s.node y from Function.update_of_ne hy ..] at h
      exact ⟨h, fun he => absurd he hy⟩
  · rename_i hd
    exact ⟨h, fun _ => by simpa using hd⟩

theorem enqueue_move (n : Nat) : McsPc.isPlain ((s.enqueue true t lk n).thread t).pc = true ∧
    ∀ x, x.1 ≠ t → ((s.enqueue true t lk n).node x).speculate = (s.node x).speculate := by
  unfold McsState.enqueue
  split
  · refine ⟨?_, fun x hx => ?_⟩
    · rw [enqueued_self]
      rfl
    · exact setNode_speculate_ne hx
  · refine ⟨?_, fun x hx => ?_⟩
    · simp only [if_true]
      rw [enqueued_self]
      rfl
    · exact setNode_speculate_ne hx

theorem runLock_move (hs : s.runLock cfg true t = some s') : McsMove cfg s t s' := by
  unfold McsState.runLock at hs
  cases hpc : (s.thread t).pc with
  | out | htmBegin lk n c | speculating lk n c | readNext lk n | clearTail lk n | spinNext lk n
  | haltFirst lk n | haltAt lk n x d | haltNext lk n x d | readSuccessor lk n | clearWait lk n m
  | dealloc lk n => simp [hpc] at hs
  | initLockNext lk b n =>
    simp only [hpc, Option.some.injEq] at hs
    subst hs
    exact .other (by rw [setThread_self]; rfl) fun x hx => setNode_speculate_ne hx
  | initWait lk b n | initSpeculate lk b n =>
    simp only [hpc, Option.some.injEq] at hs
    subst hs
    exact .other (by rw [goto_self]; rfl) fun x hx => setNode_speculate_ne hx
  | initCnt lk b n =>
    simp only [hpc, Option.some.injEq] at hs
    subst hs
    exact .other (by rw [goto_self]; cases b <;> rfl) fun x hx => setNode_speculate_ne hx
  | swapTail lk n =>
    simp only [hpc, Option.some.injEq] at hs
    subst hs
    exact .other (enqueue_move n).1 (enqueue_move n).2
  | casTail lk n =>
    simp only [hpc] at hs
    split at hs <;> simp only [Option.some.injEq] at hs <;> subst hs
    · exact .other (enqueue_move n).1 (enqueue_move n).2
    · exact .other (by rw [setThread_self]; rfl) fun _ _ => rfl
  | link lk n p =>
    simp only [hpc, Option.some.injEq] at hs
    subst hs
    exact .other (by rw [goto_self]; rfl) fun x _ => setNode_speculate rfl
  | spinWait lk n =>
    simp only [hpc] at hs
    split at hs <;> simp only [Option.some.injEq] at hs <;> subst hs
    · exact .other (by rw [hpc]; rfl) fun _ _ => rfl
    · exact .other (by rw [acquired_self]; rfl) fun _ _ => rfl
  | spinCnt lk n p | spinWaitTm lk n c =>
    simp only [hpc] at hs
    split at hs <;> simp only [Option.some.injEq] at hs <;> subst hs
    · exact .other (by rw [hpc]; rfl) fun _ _ => rfl
    · exact .other (by rw [goto_self]; rfl) fun _ _ => rfl
  | readCnt lk n p | firstRead lk n | firstReadAgain lk n =>
    simp only [hpc, Option.some.injEq] at hs
    subst hs
    exact .other (by rw [goto_self]; rfl) fun _ _ => rfl
  | writeCnt lk n c | firstWriteCnt lk n c =>
    simp only [hpc, Option.some.injEq] at hs
    subst hs
    exact .other (by rw [goto_self]; rfl) fun x hx => setNode_speculate_ne hx
  | readServing lk n c =>
    simp only [hpc] at hs
    split at hs <;> rename_i hin <;> simp only [Option.some.injEq] at hs <;> subst hs
    · -- the count is in the window, so the waiter starts to speculate
      exact .window hpc (Bool.and_eq_true_iff.mp hin).1
    · exact .other (by rw [goto_self]; rfl) fun _ _ => rfl
  | checkSpeculate lk n c =>
    simp only [hpc] at hs
    split at hs <;> rename_i hflag <;> simp only [Option.some.injEq] at hs <;> subst hs
    · -- the transaction goes on, with the flag in its read set
      exact .checkSpeculate hpc hflag
    · exact .other (by rw [goto_self]; rfl) fun _ _ => rfl
  | checkWait lk n c =>
    simp only [hpc] at hs
    split at hs <;> rename_i hwait <;> simp only [Option.some.injEq] at hs <;> subst hs
    · -- from here on the thread is in its section, by speculation
      exact .checkWait hpc hwait
    · exact .other (by rw [goto_self]; rfl) fun _ _ => rfl
  | assertServing lk n c =>
    simp only [hpc] at hs
    split at hs <;> rename_i hnow <;> simp only [Option.some.injEq] at hs <;> subst hs
    · exact .assert hpc hnow
    · exact .other (by rw [hpc]; rfl) fun _ _ => rfl
  | writeServing lk n c | firstWrite lk n c =>
    simp only [hpc, Option.some.injEq] at hs
    subst hs
    exact .other (by rw [acquired_self]; rfl) fun _ _ => rfl

theorem runUnlock_move (hs : s.runUnlock cfg true t = some s') : McsMove cfg s t s' := by
  unfold McsState.runUnlock at hs
  cases hpc : (s.thread t).pc with
  | out | initLockNext lk b n | initWait lk b n | initSpeculate lk b n | initCnt lk b n
  | swapTail lk n | casTail lk n | link lk n p | spinWait lk n | spinCnt lk n p | readCnt lk n p
  | writeCnt lk n c | readServing lk n c | htmBegin lk n c | checkSpeculate lk n c
  | checkWait lk n c | speculating lk n c | spinWaitTm lk n c | assertServing lk n c
  | writeServing lk n c | firstRead lk n | firstWriteCnt lk n c | firstReadAgain lk n
  | firstWrite lk n now => simp [hpc] at hs
  | readNext lk n =>
    simp only [hpc] at hs
    split at hs <;> simp only [Option.some.injEq] at hs <;> subst hs
    · exact .other (by rw [goto_self]; rfl) fun _ _ => rfl
    · -- there is a successor, so the walk comes next
      exact .halting (.inl hpc)
  | spinNext lk n =>
    simp only [hpc] at hs
    split at hs <;> simp only [Option.some.injEq] at hs <;> subst hs
    · exact .other (by rw [hpc]; rfl) fun _ _ => rfl
    · exact .halting (.inr hpc)
  | clearTail lk n =>
    simp only [hpc] at hs
    split at hs <;> simp only [Option.some.injEq] at hs <;> subst hs <;>
      exact .other (by rw [goto_self]; rfl) fun _ _ => rfl
  | haltFirst lk n =>
    simp only [hpc, Option.some.injEq] at hs
    subst hs
    exact .haltFirst hpc
  | haltAt lk n x d =>
    cases x with
    | none =>
      simp only [hpc, Option.some.injEq] at hs
      subst hs
      exact .haltEnd hpc
    | some x =>
      simp only [hpc] at hs
      by_cases hd : d > cfg.maxDistance
      · simp only [hd, if_true, Option.some.injEq] at hs
        -- past the window: the walk ends here
        exact hs ▸ .haltBreak hpc hd
      · simp only [hd, if_false, Option.some.injEq] at hs
        exact hs ▸ .haltAt hpc hd
  | haltNext lk n x d =>
    simp only [hpc, Option.some.injEq] at hs
    subst hs
    exact .haltNext hpc
  | readSuccessor lk n =>
    simp only [hpc] at hs
    split at hs <;> rename_i hnext <;> simp only [Option.some.injEq] at hs <;> subst hs
    · exact .successor hpc hnext
    · -- no successor, though the walk has begun with one: the code would crash
      exact .crash hpc hnext
  | clearWait lk n m =>
    simp only [hpc, Option.some.injEq] at hs
    subst hs
    exact .other (by rw [goto_self]; rfl) fun x _ => setNode_speculate rfl
  | dealloc lk n =>
    simp only [hpc, Option.some.injEq] at hs
    subst hs
    exact .other (by rw [setThread_self]; rfl) fun x hx => setNode_speculate_ne hx

/-- Every step is a move of the thread that takes it. -/
theorem step_move (hs : s.step cfg true a = some s') : McsMove cfg s (McsAct.tid a) s' := by
  simp only [McsState.step] at hs
  split at hs
  · simp at hs
  cases a with
  | lock t lk | trylock t lk =>
    simp only [McsState.callLock] at hs
    split at hs
    · rename_i hpc
      split at hs <;> simp only [Option.some.injEq, reduceCtorEq] at hs
      -- inside a transaction a call changes nothing that others see
      exact hs ▸ .inside hpc
    · split at hs <;> simp only [Option.some.injEq, reduceCtorEq] at hs
      subst hs
      exact .other (by rw [McsAct.tid, setThread_self]; rfl) fun _ _ => rfl
    · simp at hs
  | unlock t lk =>
    simp only [McsState.callUnlock] at hs
    split at hs
    · rename_i hpc
      split at hs <;> simp only [Option.some.injEq, reduceCtorEq] at hs
      exact hs ▸ .inside hpc
    · rename_i hpc
      split at hs
      · split at hs <;> simp only [Option.some.injEq] at hs <;> subst hs
        · exact .other (by rw [McsAct.tid, setThread_self]; rfl) fun _ _ => rfl
        · exact .other (by rw [McsAct.tid, hpc]; rfl) fun _ _ => rfl
      · simp at hs
    · simp at hs
  | run t =>
    rcases Option.or_eq_some_iff.mp hs with h | ⟨-, h⟩
    · exact runLock_move h
    · exact runUnlock_move h
  | htmStart t =>
    simp only at hs
    split at hs <;> simp only [Option.some.injEq, reduceCtorEq] at hs
    rename_i hpc
    exact hs ▸ .start hpc
  | htmAbort t =>
    simp only [McsState.abortStep] at hs
    split at hs <;> simp only [Option.some.injEq, reduceCtorEq] at hs <;> subst hs <;>
      exact .other (by rw [McsAct.tid, goto_self]; rfl) fun _ _ => rfl

end McsState

end TxLock.Spec
