import TxLock.Spec.McsFifo

/-!
# The nodes of a thread that uses MCS locks

Between its calls a thread has one used node for each lock it has, and every other node it
has ever allocated is free. The search of an unlock finds the node of its lock, a trylock
that fails puts no node on the used list, and no queue ends with a free node.

## Key results

- `McsState.step_thread`: a step changes only the thread that takes it
- `tryPlace_after`: where a thread is since it has called `trylock`
- `mcs_nodes`: the lists of every thread in every run
-/

namespace TxLock.Spec

open Native McsView

variable {Tid Lid : Type}

/-- The nodes of the free list, in its order. -/
def McsPool.freeNodes (p : McsPool Lid) : List Nat := follow p.listNext p.allocated p.myFreeNodes

/-- The nodes of the used list, in its order. -/
def McsPool.usedNodes (p : McsPool Lid) : List Nat := follow p.listNext p.allocated p.myUsedNodes

/-- The locks whose `lock` or `trylock` has returned 0, each with its node. The thread may
    speculate on the last one. -/
def McsThread.locked (th : McsThread Tid Lid) : List (Lid × Nat) :=
  match th.pc with
  | .speculating lk n _ => (lk, n) :: th.held
  | _ => th.held

/-- The thread is not in the code of a call. -/
def McsPc.returned : McsPc Tid Lid → Bool
  | .out | .speculating _ _ _ => true
  | .initLockNext _ _ _ | .initWait _ _ _ | .initSpeculate _ _ _ | .initCnt _ _ _ | .swapTail _ _
  | .casTail _ _ | .link _ _ _ | .spinWait _ _ | .spinCnt _ _ _ | .readCnt _ _ _
  | .writeCnt _ _ _ | .readServing _ _ _ | .htmBegin _ _ _ | .checkSpeculate _ _ _
  | .checkWait _ _ _ | .spinWaitTm _ _ _ | .assertServing _ _ _ | .writeServing _ _ _
  | .firstRead _ _ | .firstWriteCnt _ _ _ | .firstReadAgain _ _ | .firstWrite _ _ _
  | .readNext _ _ | .clearTail _ _ | .spinNext _ _ | .haltFirst _ _ | .haltAt _ _ _ _
  | .haltNext _ _ _ _ | .readSuccessor _ _ | .clearWait _ _ _ | .dealloc _ _ => false

namespace PoolRep

variable {p : McsPool Lid} {free used : List Nat} {n : Nat}

theorem freeNodes_eq (h : PoolRep p free used) : McsPool.freeNodes p = free := by
  apply h.free_linked.follow_eq
  have hlength := h.perm.length_eq
  rw [List.length_append, List.length_range] at hlength
  omega

theorem usedNodes_eq (h : PoolRep p free used) : McsPool.usedNodes p = used := by
  apply h.used_chained.linked.follow_eq
  have hlength := h.perm.length_eq
  rw [List.length_append, List.length_range] at hlength
  omega

end PoolRep

/-! ## What a step changes -/

section

variable [DecidableEq Tid] [DecidableEq Lid] {s s' : McsState Tid Lid} {t u : Tid} {lk : Lid}
  {cfg : TmParams} {tm : Bool} {a : McsAct Tid Lid}

namespace McsState

omit [DecidableEq Lid] in
@[simp] theorem setNode_thread (n : Tid × Nat) (x : McsNode Tid) :
    (s.setNode n x).thread = s.thread := rfl

omit [DecidableEq Tid] in
@[simp] theorem setLock_thread (l : McsLock Tid) : (s.setLock lk l).thread = s.thread := rfl

omit [DecidableEq Lid] in
theorem setThread_self (th : McsThread Tid Lid) : (s.setThread t th).thread t = th :=
  Function.update_self ..

omit [DecidableEq Lid] in
theorem goto_self (pc : McsPc Tid Lid) :
    (s.goto t pc).thread t = { s.thread t with pc := pc } := Function.update_self ..

theorem acquired_self (n : Nat) : (s.acquired t lk n).thread t =
    { s.thread t with pc := .out, held := (lk, n) :: (s.thread t).held, ret := some 0 } :=
  Function.update_self ..

theorem enqueued_self (n : Nat) (pc : McsPc Tid Lid) : (s.enqueued t lk n pc).thread t =
    { s.thread t with pc := pc, pool := (s.thread t).pool.useNode n } := Function.update_self ..

omit [DecidableEq Lid] in
theorem setThread_thread (th : McsThread Tid Lid) (hu : u ≠ t) :
    (s.setThread t th).thread u = s.thread u := Function.update_of_ne hu _ _

omit [DecidableEq Lid] in
theorem goto_thread (pc : McsPc Tid Lid) (hu : u ≠ t) : (s.goto t pc).thread u = s.thread u :=
  setThread_thread _ hu

theorem acquired_thread (n : Nat) (hu : u ≠ t) : (s.acquired t lk n).thread u = s.thread u :=
  setThread_thread _ hu

theorem enqueue_thread (n : Nat) (hu : u ≠ t) : (s.enqueue tm t lk n).thread u = s.thread u := by
  have hqueued : ∀ pc, (s.enqueued t lk n pc).thread u = s.thread u :=
    fun pc => setThread_thread _ hu
  unfold McsState.enqueue
  split
  · exact hqueued _
  · split
    · exact hqueued _
    · rw [acquired_thread n hu, hqueued]

theorem runLock_thread (hs : s.runLock cfg tm t = some s') (hu : u ≠ t) :
    s'.thread u = s.thread u := by
  unfold McsState.runLock at hs
  cases hpc : (s.thread t).pc <;> simp only [hpc, reduceCtorEq] at hs <;> (try split at hs) <;>
    simp only [Option.some.injEq] at hs <;> subst hs <;>
    simp [goto_thread _ hu, setThread_thread _ hu, acquired_thread _ hu, enqueue_thread _ hu,
      McsState.giveCnt, McsState.record]

theorem runUnlock_thread (hs : s.runUnlock cfg tm t = some s') (hu : u ≠ t) :
    s'.thread u = s.thread u := by
  unfold McsState.runUnlock at hs
  cases hpc : (s.thread t).pc with
  | haltAt lk n cur d =>
    cases cur with
    | none =>
      simp only [hpc, Option.some.injEq] at hs
      subst hs
      exact goto_thread _ hu
    | some cur =>
      simp only [hpc] at hs
      split at hs <;> split at hs <;> simp only [Option.some.injEq] at hs <;> subst hs <;>
        simp [goto_thread _ hu]
  | _ =>
    simp only [hpc, reduceCtorEq] at hs <;> (try split at hs) <;>
      simp only [Option.some.injEq] at hs <;> subst hs <;>
      simp [goto_thread _ hu, setThread_thread _ hu]

theorem callLock_thread {b : Bool} (hs : s.callLock t lk b = some s') (hu : u ≠ t) :
    s'.thread u = s.thread u := by
  simp only [McsState.callLock] at hs
  split at hs
  · split at hs <;> simp only [Option.some.injEq, reduceCtorEq] at hs
    rw [hs]
  · split at hs <;> simp only [Option.some.injEq, reduceCtorEq] at hs
    subst hs
    exact setThread_thread _ hu
  · simp at hs

/-- A step changes only the thread that takes it. -/
theorem step_thread (hs : s.step cfg tm a = some s') (hu : u ≠ McsAct.tid a) :
    s'.thread u = s.thread u := by
  simp only [McsState.step] at hs
  split at hs
  · simp at hs
  cases a with
  | lock t lk | trylock t lk => exact callLock_thread hs hu
  | unlock t lk =>
    simp only [McsState.callUnlock] at hs
    split at hs
    · split at hs <;> simp only [Option.some.injEq, reduceCtorEq] at hs
      rw [hs]
    · split at hs <;> (try split at hs) <;> simp only [Option.some.injEq, reduceCtorEq] at hs <;>
        subst hs
      · exact setThread_thread _ hu
      · rfl
    · simp at hs
  | run t =>
    rcases Option.or_eq_some_iff.mp hs with h | ⟨-, h⟩
    · exact runLock_thread h hu
    · exact runUnlock_thread h hu
  | htmStart t =>
    simp only at hs
    split at hs <;> simp only [Option.some.injEq, reduceCtorEq] at hs
    subst hs
    exact goto_thread _ hu
  | htmAbort t =>
    simp only [McsState.abortStep] at hs
    split at hs <;> simp only [Option.some.injEq, reduceCtorEq] at hs <;> subst hs <;>
      exact goto_thread _ hu

/-- A call of `unlock` finds the node of the lock. -/
theorem ThreadsOk.unlock_step (h : ThreadsOk s) (hlive : s.aborted = false)
    (hpc : (s.thread t).pc = .out) (hlk : lk ∈ (s.thread t).held.map Prod.fst) :
    ∃ n s', (lk, n) ∈ (s.thread t).held ∧ (s.thread t).pool.findNode lk = some n ∧
      s.step cfg tm (.unlock t lk) = some s' ∧ s'.aborted = false ∧
      (s'.thread t).pc = .readNext lk n := by
  have hok := h t
  rw [hpc] at hok
  obtain ⟨n, hfind, hn, -⟩ := hok.findNode hlk
  refine ⟨n, s.setThread t { s.thread t with
    pc := .readNext lk n, held := (s.thread t).held.filter fun h => h.1 ≠ lk }, hn, hfind, ?_,
    hlive, ?_⟩
  · simp [McsState.step, McsState.callUnlock, hlive, hpc, hlk, hfind]
  · simp [McsState.setThread]

end McsState

/-! ## A trylock that fails -/

/-- Where thread `t` is after it has called `trylock` for `lk` with the used list `used`. -/
inductive TryPlace (used : List Nat) (lk : Lid) (th : McsThread Tid Lid) : Prop where
  | initLockNext {n : Nat} (hpc : th.pc = .initLockNext lk true n)
      (hused : McsPool.usedNodes th.pool = used)
  | initWait {n : Nat} (hpc : th.pc = .initWait lk true n)
      (hused : McsPool.usedNodes th.pool = used)
  | initSpeculate {n : Nat} (hpc : th.pc = .initSpeculate lk true n)
      (hused : McsPool.usedNodes th.pool = used)
  | initCnt {n : Nat} (hpc : th.pc = .initCnt lk true n)
      (hused : McsPool.usedNodes th.pool = used)
  | casTail {n : Nat} (hpc : th.pc = .casTail lk n) (hused : McsPool.usedNodes th.pool = used)
  /-- The node is in the queue, alone, and the call will return 0. -/
  | firstRead {n : Nat} (hpc : th.pc = .firstRead lk n)
  | firstWriteCnt {n : Nat} {cnt : BitVec 64} (hpc : th.pc = .firstWriteCnt lk n cnt)
  | firstReadAgain {n : Nat} (hpc : th.pc = .firstReadAgain lk n)
  | firstWrite {n : Nat} {now : BitVec 64} (hpc : th.pc = .firstWrite lk n now)
  | succeeded (hpc : th.pc = .out) (hret : th.ret = some 0)
  | failed (hpc : th.pc = .out) (hret : th.ret = some 1)
      (hused : McsPool.usedNodes th.pool = used)

namespace TryPlace

variable {used : List Nat}

theorem call (hok : McsState.ThreadsOk s) (hpc : (s.thread t).pc = .out)
    (hs : s.step cfg tm (.trylock t lk) = some s') :
    TryPlace (McsPool.usedNodes (s.thread t).pool) lk (s'.thread t) := by
  have hok := hok t
  rw [hpc] at hok
  obtain ⟨free, used, hrep, -⟩ := hok.pool
  -- a free node is taken, which does not change what is in use
  obtain ⟨rest, hrep', -⟩ := hrep.getFreeNode
  simp only [McsState.step] at hs
  split at hs
  · simp at hs
  simp only [McsState.callLock, hpc, Bool.true_eq_false, false_and, if_false,
    Option.some.injEq] at hs
  subst hs
  rw [McsState.setThread_self]
  refine .initLockNext rfl ?_
  show McsPool.usedNodes (s.thread t).pool.getFreeNode.1 = _
  rw [hrep'.usedNodes_eq, hrep.usedNodes_eq]

/-- The next step of the thread. -/
theorem run (h : TryPlace used lk (s.thread t)) (hpc : (s.thread t).pc ≠ .out)
    (hs : s.step cfg tm (.run t) = some s') : TryPlace used lk (s'.thread t) := by
  have hrun : (s.runLock cfg tm t).or (s.runUnlock cfg tm t) = some s' := by
    simp only [McsState.step] at hs
    split at hs
    · simp at hs
    · exact hs
  cases h with
  | succeeded hout | failed hout => exact absurd hout hpc
  | initLockNext hp hused =>
    simp only [McsState.runLock, hp, Option.some_or, Option.some.injEq] at hrun
    subst hrun
    rw [McsState.setThread_self]
    exact .initWait rfl hused
  | initWait hp hused =>
    simp only [McsState.runLock, hp, Option.some_or, Option.some.injEq] at hrun
    subst hrun
    rw [McsState.goto_self]
    exact .initSpeculate rfl hused
  | initSpeculate hp hused =>
    simp only [McsState.runLock, hp, Option.some_or, Option.some.injEq] at hrun
    subst hrun
    rw [McsState.goto_self]
    exact .initCnt rfl hused
  | initCnt hp hused =>
    simp only [McsState.runLock, hp, Option.some_or, Option.some.injEq] at hrun
    subst hrun
    rw [McsState.goto_self]
    exact .casTail rfl hused
  | @casTail n hp hused =>
    simp only [McsState.runLock, hp] at hrun
    split at hrun <;> rename_i htail <;> simp only [Option.some_or, Option.some.injEq] at hrun <;>
      subst hrun
    · -- the queue was empty; only `mcs_tm` has a position to take first
      simp only [McsState.enqueue, htail]
      split
      · rw [McsState.enqueued_self]
        exact .firstRead rfl
      · rw [McsState.acquired_self]
        exact .succeeded rfl rfl
    · rw [McsState.setThread_self]
      -- the queue was not empty, and the node goes back to the pool
      exact .failed rfl rfl hused
  | firstRead hp =>
    simp only [McsState.runLock, hp, Option.some_or, Option.some.injEq] at hrun
    subst hrun
    rw [McsState.goto_self]
    exact .firstWriteCnt rfl
  | firstWriteCnt hp =>
    simp only [McsState.runLock, hp, Option.some_or, Option.some.injEq] at hrun
    subst hrun
    rw [McsState.goto_self]
    exact .firstReadAgain rfl
  | firstReadAgain hp =>
    simp only [McsState.runLock, hp, Option.some_or, Option.some.injEq] at hrun
    subst hrun
    rw [McsState.goto_self]
    exact .firstWrite rfl
  | firstWrite hp =>
    simp only [McsState.runLock, hp, Option.some_or, Option.some.injEq] at hrun
    subst hrun
    rw [McsState.acquired_self]
    exact .succeeded rfl rfl

/-- In the code of the call the thread does nothing else. -/
theorem act_eq (h : TryPlace used lk (s.thread t)) (hpc : (s.thread t).pc ≠ .out)
    (ha : McsAct.tid a = t) (hs : s.step cfg tm a = some s') : a = .run t := by
  subst ha
  simp only [McsState.step] at hs
  split at hs
  · simp at hs
  cases a with
  | run => rfl
  | lock t lk | trylock t lk | unlock t lk | htmStart t | htmAbort t =>
    simp only [McsAct.tid] at h hpc
    cases h with
    | succeeded hout | failed hout => exact absurd hout hpc
    | initLockNext hp | initWait hp | initSpeculate hp | initCnt hp | casTail hp | firstRead hp
    | firstWriteCnt hp | firstReadAgain hp | firstWrite hp =>
      simp [McsState.callLock, McsState.callUnlock, McsState.abortStep, hp] at hs

end TryPlace

/-- Where a thread is since it has called `trylock`. -/
theorem tryPlace_after {C : McsState Tid Lid → McsAct Tid Lid → Prop}
    {pre seg : List (McsState Tid Lid × McsAct Tid Lid)} {s₀ : McsState Tid Lid}
    (h : (mcs Tid Lid cfg tm).Run C (pre ++ [(s₀, .trylock t lk)] ++ seg) s)
    (hpc : (s₀.thread t).pc = .out) (hin : ∀ p ∈ seg, (p.1.thread t).pc ≠ .out) :
    TryPlace (McsPool.usedNodes (s₀.thread t).pool) lk (s.thread t) := by
  revert hin
  apply h.invariant_after (I := fun seg s => (∀ p ∈ seg, (p.1.thread t).pc ≠ .out) →
    TryPlace (McsPool.usedNodes (s₀.thread t).pool) lk (s.thread t))
  · intro s h _
    obtain ⟨hr, -, hs⟩ := h.concat_inv
    have hs : s₀.step cfg tm (.trylock t lk) = some s := hs
    exact TryPlace.call (mcs_invariant hr).1 hpc hs
  · intro seg s a s' _ ih _ hs hin
    have hs : s.step cfg tm a = some s' := hs
    have hplace := ih fun p hp => hin p (List.mem_append_left _ hp)
    by_cases ht : McsAct.tid a = t
    · have hout : (s.thread t).pc ≠ .out := hin (s, a) (by simp)
      obtain rfl := hplace.act_eq hout ht hs
      exact hplace.run hout hs
    · rw [McsState.step_thread hs fun e => ht e.symm]
      exact hplace

/-! ## The lists in a run -/

omit [DecidableEq Tid] [DecidableEq Lid] in
/-- A node in a queue is not on the free list of its thread. -/
theorem McsState.ThreadsOk.mem_usedNodes {i : Nat} {r : QueueRole Tid} (h : McsState.ThreadsOk s)
    (hr : (McsState.view s).role (t, i) = .queued lk r) :
    i ∈ McsPool.usedNodes (s.thread t).pool := by
  obtain ⟨free, used, hrep, hfits⟩ := (h t).pool
  rw [hrep.usedNodes_eq]
  have hrole : McsThread.role (s.thread t) i = .queued lk r := hr
  -- a lock that the thread has, or the node at hand
  have hheld : heldRole (s.thread t).held i = .queued lk r → i ∈ (s.thread t).held.map Prod.snd :=
    fun hq => List.mem_map_of_mem (heldRole_queued hq).1
  unfold McsThread.role at hrole
  generalize (s.thread t).pc = pc at hfits hrole
  cases pc <;> simp only [McsPc.role?] at hrole <;> try split at hrole
  case out => exact hfits.mem_iff.mpr (hheld hrole)
  all_goals rename_i hi
  all_goals first
    | exact hfits.2.2.2.mem_iff.mpr (hheld hrole)
    | exact hfits.2.2.mem_iff.mpr (hheld hrole)
    | exact hfits.2.2.mem_iff.mpr (List.mem_cons_of_mem _ (hheld hrole))
    | exact hfits.2.2.mem_iff.mpr (hi ▸ List.mem_cons_self ..)
    | simp at hrole

/-- What the threads' lists of nodes are, after the steps `tr` have led to `s`. -/
structure McsNodesLaw (cfg : TmParams) (tm : Bool)
    (tr : List (McsState Tid Lid × McsAct Tid Lid)) (s : McsState Tid Lid) : Prop where
  /-- Both lists end, with `NULL`. -/
  free : ∀ t, Linked (s.thread t).pool.listNext (s.thread t).pool.myFreeNodes
    (McsPool.freeNodes (s.thread t).pool)
  used : ∀ t, Linked (s.thread t).pool.listNext (s.thread t).pool.myUsedNodes
    (McsPool.usedNodes (s.thread t).pool)
  /-- Every node that the thread has allocated is on one of them, once. -/
  nodes : ∀ t, (McsPool.freeNodes (s.thread t).pool ++ McsPool.usedNodes (s.thread t).pool).Perm
    (List.range (s.thread t).pool.allocated)
  inverse : ∀ t, ∀ a ∈ McsPool.usedNodes (s.thread t).pool,
    ∀ b ∈ McsPool.usedNodes (s.thread t).pool,
      (s.thread t).pool.listNext a = some b ↔ (s.thread t).pool.listPrev b = some a
  /-- Between its calls the thread uses one node for each lock, with the lock in it. -/
  locked : ∀ t, McsPc.returned (s.thread t).pc = true →
    (McsPool.usedNodes (s.thread t).pool).Perm ((McsThread.locked (s.thread t)).map Prod.snd) ∧
      ((McsThread.locked (s.thread t)).map Prod.fst).Nodup ∧
      ∀ x ∈ McsThread.locked (s.thread t), (s.thread t).pool.lock x.2 = some x.1
  /-- The search of an unlock ends at the node of its lock. -/
  unlock : ∀ t lk, s.aborted = false → (s.thread t).pc = .out →
    lk ∈ (s.thread t).held.map Prod.fst → ∃ n s', (lk, n) ∈ (s.thread t).held ∧
      (s.thread t).pool.findNode lk = some n ∧ s.step cfg tm (.unlock t lk) = some s' ∧
      s'.aborted = false ∧ (s'.thread t).pc = .readNext lk n
  /-- A trylock that has just failed has left the used list as it was at the call. -/
  trylock : ∀ pre s₀ seg t lk, tr = pre ++ [(s₀, .trylock t lk)] ++ seg →
    (s₀.thread t).pc = .out → (∀ p ∈ seg, (p.1.thread t).pc ≠ .out) → (s.thread t).pc = .out →
    (s.thread t).ret = some 1 →
    McsPool.usedNodes (s.thread t).pool = McsPool.usedNodes (s₀.thread t).pool
  /-- No lock's queue ends with a free node. -/
  tail : ∀ lk t n, (s.lock lk).tail = some (t, n) → n ∉ McsPool.freeNodes (s.thread t).pool

/-- The nodes of every thread in every run of `mcs` and `mcs_tm`. -/
theorem mcs_nodes {tr : List (McsState Tid Lid × McsAct Tid Lid)}
    (h : (mcs Tid Lid cfg tm).Run System.Free tr s) : McsNodesLaw cfg tm tr s := by
  obtain ⟨hok, hinv⟩ := mcs_invariant h
  -- what the pool keeps, then what the calls do with it, last the queues
  refine ⟨?_, ?_, ?_, ?_, ?_, ?_, ?_, ?_⟩
  · intro t
    obtain ⟨free, used, hrep, -⟩ := (hok t).pool
    rw [hrep.freeNodes_eq]
    exact hrep.free_linked
  · intro t
    obtain ⟨free, used, hrep, -⟩ := (hok t).pool
    rw [hrep.usedNodes_eq]
    exact hrep.used_chained.linked
  · intro t
    obtain ⟨free, used, hrep, -⟩ := (hok t).pool
    rw [hrep.usedNodes_eq, hrep.freeNodes_eq]
    exact hrep.perm
  · intro t a ha b hb
    obtain ⟨free, used, hrep, -⟩ := (hok t).pool
    rw [hrep.usedNodes_eq] at ha hb
    exact hrep.used_chained.next_eq_iff ha hb
  · intro t hret
    have ht := hok t
    obtain ⟨free, used, hrep, hfits⟩ := ht.pool
    rw [hrep.usedNodes_eq]
    unfold McsThread.locked
    cases hpc : (s.thread t).pc <;> rw [hpc] at hret hfits <;>
      simp only [McsPc.returned, Bool.false_eq_true] at hret
    case out => exact ⟨hfits, ht.nodup, ht.lock⟩
    case speculating lk n cnt =>
      obtain ⟨hlk, hlock, hperm⟩ := hfits
      refine ⟨hperm, List.nodup_cons.mpr ⟨hlk, ht.nodup⟩, fun x hx => ?_⟩
      rcases List.mem_cons.mp hx with rfl | hx
      · exact hlock
      · exact ht.lock x hx
  · intro t lk hlive hpc hlk
    exact hok.unlock_step hlive hpc hlk
  · intro pre s₀ seg t lk htr hpc hin hout hret
    rw [htr] at h
    -- a call that is over has returned 0, or has given its node back
    cases tryPlace_after h hpc hin with
    | failed _ _ hused => exact hused
    | succeeded _ hzero => simp [hret] at hzero
    | initLockNext hp | initWait hp | initSpeculate hp | initCnt hp | casTail hp | firstRead hp
    | firstWriteCnt hp | firstReadAgain hp | firstWrite hp => simp [hout] at hp
  · intro lk t n htail hfree
    obtain ⟨free, used, hrep, -⟩ := (hok t).pool
    -- the tail of a queue is its last node, which is in use
    have hlast : ((McsState.view s).queue lk).getLast? = some (t, n) :=
      (hinv.queue lk).tail.symm.trans htail
    obtain ⟨r, hr⟩ := ((hinv.queue lk).mem (t, n)).mp (List.mem_of_getLast? hlast)
    have hused := hok.mem_usedNodes hr
    rw [hrep.usedNodes_eq] at hused
    rw [hrep.freeNodes_eq] at hfree
    exact hrep.disjoint hfree hused

/-- A thread has two locks and fails to get a third, which another thread has; it gives back
    the lock it took first. -/
theorem mcs_nodes_failed : ∃ tr s, @McsNodesLaw (Fin 2) (Fin 3) _ _ {} false tr s ∧
    (s.thread 0).ret = some 0 ∧ McsPool.usedNodes (s.thread 0).pool = [1] ∧
    McsPool.freeNodes (s.thread 0).pool = [0, 2, 3, 4, 5, 6, 7] := by
  have hs : ((mcs (Fin 2) (Fin 3) {} false).exec {}
      [[.trylock 1 2], .replicate 5 (.run 1), [.lock 0 0], .replicate 5 (.run 0),
        [.lock 0 1], .replicate 5 (.run 0), [.trylock 0 2], .replicate 5 (.run 0),
        [.unlock 0 0], .replicate 3 (.run 0)].flatten).map
      (fun s => ((s.thread 0).ret, McsPool.usedNodes (s.thread 0).pool,
        McsPool.freeNodes (s.thread 0).pool)) =
      some (some 0, [1], [0, 2, 3, 4, 5, 6, 7]) := by decide
  obtain ⟨s, hexec, hlists⟩ := Option.map_eq_some_iff.mp hs
  rw [Prod.mk.injEq, Prod.mk.injEq] at hlists
  have hrun := (System.Run.init (M := mcs (Fin 2) (Fin 3) {} false) rfl).exec hexec
  exact ⟨_, s, mcs_nodes hrun, hlists⟩

end

end TxLock.Spec
