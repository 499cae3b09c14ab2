import TxLock.Spec.McsThread

/-!
# MCS locks are exclusive and first-come first-served

Three lists of a run are compared for each lock: the nodes swapped into `tail`, the nodes
whose threads got the lock, and the nodes that left the queue. Each is the first part of
the history of the queue that the invariant describes (`mcs_history`), so the second is a
prefix of the first, and what has been swapped in and has not left is the queue.

## Key results

- `mcs_exclusive_fifo`: mutual exclusion, the order of `tail`, and the handover
-/

namespace TxLock.Spec

open Native McsView

variable {Tid Lid : Type} [DecidableEq Tid] [DecidableEq Lid]

/-- The node a thread has the lock `lk` with. -/
def McsThread.node? (th : McsThread Tid Lid) (lk : Lid) : Option Nat :=
  (th.held.find? fun h => h.1 = lk).map Prod.snd

namespace McsState

/-- The node a step swaps into `lk->tail`. -/
def installs (cfg : TmParams) (tm : Bool) (lk : Lid) (s : McsState Tid Lid)
    (a : McsAct Tid Lid) : List (Tid × Nat) :=
  match s.step cfg tm a with
  | some s' => if (s'.lock lk).tail = (s.lock lk).tail then [] else (s'.lock lk).tail.toList
  | none => []

/-- The node whose thread gets `lk` in a step. -/
def acquires (cfg : TmParams) (tm : Bool) (lk : Lid) (s : McsState Tid Lid)
    (a : McsAct Tid Lid) : List (Tid × Nat) :=
  match s.step cfg tm a with
  | some s' =>
    if (McsThread.node? (s.thread (McsAct.tid a)) lk).isSome then []
    else (McsThread.node? (s'.thread (McsAct.tid a)) lk).toList.map (McsAct.tid a, ·)
  | none => []

/-- The node that an unlock takes out of the queue of `lk`: the swap of `tail` for `NULL`
    succeeds, or the flag of its successor is cleared. -/
def departs (lk : Lid) (s : McsState Tid Lid) : McsAct Tid Lid → List (Tid × Nat)
  | .run t =>
    match (s.thread t).pc with
    | .clearTail lk' mine =>
      if lk' = lk ∧ (s.lock lk').tail = some (t, mine) then [(t, mine)] else []
    | .clearWait lk' mine _ => if lk' = lk then [(t, mine)] else []
    | _ => []
  | _ => []

end McsState

/-! ## What a step does to the history -/

section

variable {c c' : McsView Tid Lid} {n m : Tid × Nat} {lk : Lid} {tm : Bool}

omit [DecidableEq Tid] [DecidableEq Lid] in
theorem map_node_modify {l : List (McsTurn Tid)} {k : Nat} {f : McsTurn Tid → McsTurn Tid}
    (hf : ∀ a, (f a).node = a.node) : (l.modify k f).map McsTurn.node = l.map McsTurn.node := by
  apply List.ext_getElem?
  intro j
  rw [List.getElem?_map, List.getElem?_map, List.getElem?_modify]
  cases l[j]? with
  | none => rfl
  | some a => by_cases hj : k = j <;> simp [hj, hf]

/-- A step changes the role of its own node only. -/
theorem McsStep.role_ne (hs : McsStep tm c n c') (hm : m ≠ n) : c'.role m = c.role m := by
  cases hs <;>
    first
      | exact setRole_ne hm
      | rfl
      | exact (setRole_ne hm).trans (setRole_ne hm)

/-- The node that is swapped in becomes the last of the history. -/
theorem McsStep.turns_node (h : McsInv c) (hs : McsStep tm c n c') (lk : Lid) :
    (c'.lock lk).turns.map McsTurn.node = (c.lock lk).turns.map McsTurn.node ++
      if (c'.lock lk).tail = (c.lock lk).tail then [] else (c'.lock lk).tail.toList := by
  have hsame : ∀ {l l' : McsLock Tid}, l'.turns.map McsTurn.node = l.turns.map McsTurn.node →
      l'.tail = l.tail → l'.turns.map McsTurn.node = l.turns.map McsTurn.node ++
        if l'.tail = l.tail then [] else l'.tail.toList := by
    intro l l' hturns htail
    rw [hturns, if_pos htail, List.append_nil]
  -- a node that is being filled in is not `tail`
  have hpush : ∀ (lk₀ : Lid) (r : QueueRole Tid), c.role n = .fresh 4 →
      ((c.push lk₀ n r).lock lk).turns.map McsTurn.node = (c.lock lk).turns.map McsTurn.node ++
        if ((c.push lk₀ n r).lock lk).tail = (c.lock lk).tail then []
        else ((c.push lk₀ n r).lock lk).tail.toList := by
    intro lk₀ r hr
    by_cases hlk : lk = lk₀
    · subst hlk
      have hne : some n ≠ (c.lock lk).tail := by
        intro he
        rw [(h.queue lk).tail] at he
        obtain ⟨r', hr'⟩ := ((h.queue lk).mem n).mp (List.mem_of_getLast? he.symm)
        rw [hr] at hr'
        simp at hr'
      simp [McsView.push, hne]
    · exact hsame (by simp [McsView.push, hlk]) (by simp [McsView.push, hlk])
  have hrecord : ∀ (c : McsView Tid Lid) (lk₀ : Lid) (f : McsTurn Tid → McsTurn Tid),
      (∀ a, (f a).node = a.node) →
      ((c.record lk₀ n f).lock lk).turns.map McsTurn.node = (c.lock lk).turns.map McsTurn.node ∧
        ((c.record lk₀ n f).lock lk).tail = (c.lock lk).tail := by
    intro c lk₀ f hf
    by_cases hlk : lk = lk₀
    · subst hlk
      simp [McsView.record, map_node_modify hf]
    · simp [McsView.record, hlk]
  have hcnt := fun lk₀ cnt => hrecord c lk₀ (fun a => { a with cnt := some cnt }) fun _ => rfl
  have hacq := fun c lk₀ => hrecord c lk₀ (fun a => { a with acquired := true }) fun _ => rfl
  have hserve : ∀ (lk₀ : Lid) (now : BitVec 64),
      (((c.setLock lk₀ { c.lock lk₀ with nowServing := now }).lock lk).turns =
        (c.lock lk).turns) ∧
      ((c.setLock lk₀ { c.lock lk₀ with nowServing := now }).lock lk).tail = (c.lock lk).tail := by
    intro lk₀ now
    by_cases hlk : lk = lk₀
    · subst hlk
      simp
    · simp [hlk]
  cases hs with
  | prepare | initLockNext | initWait | initSpeculate | initCnt | giveUp | link | see | read
  | wake | firstRead | firstAgain | close | next | await | halt | successor | drop =>
    exact hsame rfl rfl
  | push hr => exact hpush _ _ hr
  | @pushFirst lk₀ hr =>
    obtain ⟨hturns, htail⟩ := hacq (c.push lk₀ n .firstRead) lk₀
    have hp := hpush lk₀ .firstRead hr
    rw [← hturns, ← htail] at hp
    exact hp
  | @give lk₀ cnt hr | @firstGive lk₀ cnt hr => exact hsame (hcnt lk₀ cnt).1 (hcnt lk₀ cnt).2
  | @wakeHolds lk₀ hr => exact hsame (hacq c lk₀).1 (hacq c lk₀).2
  | @serve lk₀ now hr | @firstServe lk₀ now hr =>
    obtain ⟨hturns, htail⟩ := hacq (c.setLock lk₀ { c.lock lk₀ with nowServing := _ }) lk₀
    rw [(hserve lk₀ _).1] at hturns
    rw [(hserve lk₀ _).2] at htail
    exact hsame hturns htail
  | @clearTail lk₀ hr =>
    by_cases hlk : lk = lk₀
    · subst hlk
      simp [McsView.pop]
    · exact hsame (by simp [McsView.pop, hlk]) (by simp [McsView.pop, hlk])
  | @hand lk₀ m hr =>
    by_cases hlk : lk = lk₀
    · subst hlk
      exact hsame (by simp [McsView.pop]) (by simp [McsView.pop])
    · exact hsame (by simp [McsView.pop, hlk]) (by simp [McsView.pop, hlk])

omit [DecidableEq Tid] [DecidableEq Lid] in
/-- The acquisitions granted are those marked in the history. -/
theorem QueueOk.served_eq (h : QueueOk c lk) (h' : QueueOk c' lk)
    (hflags : ∀ m : Nat, (c'.lock lk).turns[m]?.any McsTurn.acquired =
      (c.lock lk).turns[m]?.any McsTurn.acquired) : c'.served lk = c.served lk := by
  have hmark : ∀ {d : McsView Tid Lid}, QueueOk d lk → ∀ m : Nat,
      (d.lock lk).turns[m]?.any McsTurn.acquired = true ↔ m < d.served lk := by
    intro d hd m
    cases hm : (d.lock lk).turns[m]? with
    | none =>
      have hlen := List.getElem?_eq_none_iff.mp hm
      have hle := hd.served_le
      simp only [Option.any_none, Bool.false_eq_true, false_iff]
      omega
    | some a => exact hd.acquired m a hm
  have hiff : ∀ m, m < c'.served lk ↔ m < c.served lk := fun m => by
    rw [← hmark h', ← hmark h, hflags]
  have hge := hiff (c.served lk)
  have hle := hiff (c'.served lk)
  omega

/-- A thread gets the lock in a step, or the acquisitions granted stay the same. -/
theorem McsStep.served (h : McsInv c) (h' : McsInv c') (hs : McsStep tm c n c') (lk : Lid) :
    (c'.served lk = c.served lk ∧ (c'.role n = .queued lk .holds → c.role n = .queued lk .holds)) ∨
    (c'.served lk = c.served lk + 1 ∧ c'.role n = .queued lk .holds ∧
      c.role n ≠ .queued lk .holds) := by
  have hsame : (∀ m : Nat, (c'.lock lk).turns[m]?.any McsTurn.acquired =
      (c.lock lk).turns[m]?.any McsTurn.acquired) → c'.served lk = c.served lk :=
    (h.queue lk).served_eq (h'.queue lk)
  have hlock : c'.lock lk = c.lock lk → c'.served lk = c.served lk := fun he =>
    hsame fun m => by rw [he]
  have hcnt : ∀ (lk₀ : Lid) (cnt : BitVec 64) (m : Nat), ((c.giveCnt lk₀ n cnt).lock lk).turns[m]?.any
      McsTurn.acquired = (c.lock lk).turns[m]?.any McsTurn.acquired := by
    intro lk₀ cnt m
    by_cases hlk : lk = lk₀
    · subst hlk
      simp only [McsView.giveCnt, McsView.record, setNode_lock, setLock_self, List.getElem?_modify]
      cases (c.lock lk).turns[m]? with
      | none => rfl
      | some a =>
        simp only [Option.map_eq_map, Option.map_some, Option.any_some]
        split <;> rfl
    · simp [McsView.giveCnt, McsView.record, hlk]
  -- a thread gets the lock `lk₀`
  have henter : ∀ (lk₀ : Lid), c'.role n = .queued lk₀ .holds → c.role n ≠ .queued lk₀ .holds →
      (lk ≠ lk₀ → c'.lock lk = c.lock lk) →
      (lk = lk₀ → (c'.lock lk).released = (c.lock lk).released ∧
        c.served lk = (c.lock lk).released) →
      (c'.served lk = c.served lk ∧
        (c'.role n = .queued lk .holds → c.role n = .queued lk .holds)) ∨
      (c'.served lk = c.served lk + 1 ∧ c'.role n = .queued lk .holds ∧
        c.role n ≠ .queued lk .holds) := by
    intro lk₀ hr' hr hne heq
    by_cases hlk : lk = lk₀
    · subst hlk
      obtain ⟨hrel, hserved⟩ := heq rfl
      have hone := (h'.queue lk).served_of_holding hr' rfl
      exact .inr ⟨by omega, hr', hr⟩
    · refine .inl ⟨hlock (hne hlk), fun he => ?_⟩
      rw [hr', McsRole.queued.injEq] at he
      exact absurd he.1.symm hlk
  cases hs with
  | prepare hr | initLockNext hr | initWait hr | initSpeculate hr | initCnt hr | giveUp hr
  | see hr | read hr | wake hr | firstRead hr | firstAgain hr | close hr | next hr | await hr
  | successor hr | drop hr =>
    exact .inl ⟨hlock rfl, by simp⟩
  | link hr => exact .inl ⟨hlock rfl, by cases tm <;> simp⟩
  | halt x hr => exact .inl ⟨hlock rfl, id⟩
  | @give lk₀ cnt hr | @firstGive lk₀ cnt hr => exact .inl ⟨hsame (hcnt lk₀ cnt), by simp⟩
  | @push lk₀ hr =>
    refine .inl ⟨hsame fun m => ?_, ?_⟩
    · by_cases hlk : lk = lk₀
      · subst hlk
        simp only [McsView.push, setRole_lock, setLock_self]
        by_cases hm : m < (c.lock lk).turns.length
        · rw [List.getElem?_append_left hm]
        · rw [List.getElem?_append_right (Nat.le_of_not_lt hm),
            List.getElem?_eq_none (Nat.le_of_not_lt hm)]
          cases m - (c.lock lk).turns.length <;> simp
      · simp [McsView.push, hlk]
    · rcases McsView.pushRole_cases c lk₀ with ⟨p, -, hp⟩ | ⟨-, hp⟩ <;> simp [McsView.push, hp]
  | @pushFirst lk₀ hr _ htail =>
    refine henter lk₀ setRole_self (by simp [hr]) (fun hlk => ?_) fun hlk => ?_
    · simp [McsView.enter, McsView.record, McsView.push, hlk]
    · subst hlk
      rw [(h.queue lk).tail, List.getLast?_eq_none_iff] at htail
      refine ⟨by simp [McsView.enter, McsView.record, McsView.push], ?_⟩
      simp [McsView.served, htail]
  | @wakeHolds lk₀ hr hwait =>
    refine henter lk₀ setRole_self (by simp [hr]) (fun hlk => ?_) fun hlk => ?_
    · simp [McsView.enter, McsView.record, hlk]
    · subst hlk
      refine ⟨by simp [McsView.enter, McsView.record], ?_⟩
      exact QueueOk.served_of_first ((h.queue lk).first hr (.inr hwait)).1 hr rfl
  | @serve lk₀ cnt hr | @firstServe lk₀ now hr =>
    refine henter lk₀ setRole_self (by simp [hr]) (fun hlk => ?_) fun hlk => ?_
    · simp [McsView.enter, McsView.record, hlk]
    · subst hlk
      refine ⟨by simp [McsView.enter, McsView.record], ?_⟩
      exact QueueOk.served_of_first ((h.queue lk).first hr (.inl rfl)).1 hr rfl
  | @clearTail lk₀ hr =>
    refine .inl ⟨hsame fun m => ?_, by simp [McsView.pop]⟩
    by_cases hlk : lk = lk₀
    · subst hlk
      simp [McsView.pop]
    · simp [McsView.pop, hlk]
  | @hand lk₀ m hr =>
    refine .inl ⟨hsame fun m => ?_, by simp [McsView.pop]⟩
    by_cases hlk : lk = lk₀
    · subst hlk
      simp [McsView.pop]
    · simp [McsView.pop, hlk]

end

namespace McsState

variable {s s' : McsState Tid Lid} {t u : Tid} {lk : Lid} {i : Nat}
  {cfg : TmParams} {tm : Bool} {a : McsAct Tid Lid}

omit [DecidableEq Tid] in
theorem ThreadsOk.node?_eq (h : ThreadsOk s) :
    McsThread.node? (s.thread t) lk = some i ↔
      (McsState.view s).role (t, i) = .queued lk .holds := by
  rw [← h.held_iff]
  unfold McsThread.node?
  cases hf : (s.thread t).held.find? (fun x => x.1 = lk) with
  | none =>
    simp only [Option.map_none, reduceCtorEq, false_iff]
    exact fun hi => by simpa using List.find?_eq_none.mp hf _ hi
  | some x =>
    have hx : x.1 = lk := by simpa using List.find?_some hf
    have hmem := List.mem_of_find?_eq_some hf
    simp only [Option.map_some, Option.some.injEq]
    constructor
    · rintro rfl
      rw [← hx]
      exact hmem
    · intro hi
      exact congrArg Prod.snd (List.inj_on_of_nodup_map (h t).nodup hmem hi hx)

omit [DecidableEq Tid] [DecidableEq Lid] in
/-- Two threads never have the same lock. -/
theorem ThreadsOk.exclusive (h : ThreadsOk s) (hinv : McsInv (McsState.view s))
    (ht : lk ∈ (s.thread t).held.map Prod.fst) (hu : lk ∈ (s.thread u).held.map Prod.fst) :
    t = u := by
  obtain ⟨⟨lk', i⟩, hi, rfl⟩ := List.mem_map.mp ht
  obtain ⟨⟨lk, j⟩, hj, rfl⟩ := List.mem_map.mp hu
  obtain ⟨hfirst, -⟩ := (hinv.queue lk).first (h.held_iff.mp hi) (.inl rfl)
  obtain ⟨hfirst', -⟩ := (hinv.queue lk).first (h.held_iff.mp hj) (.inl rfl)
  rw [hfirst] at hfirst'
  exact (Prod.mk.inj (Option.some.inj hfirst')).1

omit [DecidableEq Tid] in
@[simp] theorem setLock_released {l : McsLock Tid} (lk' : Lid) :
    ((s.setLock lk' l).lock lk).released =
      if lk = lk' then l.released else (s.lock lk).released := by
  by_cases hlk : lk = lk'
  · subst hlk
    simp [McsState.setLock]
  · simp [McsState.setLock, hlk]

omit [DecidableEq Tid] in
@[simp] theorem record_released {lk' : Lid} {n : Tid × Nat} {f : McsTurn Tid → McsTurn Tid} :
    ((s.record lk' n f).lock lk).released = (s.lock lk).released := by
  unfold McsState.record
  rw [setLock_released]
  split
  · rename_i hlk
    rw [hlk]
  · rfl

@[simp] theorem acquired_released {lk' : Lid} :
    ((s.acquired t lk' i).lock lk).released = (s.lock lk).released := by
  show ((s.record _ _ _).lock lk).released = _
  rw [record_released]

@[simp] theorem enqueue_released {lk' : Lid} :
    ((s.enqueue tm t lk' i).lock lk).released = (s.lock lk).released := by
  have hqueued : ∀ pc, ((s.enqueued t lk' i pc).lock lk).released = (s.lock lk).released := by
    intro pc
    show ((McsState.setLock _ _ _).lock lk).released = _
    rw [setLock_released]
    split
    · rename_i hlk
      rw [hlk]
    · rfl
  unfold McsState.enqueue
  split
  · exact hqueued _
  · split
    · exact hqueued _
    · rw [acquired_released, hqueued]

/-- The nodes that leave the queue are counted. -/
theorem released_step (hs : s.step cfg tm a = some s') (lk : Lid) :
    (s'.lock lk).released = (s.lock lk).released + (departs lk s a).length := by
  simp only [McsState.step] at hs
  split at hs
  · simp at hs
  cases a with
  -- a call, and what a transaction does, only move the thread
  | lock t lk' | trylock t lk' =>
    simp only [McsState.callLock] at hs
    split at hs
    · split at hs <;> simp only [Option.some.injEq, reduceCtorEq] at hs
      exact hs ▸ rfl
    · split at hs <;> simp only [Option.some.injEq, reduceCtorEq] at hs
      exact hs ▸ rfl
    · simp at hs
  | unlock t lk' =>
    simp only [McsState.callUnlock] at hs
    split at hs
    · split at hs <;> simp only [Option.some.injEq, reduceCtorEq] at hs
      exact hs ▸ rfl
    · split at hs
      · split at hs <;> simp only [Option.some.injEq] at hs <;> exact hs ▸ rfl
      · simp at hs
    · simp at hs
  | htmStart t | htmAbort t =>
    simp only [McsState.abortStep] at hs
    split at hs <;> simp only [Option.some.injEq, reduceCtorEq] at hs <;> exact hs ▸ rfl
  | run t =>
    cases hpc : (s.thread t).pc with
    | out | htmBegin lk' n c | speculating lk' n c =>
      simp [McsState.runLock, McsState.runUnlock, hpc] at hs
    -- most places of the code leave `released` alone
    | initLockNext lk' b n | initWait lk' b n | initSpeculate lk' b n | initCnt lk' b n
    | swapTail lk' n | link lk' n p | readCnt lk' n p | firstRead lk' n | firstReadAgain lk' n
    | haltFirst lk' n | haltNext lk' n x d | dealloc lk' n =>
      simp only [McsState.runLock, McsState.runUnlock, hpc, Option.some_or, Option.none_or,
        Option.some.injEq] at hs
      subst hs
      simp only [departs, hpc, List.length_nil, Nat.add_zero]
      first
        | rfl
        | exact enqueue_released
    -- entering the queue writes the tail, not what has left at the head
    | casTail lk' n =>
      simp only [McsState.runLock, McsState.runUnlock, hpc, Option.or_none] at hs
      split at hs <;> simp only [Option.some.injEq] at hs <;> subst hs <;>
        simp only [departs, hpc, List.length_nil, Nat.add_zero]
      · exact enqueue_released
      · rfl
    | spinWait lk' n =>
      simp only [McsState.runLock, McsState.runUnlock, hpc, Option.or_none] at hs
      split at hs <;> simp only [Option.some.injEq] at hs <;> subst hs <;>
        simp only [departs, hpc, List.length_nil, Nat.add_zero]
      exact acquired_released
    | spinCnt lk' n p | readServing lk' n c | checkSpeculate lk' n c | checkWait lk' n c
    | spinWaitTm lk' n c | assertServing lk' n c =>
      simp only [McsState.runLock, McsState.runUnlock, hpc, Option.or_none] at hs
      split at hs <;> simp only [Option.some.injEq] at hs <;> subst hs <;>
        simp only [departs, hpc, List.length_nil, Nat.add_zero] <;> rfl
    | writeCnt lk' n c | firstWriteCnt lk' n c =>
      simp only [McsState.runLock, hpc, Option.some_or, Option.some.injEq] at hs
      subst hs
      simp only [departs, hpc, List.length_nil, Nat.add_zero]
      exact record_released
    | writeServing lk' n c | firstWrite lk' n c =>
      simp only [McsState.runLock, hpc, Option.some_or, Option.some.injEq] at hs
      subst hs
      simp only [departs, hpc, List.length_nil, Nat.add_zero]
      rw [acquired_released, setLock_released]
      split
      · rename_i hlk
        rw [hlk]
      · rfl
    | readNext lk' n | spinNext lk' n | readSuccessor lk' n =>
      simp only [McsState.runLock, McsState.runUnlock, hpc, Option.none_or] at hs
      split at hs <;> simp only [Option.some.injEq] at hs <;> subst hs <;>
        simp only [departs, hpc, List.length_nil, Nat.add_zero] <;> rfl
    | haltAt lk' n x d =>
      simp only [departs, hpc, List.length_nil, Nat.add_zero]
      cases x with
      | none =>
        simp only [McsState.runLock, McsState.runUnlock, hpc, Option.none_or,
          Option.some.injEq] at hs
        exact hs ▸ rfl
      | some x =>
        simp only [McsState.runLock, McsState.runUnlock, hpc, Option.none_or] at hs
        split at hs <;> split at hs <;> simp only [Option.some.injEq] at hs <;> exact hs ▸ rfl
    -- the last node leaves with the tail, if nobody has come behind it
    | clearTail lk' n =>
      simp only [McsState.runLock, McsState.runUnlock, hpc, Option.none_or] at hs
      simp only [departs, hpc]
      split at hs <;> rename_i htail <;> simp only [Option.some.injEq] at hs <;> subst hs
      · show ((McsState.setLock _ _ _).lock lk).released = _
        rw [setLock_released]
        by_cases hlk : lk = lk'
        · subst hlk
          simp [htail]
        · simp [hlk, Ne.symm hlk]
      · simp [htail, McsState.goto, McsState.setThread]
    -- the node leaves with the store that hands the lock on
    | clearWait lk' n m =>
      simp only [McsState.runLock, McsState.runUnlock, hpc, Option.none_or,
        Option.some.injEq] at hs
      subst hs
      simp only [departs, hpc]
      show ((McsState.setLock _ _ _).lock lk).released = _
      rw [setLock_released]
      by_cases hlk : lk = lk'
      · subst hlk
        simp
      · simp [hlk, Ne.symm hlk, McsState.setNode]

omit [DecidableEq Tid] [DecidableEq Lid] in
/-- The first of the queue in the history. -/
theorem history_first {c : McsView Tid Lid} {n : Tid × Nat} (hj : (c.queue lk)[0]? = some n) :
    ((c.lock lk).turns.map McsTurn.node)[(c.lock lk).released]? = some n := by
  rw [McsView.queue, List.map_drop, List.getElem?_drop, Nat.add_zero] at hj
  exact hj

/-- The node that leaves the queue is the first. -/
theorem departs_first (hinv : McsInv (McsState.view s)) (lk : Lid)
    (a : McsAct Tid Lid) : departs lk s a = [] ∨ ∃ n, departs lk s a = [n] ∧
      ((s.lock lk).turns.map McsTurn.node)[(s.lock lk).released]? = some n := by
  have hfirst : ∀ {t n} r, McsPc.role? (s.thread t).pc = some (n, .queued lk r) →
      r.isBehind = false →
      ((s.lock lk).turns.map McsTurn.node)[(s.lock lk).released]? = some (t, n) :=
    fun _ hr hb => history_first ((hinv.queue lk).first (McsThread.role_self hr) (.inl hb)).1
  cases a with
  | run t =>
    cases hpc : (s.thread t).pc with
    | clearTail lk' mine =>
      by_cases hd : lk' = lk ∧ (s.lock lk').tail = some (t, mine)
      · obtain ⟨rfl, htail⟩ := hd
        refine .inr ⟨(t, mine), by simp [departs, hpc, htail], hfirst .closing ?_ rfl⟩
        rw [hpc]
        rfl
      · exact .inl (by simp only [departs, hpc, hd, if_false])
    | clearWait lk' mine m =>
      by_cases hd : lk' = lk
      · subst hd
        refine .inr ⟨(t, mine), by simp [departs, hpc], hfirst (.clearing m) ?_ rfl⟩
        rw [hpc]
        rfl
      · exact .inl (by simp [departs, hpc, hd])
    | _ => exact .inl (by simp [departs, hpc])
  | _ => exact .inl rfl

/-- The thread that gets the lock is the next in the history. -/
theorem acquires_next (h : ThreadsOk s) (hinv : McsInv (McsState.view s))
    (hs : s.step cfg tm a = some s') (lk : Lid) :
    (acquires cfg tm lk s a = [] ∧ (McsState.view s').served lk = (McsState.view s).served lk) ∨
    ∃ n, acquires cfg tm lk s a = [n] ∧
      (McsState.view s').served lk = (McsState.view s).served lk + 1 ∧
      ((s'.lock lk).turns.map McsTurn.node)[(McsState.view s).served lk]? = some n := by
  have h' := h.step hinv hs
  have hacq : acquires cfg tm lk s a =
      if (McsThread.node? (s.thread (McsAct.tid a)) lk).isSome then []
      else (McsThread.node? (s'.thread (McsAct.tid a)) lk).toList.map (McsAct.tid a, ·) := by
    simp only [acquires, hs]
  -- nobody gets the lock when no node begins to hold
  have hnone : (∀ i, (McsState.view s').role (McsAct.tid a, i) = .queued lk .holds →
      (McsState.view s).role (McsAct.tid a, i) = .queued lk .holds) →
      acquires cfg tm lk s a = [] := by
    intro hold
    rw [hacq]
    split
    · rfl
    · rename_i hsome
      cases hn : McsThread.node? (s'.thread (McsAct.tid a)) lk with
      | none => rfl
      | some i =>
        have hi := h.node?_eq.mpr (hold i (h'.node?_eq.mp hn))
        simp [hi] at hsome
  rcases view_step h hs with hsame | ⟨i, hstep⟩
  · left
    refine ⟨hnone fun i hi => ?_, by rw [hsame]⟩
    rw [hsame] at hi
    exact hi
  have hinv' := hinv.step hstep
  rcases hstep.served hinv hinv' lk with ⟨hserved, hold⟩ | ⟨hserved, hnew, hold⟩
  · left
    refine ⟨hnone fun j hj => ?_, hserved⟩
    by_cases hji : (McsAct.tid a, j) = (McsAct.tid a, i)
    · rw [hji] at hj ⊢
      exact hold hj
    · rw [← hstep.role_ne hji]
      exact hj
  · right
    obtain ⟨hfirst, -⟩ := (hinv'.queue lk).first hnew (.inl rfl)
    have hrel := (hinv'.queue lk).served_of_holding hnew rfl
    refine ⟨(McsAct.tid a, i), ?_, hserved, ?_⟩
    · have hbefore : McsThread.node? (s.thread (McsAct.tid a)) lk = none := by
        cases hn : McsThread.node? (s.thread (McsAct.tid a)) lk with
        | none => rfl
        | some j =>
          have hj := h.node?_eq.mp hn
          have hji : (McsAct.tid a, j) ≠ (McsAct.tid a, i) := fun e => hold (e ▸ hj)
          rw [← hstep.role_ne hji] at hj
          obtain ⟨hfirst', -⟩ := (hinv'.queue lk).first hj (.inl rfl)
          rw [hfirst] at hfirst'
          exact absurd (Option.some.inj hfirst').symm hji
      rw [hacq, hbefore, h'.node?_eq.mpr hnew]
      rfl
    · have hnext := history_first hfirst
      rw [show ((McsState.view s').lock lk).released = (McsState.view s).served lk by omega] at hnext
      exact hnext

end McsState

section

variable {cfg : TmParams} {tm : Bool} {tr : List (McsState Tid Lid × McsAct Tid Lid)}
  {s : McsState Tid Lid}

/-- A step adds to the history the node that it swaps into `tail`. -/
theorem McsState.turns_step {s' : McsState Tid Lid} {a : McsAct Tid Lid} (hok : ThreadsOk s)
    (hinv : McsInv (McsState.view s)) (hs : s.step cfg tm a = some s') (lk : Lid) :
    (s'.lock lk).turns.map McsTurn.node = (s.lock lk).turns.map McsTurn.node ++
      McsState.installs cfg tm lk s a := by
  simp only [McsState.installs, hs]
  rcases McsState.view_step hok hs with hsame | ⟨i, hstep⟩
  · have hlock : s'.lock = s.lock := congrArg McsView.lock hsame
    rw [hlock, if_pos rfl, List.append_nil]
  · exact hstep.turns_node hinv lk

theorem McsState.turns_length_step {s' : McsState Tid Lid} {a : McsAct Tid Lid}
    (hok : ThreadsOk s) (hinv : McsInv (McsState.view s)) (hs : s.step cfg tm a = some s')
    (lk : Lid) : (s.lock lk).turns.length ≤ (s'.lock lk).turns.length ∧
      (s'.lock lk).turns.length ≤ (s.lock lk).turns.length + 1 := by
  have hlen := congrArg List.length (McsState.turns_step hok hinv hs lk)
  have hone : (McsState.installs cfg tm lk s a).length ≤ 1 := by
    simp only [McsState.installs, hs]
    split
    · exact Nat.zero_le 1
    · cases (s'.lock lk).tail <;> simp
  rw [List.length_append, List.length_map, List.length_map] at hlen
  omega

/-- The three lists of a run are parts of the history of the queue. -/
theorem mcs_history {C : McsState Tid Lid → McsAct Tid Lid → Prop}
    (h : (mcs Tid Lid cfg tm).Run C tr s) (lk : Lid) :
    System.events (McsState.installs cfg tm lk) tr = (s.lock lk).turns.map McsTurn.node ∧
    System.events (McsState.departs lk) tr =
      ((s.lock lk).turns.map McsTurn.node).take (s.lock lk).released ∧
    System.events (McsState.acquires cfg tm lk) tr =
      ((s.lock lk).turns.map McsTurn.node).take ((McsState.view s).served lk) := by
  refine System.Run.invariant_trace (I := fun tr s =>
    System.events (McsState.installs cfg tm lk) tr = (s.lock lk).turns.map McsTurn.node ∧
    System.events (McsState.departs lk) tr =
      ((s.lock lk).turns.map McsTurn.node).take (s.lock lk).released ∧
    System.events (McsState.acquires cfg tm lk) tr =
      ((s.lock lk).turns.map McsTurn.node).take ((McsState.view s).served lk)) (fun s hs => ?_)
    (fun tr s a s' hr hi _ hs => ?_) h
  · obtain rfl : s = {} := hs
    exact ⟨rfl, rfl, rfl⟩
  -- each of the three lists grows at most by the entry that is next in the history
  obtain ⟨hok, hinv⟩ := mcs_invariant hr
  obtain ⟨hin, hout, hacq⟩ := hi
  have hs' : s.step cfg tm a = some s' := hs
  have hturns := McsState.turns_step hok hinv hs' lk
  have hle : (s.lock lk).released ≤ ((s.lock lk).turns.map McsTurn.node).length := by
    rw [List.length_map]
    exact (hinv.queue lk).released_le
  have hserved : (McsState.view s).served lk ≤ ((s.lock lk).turns.map McsTurn.node).length := by
    rw [List.length_map]
    exact (hinv.queue lk).served_le
  simp only [System.events_append, System.events_singleton]
  refine ⟨by rw [hin, hturns], ?_, ?_⟩
  · rw [hout, McsState.released_step hs' lk, hturns]
    rcases McsState.departs_first hinv lk a with hd | ⟨n, hd, hn⟩
    · rw [hd, List.append_nil, List.length_nil, Nat.add_zero, List.take_append_of_le_length hle]
    · rw [hd, List.length_singleton, List.take_add_one, List.take_append_of_le_length hle,
        List.getElem?_append_left (List.getElem?_eq_some_iff.mp hn).1, hn]
      rfl
  · rw [hacq]
    rcases McsState.acquires_next hok hinv hs' lk with ⟨ha, hsv⟩ | ⟨n, ha, hsv, hn⟩
    · rw [ha, hsv, hturns, List.append_nil, List.take_append_of_le_length hserved]
    · rw [ha, hsv, List.take_add_one, hn, hturns, List.take_append_of_le_length hserved]
      rfl

/-- What has been swapped in and has not left is the queue. -/
theorem mcs_queue_eq {C : McsState Tid Lid → McsAct Tid Lid → Prop}
    (h : (mcs Tid Lid cfg tm).Run C tr s) (lk : Lid) :
    System.events (McsState.installs cfg tm lk) tr =
      System.events (McsState.departs lk) tr ++ (McsState.view s).queue lk := by
  obtain ⟨hin, hout, -⟩ := mcs_history h lk
  rw [hin, hout, McsView.queue, List.map_drop]
  exact (List.take_append_drop _ _).symm

/-- Only an unlock clears a flag, and only that of its direct successor. -/
theorem McsStep.wait_cleared {c c' : McsView Tid Lid} {n m : Tid × Nat}
    (hs : McsStep tm c n c') (hm : (c.node m).wait = true) (hm' : (c'.node m).wait = false) :
    ∃ lk, c.role n = .queued lk (.clearing m) := by
  have hset : ∀ {x : Tid × Nat} {v : McsNode Tid}, v.wait = (c.node x).wait →
      ((c.setNode x v).node m).wait = (c.node m).wait := by
    intro x v hv
    by_cases hx : m = x
    · subst hx
      rw [setNode_self, hv]
    · rw [setNode_ne hx]
  -- a step that leaves the flag as it was is none of those in question
  have hkept : (c'.node m).wait ≠ (c.node m).wait := by
    rw [hm, hm']
    exact Bool.false_ne_true
  cases hs with
  | prepare | giveUp | see | read | wake | wakeHolds | serve | firstRead | firstAgain
  | firstServe | close | next | await | successor | clearTail => exact absurd rfl hkept
  | initLockNext | initSpeculate | initCnt | link | halt | drop => exact (hkept (hset rfl)).elim
  -- a new node sets its flag before it can be waited on
  | initWait =>
    by_cases hx : m = n
    · subst hx
      simp at hm'
    · exact absurd (by simp [hx]) hkept
  | push | pushFirst => exact (hkept (hset rfl)).elim
  | give | firstGive => exact (hkept (hset rfl)).elim
  | @hand lk x hr =>
    by_cases hx : m = x
    · subst hx
      exact ⟨lk, hr⟩
    · exact absurd (by simp [McsView.pop, hx]) hkept

omit [DecidableEq Tid] [DecidableEq Lid] in
/-- A thread about to clear a flag, by its node. -/
theorem McsState.pc_of_clearing {t : Tid} {i : Nat} {lk : Lid} {m : Tid × Nat}
    (hr : (McsState.view s).role (t, i) = .queued lk (.clearing m)) :
    (s.thread t).pc = .clearWait lk i m := by
  have hrole := McsState.role?_of_view hr nofun fun _ => by simp
  generalize (s.thread t).pc = pc at hrole
  cases pc <;> simp only [McsPc.role?, Option.some.injEq, Prod.mk.injEq, McsRole.queued.injEq,
    QueueRole.clearing.injEq, reduceCtorEq, and_false] at hrole
  obtain ⟨rfl, rfl, rfl⟩ := hrole
  rfl

/-- What the callers of the locks rely on, after the steps `tr` have led to `s`. -/
structure McsLaw (cfg : TmParams) (tm : Bool) (tr : List (McsState Tid Lid × McsAct Tid Lid))
    (s : McsState Tid Lid) : Prop where
  /-- At most one thread has the lock. -/
  exclusive : ∀ lk t u, lk ∈ (s.thread t).held.map Prod.fst →
    lk ∈ (s.thread u).held.map Prod.fst → t = u
  /-- The threads get the lock in the order in which their nodes were swapped into `tail`. -/
  order : ∀ lk, System.events (McsState.acquires cfg tm lk) tr <+:
    System.events (McsState.installs cfg tm lk) tr
  /-- An unlock leaves the queue empty, or clears the flag of the node behind its own. -/
  departs : ∀ lk a s' n, (mcs Tid Lid cfg tm).step s a = some s' →
    McsState.departs lk s a = [n] →
    (System.events (McsState.installs cfg tm lk) tr =
        System.events (McsState.departs lk) tr ++ [n] ∧
      (s'.lock lk).tail = none ∧ s'.node = s.node) ∨
    ∃ next rest, System.events (McsState.installs cfg tm lk) tr =
        System.events (McsState.departs lk) tr ++ n :: next :: rest ∧
      s'.node = Function.update s.node next { s.node next with wait := false }
  /-- No other flag is cleared. -/
  cleared : ∀ a s' m, (mcs Tid Lid cfg tm).step s a = some s' → (s.node m).wait = true →
    (s'.node m).wait = false → ∃ lk n rest, McsState.departs lk s a = [n] ∧
      System.events (McsState.installs cfg tm lk) tr =
        System.events (McsState.departs lk) tr ++ n :: m :: rest

/-- `mcs` and `mcs_tm` are exclusive and first-come first-served in every run. -/
theorem mcs_exclusive_fifo (h : (mcs Tid Lid cfg tm).Run System.Free tr s) :
    McsLaw cfg tm tr s := by
  obtain ⟨hok, hinv⟩ := mcs_invariant h
  refine ⟨fun lk t u ht hu => hok.exclusive hinv ht hu, fun lk => ?_, fun lk a s' n hs hd => ?_,
    fun a s' m hs hm hm' => ?_⟩
  · -- both lists are parts of the history of the queue
    obtain ⟨hin, -, hacq⟩ := mcs_history h lk
    rw [hin, hacq]
    exact List.take_prefix ..
  · -- the node is the first of the queue
    rw [mcs_queue_eq h lk]
    simp only [mcs, McsState.step] at hs
    split at hs
    · simp at hs
    cases a with
    | run t =>
      cases hpc : (s.thread t).pc with
      | clearTail lk' mine =>
        simp only [McsState.departs, hpc] at hd
        split at hd <;> simp only [List.cons.injEq, and_true, reduceCtorEq] at hd
        rename_i hdep
        obtain ⟨rfl, htail⟩ := hdep
        subst hd
        have hrole : (McsState.view s).role (t, mine) = .queued lk' .closing :=
          McsThread.role_self (by rw [hpc]; rfl)
        -- `clearTail`: the node is alone, and the queue is empty afterwards
        left
        rw [(hinv.queue lk').queue_eq_singleton hrole rfl htail]
        simp only [McsState.runLock, McsState.runUnlock, hpc, Option.none_or, htail, if_true,
          Option.some.injEq] at hs
        subst hs
        exact ⟨rfl, by simp [McsState.goto, McsState.setThread, McsState.setLock], rfl⟩
      | clearWait lk' mine m =>
        simp only [McsState.departs, hpc] at hd
        split at hd <;> simp only [List.cons.injEq, and_true, reduceCtorEq] at hd
        rename_i hdep
        subst hdep hd
        have hrole : (McsState.view s).role (t, mine) = .queued lk' (.clearing m) :=
          McsThread.role_self (by rw [hpc]; rfl)
        -- `clearWait`: the node behind it is the first afterwards
        obtain ⟨-, he⟩ := (hinv.queue lk').first hrole (.inl rfl)
        obtain ⟨rest, hq⟩ := (hinv.queue lk').queue_eq_cons hrole rfl (he.clears m rfl)
        simp only [McsState.runLock, McsState.runUnlock, hpc, Option.none_or,
          Option.some.injEq] at hs
        subst hs
        exact .inr ⟨m, rest, by rw [hq], rfl⟩
      | _ => simp [McsState.departs, hpc] at hd
    | _ => simp [McsState.departs] at hd
  · -- a flag is only cleared by the unlock whose node is first
    have hs' : s.step cfg tm a = some s' := hs
    rcases McsState.view_step hok hs' with hsame | ⟨i, hstep⟩
    · have hnode : s'.node = s.node := congrArg McsView.node hsame
      rw [hnode, hm] at hm'
      simp at hm'
    obtain ⟨lk, hrole⟩ := hstep.wait_cleared hm hm'
    have hpc := McsState.pc_of_clearing hrole
    obtain ⟨-, he⟩ := (hinv.queue lk).first hrole (.inl rfl)
    obtain ⟨rest, hq⟩ := (hinv.queue lk).queue_eq_cons hrole rfl (he.clears m rfl)
    refine ⟨lk, (McsAct.tid a, i), rest, ?_, by rw [mcs_queue_eq h lk, hq]⟩
    simp only [McsState.step] at hs'
    split at hs'
    · simp at hs'
    cases a with
    | run t =>
      have hpc' : (s.thread t).pc = .clearWait lk i m := hpc
      simp [McsState.departs, hpc', McsAct.tid]
    | lock t lk' | trylock t lk' =>
      have hpc' : (s.thread t).pc = .clearWait lk i m := hpc
      simp [McsState.callLock, hpc'] at hs'
    | unlock t lk' =>
      have hpc' : (s.thread t).pc = .clearWait lk i m := hpc
      simp [McsState.callUnlock, hpc'] at hs'
    | htmStart t | htmAbort t =>
      have hpc' : (s.thread t).pc = .clearWait lk i m := hpc
      simp [McsState.abortStep, hpc'] at hs'

/-- Thread 1 queues behind thread 0, which is about to hand the lock over to it. -/
theorem mcs_exclusive_fifo_handover :
    ∃ tr s, @McsLaw (Fin 2) Unit _ _ {} true tr s ∧ (s.thread 0).held = [] ∧
      (s.thread 0).pc = .clearWait () 0 (1, 0) := by
  have hsteps : ((mcs (Fin 2) Unit {} true).exec {}
      [[.lock 0 ()], .replicate 9 (.run 0), [.lock 1 ()], .replicate 6 (.run 1),
        [.unlock 0 ()], .replicate 6 (.run 0)].flatten).map
      (fun s => ((s.thread 0).held, (s.thread 0).pc)) = some ([], .clearWait () 0 (1, 0)) := by
    decide
  obtain ⟨s, hs, hpc⟩ := Option.map_eq_some_iff.mp hsteps
  rw [Prod.mk.injEq] at hpc
  exact ⟨_, s, mcs_exclusive_fifo ((System.Run.init (M := mcs (Fin 2) Unit {} true) rfl).exec hs),
    hpc⟩

end

end TxLock.Spec
