import TxLock.ForStd.TryLock
import TxLock.Spec.McsCorrect
import TxLock.Spec.McsNodes

/-!
# Trylock of the queue locks

`mcs_lock_common` with `try_lock` fills in a node and swaps it into `tail` only if the queue
is empty. When that swap fails, neither the lock nor the used list of the thread has
changed. When it succeeds, nobody else can get the lock, and the call goes on to return 0
as `mcs_lock` does when it finds the queue empty.

With `mcs_tm` a call returns as long as the assertion of `mcs_lock_common` does not end the
process (`McsServed`).

## Key results

- `mcs_trylockRep`: the trylock is truthful
-/

namespace TxLock.Spec

open Native McsView

variable {Tid Lid : Type}

/-- The lock that a thread is giving up, while its node has not left the queue. -/
def McsPc.releasing : McsPc Tid Lid → Option Lid
  | .readNext lk _ | .clearTail lk _ | .spinNext lk _ | .haltFirst lk _ | .haltAt lk _ _ _
  | .haltNext lk _ _ _ | .readSuccessor lk _ | .clearWait lk _ _ => some lk
  | .out | .initLockNext _ _ _ | .initWait _ _ _ | .initSpeculate _ _ _ | .initCnt _ _ _
  | .swapTail _ _ | .casTail _ _ | .link _ _ _ | .spinWait _ _ | .spinCnt _ _ _ | .readCnt _ _ _
  | .writeCnt _ _ _ | .readServing _ _ _ | .htmBegin _ _ _ | .checkSpeculate _ _ _
  | .checkWait _ _ _ | .speculating _ _ _ | .spinWaitTm _ _ _ | .assertServing _ _ _
  | .writeServing _ _ _ | .firstRead _ _ | .firstWriteCnt _ _ _ | .firstReadAgain _ _
  | .firstWrite _ _ _ | .dealloc _ _ => none

/-- The trylock a thread is in, with the steps it takes before its last one. The last four
    places are also those of a lock that has found the queue empty. -/
def McsPc.trying : McsPc Tid Lid → Option (Lid × Nat)
  | .initLockNext lk tryLock _ => if tryLock then some (lk, 8) else none
  | .initWait lk tryLock _ => if tryLock then some (lk, 7) else none
  | .initSpeculate lk tryLock _ => if tryLock then some (lk, 6) else none
  | .initCnt lk tryLock _ => if tryLock then some (lk, 5) else none
  | .casTail lk _ => some (lk, 4)
  | .firstRead lk _ => some (lk, 3)
  | .firstWriteCnt lk _ _ => some (lk, 2)
  | .firstReadAgain lk _ => some (lk, 1)
  | .firstWrite lk _ _ => some (lk, 0)
  | .out | .swapTail _ _ | .link _ _ _ | .spinWait _ _ | .spinCnt _ _ _ | .readCnt _ _ _
  | .writeCnt _ _ _ | .readServing _ _ _ | .htmBegin _ _ _ | .checkSpeculate _ _ _
  | .checkWait _ _ _ | .speculating _ _ _ | .spinWaitTm _ _ _ | .assertServing _ _ _
  | .writeServing _ _ _ | .readNext _ _ | .clearTail _ _ | .spinNext _ _ | .haltFirst _ _
  | .haltAt _ _ _ _ | .haltNext _ _ _ _ | .readSuccessor _ _ | .clearWait _ _ _
  | .dealloc _ _ => none

/-- The node is in the queue, alone, and the call will return 0. -/
def McsPc.isFirst : McsPc Tid Lid → Bool
  | .firstRead _ _ | .firstWriteCnt _ _ _ | .firstReadAgain _ _ | .firstWrite _ _ _ => true
  | .out | .initLockNext _ _ _ | .initWait _ _ _ | .initSpeculate _ _ _ | .initCnt _ _ _
  | .swapTail _ _ | .casTail _ _ | .link _ _ _ | .spinWait _ _ | .spinCnt _ _ _ | .readCnt _ _ _
  | .writeCnt _ _ _ | .readServing _ _ _ | .htmBegin _ _ _ | .checkSpeculate _ _ _
  | .checkWait _ _ _ | .speculating _ _ _ | .spinWaitTm _ _ _ | .assertServing _ _ _
  | .writeServing _ _ _ | .readNext _ _ | .clearTail _ _ | .spinNext _ _ | .haltFirst _ _
  | .haltAt _ _ _ _ | .haltNext _ _ _ _ | .readSuccessor _ _ | .clearWait _ _ _
  | .dealloc _ _ => false

/-- What a thread is to the callers of the lock. -/
def McsThread.view (th : McsThread Tid Lid) : TryView Lid where
  holds lk := lk ∈ th.held.map Prod.fst ∨ McsPc.releasing th.pc = some lk
  told lk := lk ∈ th.held.map Prod.fst
  trying := McsPc.trying th.pc
  sure := McsPc.isFirst th.pc = true

/-- What a step outside transactions is to the callers of the lock. -/
def McsState.events [DecidableEq Tid] (tm : Bool) (s : McsState Tid Lid) :
    McsAct Tid Lid → List (Lid × LockEvent)
  | .trylock t lk =>
    match (s.thread t).pc with
    | .out => [(lk, .tryCall)]
    | _ => []
  | .unlock t lk =>
    match (s.thread t).pc with
    | .out => [(lk, .unlockCall)]
    | _ => []
  | .run t =>
    match (s.thread t).pc with
    -- the swap of `tail` is the last step of `mcs` when the queue is empty
    | .swapTail lk _ =>
      if (s.lock lk).tail = none ∧ tm = false then [(lk, .take), (lk, .answer 0)] else []
    | .casTail lk _ =>
      if (s.lock lk).tail = none then
        if tm then [] else [(lk, .take), (lk, .answer 0)]
      else [(lk, .answer 1)]
    | .spinWait lk mine =>
      if (s.node (t, mine)).wait then [] else [(lk, .take), (lk, .answer 0)]
    | .writeServing lk _ _ | .firstWrite lk _ _ => [(lk, .take), (lk, .answer 0)]
    | .clearTail lk mine => if (s.lock lk).tail = some (t, mine) then [(lk, .give)] else []
    | .clearWait lk _ _ => [(lk, .give)]
    | _ => []
  | .lock _ _ | .htmStart _ | .htmAbort _ => []

/-- `mcs` and `mcs_tm` as their callers see them. -/
def mcsView (Tid Lid : Type) [DecidableEq Tid] [DecidableEq Lid] (cfg : TmParams) (tm : Bool) :
    LockView Tid where
  State := McsState Tid Lid
  Act := McsAct Tid Lid
  Lock := Lid
  Words := Option (Tid × Nat) × BitVec 64
  Own := List Nat
  sys := mcs Tid Lid cfg tm
  actor := McsAct.tid
  run := .run
  events := McsState.events tm
  words s lk := ((s.lock lk).tail, (s.lock lk).nowServing)
  own s t := McsPool.usedNodes (s.thread t).pool

/-- When a thread of `mcs_tm` checks that `now_serving` is the position before its own, it is. -/
def McsServed (tm : Bool) (s : McsState Tid Lid) : McsAct Tid Lid → Prop
  | .run t => tm = true → ∀ {lk mine cnt}, (s.thread t).pc = .assertServing lk mine cnt →
    (s.lock lk).nowServing = cnt - 1
  | .lock _ _ | .trylock _ _ | .unlock _ _ | .htmStart _ | .htmAbort _ => True

/-- The step has changed neither a lock nor the used list of thread `t`. -/
def McsUnchanged (s s' : McsState Tid Lid) (t : Tid) : Prop :=
  s'.lock = s.lock ∧
    McsPool.usedNodes (s'.thread t).pool = McsPool.usedNodes (s.thread t).pool

/-- The thread has the same locks and gives none up. -/
theorem McsThread.view_congr {th th' : McsThread Tid Lid} (hheld : th'.held = th.held)
    (hrel : McsPc.releasing th'.pc = McsPc.releasing th.pc) :
    (∀ k, (McsThread.view th').holds k ↔ (McsThread.view th).holds k) ∧
      ∀ k, (McsThread.view th').told k ↔ (McsThread.view th).told k := by
  constructor
  · intro k
    simp only [McsThread.view, hheld, hrel]
  · intro k
    simp only [McsThread.view, hheld]

/-- A step that only moves the thread, not in a call of trylock. -/
theorem McsThread.lockStep_quiet {kept : Prop} {th th' : McsThread Tid Lid}
    (hheld : th'.held = th.held) (hrel : McsPc.releasing th'.pc = McsPc.releasing th.pc)
    (hx : McsPc.trying th.pc = none) (hx' : McsPc.trying th'.pc = none) :
    LockStep 8 kept (McsThread.view th) (McsThread.view th') [] := by
  obtain ⟨hh, ht⟩ := McsThread.view_congr hheld hrel
  exact .quiet hh ht hx hx'

/-- A step of a trylock that goes on. -/
theorem McsThread.lockStep_goesOn {kept : Prop} {th th' : McsThread Tid Lid} {lk : Lid} {m m' : Nat}
    (hheld : th'.held = th.held) (hrel : McsPc.releasing th'.pc = McsPc.releasing th.pc)
    (hx : McsPc.trying th.pc = some (lk, m)) (hx' : McsPc.trying th'.pc = some (lk, m'))
    (hm : m' < m) (hsure : McsPc.isFirst th.pc = true → McsPc.isFirst th'.pc = true)
    (hkept : kept ∨ McsPc.isFirst th'.pc = true) :
    LockStep 8 kept (McsThread.view th) (McsThread.view th') [] := by
  obtain ⟨hh, ht⟩ := McsThread.view_congr hheld hrel
  exact .goesOn hh ht hx hx' hm hsure hkept

/-- Trylock is called. -/
theorem McsThread.lockStep_tries {kept : Prop} {th th' : McsThread Tid Lid} {lk : Lid}
    (hheld : th'.held = th.held) (hrel : McsPc.releasing th'.pc = McsPc.releasing th.pc)
    (hx : McsPc.trying th.pc = none) (hx' : McsPc.trying th'.pc = some (lk, 8)) (hkept : kept) :
    LockStep 8 kept (McsThread.view th) (McsThread.view th') [(lk, .tryCall)] := by
  obtain ⟨hh, ht⟩ := McsThread.view_congr hheld hrel
  exact .tries hh ht hx hx' (Nat.le_refl 8) hkept

/-- Lock has found the queue empty. -/
theorem McsThread.lockStep_joins {kept : Prop} {th th' : McsThread Tid Lid}
    (hheld : th'.held = th.held) (hrel : McsPc.releasing th'.pc = McsPc.releasing th.pc)
    (hx : McsPc.trying th.pc = none) (hsure : McsPc.isFirst th'.pc = true) :
    LockStep 8 kept (McsThread.view th) (McsThread.view th') [] := by
  obtain ⟨hh, ht⟩ := McsThread.view_congr hheld hrel
  exact .joins hh ht hx hsure

/-- Trylock gives up and returns 1. -/
theorem McsThread.lockStep_fails {kept : Prop} {th th' : McsThread Tid Lid} {lk : Lid} {m : Nat}
    (hheld : th'.held = th.held) (hrel : McsPc.releasing th'.pc = McsPc.releasing th.pc)
    (hx : McsPc.trying th.pc = some (lk, m)) (hsure : McsPc.isFirst th.pc ≠ true) (hkept : kept) :
    LockStep 8 kept (McsThread.view th) (McsThread.view th') [(lk, .answer 1)] := by
  obtain ⟨hh, ht⟩ := McsThread.view_congr hheld hrel
  exact .fails hh ht hx (by decide) hsure hkept

/-- The thread has got the lock `lk`. -/
theorem McsThread.view_acquired {th th' : McsThread Tid Lid} {lk : Lid} {n : Nat}
    (hrel : McsPc.releasing th.pc = none) (hpc : th'.pc = .out)
    (hheld : th'.held = (lk, n) :: th.held) :
    (∀ k, (McsThread.view th').holds k ↔ (McsThread.view th).holds k ∨ k = lk) ∧
      ∀ k, (McsThread.view th').told k ↔ (McsThread.view th).told k ∨ k = lk := by
  have hrel' : McsPc.releasing th'.pc = none := by
    rw [hpc]
    rfl
  constructor
  · intro k
    simp [McsThread.view, hrel, hrel', hheld, or_comm]
  · intro k
    simp [McsThread.view, hheld, or_comm]

/-- Lock gets the lock and returns. -/
theorem McsThread.lockStep_locks {kept : Prop} {th th' : McsThread Tid Lid} {lk : Lid} {n : Nat}
    (hrel : McsPc.releasing th.pc = none) (hx : McsPc.trying th.pc = none) (hpc : th'.pc = .out)
    (hheld : th'.held = (lk, n) :: th.held) :
    LockStep 8 kept (McsThread.view th) (McsThread.view th') [(lk, .take), (lk, .answer 0)] := by
  obtain ⟨hh, ht⟩ := McsThread.view_acquired hrel hpc hheld
  refine .locks hh ht hx ?_
  rw [McsThread.view, hpc]
  rfl

/-- Trylock gets the lock, which the thread does not have, and returns. -/
theorem McsThread.lockStep_gets {kept : Prop} {th th' : McsThread Tid Lid} {lk : Lid} {n m : Nat}
    (hrel : McsPc.releasing th.pc = none) (hx : McsPc.trying th.pc = some (lk, m))
    (hfree : lk ∉ th.held.map Prod.fst) (hpc : th'.pc = .out)
    (hheld : th'.held = (lk, n) :: th.held) :
    LockStep 8 kept (McsThread.view th) (McsThread.view th') [(lk, .take), (lk, .answer 0)] := by
  obtain ⟨hh, ht⟩ := McsThread.view_acquired hrel hpc hheld
  refine .gets hh ht hx ?_
  simp only [McsThread.view, hrel, reduceCtorEq, or_false]
  exact hfree

/-- The node of the lock `lk` leaves the queue. -/
theorem McsThread.lockStep_gives {kept : Prop} {th th' : McsThread Tid Lid} {lk : Lid}
    (hheld : th'.held = th.held) (hrel : McsPc.releasing th.pc = some lk)
    (hrel' : McsPc.releasing th'.pc = none) (hx : McsPc.trying th.pc = none)
    (hx' : McsPc.trying th'.pc = none) (hfree : lk ∉ th.held.map Prod.fst) :
    LockStep 8 kept (McsThread.view th) (McsThread.view th') [(lk, .give)] := by
  refine .gives (fun k => ?_) (fun k => ?_) hx hx'
  · simp only [McsThread.view, hheld, hrel, hrel', reduceCtorEq, or_false, Option.some.injEq]
    constructor
    · intro hk
      exact ⟨.inl hk, fun e => hfree (e ▸ hk)⟩
    · intro hk
      exact hk.1.resolve_right fun e => hk.2 e.symm
  · simp only [McsThread.view, hheld]

section Step

variable [DecidableEq Tid] [DecidableEq Lid] {cfg : TmParams} {tm : Bool}
  {s s' : McsState Tid Lid} {a : McsAct Tid Lid} {t u : Tid} {lk : Lid}

namespace McsState

/-- A node that finds the queue empty: with `tm` the thread goes on, without it has the lock. -/
theorem enqueue_self_of_none (htail : (s.lock lk).tail = none) (n : Nat) :
    (s.enqueue tm t lk n).thread t = if tm then
        { s.thread t with pc := .firstRead lk n, pool := (s.thread t).pool.useNode n }
      else { s.thread t with pc := .out, pool := (s.thread t).pool.useNode n,
                             held := (lk, n) :: (s.thread t).held, ret := some 0 } := by
  unfold McsState.enqueue
  rw [htail]
  cases tm with
  | true => exact enqueued_self n _
  | false =>
    show (McsState.acquired _ t lk n).thread t = _
    rw [acquired_self, enqueued_self]
    rfl

theorem enqueue_self_of_some {pred : Tid × Nat} (htail : (s.lock lk).tail = some pred) (n : Nat) :
    (s.enqueue tm t lk n).thread t =
      { s.thread t with pc := .link lk n pred, pool := (s.thread t).pool.useNode n } := by
  unfold McsState.enqueue
  rw [htail]
  exact enqueued_self n _

/-- The next step of `mcs_lock_common`. -/
theorem lockStep_runLock (h : ThreadsOk s) (hinv : McsInv (McsState.view s))
    (hs : s.runLock cfg tm t = some s') :
    LockStep 8 (McsUnchanged s s' t) (McsThread.view (s.thread t)) (McsThread.view (s'.thread t))
      (McsState.events tm s (.run t)) := by
  have hok := h t
  -- a node that is in the queue is not that of a lock the thread has
  have hbusy : ∀ {lk n}, McsPc.place (s.thread t).pc = .busy lk n →
      lk ∉ (s.thread t).held.map Prod.fst := by
    intro lk n hp
    rw [hp] at hok
    obtain ⟨-, -, -, hlk, -⟩ := hok.pool
    exact hlk
  unfold McsState.runLock at hs
  unfold McsState.events
  cases hpc : (s.thread t).pc with
  | out | htmBegin lk n c | speculating lk n c | readNext lk n | clearTail lk n | spinNext lk n
  | haltFirst lk n | haltAt lk n cur d | haltNext lk n cur d | readSuccessor lk n
  | clearWait lk n m | dealloc lk n => simp [hpc] at hs
  | initLockNext lk b n =>
    simp only [hpc, Option.some.injEq] at hs ⊢
    subst hs
    rw [setThread_self]
    cases b with
    | false => exact McsThread.lockStep_quiet rfl (by rw [hpc]; rfl) (by rw [hpc]; rfl) rfl
    | true =>
      refine McsThread.lockStep_goesOn rfl (by rw [hpc]; rfl) (by rw [hpc]; rfl) rfl (by decide)
        (by simp [hpc, McsPc.isFirst]) (.inl ⟨rfl, ?_⟩)
      rw [setThread_self]
      rfl
  | initWait lk b n | initSpeculate lk b n | initCnt lk b n =>
    simp only [hpc, Option.some.injEq] at hs ⊢
    subst hs
    rw [goto_self]
    cases b with
    | false => exact McsThread.lockStep_quiet rfl (by rw [hpc]; rfl) (by rw [hpc]; rfl) rfl
    | true =>
      refine McsThread.lockStep_goesOn rfl (by rw [hpc]; rfl) (by rw [hpc]; rfl) rfl (by decide)
        (by simp [hpc, McsPc.isFirst]) (.inl ⟨rfl, ?_⟩)
      rw [goto_self]
      rfl
  | swapTail lk n =>
    simp only [hpc, Option.some.injEq] at hs ⊢
    subst hs
    have hrel : McsPc.releasing (s.thread t).pc = none := by rw [hpc]; rfl
    have hx : McsPc.trying (s.thread t).pc = none := by rw [hpc]; rfl
    cases htail : (s.lock lk).tail with
    | some pred =>
      rw [enqueue_self_of_some htail]
      exact McsThread.lockStep_quiet rfl (by rw [hrel]; rfl) hx rfl
    | none =>
      rw [enqueue_self_of_none htail]
      cases tm with
      | true =>
        exact McsThread.lockStep_joins rfl (by rw [hrel]; rfl) hx rfl
      | false =>
        exact McsThread.lockStep_locks hrel hx rfl rfl
  | casTail lk n =>
    simp only [hpc] at hs ⊢
    have hrel : McsPc.releasing (s.thread t).pc = none := by rw [hpc]; rfl
    have hx : McsPc.trying (s.thread t).pc = some (lk, 4) := by rw [hpc]; rfl
    split at hs <;> rename_i htail <;> simp only [Option.some.injEq] at hs <;> subst hs
    · rw [enqueue_self_of_none htail, if_pos htail]
      have hfree : lk ∉ (s.thread t).held.map Prod.fst := h.not_held_of_free hinv htail
      cases tm with
      | true =>
        exact McsThread.lockStep_goesOn rfl (by rw [hrel]; rfl) hx rfl (by decide) (fun _ => rfl)
          (.inr rfl)
      | false =>
        exact McsThread.lockStep_gets hrel hx hfree rfl rfl
    · rw [if_neg htail, setThread_self]
      refine McsThread.lockStep_fails rfl (by rw [hrel]; rfl) hx ?_ ⟨rfl, ?_⟩
      · simp [hpc, McsPc.isFirst]
      · rw [setThread_self]
  | link lk n p =>
    simp only [hpc, Option.some.injEq] at hs ⊢
    subst hs
    rw [goto_self]
    cases tm <;> exact McsThread.lockStep_quiet rfl (by rw [hpc]; rfl) (by rw [hpc]; rfl) rfl
  | readCnt lk n p | writeCnt lk n c =>
    simp only [hpc, Option.some.injEq] at hs ⊢
    subst hs
    rw [goto_self]
    exact McsThread.lockStep_quiet rfl (by rw [hpc]; rfl) (by rw [hpc]; rfl) rfl
  | spinCnt lk n p | readServing lk n c | checkSpeculate lk n c | checkWait lk n c
  | spinWaitTm lk n c | assertServing lk n c =>
    simp only [hpc] at hs ⊢
    have hno : McsPc.trying (s.thread t).pc = none := by rw [hpc]; rfl
    split at hs <;> simp only [Option.some.injEq] at hs <;> subst hs <;>
      first
        | exact McsThread.lockStep_quiet rfl rfl hno hno
        | rw [goto_self]
          exact McsThread.lockStep_quiet rfl (by rw [hpc]; rfl) hno rfl
        | rw [setThread_self]
          exact McsThread.lockStep_quiet rfl (by rw [hpc]; rfl) hno rfl
  | spinWait lk n =>
    simp only [hpc] at hs ⊢
    have hrel : McsPc.releasing (s.thread t).pc = none := by rw [hpc]; rfl
    have hno : McsPc.trying (s.thread t).pc = none := by rw [hpc]; rfl
    split at hs <;> rename_i hwait <;> simp only [Option.some.injEq] at hs <;> subst hs
    · rw [if_pos hwait]
      exact McsThread.lockStep_quiet rfl rfl hno hno
    · rw [if_neg hwait, acquired_self]
      exact McsThread.lockStep_locks hrel hno rfl rfl
  | writeServing lk n c =>
    simp only [hpc, Option.some.injEq] at hs ⊢
    subst hs
    rw [acquired_self]
    exact McsThread.lockStep_locks (by rw [hpc]; rfl) (by rw [hpc]; rfl) rfl rfl
  | firstRead lk n | firstWriteCnt lk n c | firstReadAgain lk n =>
    simp only [hpc, Option.some.injEq] at hs ⊢
    subst hs
    rw [goto_self]
    exact McsThread.lockStep_goesOn rfl (by rw [hpc]; rfl) (by rw [hpc]; rfl) rfl (by decide)
      (fun _ => rfl) (.inr rfl)
  | firstWrite lk n now =>
    simp only [hpc, Option.some.injEq] at hs ⊢
    subst hs
    rw [acquired_self]
    have hrel : McsPc.releasing (s.thread t).pc = none := by rw [hpc]; rfl
    have hfree : lk ∉ (s.thread t).held.map Prod.fst := hbusy (by rw [hpc]; rfl)
    exact McsThread.lockStep_gets (m := 0) hrel (by rw [hpc]; rfl) hfree rfl rfl

/-- The next step of `mcs_unlock_common`. -/
theorem lockStep_runUnlock (h : ThreadsOk s) (hs : s.runUnlock cfg tm t = some s') :
    LockStep 8 (McsUnchanged s s' t) (McsThread.view (s.thread t)) (McsThread.view (s'.thread t))
      (McsState.events tm s (.run t)) := by
  have hok := h t
  -- a node that is in the queue is not that of a lock the thread has
  have hbusy : ∀ {lk n}, McsPc.place (s.thread t).pc = .busy lk n →
      lk ∉ (s.thread t).held.map Prod.fst := by
    intro lk n hp
    rw [hp] at hok
    obtain ⟨-, -, -, hlk, -⟩ := hok.pool
    exact hlk
  unfold McsState.runUnlock at hs
  unfold McsState.events
  cases hpc : (s.thread t).pc with
  | out | initLockNext lk b n | initWait lk b n | initSpeculate lk b n | initCnt lk b n
  | swapTail lk n | casTail lk n | link lk n p | spinWait lk n | spinCnt lk n p | readCnt lk n p
  | writeCnt lk n c | readServing lk n c | htmBegin lk n c | checkSpeculate lk n c
  | checkWait lk n c | speculating lk n c | spinWaitTm lk n c | assertServing lk n c
  | writeServing lk n c | firstRead lk n | firstWriteCnt lk n c | firstReadAgain lk n
  | firstWrite lk n now => simp [hpc] at hs
  | readNext lk n | spinNext lk n | readSuccessor lk n =>
    simp only [hpc] at hs ⊢
    have hno : McsPc.trying (s.thread t).pc = none := by rw [hpc]; rfl
    split at hs <;> simp only [Option.some.injEq] at hs <;> subst hs <;>
      first
        | exact McsThread.lockStep_quiet rfl rfl hno hno
        | rw [goto_self]
          exact McsThread.lockStep_quiet rfl (by rw [hpc]; rfl) hno rfl
        | rw [goto_self]
          cases tm <;> exact McsThread.lockStep_quiet rfl (by rw [hpc]; rfl) hno rfl
  | clearTail lk n =>
    simp only [hpc] at hs ⊢
    split at hs <;> rename_i htail <;> simp only [Option.some.injEq] at hs <;> subst hs
    · rw [if_pos htail, goto_self]
      exact McsThread.lockStep_gives rfl (by rw [hpc]; rfl) rfl (by rw [hpc]; rfl) rfl
        (hbusy (by rw [hpc]; rfl))
    · rw [if_neg htail, goto_self]
      exact McsThread.lockStep_quiet rfl (by rw [hpc]; rfl) (by rw [hpc]; rfl) rfl
  | haltFirst lk n | haltNext lk n x d =>
    simp only [hpc, Option.some.injEq] at hs ⊢
    subst hs
    rw [goto_self]
    exact McsThread.lockStep_quiet rfl (by rw [hpc]; rfl) (by rw [hpc]; rfl) rfl
  | haltAt lk n x d =>
    cases x with
    | none =>
      simp only [hpc, Option.some.injEq] at hs ⊢
      subst hs
      rw [goto_self]
      exact McsThread.lockStep_quiet rfl (by rw [hpc]; rfl) (by rw [hpc]; rfl) rfl
    | some x =>
      simp only [hpc] at hs ⊢
      split at hs <;> split at hs <;> simp only [Option.some.injEq] at hs <;> subst hs <;>
        rw [goto_self] <;>
        exact McsThread.lockStep_quiet rfl (by rw [hpc]; rfl) (by rw [hpc]; rfl) rfl
  | clearWait lk n m =>
    simp only [hpc, Option.some.injEq] at hs ⊢
    subst hs
    rw [goto_self]
    exact McsThread.lockStep_gives rfl (by rw [hpc]; rfl) rfl (by rw [hpc]; rfl) rfl
      (hbusy (by rw [hpc]; rfl))
  | dealloc lk n =>
    simp only [hpc, Option.some.injEq] at hs ⊢
    subst hs
    rw [setThread_self]
    exact McsThread.lockStep_quiet rfl (by rw [hpc]; rfl) (by rw [hpc]; rfl) rfl

/-- A call that gets a free node. -/
theorem lockStep_callLock (tm : Bool) {b : Bool} (h : ThreadsOk s) (hs : s.callLock t lk b = some s') :
    LockStep 8 (McsUnchanged s s' t) (McsThread.view (s.thread t)) (McsThread.view (s'.thread t))
      (if b then McsState.events tm s (.trylock t lk) else []) := by
  have hok := h t
  simp only [McsState.callLock] at hs
  simp only [McsState.events]
  split at hs
  · rename_i hpc
    split at hs <;> simp only [Option.some.injEq, reduceCtorEq] at hs
    subst hs
    simp only [hpc, ite_self]
    exact McsThread.lockStep_quiet rfl rfl (by rw [hpc]; rfl) (by rw [hpc]; rfl)
  · rename_i hpc
    split at hs <;> simp only [Option.some.injEq, reduceCtorEq] at hs
    subst hs
    simp only [hpc]
    have hrel : McsPc.releasing (s.thread t).pc = none := by rw [hpc]; rfl
    have hx : McsPc.trying (s.thread t).pc = none := by rw [hpc]; rfl
    cases b with
    | false =>
      rw [setThread_self]
      exact McsThread.lockStep_quiet rfl (by rw [hrel]; rfl) hx rfl
    | true =>
      have hused : McsPool.usedNodes (s.thread t).pool.getFreeNode.1 =
          McsPool.usedNodes (s.thread t).pool := by
        rw [hpc] at hok
        obtain ⟨free, used, hrep, -⟩ := hok.pool
        obtain ⟨rest, hrep', -⟩ := hrep.getFreeNode
        rw [hrep'.usedNodes_eq, hrep.usedNodes_eq]
      refine McsThread.lockStep_tries ?_ ?_ hx ?_ ⟨rfl, ?_⟩
      all_goals rw [setThread_self]
      · rw [hrel]
        rfl
      · rfl
      · exact hused
  · simp at hs

/-- Every step is to the callers of the locks what `McsState.events` says. -/
theorem lockStep (h : ThreadsOk s) (hinv : McsInv (McsState.view s))
    (hs : s.step cfg tm a = some s') :
    LockStep 8 (McsUnchanged s s' (McsAct.tid a)) (McsThread.view (s.thread (McsAct.tid a)))
      (McsThread.view (s'.thread (McsAct.tid a))) (McsState.events tm s a) := by
  simp only [McsState.step] at hs
  split at hs
  · simp at hs
  cases a with
  | lock t lk => exact lockStep_callLock tm h hs
  | trylock t lk => exact lockStep_callLock tm h hs
  | unlock t lk =>
    have hok := h t
    simp only [McsState.callUnlock] at hs
    simp only [McsState.events, McsAct.tid]
    split at hs
    · rename_i hpc
      split at hs <;> simp only [Option.some.injEq, reduceCtorEq] at hs
      subst hs
      simp only [hpc]
      exact McsThread.lockStep_quiet rfl rfl (by rw [hpc]; rfl) (by rw [hpc]; rfl)
    · rename_i hpc
      rw [hpc] at hok
      split at hs
      · rename_i hlk
        obtain ⟨n, hfind, -⟩ := hok.findNode hlk
        simp only [hfind, Option.some.injEq] at hs
        subst hs
        simp only [hpc]
        rw [setThread_self]
        have hx : McsPc.trying (s.thread t).pc = none := by rw [hpc]; rfl
        have hmem : ∀ k, k ∈ ((s.thread t).held.filter fun x => x.1 ≠ lk).map Prod.fst ↔
            k ∈ (s.thread t).held.map Prod.fst ∧ k ≠ lk := by
          intro k
          simp only [List.mem_map, List.mem_filter, decide_eq_true_eq]
          constructor
          · rintro ⟨x, ⟨hx, hne⟩, rfl⟩
            exact ⟨⟨x, hx, rfl⟩, hne⟩
          · rintro ⟨⟨x, hx, rfl⟩, hne⟩
            exact ⟨x, ⟨hx, hne⟩, rfl⟩
        -- until the node leaves the queue the thread is still the holder
        refine .callsUnlock (fun k => ?_) hmem hx rfl
        simp only [McsThread.view, hmem k, hpc, McsPc.releasing, reduceCtorEq, or_false,
          Option.some.injEq]
        by_cases hk : k = lk
        · subst hk
          simpa using hlk
        · simp [hk, Ne.symm hk]
      · simp at hs
    · simp at hs
  | run t =>
    rcases Option.or_eq_some_iff.mp hs with h' | ⟨-, h'⟩
    · exact lockStep_runLock h hinv h'
    · exact lockStep_runUnlock h h'
  | htmStart t =>
    simp only at hs
    split at hs <;> simp only [Option.some.injEq, reduceCtorEq] at hs
    rename_i hpc
    subst hs
    simp only [McsAct.tid, goto_self]
    exact McsThread.lockStep_quiet rfl (by rw [hpc]; rfl) (by rw [hpc]; rfl) rfl
  | htmAbort t =>
    simp only [McsState.abortStep] at hs
    split at hs <;> simp only [Option.some.injEq, reduceCtorEq] at hs
    all_goals
      rename_i hpc
      subst hs
      simp only [McsAct.tid, goto_self]
      exact McsThread.lockStep_quiet rfl (by rw [hpc]; rfl) (by rw [hpc]; rfl) rfl

omit [DecidableEq Tid] [DecidableEq Lid] in
/-- The holder has the first node of the queue. -/
theorem ThreadsOk.first_of_holds (h : ThreadsOk s) (hinv : McsInv (McsState.view s))
    (hh : (McsThread.view (s.thread t)).holds lk) :
    ∃ i, ((McsState.view s).queue lk)[0]? = some (t, i) := by
  rcases hh with hheld | hrel
  · obtain ⟨⟨lk, i⟩, hi, rfl⟩ := List.mem_map.mp hheld
    exact ⟨i, ((hinv.queue lk).first (h.held_iff.mp hi) (.inl rfl)).1⟩
  · have hrole : ∃ i r, McsPc.role? (s.thread t).pc = some (i, .queued lk r) ∧
        r.isBehind = false := by
      generalize (s.thread t).pc = pc at hrel
      cases pc <;> simp only [McsPc.releasing, Option.some.injEq, reduceCtorEq] at hrel <;>
        subst hrel <;> exact ⟨_, _, rfl, rfl⟩
    obtain ⟨i, r, hr, hbehind⟩ := hrole
    have hview : (McsState.view s).role (t, i) = .queued lk r := McsThread.role_self hr
    exact ⟨i, ((hinv.queue lk).first hview (.inl hbehind)).1⟩

/-- A thread in a call of trylock can go on. -/
theorem exists_step_of_trying (hlive : s.aborted = false)
    (ht : McsPc.trying (s.thread t).pc ≠ none) : ∃ s', s.step cfg tm (.run t) = some s' := by
  have hrun : ∃ s', s.runLock cfg tm t = some s' := by
    unfold McsState.runLock
    cases hpc : (s.thread t).pc with
    | casTail lk n =>
      simp only [hpc]
      split <;> exact ⟨_, rfl⟩
    | initLockNext lk b n | initWait lk b n | initSpeculate lk b n | initCnt lk b n
    | firstRead lk n | firstWriteCnt lk n c | firstReadAgain lk n | firstWrite lk n now =>
      simp only [hpc]
      exact ⟨_, rfl⟩
    | _ => simp [hpc, McsPc.trying] at ht
  obtain ⟨s', hs'⟩ := hrun
  refine ⟨s', ?_⟩
  simp only [McsState.step, hlive, hs', Bool.false_eq_true, if_false, Option.some_or]

end McsState

/-- No assertion fails in a run in which `now_serving` is as asserted. -/
theorem mcs_live {tr : List (McsState Tid Lid × McsAct Tid Lid)}
    (h : (mcs Tid Lid cfg tm).Run (McsServed tm) tr s) : s.aborted = false := by
  refine System.Run.invariant_trace (I := fun _ s => s.aborted = false) (fun s hs => ?_)
    (fun tr s a s' hr hi hc hs => ?_) h
  · obtain rfl : s = {} := hs
    rfl
  · obtain ⟨hok, hinv⟩ := mcs_invariant hr
    by_contra hab
    rw [Bool.not_eq_false] at hab
    obtain ⟨t, lk, n, cnt, rfl, hpc, hne⟩ := hok.aborted_step hinv hs hab
    cases tm with
    | false =>
      have hrole : (McsState.view s).role (t, n) = .queued lk (.entering cnt) :=
        McsThread.role_self (by rw [hpc]; rfl)
      exact nomatch mcs_plain hr _ _ _ hrole
    | true => exact hne (hc rfl hpc)

/-- The trylock of the queue locks is truthful, with `mcs_tm` as long as the assertion about
    `now_serving` holds. -/
theorem mcs_trylockRep (cfg : TmParams) (tm : Bool) :
    TrylockRep (mcsView Tid Lid cfg tm) (McsServed tm) 8
      fun s t => McsThread.view (s.thread t) where
  init s hs t l := by
    obtain rfl : s = {} := hs
    exact ⟨not_or.mpr ⟨List.not_mem_nil, nofun⟩, List.not_mem_nil⟩
  exclusive tr s h t u l ht hu := by
    obtain ⟨hok, hinv⟩ := mcs_invariant h
    obtain ⟨i, hi⟩ := hok.first_of_holds hinv ht
    obtain ⟨j, hj⟩ := hok.first_of_holds hinv hu
    exact (Prod.mk.inj (Option.some.inj (hi.symm.trans hj))).1
  told tr s h t l := .inl
  enabled tr s h t ht := McsState.exists_step_of_trying (mcs_live h) ht
  frame tr s h a s' hs u hu := congrArg McsThread.view (McsState.step_thread hs hu)
  step tr s h a s' _ hs := by
    obtain ⟨hok, hinv⟩ := mcs_invariant h
    refine (McsState.lockStep hok hinv hs).mono fun hk => .of_step hs ?_ hk.2
    funext lk
    exact congrArg (fun f => ((f lk).tail, (f lk).nowServing)) hk.1

end Step

end TxLock.Spec
