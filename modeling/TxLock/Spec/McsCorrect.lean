import Mathlib.Data.Fintype.Basic
import TxLock.Spec.McsCount

/-!
# When the counters of `mcs_tm` are right and no queue is stuck

A thread that has linked itself behind another reads `pred->cnt` after the other may have
handed over, freed its node and begun to use it again; the other then resets `cnt`. As
long as no thread resets the `cnt` of a node that another one is about to read, and a lock is
acquired less than `2 ^ 63` times, the positions are consecutive, the assertion holds, and some
thread at the lock can always go on. A thread that locks again at once shows that the first
condition is needed for both.

## Key results

- `mcs_positions`: the positions, `now_serving` and the assertion
- `mcs_not_stuck`: no set of threads waits for its own members
- `mcs_positions_wrong`, `mcs_stuck`: without the condition neither holds
-/

namespace TxLock.Spec

open Native McsView

variable {Tid Lid : Type} [DecidableEq Tid] [DecidableEq Lid]

/-- The node before its own whose `cnt` a thread is about to read. -/
def McsPc.countsOn : McsPc Tid Lid → Option (Tid × Nat)
  | .spinCnt _ _ pred | .readCnt _ _ pred => some pred
  | .out | .initLockNext _ _ _ | .initWait _ _ _ | .initSpeculate _ _ _ | .initCnt _ _ _
  | .swapTail _ _ | .casTail _ _ | .link _ _ _ | .spinWait _ _ | .writeCnt _ _ _
  | .readServing _ _ _ | .htmBegin _ _ _ | .checkSpeculate _ _ _ | .checkWait _ _ _
  | .speculating _ _ _ | .spinWaitTm _ _ _ | .assertServing _ _ _ | .writeServing _ _ _
  | .firstRead _ _ | .firstWriteCnt _ _ _ | .firstReadAgain _ _ | .firstWrite _ _ _
  | .readNext _ _ | .clearTail _ _ | .spinNext _ _ | .haltFirst _ _ | .haltAt _ _ _ _
  | .haltNext _ _ _ _ | .readSuccessor _ _ | .clearWait _ _ _ | .dealloc _ _ => none

/-- The lock whose code a thread is in. -/
def McsPlace.lock? : McsPlace Lid → Option Lid
  | .out => none
  | .first lk _ _ | .fresh lk _ _ | .busy lk _ => some lk

/-- The next step of thread `t` is one more round of a spin loop. -/
def McsState.spins (s : McsState Tid Lid) (t : Tid) : Bool :=
  match (s.thread t).pc with
  | .spinWait _ mine | .spinWaitTm _ mine _ => (s.node (t, mine)).wait
  | .spinCnt _ _ pred => (s.node pred).cnt = 0
  | .spinNext _ mine => (s.node (t, mine)).lockNext.isNone
  | .out | .initLockNext _ _ _ | .initWait _ _ _ | .initSpeculate _ _ _ | .initCnt _ _ _
  | .swapTail _ _ | .casTail _ _ | .link _ _ _ | .readCnt _ _ _ | .writeCnt _ _ _
  | .readServing _ _ _ | .htmBegin _ _ _ | .checkSpeculate _ _ _ | .checkWait _ _ _
  | .speculating _ _ _ | .assertServing _ _ _ | .writeServing _ _ _ | .firstRead _ _
  | .firstWriteCnt _ _ _ | .firstReadAgain _ _ | .firstWrite _ _ _ | .readNext _ _
  | .clearTail _ _ | .haltFirst _ _ | .haltAt _ _ _ _ | .haltNext _ _ _ _ | .readSuccessor _ _
  | .clearWait _ _ _ | .dealloc _ _ => false

/-- The node whose `cnt` a step sets to 0. -/
def McsState.resets (s : McsState Tid Lid) : McsAct Tid Lid → Option (Tid × Nat)
  | .run t =>
    match (s.thread t).pc with
    | .initCnt _ _ mine => some (t, mine)
    | _ => none
  | .lock _ _ | .trylock _ _ | .unlock _ _ | .htmStart _ | .htmAbort _ => none

/-- A step that writes `mine->cnt = 0` comes when no other thread is between linking itself
    behind that node and its read of `pred->cnt`. -/
def McsCntKept (s : McsState Tid Lid) (a : McsAct Tid Lid) : Prop :=
  ∀ u, ∀ p ∈ McsPc.countsOn (s.thread u).pc, McsState.resets s a ≠ some p

instance [Fintype Tid] (s : McsState Tid Lid) (a : McsAct Tid Lid) : Decidable (McsCntKept s a) :=
  inferInstanceAs (Decidable (∀ u, ∀ p ∈ McsPc.countsOn (s.thread u).pc,
    McsState.resets s a ≠ some p))

/-- With the next node of any lock fewer than `2 ^ 63` have been queued for it, so that its
    signed counters do not overflow. -/
def McsInRange (s : McsState Tid Lid) : Prop := ∀ lk, (s.lock lk).turns.length + 1 < 2 ^ 63

instance [Fintype Lid] (s : McsState Tid Lid) : Decidable (McsInRange s) :=
  inferInstanceAs (Decidable (∀ lk, (s.lock lk).turns.length + 1 < 2 ^ 63))

namespace McsState

variable {s s' : McsState Tid Lid} {cfg : TmParams} {tm : Bool} {a : McsAct Tid Lid}
  {t : Tid} {i : Nat} {lk : Lid}

omit [DecidableEq Tid] [DecidableEq Lid] in
theorem pc_of_countsOn {r : QueueRole Tid} {p : Tid × Nat}
    (hr : (McsState.view s).role (t, i) = .queued lk r) (hp : r.countsOn = some p) :
    McsPc.countsOn (s.thread t).pc = some p := by
  have hrole := McsState.role?_of_view hr nofun fun lk' he => by
    rw [McsRole.queued.injEq] at he
    rw [he.2] at hp
    simp [QueueRole.countsOn] at hp
  generalize (s.thread t).pc = pc at hrole
  cases r <;> simp only [QueueRole.countsOn, Option.some.injEq, reduceCtorEq] at hp <;> subst hp <;>
    cases pc <;> simp only [McsPc.role?, Option.some.injEq, Prod.mk.injEq, McsRole.queued.injEq,
      QueueRole.counting.injEq, QueueRole.reading.injEq, reduceCtorEq, and_false] at hrole <;>
    obtain ⟨rfl, rfl, rfl⟩ := hrole <;> rfl

omit [DecidableEq Tid] [DecidableEq Lid] in
theorem pc_of_fresh_three (hr : (McsState.view s).role (t, i) = .fresh 3) :
    ∃ lk b, (s.thread t).pc = .initCnt lk b i := by
  have hrole := McsState.role?_of_view hr nofun fun _ => by simp
  generalize (s.thread t).pc = pc at hrole
  cases pc <;> simp [McsPc.role?] at hrole
  subst hrole
  exact ⟨_, _, rfl⟩

/-- A step of `mcs_tm` that meets the condition keeps the positions. -/
theorem count_step (hok : ThreadsOk s) (hinv : McsInv (McsState.view s))
    (h : McsCount (McsState.view s)) (hc : McsCntKept s a) (hrange : McsInRange s)
    (hs : s.step cfg true a = some s') : McsCount (McsState.view s') := by
  rcases view_step hok hs with hsame | ⟨i, hstep⟩
  · rw [hsame]
    exact h
  have hroom : ∀ lk, (s.lock lk).turns.length < 2 ^ 63 := fun lk => Nat.lt_of_succ_lt (hrange lk)
  refine h.step hinv hstep (fun hfresh m lk' r hm hp => ?_) hroom
  obtain ⟨lk, b, hpc⟩ := pc_of_fresh_three hfresh
  -- only its own step moves a thread that resets `cnt`
  have hrun : a = .run (McsAct.tid a) := by
    simp only [McsState.step] at hs
    split at hs
    · simp at hs
    cases a with
    | run t => rfl
    | lock t lk' | trylock t lk' => simp [McsState.callLock, show (s.thread t).pc = _ from hpc] at hs
    | unlock t lk' => simp [McsState.callUnlock, show (s.thread t).pc = _ from hpc] at hs
    | htmStart t | htmAbort t => simp [McsState.abortStep, show (s.thread t).pc = _ from hpc] at hs
  obtain ⟨u, k⟩ := m
  refine hc u _ (pc_of_countsOn hm hp) ?_
  generalize McsAct.tid a = t at hpc hrun
  subst hrun
  simp only [McsState.resets]
  rw [hpc]

/-- The three places where an assertion can fail or a null pointer is written to. -/
theorem aborted_step (hs : s.step cfg tm a = some s') (hab : s'.aborted = true) :
    (∃ t lk, a = .unlock t lk ∧ (s.thread t).pc = .out ∧
      lk ∈ (s.thread t).held.map Prod.fst ∧ (s.thread t).pool.findNode lk = none) ∨
    (∃ t lk n cnt, a = .run t ∧ (s.thread t).pc = .assertServing lk n cnt ∧
      (s.lock lk).nowServing ≠ cnt - 1) ∨
    ∃ t lk n, (s.thread t).pc = .readSuccessor lk n ∧ (s.node (t, n)).lockNext = none := by
  simp only [McsState.step] at hs
  split at hs
  · simp at hs
  rename_i hlive
  -- every other step leaves the flag as it is
  have hno : s'.aborted = s.aborted → False := fun he => hlive (he ▸ hab)
  cases a with
  | lock t lk' | trylock t lk' =>
    simp only [McsState.callLock] at hs
    split at hs
    · split at hs <;> simp only [Option.some.injEq, reduceCtorEq] at hs
      exact (hno (hs ▸ rfl)).elim
    · split at hs <;> simp only [Option.some.injEq, reduceCtorEq] at hs
      exact (hno (hs ▸ rfl)).elim
    · simp at hs
  | unlock t lk' =>
    simp only [McsState.callUnlock] at hs
    split at hs
    · split at hs <;> simp only [Option.some.injEq, reduceCtorEq] at hs
      exact (hno (hs ▸ rfl)).elim
    · rename_i hpc
      split at hs
      · rename_i hlk
        split at hs <;> rename_i hfind <;> simp only [Option.some.injEq] at hs
        · exact (hno (hs ▸ rfl)).elim
        · exact .inl ⟨t, lk', rfl, hpc, hlk, hfind⟩
      · simp at hs
    · simp at hs
  | htmStart t | htmAbort t =>
    simp only [McsState.abortStep] at hs
    split at hs <;> simp only [Option.some.injEq, reduceCtorEq] at hs <;>
      exact (hno (hs ▸ rfl)).elim
  | run t =>
    cases hpc : (s.thread t).pc with
    | out | htmBegin lk' n c | speculating lk' n c =>
      simp [McsState.runLock, McsState.runUnlock, hpc] at hs
    | initLockNext lk' b n | initWait lk' b n | initSpeculate lk' b n | initCnt lk' b n
    | link lk' n p | readCnt lk' n p | firstRead lk' n | firstReadAgain lk' n
    | haltFirst lk' n | haltNext lk' n x d | dealloc lk' n | writeCnt lk' n c
    | firstWriteCnt lk' n c | writeServing lk' n c | firstWrite lk' n c | clearWait lk' n m =>
      simp only [McsState.runLock, McsState.runUnlock, hpc, Option.some_or, Option.none_or,
        Option.some.injEq] at hs
      exact (hno (hs ▸ rfl)).elim
    | swapTail lk' n =>
      simp only [McsState.runLock, McsState.runUnlock, hpc, Option.some_or, Option.some.injEq] at hs
      refine (hno (hs ▸ ?_)).elim
      unfold McsState.enqueue
      split
      · rfl
      · split <;> rfl
    | casTail lk' n =>
      simp only [McsState.runLock, McsState.runUnlock, hpc, Option.or_none] at hs
      split at hs <;> simp only [Option.some.injEq] at hs
      · refine (hno (hs ▸ ?_)).elim
        unfold McsState.enqueue
        split
        · rfl
        · split <;> rfl
      · exact (hno (hs ▸ rfl)).elim
    | spinWait lk' n | spinCnt lk' n p | readServing lk' n c | checkSpeculate lk' n c
    | checkWait lk' n c | spinWaitTm lk' n c =>
      simp only [McsState.runLock, McsState.runUnlock, hpc, Option.or_none] at hs
      split at hs <;> simp only [Option.some.injEq] at hs <;> exact (hno (hs ▸ rfl)).elim
    | assertServing lk' n c =>
      simp only [McsState.runLock, McsState.runUnlock, hpc, Option.or_none] at hs
      split at hs <;> rename_i hserving <;> simp only [Option.some.injEq] at hs
      · exact (hno (hs ▸ rfl)).elim
      · exact .inr (.inl ⟨t, lk', n, c, rfl, hpc, hserving⟩)
    | readNext lk' n | spinNext lk' n | clearTail lk' n =>
      simp only [McsState.runLock, McsState.runUnlock, hpc, Option.none_or] at hs
      split at hs <;> simp only [Option.some.injEq] at hs <;> exact (hno (hs ▸ rfl)).elim
    | haltAt lk' n x d =>
      cases x with
      | none =>
        simp only [McsState.runLock, McsState.runUnlock, hpc, Option.none_or,
          Option.some.injEq] at hs
        exact (hno (hs ▸ rfl)).elim
      | some x =>
        simp only [McsState.runLock, McsState.runUnlock, hpc, Option.none_or] at hs
        split at hs <;> split at hs <;> simp only [Option.some.injEq] at hs <;>
          exact (hno (hs ▸ rfl)).elim
    | readSuccessor lk' n =>
      simp only [McsState.runLock, McsState.runUnlock, hpc, Option.none_or] at hs
      split at hs <;> rename_i hnext <;> simp only [Option.some.injEq] at hs
      · exact (hno (hs ▸ rfl)).elim
      · exact .inr (.inr ⟨t, lk', n, hpc, hnext⟩)

/-- Only the assertion about `now_serving` can fail. -/
theorem ThreadsOk.aborted_step (hok : ThreadsOk s) (hinv : McsInv (McsState.view s))
    (hs : s.step cfg tm a = some s') (hab : s'.aborted = true) :
    ∃ t lk n cnt, a = .run t ∧ (s.thread t).pc = .assertServing lk n cnt ∧
      (s.lock lk).nowServing ≠ cnt - 1 := by
  rcases McsState.aborted_step hs hab with ⟨t, lk, -, hpc, hlk, hfind⟩ | hserving |
      ⟨t, lk, n, hpc, hnext⟩
  · have hokt := hok t
    rw [hpc] at hokt
    obtain ⟨n, hn, -⟩ := hokt.findNode hlk
    rw [hfind] at hn
    simp at hn
  · exact hserving
  · -- a node that is handed over has a successor
    have hrole : (McsState.view s).role (t, n) = .queued lk .handing :=
      McsThread.role_self (by rw [hpc]; rfl)
    obtain ⟨-, he⟩ := (hinv.queue lk).first hrole (.inl rfl)
    exact absurd hnext (he.hands rfl)

end McsState

/-! ## Roles without `tm` -/

/-- The places in the code of `mcs`. -/
def QueueRole.isPlain : QueueRole Tid → Bool
  | .linking _ | .waiting none | .holds | .closing | .awaiting | .handing | .clearing _ => true
  | .counting _ | .reading _ | .counted _ | .waiting (some _) | .entering _ | .firstRead
  | .firstGive _ | .firstAgain | .firstServe _ => false

/-- No node is at a place that only `mcs_tm` has. -/
def McsPlain (c : McsView Tid Lid) : Prop := ∀ n lk r, c.role n = .queued lk r → r.isPlain = true

theorem McsPlain.step {c c' : McsView Tid Lid} {n : Tid × Nat} (h : McsPlain c)
    (hs : McsStep false c n c') : McsPlain c' := by
  intro m lk r hm
  by_cases hmn : m = n
  · subst hmn
    cases hs with
    | prepare hr | initLockNext hr | initWait hr | initSpeculate hr | initCnt hr | giveUp hr
    | drop hr => simp at hm
    | @push lk' hr htm =>
      rcases McsView.pushRole_cases c lk' with ⟨p, -, hp⟩ | ⟨htail, -⟩
      · simp only [McsView.push, hp, setRole_self, McsRole.queued.injEq] at hm
        rw [← hm.2]
        rfl
      · exact absurd (htm htail) Bool.false_ne_true
    | pushFirst | wakeHolds | serve | firstServe =>
      rw [McsView.enter, setRole_self, McsRole.queued.injEq] at hm
      rw [← hm.2]
      rfl
    | link | close | next | await | successor =>
      rw [setRole_self, McsRole.queued.injEq] at hm
      rw [← hm.2]
      rfl
    | see hr | read hr | give hr | wake hr | firstRead hr | firstGive hr | firstAgain hr =>
      exact absurd (h m _ _ hr) (by simp [QueueRole.isPlain])
    | clearTail hr => simp [McsView.pop] at hm
    | hand hr => simp [McsView.pop] at hm
    | halt x hr => exact h m lk r hm
  · rw [hs.role_ne hmn] at hm
    exact h m lk r hm

section

variable {cfg : TmParams} {tm : Bool} {tr : List (McsState Tid Lid × McsAct Tid Lid)}
  {s : McsState Tid Lid}

/-- Without `tm` no node takes a position. -/
theorem mcs_plain {C : McsState Tid Lid → McsAct Tid Lid → Prop}
    (h : (mcs Tid Lid cfg false).Run C tr s) : McsPlain (McsState.view s) := by
  refine System.Run.invariant_trace (I := fun _ s => McsPlain (McsState.view s))
    (fun s hs => ?_) (fun tr s a s' hr hi _ hs => ?_) h
  · obtain rfl : s = {} := hs
    intro n lk r hr
    simp [McsState.view, McsThread.role, McsPc.role?, heldRole] at hr
  · rcases McsState.view_step (mcs_invariant hr).1 hs with hsame | ⟨i, hstep⟩
    · rw [hsame]
      exact hi
    · exact hi.step hstep

omit [DecidableEq Tid] [DecidableEq Lid] in
/-- Where the positions are right `now_serving` is as asserted. -/
theorem McsCount.served {c : McsView Tid Lid} (h : McsCount c) (hinv : McsInv c)
    {lk : Lid} {n : Tid × Nat} {cnt : BitVec 64}
    (hr : c.role n = .queued lk (.entering cnt)) : (c.lock lk).nowServing = cnt - 1 := by
  -- its node is the first, and nobody has the lock
  obtain ⟨hz, -⟩ := (hinv.queue lk).first hr (.inl rfl)
  have he := (h lk).entry 0 _ _ hz hr
  have hserving := (h lk).serving
  rw [QueueOk.served_of_first hz hr rfl] at hserving
  have hcnt : cnt.toNat = (c.lock lk).released + 0 + 1 := he.1
  bv_omega

/-- With `mcs_tm` the positions are right under the condition, with `mcs` there are none,
    and no assertion fails. -/
theorem mcs_counts (h : (mcs Tid Lid cfg tm).Run
    (fun s a => tm = true → McsCntKept s a ∧ McsInRange s) tr s) :
    (tm = true → McsCount (McsState.view s)) ∧ (tm = false → McsPlain (McsState.view s)) ∧
      s.aborted = false := by
  have hplain : tm = false → McsPlain (McsState.view s) := by
    rintro rfl
    exact mcs_plain h
  suffices hlive : (tm = true → McsCount (McsState.view s)) ∧ s.aborted = false from
    ⟨hlive.1, hplain, hlive.2⟩
  refine System.Run.invariant_trace
    (I := fun _ s => (tm = true → McsCount (McsState.view s)) ∧ s.aborted = false)
    (fun s hs => ?_) (fun tr s a s' hr hi hc hs => ?_) h
  · obtain rfl : s = {} := hs
    refine ⟨fun _ lk => ?_, rfl⟩
    have hq : (McsState.view ({} : McsState Tid Lid)).queue lk = [] := rfl
    have hnone : ∀ (j : Nat) n, ((McsState.view ({} : McsState Tid Lid)).queue lk)[j]? ≠ some n := by
      rw [hq]
      simp
    exact ⟨fun j n _ hj => absurd hj (hnone j n), fun j n _ _ hj => absurd hj (hnone (j + 1) n), rfl,
      fun m hm => absurd hm (Nat.not_lt_zero m), fun j n hj => absurd hj (hnone j n),
      fun m x p hx => by simp [McsView.links, McsState.view] at hx⟩
  -- where the counts are right the assertion holds, and nothing else stops the program
  obtain ⟨hok, hinv⟩ := mcs_invariant hr
  obtain ⟨hcount, hlive⟩ := hi
  have hs' : s.step cfg tm a = some s' := hs
  refine ⟨fun htm => ?_, ?_⟩
  · subst htm
    exact McsState.count_step hok hinv (hcount rfl) (hc rfl).1 (hc rfl).2 hs'
  · by_contra hab
    rw [Bool.not_eq_false] at hab
    obtain ⟨t, lk, n, cnt, -, hpc, hne⟩ := hok.aborted_step hinv hs' hab
    have hrole : (McsState.view s).role (t, n) = .queued lk (.entering cnt) :=
      McsThread.role_self (by rw [hpc]; rfl)
    cases tm with
    | false => exact absurd (mcs_plain hr _ _ _ hrole) (by simp [QueueRole.isPlain])
    | true => exact hne ((hcount rfl).served hinv hrole)

omit [DecidableEq Tid] [DecidableEq Lid] in
/-- A position that has been handed out, and the one before it. -/
theorem CountOk.given_eq {c : McsView Tid Lid} {lk : Lid} (hinv : McsInv c) (h : CountOk c lk)
    {m v : Nat} (hv : c.given lk m = some v) : v = m + 1 ∧ (0 < m → c.given lk (m - 1) = some m) := by
  by_cases hm : m < (c.lock lk).released
  · rw [h.past m hm, Option.some.injEq] at hv
    refine ⟨hv.symm, fun hpos => ?_⟩
    rw [h.past (m - 1) (by omega), Nat.sub_add_cancel hpos]
  obtain ⟨j, rfl⟩ := Nat.exists_eq_add_of_le (Nat.le_of_not_lt hm)
  -- the node of the acquisition is still queued
  obtain ⟨a, ha, hcnt⟩ := Option.bind_eq_some_iff.mp hv
  have hj : (c.queue lk)[j]? = some a.node := by rw [queue_getElem?, ha]; rfl
  obtain ⟨r, hr⟩ := (hinv.queue lk).queued hj
  have he := h.entry j _ r hj hr
  have hp := h.present j _ hj
  rw [hv] at hp
  split at hp
  · simp at hp
  rename_i hne
  rw [Option.some.injEq] at hp
  have hpos := he.cnt_eq.resolve_left hne
  refine ⟨hp.trans hpos, fun _ => ?_⟩
  rcases Nat.eq_zero_or_pos j with rfl | hjpos
  · rw [Nat.add_zero, h.past _ (by omega)]
    congr 1
    omega
  obtain ⟨q, hq⟩ : ∃ q, (c.queue lk)[j - 1]? = some q := by
    have hlt := (List.getElem?_eq_some_iff.mp hj).1
    exact ⟨_, List.getElem?_eq_getElem (show j - 1 < _ by omega)⟩
  have hbehind := ((hinv.queue lk).entry j _ r hj hr).behind hjpos
  have hcounted : r.isCounted = true := by
    cases r with
    | linking p => exact absurd he hne
    | counting p | reading p | counted v => exact absurd he.1 hne
    | waiting v => rfl
    | entering | firstRead | firstGive | firstAgain | firstServe | holds | closing | awaiting
    | handing | clearing => simp [QueueRole.isBehind] at hbehind
  have hqne := h.before (j - 1) _ r q (by rw [Nat.sub_add_cancel hjpos]; exact hj) hr hcounted hq
  obtain ⟨rq, hrq⟩ := (hinv.queue lk).queued hq
  have hqpos := (h.entry (j - 1) q rq hq hrq).cnt_eq.resolve_left hqne
  have hpq := h.present (j - 1) q hq
  rw [if_neg hqne, hqpos] at hpq
  rw [show (c.lock lk).released + j - 1 = (c.lock lk).released + (j - 1) by omega, hpq]
  congr 1
  omega

/-- The counters of the `mcs_tm` locks after the steps `tr` have led to `s`. -/
structure McsCountLaw (cfg : TmParams) (tr : List (McsState Tid Lid × McsAct Tid Lid))
    (s : McsState Tid Lid) : Prop where
  /-- A node that was queued behind another has the next position after the one that node
      was given for that acquisition. -/
  positions : ∀ lk m b p v, (s.lock lk).turns[m]? = some b → b.pred = some p → b.cnt = some v →
    ∃ a w, 0 < m ∧ (s.lock lk).turns[m - 1]? = some a ∧ a.node = p ∧ a.cnt = some w ∧
      v.toNat = w.toNat + 1
  /-- `now_serving` counts the acquisitions. -/
  serving : ∀ lk, (s.lock lk).nowServing.toInt =
    (System.events (McsState.acquires cfg true lk) tr).length
  /-- No assertion has failed. -/
  asserted : s.aborted = false

/-- The counters are large enough for the state a run in range ends in. -/
theorem mcs_turns_lt {C : McsState Tid Lid → McsAct Tid Lid → Prop}
    (hC : ∀ s a, C s a → McsInRange s) (h : (mcs Tid Lid cfg tm).Run C tr s) (lk : Lid) :
    (s.lock lk).turns.length < 2 ^ 63 := by
  cases h with
  | init hs =>
    obtain rfl : s = {} := hs
    exact Nat.two_pow_pos 63
  | step hr hc hs =>
    obtain ⟨hok, hinv⟩ := mcs_invariant hr
    have hlen := (McsState.turns_length_step hok hinv hs lk).2
    have hrange := hC _ _ hc lk
    omega

/-- The counters are right in every run that resets no `cnt` another thread is about to
    read, while they are in range. -/
theorem mcs_positions
    (h : (mcs Tid Lid cfg true).Run (fun s a => McsCntKept s a ∧ McsInRange s) tr s) :
    McsCountLaw cfg tr s := by
  obtain ⟨-, hinv⟩ := mcs_invariant h
  obtain ⟨hcount, -, hlive⟩ := mcs_counts (h.mono fun _ _ hc _ => hc)
  refine ⟨fun lk m b p v hb hp hv => ?_, fun lk => ?_, hlive⟩
  · have hgiven : (McsState.view s).given lk m = some v.toNat := by
      show ((s.lock lk).turns[m]?.bind fun a => a.cnt.map BitVec.toNat) = some v.toNat
      rw [hb, Option.bind_some, hv, Option.map_some]
    have hlink : (McsState.view s).links lk m = some (b.node, some p) := by
      show (s.lock lk).turns[m]?.map (fun a => (a.node, a.pred)) = some (b.node, some p)
      rw [hb, ← hp]
      rfl
    -- the predecessor has the position before, and it is the one the entry names
    obtain ⟨hpos, hpred⟩ := (hcount rfl lk).preds m b.node p hlink
    obtain ⟨hvm, hbefore⟩ := (hcount rfl lk).given_eq hinv hgiven
    obtain ⟨a, ha, hw⟩ := Option.bind_eq_some_iff.mp (hbefore hpos)
    obtain ⟨w, hw, hwm⟩ := Option.map_eq_some_iff.mp hw
    have ha' : (s.lock lk).turns[m - 1]? = some a := ha
    refine ⟨a, w, hpos, ha', ?_, hw, by rw [hvm, hwm]⟩
    have hnode : ((s.lock lk).turns[m - 1]?.map (fun a => (a.node, a.pred))).map Prod.fst = some p :=
      hpred
    rw [ha'] at hnode
    exact Option.some.inj hnode
  · obtain ⟨-, -, hacq⟩ := mcs_history h lk
    have hserving : (s.lock lk).nowServing.toNat = (McsState.view s).served lk :=
      (hcount rfl lk).serving
    have hle : (McsState.view s).served lk ≤ (s.lock lk).turns.length := (hinv.queue lk).served_le
    have hlt := mcs_turns_lt (fun _ _ hc => hc.2) h lk
    rw [hacq, List.length_take, List.length_map,
      BitVec.toInt_eq_toNat_of_lt (by rw [hserving]; omega), hserving]
    omega

/-- Thread 1 queues behind thread 0, its transaction aborts, and it gets the lock after
    thread 0. -/
theorem mcs_positions_handover :
    ∃ tr s, @McsCountLaw (Fin 2) Bool _ _ {} tr s ∧ (s.lock false).nowServing.toInt = 2 := by
  let as : List (McsAct (Fin 2) Bool) :=
    [[.lock 0 false], .replicate 9 (.run 0), [.lock 1 false], .replicate 10 (.run 1),
      [.unlock 0 false], .replicate 8 (.run 0), [.htmAbort 1], .replicate 3 (.run 1)].flatten
  have hnow : ((mcs (Fin 2) Bool {} true).exec {} as).map
      (fun s => (s.lock false).nowServing.toInt) = some 2 := by decide
  have hkept : ∀ p ∈ (mcs (Fin 2) Bool {} true).execTrace {} as,
      McsCntKept p.1 p.2 ∧ McsInRange p.1 := by decide
  obtain ⟨s, hs, hn⟩ := Option.map_eq_some_iff.mp hnow
  have hrun := (System.Run.init (M := mcs (Fin 2) Bool {} true) rfl).exec hs
  exact ⟨_, s, mcs_positions (hrun.of_forall_mem
    (C := fun s a => McsCntKept s a ∧ McsInRange s) hkept), hn⟩

/-- Thread 1 queues behind thread 0, which holds lock `false`, and thread 0 unlocks it and
    takes lock `true` with the same node before thread 1 reads its position. Thread 1 counts
    itself third instead of second and the assertion fails. -/
theorem mcs_positions_wrong :
    ∃ s, (mcs (Fin 2) Bool {} true).Reachable System.Free s ∧ s.aborted = true ∧
      (s.lock false).turns = [⟨(0, 0), none, some 1, true⟩, ⟨(1, 0), some (0, 0), some 3, false⟩] := by
  obtain ⟨s, hs, hp⟩ := System.reachable_of_exec (M := mcs (Fin 2) Bool {} true) (s := {})
    [[.lock 0 true], .replicate 9 (.run 0), [.unlock 0 true], .replicate 3 (.run 0),
      [.lock 0 false], .replicate 9 (.run 0), [.lock 1 false], .replicate 6 (.run 1),
      [.unlock 0 false], .replicate 8 (.run 0), [.lock 0 true], .replicate 9 (.run 0),
      .replicate 6 (.run 1)].flatten
    (p := fun s => decide (s.aborted = true ∧ (s.lock false).turns =
      [⟨(0, 0), none, some 1, true⟩, ⟨(1, 0), some (0, 0), some 3, false⟩])) rfl (by decide)
  exact ⟨s, hs, of_decide_eq_true hp⟩

/-! ## Some thread can go on -/

omit [DecidableEq Tid] [DecidableEq Lid] in
theorem lock?_of_role {pc : McsPc Tid Lid} {i : Nat} {lk : Lid} {r : QueueRole Tid}
    (h : McsPc.role? pc = some (i, .queued lk r)) : (McsPc.place pc).lock? = some lk := by
  cases pc <;> simp [McsPc.role?] at h <;> simp [McsPc.place, McsPlace.lock?, h]

namespace McsState

omit [DecidableEq Tid] [DecidableEq Lid] in
/-- What the spin loops wait for. -/
theorem not_spins_of_role {u : Tid} {i : Nat} {lk : Lid} {r : QueueRole Tid}
    (h : McsPc.role? (s.thread u).pc = some (i, .queued lk r))
    (hwait : ∀ v, r = .waiting v → (s.node (u, i)).wait = false)
    (hcnt : ∀ p, r = .counting p → (s.node p).cnt ≠ 0)
    (hnext : r = .awaiting → (s.node (u, i)).lockNext ≠ none) : McsState.spins s u = false := by
  unfold McsState.spins
  generalize (s.thread u).pc = pc at h
  cases pc <;> simp only [McsPc.role?, Option.some.injEq, Prod.mk.injEq, McsRole.queued.injEq,
    reduceCtorEq, and_false] at h <;> try rfl
  all_goals obtain ⟨rfl, -, rfl⟩ := h
  · exact hwait _ rfl
  · simpa using hcnt _ rfl
  · exact hwait _ rfl
  · exact Option.isNone_eq_false_iff.mpr (Option.isSome_iff_ne_none.mpr (hnext rfl))

omit [DecidableEq Tid] [DecidableEq Lid] in
/-- A thread that spins is queued. -/
theorem role_of_spins {u : Tid} {lk : Lid} (h : McsState.spins s u = true)
    (hlk : (McsPc.place (s.thread u).pc).lock? = some lk) :
    ∃ i r, McsPc.role? (s.thread u).pc = some (i, .queued lk r) := by
  unfold McsState.spins at h
  generalize (s.thread u).pc = pc at h hlk
  cases pc <;> simp only [Bool.false_eq_true] at h <;>
    simp only [McsPc.place, McsPlace.lock?, Option.some.injEq] at hlk <;> subst hlk <;>
    exact ⟨_, _, rfl⟩

/-- A thread in the code has a next step. -/
theorem exists_step {u : Tid} {lk : Lid} (hlive : s.aborted = false)
    (hlk : (McsPc.place (s.thread u).pc).lock? = some lk) :
    ∃ a, (a = .run u ∨ a = .htmStart u ∨ a = .htmAbort u) ∧ (s.step cfg tm a).isSome = true := by
  have hrun : ∀ a, (s.step cfg tm a).isSome = true →
      (a = .run u ∨ a = .htmStart u ∨ a = .htmAbort u) →
      ∃ a, (a = .run u ∨ a = .htmStart u ∨ a = .htmAbort u) ∧ (s.step cfg tm a).isSome = true :=
    fun a hs ha => ⟨a, ha, hs⟩
  cases hpc : (s.thread u).pc with
  | out =>
    rw [hpc] at hlk
    simp [McsPc.place, McsPlace.lock?] at hlk
  -- a waiter at `_xbegin` can start its transaction
  | htmBegin lk' n c =>
    refine hrun (.htmStart u) ?_ (.inr (.inl rfl))
    simp [McsState.step, hlive, hpc]
  -- a speculator can abort
  | speculating lk' n c =>
    refine hrun (.htmAbort u) ?_ (.inr (.inr rfl))
    simp [McsState.step, McsState.abortStep, hlive, hpc]
  -- every other place of the code has a next step, also where it spins
  | initLockNext lk' b n | initWait lk' b n | initSpeculate lk' b n | initCnt lk' b n
  | swapTail lk' n | casTail lk' n | link lk' n p | spinWait lk' n | spinCnt lk' n p
  | readCnt lk' n p | writeCnt lk' n c | readServing lk' n c | checkSpeculate lk' n c
  | checkWait lk' n c | spinWaitTm lk' n c | assertServing lk' n c | writeServing lk' n c
  | firstRead lk' n | firstWriteCnt lk' n c | firstReadAgain lk' n | firstWrite lk' n c =>
    refine hrun (.run u) ?_ (.inl rfl)
    simp only [McsState.step, hlive, Bool.false_eq_true, if_false, McsState.runLock, hpc]
    repeat' split
    all_goals rfl
  | readNext lk' n | clearTail lk' n | spinNext lk' n | haltFirst lk' n | haltNext lk' n x d
  | readSuccessor lk' n | clearWait lk' n m | dealloc lk' n =>
    refine hrun (.run u) ?_ (.inl rfl)
    simp only [McsState.step, hlive, Bool.false_eq_true, if_false, McsState.runLock,
      McsState.runUnlock, hpc, Option.none_or]
    repeat' split
    all_goals rfl
  | haltAt lk' n x d =>
    refine hrun (.run u) ?_ (.inl rfl)
    simp only [McsState.step, hlive, Bool.false_eq_true, if_false, McsState.runLock,
      McsState.runUnlock, hpc, Option.none_or]
    cases x with
    | none => rfl
    | some x =>
      simp only []
      repeat' split
      all_goals rfl

end McsState

/-- Some thread in the code of `lk` has a next step that is not a round of a spin loop whose
    exit condition is false. -/
def McsState.CanGoOn (cfg : TmParams) (tm : Bool) (s : McsState Tid Lid) (lk : Lid) : Prop :=
  ∃ u, (McsPc.place (s.thread u).pc).lock? = some lk ∧ McsState.spins s u = false ∧
    ∃ a, (a = .run u ∨ a = .htmStart u ∨ a = .htmAbort u) ∧ (s.step cfg tm a).isSome = true

/-- While some thread is in the code of a lock that nobody has, some thread there can go on. -/
theorem mcs_not_stuck
    (h : (mcs Tid Lid cfg tm).Run (fun s a => tm = true → McsCntKept s a ∧ McsInRange s) tr s)
    {t : Tid} {lk : Lid} (ht : (McsPc.place (s.thread t).pc).lock? = some lk)
    (hfree : ∀ u, lk ∉ (s.thread u).held.map Prod.fst) : McsState.CanGoOn cfg tm s lk := by
  obtain ⟨hok, hinv⟩ := mcs_invariant h
  obtain ⟨hcount, hplain, hlive⟩ := mcs_counts h
  have hgo : ∀ u, (McsPc.place (s.thread u).pc).lock? = some lk → McsState.spins s u = false →
      McsState.CanGoOn cfg tm s lk := fun u hu hspin =>
    ⟨u, hu, hspin, McsState.exists_step hlive hu⟩
  -- if the thread spins, its node is in the queue, and somebody is before it
  by_cases hspin : McsState.spins s t = false
  · exact hgo t ht hspin
  rw [Bool.not_eq_false] at hspin
  obtain ⟨i, r, hrole⟩ := McsState.role_of_spins hspin ht
  obtain ⟨j, hj, -⟩ := (hinv.queue lk).exists_index
    (show (McsState.view s).role (t, i) = .queued lk r from McsThread.role_self hrole)
  -- nobody has the lock, so the owner of every queued node is in the code of the lock
  have hpc : ∀ u k r, (McsState.view s).role (u, k) = .queued lk r →
      McsPc.role? (s.thread u).pc = some (k, .queued lk r) := by
    intro u k r hr
    have hheld : ∀ n, heldRole (s.thread u).held n ≠ (McsRole.queued lk r : McsRole Tid Lid) :=
      fun n hn => hfree u (List.mem_map_of_mem (heldRole_queued hn).1)
    have hr' : McsThread.role (s.thread u) k = .queued lk r := hr
    cases hp : McsPc.role? (s.thread u).pc with
    | none => exact absurd ((McsThread.role_out hp k).symm.trans hr') (hheld k)
    | some p =>
      by_cases hk : k = p.1
      · have hrole : McsPc.role? (s.thread u).pc = some (k, p.2) := by rw [hp, hk]
        rw [McsThread.role_self hrole] at hr'
        rw [← hr', hk]
      · have hne : McsThread.role (s.thread u) k = heldRole (s.thread u).held k :=
          McsThread.role_ne (by simp [hp]) hk
        exact absurd (hne.symm.trans hr') (hheld k)
  -- the owner of the first node of the queue
  obtain ⟨⟨u, k⟩, hz⟩ : ∃ n, ((McsState.view s).queue lk)[0]? = some n := by
    have hlt := (List.getElem?_eq_some_iff.mp hj).1
    exact ⟨_, List.getElem?_eq_getElem (show 0 < _ by omega)⟩
  obtain ⟨r₀, hr₀⟩ := (hinv.queue lk).queued hz
  have he := (hinv.queue lk).entry 0 _ _ hz hr₀
  have hu := hpc u k r₀ hr₀
  -- the first node does not wait for a count: that of its predecessor is set
  have hcnt : ∀ p, r₀ = .counting p → (s.node p).cnt ≠ 0 := by
    intro p hp
    subst hp
    cases htm : tm with
    | false => exact nomatch hplain htm _ _ _ hr₀
    | true =>
      intro hzero
      exact (((hcount htm lk).entry 0 _ _ hz hr₀).2.spent rfl).2.2 (congrArg BitVec.toNat hzero)
  -- the first node can go on, unless it waits for its successor to link itself
  by_cases hnext : r₀ = .awaiting ∧ (s.node (u, k)).lockNext = none
  · obtain ⟨rfl, hnone⟩ := hnext
    obtain ⟨m, hm⟩ := Option.ne_none_iff_exists'.mp (he.awaits rfl)
    have hlink : (McsState.view s).linked m = false := by
      have hlk := he.next
      rw [show (McsState.view s).node (u, k) = s.node (u, k) from rfl, hnone, hm] at hlk
      by_contra hne
      rw [Bool.not_eq_false] at hne
      simp [Option.filter, hne] at hlk
    obtain ⟨rm, hrm⟩ := (hinv.queue lk).queued hm
    -- the next node is about to link itself
    have hrole' := hpc m.1 m.2 rm hrm
    rw [McsView.linked, hrm] at hlink
    refine hgo m.1 (lock?_of_role hrole') (McsState.not_spins_of_role hrole' ?_ ?_ ?_) <;>
      · intros
        subst_vars
        simp [McsRole.isLinking, QueueRole.isLinking] at hlink
  · refine hgo u (lock?_of_role hu) (McsState.not_spins_of_role hu (fun v hv => ?_) hcnt fun ha hn =>
      hnext ⟨ha, hn⟩)
    subst hv
    have hwait : (s.node (u, k)).wait = decide (0 < 0) := he.wait rfl
    rw [hwait]
    rfl

/-- Thread 1 waits behind thread 0, which unlocks, and the next step of thread 1 takes the
    lock. -/
theorem mcs_not_stuck_handover :
    ∃ s : McsState (Fin 2) Unit, (s.thread 1).pc = .spinWaitTm () 0 2 ∧
      McsState.CanGoOn {} true s () := by
  let as : List (McsAct (Fin 2) Unit) :=
    [[.lock 0 ()], .replicate 9 (.run 0), [.lock 1 ()], .replicate 10 (.run 1),
      [.htmAbort 1, .unlock 0 ()], .replicate 8 (.run 0)].flatten
  have hpc : ((mcs (Fin 2) Unit {} true).exec {} as).map (fun s => decide
      ((s.thread 1).pc = .spinWaitTm () 0 2 ∧
        ∀ u, () ∉ (s.thread u).held.map Prod.fst)) = some true := by decide
  have hkept : ∀ p ∈ (mcs (Fin 2) Unit {} true).execTrace {} as,
      McsCntKept p.1 p.2 ∧ McsInRange p.1 := by decide
  obtain ⟨s, hs, hd⟩ := Option.map_eq_some_iff.mp hpc
  obtain ⟨hpc, hheld⟩ := of_decide_eq_true hd
  have hrun := (System.Run.init (M := mcs (Fin 2) Unit {} true) rfl).exec hs
  refine ⟨s, hpc, mcs_not_stuck ((hrun.of_forall_mem
    (C := fun s a => McsCntKept s a ∧ McsInRange s) hkept).mono fun _ _ hc _ => hc)
    (t := 1) ?_ hheld⟩
  rw [hpc]
  rfl

/-- Thread 1 queues behind thread 0, and thread 0 unlocks and locks again with the same node
    before thread 1 reads its position. Each waits for the `cnt` of the other, and nobody
    else is there. -/
theorem mcs_stuck :
    ∃ s, (mcs (Fin 2) Unit {} true).Reachable System.Free s ∧
      (s.thread 0).pc = .spinCnt () 0 (1, 0) ∧ (s.thread 1).pc = .spinCnt () 0 (0, 0) ∧
      (∀ u, () ∉ (s.thread u).held.map Prod.fst) ∧ ¬ McsState.CanGoOn {} true s () := by
  obtain ⟨s, hs, hp⟩ := System.reachable_of_exec (M := mcs (Fin 2) Unit {} true) (s := {})
    [[.lock 0 ()], .replicate 9 (.run 0), [.lock 1 ()], .replicate 6 (.run 1),
      [.unlock 0 ()], .replicate 8 (.run 0), [.lock 0 ()], .replicate 6 (.run 0)].flatten
    (p := fun s => decide ((s.thread 0).pc = .spinCnt () 0 (1, 0) ∧
      (s.thread 1).pc = .spinCnt () 0 (0, 0) ∧ (∀ u, () ∉ (s.thread u).held.map Prod.fst) ∧
      ∀ u, McsState.spins s u = true)) rfl (by decide)
  obtain ⟨h0, h1, hfree, hspins⟩ := of_decide_eq_true hp
  have hstuck : ¬ McsState.CanGoOn {} true s () := by
    intro hgo
    obtain ⟨u, -, hu, -⟩ := hgo
    rw [hspins u] at hu
    simp at hu
  exact ⟨s, hs, h0, h1, hfree, hstuck⟩

end

end TxLock.Spec
