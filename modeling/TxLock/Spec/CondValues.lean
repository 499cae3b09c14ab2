import TxLock.Native.CondDispatch

/-!
# The values of the condition variables

What the two implementations compute, and what reaches an application that calls the
exported names.

## Key results

- `pthreadCond_value`: `pthread_cond.c` computes 0, `ETIMEDOUT` or `EINVAL`, as POSIX asks
- `txcond_value`: `txcond.c` computes 0, and -1 for a deadline that has passed
- `exported_value_lost`: the exported functions pass neither on
-/

namespace TxLock.Spec

open TxLock.Native Prog

/-- What has become of a call. -/
inductive Outcome where
  | woken
  | timedOut
  | invalidTime
  deriving DecidableEq, Repr

/-- The value POSIX gives an outcome. -/
def Outcome.value : Outcome → Int
  | .woken => 0
  | .timedOut => ETIMEDOUT
  | .invalidTime => EINVAL

/-- A wait gives up: it counts itself as woken, or sets `errno`. -/
def GivesUp : CondOp → Prop
  | .add _ .wakeupSeq _ => True
  | .setErrno _ => True
  | _ => False

instance : DecidablePred GivesUp := fun o => by
  unfold GivesUp
  split <;> infer_instance

/-- A wait has given up in the run `tr`. -/
def GaveUp (tr : List (CondOp × Int)) : Prop := ∃ e ∈ tr, GivesUp e.1

instance (tr : List (CondOp × Int)) : Decidable (GaveUp tr) :=
  inferInstanceAs (Decidable (∃ e ∈ tr, GivesUp e.1))

/-- The outcome of a call with the run `tr`. -/
def outcome (c : CondCall) (tr : List (CondOp × Int)) : Outcome :=
  match c with
  | .timedwait _ _ ts =>
    if ts.Invalid then .invalidTime else if GaveUp tr then .timedOut else .woken
  | .wait _ _ | .signal _ | .broadcast _ => .woken

/-- An operation that tells of an error of the mutex or of a semaphore. -/
def TellsError : CondOp → Prop
  | .tlLock _ | .tlUnlock _ | .semInit _ | .semPost _ => True
  | _ => False

/-- What an operation answers when it reports no error. -/
def Answers (o : CondOp) (v : Int) : Prop := TellsError o → v = 0

/-- The mutex and the semaphores have reported no error. -/
def NoError (tr : List (CondOp × Int)) : Prop := ∀ e ∈ tr, Answers e.1 e.2

/-- The application receives what the selected implementation computes. -/
def Forwards (cfg : TxConfig) (use : Bool) (c : CondCall) : Prop :=
  ∀ tr v, (c.selected cfg use).Returns tr v → (c.exported cfg use).Returns tr (some v)

/-- The implementations are interchangeable behind the exported names. -/
structure Interchangeable (cfg : TxConfig) (c : CondCall) : Prop where
  forwards : ∀ use, Forwards cfg use c
  /-- Each of them computes the value of the outcome. -/
  value : ∀ use tr v, (c.selected cfg use).Returns tr v → NoError tr → v = (outcome c tr).value

@[simp] theorem not_gaveUp_nil : ¬ GaveUp [] := by
  simp [GaveUp]

@[simp] theorem gaveUp_cons {e : CondOp × Int} {tr : List (CondOp × Int)} :
    GaveUp (e :: tr) ↔ GivesUp e.1 ∨ GaveUp tr := by
  simp only [GaveUp, List.mem_cons, exists_eq_or_imp]

@[simp] theorem gaveUp_append {tr tr' : List (CondOp × Int)} :
    GaveUp (tr ++ tr') ↔ GaveUp tr ∨ GaveUp tr' := by
  simp only [GaveUp, List.mem_append, or_and_right, exists_or]

/-- A program that never gives up. -/
theorem not_gaveUp_of_avoids {α : Type} {p q : CondProg α} {tr : List (CondOp × Int)}
    (hp : p.Avoids GivesUp) (h : p.Leads tr q) : ¬ GaveUp tr := by
  rintro ⟨e, he, hg⟩
  exact hp.not_mem h he hg

/-! ## What `pthread_cond.c` computes -/

theorem condRegister_avoids (cond mutex : Addr) : (condRegister cond mutex).Avoids GivesUp := by
  simp [condRegister, GivesUp]

theorem condLeave_avoids (cond : Addr) : (condLeave cond).Avoids GivesUp := by
  simp [condLeave, GivesUp]

theorem condTimedBody_avoids (cond : Addr) (abstime : Timespec) (seq bcSeq : Int) :
    (condTimedBody cond abstime seq bcSeq).Avoids GivesUp := by
  simp [condTimedBody, GivesUp]

theorem condWaitEnd_wp (cond mutex : Addr) (e : WaitEnd) :
    (condWaitEnd cond mutex e).wp Answers (· = 0) := by
  cases e <;> simp [condWaitEnd, condLeave, Answers, TellsError]

/-- A wait computes 0, also when it returns in its transaction. -/
theorem pthreadCondWait_wp (cfg : TxConfig) (cond mutex : Addr) :
    (pthreadCondWait cfg cond mutex).wp Answers (· = 0) := by
  have hend : ∀ p : CondProg WaitEnd,
      p.wp Answers fun e => (condWaitEnd cond mutex e).wp Answers (· = 0) :=
    wp_of_forall (condWaitEnd_wp cond mutex)
  simp [pthreadCondWait, condWaitReleased, condRegister, Answers, TellsError, hend]

theorem pthreadCondSignal_wp (cond : Addr) :
    (pthreadCondSignal cond).wp Answers (· = 0) := by
  simp [pthreadCondSignal]

theorem pthreadCondBroadcast_wp (cond : Addr) :
    (pthreadCondBroadcast cond).wp Answers (· = 0) := by
  simp [pthreadCondBroadcast]

/-- The counters tell whether the deadline has passed. -/
theorem condTimedCounters_value {cond : Addr} {e : TimedEnd} {tr : List (CondOp × Int)} {v : Int}
    (h : (condTimedCounters cond e).Returns tr v) : v = if GaveUp tr then ETIMEDOUT else 0 := by
  cases e with
  | woken =>
    simp only [condTimedCounters, bind_eq, emit_bind, pure_eq, returns_op, returns_ret] at h
    obtain ⟨_, _, rfl, rfl, rfl⟩ := h
    simp [GivesUp]
  | timeout =>
    simp only [condTimedCounters, bind_eq, emit_bind, pure_eq, returns_op, returns_ret] at h
    obtain ⟨_, _, rfl, _, _, rfl, _, _, rfl, rfl, rfl⟩ := h
    simp [GivesUp]
  | broadcast =>
    simp only [condTimedCounters, pure_eq, returns_ret] at h
    obtain ⟨rfl, rfl⟩ := h
    simp

theorem condTimedReleased_value {cfg : TxConfig} {cond mutex : Addr} {abstime : Timespec}
    {tr : List (CondOp × Int)} {v : Int}
    (h : (condTimedReleased cfg cond mutex abstime).Returns tr v) (herr : NoError tr) :
    v = if GaveUp tr then ETIMEDOUT else 0 := by
  simp only [condTimedReleased, bind_eq, perform_bind, pure_eq] at h
  obtain ⟨tr₁, _, _, rfl, hregister, h₁⟩ := returns_bind.mp h
  simp only [returns_op] at h₁
  obtain ⟨seq, _, rfl, bcSeq, _, rfl, h₂⟩ := h₁
  obtain ⟨tr₂, _, e, rfl, hloop, h₃⟩ := returns_bind.mp h₂
  obtain ⟨tr₃, _, result, rfl, hcounters, h₄⟩ := returns_bind.mp h₃
  obtain ⟨tr₄, _, _, rfl, hleave, h₅⟩ := returns_bind.mp h₄
  simp only [returns_op, returns_ret] at h₅
  obtain ⟨err, _, rfl, rfl, rfl⟩ := h₅
  -- of all these parts only the counters tell of a timeout
  have hregister := not_gaveUp_of_avoids (condRegister_avoids cond mutex) hregister
  have hloop := not_gaveUp_of_avoids
    (Avoids.loop (fun _ => condTimedBody_avoids cond abstime seq bcSeq) _ _) hloop
  have hleave := not_gaveUp_of_avoids (condLeave_avoids cond) hleave
  have hlock : err = 0 := herr (.tlLock mutex, err) (by simp) trivial
  rw [hlock, if_neg (by simp), condTimedCounters_value hcounters]
  simp [hregister, hloop, hleave, GivesUp]

/-- `pthread_cond.c` computes the value of the outcome. -/
theorem pthreadCond_value {cfg : TxConfig} {c : CondCall} {tr : List (CondOp × Int)} {v : Int}
    (h : (c.pthreadCond cfg).Returns tr v) (herr : NoError tr) : v = (outcome c tr).value := by
  cases c with
  | wait cv lk => exact (pthreadCondWait_wp cfg cv lk).of_returns h herr
  | signal cv => exact (pthreadCondSignal_wp cv).of_returns h herr
  | broadcast cv => exact (pthreadCondBroadcast_wp cv).of_returns h herr
  | timedwait cv lk ts =>
    simp only [CondCall.pthreadCond, pthreadCondTimedwait] at h
    by_cases hts : ts.Invalid
    · simp only [hts, if_true, pure_eq, returns_ret] at h
      simp [outcome, hts, h.2, Outcome.value]
    · simp only [hts, if_false, bind_eq, emit_bind, perform_bind, returns_op] at h
      obtain ⟨u, _, rfl, err, tr, rfl, h₁⟩ := h
      have hunlock : err = 0 := herr (.tlUnlock lk, err) (by simp) trivial
      rw [if_neg (by simp [hunlock])] at h₁
      rw [condTimedReleased_value h₁ fun e he => herr e (by simp [he])]
      simp only [outcome, hts, if_false, gaveUp_cons, GivesUp, false_or]
      split <;> rfl

/-- An invalid time is reported before anything else is done: the mutex stays locked. -/
theorem pthreadCondTimedwait_invalid {cfg : TxConfig} {cond mutex : Addr} {abstime : Timespec}
    (hts : abstime.Invalid) {tr : List (CondOp × Int)} {v : Int} :
    (pthreadCondTimedwait cfg cond mutex abstime).Returns tr v ↔ tr = [] ∧ v = EINVAL := by
  simp [pthreadCondTimedwait, hts]

/-! ## What `txcond.c` computes -/

/-- A round gives up exactly when the loop ends with a timeout. -/
def EndsAsGivenUp (tr : List (CondOp × Int)) (r : Unit ⊕ TxWaitEnd) : Prop :=
  GaveUp tr ↔ r = .inr .timeout

theorem txcondWoken_ends {node : Addr} {tr : List (CondOp × Int)} {r : Unit ⊕ TxWaitEnd}
    (h : (txcondWoken node).Returns tr r) : EndsAsGivenUp tr r := by
  simp only [txcondWoken, bind_eq, perform_bind, returns_op, returns_ite] at h
  obtain ⟨stored, tr', rfl, h⟩ := h
  split at h
  · simp only [emit_bind, pure_eq, returns_op, returns_ret] at h
    obtain ⟨_, _, rfl, rfl, rfl⟩ := h
    simp [EndsAsGivenUp, GivesUp]
  · simp only [pure_eq, returns_ret] at h
    obtain ⟨rfl, rfl⟩ := h
    simp [EndsAsGivenUp, GivesUp]

theorem txcondExpired_ends {node : Addr} {tr : List (CondOp × Int)} {r : Unit ⊕ TxWaitEnd}
    (h : (txcondExpired node).Returns tr r) : EndsAsGivenUp tr r := by
  simp only [txcondExpired, bind_eq, perform_bind, returns_op, returns_ite] at h
  obtain ⟨stored, tr', rfl, h⟩ := h
  split at h
  all_goals
    simp only [emit_bind, pure_eq, returns_op, returns_ret] at h
    obtain ⟨_, _, rfl, rfl, rfl⟩ := h
    simp [EndsAsGivenUp, GivesUp]

theorem EndsAsGivenUp.cons {o : CondOp} {v : Int} {tr : List (CondOp × Int)}
    {r : Unit ⊕ TxWaitEnd} (h : EndsAsGivenUp tr r) (ho : ¬ GivesUp o) :
    EndsAsGivenUp ((o, v) :: tr) r := by
  simpa [EndsAsGivenUp, ho] using h

theorem txcondWaitBody_ends {node : Addr} {absTimeout : Option Timespec}
    {tr : List (CondOp × Int)} {r : Unit ⊕ TxWaitEnd}
    (h : (txcondWaitBody node absTimeout).Returns tr r) : EndsAsGivenUp tr r := by
  -- after `sem_wait` or `sem_timedwait`
  have hrest : ∀ (e : Int) tr, (if e ≠ 0 then op .errno fun errno =>
        if errno = EINTR then ret (.inl ())
        else if errno = EINVAL then condAssertFail
        else if absTimeout.isSome ∧ errno = ETIMEDOUT then txcondExpired node
        else condAssertFail
      else txcondWoken node : CondProg (Unit ⊕ TxWaitEnd)).Returns tr r → EndsAsGivenUp tr r := by
    intro e tr h
    split at h
    · simp only [returns_op, returns_ite, returns_ret, condAssertFail, not_halt_returns] at h
      obtain ⟨errno, tr', rfl, h⟩ := h
      apply EndsAsGivenUp.cons _ (by simp [GivesUp])
      split at h
      · obtain ⟨rfl, rfl⟩ := h
        simp [EndsAsGivenUp]
      · split at h
        · simp at h
        · split at h
          · exact txcondExpired_ends h
          · simp at h
    · exact txcondWoken_ends h
  cases absTimeout with
  | none | some =>
    simp only [txcondWaitBody, bind_eq, perform_bind, returns_op] at h
    obtain ⟨e, tr', rfl, h⟩ := h
    exact (hrest e tr' h).cons (by simp [GivesUp])

/-- The loop of the wait gives up in its last round or not at all. -/
theorem txcondWaitLoop_ends {fuel : Nat} {node : Addr} {absTimeout : Option Timespec}
    {tr : List (CondOp × Int)} {e : TxWaitEnd}
    (h : (loop (fun _ => txcondWaitBody node absTimeout) fuel ()).Returns tr e) :
    GaveUp tr ↔ e = .timeout := by
  obtain ⟨tr₁, tr₂, _, rfl, hlast, hbefore⟩ := returns_loop h
  have hends := txcondWaitBody_ends hlast
  have hbefore : ¬ GaveUp tr₁ := by
    rintro ⟨e, he, hg⟩
    obtain ⟨_, _, tr', hround, he'⟩ := hbefore e he
    exact nomatch (txcondWaitBody_ends hround).mp ⟨e, he', hg⟩
  simp only [EndsAsGivenUp, Sum.inr.injEq] at hends
  rw [← hends, gaveUp_append, or_iff_right hbefore]

theorem txcondEnqueue_avoids (cv node : Addr) : (txcondEnqueue cv node).Avoids GivesUp := by
  simp [txcondEnqueue, GivesUp]

theorem txcondWaitQueued_value {cfg : TxConfig} {cv lk node : Addr}
    {absTimeout : Option Timespec} {tr : List (CondOp × Int)} {v : Int}
    (h : (txcondWaitQueued cfg cv lk node absTimeout).Returns tr v) :
    v = if GaveUp tr then -1 else 0 := by
  simp only [txcondWaitQueued, bind_eq, emit_bind] at h
  obtain ⟨tr₁, _, _, rfl, henqueue, h₁⟩ := returns_bind.mp h
  simp only [returns_op] at h₁
  obtain ⟨u, _, rfl, h₂⟩ := h₁
  obtain ⟨tr₂, tr₃, e, rfl, hloop, h₃⟩ := returns_bind.mp h₂
  have hends := txcondWaitLoop_ends hloop
  have henqueue := not_gaveUp_of_avoids (txcondEnqueue_avoids cv node) henqueue
  cases e with
  | timeout =>
    simp only [pure_eq, returns_ret] at h₃
    obtain ⟨rfl, rfl⟩ := h₃
    simp [hends]
  | woken =>
    simp only [pure_eq, returns_op, returns_ret] at h₃
    obtain ⟨w, _, rfl, rfl, rfl⟩ := h₃
    simp [hends, henqueue, GivesUp]

/-- A wait of `txcond.c` that gives up computes -1. -/
theorem txcondWaitcommon_value {cfg : TxConfig} {cv lk : Addr} {absTimeout : Option Timespec}
    {tr : List (CondOp × Int)} {v : Int}
    (h : (txcondWaitcommon cfg cv lk absTimeout).Returns tr v) (herr : NoError tr) :
    v = if GaveUp tr then -1 else 0 := by
  simp only [txcondWaitcommon, bind_eq, perform_bind, emit_bind, returns_op, returns_ite,
    condAssertFail, not_halt_returns, and_false, exists_false, if_false_left] at h
  obtain ⟨node, _, rfl, -, e, _, rfl, h₁⟩ := h
  have hinit : e = 0 := herr (.semInit node, e) (by simp) trivial
  rw [if_neg (by simp [hinit])] at h₁
  obtain ⟨_, _, rfl, _, _, rfl, _, tr', rfl, h₂⟩ := h₁
  rw [txcondWaitQueued_value h₂]
  simp [GivesUp]

theorem txcondSignal_wp (cv : Addr) : (txcondSignal cv).wp Answers (· = 0) := by
  simp [txcondSignal, txcondPopHead, txcondPopTail, condAssertFail, Answers, TellsError]

theorem txcondBroadcast_wp (cfg : TxConfig) (cv : Addr) :
    (txcondBroadcast cfg cv).wp Answers (· = 0) := by
  have hloop : ∀ node, (loop txcondBroadcastBody cfg.fuel (node, 0)).wp Answers (· = 0) := by
    intro node
    apply wp_loop (I := fun p => p.2 = 0) _ cfg.fuel rfl
    intro p hp
    simp [txcondBroadcastBody, hp, Answers, TellsError]
  simp [txcondBroadcast, hloop]

/-- `txcond.c` computes 0, and -1 where POSIX asks for `ETIMEDOUT`. An invalid time is
    never reported. -/
theorem txcond_value {cfg : TxConfig} {c : CondCall} {tr : List (CondOp × Int)} {v : Int}
    (h : (c.txcond cfg).Returns tr v) (herr : NoError tr) :
    v = 0 ∨ GaveUp tr ∧ v = -1 := by
  cases c with
  | wait cv lk | timedwait cv lk ts =>
    have hv := txcondWaitcommon_value h herr
    split at hv
    · exact .inr ⟨‹_›, hv⟩
    · exact .inl hv
  | signal cv => exact .inl ((txcondSignal_wp cv).of_returns h herr)
  | broadcast cv => exact .inl ((txcondBroadcast_wp cfg cv).of_returns h herr)

/-! ## What the application receives -/

/-- An exported function does what the selected implementation does and forgets its value. -/
theorem exported_returns {cfg : TxConfig} {use : Bool} {c : CondCall}
    {tr : List (CondOp × Int)} {x : Option Int} :
    (c.exported cfg use).Returns tr x ↔ (∃ v, (c.selected cfg use).Returns tr v) ∧ x = none := by
  have htc : c.exported cfg use = CondCall.tc cfg use c := by
    cases c <;> rfl
  rw [htc, CondCall.tc, bind_eq, returns_bind]
  constructor
  · rintro ⟨tr₁, tr₂, v, rfl, h, hret⟩
    obtain ⟨rfl, rfl⟩ := returns_ret.mp hret
    exact ⟨⟨v, by simpa using h⟩, rfl⟩
  · rintro ⟨⟨v, h⟩, rfl⟩
    exact ⟨tr, [], v, by simp, h, .nil _⟩

/-- Every function returns in some run. -/
theorem selected_returns (cfg : TxConfig) (use : Bool) (c : CondCall) :
    ∃ tr v, (c.selected cfg use).Returns tr v := by
  cases use with
  | true =>
    cases c with
    -- the mutex cannot be unlocked: the shortest way out
    | wait cv lk =>
      refine ⟨[(.lllLock cv, 0), (.tlUnlock lk, 1), (.lllUnlock cv, 0)], 1, ?_⟩
      simp [CondCall.selected, CondCall.pthreadCond, pthreadCondWait]
    | timedwait cv lk ts =>
      by_cases hts : ts.Invalid
      · exact ⟨[], EINVAL, (pthreadCondTimedwait_invalid hts).mpr ⟨rfl, rfl⟩⟩
      · refine ⟨[(.lllLock cv, 0), (.tlUnlock lk, 1), (.lllUnlock cv, 0)], 1, ?_⟩
        simp [CondCall.selected, CondCall.pthreadCond, pthreadCondTimedwait, hts]
    | signal cv =>
      refine ⟨[(.lllLock cv, 0), (.load cv .totalSeq, 0), (.load cv .wakeupSeq, 0),
        (.lllUnlock cv, 0)], 0, ?_⟩
      simp [CondCall.selected, CondCall.pthreadCond, pthreadCondSignal]
    | broadcast cv =>
      refine ⟨[(.lllLock cv, 0), (.load cv .totalSeq, 0), (.load cv .wakeupSeq, 0),
        (.lllUnlock cv, 0)], 0, ?_⟩
      simp [CondCall.selected, CondCall.pthreadCond, pthreadCondBroadcast]
  | false =>
    cases c with
    -- the semaphore cannot be initialised
    | wait cv lk =>
      refine ⟨[(.malloc, 1), (.semInit 1, 1)], -1, ?_⟩
      simp [CondCall.selected, CondCall.txcond, txcondWait, txcondWaitcommon]
    | timedwait cv lk ts =>
      refine ⟨[(.malloc, 1), (.semInit 1, 1)], -1, ?_⟩
      simp [CondCall.selected, CondCall.txcond, txcondTimedwait, txcondWaitcommon]
    | signal cv =>
      refine ⟨[(.ulLock cv, 0), (.get cv .cnt, 0), (.set cv .cnt (txcondNextCnt 0).toNat, 0),
        (.get cv .tail, 0), (.ulUnlock cv, 0)], 0, ?_⟩
      -- the first number drawn is not divisible by 10
      have hpick : (txcondNextCnt 0).toInt.tmod 10 ≠ 0 := by decide
      simp [CondCall.selected, CondCall.txcond, txcondSignal, txcondPopTail, hpick]
    | broadcast cv =>
      refine ⟨[(.ulLock cv, 0), (.get cv .head, 0), (.ulUnlock cv, 0)], 0, ?_⟩
      simp [CondCall.selected, CondCall.txcond, txcondBroadcast]

/-- Whatever is called, with whatever deadline, the application is given no determined value:
    the value the selected implementation has computed is not passed on. -/
theorem exported_value_lost (cfg : TxConfig) (c : CondCall) :
    ¬ Interchangeable cfg c ∧ ∀ use, ¬ Forwards cfg use c ∧
      ∀ tr x, (c.exported cfg use).Returns tr x → x = none := by
  have hlost : ∀ use, ¬ Forwards cfg use c := by
    intro use hf
    obtain ⟨tr, v, h⟩ := selected_returns cfg use c
    exact nomatch (exported_returns.mp (hf tr v h)).2
  exact ⟨fun h => hlost true (h.forwards true), fun use =>
    ⟨hlost use, fun tr x h => (exported_returns.mp h).2⟩⟩

/-- A timed wait with a deadline long past. -/
def expiredCall : CondCall := .timedwait 16 32 ⟨0, 0⟩

/-- With a deadline that has passed `pthread_cond.c` computes `ETIMEDOUT` and `txcond.c` -1,
    and the application is given no determined value. -/
theorem timedwait_not_interchangeable :
    ¬ Interchangeable {fuel := 1} expiredCall ∧
      (∃ tr, (expiredCall.pthreadCond {fuel := 1}).Returns tr ETIMEDOUT ∧ NoError tr ∧
        (expiredCall.exported {fuel := 1} true).Returns tr none) ∧
      ∃ tr, (expiredCall.txcond {fuel := 1}).Returns tr (-1) ∧ NoError tr ∧
        (expiredCall.exported {fuel := 1} false).Returns tr none := by
  let pthreadRun : List (CondOp × Int) :=
    [(.lllLock 16, 0), (.tlUnlock 32, 0), (.add 16 .totalSeq 1, 0), (.add 16 .futex 1, 0),
      (.add 16 .nwaiters 2, 0), (.load 16 .mutex, 0), (.store 16 .mutex 32, 0),
      (.load 16 .wakeupSeq, 0), (.load 16 .broadcastSeq, 0), (.gettimeofday, 5), (.tvUsec, 0),
      (.load 16 .broadcastSeq, 0), (.add 16 .wakeupSeq 1, 0), (.add 16 .futex 1, 0),
      (.add 16 .wokenSeq 1, 0), (.add 16 .nwaiters (-2), 0), (.load 16 .totalSeq, 1),
      (.lllUnlock 16, 0), (.tlLock 32, 0)]
  let txcondRun : List (CondOp × Int) :=
    [(.malloc, 48), (.semInit 48, 0), (.set 48 .next 0, 0), (.set 48 .prev 0, 0),
      (.set 48 .status 0, 0), (.ulLock 16, 0), (.get 16 .tail, 0), (.set 16 .head 48, 0),
      (.set 16 .tail 48, 0), (.ulUnlock 16, 0), (.tlUnlock 32, 0),
      (.semTimedwait 48 ⟨0, 0⟩, -1), (.errno, 110), (.casStatus 48 0 1, 1), (.setErrno 110, 0)]
  have hpthread : (expiredCall.pthreadCond {fuel := 1}).Returns pthreadRun ETIMEDOUT :=
    returns_of_replay (by decide)
  have htxcond : (expiredCall.txcond {fuel := 1}).Returns txcondRun (-1) :=
    returns_of_replay (by decide)
  have hnone : ∀ tr v use, (expiredCall.selected {fuel := 1} use).Returns tr v →
      (expiredCall.exported {fuel := 1} use).Returns tr none :=
    fun tr v use h => exported_returns.mpr ⟨⟨v, h⟩, rfl⟩
  refine ⟨fun h => ?_, ⟨pthreadRun, hpthread, ?_, hnone _ _ true hpthread⟩,
    txcondRun, htxcond, ?_, hnone _ _ false htxcond⟩
  · exact nomatch (exported_returns.mp (h.forwards true _ _ hpthread)).2
  · simp [NoError, pthreadRun, Answers, TellsError]
  · simp [NoError, txcondRun, Answers, TellsError]

end TxLock.Spec
