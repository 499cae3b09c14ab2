import TxLock.Native.PosixMutex

/-!
# `pthread_tm` in the place of `pthread`

The functions of the two types on one mutex of libpthread, which other threads may change
between any two calls. `pthread_lock_tm` makes a row of trylocks and at last a lock; it
does what `pthread_lock` does in the state of its last call if no call is answered by an
error, and otherwise it hides the error. `pthread_unlock_tm` hides every error.

## Key results

- `lockTm_calls`: the calls `pthread_lock_tm` makes
- `pthreadTm_faithful`: when the types agree
- `pthreadTm_hides_errors`: where they do not
-/

namespace TxLock.Spec

open Native Prog

variable {Tid : Type} [DecidableEq Tid]

/-- The thread is in no transaction when it calls, and every attempt to begin one fails. -/
def Aborted : LockOp → Int → Prop
  | .specEntry, v => v = 0
  | .xbegin, v => v ≠ xbeginStarted
  | _, _ => True

/-- A run of thread `t` outside transactions, with the states of the mutex at its calls. -/
def MutexRun {α : Type} (t : Tid) (p : LockProg α) (cs : List (Mutex Tid × Mutex Tid))
    (q : LockProg α) : Prop :=
  RunsTo (mutexCall t) Aborted p cs q

/-- The function `p` returns `v` in one call, which finds `m` and leaves `m'`. -/
def Does (t : Tid) (p : LockProg Int) (m : Mutex Tid) (v : Int) (m' : Mutex Tid) : Prop :=
  MutexRun t p [(m, m')] (.ret v)

/-- `pthread_mutex_lock` reports an error to `t`. -/
def Refuses (m : Mutex Tid) (t : Tid) : Prop :=
  m.notRecoverable = true ∨ t ∈ m.barred ∨
    (m.owner ≠ none ∧ m.robust = true ∧ m.ownerDead = true) ∨
    m.owner = some t ∧ (m.kind = .errorcheck ∨ m.kind = .recursive ∧ m.maxCount ≤ m.count)

/-- The function `p` agrees with a run that has made the calls `cs` and come to `q`: in the
    state of the last call before a return, and only there, `p` returns too, with the same
    value and the same state of the mutex. -/
def Agrees (t : Tid) (p : LockProg Int) (cs : List (Mutex Tid × Mutex Tid)) : LockProg Int → Prop
  | .ret v => ∃ cs₀ m m', cs = cs₀ ++ [(m, m')] ∧ Does t p m v m' ∧
      ∀ c ∈ cs₀, ∀ v' m'', ¬ Does t p c.1 v' m''
  | .op _ _ => ∀ c ∈ cs, ∀ v m', ¬ Does t p c.1 v m'
  | .halt => False

/-- How `pthread_tm` compares with `pthread`, for one thread and one mutex. -/
structure PthreadTmLaw (cfg : TxConfig) (t : Tid) (l : Addr) : Prop where
  lock : ∀ cs q, MutexRun t (tlLock cfg .pthreadTm l) cs q →
    (Agrees t (tlLock cfg .pthread l) cs q ↔ ∀ c ∈ cs, ¬ Refuses c.1 t)
  trylock : ∀ cs q, MutexRun t (tlTrylock cfg .pthreadTm l) cs q →
    Agrees t (tlTrylock cfg .pthread l) cs q
  unlock : ∀ cs q, MutexRun t (tlUnlock cfg .pthreadTm l) cs q →
    (Agrees t (tlUnlock cfg .pthread l) cs q ↔ ∀ c ∈ cs, c.1.owner = some t)

/-! ## Mutexes -/

section

variable {m m' : Mutex Tid} {t : Tid}

/-- A trylock that gets the mutex is a lock. -/
theorem lock_of_trylock (h : m.trylock t = (0, m')) : m.lock t = some (0, m') := by
  unfold Mutex.trylock at h
  unfold Mutex.lock
  grind [EBUSY]

/-- A trylock that does not get the mutex shows that a lock waits or reports an error. -/
theorem lock_ne_zero_of_trylock (h : (m.trylock t).1 ≠ 0) : m.lock t ≠ some (0, m') := by
  unfold Mutex.trylock Mutex.again at h
  unfold Mutex.lock Mutex.again
  grind [EAGAIN, EDEADLK, EOWNERDEAD, ENOTRECOVERABLE, EINVAL]

/-- The errors of a lock are those of the states that refuse it. -/
theorem refuses_iff_of_lock {e : Int} (h : m.lock t = some (e, m')) : Refuses m t ↔ e ≠ 0 := by
  unfold Refuses
  unfold Mutex.lock Mutex.again at h
  grind [EAGAIN, EBUSY, EDEADLK, EOWNERDEAD, ENOTRECOVERABLE, EINVAL]

theorem not_refuses_of_blocked (h : m.lock t = none) : ¬ Refuses m t := by
  unfold Refuses
  unfold Mutex.lock at h
  grind

/-- After a trylock that does not get the mutex: a lock waits, or the state refuses it. -/
theorem blocked_iff_of_trylock (h : (m.trylock t).1 ≠ 0) : m.lock t = none ↔ ¬ Refuses m t := by
  constructor
  · exact not_refuses_of_blocked
  · intro hno
    cases hl : m.lock t with
    | none => rfl
    | some r =>
      obtain ⟨e, m'⟩ := r
      rw [refuses_iff_of_lock hl, not_not] at hno
      subst hno
      exact absurd hl (lock_ne_zero_of_trylock h)

/-- Only the owner can unlock. -/
theorem unlock_eq_zero_iff {e : Int} (h : m.unlock t = some (e, m')) :
    e = 0 ↔ m.owner = some t := by
  unfold Mutex.unlock at h
  grind [EPERM]

end

/-! ## The operations -/

namespace MutexRun

variable {α : Type} {t : Tid} {k : Int → LockProg α} {l : Addr}
  {cs : List (Mutex Tid × Mutex Tid)} {q : LockProg α}

@[simp] theorem ret_iff {x : α} : MutexRun t (.ret x) cs q ↔ cs = [] ∧ q = .ret x := runsTo_ret

/-- An operation that any answer is allowed to. -/
theorem free_iff {o : LockOp} (ho : @mutexCall Tid _ t o = none) (hA : ∀ v, Aborted o v) :
    MutexRun t (.op o k) cs q ↔ ∃ v, MutexRun t (k v) cs q := by
  unfold MutexRun
  rw [runsTo_go ho]
  simp only [hA, true_and]

@[simp] theorem statsAdd_iff {f : StatField} {x : Int} :
    MutexRun t (.op (.statsAdd f x) k) cs q ↔ ∃ v, MutexRun t (k v) cs q :=
  free_iff rfl fun _ => trivial

@[simp] theorem rdtscMacro_iff :
    MutexRun t (.op .rdtscMacro k) cs q ↔ ∃ v, MutexRun t (k v) cs q :=
  free_iff rfl fun _ => trivial

@[simp] theorem setSpecEntry_iff {x : Int} :
    MutexRun t (.op (.setSpecEntry x) k) cs q ↔ ∃ v, MutexRun t (k v) cs q :=
  free_iff rfl fun _ => trivial

@[simp] theorem specEntry_iff : MutexRun t (.op .specEntry k) cs q ↔ MutexRun t (k 0) cs q := by
  unfold MutexRun
  rw [runsTo_go rfl]
  simp only [Aborted, exists_eq_left]

@[simp] theorem xbegin_iff : MutexRun t (.op .xbegin k) cs q ↔
    ∃ v, v ≠ xbeginStarted ∧ MutexRun t (k v) cs q := runsTo_go rfl

@[simp] theorem trylock_iff : MutexRun t (.op (.pthreadMutexTrylock l) k) cs q ↔
    (cs = [] ∧ q = .op (.pthreadMutexTrylock l) k) ∨
      ∃ m cs', cs = (m, (m.trylock t).2) :: cs' ∧ MutexRun t (k (m.trylock t).1) cs' q := by
  unfold MutexRun
  rw [runsTo_call (show mutexCall t (.pthreadMutexTrylock l) = some _ from rfl)]
  constructor
  · rintro (h | ⟨m, v, m', cs', rfl, hm, h⟩)
    · exact .inl h
    · have hm' : m.trylock t = (v, m') := Option.some.inj hm
      exact .inr ⟨m, cs', by rw [hm'], by rw [hm']; exact h⟩
  · rintro (h | ⟨m, cs', rfl, h⟩)
    · exact .inl h
    · exact .inr ⟨m, _, _, cs', rfl, rfl, h⟩

@[simp] theorem lock_iff : MutexRun t (.op (.pthreadMutexLock l) k) cs q ↔
    (cs = [] ∧ q = .op (.pthreadMutexLock l) k) ∨
      ∃ m v m' cs', cs = (m, m') :: cs' ∧ m.lock t = some (v, m') ∧ MutexRun t (k v) cs' q :=
  runsTo_call rfl

@[simp] theorem unlock_iff : MutexRun t (.op (.pthreadMutexUnlock l) k) cs q ↔
    (cs = [] ∧ q = .op (.pthreadMutexUnlock l) k) ∨
      ∃ m v m' cs', cs = (m, m') :: cs' ∧ m.unlock t = some (v, m') ∧ MutexRun t (k v) cs' q :=
  runsTo_call rfl

/-- A run in which every answer but those of the mutex is 0. -/
theorem of_serve {p : LockProg α} (ss : List (Mutex Tid)) {x : α}
    (h : p.serve (mutexCall t) ss = some (cs, x)) : MutexRun t p cs (.ret x) := by
  refine runsTo_of_serve (fun o _ => ?_) h
  cases o <;> simp [Aborted, xbeginStarted]

end MutexRun

/-! ## The calls of the functions -/

section

variable {t : Tid} {cfg : TxConfig} {l : Addr} {cs : List (Mutex Tid × Mutex Tid)}
  {q : LockProg Int} {m m' : Mutex Tid} {v : Int}

/-- `pthread_lock` makes one call. -/
theorem does_lock_iff : Does t (tlLock cfg .pthread l) m v m' ↔ m.lock t = some (v, m') := by
  simp [Does, tlLock, lockTypes, pthreadLock, tmStatsAdd, tmStatsSubRdtsc]

theorem does_trylock_iff : Does t (tlTrylock cfg .pthread l) m v m' ↔ m.trylock t = (v, m') := by
  have hpair : m' = (m.trylock t).2 ∧ v = (m.trylock t).1 ↔ m.trylock t = (v, m') := by
    rw [Prod.ext_iff]
    exact ⟨fun h => ⟨h.2.symm, h.1.symm⟩, fun h => ⟨h.2.symm, h.1.symm⟩⟩
  simp [Does, tlTrylock, lockTypes, pthreadTrylock, tmStatsAdd, tmStatsSubRdtsc]
  split <;> simpa using hpair

theorem does_unlock_iff : Does t (tlUnlock cfg .pthread l) m v m' ↔ m.unlock t = some (v, m') := by
  simp [Does, tlUnlock, lockTypes, pthreadUnlock, tmStatsAddRdtsc, tmStatsAdd]

/-- A begin that fails makes no call. -/
theorem MutexRun.of_enterHtm {α : Type} {f : Int → LockProg α} {q : LockProg α}
    (h : MutexRun t ((enterHtm l).bind f) cs q) : MutexRun t (f 1) cs q := by
  simp only [enterHtm, tmStatsAdd, tmStatsSubRdtsc, tmStatsAddRdtsc, bind_eq, emit_bind,
    perform_bind, op_bind, pure_eq, setSpecEntry_iff, statsAdd_iff, rdtscMacro_iff, xbegin_iff,
    exists_const] at h
  obtain ⟨v, hv, h⟩ := h
  simp only [hv, if_false, op_bind, rdtscMacro_iff, statsAdd_iff, exists_const, abortStats,
    tmStatsAdd] at h
  -- whichever counter the abort is entered in
  repeat' split at h
  all_goals simpa using h

/-- One round of the loop of `pthread_lock_tm`. -/
def lockTmRound (cfg : TxConfig) (l : Addr) (tries : Word) : LockProg (Word ⊕ Bool) := do
  let busy ← perform (.pthreadMutexTrylock l)
  if busy = 0 then return .inr false
  else
    let e ← enterHtm l
    if e = 0 then return .inr true
    else if tries + 1 ≥ cfg.numTries then
      let _ ← perform (.pthreadMutexLock l)
      return .inr false
    else return .inl (tries + 1)

/-- Where `pthread_lock_tm` can be after a row of trylocks that have all failed, and where it
    returns. -/
inductive LockTmRun (t : Tid) (l : Addr) : List (Mutex Tid × Mutex Tid) → LockProg Int → Prop where
  | atTrylock (k : Int → LockProg Int) : LockTmRun t l [] (.op (.pthreadMutexTrylock l) k)
  | atLock (k : Int → LockProg Int) : LockTmRun t l [] (.op (.pthreadMutexLock l) k)
  | acquired {m m' : Mutex Tid} (h : m.trylock t = (0, m')) : LockTmRun t l [(m, m')] (.ret 0)
  | locked {m m' : Mutex Tid} {v : Int} (h : m.lock t = some (v, m')) :
    LockTmRun t l [(m, m')] (.ret 0)
  | failed {m m' : Mutex Tid} {v : Int} {cs : List (Mutex Tid × Mutex Tid)} {q : LockProg Int}
      (h : m.trylock t = (v, m')) (hv : v ≠ 0) (hq : LockTmRun t l cs q) :
    LockTmRun t l ((m, m') :: cs) q

/-- The loop of `pthread_lock_tm`, and what comes after it. -/
theorem lockTmRun_loop {f : Bool → LockProg Int}
    (hf : ∀ cs q, MutexRun t (f false) cs q → cs = [] ∧ q = .ret 0) {fuel : Nat} {tries : Word}
    (hfuel : cfg.numTries.toNat < fuel + tries.toNat) (htries : tries = 0 ∨ tries < cfg.numTries)
    (h : MutexRun t ((loop (lockTmRound cfg l) fuel tries).bind f) cs q) : LockTmRun t l cs q := by
  induction fuel generalizing tries cs with
  | zero =>
    exfalso
    rcases htries with rfl | hlt
    · simp at hfuel
    · rw [BitVec.lt_def] at hlt
      omega
  | succ fuel ih =>
    simp only [loop, lockTmRound, bind_eq, perform_bind, op_bind, pure_eq, ite_bind, ret_bind,
      MutexRun.trylock_iff] at h
    rcases h with ⟨rfl, rfl⟩ | ⟨m, cs, rfl, h⟩
    · exact .atTrylock _
    split at h
    · rename_i hzero
      obtain ⟨rfl, rfl⟩ := hf _ _ h
      exact .acquired (Prod.ext hzero rfl)
    rename_i hbusy
    -- the begin fails
    refine .failed rfl hbusy ?_
    rw [bind_assoc, bind_assoc] at h
    have hround := MutexRun.of_enterHtm h
    simp only [Int.reduceEq, if_false, ite_bind, op_bind, ret_bind] at hround
    split at hround
    · simp only [MutexRun.lock_iff] at hround
      rcases hround with ⟨rfl, rfl⟩ | ⟨m', v, m'', cs, rfl, hlock, hround⟩
      · exact .atLock _
      · obtain ⟨rfl, rfl⟩ := hf _ _ hround
        exact .locked hlock
    · rename_i hmore
      rw [ge_iff_le, BitVec.not_le] at hmore
      have hnext : (tries + 1).toNat = tries.toNat + 1 := by
        have hlt : tries.toNat + 1 < 2 ^ 32 := by
          rw [BitVec.lt_def] at hmore
          rcases htries with rfl | hlt
          · simp
          · rw [BitVec.lt_def] at hlt
            have := cfg.numTries.isLt
            omega
        rw [BitVec.toNat_add, show (1 : Word).toNat = 1 from rfl, Nat.mod_eq_of_lt hlt]
      exact ih (by omega) (.inr hmore) hround

/-- The calls `pthread_lock_tm` makes outside transactions. -/
theorem lockTm_calls (hfuel : cfg.numTries.toNat < cfg.fuel)
    (h : MutexRun t (tlLock cfg .pthreadTm l) cs q) : LockTmRun t l cs q := by
  simp only [tlLock, lockTypes, pthreadLockTm, tmStatsAdd, tmStatsSubRdtsc, bind_eq, emit_bind,
    perform_bind, op_bind, pure_eq, MutexRun.specEntry_iff, ne_eq, not_true_eq_false, if_false,
    MutexRun.statsAdd_iff, exists_const] at h
  refine lockTmRun_loop (fun cs q hq => ?_) (by simpa using hfuel) (.inl rfl) h
  simpa using hq

theorem not_does_lock_iff :
    (∀ v m', ¬ Does t (tlLock cfg .pthread l) m v m') ↔ m.lock t = none := by
  simp only [does_lock_iff]
  cases m.lock t with
  | none => simp
  | some r => exact iff_of_false (fun h => h r.1 r.2 rfl) (by simp)

/-- One call: the function agrees if it does the same in that state. -/
theorem agrees_singleton {p : LockProg Int} :
    Agrees t p [(m, m')] (.ret v) ↔ Does t p m v m' := by
  constructor
  · intro h
    obtain ⟨cs₀, n, n', hcs, hdoes, -⟩ := h
    cases cs₀ with
    | nil =>
      simp only [List.nil_append, List.cons.injEq, Prod.mk.injEq, and_true] at hcs
      obtain ⟨rfl, rfl⟩ := hcs
      exact hdoes
    | cons c cs₀ => simp at hcs
  · intro h
    exact ⟨[], m, m', rfl, h, by simp⟩

/-- Before more calls the function must not return. -/
theorem agrees_cons {p : LockProg Int} {c c' : Mutex Tid × Mutex Tid} :
    Agrees t p (c :: c' :: cs) q ↔ (∀ v m', ¬ Does t p c.1 v m') ∧ Agrees t p (c' :: cs) q := by
  cases q with
  | op o k => simp only [Agrees, List.forall_mem_cons]
  | halt => simp only [Agrees, and_false]
  | ret v =>
    constructor
    · intro h
      obtain ⟨cs₀, n, n', hcs, hdoes, hwait⟩ := h
      cases cs₀ with
      | nil => simp at hcs
      | cons d cs₀ =>
        rw [List.cons_append, List.cons.injEq] at hcs
        obtain ⟨rfl, hcs⟩ := hcs
        rw [List.forall_mem_cons] at hwait
        exact ⟨hwait.1, cs₀, n, n', hcs, hdoes, hwait.2⟩
    · intro h
      obtain ⟨hc, cs₀, n, n', hcs, hdoes, hwait⟩ := h
      refine ⟨c :: cs₀, n, n', by rw [hcs, List.cons_append], hdoes, ?_⟩
      rw [List.forall_mem_cons]
      exact ⟨hc, hwait⟩

/-- `pthread_lock` waits in the states of trylocks that fail. -/
theorem LockTmRun.agrees_iff (h : LockTmRun t l cs q) :
    Agrees t (tlLock cfg .pthread l) cs q ↔ ∀ c ∈ cs, ¬ Refuses c.1 t := by
  induction h with
  | atTrylock | atLock => simp [Agrees]
  | acquired hm =>
    have hl := lock_of_trylock hm
    rw [agrees_singleton, does_lock_iff, List.forall_mem_singleton, refuses_iff_of_lock hl]
    simpa using hl
  | @locked m m' v hl =>
    rw [agrees_singleton, does_lock_iff, List.forall_mem_singleton, refuses_iff_of_lock hl, hl]
    simp
  | @failed m m' v cs q hm hv hq ih =>
    have hblocked := blocked_iff_of_trylock (m := m) (t := t) (by rw [hm]; exact hv)
    rw [List.forall_mem_cons, ← ih, ← hblocked,
      ← @not_does_lock_iff Tid _ t cfg l m]
    cases hq with
    | atTrylock | atLock => simp [Agrees]
    | acquired | locked | failed => exact agrees_cons

/-- `pthread_tm` does what `pthread` does, except that its lock and its unlock hide every
    error. -/
theorem pthreadTm_faithful (hfuel : cfg.numTries.toNat < cfg.fuel) : PthreadTmLaw cfg t l where
  lock cs q h := (lockTm_calls hfuel h).agrees_iff
  trylock cs q h := by
    simp only [tlTrylock, lockTypes, pthreadTrylockTm, tmStatsAdd, tmStatsAddRdtsc, bind_eq,
      perform_bind, ne_eq, MutexRun.specEntry_iff, not_true_eq_false, if_false,
      MutexRun.trylock_iff] at h
    rcases h with ⟨rfl, rfl⟩ | ⟨m, cs, rfl, h⟩
    · -- the run has not got to the mutex yet
      simp [Agrees]
    -- the result of the mutex is passed on as it is
    have hend : cs = [] ∧ q = .ret (m.trylock t).1 := by
      split at h <;> simpa using h
    obtain ⟨rfl, rfl⟩ := hend
    rw [agrees_singleton, does_trylock_iff]
  unlock cs q h := by
    simp only [tlUnlock, lockTypes, pthreadUnlockTm, tmStatsAdd, tmStatsAddRdtsc, bind_eq,
      perform_bind, ne_eq, MutexRun.specEntry_iff, not_true_eq_false, if_false,
      MutexRun.unlock_iff] at h
    rcases h with ⟨rfl, rfl⟩ | ⟨m, v, m', cs, rfl, hm, h⟩
    · simp [Agrees]
    -- 0 is returned, whatever the mutex has answered
    obtain ⟨rfl, rfl⟩ : cs = [] ∧ q = .ret 0 := by simpa using h
    rw [agrees_singleton, does_unlock_iff, List.forall_mem_singleton, ← unlock_eq_zero_iff hm, hm]
    simp

end

/-- A normal mutex is busy at the two trylocks and free at the lock. -/
theorem pthreadTm_faithful_normal :
    ∃ cs : List (Mutex (Fin 2) × Mutex (Fin 2)), cs.length = 3 ∧
      MutexRun 0 (tlLock { fuel := 9 } .pthreadTm 1) cs (.ret 0) ∧
      Agrees 0 (tlLock { fuel := 9 } .pthread 1) cs (.ret 0) := by
  let busy : Mutex (Fin 2) := { owner := some 1, count := 1 }
  let cs : List (Mutex (Fin 2) × Mutex (Fin 2)) :=
    [(busy, busy), (busy, busy), ({}, Mutex.acquire {} 0)]
  have hrun : MutexRun 0 (tlLock { fuel := 9 } .pthreadTm 1) cs (.ret 0) :=
    MutexRun.of_serve [busy, busy, {}] (by decide)
  have hlaw := @pthreadTm_faithful (Fin 2) _ 0 { fuel := 9 } 1 (by decide)
  exact ⟨cs, rfl, hrun, (hlaw.lock cs _ hrun).mpr (by simp [cs, busy, Refuses])⟩

/-- Thread 0 locks an error-checking mutex it has already and gets 0, not `EDEADLK`. It
    unlocks one it does not have and gets 0, not `EPERM`. It locks a robust, recursive mutex
    whose owner has terminated: the call locks it twice and hides `EOWNERDEAD`. -/
theorem pthreadTm_hides_errors :
    (∃ (m : Mutex (Fin 2)) (cs : _), m.kind = .errorcheck ∧ m.owner = some 0 ∧
      MutexRun 0 (tlLock { fuel := 9 } .pthreadTm 1) ((m, m) :: cs) (.ret 0) ∧
      Does 0 (tlLock { fuel := 9 } .pthread 1) m EDEADLK m) ∧
    (∃ m : Mutex (Fin 2), m.kind = .errorcheck ∧ m.owner = some 1 ∧
      Does 0 (tlUnlock { fuel := 9 } .pthreadTm 1) m 0 m ∧
      Does 0 (tlUnlock { fuel := 9 } .pthread 1) m EPERM m) ∧
    ∃ m m' m'' : Mutex (Fin 2), m.robust = true ∧ m.ownerDead = true ∧ m''.count = 2 ∧
      MutexRun 0 (tlLock { fuel := 9 } .pthreadTm 1) [(m, m'), (m', m'')] (.ret 0) ∧
      Does 0 (tlLock { fuel := 9 } .pthread 1) m EOWNERDEAD m' := by
  let own : Mutex (Fin 2) := { kind := .errorcheck, owner := some 0, count := 1 }
  let other : Mutex (Fin 2) := { kind := .errorcheck, owner := some 1, count := 1 }
  let dead : Mutex (Fin 2) :=
    { kind := .recursive, robust := true, owner := some 1, count := 1, ownerDead := true }
  let taken := dead.takeOver 0
  refine ⟨⟨own, [(own, own), (own, own)], rfl, rfl, ?_, ?_⟩, ⟨other, rfl, rfl, ?_, ?_⟩,
    ⟨dead, taken, { taken with count := 2 }, rfl, rfl, rfl, ?_, ?_⟩⟩
  · exact MutexRun.of_serve [own, own, own] (by decide)
  · exact MutexRun.of_serve [own] (by decide)
  · exact MutexRun.of_serve [other] (by decide)
  · exact MutexRun.of_serve [other] (by decide)
  · exact MutexRun.of_serve [dead, taken] (by decide)
  · exact MutexRun.of_serve [dead] (by decide)

end TxLock.Spec
