import TxLock.Spec.WaitRecord

/-!
# The early return of a wait is undone

A wait that returns in the transaction it opened has released its mutex and was not
woken. That does no harm as long as the transaction aborts. It is committed exactly
where an `HTM_END` at depth one ends a transaction in which a wait has returned so, and
only `tas_unlock_hle` executes that instruction.

## Key results

- `Change.of_step`: what one step can do
- `HtmInv`: outside transactions no call has returned early
- `wait_undone`: the committed calls are right if and only if no step commits an early return;
  the locks other than `tas_hle` never do
-/

namespace TxLock.Spec

open TxLock.Native Prog

variable {cfg : TxConfig} {ty : LockType}

/-- No early return is in the committed history. -/
def WaitsOk (s : HtmState) : Prop := s.depth = 0 → ∀ r ∈ s.thread.done, WaitOk r

/-- The step is not an `HTM_END` at depth one after an early return in the transaction. -/
def NoEarlyCommit (s : HtmState) (a : HtmAct) : Prop :=
  match a, s.thread.code with
  | .run _, .lockFun _ _ _ _ (.op .xend _) => s.depth = 1 → ∀ r ∈ s.thread.done, ¬ Early r
  | _, _ => True

theorem noEarlyCommit_run_iff (s : HtmState) (v : Int) :
    NoEarlyCommit s (.run v) ↔ ∀ p ∈ s.thread.code.atOp, p.2 = .xend →
      s.depth = 1 → ∀ r ∈ s.thread.done, ¬ Early r := by
  unfold NoEarlyCommit
  cases s.thread.code with
  | app | call c ops p => simp [HtmCode.atOp]
  | lockFun c ops o k p =>
    cases p with
    | ret x | halt => simp [HtmCode.atOp]
    | op lo lk => cases lo <;> simp [HtmCode.atOp]

instance (s : HtmState) : DecidablePred (NoEarlyCommit s)
  | .run v => decidable_of_iff' _ (noEarlyCommit_run_iff s v)
  | .call _ | .htmBegin | .htmAbort _ => isTrue trivial

/-! ## What one step can do -/

/-- A step of the thread that neither begins nor ends a transaction. -/
inductive Next (cfg : TxConfig) (ty : LockType) (t : HtmThread) : HtmThread → Prop where
  | call (c : ThreadCall) (h : t.code = .app) : Next cfg ty t { t with code := .call c [] (c.prog cfg) }
  | returns {c ops x} (h : t.code = .call c ops (.ret x)) :
      Next cfg ty t { t with code := .app, done := t.done ++ [⟨c, ops, x⟩] }
  | enter {c ops o k p} (h : t.code = .call c ops (.op o k)) (hp : lockCode cfg ty o = some p) :
      Next cfg ty t { t with code := .lockFun c ops o k p }
  | answer {c ops o k} (v : Int) (h : t.code = .call c ops (.op o k))
      (hp : lockCode cfg ty o = none) :
      Next cfg ty t { t with code := .call c (ops ++ [(o, v)]) (k v) }
  | leave {c ops o k x} (h : t.code = .lockFun c ops o k (.ret x)) :
      Next cfg ty t { t with code := .call c (ops ++ [(o, x)]) (k x) }
  | lockOp {c ops o k lo lk} (v w : Int) (h : t.code = .lockFun c ops o k (.op lo lk))
      (hlo : ¬ (lo = .xbegin ∧ v = xbeginStarted)) :
      Next cfg ty t { t with code := .lockFun c ops o k (lk v), specEntry := w }

/-- A step of the system. -/
inductive Change (cfg : TxConfig) (ty : LockType) (s : HtmState) : HtmAct → HtmState → Prop where
  | code {a t'} (h : Next cfg ty s.thread t') : Change cfg ty s a { s with thread := t' }
  | begins {a c ops o k lk} (h : s.thread.code = .lockFun c ops o k (.op .xbegin lk)) :
      Change cfg ty s a { s with
        thread := { s.thread with code := .lockFun c ops o k (lk xbeginStarted) }
        depth := s.depth + 1
        saved := if s.depth = 0 then some s.thread else s.saved }
  | ends {c ops o k lk} (v : Int) (h : s.thread.code = .lockFun c ops o k (.op .xend lk))
      (hdepth : s.depth ≠ 0) :
      Change cfg ty s (.run v) { s with
        thread := { s.thread with code := .lockFun c ops o k (lk 0) }
        depth := s.depth - 1
        saved := if s.depth = 1 then none else s.saved }
  | aborts {a status} (h : status ≠ xbeginStarted) : Change cfg ty s a (s.rollback status)
  | gone {a} : Change cfg ty s a { s with gone := true }

theorem Change.of_lockStep {s s' : HtmState} {c : ThreadCall} {ops : List (CondOp × Int)}
    {o : CondOp} {k : Int → CondProg Int} {lo : LockOp} {lk : Int → LockProg Int} {v : Int}
    (h : s.thread.code = .lockFun c ops o k (.op lo lk))
    (hs : s.lockStep lo (fun v => .lockFun c ops o k (lk v)) v = some s') :
    Change cfg ty s (.run v) s' := by
  have hgo : ∀ w, lo ≠ .xbegin →
      Change cfg ty s (.run v) (s.goto (.lockFun c ops o k (lk w))) :=
    fun v hlo => .code (.lockOp v s.thread.specEntry h fun hb => hlo hb.1)
  cases lo with
  | xbegin => simp [HtmState.lockStep] at hs
  | xend =>
    simp only [HtmState.lockStep] at hs
    split at hs
    · -- without a transaction `_xend` faults
      obtain rfl := Option.some.inj hs
      exact .gone
    · rename_i hd
      obtain rfl := Option.some.inj hs
      have hends : Change cfg ty s (.run v) _ := .ends v h (by omega)
      simpa [hd, HtmState.goto] using hends
    · rename_i d hd
      obtain rfl := Option.some.inj hs
      have hends : Change cfg ty s (.run v) _ := .ends v h (by omega)
      simpa [hd, HtmState.goto] using hends
  | xtest | specEntry | statsAdd | rdtscMacro | rdtsc | load | store | testAndSet | release | cas
  | fetchAndAdd | pthreadMutexLock | pthreadMutexTrylock | pthreadMutexUnlock | mallocNodes =>
    obtain rfl := Option.some.inj hs
    exact hgo _ nofun
  | setSpecEntry w =>
    obtain rfl := Option.some.inj hs
    exact .code (.lockOp 0 w h nofun)
  | xabort code =>
    simp only [HtmState.lockStep] at hs
    split at hs
    · obtain rfl := Option.some.inj hs
      exact hgo _ nofun
    · obtain rfl := Option.some.inj hs
      exact .aborts (explicitStatus_ne code)
  | assertFail =>
    simp only [HtmState.lockStep] at hs
    split at hs
    · obtain rfl := Option.some.inj hs
      exact .gone
    · obtain rfl := Option.some.inj hs
      exact .aborts (by decide)

theorem Change.of_runStep {s s' : HtmState} {v : Int} (hs : s.runStep cfg ty v = some s') :
    Change cfg ty s (.run v) s' := by
  simp only [HtmState.runStep] at hs
  split at hs
  · cases hs
  · obtain rfl := Option.some.inj hs
    exact .code (.returns ‹_›)
  · rename_i hcode
    split at hs
    · obtain rfl := Option.some.inj hs
      exact .code (.enter hcode ‹_›)
    · obtain rfl := Option.some.inj hs
      exact .code (.answer v hcode ‹_›)
  · obtain rfl := Option.some.inj hs
    exact .code (.leave ‹_›)
  · exact .of_lockStep ‹_› hs
  · cases hs
  · cases hs

/-- The begin instruction with status `st`. -/
theorem resume_eq {t : HtmThread} {c : ThreadCall} {ops : List (CondOp × Int)} {o : CondOp}
    {k : Int → CondProg Int} {lk : Int → LockProg Int}
    (h : t.code = .lockFun c ops o k (.op .xbegin lk)) (status : Int) :
    t.resume status = { t with code := .lockFun c ops o k (lk status) } := by
  simp only [HtmThread.resume, h]

theorem Change.of_step {s s' : HtmState} {a : HtmAct}
    (hs : (htmThread cfg ty).step s a = some s') : Change cfg ty s a s' := by
  simp only [htmThread, HtmState.step] at hs
  split at hs
  · cases hs
  cases a with
  | call c =>
    simp only at hs
    split at hs
    · obtain rfl := Option.some.inj hs
      exact .code (.call c ‹_›)
    · cases hs
  | run v => exact .of_runStep hs
  | htmBegin =>
    simp only [HtmState.beginStep] at hs
    split at hs
    · rename_i hcode
      have hbegins : Change cfg ty s .htmBegin _ := .begins hcode
      rw [resume_eq hcode] at hs
      split at hs
      · rename_i hd
        obtain rfl := Option.some.inj hs
        simpa [hd] using hbegins
      · rename_i hd
        obtain rfl := Option.some.inj hs
        simpa [hd] using hbegins
    · cases hs
  | htmAbort status =>
    simp only [HtmState.abortStep] at hs
    split at hs
    · cases hs
    · rename_i hstatus
      split at hs
      · obtain rfl := Option.some.inj hs
        exact .aborts hstatus
      · split at hs
        · rename_i hcode
          obtain rfl := Option.some.inj hs
          rw [resume_eq hcode]
          -- no transaction is live: `_xbegin` itself answers with the status
          exact .code (.lockOp status s.thread.specEntry hcode fun hb => hstatus hb.2)
        · cases hs

/-! ## The invariant -/

/-- The code a thread is in is reached from the start of the call, and of the lock function. -/
def Follows (cfg : TxConfig) (ty : LockType) : HtmCode → Prop
  | .app => True
  | .call c ops p => (c.prog cfg).Leads ops p
  | .lockFun c ops o k p => (c.prog cfg).Leads ops (.op o k) ∧
      ∃ code tr, lockCode cfg ty o = some code ∧ code.Leads tr p

/-- The thread runs the code, and its history is made of runs of the code. -/
structure ThreadOk (cfg : TxConfig) (ty : LockType) (t : HtmThread) : Prop where
  code : Follows cfg ty t.code
  done : ∀ r ∈ t.done, (r.call.prog cfg).Returns r.ops r.value

/-- The call under way is not about to return early. -/
def CodeSettled : HtmCode → Prop
  | .app => True
  | .call _ ops _ => ¬ endsEarly ops = true
  | .lockFun _ _ o _ p => ∀ primitive, o = .enterHtm primitive → Started p

/-- No call has returned early, or is about to. -/
structure Settled (t : HtmThread) : Prop where
  code : CodeSettled t.code
  done : ∀ r ∈ t.done, ¬ Early r

/-- Outside transactions, and in what an abort restores, no call has returned early. -/
structure HtmInv (cfg : TxConfig) (ty : LockType) (s : HtmState) : Prop where
  thread : ThreadOk cfg ty s.thread
  settled : s.depth = 0 → Settled s.thread
  saved : ∀ t, s.saved = some t → ThreadOk cfg ty t ∧ Settled t ∧
    ∃ c ops o k lk, t.code = .lockFun c ops o k (.op .xbegin lk)

theorem Follows.lockOp {c : ThreadCall} {ops : List (CondOp × Int)} {o : CondOp}
    {k : Int → CondProg Int} {lo : LockOp} {lk : Int → LockProg Int}
    (h : Follows cfg ty (.lockFun c ops o k (.op lo lk))) (v : Int) :
    Follows cfg ty (.lockFun c ops o k (lk v)) := by
  obtain ⟨hcall, code, tr, hcode, hlead⟩ := h
  exact ⟨hcall, code, _, hcode, hlead.concat v⟩

theorem ThreadOk.next {t t' : HtmThread} (h : ThreadOk cfg ty t) (hn : Next cfg ty t t') :
    ThreadOk cfg ty t' := by
  have hcode := h.code
  cases hn with
  | call c => exact ⟨.nil _, h.done⟩
  | returns hc =>
    refine ⟨trivial, fun r hr => ?_⟩
    rw [hc] at hcode
    rcases List.mem_append.mp hr with hr | hr
    · exact h.done r hr
    · obtain rfl := List.mem_singleton.mp hr
      exact hcode
  | enter hc hp =>
    rw [hc] at hcode
    exact ⟨⟨hcode, _, [], hp, .nil _⟩, h.done⟩
  | answer v hc =>
    rw [hc] at hcode
    exact ⟨hcode.concat v, h.done⟩
  | leave hc =>
    rw [hc] at hcode
    exact ⟨hcode.1.concat _, h.done⟩
  | lockOp v w hc =>
    rw [hc] at hcode
    exact ⟨hcode.lockOp v, h.done⟩

theorem Settled.next {t t' : HtmThread} (h : Settled t) (hn : Next cfg ty t t') : Settled t' := by
  have hcode := h.code
  cases hn with
  | call c => exact ⟨by simp [CodeSettled, endsEarly], h.done⟩
  | returns hc =>
    refine ⟨trivial, fun r hr => ?_⟩
    rw [hc] at hcode
    rcases List.mem_append.mp hr with hr | hr
    · exact h.done r hr
    · obtain rfl := List.mem_singleton.mp hr
      exact hcode
  | enter hc hp =>
    refine ⟨?_, h.done⟩
    rintro primitive rfl
    obtain rfl := Option.some.inj hp
    exact enterHtm_started primitive
  | answer v hc hp =>
    refine ⟨fun hearly => ?_, h.done⟩
    obtain ⟨⟨p, rfl⟩, -⟩ := endsEarly_concat.mp hearly
    simp [lockCode] at hp
  | leave hc =>
    rw [hc] at hcode
    refine ⟨fun hearly => ?_, h.done⟩
    obtain ⟨⟨p, rfl⟩, hx⟩ := endsEarly_concat.mp hearly
    exact hcode p rfl hx
  | lockOp v w hc hlo =>
    rw [hc] at hcode
    exact ⟨fun p hp => hcode p hp v hlo, h.done⟩

/-- `enter_htm` does not end transactions. -/
theorem Follows.not_enterHtm {c : ThreadCall} {ops : List (CondOp × Int)} {o : CondOp}
    {k : Int → CondProg Int} {lk : Int → LockProg Int}
    (h : Follows cfg ty (.lockFun c ops o k (.op .xend lk))) (primitive : Addr) :
    o ≠ .enterHtm primitive := by
  rintro rfl
  obtain ⟨-, code, tr, hcode, hlead⟩ := h
  obtain rfl := Option.some.inj hcode
  have havoids := (enterHtm_avoids primitive).of_leads hlead
  exact havoids.1 rfl

/-- What `HTM_END` at depth one commits. -/
theorem NoEarlyCommit.at_xend {s : HtmState} {v : Int} {c : ThreadCall} {ops : List (CondOp × Int)}
    {o : CondOp} {k : Int → CondProg Int} {lk : Int → LockProg Int}
    (hcode : s.thread.code = .lockFun c ops o k (.op .xend lk)) :
    NoEarlyCommit s (.run v) ↔ (s.depth = 1 → ∀ r ∈ s.thread.done, ¬ Early r) := by
  simp only [NoEarlyCommit, hcode]

theorem htmInv_init {s : HtmState} (h : (htmThread cfg ty).init s) : HtmInv cfg ty s := by
  obtain rfl : s = {} := h
  exact ⟨⟨trivial, by simp⟩, fun _ => ⟨trivial, by simp⟩, by simp⟩

theorem HtmInv.step {s s' : HtmState} {a : HtmAct} (h : HtmInv cfg ty s) (hc : NoEarlyCommit s a)
    (hs : (htmThread cfg ty).step s a = some s') : HtmInv cfg ty s' := by
  have hthread := h.thread
  cases Change.of_step hs with
  | code hn => exact ⟨hthread.next hn, fun hd => (h.settled hd).next hn, h.saved⟩
  | gone => exact ⟨h.thread, h.settled, h.saved⟩
  | begins hcode =>
    have hfollows := hthread.code
    rw [hcode] at hfollows
    refine ⟨⟨hfollows.lockOp _, h.thread.done⟩, fun hd => absurd hd (Nat.succ_ne_zero _), ?_⟩
    intro t ht
    by_cases hd : s.depth = 0
    · rw [if_pos hd, Option.some.injEq] at ht
      subst ht
      exact ⟨h.thread, h.settled hd, _, _, _, _, _, hcode⟩
    · rw [if_neg hd] at ht
      exact h.saved t ht
  | ends v hcode hdepth =>
    have hfollows := hthread.code
    rw [hcode] at hfollows
    refine ⟨⟨hfollows.lockOp _, h.thread.done⟩, fun hd => ?_, ?_⟩
    · -- the transaction is committed, with what it has done
      have hd : s.depth = 1 := by
        have hd : s.depth - 1 = 0 := hd
        omega
      exact ⟨fun p hp => absurd hp (hfollows.not_enterHtm p),
        (NoEarlyCommit.at_xend hcode).mp hc hd⟩
    · intro t ht
      by_cases hd : s.depth = 1
      · rw [if_pos hd] at ht
        exact nomatch ht
      · rw [if_neg hd] at ht
        exact h.saved t ht
  | aborts hstatus =>
    unfold HtmState.rollback
    split
    · rename_i t ht
      obtain ⟨hok, hsettled, c, ops, o, k, lk, hcode⟩ := h.saved t ht
      have hnext : Next cfg ty t _ :=
        .lockOp _ t.specEntry hcode fun hb => hstatus hb.2
      rw [resume_eq hcode]
      exact ⟨hok.next hnext, fun _ => hsettled.next hnext, by simp⟩
    · exact h

/-! ## Main results -/

theorem HtmInv.waitsOk {s : HtmState} (h : HtmInv cfg ty s) : WaitsOk s := by
  intro hd r hr
  exact (waitOk_iff (h.thread.done r hr)).mpr ((h.settled hd).done r hr)

/-- A step that commits an early return is seen in the state after it. -/
theorem HtmInv.noEarlyCommit {s s' : HtmState} {a : HtmAct} (h : HtmInv cfg ty s)
    (hs : (htmThread cfg ty).step s a = some s') (hok : WaitsOk s') : NoEarlyCommit s a := by
  unfold NoEarlyCommit
  split
  · rename_i v c ops o k lk hcode
    intro hd r hr hearly
    -- the step commits, and leaves the history as it is
    simp only [htmThread, HtmState.step, HtmState.runStep, hcode, HtmState.lockStep, hd] at hs
    split at hs
    · cases hs
    · obtain rfl := Option.some.inj hs
      exact (waitOk_iff (h.thread.done r hr)).mp (hok rfl r hr) hearly
  · trivial

/-- Locks other than `tas_hle` never end a transaction. -/
theorem HtmInv.noEarlyCommit_of_ne (hty : ty ≠ .tasHle) {s : HtmState} (h : HtmInv cfg ty s)
    (a : HtmAct) : NoEarlyCommit s a := by
  unfold NoEarlyCommit
  split
  · rename_i v c ops o k lk hcode
    have hfollows := h.thread.code
    rw [hcode] at hfollows
    obtain ⟨-, code, tr, hlock, hlead⟩ := hfollows
    exact absurd rfl ((lockCode_avoids_xend hty hlock).of_leads hlead).1
  · trivial

/-- A schedule, with the number of times each action is taken. -/
def repeated (as : List (HtmAct × Nat)) : List HtmAct :=
  as.flatMap fun p => List.replicate p.2 p.1

/-- With `tas_tm`, a wait on the mutex 32 that returns in its transaction, an unlock there,
    the abort, and the same wait when it is woken. -/
def abortedWait : List HtmAct :=
  repeated [(.call (.lock 32), 1), (.run 0, 9), (.call (.cond (.wait 16 32)), 1), (.run 0, 22),
    (.htmBegin, 1), (.run 0, 2), (.call (.unlock 32), 1), (.run 0, 4), (.htmAbort 0, 1),
    (.run 0, 7), (.run 1, 1), (.run 0, 14)]

/-- With `tas_hle`, the mutex 32 is taken after two aborts, a wait on it returns in its
    transaction, and the `tl_unlock` that follows commits. -/
def committedWait : List HtmAct :=
  repeated [(.call (.lock 32), 1), (.run 0, 5), (.htmAbort 0, 1), (.run 0, 7), (.htmAbort 0, 1),
    (.run 0, 9), (.call (.cond (.wait 16 32)), 1), (.run 0, 22), (.htmBegin, 1), (.run 0, 2),
    (.call (.unlock 32), 1), (.run 0, 3)]

/-- In every run of a thread, whatever it calls, all that is committed is right if and only
    if no step commits an early return: each wait that has returned has released its mutex
    once, counted itself once and taken the mutex back, or has passed on an error. With any
    lock but `tas_hle` no step of any run commits an early return. -/
theorem wait_undone {tr : List (HtmState × HtmAct)} {s : HtmState}
    (h : (htmThread cfg ty).Run System.Free tr s) :
    ((∀ p ∈ tr, NoEarlyCommit p.1 p.2) ↔ WaitsOk s ∧ ∀ p ∈ tr, WaitsOk p.1) ∧
      (ty ≠ .tasHle → ∀ p ∈ tr, NoEarlyCommit p.1 p.2) := by
  constructor
  · exact h.condition_iff (fun _ => htmInv_init) (fun _ _ _ => HtmInv.step)
      (fun _ => HtmInv.waitsOk) fun _ _ _ => HtmInv.noEarlyCommit
  · intro hty p hp
    obtain ⟨tr₁, tr₂, rfl⟩ := List.append_of_mem hp
    obtain ⟨hrun, -⟩ := h.append_inv
    have hinv : HtmInv cfg ty p.1 := hrun.invariant (fun _ => htmInv_init)
      fun s a _ hi _ hs => hi.step (hi.noEarlyCommit_of_ne hty a) hs
    exact hinv.noEarlyCommit_of_ne hty p.2

/-- A run in which the early return is undone and the wait comes back with its mutex. -/
theorem wait_undone_after_abort :
    ∃ tr s, (htmThread {fuel := 2} .tasTm).Run System.Free tr s ∧
      s.thread.done.map (·.call) = [.lock 32, .cond (.wait 16 32)] ∧ WaitsOk s := by
  have hdone : ((htmThread {fuel := 2} .tasTm).exec {} abortedWait).map
      (fun s => s.thread.done.map (·.call)) = some [.lock 32, .cond (.wait 16 32)] := by
    decide
  obtain ⟨s, hs, hcalls⟩ := Option.map_eq_some_iff.mp hdone
  have hrun := (System.Run.init (M := htmThread {fuel := 2} .tasTm) rfl).exec hs
  have hundone := wait_undone hrun
  exact ⟨_, s, hrun, hcalls, (hundone.1.mp (hundone.2 (by decide))).1⟩

/-- With `tas_hle` an early return is committed: the wait has returned 0, and the mutex was
    released and not taken back. -/
theorem wait_early_return_committed :
    ∃ s, (htmThread {fuel := 2} .tasHle).Reachable System.Free s ∧ s.depth = 0 ∧
      ∃ r ∈ s.thread.done, r.call = .cond (.wait 16 32) ∧ r.value = 0 ∧ ¬ WaitOk r := by
  obtain ⟨s, hs, hp⟩ := System.reachable_of_exec (M := htmThread {fuel := 2} .tasHle)
    (s := {}) committedWait
    (p := fun s => decide (s.depth = 0 ∧ ∃ r ∈ s.thread.done,
      r.call = .cond (.wait 16 32) ∧ r.value = 0 ∧ CondOp.tlLock 32 ∉ footprint r.ops)) rfl
    (by decide)
  obtain ⟨hdepth, r, hr, hcall, hvalue, hnot⟩ := of_decide_eq_true hp
  refine ⟨s, hs, hdepth, r, hr, hcall, hvalue, fun hok => ?_⟩
  simp only [WaitOk, hcall] at hok
  rcases hok with hw | hf
  · exact hnot (by simp [hw.footprint])
  · exact hf.error.2 hvalue

end TxLock.Spec
