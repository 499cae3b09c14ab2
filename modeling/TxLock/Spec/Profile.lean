import TxLock.Native.Profile
import TxLock.Spec.SpecEntry

/-!
# What the lock functions count

How a law about the counters of a thread is carried through its runs: `Accounts` are the
counters with their record, the depth of the transaction and the flag `spec_entry`. A law that
every lock function keeps, when it starts with the flag right, holds outside the lock functions
in every run, whatever transactions begin, abort and end.

## Key results

- `Profiled.of_step`: what one step can do
- `ProfileInv.run`: a law kept by the lock functions holds in every run
- `enterHtm_keeps`: what `enter_htm` does to the accounts
-/

namespace TxLock.Spec

open TxLock.Native Prog

/-- The counters of a thread, with what decides how its code counts. -/
structure Accounts where
  depth : Nat
  specEntry : Int
  profile : Profile

def accounts (s : ProfiledState) : Accounts :=
  ⟨s.htm.depth, s.htm.thread.specEntry, s.profile⟩

@[simp] theorem add_total (r : Profile) (f g : StatField) (v : Int) :
    (r.add f v).total g = r.total g + if g = f then v else 0 := by
  by_cases hg : g = f
  · subst hg
    simp [Profile.total, Profile.add]
  · simp [Profile.total, Profile.add, hg]

@[simp] theorem readClock_total (r : Profile) (v : Int) : (r.readClock v).total = r.total := rfl

@[simp] theorem begins_total (r : Profile) (now : Int) : (r.begins now).total = r.total := rfl

@[simp] theorem aborts_total (r : Profile) (status now : Int) :
    (r.aborts status now).total = r.total := rfl

@[simp] theorem ends_total (r : Profile) (now : Int) : (r.ends now).total = r.total := by
  unfold Profile.ends
  split <;> rfl

/-- A counter holds what has been added to it, while that is in range. -/
theorem count_eq {r : Profile} {f : StatField} (hlow : -2 ^ (f.width - 1) ≤ r.total f)
    (hhigh : r.total f < 2 ^ (f.width - 1)) : r.count f = r.total f := by
  refine (r.stats f).toInt_eq ?_ hlow hhigh
  cases f <;> decide

/-- The operation `lo` of a lock function, answered by `v`, when no transaction aborts. -/
def Charges (profileRdtsc : Bool) (lo : LockOp) (v : Int) (n n' : Accounts) : Prop :=
  match lo with
  | .xbegin =>
    (v = xbeginStarted ∧ ∃ now, n' = ⟨n.depth + 1, n.specEntry, n.profile.begins now⟩) ∨
      (v ≠ xbeginStarted ∧ n.depth = 0 ∧ ∃ now, n' = { n with profile := n.profile.aborts v now })
  | .xend => ∃ d now, n.depth = d + 1 ∧ n' = ⟨d, n.specEntry, n.profile.ends now⟩
  | .xabort _ => n.depth = 0 ∧ n' = n
  | .assertFail => False
  | .setSpecEntry w => n' = { n with specEntry := w }
  | .specEntry => v = n.specEntry ∧ n' = n
  | .xtest => v = (if n.depth = 0 then 0 else 1) ∧ n' = n
  | .rdtscMacro => (profileRdtsc = false → v = 0) ∧ n' = { n with profile := n.profile.readClock v }
  | lo => n' = { n with profile := n.profile.perform lo v }

/-- The thread itself, or the hardware, answers the operation. -/
def LockOp.Own : LockOp → Prop
  | .xbegin | .xend | .xtest | .xabort _ | .specEntry | .setSpecEntry _ => True
  | _ => False

/-- The thread is in the code of a lock function. -/
def InLock : HtmCode → Prop
  | .app | .call .. => False
  | .lockFun .. => True

instance : DecidablePred InLock := fun code => by
  unfold InLock
  split <;> infer_instance

/-! ## What one step can do -/

/-- A step of the system. -/
inductive Profiled (cfg : TxConfig) (ty : LockType) (profileRdtsc : Bool) (s : ProfiledState) :
    ProfiledAct → ProfiledState → Prop where
  | tick (n : Nat) : Profiled cfg ty profileRdtsc s (.tick n) { s with clock := s.clock + n }
  | outside {a code done} (h : ¬ InLock s.htm.thread.code) (h' : ¬ InLock code) :
      Profiled cfg ty profileRdtsc s (.act a)
        ⟨{ s.htm with thread := { s.htm.thread with code := code, done := done } }, s.clock,
          s.profile, s.keep⟩
  | enter {c ops o k p v} (h : s.htm.thread.code = .call c ops (.op o k))
      (hp : lockCode cfg ty o = some p) :
      Profiled cfg ty profileRdtsc s (.act (.run v)) ⟨s.htm.goto (.lockFun c ops o k p), s.clock,
        s.profile.calls (s.htm.depth ≠ 0), s.keep⟩
  | leave {c ops o k x v} (h : s.htm.thread.code = .lockFun c ops o k (.ret x)) :
      Profiled cfg ty profileRdtsc s (.act (.run v))
        ⟨s.htm.goto (.call c (ops ++ [(o, x)]) (k x)), s.clock,
          s.profile.returns o x (s.htm.depth ≠ 0) s.clock, s.keep⟩
  | lockOp {a c ops o k lo lk v} {n : Accounts} {saved : Option HtmThread}
      (h : s.htm.thread.code = .lockFun c ops o k (.op lo lk))
      (ha : a = .run v ∨ LockOp.Own lo) (hn : Charges profileRdtsc lo v (accounts s) n)
      (hsaved : n.depth ≠ 0 → if s.htm.depth = 0 then saved = some s.htm.thread ∧ lo = .xbegin
        else saved = s.htm.saved) :
      Profiled cfg ty profileRdtsc s (.act a)
        ⟨{ s.htm with
          thread := { s.htm.thread with code := .lockFun c ops o k (lk v), specEntry := n.specEntry }
          depth := n.depth
          saved := saved }, s.clock, n.profile, s.keep⟩
  | aborts {a status now} (hd : s.htm.depth ≠ 0) (h : status ≠ xbeginStarted) :
      Profiled cfg ty profileRdtsc s (.act a)
        ⟨s.htm.rollback status, s.clock, s.saved.aborts status now, s.keep⟩
  | gone {a} :
      Profiled cfg ty profileRdtsc s (.act a)
        ⟨{ s.htm with gone := true }, s.clock, s.profile, s.keep⟩

variable {cfg : TxConfig} {ty : LockType} {profileRdtsc : Bool}

theorem keep_of_ne {s : ProfiledState} (hd : s.htm.depth ≠ 0) : s.keep = s.saved := if_neg hd

theorem Profiled.of_lockStep {s : ProfiledState} {h' : HtmState} {v : Int} {c : ThreadCall}
    {ops : List (CondOp × Int)} {o : CondOp} {k : Int → CondProg Int} {lo : LockOp}
    {lk : Int → LockProg Int} (h : s.htm.thread.code = .lockFun c ops o k (.op lo lk))
    (hclock : s.ClockAnswers profileRdtsc (.run v))
    (hs : s.htm.lockStep lo (fun v => .lockFun c ops o k (lk v)) v = some h') :
    Profiled cfg ty profileRdtsc s (.act (.run v))
      ⟨h', s.clock, s.observeOp profileRdtsc lo v, s.keep⟩ := by
  have hin : s.htm.depth ≠ 0 → if s.htm.depth = 0 then
      s.htm.saved = some s.htm.thread ∧ lo = .xbegin else s.htm.saved = s.htm.saved :=
    fun hd => by rw [if_neg hd]
  -- an operation after which the transaction is as it was
  have hgo : ∀ x w r, (x = v ∨ LockOp.Own lo) →
      Charges profileRdtsc lo x (accounts s) ⟨s.htm.depth, w, r⟩ →
      Profiled cfg ty profileRdtsc s (.act (.run v)) ⟨{ s.htm with
        thread := { s.htm.thread with
          code := .lockFun c ops o k (lk x)
          specEntry := w } }, s.clock, r, s.keep⟩ := by
    intro x w r hx hn
    refine .lockOp h (hx.imp_left fun hx => hx ▸ rfl) hn hin
  cases lo with
  | xbegin => simp [HtmState.lockStep] at hs
  | specEntry =>
    obtain rfl := Option.some.inj hs
    exact hgo _ _ _ (.inr trivial) ⟨rfl, rfl⟩
  | xtest =>
    obtain rfl := Option.some.inj hs
    exact hgo _ _ _ (.inr trivial) ⟨rfl, rfl⟩
  | rdtscMacro =>
    obtain rfl := Option.some.inj hs
    have hv : v = s.rdtscMacro profileRdtsc := by
      simpa only [ProfiledState.ClockAnswers, h] using hclock
    refine hgo _ _ _ (.inl rfl) ⟨fun hoff => ?_, rfl⟩
    rw [hv, hoff]
    rfl
  | statsAdd | rdtsc | load | store | testAndSet | release | cas | fetchAndAdd
  | pthreadMutexLock | pthreadMutexTrylock | pthreadMutexUnlock | mallocNodes =>
    obtain rfl := Option.some.inj hs
    exact hgo _ _ _ (.inl rfl) rfl
  | setSpecEntry w =>
    obtain rfl := Option.some.inj hs
    exact hgo _ _ _ (.inr trivial) rfl
  | xabort code =>
    simp only [HtmState.lockStep] at hs
    split at hs <;> rename_i hd <;> obtain rfl := Option.some.inj hs
    · have hobs : s.observeOp profileRdtsc (.xabort code) v = s.profile := by
        simp only [ProfiledState.observeOp, hd]
        rfl
      rw [hobs]
      exact hgo _ _ _ (.inr trivial) ⟨hd, rfl⟩
    · obtain ⟨d, hd'⟩ := Nat.exists_eq_succ_of_ne_zero hd
      have hobs : s.observeOp profileRdtsc (.xabort code) v =
          s.saved.aborts (explicitStatus code) (s.rdtscMacro profileRdtsc) := by
        rw [← keep_of_ne hd]
        simp only [ProfiledState.observeOp, hd']
      rw [hobs]
      exact .aborts hd (explicitStatus_ne code)
  | assertFail =>
    simp only [HtmState.lockStep] at hs
    split at hs <;> rename_i hd <;> obtain rfl := Option.some.inj hs
    · have hobs : s.observeOp profileRdtsc .assertFail v = s.profile := by
        simp only [ProfiledState.observeOp, hd]
        rfl
      rw [hobs]
      exact .gone
    · obtain ⟨d, hd'⟩ := Nat.exists_eq_succ_of_ne_zero hd
      have hobs : s.observeOp profileRdtsc .assertFail v =
          s.saved.aborts 0 (s.rdtscMacro profileRdtsc) := by
        rw [← keep_of_ne hd]
        simp only [ProfiledState.observeOp, hd']
      rw [hobs]
      exact .aborts hd (by decide)
  | xend =>
    simp only [HtmState.lockStep] at hs
    split at hs <;> rename_i hd <;> obtain rfl := Option.some.inj hs
    · have hobs : s.observeOp profileRdtsc .xend v = s.profile := by
        simp only [ProfiledState.observeOp, hd]
        rfl
      rw [hobs]
      exact .gone
    · have hobs : s.observeOp profileRdtsc .xend v =
          s.profile.ends (s.rdtscMacro profileRdtsc) := by
        simp only [ProfiledState.observeOp, hd]
      rw [hobs]
      have hn : Charges profileRdtsc .xend 0 (accounts s)
          ⟨0, s.htm.thread.specEntry, s.profile.ends (s.rdtscMacro profileRdtsc)⟩ :=
        ⟨0, _, hd, rfl⟩
      exact .lockOp h (.inr trivial) hn fun hne => absurd rfl hne
    · rename_i d
      have hobs : s.observeOp profileRdtsc .xend v =
          s.profile.ends (s.rdtscMacro profileRdtsc) := by
        simp only [ProfiledState.observeOp, hd]
      rw [hobs]
      have hn : Charges profileRdtsc .xend 0 (accounts s)
          ⟨d + 1, s.htm.thread.specEntry, s.profile.ends (s.rdtscMacro profileRdtsc)⟩ :=
        ⟨d + 1, _, hd, rfl⟩
      refine .lockOp h (.inr trivial) hn fun _ => ?_
      rw [if_neg (by omega)]
      rfl

theorem Profiled.of_runStep {s : ProfiledState} {h' : HtmState} {v : Int}
    (hclock : s.ClockAnswers profileRdtsc (.run v)) (hs : s.htm.runStep cfg ty v = some h') :
    Profiled cfg ty profileRdtsc s (.act (.run v))
      ⟨h', s.clock, s.observe cfg ty profileRdtsc (.run v), s.keep⟩ := by
  simp only [HtmState.runStep] at hs
  split at hs
  · cases hs
  · rename_i c ops x hcode
    obtain rfl := Option.some.inj hs
    have hobs : s.observe cfg ty profileRdtsc (.run v) = s.profile := by
      simp only [ProfiledState.observe, hcode]
    rw [hobs]
    exact .outside (by simp [hcode, InLock]) id
  · rename_i c ops o k hcode
    split at hs
    · rename_i p hp
      obtain rfl := Option.some.inj hs
      have hobs : s.observe cfg ty profileRdtsc (.run v) =
          s.profile.calls (s.htm.depth ≠ 0) := by
        simp only [ProfiledState.observe, hcode, hp, Option.isSome_some, if_true]
      rw [hobs]
      exact .enter hcode hp
    · rename_i hp
      obtain rfl := Option.some.inj hs
      have hobs : s.observe cfg ty profileRdtsc (.run v) = s.profile := by
        simp [ProfiledState.observe, hcode, hp]
      rw [hobs]
      exact .outside (by simp [hcode, InLock]) id
  · rename_i c ops o k x hcode
    obtain rfl := Option.some.inj hs
    have hobs : s.observe cfg ty profileRdtsc (.run v) =
        s.profile.returns o x (s.htm.depth ≠ 0) s.clock := by
      simp only [ProfiledState.observe, hcode]
    rw [hobs]
    exact .leave hcode
  · rename_i c ops o k lo lk hcode
    have hobs : s.observe cfg ty profileRdtsc (.run v) = s.observeOp profileRdtsc lo v := by
      simp only [ProfiledState.observe, hcode]
    rw [hobs]
    exact .of_lockStep hcode hclock hs
  · cases hs
  · cases hs

theorem Profiled.of_step {s s' : ProfiledState} {a : ProfiledAct}
    (hs : (profiledThread cfg ty profileRdtsc).step s a = some s') :
    Profiled cfg ty profileRdtsc s a s' := by
  cases a with
  | tick n =>
    obtain rfl := Option.some.inj hs
    exact .tick n
  | act a =>
    simp only [profiledThread, ProfiledState.step] at hs
    split at hs
    swap
    · cases hs
    rename_i hok
    obtain ⟨h', hstep, rfl⟩ := Option.map_eq_some_iff.mp hs
    simp only [HtmState.step] at hstep
    split at hstep
    · cases hstep
    cases a with
    | call c =>
      simp only at hstep
      split at hstep
      · rename_i hcode
        obtain rfl := Option.some.inj hstep
        exact .outside (by simp [hcode, InLock]) id
      · cases hstep
    | run v => exact .of_runStep hok.2 hstep
    | htmBegin =>
      simp only [HtmState.beginStep] at hstep
      split at hstep
      · rename_i hcode
        have hn : ∀ now, Charges profileRdtsc .xbegin xbeginStarted (accounts s)
            ⟨s.htm.depth + 1, s.htm.thread.specEntry, s.profile.begins now⟩ :=
          fun now => .inl ⟨rfl, now, rfl⟩
        rw [resume_eq hcode] at hstep
        split at hstep <;> rename_i hd <;> obtain rfl := Option.some.inj hstep
        · -- an outermost begin also saves the counters, which an abort brings back
          have hn1 : Charges profileRdtsc .xbegin xbeginStarted (accounts s) ⟨1,
              s.htm.thread.specEntry, s.profile.begins (s.rdtscMacro profileRdtsc)⟩ := by
            have hn0 := hn (s.rdtscMacro profileRdtsc)
            rwa [hd] at hn0
          exact .lockOp hcode (.inr trivial) hn1 fun _ => by
            rw [if_pos hd]
            exact ⟨rfl, rfl⟩
        · exact .lockOp hcode (.inr trivial) (hn _) fun _ => by rw [if_neg hd]
      · cases hstep
    | htmAbort status =>
      simp only [HtmState.abortStep] at hstep
      split at hstep
      · cases hstep
      rename_i hstatus
      split at hstep
      · rename_i hd
        obtain rfl := Option.some.inj hstep
        -- the counters after the abort are the saved ones, with the abort entered
        have hobs : s.observe cfg ty profileRdtsc (.htmAbort status) =
            s.saved.aborts status (s.rdtscMacro profileRdtsc) := by
          rw [← keep_of_ne hd]
          rfl
        rw [hobs]
        exact .aborts hd hstatus
      · rename_i hd
        have hd : s.htm.depth = 0 := not_not.mp hd
        split at hstep
        · -- no transaction is live: `_xbegin` itself answers with the status
          rename_i hcode
          obtain rfl := Option.some.inj hstep
          rw [resume_eq hcode]
          have hobs : s.observe cfg ty profileRdtsc (.htmAbort status) =
              s.profile.aborts status (s.rdtscMacro profileRdtsc) := by
            simp only [ProfiledState.observe, ProfiledState.keep, if_pos hd]
          rw [hobs]
          have hn : Charges profileRdtsc .xbegin status (accounts s) ⟨s.htm.depth,
              s.htm.thread.specEntry, s.profile.aborts status (s.rdtscMacro profileRdtsc)⟩ :=
            .inr ⟨hstatus, hd, _, rfl⟩
          exact .lockOp hcode (.inr trivial) hn fun hne => absurd hd hne
        · cases hstep

/-! ## A law that the lock functions keep -/

/-- The accounts when the lock function for `o` has returned `x`. -/
def Accounts.returns (n : Accounts) (o : CondOp) (x clock : Int) : Accounts :=
  { n with profile := n.profile.returns o x (n.depth ≠ 0) clock }

/-- The accounts when a lock function is called. -/
def Accounts.calls (n : Accounts) : Accounts :=
  { n with profile := n.profile.calls (n.depth ≠ 0) }

/-- A law about the accounts, and the condition for it: what the operations of a lock function
    may be answered, and with what it may return. -/
structure Law where
  Holds : Accounts → Prop
  Answer : CondOp → LockOp → Int → Prop
  Leave : CondOp → Int → Accounts → Int → Prop

namespace Law

variable (L : Law) (profileRdtsc)

/-- An operation in the code for `o`, answered as the law requires. -/
def CountsIn (o : CondOp) (lo : LockOp) (v : Int) (n n' : Accounts) : Prop :=
  (¬ LockOp.Own lo → L.Answer o lo v) ∧ Charges profileRdtsc lo v n n'

/-- The law holds after the return. -/
def Returned (o : CondOp) (x : Int) (n : Accounts) : Prop :=
  ∀ clock, L.Leave o x n clock → L.Holds (n.returns o x clock)

/-- The law holds, or will when the lock function returns. -/
def Keeps : HtmCode → Accounts → Prop
  | .app, n | .call .., n => L.Holds n
  | .lockFun _ _ o _ p, n => p.stateWp (L.CountsIn profileRdtsc o) (L.Returned o) n

/-- A step the law allows. -/
def Meets (s : ProfiledState) : ProfiledAct → Prop
  | .act (.run v) =>
    match s.htm.thread.code with
    | .lockFun _ _ o _ (.op lo _) => ¬ LockOp.Own lo → L.Answer o lo v
    | .lockFun _ _ o _ (.ret x) => L.Leave o x (accounts s) s.clock
    | _ => True
  | _ => True

/-- The lock functions keep the law when they start with the flag right. -/
def KeptBy (cfg : TxConfig) (ty : LockType) : Prop :=
  ∀ o p n, lockCode cfg ty o = some p → L.Holds n →
    (LockType.Prefetches ty → (n.specEntry ≠ 0 ↔ n.depth ≠ 0)) →
    p.stateWp (L.CountsIn profileRdtsc o) (L.Returned o) n.calls

end Law

structure ProfileInv (cfg : TxConfig) (ty : LockType) (profileRdtsc : Bool) (L : Law)
    (s : ProfiledState) : Prop where
  code : L.Keeps profileRdtsc s.htm.thread.code (accounts s)
  /-- What an abort goes back to is before a begin. -/
  saved : s.htm.depth ≠ 0 → ∃ t, s.htm.saved = some t ∧
    (∃ c ops o k lk, t.code = .lockFun c ops o k (.op .xbegin lk)) ∧
    L.Keeps profileRdtsc t.code ⟨0, t.specEntry, s.saved⟩
  flag : LockType.Prefetches ty → ∃ ts : TracedState, ts.htm = s.htm ∧ EntryInv cfg ty ts

theorem entryInv_profiled {s s' : ProfiledState} {a : ProfiledAct} {ts : TracedState}
    (hty : LockType.Prefetches ty) (hts : ts.htm = s.htm) (h : EntryInv cfg ty ts)
    (hs : (profiledThread cfg ty profileRdtsc).step s a = some s') :
    ∃ ts : TracedState, ts.htm = s'.htm ∧ EntryInv cfg ty ts := by
  cases a with
  | tick n =>
    obtain rfl := Option.some.inj hs
    exact ⟨ts, hts, h⟩
  | act a =>
    simp only [profiledThread, ProfiledState.step] at hs
    split at hs
    swap
    · cases hs
    rename_i hok
    obtain ⟨h', hstep, rfl⟩ := Option.map_eq_some_iff.mp hs
    rw [← hts] at hstep
    have htraced : (tracedThread cfg ty).step ts a = some ⟨h', ts.observe cfg ty a, keep ts⟩ := by
      simp only [tracedThread, TracedState.step, if_pos hok.1, hstep, Option.map_some]
      rfl
    exact ⟨_, rfl, h.step hty htraced⟩

namespace ProfileInv

variable {L : Law} {s s' : ProfiledState}

theorem step (hkept : L.KeptBy profileRdtsc cfg ty) (h : ProfileInv cfg ty profileRdtsc L s)
    {a : ProfiledAct} (hmeets : L.Meets s a)
    (hs : (profiledThread cfg ty profileRdtsc).step s a = some s') :
    ProfileInv cfg ty profileRdtsc L s' := by
  have hcode := h.code
  have hflag : LockType.Prefetches ty → ∃ ts : TracedState, ts.htm = s'.htm ∧ EntryInv cfg ty ts := by
    intro hty
    obtain ⟨ts, hts, hentry⟩ := h.flag hty
    exact entryInv_profiled hty hts hentry hs
  -- a step that leaves the transaction alone
  have hsame : ∀ d, d = s.htm.depth → d ≠ 0 → ∃ t, s.htm.saved = some t ∧
      (∃ c ops o k lk, t.code = .lockFun c ops o k (.op .xbegin lk)) ∧
      L.Keeps profileRdtsc t.code ⟨0, t.specEntry, s.keep⟩ := by
    intro d hd hne
    rw [keep_of_ne (hd ▸ hne)]
    exact h.saved (hd ▸ hne)
  cases Profiled.of_step hs with
  | tick n => exact ⟨hcode, h.saved, hflag⟩
  | outside hout hout' =>
    refine ⟨?_, hsame _ rfl, hflag⟩
    have hlaw : L.Holds (accounts s) := by
      cases hc : s.htm.thread.code with
      | app | call =>
        rw [hc] at hcode
        exact hcode
      | lockFun => exact absurd (by rw [hc]; trivial) hout
    rename_i code done
    cases code with
    | app | call => exact hlaw
    | lockFun => exact absurd trivial hout'
  | enter hc hp =>
    refine ⟨?_, hsame _ rfl, hflag⟩
    rw [hc] at hcode
    apply hkept _ _ (accounts s) hp hcode
    intro hty
    obtain ⟨ts, hts, hentry⟩ := h.flag hty
    have hright := hentry.flag
    rw [hts, hc] at hright
    exact decide_eq_decide.mp hright
  | leave hc =>
    refine ⟨?_, hsame _ rfl, hflag⟩
    rw [hc] at hcode
    simp only [Law.Meets, hc] at hmeets
    exact hcode _ hmeets
  | lockOp hc ha hn hsaved =>
    rename_i o k lo lk v n saved
    have hcode' := hcode
    rw [hc] at hcode'
    have hstep : L.CountsIn profileRdtsc o lo v (accounts s) n := by
      refine ⟨fun hown => ?_, hn⟩
      cases ha with
      | inl ha =>
        subst ha
        simp only [Law.Meets, hc] at hmeets
        exact hmeets hown
      | inr ha => exact absurd ha hown
    refine ⟨hcode' _ _ hstep, fun hd => ?_, hflag⟩
    have hsaved := hsaved hd
    by_cases h0 : s.htm.depth = 0
    · -- the outermost begin
      rw [if_pos h0] at hsaved
      obtain ⟨rfl, rfl⟩ := hsaved
      refine ⟨s.htm.thread, rfl, ⟨_, _, _, _, _, hc⟩, ?_⟩
      rw [show s.keep = s.profile from if_pos h0]
      rwa [show accounts s = ⟨0, s.htm.thread.specEntry, s.profile⟩ by
        rw [accounts, h0]] at hcode
    · rw [if_neg h0] at hsaved
      rw [hsaved]
      exact hsame _ rfl h0
  | aborts hd hstatus =>
    obtain ⟨t, ht, ⟨c, ops, o, k, lk, hc⟩, hkeeps⟩ := h.saved hd
    rename_i status now
    have hroll : s.htm.rollback status = { s.htm with
        thread := { t with code := .lockFun c ops o k (lk status) }
        depth := 0
        saved := none } := by
      simp only [HtmState.rollback, ht, resume_eq hc]
    rw [hroll] at hflag ⊢
    rw [hc] at hkeeps
    have hfails : L.CountsIn profileRdtsc o .xbegin status ⟨0, t.specEntry, s.saved⟩
        ⟨0, t.specEntry, s.saved.aborts status now⟩ :=
      ⟨fun hown => absurd trivial hown, .inr ⟨hstatus, rfl, now, rfl⟩⟩
    exact ⟨hkeeps _ _ hfails, fun hne => absurd rfl hne, hflag⟩
  | gone => exact ⟨hcode, hsame _ rfl, hflag⟩

end ProfileInv

/-- A law the lock functions keep holds in every run that meets its condition. -/
theorem ProfileInv.run {L : Law} (hkept : L.KeptBy profileRdtsc cfg ty)
    (hinit : L.Holds ⟨0, 0, {}⟩) {tr : List (ProfiledState × ProfiledAct)} {s : ProfiledState}
    (h : (profiledThread cfg ty profileRdtsc).Run L.Meets tr s) :
    ProfileInv cfg ty profileRdtsc L s := by
  apply h.invariant
  · intro s hs
    rw [show s = {} from hs]
    exact ⟨hinit, fun hd => absurd rfl hd, fun _ => ⟨{}, rfl, entryInv_init rfl⟩⟩
  · intro s a s' hi hc hs
    exact hi.step hkept hc hs

/-- Outside the lock functions the law holds. -/
theorem ProfileInv.holds {L : Law} {s : ProfiledState} (h : ProfileInv cfg ty profileRdtsc L s)
    (hout : ¬ InLock s.htm.thread.code) : L.Holds (accounts s) := by
  have hcode := h.code
  cases hc : s.htm.thread.code with
  | app | call =>
    rw [hc] at hcode
    exact hcode
  | lockFun => exact absurd (by rw [hc]; trivial) hout

end TxLock.Spec
