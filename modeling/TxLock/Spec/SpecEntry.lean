import TxLock.Spec.SpecFlag
import TxLock.Spec.WaitUndone

/-!
# `spec_entry` tracks transactions

For the prefetching locks, in every run of a thread that calls the lock functions and the
condition variables, with begins and aborts anywhere: outside the code that begins
transactions `spec_entry` is set if and only if a transaction is active.

## Key results

- `Traced.of_step`: what one step can do
- `EntryInv`: the flag, the record of the calls and what an abort goes back to
- `spec_entry_tracks`: the flag is right at every call, so calls outside transactions run
  their code, calls inside touch nothing, and an abort leaves no trace
-/

namespace TxLock.Spec

open TxLock.Native Prog

variable {cfg : TxConfig} {ty : LockType}

/-! ## What one step can do -/

/-- The record a begin saves. -/
def keep (s : TracedState) : LockHistory := if s.htm.depth = 0 then s.hist else s.saved

/-- The operation `lo` is answered by `v` and leaves `spec_entry` at `w`. -/
def Answered (s : HtmState) (lo : LockOp) (v w : Int) : Prop :=
  match lo with
  | .setSpecEntry x => w = x
  | .specEntry => v = s.thread.specEntry ∧ w = s.thread.specEntry
  -- a begin that fails outside a transaction
  | .xbegin => s.depth = 0 ∧ v ≠ xbeginStarted ∧ w = s.thread.specEntry
  | .xabort _ => s.depth = 0 ∧ w = s.thread.specEntry
  | .xend | .assertFail => False
  | _ => w = s.thread.specEntry

/-- A step of the system. -/
inductive Traced (cfg : TxConfig) (ty : LockType) (s : TracedState) :
    HtmAct → TracedState → Prop where
  | call (c : ThreadCall) (hc : c.NonNull) (h : s.htm.thread.code = .app) :
      Traced cfg ty s (.call c) ⟨s.htm.goto (.call c [] (c.prog cfg)), s.hist, keep s⟩
  | returns {c ops x v} (h : s.htm.thread.code = .call c ops (.ret x)) :
      Traced cfg ty s (.run v) ⟨{ s.htm with
        thread := { s.htm.thread with
          code := .app
          done := s.htm.thread.done ++ [⟨c, ops, x⟩] } }, s.hist, keep s⟩
  | enter {c ops o k p v} (h : s.htm.thread.code = .call c ops (.op o k))
      (hp : lockCode cfg ty o = some p) :
      Traced cfg ty s (.run v) ⟨s.htm.goto (.lockFun c ops o k p),
        { s.hist with now := some { op := o, inside := s.htm.depth ≠ 0 } }, keep s⟩
  | answer {c ops o k} (v : Int) (h : s.htm.thread.code = .call c ops (.op o k)) :
      Traced cfg ty s (.run v) ⟨s.htm.goto (.call c (ops ++ [(o, v)]) (k v)), s.hist, keep s⟩
  | leave {c ops o k x v} (h : s.htm.thread.code = .lockFun c ops o k (.ret x)) :
      Traced cfg ty s (.run v)
        ⟨s.htm.goto (.call c (ops ++ [(o, x)]) (k x)), ⟨s.hist.calls, none⟩, keep s⟩
  | lockOp {a c ops o k lo lk} (v w : Int)
      (h : s.htm.thread.code = .lockFun c ops o k (.op lo lk)) (hv : Answered s.htm lo v w) :
      Traced cfg ty s a ⟨{ s.htm with
        thread := { s.htm.thread with
          code := .lockFun c ops o k (lk v)
          specEntry := w } }, s.hist.push (lo, v), keep s⟩
  | begins {c ops o k lk} (h : s.htm.thread.code = .lockFun c ops o k (.op .xbegin lk)) :
      Traced cfg ty s .htmBegin ⟨{ s.htm with
        thread := { s.htm.thread with code := .lockFun c ops o k (lk xbeginStarted) }
        depth := s.htm.depth + 1
        saved := if s.htm.depth = 0 then some s.htm.thread else s.htm.saved },
        s.hist.push (.xbegin, xbeginStarted), keep s⟩
  | aborts {a status} (hd : s.htm.depth ≠ 0) (h : status ≠ xbeginStarted) :
      Traced cfg ty s a ⟨s.htm.rollback status, s.saved.push (.xbegin, status), keep s⟩
  | ends {a c ops o k lk h'} (h : s.htm.thread.code = .lockFun c ops o k (.op .xend lk)) :
      Traced cfg ty s a h'
  | gone {a} : Traced cfg ty s a ⟨{ s.htm with gone := true }, s.hist, keep s⟩

theorem Traced.of_lockStep {s : TracedState} {h' : HtmState} {v : Int} {c : ThreadCall}
    {ops : List (CondOp × Int)} {o : CondOp} {k : Int → CondProg Int} {lo : LockOp}
    {lk : Int → LockProg Int} (h : s.htm.thread.code = .lockFun c ops o k (.op lo lk))
    (hs : s.htm.lockStep lo (fun v => .lockFun c ops o k (lk v)) v = some h') :
    Traced cfg ty s (.run v) ⟨h', s.observe cfg ty (.run v), keep s⟩ := by
  have hgo : ∀ x, Answered s.htm lo x s.htm.thread.specEntry →
      Traced cfg ty s (.run v) ⟨s.htm.goto (.lockFun c ops o k (lk x)), s.hist.push (lo, x), keep s⟩ :=
    fun x hx => .lockOp x s.htm.thread.specEntry h hx
  cases lo with
  | xbegin => simp [HtmState.lockStep] at hs
  | xend => exact .ends h
  | specEntry =>
    obtain rfl := Option.some.inj hs
    simpa [TracedState.observe, h, HtmState.answer] using hgo _ ⟨rfl, rfl⟩
  | xtest =>
    obtain rfl := Option.some.inj hs
    simpa [TracedState.observe, h, HtmState.answer] using hgo _ rfl
  | statsAdd | rdtscMacro | rdtsc | load | store | testAndSet | release | cas | fetchAndAdd
  | pthreadMutexLock | pthreadMutexTrylock | pthreadMutexUnlock | mallocNodes =>
    obtain rfl := Option.some.inj hs
    simpa [TracedState.observe, h, HtmState.answer] using hgo v rfl
  | setSpecEntry w =>
    obtain rfl := Option.some.inj hs
    have hset : Traced cfg ty s (.run v) _ := .lockOp 0 w h rfl
    simpa [TracedState.observe, h, HtmState.answer] using hset
  -- outside a transaction `_xabort` does nothing, inside it is an abort
  | xabort code =>
    simp only [HtmState.lockStep] at hs
    split at hs <;> rename_i hd <;> obtain rfl := Option.some.inj hs
    · simpa [TracedState.observe, h, hd, HtmState.answer] using hgo 0 ⟨hd, rfl⟩
    · obtain ⟨d, hd'⟩ := Nat.exists_eq_succ_of_ne_zero hd
      have habort : Traced cfg ty s (.run v) _ := .aborts hd (explicitStatus_ne code)
      simpa [TracedState.observe, h, hd'] using habort
  -- a failing assertion ends the process, unless a transaction hides it by aborting
  | assertFail =>
    simp only [HtmState.lockStep] at hs
    split at hs <;> rename_i hd <;> obtain rfl := Option.some.inj hs
    · have hgone : Traced cfg ty s (.run v) _ := .gone
      simpa [TracedState.observe, h, hd] using hgone
    · obtain ⟨d, hd'⟩ := Nat.exists_eq_succ_of_ne_zero hd
      have habort : Traced cfg ty s (.run v) _ := .aborts hd (by decide : (0 : Int) ≠ xbeginStarted)
      simpa [TracedState.observe, h, hd'] using habort

theorem Traced.of_runStep {s : TracedState} {h' : HtmState} {v : Int}
    (hs : s.htm.runStep cfg ty v = some h') :
    Traced cfg ty s (.run v) ⟨h', s.observe cfg ty (.run v), keep s⟩ := by
  simp only [HtmState.runStep] at hs
  split at hs
  · cases hs
  · rename_i c ops x hcode
    obtain rfl := Option.some.inj hs
    simpa [TracedState.observe, hcode] using (Traced.returns hcode : Traced cfg ty s (.run v) _)
  · rename_i c ops o k hcode
    split at hs
    · rename_i p hp
      obtain rfl := Option.some.inj hs
      simpa [TracedState.observe, hcode, hp] using
        (Traced.enter hcode hp : Traced cfg ty s (.run v) _)
    · rename_i hp
      obtain rfl := Option.some.inj hs
      simpa [TracedState.observe, hcode, hp] using
        (Traced.answer v hcode : Traced cfg ty s (.run v) _)
  · rename_i c ops o k x hcode
    obtain rfl := Option.some.inj hs
    simpa [TracedState.observe, hcode] using (Traced.leave hcode : Traced cfg ty s (.run v) _)
  · rename_i hcode
    exact .of_lockStep hcode hs
  · cases hs
  · cases hs

theorem Traced.of_step {s s' : TracedState} {a : HtmAct}
    (hs : (tracedThread cfg ty).step s a = some s') : Traced cfg ty s a s' := by
  simp only [tracedThread, TracedState.step] at hs
  split at hs
  swap
  · cases hs
  rename_i hnull
  obtain ⟨h', hstep, rfl⟩ := Option.map_eq_some_iff.mp hs
  simp only [HtmState.step] at hstep
  split at hstep
  · cases hstep
  cases a with
  | call c =>
    simp only at hstep
    split at hstep
    · rename_i hcode
      obtain rfl := Option.some.inj hstep
      exact .call c hnull hcode
    · cases hstep
  | run v => exact .of_runStep hstep
  | htmBegin =>
    simp only [HtmState.beginStep] at hstep
    split at hstep
    · rename_i hcode
      have hbegins : Traced cfg ty s .htmBegin _ := .begins hcode
      rw [resume_eq hcode] at hstep
      split at hstep <;> rename_i hd <;> obtain rfl := Option.some.inj hstep
      · simpa [TracedState.observe, hd, keep] using hbegins
      · simpa [TracedState.observe, hd, keep] using hbegins
    · cases hstep
  | htmAbort status =>
    simp only [HtmState.abortStep] at hstep
    split at hstep
    · cases hstep
    rename_i hstatus
    split at hstep
    · rename_i hd
      obtain rfl := Option.some.inj hstep
      have habort : Traced cfg ty s (.htmAbort status) _ := .aborts hd hstatus
      simpa [TracedState.observe, hd, keep] using habort
    · rename_i hd
      split at hstep
      · rename_i hcode
        obtain rfl := Option.some.inj hstep
        rw [resume_eq hcode]
        have hd : s.htm.depth = 0 := not_not.mp hd
        have hop : Traced cfg ty s (.htmAbort status) _ :=
          .lockOp status s.htm.thread.specEntry hcode ⟨hd, hstatus, rfl⟩
        simpa [TracedState.observe, hd, keep] using hop
      · cases hstep

/-! ## The objects of the operations -/

/-- A call on objects performs its operations on objects. -/
theorem prog_nonNull {c : ThreadCall} (hc : c.NonNull) :
    (c.prog cfg).Avoids (¬ NonNullOp ·) := by
  cases c with
  | lock m | trylock m | unlock m =>
    have hm : m ≠ 0 := hc
    simpa [ThreadCall.prog, NonNullOp] using hm
  | cond c =>
    cases c with
    | signal cv => simp [ThreadCall.prog, CondCall.pthreadCond, pthreadCondSignal, NonNullOp]
    | broadcast cv => simp [ThreadCall.prog, CondCall.pthreadCond, pthreadCondBroadcast, NonNullOp]
    | wait cv lk =>
      obtain ⟨hcv, hlk⟩ : cv ≠ 0 ∧ lk ≠ 0 := hc
      -- what a wait does until it is woken names only the condition variable
      have hloop : ∀ seq bcSeq tries, (loop (condWaitBody cfg cv seq bcSeq) cfg.fuel tries).Avoids
          (¬ NonNullOp ·) := fun seq bcSeq tries => .loop (fun tries => by
        simp only [condWaitBody, bind_eq, perform_bind, emit_bind, avoids_op]
        refine ⟨by simp [NonNullOp], fun _ => ⟨by simp [NonNullOp], fun _ => ?_⟩⟩
        refine avoids_bind.mpr ⟨by simp [condSpeculate, NonNullOp, hcv], fun x _ => ?_⟩
        cases x <;> simp [condSleep, NonNullOp]) _ _
      -- on the way out it takes the mutex again
      have hend : ∀ e, (condWaitEnd cv lk e).Avoids (¬ NonNullOp ·) := fun e => by
        cases e <;> simp [condWaitEnd, condLeave, NonNullOp, hlk]
      simp [ThreadCall.prog, CondCall.pthreadCond, pthreadCondWait, condWaitReleased, condRegister,
        NonNullOp, hlk]
      exact fun seq bcSeq => ⟨hloop seq bcSeq 0, fun e _ _ => hend e⟩
    | timedwait cv lk ts =>
      obtain ⟨-, hlk⟩ : cv ≠ 0 ∧ lk ≠ 0 := hc
      have hloop : ∀ seq bcSeq, (loop (fun _ => condTimedBody cv ts seq bcSeq) cfg.fuel ()).Avoids
          (¬ NonNullOp ·) := fun seq bcSeq =>
        .loop (fun _ => by simp [condTimedBody, NonNullOp]) _ _
      have hcounters : ∀ e, (condTimedCounters cv e).Avoids (¬ NonNullOp ·) := fun e => by
        cases e <;> simp [condTimedCounters, NonNullOp]
      simp [ThreadCall.prog, CondCall.pthreadCond, pthreadCondTimedwait, condTimedReleased,
        condRegister, condLeave, NonNullOp, hlk]
      exact fun _ seq bcSeq => ⟨hloop seq bcSeq, fun e _ _ => hcounters e⟩

/-! ## The invariant -/

/-- What the thread has done to locks, queue nodes and node lists: its locks, its tickets and
    its nodes are what these operations have made them. -/
def effects (h : LockHistory) : List (LockOp × Int) :=
  (h.calls.flatMap (·.trace)).filter fun e => LockOp.changes e.1

/-- The first thing a lock function does is to read the flag, which tells where it was called. -/
def ReadsFlag (r : LockCall) : Prop :=
  ∀ v rest, r.trace = (.specEntry, v) :: rest → (v ≠ 0 ↔ r.inside = true)

/-- A call that has returned is a run of the code. -/
def PastOk (cfg : TxConfig) (ty : LockType) (r : LockCall) : Prop :=
  ReadsFlag r ∧ ∃ p x, lockCode cfg ty r.op = some p ∧ p.Returns r.trace x

/-- The thread is in the code of the call under way. -/
def InCall (cfg : TxConfig) (ty : LockType) (now : Option LockCall) : HtmCode → Prop
  | .app | .call .. => now = none
  | .lockFun _ _ o _ p => ∃ r code, now = some r ∧ r.op = o ∧ lockCode cfg ty o = some code ∧
      code.Leads r.trace p

structure HistOk (cfg : TxConfig) (ty : LockType) (h : LockHistory) (code : HtmCode) : Prop where
  past : ∀ r ∈ h.past, PastOk cfg ty r
  now : InCall cfg ty h.now code
  head : ∀ r, h.now = some r → ReadsFlag r

/-- The operations to come are on objects. -/
def OnObjects : HtmCode → Prop
  | .app => True
  | .call _ _ p => p.Avoids (¬ NonNullOp ·)
  | .lockFun _ _ o k _ => NonNullOp o ∧ ∀ v, (k v).Avoids (¬ NonNullOp ·)

/-- The flag is right outside the lock functions, and as their code has it inside. -/
def FlagOk (w d : Bool) : HtmCode → Prop
  | .app | .call .. => w = d
  | .lockFun _ _ _ _ p => Tracks FlagRight p w d

/-- What an abort goes back to: a begin, with the flag set, after which the code clears it. -/
structure SavedOk (cfg : TxConfig) (ty : LockType) (t : HtmThread) (h : LockHistory) : Prop where
  begins : ∃ c ops o k lk, t.code = .lockFun c ops o k (.op .xbegin lk) ∧
    ∀ st, st ≠ xbeginStarted → Clears (lk st) ∧ Tracks FlagRight (lk st) true false
  flag : t.specEntry ≠ 0
  objects : OnObjects t.code
  hist : HistOk cfg ty h t.code

structure EntryInv (cfg : TxConfig) (ty : LockType) (s : TracedState) : Prop where
  objects : OnObjects s.htm.thread.code
  flag : FlagOk (s.htm.thread.specEntry ≠ 0) (s.htm.depth ≠ 0) s.htm.thread.code
  hist : HistOk cfg ty s.hist s.htm.thread.code
  /-- A call that has done nothing yet finds the flag as it was at the call. -/
  fresh : ∀ r, s.hist.now = some r → r.trace = [] →
    (s.htm.thread.specEntry ≠ 0 ↔ r.inside = true)
  saved : s.htm.depth ≠ 0 → ∃ t, s.htm.saved = some t ∧ SavedOk cfg ty t s.saved ∧
    effects s.hist = effects s.saved

theorem effects_push_of_not_changes {h : LockHistory} {e : LockOp × Int}
    (he : LockOp.changes e.1 = false) : effects (h.push e) = effects h := by
  cases hn : h.now with
  | none => simp [effects, LockHistory.calls, LockHistory.push, hn]
  | some r => simp [effects, LockHistory.calls, LockHistory.push, hn, List.filter_append, he]

theorem effects_enter {h : LockHistory} {r : LockCall} (hr : r.trace = []) (hn : h.now = none) :
    effects { h with now := some r } = effects h := by
  simp [effects, LockHistory.calls, hr, hn]

theorem effects_leave (h : LockHistory) : effects ⟨h.calls, none⟩ = effects h := by
  simp [effects, LockHistory.calls]

/-- After an operation the call under way has done something. -/
theorem trace_push {h : LockHistory} {e : LockOp × Int} {r : LockCall}
    (hr : (h.push e).now = some r) : r.trace ≠ [] := by
  obtain ⟨q, -, rfl⟩ := Option.map_eq_some_iff.mp hr
  simp

theorem HistOk.push {h : LockHistory} {c : ThreadCall} {ops : List (CondOp × Int)} {o : CondOp}
    {k : Int → CondProg Int} {lo : LockOp} {lk : Int → LockProg Int} {v : Int}
    (hh : HistOk cfg ty h (.lockFun c ops o k (.op lo lk)))
    (hv : ∀ r, h.now = some r → r.trace = [] → lo = .specEntry → (v ≠ 0 ↔ r.inside = true)) :
    HistOk cfg ty (h.push (lo, v)) (.lockFun c ops o k (lk v)) := by
  obtain ⟨r, code, hnow, hop, hcode, hlead⟩ := hh.now
  have hpush : (h.push (lo, v)).now = some { r with trace := r.trace ++ [(lo, v)] } := by
    simp [LockHistory.push, hnow]
  refine ⟨hh.past, ⟨_, code, hpush, hop, hcode, hlead.concat v⟩, fun r' hr' => ?_⟩
  rw [hpush, Option.some.injEq] at hr'
  subst hr'
  intro x rest htrace
  cases htr : r.trace with
  | nil =>
    -- the first operation of the call
    simp only [htr, List.nil_append, List.cons.injEq, Prod.mk.injEq] at htrace
    obtain ⟨⟨hlo, rfl⟩, -⟩ := htrace
    exact hv r hnow htr hlo
  | cons e tr =>
    simp only [htr, List.cons_append, List.cons.injEq] at htrace
    exact hh.head r hnow x tr (by rw [htr, htrace.1])

theorem entryInv_init {s : TracedState} (h : (tracedThread cfg ty).init s) :
    EntryInv cfg ty s := by
  obtain rfl : s = {} := h
  refine ⟨trivial, ?_, ⟨by simp, rfl, by simp⟩, by simp, fun hd => absurd rfl hd⟩
  show decide ((0 : Int) ≠ 0) = decide ((0 : Nat) ≠ 0)
  rfl

namespace EntryInv

variable {s : TracedState}

/-- The operation `lo` has been answered, in a transaction or outside. -/
theorem lockOp (h : EntryInv cfg ty s) {c : ThreadCall} {ops : List (CondOp × Int)} {o : CondOp}
    {k : Int → CondProg Int} {lo : LockOp} {lk : Int → LockProg Int} {v w : Int}
    (hcode : s.htm.thread.code = .lockFun c ops o k (.op lo lk)) (hv : Answered s.htm lo v w) :
    EntryInv cfg ty ⟨{ s.htm with
      thread := { s.htm.thread with code := .lockFun c ops o k (lk v), specEntry := w } },
      s.hist.push (lo, v), keep s⟩ := by
  have hflag := h.flag
  have hobj := h.objects
  have hhist := h.hist
  rw [hcode] at hflag hobj hhist
  obtain ⟨r, code, hnow, -⟩ := hhist.now
  -- what `lo` does to the flag, and that it changes nothing in a transaction
  have hop : Tracks FlagRight (lk v) (decide (w ≠ 0)) (decide (s.htm.depth ≠ 0)) ∧
      (s.htm.depth ≠ 0 → LockOp.changes lo = false) ∧
      (lo = .specEntry → v = s.htm.thread.specEntry) := by
    cases lo with
    | xbegin =>
      obtain ⟨hd, hst, rfl⟩ := hv
      obtain ⟨hw, -, hfailed⟩ := hflag
      rw [hw]
      simp only [hd, ne_eq, not_true_eq_false, decide_false] at hfailed ⊢
      exact ⟨(hfailed trivial v hst).2, nofun, nofun⟩
    | setSpecEntry x =>
      obtain rfl : w = x := hv
      exact ⟨hflag v, fun _ => rfl, nofun⟩
    | specEntry =>
      obtain ⟨rfl, rfl⟩ := hv
      exact ⟨hflag _ rfl, fun _ => rfl, fun _ => rfl⟩
    | xend | assertFail => exact hv.elim
    | xabort x =>
      obtain ⟨hd, rfl⟩ := hv
      exact ⟨hflag (by simp [hd]) v, fun _ => rfl, nofun⟩
    | xtest | statsAdd | rdtscMacro | rdtsc =>
      obtain rfl : w = s.htm.thread.specEntry := hv
      exact ⟨hflag v, fun _ => rfl, nofun⟩
    | load =>
      obtain rfl : w = s.htm.thread.specEntry := hv
      exact ⟨hflag.2 v, fun _ => rfl, nofun⟩
    | store | testAndSet | release | cas | fetchAndAdd | pthreadMutexLock | pthreadMutexTrylock
    | pthreadMutexUnlock | mallocNodes =>
      obtain rfl : w = s.htm.thread.specEntry := hv
      exact ⟨hflag.2 v, fun hd => absurd hflag.1.2 (by simpa using hd), nofun⟩
  refine ⟨hobj, hop.1, hhist.push fun r hr htr hlo => ?_, fun r' hr' htr => ?_, fun hd => ?_⟩
  · rw [hop.2.2 hlo]
    exact h.fresh r hr htr
  · exact absurd htr (trace_push hr')
  · have hd' : s.htm.depth ≠ 0 := hd
    obtain ⟨t, ht, hok, heff⟩ := h.saved hd'
    have hkeep : keep s = s.saved := if_neg hd'
    refine ⟨t, ht, hkeep ▸ hok, ?_⟩
    rw [effects_push_of_not_changes (hop.2.1 hd'), hkeep]
    exact heff

/-- A step that leaves the lock functions, the flag and the record alone. -/
theorem outside (h : EntryInv cfg ty s) {t : HtmThread} {gone : Bool}
    (hspec : t.specEntry = s.htm.thread.specEntry) (hobj : OnObjects t.code)
    (hflag : FlagOk (s.htm.thread.specEntry ≠ 0) (s.htm.depth ≠ 0) t.code)
    (hnow : InCall cfg ty s.hist.now t.code) :
    EntryInv cfg ty ⟨{ s.htm with thread := t, gone := gone }, s.hist, keep s⟩ := by
  refine ⟨hobj, ?_, ⟨h.hist.past, hnow, h.hist.head⟩, fun r hr htr => ?_, fun hd => ?_⟩
  · simpa only [hspec] using hflag
  · simpa only [hspec] using h.fresh r hr htr
  · have hd' : s.htm.depth ≠ 0 := hd
    have hkeep : keep s = s.saved := if_neg hd'
    rw [hkeep]
    exact h.saved hd'

/-- A lock function is called. -/
theorem enter (h : EntryInv cfg ty s) (hty : LockType.Prefetches ty) {c : ThreadCall}
    {ops : List (CondOp × Int)} {o : CondOp} {k : Int → CondProg Int} {p : LockProg Int}
    (hcode : s.htm.thread.code = .call c ops (.op o k)) (hp : lockCode cfg ty o = some p) :
    EntryInv cfg ty ⟨s.htm.goto (.lockFun c ops o k p),
      { s.hist with now := some { op := o, inside := s.htm.depth ≠ 0 } }, keep s⟩ := by
  have hflag := h.flag
  have hobj := h.objects
  have hnow := h.hist.now
  rw [hcode] at hflag hobj hnow
  have hflag : decide (s.htm.thread.specEntry ≠ 0) = decide (s.htm.depth ≠ 0) := hflag
  have ho : NonNullOp o := not_not.mp hobj.1
  refine ⟨⟨ho, hobj.2⟩, ?_, ⟨h.hist.past, ⟨_, p, rfl, rfl, hp, .nil p⟩, ?_⟩, ?_, fun hd => ?_⟩
  · show Tracks FlagRight p (decide (s.htm.thread.specEntry ≠ 0)) (decide (s.htm.depth ≠ 0))
    rw [hflag]
    exact lockCode_tracks hty ho hp _
  · rintro r ⟨⟩ v rest htrace
    exact nomatch htrace
  · rintro r ⟨⟩ -
    show s.htm.thread.specEntry ≠ 0 ↔ decide (s.htm.depth ≠ 0) = true
    rw [← hflag, decide_eq_true_iff]
  · have hd' : s.htm.depth ≠ 0 := hd
    obtain ⟨t, ht, hok, heff⟩ := h.saved hd'
    have hkeep : keep s = s.saved := if_neg hd'
    refine ⟨t, ht, hkeep ▸ hok, ?_⟩
    rw [effects_enter rfl hnow, hkeep]
    exact heff

/-- A lock function returns. -/
theorem leave (h : EntryInv cfg ty s) {c : ThreadCall} {ops : List (CondOp × Int)} {o : CondOp}
    {k : Int → CondProg Int} {x : Int} (hcode : s.htm.thread.code = .lockFun c ops o k (.ret x)) :
    EntryInv cfg ty
      ⟨s.htm.goto (.call c (ops ++ [(o, x)]) (k x)), ⟨s.hist.calls, none⟩, keep s⟩ := by
  have hflag := h.flag
  have hobj := h.objects
  have hnow := h.hist.now
  rw [hcode] at hflag hobj hnow
  obtain ⟨r, code, hr, rfl, hcode', hlead⟩ := hnow
  refine ⟨hobj.2 x, hflag, ⟨fun q hq => ?_, rfl, by simp⟩, by simp, fun hd => ?_⟩
  · simp only [LockHistory.calls, hr, Option.toList_some, List.mem_append,
      List.mem_singleton] at hq
    cases hq with
    | inl hq => exact h.hist.past q hq
    | inr hq =>
      subst hq
      exact ⟨h.hist.head q hr, code, x, hcode', hlead⟩
  · have hd' : s.htm.depth ≠ 0 := hd
    obtain ⟨t, ht, hok, heff⟩ := h.saved hd'
    have hkeep : keep s = s.saved := if_neg hd'
    refine ⟨t, ht, hkeep ▸ hok, ?_⟩
    rw [effects_leave, hkeep]
    exact heff

/-- A transaction begins, or a nested one. -/
theorem begins (h : EntryInv cfg ty s) {c : ThreadCall} {ops : List (CondOp × Int)} {o : CondOp}
    {k : Int → CondProg Int} {lk : Int → LockProg Int}
    (hcode : s.htm.thread.code = .lockFun c ops o k (.op .xbegin lk)) :
    EntryInv cfg ty ⟨{ s.htm with
      thread := { s.htm.thread with code := .lockFun c ops o k (lk xbeginStarted) }
      depth := s.htm.depth + 1
      saved := if s.htm.depth = 0 then some s.htm.thread else s.htm.saved },
      s.hist.push (.xbegin, xbeginStarted), keep s⟩ := by
  have hflag := h.flag
  have hobj := h.objects
  have hhist := h.hist
  rw [hcode] at hflag hobj hhist
  obtain ⟨hw, hstarted, hfailed⟩ := hflag
  obtain ⟨r, code, hnow, -⟩ := hhist.now
  refine ⟨hobj, ?_, hhist.push fun _ _ _ => nofun, fun r' hr' htr => ?_, fun _ => ?_⟩
  · show Tracks FlagRight (lk xbeginStarted) (decide (s.htm.thread.specEntry ≠ 0))
      (decide (s.htm.depth + 1 ≠ 0))
    rw [hw]
    simpa using hstarted
  · exact absurd htr (trace_push hr')
  · have heff : effects (s.hist.push (.xbegin, xbeginStarted)) = effects s.hist :=
      effects_push_of_not_changes rfl
    -- an outermost begin saves the thread as it is, a nested one keeps what is saved
    by_cases hd : s.htm.depth = 0
    · have hkeep : keep s = s.hist := if_pos hd
      refine ⟨s.htm.thread, if_pos hd, ⟨⟨c, ops, o, k, lk, hcode, hfailed (by simp [hd])⟩, ?_, ?_, ?_⟩, ?_⟩
      · simpa using hw
      · exact h.objects
      · exact hkeep ▸ h.hist
      · rw [heff, hkeep]
    · obtain ⟨t, ht, hok, heff'⟩ := h.saved hd
      have hkeep : keep s = s.saved := if_neg hd
      exact ⟨t, (if_neg hd).trans ht, hkeep ▸ hok, by rw [heff, hkeep, heff']⟩

/-- The active transaction aborts. -/
theorem aborts (h : EntryInv cfg ty s) {status : Int} (hd : s.htm.depth ≠ 0)
    (hstatus : status ≠ xbeginStarted) :
    EntryInv cfg ty ⟨s.htm.rollback status, s.saved.push (.xbegin, status), keep s⟩ := by
  obtain ⟨t, ht, hok, -⟩ := h.saved hd
  obtain ⟨c, ops, o, k, lk, hcode, hfailed⟩ := hok.begins
  have hhist := hok.hist
  have hobj := hok.objects
  rw [hcode] at hhist hobj
  obtain ⟨r, code, hnow, -⟩ := hhist.now
  have hroll : s.htm.rollback status = { s.htm with
      thread := { t with code := .lockFun c ops o k (lk status) }
      depth := 0
      saved := none } := by
    simp only [HtmState.rollback, ht, resume_eq hcode]
  rw [hroll]
  refine ⟨hobj, ?_, hhist.push fun _ _ _ => nofun, fun r' hr' htr => ?_, fun hd' => absurd rfl hd'⟩
  · show Tracks FlagRight (lk status) (decide (t.specEntry ≠ 0)) (decide ((0 : Nat) ≠ 0))
    rw [decide_eq_true hok.flag]
    exact (hfailed status hstatus).2
  · exact absurd htr (trace_push hr')

theorem step (h : EntryInv cfg ty s) (hty : LockType.Prefetches ty) {a : HtmAct}
    {s' : TracedState} (hs : (tracedThread cfg ty).step s a = some s') : EntryInv cfg ty s' := by
  have hflag := h.flag
  have hobj := h.objects
  have hnow := h.hist.now
  cases Traced.of_step hs with
  | call c hc hcode =>
    rw [hcode] at hflag hnow
    exact h.outside rfl (prog_nonNull hc) hflag hnow
  | returns hcode =>
    rw [hcode] at hflag hnow
    exact h.outside rfl trivial hflag hnow
  | enter hcode hp => exact h.enter hty hcode hp
  | answer v hcode =>
    rw [hcode] at hflag hobj hnow
    exact h.outside rfl (hobj.2 v) hflag hnow
  | leave hcode => exact h.leave hcode
  | lockOp v w hcode hv => exact h.lockOp hcode hv
  | begins hcode => exact h.begins hcode
  | aborts hd hstatus => exact h.aborts hd hstatus
  | ends hcode =>
    rw [hcode] at hflag
    exact hflag.elim
  | gone => exact h.outside rfl hobj hflag hnow

end EntryInv

/-! ## Where a transaction has begun -/

/-- The transaction that is active began at a step of the run, and has been active since. -/
def BegunIn (tr : List (TracedState × HtmAct)) (s : TracedState) : Prop :=
  s.htm.depth ≠ 0 → ∃ tr₁ b tr₂, tr = tr₁ ++ (b, .htmBegin) :: tr₂ ∧ b.htm.depth = 0 ∧
    (∀ p ∈ tr₂, p.1.htm.depth ≠ 0) ∧ s.htm.saved = some b.htm.thread ∧ s.saved = b.hist

/-- A step into a transaction is its begin, a step inside leaves what was saved. -/
theorem begins_of_step {s s' : TracedState} {a : HtmAct} (h : EntryInv cfg ty s)
    (hs : (tracedThread cfg ty).step s a = some s') (hd' : s'.htm.depth ≠ 0) :
    (s.htm.depth = 0 ∧ a = .htmBegin ∧ s'.htm.saved = some s.htm.thread ∧ s'.saved = s.hist) ∨
      (s.htm.depth ≠ 0 ∧ s'.htm.saved = s.htm.saved ∧ s'.saved = s.saved) := by
  have hkeep : s.htm.depth ≠ 0 → keep s = s.saved := fun hd => if_neg hd
  have hflag := h.flag
  cases Traced.of_step hs with
  | call | returns | enter | answer | leave | lockOp | gone => exact .inr ⟨hd', rfl, hkeep hd'⟩
  | begins =>
    by_cases hd : s.htm.depth = 0
    · exact .inl ⟨hd, rfl, if_pos hd, if_pos hd⟩
    · exact .inr ⟨hd, if_neg hd, hkeep hd⟩
  | aborts hd =>
    obtain ⟨t, ht, -⟩ := h.saved hd
    simp [HtmState.rollback, ht] at hd'
  | ends hcode =>
    rw [hcode] at hflag
    exact hflag.elim

theorem BegunIn.step {tr : List (TracedState × HtmAct)} {s s' : TracedState} {a : HtmAct}
    (hb : BegunIn tr s) (h : EntryInv cfg ty s)
    (hs : (tracedThread cfg ty).step s a = some s') : BegunIn (tr ++ [(s, a)]) s' := by
  intro hd'
  cases begins_of_step h hs hd' with
  | inl hbegin =>
    obtain ⟨hd, rfl, hsaved, hhist⟩ := hbegin
    exact ⟨tr, s, [], rfl, hd, by simp, hsaved, hhist⟩
  | inr hin =>
    obtain ⟨hd, hsaved, hhist⟩ := hin
    obtain ⟨tr₁, b, tr₂, rfl, hb0, hall, hsaved', hhist'⟩ := hb hd
    refine ⟨tr₁, b, tr₂ ++ [(s, a)], by simp, hb0, fun p hp => ?_, hsaved.trans hsaved',
      hhist.trans hhist'⟩
    cases List.mem_append.mp hp with
    | inl hp => exact hall p hp
    | inr hp => exact List.mem_singleton.mp hp ▸ hd

/-! ## Main results -/

/-- The thread starts a call, or touches a lock or a queue node. -/
def Uses : HtmCode → Prop
  | .app | .call .. => True
  | .lockFun _ _ _ _ (.op lo _) => LockOp.touches lo = true
  | .lockFun .. => False

/-- After an abort the thread is at the outermost begin, at `b`, with the locks, tickets and
    queue nodes it had there, and the first thing it does is to clear the flag. -/
structure AbortedTo (b s : TracedState) : Prop where
  effects : effects s.hist = effects b.hist
  done : s.htm.thread.done = b.htm.thread.done
  code : ∃ c ops o k lk status, status ≠ xbeginStarted ∧
    b.htm.thread.code = .lockFun c ops o k (.op .xbegin lk) ∧
    s.htm.thread.code = .lockFun c ops o k (lk status) ∧ Clears (lk status)

/-- What the flag is for. -/
structure SpecTracked (cfg : TxConfig) (ty : LockType) (tr : List (TracedState × HtmAct))
    (s : TracedState) : Prop where
  flag : Uses s.htm.thread.code → (s.htm.thread.specEntry ≠ 0 ↔ s.htm.depth ≠ 0)
  /-- Outside a transaction no `tl_unlock` skips the release. -/
  unlock : ∀ r ∈ s.hist.past, ∀ m, r.op = .tlUnlock m → r.inside = false →
    ∃ e ∈ r.trace, Releases ty m e.1 e.2
  /-- Outside a transaction no `tl_lock` skips the acquisition. -/
  lock : ∀ r ∈ s.hist.past, ∀ m, r.op = .tlLock m → r.inside = false →
    ∃ e ∈ r.trace, Attempts ty m e.1 e.2
  /-- Inside a transaction no call touches a lock or a queue node. -/
  inside : ∀ r ∈ s.hist.calls, IsTl r.op → r.inside = true →
    ∀ e ∈ r.trace, ¬ LockOp.touches e.1 = true
  /-- An abort goes back to the outermost begin. -/
  abort : ∀ a s', (tracedThread cfg ty).step s a = some s' → s.htm.depth ≠ 0 →
    s'.htm.depth = 0 → ∃ tr₁ b tr₂, tr = tr₁ ++ (b, .htmBegin) :: tr₂ ∧ b.htm.depth = 0 ∧
      (∀ p ∈ tr₂, p.1.htm.depth ≠ 0) ∧ AbortedTo b s'

/-- The rest of a call that began with the test of the flag. -/
theorem PastOk.behind {r : LockCall} (h : PastOk cfg ty r) (hin : r.inside = false)
    {k : Int → LockProg Int} (hcode : lockCode cfg ty r.op = some (.op .specEntry k)) :
    ∃ rest x, r.trace = (.specEntry, 0) :: rest ∧ (k 0).Returns rest x := by
  obtain ⟨hreads, p, x, hp, hret⟩ := h
  rw [hcode, Option.some.injEq] at hp
  subst hp
  obtain ⟨v, rest, htrace, hret⟩ := returns_op.mp hret
  have hv : v = 0 := by
    by_contra hv
    have hinside := (hreads v rest htrace).mp hv
    simp [hin] at hinside
  exact ⟨rest, x, hv ▸ htrace, hv ▸ hret⟩

/-- A call in a transaction, whether it has returned or not. -/
theorem inside_untouched (hty : LockType.Prefetches ty) {r : LockCall} (hr : ReadsFlag r)
    {p q : LockProg Int} (hp : lockCode cfg ty r.op = some p) (hlead : p.Leads r.trace q)
    (htl : IsTl r.op) (hin : r.inside = true) {e : LockOp × Int} (he : e ∈ r.trace) :
    ¬ LockOp.touches e.1 = true := by
  obtain ⟨k, rfl, havoids⟩ := lockCode_inside hty htl hp
  cases htrace : r.trace with
  | nil => simp [htrace] at he
  | cons e' rest =>
    rw [htrace] at hlead he
    cases hlead with
    | cons hrest =>
      rename_i v
      have hv : v ≠ 0 := (hr v rest htrace).mpr hin
      cases List.mem_cons.mp he with
      | inl he =>
        subst he
        exact Bool.false_ne_true
      | inr he => exact (havoids v hv).not_mem hrest he

theorem EntryInv.specTracked {tr : List (TracedState × HtmAct)} {s : TracedState}
    (h : EntryInv cfg ty s) (hty : LockType.Prefetches ty) (hb : BegunIn tr s) :
    SpecTracked cfg ty tr s := by
  refine ⟨fun huses => ?_, fun r hr m hop hin => ?_, fun r hr m hop hin => ?_,
    fun r hr htl hin e he => ?_, fun a s' hs hd hd' => ?_⟩
  · -- where the flag is used it says whether a transaction is live
    have hflag := h.flag
    have hright : decide (s.htm.thread.specEntry ≠ 0) = decide (s.htm.depth ≠ 0) := by
      cases hcode : s.htm.thread.code with
      | app | call c ops p =>
        rw [hcode] at hflag
        exact hflag
      | lockFun c ops o k p =>
        rw [hcode] at hflag huses
        cases p with
        | ret | halt => exact huses.elim
        | op lo lk =>
          cases lo with
          | load => exact hflag.1
          | store | testAndSet | release | cas | fetchAndAdd | pthreadMutexLock
          | pthreadMutexTrylock | pthreadMutexUnlock | mallocNodes =>
            exact hflag.1.1.trans hflag.1.2.symm
          | _ => exact nomatch huses
    simpa using decide_eq_decide.mp hright
  · -- outside a transaction the flag reads 0, and behind that there is the release
    obtain ⟨k, hcode, hperf⟩ := @unlock_releases cfg ty m hty
    have hcode' : lockCode cfg ty r.op = some (.op .specEntry k) := by
      rw [hop]
      exact congrArg some hcode
    obtain ⟨rest, x, htrace, hret⟩ := (h.hist.past r hr).behind hin hcode'
    obtain ⟨e, he, hrel⟩ := (hperf.exists_mem hret).resolve_left id
    exact ⟨e, htrace ▸ List.mem_cons_of_mem _ he, hrel⟩
  · -- the same for the attempt of `lock`
    obtain ⟨k, hcode, hperf⟩ := @lock_attempts cfg ty m hty
    have hcode' : lockCode cfg ty r.op = some (.op .specEntry k) := by
      rw [hop]
      exact congrArg some hcode
    obtain ⟨rest, x, htrace, hret⟩ := (h.hist.past r hr).behind hin hcode'
    obtain ⟨e, he, hatt⟩ := (hperf.exists_mem hret).resolve_left id
    exact ⟨e, htrace ▸ List.mem_cons_of_mem _ he, hatt⟩
  · -- inside a transaction a call touches nothing, whether it is over or not
    cases List.mem_append.mp hr with
    | inl hr =>
      obtain ⟨hreads, p, x, hp, hret⟩ := h.hist.past r hr
      exact inside_untouched hty hreads hp hret htl hin he
    | inr hr =>
      have hnow := Option.mem_toList.mp hr
      have hcall := h.hist.now
      cases hcode : s.htm.thread.code with
      | app | call c ops p =>
        rw [hcode] at hcall
        exact nomatch hcall.symm.trans hnow
      | lockFun c ops o k p =>
        rw [hcode] at hcall
        obtain ⟨r', code, hr', rfl, hcode', hlead⟩ := hcall
        obtain rfl : r' = r := Option.some.inj (hr'.symm.trans hnow)
        exact inside_untouched hty (h.hist.head _ hr') hcode' hlead htl hin he
  · -- an abort is the only step that ends a transaction without its end
    obtain ⟨tr₁, b, tr₂, htr, hb0, hall, hsaved, hhist⟩ := hb hd
    refine ⟨tr₁, b, tr₂, htr, hb0, hall, ?_⟩
    obtain ⟨t, ht, hok, -⟩ := h.saved hd
    obtain rfl : t = b.htm.thread := Option.some.inj (ht.symm.trans hsaved)
    obtain ⟨c, ops, o, k, lk, hcode, hfailed⟩ := hok.begins
    have hflag := h.flag
    cases Traced.of_step hs with
    | call | returns | enter | answer | leave | lockOp | gone => exact absurd hd' hd
    | begins => exact absurd hd' (Nat.succ_ne_zero _)
    | ends hend =>
      rw [hend] at hflag
      exact hflag.elim
    | @aborts _ status _ hstatus =>
      have hroll : s.htm.rollback status = { s.htm with
          thread := b.htm.thread.resume status, depth := 0, saved := none } := by
        simp only [HtmState.rollback, hsaved]
      refine ⟨?_, ?_, c, ops, o, k, lk, status, hstatus, hcode, ?_, (hfailed status hstatus).1⟩
      · rw [hhist]
        exact effects_push_of_not_changes rfl
      · rw [hroll, resume_eq hcode]
      · rw [hroll, resume_eq hcode]

/-- In every run of a thread with a prefetching lock type, with nested begins and aborts at any
    point, `spec_entry` tracks the transactions. -/
theorem spec_entry_tracks (hty : LockType.Prefetches ty) (tr : List (TracedState × HtmAct))
    (s : TracedState) (h : (tracedThread cfg ty).Run System.Free tr s) :
    SpecTracked cfg ty tr s := by
  have hinv : EntryInv cfg ty s ∧ BegunIn tr s :=
    h.invariant_trace (I := fun tr s => EntryInv cfg ty s ∧ BegunIn tr s)
      (fun s hs => ⟨entryInv_init hs, fun hd => absurd (by rw [show s = {} from hs]) hd⟩)
      fun tr s a s' _ hi _ hs => ⟨hi.1.step hty hs, hi.2.step hi.1 hs⟩
  exact hinv.1.specTracked hty hinv.2

/-- With `tas_tm`: the mutex 32 is held, its lock begins a transaction, a wait in it a nested one,
    and a `tl_unlock` in both does nothing. After the abort the mutex is taken and released. -/
def nestedAbort : List HtmAct :=
  repeated [(.call (.lock 32), 1), (.run 0, 3), (.run 1, 1), (.run 0, 4), (.htmBegin, 1),
    (.run 0, 2), (.call (.cond (.wait 16 32)), 1), (.run 0, 19), (.htmBegin, 1), (.run 0, 2),
    (.call (.unlock 32), 1), (.run 0, 4), (.htmAbort 0, 1), (.run 0, 9), (.call (.unlock 32), 1),
    (.run 0, 7)]

theorem spec_entry_tracks_nested :
    ∃ tr s, (tracedThread {fuel := 2} .tasTm).Run System.Free tr s ∧
      s.hist.past.map (fun r => (r.op, r.inside)) = [(.tlLock 32, false), (.tlUnlock 32, false)] ∧
      SpecTracked {fuel := 2} .tasTm tr s := by
  have hpast : ((tracedThread {fuel := 2} .tasTm).exec {} nestedAbort).map
      (fun s => s.hist.past.map (fun r => (r.op, r.inside))) =
        some [(.tlLock 32, false), (.tlUnlock 32, false)] := by
    decide
  obtain ⟨s, hs, hcalls⟩ := Option.map_eq_some_iff.mp hpast
  have hrun := (System.Run.init (M := tracedThread {fuel := 2} .tasTm) rfl).exec hs
  exact ⟨_, s, hrun, hcalls, spec_entry_tracks (show LockType.Prefetches .tasTm from trivial) _ s hrun⟩

end TxLock.Spec
