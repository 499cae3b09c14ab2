import TxLock.Native.HtmThread

/-!
# What a call of `__pthread_cond_wait` has done

A completed wait has released its mutex once, entered itself in the counters once and
taken the mutex back, or it has passed on an error of `tl_unlock`, or it has returned
early, in the transaction it opened.

## Key results

- `pthreadCondWait_cases`: these three, for every run of the code
- `eq_ret_of_endsEarly`: after the early return a call does nothing more
- `enterHtm_started`: `enter_htm` returns 0 in a transaction only
- `lockCode_avoids_xend`: only the eliding lock ends transactions
-/

namespace TxLock.Spec

open TxLock.Native Prog

/-- The operations a wait has on its mutex, and those that count a new waiter. -/
def registers : CondOp → Bool
  | .tlLock _ | .tlTrylock _ | .tlUnlock _ => true
  | .add _ .totalSeq _ => true
  | .add _ .nwaiters v => v > 0
  | _ => false

/-- These operations of a run, in their order. -/
def footprint (ops : List (CondOp × Int)) : List CondOp := (ops.map Prod.fst).filter registers

/-- The last operation was `enter_htm`, and it returned 0. -/
def endsEarly (ops : List (CondOp × Int)) : Bool :=
  match ops.getLast? with
  | some (.enterHtm _, v) => v = 0
  | _ => false

/-- A wait that has come back with its mutex: one unlock, one entry in `total_seq` and one
    in `nwaiters`, and at last one `tl_lock`, whose value is the value of the wait. -/
structure Waited (cond mutex : Addr) (ops : List (CondOp × Int)) (value : Int) : Prop where
  footprint : footprint ops =
    [.tlUnlock mutex, .add cond .totalSeq 1, .add cond .nwaiters 2, .tlLock mutex]
  last : ops.getLast? = some (.tlLock mutex, value)

/-- A wait that has passed on an error of `tl_unlock` and is not counted. -/
structure UnlockFailed (mutex : Addr) (ops : List (CondOp × Int)) (value : Int) : Prop where
  footprint : footprint ops = [.tlUnlock mutex]
  error : (.tlUnlock mutex, value) ∈ ops ∧ value ≠ 0

/-- What a wait promises its caller. -/
def WaitOk (r : CallRecord) : Prop :=
  match r.call with
  | .cond (.wait cond mutex) => Waited cond mutex r.ops r.value ∨ UnlockFailed mutex r.ops r.value
  | _ => True

/-- The call has returned in the transaction it opened. -/
def Early (r : CallRecord) : Prop := endsEarly r.ops = true

instance : DecidablePred Early := fun r => inferInstanceAs (Decidable (endsEarly r.ops = true))

@[simp] theorem footprint_nil : footprint [] = [] := rfl

@[simp] theorem footprint_cons {o : CondOp} {v : Int} {ops : List (CondOp × Int)} :
    footprint ((o, v) :: ops) = if registers o then o :: footprint ops else footprint ops := by
  simp only [footprint, List.map_cons, List.filter_cons]

@[simp] theorem footprint_append {ops ops' : List (CondOp × Int)} :
    footprint (ops ++ ops') = footprint ops ++ footprint ops' := by
  simp only [footprint, List.map_append, List.filter_append]

@[simp] theorem endsEarly_concat {ops : List (CondOp × Int)} {o : CondOp} {v : Int} :
    endsEarly (ops ++ [(o, v)]) = true ↔ (∃ p, o = .enterHtm p) ∧ v = 0 := by
  rw [endsEarly, List.getLast?_concat]
  cases o <;> simp

theorem footprint_of_avoids {α : Type} {p q : CondProg α} {ops : List (CondOp × Int)}
    (hp : p.Avoids (registers · = true)) (h : p.Leads ops q) : footprint ops = [] := by
  rw [footprint, List.filter_eq_nil_iff]
  intro o ho
  obtain ⟨e, he, rfl⟩ := List.mem_map.mp ho
  exact hp.not_mem h he

/-! ## The three ways a wait returns -/

section

variable {cfg : TxConfig} {cond mutex : Addr}

theorem condLeave_footprint : (condLeave cond).Avoids (registers · = true) := by
  simp [condLeave, registers]

theorem condSleep_footprint {seq bcSeq futexVal : Int} {tries : Word} :
    (condSleep cond seq bcSeq futexVal tries).Avoids (registers · = true) := by
  simp [condSleep, registers]

theorem condSpeculate_footprint {tries : Word} {futexVal : Int} :
    (condSpeculate cfg cond tries futexVal).Avoids (registers · = true) := by
  simp [condSpeculate, registers]

theorem condWaitBody_footprint {seq bcSeq : Int} {tries : Word} :
    (condWaitBody cfg cond seq bcSeq tries).Avoids (registers · = true) := by
  simp only [condWaitBody, bind_eq, perform_bind, emit_bind, avoids_op, avoids_bind]
  refine ⟨by simp [registers], fun futexVal => ⟨by simp [registers], fun _ =>
    ⟨condSpeculate_footprint, fun x _ => ?_⟩⟩⟩
  cases x with
  | none => exact condSleep_footprint
  | some e =>
    by_cases he : e = 0
    · simp [he]
    · simp only [he, if_false]
      exact condSleep_footprint

theorem condRegister_footprint {ops : List (CondOp × Int)} {u : Unit}
    (h : (condRegister cond mutex).Returns ops u) :
    footprint ops = [.add cond .totalSeq 1, .add cond .nwaiters 2] := by
  simp only [condRegister, bind_eq, emit_bind, perform_bind, returns_op, returns_ite] at h
  obtain ⟨_, _, rfl, _, _, rfl, _, _, rfl, shared, ops, rfl, h⟩ := h
  split at h
  · simp only [emit, returns_op, returns_ret] at h
    obtain ⟨_, _, rfl, rfl, -⟩ := h
    simp [registers]
  · obtain ⟨rfl, -⟩ := returns_ret.mp h
    simp [registers]

theorem condSpeculate_some {tries : Word} {futexVal e : Int} {ops : List (CondOp × Int)}
    (h : (condSpeculate cfg cond tries futexVal).Returns ops (some e)) :
    ∃ ops', ops = ops' ++ [(.enterHtm cond, e)] := by
  simp only [condSpeculate, bind_eq, perform_bind, pure_eq, returns_ite, returns_op, returns_ret,
    Option.some.injEq, reduceCtorEq, and_false, if_false_right] at h
  obtain ⟨-, futex, _, rfl, -, e, _, rfl, rfl, rfl⟩ := h
  exact ⟨[_], rfl⟩

theorem condSleep_ne_speculative {seq bcSeq futexVal : Int} {tries : Word}
    {ops : List (CondOp × Int)} :
    ¬ (condSleep cond seq bcSeq futexVal tries).Returns ops (.inr .speculative) := by
  intro h
  simp [condSleep] at h

/-- A round that ends the loop with a speculative return has just begun a transaction. -/
theorem condWaitBody_speculative {seq bcSeq : Int} {tries : Word} {ops : List (CondOp × Int)}
    (h : (condWaitBody cfg cond seq bcSeq tries).Returns ops (.inr .speculative)) :
    ∃ ops', ops = ops' ++ [(.enterHtm cond, 0)] := by
  simp only [condWaitBody, bind_eq, perform_bind, emit_bind, returns_op] at h
  obtain ⟨futexVal, _, rfl, u, _, rfl, h₁⟩ := h
  obtain ⟨ops₁, ops₂, x, rfl, hspec, h₂⟩ := returns_bind.mp h₁
  cases x with
  | none => exact absurd h₂ condSleep_ne_speculative
  | some e =>
    by_cases he : e = 0
    · simp only [he, if_true, pure_eq, returns_ret] at h₂
      obtain ⟨ops', rfl⟩ := condSpeculate_some hspec
      exact ⟨(.load cond .futex, futexVal) :: (.lllUnlock cond, u) :: ops', by simp [he, h₂.1]⟩
    · simp only [he, if_false] at h₂
      exact absurd h₂ condSleep_ne_speculative

/-- The end of a wait that was woken, or found a broadcast. -/
theorem condWaitEnd_footprint {e : WaitEnd} (he : e ≠ .speculative) {ops : List (CondOp × Int)}
    {v : Int} (h : (condWaitEnd cond mutex e).Returns ops v) :
    footprint ops = [.tlLock mutex] ∧ ∃ ops', ops = ops' ++ [(.tlLock mutex, v)] := by
  have hrest : ∀ ops, ((condLeave cond).bind fun _ => perform (.tlLock mutex)).Returns ops v →
      footprint ops = [.tlLock mutex] ∧ ∃ ops', ops = ops' ++ [(.tlLock mutex, v)] := by
    intro ops h
    obtain ⟨ops₁, _, _, rfl, hleave, h₁⟩ := returns_bind.mp h
    simp only [perform, returns_op, returns_ret] at h₁
    obtain ⟨v, _, rfl, rfl, rfl⟩ := h₁
    have hleave := footprint_of_avoids condLeave_footprint hleave
    exact ⟨by simp [hleave, registers], ops₁, rfl⟩
  cases e with
  | speculative => exact absurd rfl he
  | broadcast => exact hrest ops h
  | woken =>
    simp only [condWaitEnd, bind_eq, emit_bind, returns_op] at h
    obtain ⟨_, ops, rfl, h⟩ := h
    obtain ⟨hfoot, ops', rfl⟩ := hrest ops h
    exact ⟨by simp [hfoot, registers], _ :: ops', rfl⟩

/-- A call of `__pthread_cond_wait` has waited, has failed to unlock, or has returned early
    in its transaction. -/
theorem pthreadCondWait_cases {ops : List (CondOp × Int)} {v : Int}
    (h : (pthreadCondWait cfg cond mutex).Returns ops v) :
    Waited cond mutex ops v ∨ UnlockFailed mutex ops v ∨ endsEarly ops = true ∧ v = 0 := by
  simp only [pthreadCondWait, bind_eq, emit_bind, perform_bind, returns_op, returns_ite] at h
  obtain ⟨u, _, rfl, err, ops, rfl, h⟩ := h
  split at h
  · rename_i herr
    simp only [pure_eq, returns_ret] at h
    obtain ⟨_, _, rfl, rfl, rfl⟩ := h
    exact .inr (.inl ⟨by simp [registers], by simp, herr⟩)
  · simp only [condWaitReleased, bind_eq, perform_bind] at h
    obtain ⟨ops₁, _, _, rfl, hregister, h₁⟩ := returns_bind.mp h
    simp only [returns_op] at h₁
    obtain ⟨seq, _, rfl, bcSeq, _, rfl, h₂⟩ := h₁
    obtain ⟨ops₂, ops₃, e, rfl, hloop, hend⟩ := returns_bind.mp h₂
    have hregister := condRegister_footprint hregister
    by_cases he : e = .speculative
    · subst he
      simp only [condWaitEnd, pure_eq, returns_ret] at hend
      obtain ⟨tr₁, tr₂, _, rfl, hlast, -⟩ := returns_loop hloop
      obtain ⟨ops', rfl⟩ := condWaitBody_speculative hlast
      refine .inr (.inr ⟨?_, hend.2⟩)
      rw [hend.1, List.append_nil]
      simp only [← List.append_assoc, ← List.cons_append, endsEarly_concat, exists_eq', and_self,
        CondOp.enterHtm.injEq]
    · obtain ⟨hfoot, ops', hops⟩ := condWaitEnd_footprint he hend
      have hloop := footprint_of_avoids (Avoids.loop (fun _ => condWaitBody_footprint) _ _) hloop
      refine .inl ⟨?_, ?_⟩
      · simp [hregister, hloop, hfoot, registers]
      · rw [hops]
        simp only [← List.append_assoc, ← List.cons_append, List.getLast?_concat]

/-! ## After the early return -/

/-- `enter_htm` has returned 0. -/
def EntersHtm (o : CondOp) (v : Int) : Prop := (∃ p, o = .enterHtm p) ∧ v = 0

theorem exists_of_endsEarly {ops : List (CondOp × Int)} (h : endsEarly ops = true) :
    ∃ ops' o v, ops = ops' ++ [(o, v)] ∧ EntersHtm o v := by
  cases ops using List.reverseRecOn with
  | nil => simp [endsEarly] at h
  | append_singleton ops e => exact ⟨ops, e.1, e.2, rfl, endsEarly_concat.mp h⟩

/-- A program that does not call `enter_htm`. -/
theorem finishes_of_avoids {α : Type} {Q : α → Prop} {p : CondProg α}
    (h : p.Avoids fun o => ∃ p, o = .enterHtm p) : p.Finishes EntersHtm Q := by
  apply Finishes.of_avoids
  simpa only [EntersHtm, exists_and_left, exists_eq, and_true] using h

theorem condSpeculate_finishes {tries : Word} {futexVal : Int} :
    (condSpeculate cfg cond tries futexVal).Finishes EntersHtm (· = some 0) := by
  simp only [condSpeculate, bind_eq, perform_bind, pure_eq]
  split
  · apply Finishes.of_op (by simp [EntersHtm])
    intro futex
    split
    · rintro e
      exact ⟨fun he => ⟨_, rfl, by rw [he.2]⟩, trivial⟩
    · trivial
  · trivial

theorem condSleep_finishes {seq bcSeq futexVal : Int} {tries : Word} {Q : Word ⊕ WaitEnd → Prop} :
    (condSleep cond seq bcSeq futexVal tries).Finishes EntersHtm Q :=
  finishes_of_avoids (by simp [condSleep])

theorem condWaitBody_finishes {seq bcSeq : Int} {tries : Word} :
    (condWaitBody cfg cond seq bcSeq tries).Finishes EntersHtm
      (Sum.elim (fun _ => False) (· = .speculative)) := by
  simp only [condWaitBody, bind_eq, perform_bind, emit_bind, pure_eq]
  apply Finishes.of_op (by simp [EntersHtm])
  intro futexVal
  apply Finishes.of_op (by simp [EntersHtm])
  intro _
  apply condSpeculate_finishes.bind
  · rintro _ rfl
    exact ⟨_, rfl, rfl⟩
  · intro x
    cases x with
    | none => exact condSleep_finishes
    | some e =>
      by_cases he : e = 0
      · simp only [he, if_true]
        trivial
      · simp only [he, if_false]
        exact condSleep_finishes

theorem condWaitReleased_finishes :
    (condWaitReleased cfg cond mutex).Finishes EntersHtm (· = 0) := by
  simp only [condWaitReleased, bind_eq, perform_bind]
  -- neither the registration nor the end of a woken wait enters a transaction
  apply Finishes.bind (Q := fun _ => False) (finishes_of_avoids (by simp [condRegister]))
    (by simp)
  intro _
  apply Finishes.of_op (by simp [EntersHtm])
  intro seq
  apply Finishes.of_op (by simp [EntersHtm])
  intro bcSeq
  apply (Finishes.loop (fun _ => condWaitBody_finishes) _ _).bind
  · rintro _ rfl
    exact ⟨0, rfl, rfl⟩
  · intro e
    apply finishes_of_avoids
    cases e <;> simp [condWaitEnd, condLeave]

theorem pthreadCondTimedwait_avoids_enterHtm {abstime : Timespec} :
    (pthreadCondTimedwait cfg cond mutex abstime).Avoids fun o => ∃ p, o = .enterHtm p := by
  have hloop : ∀ seq bcSeq, (loop (fun _ => condTimedBody cond abstime seq bcSeq) cfg.fuel ()).Avoids
      fun o => ∃ p, o = .enterHtm p := fun seq bcSeq =>
    .loop (fun _ => by simp [condTimedBody]) _ _
  have hcounters : ∀ e, (condTimedCounters cond e).Avoids fun o => ∃ p, o = .enterHtm p := by
    intro e
    cases e <;> simp [condTimedCounters]
  simp [pthreadCondTimedwait, condTimedReleased, condRegister, condLeave, hloop, hcounters]

/-- Only a wait without a deadline enters a transaction of its own. -/
theorem prog_avoids_enterHtm {c : ThreadCall} (hc : ∀ cond mutex, c ≠ .cond (.wait cond mutex)) :
    (c.prog cfg).Avoids fun o => ∃ p, o = .enterHtm p := by
  cases c with
  | lock | trylock | unlock => simp [ThreadCall.prog]
  | cond c =>
    cases c with
    | wait cv lk => exact absurd rfl (hc cv lk)
    | timedwait cv lk ts => exact pthreadCondTimedwait_avoids_enterHtm
    | signal cv => simp [ThreadCall.prog, CondCall.pthreadCond, pthreadCondSignal]
    | broadcast cv => simp [ThreadCall.prog, CondCall.pthreadCond, pthreadCondBroadcast]

theorem pthreadCondWait_finishes :
    (pthreadCondWait cfg cond mutex).Finishes EntersHtm (· = 0) := by
  simp only [pthreadCondWait, bind_eq, emit_bind, perform_bind]
  apply Finishes.of_op (by simp [EntersHtm])
  intro _
  apply Finishes.of_op (by simp [EntersHtm])
  intro err
  split
  · exact finishes_of_avoids (by simp)
  · exact condWaitReleased_finishes

/-- After an early return a call does nothing more than return 0. -/
theorem eq_ret_of_endsEarly {c : ThreadCall} {ops : List (CondOp × Int)} {q : CondProg Int}
    (h : (c.prog cfg).Leads ops q) (hearly : endsEarly ops = true) : q = ret 0 := by
  have hfinishes : (c.prog cfg).Finishes EntersHtm (· = 0) := by
    by_cases hc : ∃ cond mutex, c = .cond (.wait cond mutex)
    · obtain ⟨cond, mutex, rfl⟩ := hc
      exact pthreadCondWait_finishes
    · exact finishes_of_avoids (prog_avoids_enterHtm fun cond mutex he => hc ⟨cond, mutex, he⟩)
  obtain ⟨ops', o', v, rfl, hP⟩ := exists_of_endsEarly hearly
  obtain ⟨x, hx, rfl⟩ := hfinishes.of_leads h hP
  exact hx

/-- A record is right when the call has not returned early. -/
theorem waitOk_iff {r : CallRecord} (h : (r.call.prog cfg).Returns r.ops r.value) :
    WaitOk r ↔ ¬ Early r := by
  by_cases hc : ∃ cond mutex, r.call = .cond (.wait cond mutex)
  · obtain ⟨cond, mutex, hc⟩ := hc
    have hok : WaitOk r ↔
        Waited cond mutex r.ops r.value ∨ UnlockFailed mutex r.ops r.value := by
      simp only [WaitOk, hc]
    rw [hok]
    constructor
    · rintro (hw | hf) hearly
      · obtain ⟨ops, o, v, hops, ⟨p, rfl⟩, -⟩ := exists_of_endsEarly hearly
        simpa [hops] using hw.last
      · exact hf.error.2 (by simpa using eq_ret_of_endsEarly h hearly)
    · intro hnot
      rw [hc] at h
      rcases pthreadCondWait_cases h with hw | hf | he
      · exact .inl hw
      · exact .inr hf
      · exact absurd he.1 hnot
  · have hok : WaitOk r := by
      unfold WaitOk
      split
      · exact absurd ⟨_, _, ‹_›⟩ hc
      · trivial
    refine iff_of_true hok fun hearly => ?_
    obtain ⟨ops, o, v, hops, hp, -⟩ := exists_of_endsEarly hearly
    have havoids : (r.call.prog cfg).Avoids fun o => ∃ p, o = .enterHtm p :=
      prog_avoids_enterHtm fun cond mutex he => hc ⟨cond, mutex, he⟩
    exact havoids.not_mem h (e := (o, v)) (by simp [hops]) hp

/-! ## The code of the lock functions -/

/-- `enter_htm` returns 0 only where its begin has started a transaction. -/
def Started (p : LockProg Int) : Prop :=
  p.wp (fun o v => ¬ (o = .xbegin ∧ v = xbeginStarted)) (· ≠ 0)

theorem enterHtm_started (primitive : Addr) : Started (enterHtm primitive) := by
  simp [Started, enterHtm, tmStatsAdd, tmStatsSubRdtsc, tmStatsAddRdtsc, abortStats]

theorem enterHtm_avoids (primitive : Addr) : (enterHtm primitive).Avoids (· = .xend) := by
  simp [enterHtm, tmStatsAdd, tmStatsSubRdtsc, tmStatsAddRdtsc, abortStats]

/-- The transaction instructions and the writes of `spec_entry`. -/
def TxOp : LockOp → Prop
  | .xbegin | .xend | .xabort _ | .setSpecEntry _ => True
  | _ => False

/-- The code begins and ends no transaction and leaves `spec_entry` alone. -/
abbrev NoTx {α : Type} (p : LockProg α) : Prop := p.Avoids TxOp

theorem noTx_avoids {α : Type} {p : LockProg α} (h : NoTx p) : p.Avoids (· = .xend) :=
  h.mono fun _ ho => ho ▸ trivial

theorem tatas_noTx (x : Loc) (v : Int) : NoTx (tatas x v) := by
  simp [tatas, load, TxOp]

theorem tatasLoop_noTx (x : Loc) : NoTx (tatasLoop cfg x) :=
  .loop (fun _ => by simp [tatas_noTx]) _ _

theorem assert_noTx (c : Bool) : NoTx (assert c) := by
  simp [assert, TxOp]

theorem spinWhile_noTx (x : Loc) (c : Int → Bool) : NoTx (spinWhile cfg x c) :=
  .loop (fun _ => by simp [load, TxOp]) _ _

theorem findNode_noTx (lk n : Addr) : NoTx (findNode cfg lk n) :=
  .loop (fun _ => by simp [load, assert_noTx, TxOp]) _ _

theorem haltSpeculators_noTx (n : Addr) : NoTx (haltSpeculators cfg n) :=
  .loop (fun _ => by simp [load, store, TxOp]) _ _

theorem allocMoreNodes_noTx : NoTx allocMoreNodes := by
  have hinit : ∀ nodes : Addr,
      NoTx (forM (List.range 8) fun (i : Nat) => initNode (nodes + mcsNodeSize * i)) :=
    fun nodes => .forM (fun i => by simp [initNode, store, TxOp]) _
  simp [allocMoreNodes, store, assert_noTx, hinit, TxOp]

theorem getFreeNode_noTx : NoTx getFreeNode := by
  simp [getFreeNode, load, allocMoreNodes_noTx, assert_noTx, TxOp]

theorem useNode_noTx (mine : Addr) : NoTx (useNode mine) := by
  simp [useNode, load, store, TxOp]

theorem mcsUnlockCommon_noTx (lk : Addr) (tm : Bool) : NoTx (mcsUnlockCommon cfg lk tm) := by
  simp [mcsUnlockCommon, mcsHandover, deallocNode, load, store, findNode_noTx,
    haltSpeculators_noTx, spinWhile_noTx, assert_noTx, TxOp]

theorem tatas_avoids (x : Loc) (v : Int) : (tatas x v).Avoids (· = .xend) :=
  noTx_avoids (tatas_noTx x v)

theorem tatasLoop_avoids (x : Loc) : (tatasLoop cfg x).Avoids (· = .xend) :=
  noTx_avoids (tatasLoop_noTx x)

theorem assert_avoids (c : Bool) : (assert c).Avoids (· = .xend) := noTx_avoids (assert_noTx c)

theorem spinWhile_avoids (x : Loc) (c : Int → Bool) : (spinWhile cfg x c).Avoids (· = .xend) :=
  noTx_avoids (spinWhile_noTx x c)

theorem tasLockTmLoop_avoids (l : Addr) : (tasLockTmLoop cfg l).Avoids (· = .xend) :=
  .loop (fun _ => by simp [tatas_avoids, enterHtm_avoids, tatasLoop_avoids]) _ _

theorem tasPriorityLockTmLoop_avoids (l : Addr) :
    (tasPriorityLockTmLoop cfg l).Avoids (· = .xend) :=
  .loop (fun _ => by simp [load, tatas_avoids, enterHtm_avoids, tatasLoop_avoids]) _ _

theorem ticketLockLoop_avoids (l : Addr) (t : Int) :
    (ticketLockLoop cfg l t).Avoids (· = .xend) :=
  .loop (fun _ => by simp [load]) _ _

theorem ticketLockTmLoop_avoids (l : Addr) (t : Int) :
    (ticketLockTmLoop cfg l t).Avoids (· = .xend) :=
  .loop (fun _ => by simp [load, enterHtm_avoids]) _ _

theorem pthreadLockTmLoop_avoids (l : Addr) : (pthreadLockTmLoop cfg l).Avoids (· = .xend) :=
  .loop (fun _ => by simp [enterHtm_avoids]) _ _

theorem mcsQueued_avoids (lk : Addr) (tm : Bool) (mine pred : Addr) :
    (mcsQueued cfg lk tm mine pred).Avoids (· = .xend) := by
  simp [mcsQueued, mcsWaitTm, load, store, noTx_avoids (useNode_noTx _), spinWhile_avoids,
    assert_avoids]

theorem mcsLockCommon_avoids (lk : Addr) (tryLock tm : Bool) :
    (mcsLockCommon cfg lk tryLock tm).Avoids (· = .xend) := by
  simp [mcsLockCommon, store, mcsQueued_avoids, noTx_avoids getFreeNode_noTx]

theorem mcsUnlockCommon_avoids (lk : Addr) (tm : Bool) :
    (mcsUnlockCommon cfg lk tm).Avoids (· = .xend) := noTx_avoids (mcsUnlockCommon_noTx lk tm)

/-- Only the eliding lock ends transactions. -/
theorem lockCode_avoids_xend {ty : LockType} (hty : ty ≠ .tasHle) {o : CondOp} {p : LockProg Int}
    (h : lockCode cfg ty o = some p) : p.Avoids (· = .xend) := by
  have hfuns : ∀ l, ((lockTypes cfg ty).lockFun l).Avoids (· = .xend) ∧
      ((lockTypes cfg ty).trylockFun l).Avoids (· = .xend) ∧
      ((lockTypes cfg ty).unlockFun l).Avoids (· = .xend) := by
    intro l
    cases ty with
    | tasHle => exact absurd rfl hty
    | pthread => simp [lockTypes, pthreadLock, pthreadTrylock, pthreadUnlock, tmStatsAdd,
        tmStatsSubRdtsc, tmStatsAddRdtsc]
    | pthreadTm => simp [lockTypes, pthreadLockTm, pthreadTrylockTm, pthreadUnlockTm, tmStatsAdd,
        tmStatsSubRdtsc, tmStatsAddRdtsc, pthreadLockTmLoop_avoids]
    | tas => simp [lockTypes, tasLock, tasTrylock, tasUnlock, tmStatsAdd, tmStatsSubRdtsc,
        tmStatsAddRdtsc, tatas_avoids, tatasLoop_avoids]
    | tasTm => simp [lockTypes, tasLockTm, tasTrylockTm, tasUnlockTm, tmStatsAdd, tmStatsSubRdtsc,
        tmStatsAddRdtsc, tatas_avoids, tasLockTmLoop_avoids]
    | tasPriorityTm => simp [lockTypes, tasPriorityLockTm, tasPriorityTrylockTm,
        tasPriorityUnlockTm, load, tmStatsAdd, tmStatsSubRdtsc, tmStatsAddRdtsc, tatas_avoids,
        tasPriorityLockTmLoop_avoids]
    | ticket => simp [lockTypes, ticketLock, ticketTrylock, ticketUnlock, load, store, tmStatsAdd,
        tmStatsSubRdtsc, tmStatsAddRdtsc, ticketLockLoop_avoids]
    | ticketTm => simp [lockTypes, ticketLockTm, ticketTrylockTm, ticketTrylock, ticketUnlockTm,
        load, store, tmStatsAdd, tmStatsSubRdtsc, tmStatsAddRdtsc, ticketLockTmLoop_avoids]
    | mcs => simp [lockTypes, mcsLock, mcsTrylock, mcsUnlock, mcsLockCommon_avoids,
        mcsUnlockCommon_avoids]
    | mcsTm => simp [lockTypes, mcsLockTm, mcsTrylockTm, mcsUnlockTm, mcsLockCommon_avoids,
        mcsUnlockCommon_avoids]
  cases o with
  | tlLock m => obtain rfl := Option.some.inj h; exact (hfuns m).1
  | tlTrylock m => obtain rfl := Option.some.inj h; exact (hfuns m).2.1
  | tlUnlock m => obtain rfl := Option.some.inj h; exact (hfuns m).2.2
  | enterHtm p => obtain rfl := Option.some.inj h; exact enterHtm_avoids p
  | _ => exact nomatch h

end

end TxLock.Spec
