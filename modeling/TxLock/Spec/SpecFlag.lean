import TxLock.Native.HtmTrace
import TxLock.Spec.WaitRecord

/-!
# The flag `spec_entry` in the code of the lock functions

What the code of a prefetching lock does to `spec_entry` and to transactions, and when it
touches the locks: `Tracks Q p w d` follows a program `p` that starts with the flag set or
clear (`w`) in or outside a transaction (`d`).

## Key results

- `Tracks.bind`, `Tracks.loop`: following a sequence and a loop
- `lockCode_tracks`: a lock function that starts with the flag right returns with it right, and
  touches locks and queue nodes only while it is
- `lockCode_inside`: called in a transaction it touches nothing
- `unlock_releases`, `lock_attempts`: called outside it runs the code behind the test
-/

namespace TxLock.Spec

open TxLock.Native Prog

/-- Writes to lock words, queue nodes and node lists, and calls of libpthread. -/
def LockOp.changes : LockOp → Bool
  | .store .. | .testAndSet .. | .release _ | .cas .. | .fetchAndAdd .. | .pthreadMutexLock _
  | .pthreadMutexTrylock _ | .pthreadMutexUnlock _ | .mallocNodes => true
  | _ => false

/-- These, and reads. -/
def LockOp.touches : LockOp → Bool
  | .load _ => true
  | o => LockOp.changes o

/-- The types that keep a transaction to prefetch and never commit it. -/
def LockType.Prefetches : LockType → Prop
  | .tasTm | .tasPriorityTm | .ticketTm | .mcsTm | .pthreadTm => True
  | .tas | .tasHle | .ticket | .mcs | .pthread => False

instance : DecidablePred LockType.Prefetches := fun ty => by
  unfold LockType.Prefetches
  split <;> infer_instance

section Programs

variable {α β σ : Type}

/-- The code clears `spec_entry` after nothing but entries in the statistics. -/
def Clears : LockProg α → Prop
  | .op (.setSpecEntry v) _ => v = 0
  | .op (.statsAdd ..) k | .op .rdtscMacro k | .op .rdtsc k => ∀ v, Clears (k v)
  | _ => False

/-- The program returns as `Q` says, begins a transaction with the flag set, clears the flag
    when the begin has failed, ends no transaction, and touches the locks only while the flag
    is set in a transaction and clear outside. In a transaction it changes nothing. -/
def Tracks (Q : α → Bool → Bool → Prop) : LockProg α → Bool → Bool → Prop
  | .ret x, w, d => Q x w d
  | .halt, _, _ => True
  | .op o k, w, d =>
    match o with
    | .xbegin =>
      w = true ∧ Tracks Q (k xbeginStarted) true true ∧
        (d = false → ∀ st, st ≠ xbeginStarted → Clears (k st) ∧ Tracks Q (k st) true false)
    | .setSpecEntry v => ∀ r, Tracks Q (k r) (decide (v ≠ 0)) d
    | .specEntry => ∀ v, decide (v ≠ 0) = w → Tracks Q (k v) w d
    | .xend => False
    -- in a transaction it does not return
    | .xabort _ => d = false → ∀ r, Tracks Q (k r) w d
    | .assertFail => True
    | .xtest | .statsAdd .. | .rdtscMacro | .rdtsc => ∀ v, Tracks Q (k v) w d
    | .load _ => w = d ∧ ∀ v, Tracks Q (k v) w d
    | .store .. | .testAndSet .. | .release _ | .cas .. | .fetchAndAdd .. | .pthreadMutexLock _
    | .pthreadMutexTrylock _ | .pthreadMutexUnlock _ | .mallocNodes =>
      (w = false ∧ d = false) ∧ ∀ v, Tracks Q (k v) w d

/-- How a round of a loop ends: outside with the flag clear, or as the loop does. -/
def AfterRound (R : β → Bool → Bool → Prop) : σ ⊕ β → Bool → Bool → Prop
  | .inl _, w, d => w = false ∧ d = false
  | .inr x, w, d => R x w d

theorem Clears.bind {p : LockProg α} (h : Clears p) (f : α → LockProg β) :
    Clears (p.bind f) := by
  induction p with
  | ret | halt => exact h.elim
  | op o k ih =>
    cases o with
    | setSpecEntry v => exact h
    | statsAdd | rdtscMacro | rdtsc => exact fun v => ih v (h v)
    | _ => exact h.elim

namespace Tracks

variable {Q : α → Bool → Bool → Prop} {w d : Bool}

theorem bind {R : β → Bool → Bool → Prop} {p : LockProg α} {f : α → LockProg β}
    (h : Tracks (fun x => Tracks R (f x)) p w d) : Tracks R (p.bind f) w d := by
  induction p generalizing w d with
  | ret x => exact h
  | halt => trivial
  | op o k ih =>
    cases o with
    | xbegin =>
      obtain ⟨hw, hstarted, hfailed⟩ := h
      refine ⟨hw, ih _ hstarted, fun hd st hst => ?_⟩
      exact ⟨(hfailed hd st hst).1.bind f, ih _ (hfailed hd st hst).2⟩
    | setSpecEntry v => exact fun r => ih _ (h r)
    | specEntry => exact fun v hv => ih _ (h v hv)
    | xend => exact h.elim
    | xabort c => exact fun hd r => ih _ (h hd r)
    | assertFail => trivial
    | xtest | statsAdd | rdtscMacro | rdtsc => exact fun v => ih _ (h v)
    | load => exact ⟨h.1, fun v => ih _ (h.2 v)⟩
    | store | testAndSet | release | cas | fetchAndAdd | pthreadMutexLock | pthreadMutexTrylock
    | pthreadMutexUnlock | mallocNodes => exact ⟨h.1, fun v => ih _ (h.2 v)⟩

theorem mono {R : α → Bool → Bool → Prop} (hQR : ∀ x w d, Q x w d → R x w d) {p : LockProg α}
    (h : Tracks Q p w d) : Tracks R p w d := by
  induction p generalizing w d with
  | ret x => exact hQR _ _ _ h
  | halt => trivial
  | op o k ih =>
    cases o with
    | xbegin =>
      obtain ⟨hw, hstarted, hfailed⟩ := h
      refine ⟨hw, ih _ hstarted, fun hd st hst => ?_⟩
      exact ⟨(hfailed hd st hst).1, ih _ (hfailed hd st hst).2⟩
    | setSpecEntry v => exact fun r => ih _ (h r)
    | specEntry => exact fun v hv => ih _ (h v hv)
    | xend => exact h.elim
    | xabort c => exact fun hd r => ih _ (h hd r)
    | assertFail => trivial
    | xtest | statsAdd | rdtscMacro | rdtsc => exact fun v => ih _ (h v)
    | load => exact ⟨h.1, fun v => ih _ (h.2 v)⟩
    | store | testAndSet | release | cas | fetchAndAdd | pthreadMutexLock | pthreadMutexTrylock
    | pthreadMutexUnlock | mallocNodes => exact ⟨h.1, fun v => ih _ (h.2 v)⟩

/-- Outside a transaction, with the flag clear, code that begins none keeps it so. -/
theorem of_noTx {p : LockProg α} (hp : NoTx p) (hQ : ∀ x, Q x false false) :
    Tracks Q p false false := by
  induction p with
  | ret x => exact hQ x
  | halt => trivial
  | op o k ih =>
    have hk : ∀ v, Tracks Q (k v) false false := fun v => ih v (hp.2 v)
    cases o with
    | xbegin | setSpecEntry | xend | xabort => exact absurd trivial hp.1
    | specEntry => exact fun v _ => hk v
    | assertFail => trivial
    | xtest | statsAdd | rdtscMacro | rdtsc => exact hk
    | load => exact ⟨rfl, hk⟩
    | store | testAndSet | release | cas | fetchAndAdd | pthreadMutexLock | pthreadMutexTrylock
    | pthreadMutexUnlock | mallocNodes => exact ⟨⟨rfl, rfl⟩, hk⟩

/-- A loop that begins every round outside a transaction with the flag clear. -/
theorem loop {R : β → Bool → Bool → Prop} {body : σ → LockProg (σ ⊕ β)}
    (hbody : ∀ s, Tracks (AfterRound R) (body s) false false) (fuel : Nat) (s : σ) :
    Tracks R (Prog.loop body fuel s) false false := by
  induction fuel generalizing s with
  | zero => trivial
  | succ fuel ih =>
    refine bind ((hbody s).mono fun r w d hr => ?_)
    cases r with
    | inl s' =>
      obtain ⟨rfl, rfl⟩ := hr
      exact ih s'
    | inr x => exact hr

end Tracks

end Programs

/-! ## The lock functions -/

section

variable {cfg : TxConfig} {ty : LockType} {l : Addr}

/-- The flag tells whether a transaction is active. -/
def FlagRight {α : Type} (_ : α) (w d : Bool) : Prop := w = d

theorem enterHtm_tracks (hl : l ≠ 0) {Q : Int → Bool → Bool → Prop} {w d : Bool}
    (h0 : Q 0 true true) (h1 : d = false → Q 1 false false) : Tracks Q (enterHtm l) w d := by
  -- behind an abort the flag is cleared, whatever the status counts as
  have hclears : ∀ st, Clears ((abortStats st).bind fun _ => (emit (.setSpecEntry 0)).bind fun _ =>
      (ret 1 : LockProg Int)) := by
    intro st
    unfold abortStats
    split
    · exact fun _ => rfl
    split
    · exact fun _ => rfl
    split
    · exact fun _ => rfl
    · exact rfl
  have habort : ∀ st, d = false → Tracks Q ((abortStats st).bind fun _ =>
      (emit (.setSpecEntry 0)).bind fun _ => ret 1) true false := by
    intro st hd
    have hset : Tracks Q ((emit (.setSpecEntry 0)).bind fun _ => (ret 1 : LockProg Int)) true false :=
      fun _ => h1 hd
    unfold abortStats
    split
    · exact fun _ => hset
    split
    · exact fun _ => hset
    split
    · exact fun _ => hset
    · exact hset
  -- the flag is the address of the lock, which is not null
  have hset : decide (l ≠ 0) = true := decide_eq_true hl
  intro _
  rw [hset]
  intro _ _ _
  refine ⟨rfl, h0, fun hd st hst => ?_⟩
  simp only [ret_bind, if_neg hst]
  exact ⟨fun _ _ => hclears st, fun _ _ => habort st hd⟩

/-- A function that begins with the test of the flag. -/
theorem Tracks.test {Q : Int → Bool → Bool → Prop} {k : Int → LockProg Int}
    (hin : ∀ v, v ≠ 0 → Tracks Q (k v) true true) (hout : Tracks Q (k 0) false false) (b : Bool) :
    Tracks Q (op .specEntry k) b b := by
  intro v hv
  by_cases h0 : v = 0
  · subst h0
    obtain rfl : false = b := hv
    exact hout
  · rw [decide_eq_true h0] at hv
    subst hv
    exact hin v h0

/-! ### The loops -/

theorem tasLockTmLoop_tracks (hl : l ≠ 0) :
    Tracks FlagRight (tasLockTmLoop cfg l) false false := by
  apply Tracks.loop
  intro tries
  refine .bind (.of_noTx (tatas_noTx _ _) fun held => ?_)
  split
  · exact rfl
  · refine .bind (enterHtm_tracks hl rfl fun _ => ?_)
    show Tracks _ (if tries + 1 ≥ cfg.numTries then _ else _) false false
    split
    · exact .bind (.of_noTx (tatasLoop_noTx _) fun _ => rfl)
    · exact ⟨rfl, rfl⟩

theorem tasPriorityLockTmLoop_tracks (hl : l ≠ 0) :
    Tracks FlagRight (tasPriorityLockTmLoop cfg l) false false := by
  apply Tracks.loop
  intro _
  have hrest : ∀ (all held : Int), Tracks (AfterRound FlagRight) (if held = 0 then ret (.inr false)
      else if BitVec.ofInt 32 (readyOf all) < cfg.maxDistance - cfg.minDistance then do
        let e ← enterHtm l
        if e = 0 then return .inr true
        else
          let _ ← perform (.fetchAndAdd (.lock l .ready) 1)
          tatasLoop cfg (.lock l .val)
          let _ ← perform (.fetchAndAdd (.lock l .ready) (-1))
          return .inr false
      else ret (.inl ()) : LockProg (Unit ⊕ Bool)) false false := by
    intro all held
    split
    · exact rfl
    split
    · refine .bind (enterHtm_tracks hl rfl fun _ => ⟨⟨rfl, rfl⟩, fun _ => ?_⟩)
      show Tracks _ ((tatasLoop cfg (.lock l .val)).bind _) false false
      exact .bind (.of_noTx (tatasLoop_noTx _) fun _ => ⟨⟨rfl, rfl⟩, fun _ => rfl⟩)
    · exact ⟨rfl, rfl⟩
  refine ⟨rfl, fun all => ?_⟩
  show Tracks _ (if readyOf all = 0 then _ else _) false false
  split
  · exact .bind (.of_noTx (tatas_noTx _ _) (hrest all))
  · exact hrest all 1

theorem ticketLockTmLoop_tracks (hl : l ≠ 0) (t : Int) :
    Tracks FlagRight (ticketLockTmLoop cfg l t) false false := by
  apply Tracks.loop
  intro tries
  refine ⟨rfl, fun now => ?_⟩
  show Tracks _ (if t = now then _ else _) false false
  split
  · exact rfl
  refine ⟨rfl, fun now' => ?_⟩
  show Tracks _ (if _ ∧ _ ∧ _ then _ else _) false false
  split
  · refine .bind (enterHtm_tracks hl ⟨rfl, fun cur => ?_⟩ fun _ => ⟨rfl, rfl⟩)
    show Tracks _ (if cur = t then _ else _) true true
    split
    · exact nofun
    · exact rfl
  · exact ⟨rfl, rfl⟩

theorem pthreadLockTmLoop_tracks (hl : l ≠ 0) :
    Tracks FlagRight (pthreadLockTmLoop cfg l) false false := by
  apply Tracks.loop
  intro tries
  refine ⟨⟨rfl, rfl⟩, fun busy => ?_⟩
  show Tracks _ (if busy = 0 then _ else _) false false
  split
  · exact rfl
  · refine .bind (enterHtm_tracks hl rfl fun _ => ?_)
    show Tracks _ (if tries + 1 ≥ cfg.numTries then _ else _) false false
    split
    · exact ⟨⟨rfl, rfl⟩, fun _ => rfl⟩
    · exact ⟨rfl, rfl⟩

/-! ### The functions -/

theorem mcsWaitTm_tracks (hl : l ≠ 0) (mine pred : Addr) :
    Tracks FlagRight (mcsWaitTm cfg l mine pred) false false := by
  -- behind the attempt to speculate
  have hrest : ∀ (cnt : Int) (begun w : Bool), w = begun → Tracks FlagRight (if begun then
        (return 0 : LockProg Int)
      else do
        spinWhile cfg (.node mine .wait) (· ≠ 0)
        let now ← load (.lock l .nowServing)
        assert (now = cnt - 1)
        store (.lock l .nowServing) cnt
        return 0) w w := by
    intro cnt begun w hw
    cases begun with
    | true => exact rfl
    | false =>
      subst hw
      refine .of_noTx ?_ fun _ => rfl
      simp [load, store, spinWhile_noTx, assert_noTx, TxOp]
  refine ⟨⟨rfl, rfl⟩, fun _ => ?_⟩
  show Tracks FlagRight ((spinWhile cfg (.node pred .cnt) (· = 0)).bind _) false false
  refine .bind (.of_noTx (spinWhile_noTx _ _) fun _ => ⟨rfl, fun n => ⟨⟨rfl, rfl⟩, fun _ => ?_⟩⟩)
  refine ⟨rfl, fun nowServing spec hspec => ?_⟩
  simp only [ret_bind]
  split
  swap
  · exact hrest (n + 1) false false rfl
  intro _
  rw [decide_eq_true hl]
  refine ⟨rfl, ?_, fun _ st hst => ?_⟩
  · simp only [ret_bind, ↓reduceIte]
    refine ⟨rfl, fun speculate => ?_⟩
    simp only [ret_bind]
    split
    · -- `HTM_ABORT(0)` does not come back
      have hnot : (0 : Int) ≠ 1 := by decide
      simp only [bind_eq, ret_bind, if_pos hnot]
      intro h
      simp at h
    · refine ⟨rfl, fun waiting => ?_⟩
      simp only [ret_bind]
      split
      · intro h
        simp at h
      · exact hrest (n + 1) true true rfl
  · simp only [ret_bind, if_neg hst]
    exact ⟨rfl, fun _ => hrest (n + 1) false false rfl⟩

theorem mcsQueued_tracks (hl : l ≠ 0) (mine pred : Addr) :
    Tracks FlagRight (mcsQueued cfg l true mine pred) false false := by
  refine .bind (.of_noTx (useNode_noTx mine) fun _ => ?_)
  split
  · exact mcsWaitTm_tracks hl mine pred
  · refine .of_noTx ?_ fun _ => rfl
    simp [load, store, TxOp]

theorem mcsLockCommon_tracks (hl : l ≠ 0) (tryLock b : Bool) :
    Tracks FlagRight (mcsLockCommon cfg l tryLock true) b b := by
  refine .test (fun v hv => ?_) ?_ b
  · simp only [ret_bind, if_pos hv]
    exact rfl
  · show Tracks FlagRight (getFreeNode.bind _) false false
    refine .bind (.of_noTx getFreeNode_noTx fun mine => ?_)
    -- the five stores to the node
    refine ⟨⟨rfl, rfl⟩, fun _ => ⟨⟨rfl, rfl⟩, fun _ => ⟨⟨rfl, rfl⟩, fun _ => ⟨⟨rfl, rfl⟩, fun _ =>
      ⟨⟨rfl, rfl⟩, fun _ => ?_⟩⟩⟩⟩⟩
    simp only [ret_bind]
    split
    · refine ⟨⟨rfl, rfl⟩, fun stored => ?_⟩
      simp only [ret_bind]
      split
      · exact rfl
      · exact mcsQueued_tracks hl mine 0
    · exact ⟨⟨rfl, rfl⟩, fun pred => mcsQueued_tracks hl mine pred⟩

/-- What is left of a function behind the test of the flag, when it begins no transaction. -/
theorem Tracks.test_noTx {k : Int → LockProg Int}
    (hin : ∀ v, v ≠ 0 → Tracks FlagRight (k v) true true) (hout : NoTx (k 0)) (b : Bool) :
    Tracks FlagRight (op .specEntry k) b b :=
  .test hin (.of_noTx hout fun _ => rfl) b

/-- The end of a lock function: it speculates, or closes its statistics and returns. -/
theorem Tracks.then_ret {p : LockProg Bool} {f : Bool → LockProg Int}
    (hp : Tracks FlagRight p false false)
    (hf : ∀ speculating b, Tracks FlagRight (f speculating) b b := by
      intro speculating b
      cases speculating with
      | true => exact rfl
      | false => exact fun _ _ => rfl) : Tracks FlagRight (p.bind f) false false :=
  .bind (hp.mono fun x w d hx => by
    obtain rfl : w = d := hx
    exact hf x w)

theorem lockFun_tracks (hty : LockType.Prefetches ty) (hl : l ≠ 0) (b : Bool) :
    Tracks FlagRight ((lockTypes cfg ty).lockFun l) b b := by
  cases ty with
  | pthread | tas | tasHle | ticket | mcs => exact hty.elim
  | tasTm =>
    refine .test (fun v hv => ?_) ?_ b
    · simp only [ret_bind, if_neg hv]
      exact fun _ _ => rfl
    · -- the flag is 0: what follows is the loop, which tracks it
      intro _
      show Tracks FlagRight ((tasLockTmLoop cfg l).bind _) false false
      exact (tasLockTmLoop_tracks hl).then_ret
  | tasPriorityTm =>
    refine .test (fun v hv => ?_) ?_ b
    · simp only [ret_bind, if_neg hv]
      exact fun _ _ => rfl
    · intro _
      show Tracks FlagRight ((tasPriorityLockTmLoop cfg l).bind _) false false
      exact (tasPriorityLockTmLoop_tracks hl).then_ret
  | ticketTm =>
    refine .test (fun v hv => ?_) ?_ b
    · simp only [ret_bind, if_pos hv]
      exact rfl
    · refine fun _ => ⟨⟨rfl, rfl⟩, fun t => ?_⟩
      show Tracks FlagRight ((ticketLockTmLoop cfg l t).bind _) false false
      exact (ticketLockTmLoop_tracks hl t).then_ret
  | pthreadTm =>
    refine .test (fun v hv => ?_) ?_ b
    · simp only [ret_bind, if_pos hv]
      exact rfl
    · intro _
      show Tracks FlagRight ((pthreadLockTmLoop cfg l).bind _) false false
      exact (pthreadLockTmLoop_tracks hl).then_ret
  | mcsTm => exact mcsLockCommon_tracks hl false b

theorem trylockFun_tracks (hty : LockType.Prefetches ty) (hl : l ≠ 0) (b : Bool) :
    Tracks FlagRight ((lockTypes cfg ty).trylockFun l) b b := by
  cases ty with
  | pthread | tas | tasHle | ticket | mcs => exact hty.elim
  | tasTm =>
    refine .test_noTx (fun v hv => ?_) ?_ b
    · simp only [ret_bind, if_neg hv]
      exact rfl
    · simp [tatas_noTx, tmStatsAdd, tmStatsSubRdtsc, TxOp]
  | tasPriorityTm =>
    refine .test_noTx (fun v hv => ?_) ?_ b
    · simp only [ret_bind, if_neg hv]
      exact rfl
    · simp [load, tatas_noTx, tmStatsAdd, tmStatsSubRdtsc, TxOp]
  | ticketTm =>
    refine .test_noTx (fun v hv => ?_) ?_ b
    · simp only [ret_bind, if_pos hv]
      exact rfl
    · simp [ticketTrylock, load, tmStatsAdd, tmStatsSubRdtsc, TxOp]
  | pthreadTm =>
    refine .test_noTx (fun v hv => ?_) ?_ b
    · simp only [ret_bind, if_pos hv]
      exact rfl
    · simp [tmStatsAdd, tmStatsAddRdtsc, TxOp]
  | mcsTm => exact mcsLockCommon_tracks hl true b

theorem unlockFun_tracks (hty : LockType.Prefetches ty) (b : Bool) :
    Tracks FlagRight ((lockTypes cfg ty).unlockFun l) b b := by
  cases ty with
  | pthread | tas | tasHle | ticket | mcs => exact hty.elim
  | tasTm | pthreadTm =>
    refine .test_noTx (fun v hv => ?_) ?_ b
    · simp only [ret_bind, if_pos hv]
      exact rfl
    · simp [tmStatsAdd, tmStatsAddRdtsc, TxOp]
  | tasPriorityTm =>
    refine .test_noTx (fun v hv => ?_) ?_ b
    · simp only [ret_bind, if_neg hv]
      exact rfl
    · simp [tmStatsAdd, tmStatsAddRdtsc, TxOp]
  | ticketTm =>
    refine .test_noTx (fun v hv => ?_) ?_ b
    · simp only [ret_bind, if_pos hv]
      exact rfl
    · simp [load, store, tmStatsAdd, tmStatsAddRdtsc, TxOp]
  | mcsTm =>
    refine .test_noTx (fun v hv => ?_) ?_ b
    · simp only [ret_bind, if_neg hv]
      exact rfl
    · exact mcsUnlockCommon_noTx l true

/-- The object of a lock function or of `enter_htm` is not `NULL`. -/
def NonNullOp : CondOp → Prop
  | .tlLock m | .tlTrylock m | .tlUnlock m | .enterHtm m => m ≠ 0
  | _ => True

/-- A lock function, or `enter_htm`, that starts with the flag right. -/
theorem lockCode_tracks (hty : LockType.Prefetches ty) {o : CondOp} {p : LockProg Int}
    (ho : NonNullOp o) (h : lockCode cfg ty o = some p) (b : Bool) : Tracks FlagRight p b b := by
  cases o with
  | tlLock m =>
    obtain rfl := Option.some.inj h
    exact lockFun_tracks hty ho b
  | tlTrylock m =>
    obtain rfl := Option.some.inj h
    exact trylockFun_tracks hty ho b
  | tlUnlock m =>
    obtain rfl := Option.some.inj h
    exact unlockFun_tracks hty b
  | enterHtm m =>
    obtain rfl := Option.some.inj h
    exact enterHtm_tracks ho rfl fun _ => rfl
  | _ => exact nomatch h

/-! ## Behind the test of the flag -/

/-- The operation is a call of `tl_lock`, `tl_trylock` or `tl_unlock`. -/
def IsTl : CondOp → Prop
  | .tlLock _ | .tlTrylock _ | .tlUnlock _ => True
  | _ => False

/-- With the flag set a lock function touches nothing. -/
theorem lockCode_inside (hty : LockType.Prefetches ty) {o : CondOp} {p : LockProg Int}
    (ho : IsTl o) (h : lockCode cfg ty o = some p) :
    ∃ k, p = op .specEntry k ∧ ∀ v, v ≠ 0 → (k v).Avoids (LockOp.touches · = true) := by
  have hret : (ret 0 : LockProg Int).Avoids (LockOp.touches · = true) := trivial
  cases o with
  | tlLock m =>
    obtain rfl := Option.some.inj h
    cases ty with
    | pthread | tas | tasHle | ticket | mcs => exact hty.elim
    | tasTm | tasPriorityTm =>
      refine ⟨_, rfl, fun v hv => ?_⟩
      simp only [ret_bind, if_neg hv]
      -- these two still charge the clock in a transaction, and return
      exact ⟨nofun, fun _ => ⟨nofun, fun _ => hret⟩⟩
    | ticketTm | pthreadTm | mcsTm =>
      refine ⟨_, rfl, fun v hv => ?_⟩
      simp only [ret_bind, if_pos hv]
      exact hret
  | tlTrylock m =>
    obtain rfl := Option.some.inj h
    cases ty with
    | pthread | tas | tasHle | ticket | mcs => exact hty.elim
    | tasTm | tasPriorityTm =>
      refine ⟨_, rfl, fun v hv => ?_⟩
      simp only [ret_bind, if_neg hv]
      exact hret
    | ticketTm | pthreadTm | mcsTm =>
      refine ⟨_, rfl, fun v hv => ?_⟩
      simp only [ret_bind, if_pos hv]
      exact hret
  | tlUnlock m =>
    obtain rfl := Option.some.inj h
    cases ty with
    | pthread | tas | tasHle | ticket | mcs => exact hty.elim
    | tasPriorityTm | mcsTm =>
      refine ⟨_, rfl, fun v hv => ?_⟩
      simp only [ret_bind, if_neg hv]
      exact hret
    | tasTm | ticketTm | pthreadTm =>
      refine ⟨_, rfl, fun v hv => ?_⟩
      simp only [ret_bind, if_pos hv]
      exact hret
  | _ => exact ho.elim

/-- The operation that releases the lock `l`. -/
def Releases (ty : LockType) (l : Addr) (o : LockOp) (v : Int) : Prop :=
  match ty with
  | .ticket | .ticketTm => ∃ w, o = .store (.lock l .now) w
  | .pthread | .pthreadTm => o = .pthreadMutexUnlock l
  -- the queue is empty, or the successor goes on
  | .mcs | .mcsTm => (∃ n, o = .cas (.lock l .tail) n 0 ∧ v ≠ 0) ∨ ∃ n, o = .store (.node n .wait) 0
  | .tas | .tasTm | .tasPriorityTm | .tasHle => o = .release (.lock l .val)

/-- The operation with which a thread has or gets the lock `l` or its place in its queue, or
    begins a transaction instead. -/
def Attempts (ty : LockType) (l : Addr) (o : LockOp) (v : Int) : Prop :=
  match ty with
  | .ticket | .ticketTm => o = .fetchAndAdd (.lock l .next) 1
  | .mcs | .mcsTm => ∃ n, o = .testAndSet (.lock l .tail) n
  | .pthread | .pthreadTm => (o = .pthreadMutexTrylock l ∧ v = 0) ∨ o = .pthreadMutexLock l ∨
      (o = .xbegin ∧ v = xbeginStarted)
  | .tas | .tasTm | .tasPriorityTm | .tasHle => (o = .testAndSet (.lock l .val) 1 ∧ v = 0) ∨
      (o = .xbegin ∧ v = xbeginStarted)

/-- `enter_htm` returns 0 after a begin that has started a transaction. -/
theorem enterHtm_performs {P : LockOp → Int → Prop} (hP : P .xbegin xbeginStarted) (m : Addr) :
    (enterHtm m).Performs P (· ≠ 0) := by
  refine fun _ => .inr fun _ => .inr fun _ => .inr fun _ => .inr fun status => ?_
  by_cases hst : status = xbeginStarted
  · exact .inl (hst ▸ hP)
  · right
    simp only [ret_bind, if_neg hst]
    have hrest : Performs P (· ≠ 0) (abortStats status >>= fun _ => emit (.setSpecEntry 0) >>=
        fun _ => (ret 1 : LockProg Int)) :=
      .bind (.of_forall (fun _ _ => .inr Int.one_ne_zero) _)
    exact fun _ => .inr fun _ => .inr hrest

/-- `tatas` returns 0 after a swap that has found 0. -/
theorem tatas_performs {P : LockOp → Int → Prop} {x : Loc} (hP : P (.testAndSet x 1) 0) :
    (tatas x 1).Performs P (· ≠ 0) := by
  refine fun w => .inr ?_
  show Performs P _ (if w ≠ 0 then _ else _)
  split
  · exact Int.one_ne_zero
  · intro old
    by_cases hold : old = 0
    · exact .inl (hold ▸ hP)
    · right
      simp only [ret_bind, ne_eq, hold, not_false_eq_true, ↓reduceIte]
      exact Int.one_ne_zero

theorem tatasLoop_performs {P : LockOp → Int → Prop} {x : Loc} (hP : P (.testAndSet x 1) 0)
    {E : Unit → Prop} : (tatasLoop cfg x).Performs P E := by
  apply Performs.loop
  intro _
  refine .bind ((tatas_performs hP).mono fun e he => ?_)
  rw [if_pos he]
  trivial

section Loops

variable {P : LockOp → Int → Prop} {E : Bool → Prop}

theorem tasLockTmLoop_performs (hswap : P (.testAndSet (.lock l .val) 1) 0)
    (hbegin : P .xbegin xbeginStarted) : (tasLockTmLoop cfg l).Performs P E := by
  apply Performs.loop
  intro tries
  refine .bind ((tatas_performs hswap).mono fun held hheld => ?_)
  rw [if_neg hheld]
  refine .bind ((enterHtm_performs hbegin l).mono fun e he => ?_)
  rw [if_neg he]
  split
  · exact .bind (tatasLoop_performs hswap)
  · trivial

theorem tasPriorityLockTmLoop_performs (hswap : P (.testAndSet (.lock l .val) 1) 0)
    (hbegin : P .xbegin xbeginStarted) : (tasPriorityLockTmLoop cfg l).Performs P E := by
  apply Performs.loop
  intro _ all
  right
  have hrest : ∀ held : Int, held ≠ 0 → Performs P (Sum.elim (fun _ => True) E) (if held = 0 then
      ret (.inr false)
      else if BitVec.ofInt 32 (readyOf all) < cfg.maxDistance - cfg.minDistance then do
        let e ← enterHtm l
        if e = 0 then return .inr true
        else
          let _ ← perform (.fetchAndAdd (.lock l .ready) 1)
          tatasLoop cfg (.lock l .val)
          let _ ← perform (.fetchAndAdd (.lock l .ready) (-1))
          return .inr false
      else ret (.inl ()) : LockProg (Unit ⊕ Bool)) := by
    intro held hheld
    rw [if_neg hheld]
    split
    · refine .bind ((enterHtm_performs hbegin l).mono fun e he => ?_)
      rw [if_neg he]
      intro _
      right
      show Performs P _ ((tatasLoop cfg (.lock l .val)).bind _)
      exact .bind (tatasLoop_performs hswap)
    · trivial
  show Performs P _ (if readyOf all = 0 then _ else _)
  split
  · exact .bind ((tatas_performs hswap).mono hrest)
  · exact hrest 1 Int.one_ne_zero

theorem pthreadLockTmLoop_performs (htry : P (.pthreadMutexTrylock l) 0)
    (hlock : ∀ v, P (.pthreadMutexLock l) v) (hbegin : P .xbegin xbeginStarted) :
    (pthreadLockTmLoop cfg l).Performs P E := by
  apply Performs.loop
  intro tries busy
  by_cases hbusy : busy = 0
  · exact .inl (hbusy ▸ htry)
  right
  simp only [ret_bind, if_neg hbusy]
  refine .bind ((enterHtm_performs hbegin l).mono fun e he => ?_)
  rw [if_neg he]
  split
  · exact fun v => .inl (hlock v)
  · trivial

end Loops

/-- Outside a transaction `tl_lock` does not skip the acquisition. -/
theorem lock_attempts (hty : LockType.Prefetches ty) : ∃ k,
    (lockTypes cfg ty).lockFun l = op .specEntry k ∧
      (k 0).Performs (Attempts ty l) fun _ => False := by
  cases ty with
  | pthread | tas | tasHle | ticket | mcs => exact hty.elim
  | tasTm =>
    have hswap : Attempts .tasTm l (.testAndSet (.lock l .val) 1) 0 := .inl ⟨rfl, rfl⟩
    have hbegin : Attempts .tasTm l .xbegin xbeginStarted := .inr ⟨rfl, rfl⟩
    refine ⟨_, rfl, fun _ => .inr ?_⟩
    show Performs _ _ ((tasLockTmLoop cfg l).bind _)
    exact .bind (tasLockTmLoop_performs hswap hbegin)
  | tasPriorityTm =>
    have hswap : Attempts .tasPriorityTm l (.testAndSet (.lock l .val) 1) 0 := .inl ⟨rfl, rfl⟩
    have hbegin : Attempts .tasPriorityTm l .xbegin xbeginStarted := .inr ⟨rfl, rfl⟩
    refine ⟨_, rfl, fun _ => .inr ?_⟩
    show Performs _ _ ((tasPriorityLockTmLoop cfg l).bind _)
    exact .bind (tasPriorityLockTmLoop_performs hswap hbegin)
  | ticketTm => exact ⟨_, rfl, fun _ => .inr fun _ => .inl rfl⟩
  | pthreadTm =>
    have htry : Attempts .pthreadTm l (.pthreadMutexTrylock l) 0 := .inl ⟨rfl, rfl⟩
    have hlock : ∀ v, Attempts .pthreadTm l (.pthreadMutexLock l) v := fun _ => .inr (.inl rfl)
    have hbegin : Attempts .pthreadTm l .xbegin xbeginStarted := .inr (.inr ⟨rfl, rfl⟩)
    refine ⟨_, rfl, fun _ => .inr ?_⟩
    show Performs _ _ ((pthreadLockTmLoop cfg l).bind _)
    exact .bind (pthreadLockTmLoop_performs htry hlock hbegin)
  | mcsTm =>
    have hswap : ∀ mine v, Attempts .mcsTm l (.testAndSet (.lock l .tail) mine) v :=
      fun mine _ => ⟨mine, rfl⟩
    refine ⟨_, rfl, ?_⟩
    show Performs _ _ (getFreeNode.bind _)
    refine .bind (.of_forall (fun mine => ?_) _)
    -- the swap comes after five stores to the node
    exact fun _ => .inr fun _ => .inr fun _ => .inr fun _ => .inr fun _ => .inr fun v =>
      .inl (hswap mine v)

theorem mcsHandover_performs (mine : Addr) :
    (mcsHandover cfg mine true).Performs (Releases .mcsTm l) fun _ => False := by
  have hrest : Performs (Releases .mcsTm l) (fun _ => False) (load (.node mine .lockNext) >>=
      fun next => store (.node next .wait) 0 >>= fun _ => deallocNode mine >>= fun _ =>
        (ret 0 : LockProg Int)) := fun next => .inr fun _ => .inl (.inr ⟨next, rfl⟩)
  unfold mcsHandover
  rw [if_pos rfl]
  intro first
  right
  show Performs _ _ ((haltSpeculators cfg first).bind _)
  exact .bind (.of_forall (fun _ => hrest) _)

/-- Outside a transaction `tl_unlock` does not skip the release. -/
theorem unlock_releases (hty : LockType.Prefetches ty) : ∃ k,
    (lockTypes cfg ty).unlockFun l = op .specEntry k ∧
      (k 0).Performs (Releases ty l) fun _ => False := by
  cases ty with
  | pthread | tas | tasHle | ticket | mcs => exact hty.elim
  | tasTm | tasPriorityTm | pthreadTm => exact ⟨_, rfl, fun _ => .inl rfl⟩
  | ticketTm => exact ⟨_, rfl, fun now => .inr fun _ => .inl ⟨_, rfl⟩⟩
  | mcsTm =>
    refine ⟨_, rfl, fun first => .inr ?_⟩
    show Performs _ _ ((assert (first ≠ 0)).bind _)
    refine .bind (.of_forall (fun _ => .bind (.of_forall (fun mine => ?_) _)) _)
    intro next
    right
    show Performs _ _ (if next = 0 then _ else _)
    split
    · intro stored
      by_cases hstored : stored = 0
      · right
        simp only [ret_bind, ne_eq, hstored, not_true_eq_false, ↓reduceIte]
        exact .bind (.of_forall (fun _ => mcsHandover_performs mine) _)
      · exact .inl (.inl ⟨mine, rfl, hstored⟩)
    · exact mcsHandover_performs mine

end

end TxLock.Spec
