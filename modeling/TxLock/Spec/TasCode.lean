import TxLock.Spec.LockFields
import TxLock.Spec.TasTrylock
import TxLock.Spec.TlGraph

/-!
# The code of the test-and-set locks

Threads that run the code of `tas` or `tas_tm`, operation by operation, do what the system
`tas` does, whose steps are the accesses to the locks. So everything that holds of its
states holds of the memory the code works on.

## Key results

- `tasGraph_lawful`: the control graph of the functions
- `TasPlace.step`: a step in the graph is a step of `tas` or none
- `tas_code_refines`: what the code returns, `tas` shows, and it leaves the same lock words
-/

namespace TxLock.Spec

open Native Prog

variable {Tid : Type}

/-! ## The graph -/

/-- Where a thread is in the code of `tas` or `tas_tm`. -/
inductive TasPlace where
  /-- `tas_lock_tm`, in the loop that speculates. -/
  | testRead (tries : Word)
  | testSwap (tries : Word)
  | enterHtm (tries : Word)
  /-- The loop around `tatas` that only waits. -/
  | waitRead
  | waitSwap
  /-- The trylocks. -/
  | tryRead
  | trySwap
  /-- The unlocks, about to reset the word. -/
  | release
  /-- About to return `x`, with nothing left to do on the lock. -/
  | ending (x : Int)
  /-- In a transaction, where the functions of `tas_tm` return 0. -/
  | spec
  deriving DecidableEq, Repr

/-- `enter_htm` returned 1 in `tas_lock_tm`. -/
def TasPlace.htmFailed (cfg : TmParams) (tries : Word) : TasPlace :=
  if tries + 1 ≥ cfg.numTries then .waitRead else .testRead (tries + 1)

/-- What the functions do at a place. -/
def TasPlace.node (cfg : TmParams) (l : Addr) : TasPlace → GraphNode LockOp TasPlace
  | .testRead n => .op (.load (.lock l .val)) fun v => if v ≠ 0 then .enterHtm n else .testSwap n
  | .testSwap n =>
    .op (.testAndSet (.lock l .val) 1) fun v => if v ≠ 0 then .enterHtm n else .ending 0
  | .enterHtm n => .op .xbegin fun v => if v = xbeginStarted then .spec else .htmFailed cfg n
  | .waitRead => .op (.load (.lock l .val)) fun v => if v ≠ 0 then .waitRead else .waitSwap
  | .waitSwap => .op (.testAndSet (.lock l .val) 1) fun v => if v ≠ 0 then .waitRead else .ending 0
  | .tryRead => .op (.load (.lock l .val)) fun v => if v ≠ 0 then .ending 1 else .trySwap
  | .trySwap => .op (.testAndSet (.lock l .val) 1) fun v => if v ≠ 0 then .ending 1 else .ending 0
  | .release => .op (.release (.lock l .val)) fun _ => .ending 0
  | .ending x => .ret x
  | .spec => .ret 0

/-- The places of a call. -/
def TasPlace.fits (tm : Bool) : TlCall → TasPlace → Bool
  | .lock, .testRead _ | .lock, .testSwap _ | .lock, .enterHtm _ => tm
  | .lock, .waitRead | .lock, .waitSwap | .trylock, .tryRead | .trylock, .trySwap
  | .unlock, .release | _, .ending _ => true
  | _, .spec => tm
  | _, _ => false

/-- The functions of `tas` or (`tm`) `tas_tm`. -/
def tasGraph (cfg : TmParams) (tm : Bool) : LockGraph TasPlace where
  node := TasPlace.node cfg
  start
    | _, true => .spec
    | .lock, false => if tm then .testRead 0 else .waitRead
    | .trylock, false => .tryRead
    | .unlock, false => .release
  inTx
    | .spec => true
    | _ => false
  fits := TasPlace.fits tm

section Lawful

variable {cfg : TxConfig} {tm : Bool} {l : Addr} {w : Int}

/-- Where nothing is left to do on the lock outside a transaction. -/
theorem tasGraph_ends_ending {x : Int} :
    (tasGraph cfg.toTmParams tm).Ends l x 0 (.ending x) :=
  ⟨rfl, by simp [tasGraph]⟩

theorem tasGraph_ends_spec (hw : w ≠ 0) : (tasGraph cfg.toTmParams tm).Ends l 0 w .spec :=
  ⟨rfl, by simp [tasGraph, hw]⟩

theorem tasLock_goes :
    (tasGraph cfg.toTmParams tm).Goes (tasLock cfg l) l 0 .waitRead := by
  unfold tasLock LockGraph.Goes
  simp only [bind_eq, walks_bind, walks_tmStatsAdd, walks_tmStatsSubRdtsc, pure_eq, walks_ret]
  exact walks_tatasLoop .waitSwap (.ending 0) rfl rfl tasGraph_ends_ending

theorem tasTrylock_goes :
    (tasGraph cfg.toTmParams tm).Goes (tasTrylock l) l 0 .tryRead := by
  unfold tasTrylock LockGraph.Goes
  simp only [bind_eq, walks_bind, walks_tmStatsAdd, walks_tmStatsSubRdtsc, pure_eq, walks_ret,
    walks_ite]
  exact walks_tatas .trySwap (.ending 1) (.ending 0) rfl rfl
    tasGraph_ends_ending tasGraph_ends_ending

theorem tasUnlock_goes :
    (tasGraph cfg.toTmParams tm).Goes (tasUnlock l) l 0 .release := by
  unfold tasUnlock LockGraph.Goes
  simp only [bind_eq, walks_bind, walks_tmStatsAddRdtsc, pure_eq, walks_ret]
  exact walks_emit rfl rfl fun _ => tasGraph_ends_ending

/-- The loop that speculates. -/
theorem tasLockTmLoop_walks {Q : Bool → Int → TasPlace → Prop}
    (hgot : Q false 0 (.ending 0)) (hspec : Q true l .spec) :
    (tasLockTmLoop cfg l).Walks (TasPlace.node cfg.toTmParams l) ownOp Q 0 (.testRead 0) := by
  unfold tasLockTmLoop
  refine walks_loop (I := fun tries w pl => w = 0 ∧ pl = .testRead tries) ?_ _ ⟨rfl, rfl⟩
  rintro tries w pl ⟨rfl, rfl⟩
  simp only [bind_eq, walks_bind]
  refine walks_tatas (.testSwap tries) (.enterHtm tries) (.ending 0) rfl
    rfl ?_ ?_
  · -- the lock is taken
    simp only [Int.one_ne_zero, if_false, walks_bind]
    refine walks_enterHtm rfl ?_ fun v hv => ?_
    · simpa using hspec
    · simp only [Int.one_ne_zero, if_false, walks_ite, if_neg hv, TasPlace.htmFailed]
      split
      · rw [walks_bind]
        exact walks_tatasLoop .waitSwap (.ending 0) rfl rfl hgot
      · exact ⟨rfl, rfl⟩
  · simpa using hgot

theorem tasLockTm_goes (hl : l ≠ 0) :
    (tasGraph cfg.toTmParams true).Goes (tasLockTm cfg l) l 0 (.testRead 0) := by
  unfold tasLockTm LockGraph.Goes
  simp only [bind_eq, walks_bind, walks_specEntry, if_true, walks_tmStatsAdd]
  apply tasLockTmLoop_walks
  · simp only [Bool.false_eq_true, if_false, walks_bind, walks_tmStatsSubRdtsc, pure_eq, walks_ret]
    exact tasGraph_ends_ending
  · exact tasGraph_ends_spec hl

theorem tasTrylockTm_goes :
    (tasGraph cfg.toTmParams true).Goes (tasTrylockTm l) l 0 .tryRead := by
  unfold tasTrylockTm LockGraph.Goes
  simp only [bind_eq, walks_bind, walks_specEntry, if_true, walks_tmStatsAdd,
    walks_tmStatsSubRdtsc, pure_eq, walks_ret, walks_ite]
  exact walks_tatas .trySwap (.ending 1) (.ending 0) rfl rfl
    tasGraph_ends_ending tasGraph_ends_ending

theorem tasUnlockTm_goes :
    (tasGraph cfg.toTmParams true).Goes (tasUnlockTm l) l 0 .release := by
  unfold tasUnlockTm LockGraph.Goes
  simp only [bind_eq, walks_bind, walks_specEntry, ne_eq, not_true_eq_false, if_false,
    walks_tmStatsAddRdtsc, pure_eq, walks_ret]
  exact walks_emit rfl rfl fun _ => tasGraph_ends_ending

/-- In a transaction the functions of `tas_tm` do nothing and return 0. -/
theorem tasTm_goes_spec (hw : w ≠ 0) (c : TlCall) :
    (tasGraph cfg.toTmParams true).Goes (c.prog cfg .tasTm l) l w .spec := by
  unfold LockGraph.Goes
  cases c with
  | lock =>
    simp only [TlCall.prog, tlLock, lockTypes, tasLockTm, bind_eq, walks_bind, walks_specEntry,
      if_neg hw, walks_tmStatsSubRdtsc, pure_eq, walks_ret]
    exact tasGraph_ends_spec hw
  | trylock =>
    simp only [TlCall.prog, tlTrylock, lockTypes, tasTrylockTm, bind_eq, walks_bind,
      walks_specEntry, if_neg hw, pure_eq, walks_ret]
    exact tasGraph_ends_spec hw
  | unlock =>
    simp only [TlCall.prog, tlUnlock, lockTypes, tasUnlockTm, bind_eq, walks_bind,
      walks_specEntry, if_pos hw, pure_eq, walks_ret]
    exact tasGraph_ends_spec hw

/-- `tas` or (`tm`) `tas_tm`. -/
def tasType (tm : Bool) : LockType := if tm then .tasTm else .tas

theorem tasGraph_lawful (cfg : TxConfig) (tm : Bool) :
    (tasGraph cfg.toTmParams tm).Lawful cfg (tasType tm) tm where
  goes c l hl := by
    cases tm with
    | false =>
      cases c with
      | lock => exact tasLock_goes
      | trylock => exact tasTrylock_goes
      | unlock => exact tasUnlock_goes
    | true =>
      cases c with
      | lock => exact tasLockTm_goes hl
      | trylock => exact tasTrylockTm_goes
      | unlock => exact tasUnlockTm_goes
  goes_tx htm c l w _ hw := by
    subst htm
    exact tasTm_goes_spec hw c
  start_inTx c b := by
    cases c <;> cases b <;> cases tm <;> rfl
  start_fits c b hb := by
    cases c <;> cases b <;> cases tm <;> first | rfl | cases hb rfl
  node_tx c l pl o next _ hin hnode := by
    cases pl with
    | spec => cases hnode
    | _ => cases hin
  node_out c l pl o next hfits hin hnode := by
    cases pl with
    | release =>
      cases hnode
      exact .inl ⟨.inr trivial, fun _ => ⟨rfl, by cases c <;> rfl⟩⟩
    | testRead n | waitRead | tryRead | testSwap n | waitSwap | trySwap =>
      cases hnode
      refine .inl ⟨by simp [ReadsLock, ChangesLock], fun v => ?_⟩
      -- both places an answer leads to belong to the same call
      dsimp only
      split <;> cases c <;> first | exact ⟨rfl, rfl⟩ | exact ⟨rfl, hfits⟩
    | enterHtm n =>
      cases hnode
      cases c with
      | lock =>
        refine .inr ⟨rfl, hfits, fun v => ?_⟩
        dsimp only
        by_cases hv : v = xbeginStarted
        · rw [if_pos hv, decide_eq_true hv]
          exact ⟨rfl, hfits⟩
        · rw [if_neg hv, decide_eq_false hv]
          unfold TasPlace.htmFailed
          split
          · exact ⟨rfl, rfl⟩
          · exact ⟨rfl, hfits⟩
      | trylock | unlock => cases hfits
    | ending x | spec => cases hnode

end Lawful

/-! ## What the places stand for -/

/-- The place in `tas` of a call on `l`. -/
def TasPlace.pc (l : Addr) : TasPlace → TasPc Addr
  | .testRead n => .testRead l n
  | .testSwap n => .testSwap l n
  | .enterHtm n => .enterHtm l n
  | .waitRead => .waitRead l
  | .waitSwap => .waitSwap l
  | .tryRead => .tryRead l
  | .trySwap => .trySwap l
  | .release | .ending _ | .spec => .out

/-- The tries at the begin of a transaction. -/
def TasPlace.tries : TasPlace → Word
  | .enterHtm n => n
  | _ => 0

/-- The locks a thread has in `tas`: in its last steps on the way out those it is about to be
    told of, and in an unlock the lock until the word is reset. -/
def GraphCode.tasLocked (c : GraphCode TasPlace) (locked : Finset Addr) : Finset Addr :=
  match c.place with
  | .release => insert c.lock locked
  | .ending x => c.call.after c.lock x locked
  | .spec => c.call.after c.lock 0 locked
  | _ => locked

/-- The thread of `tas` that a thread in the graph stands for. -/
def GraphThread.tas (g : GraphThread TasPlace) : TasThread Addr where
  pc := match g.code with
    | some c => c.place.pc c.lock
    | none => .out
  locked := match g.code with
    | some c => c.tasLocked g.locked
    | none => g.locked
  spec := g.saved.map fun sv => ⟨sv.lock, sv.place.tries, sv.locked⟩

/-- The state of `tas` that threads in the graph stand for. -/
def GraphState.tas (g : GraphState Tid TasPlace) : TasState Tid Addr where
  val l := TasAll.val (g.obj l).word
  thread t := (g.thread t).tas

/-- What `tas` has shown of the call a thread is in. -/
def GraphThread.tasDue (g : GraphThread TasPlace) : List (Addr × LockEvent) :=
  match g.saved, g.code with
  | none, some ⟨.lock, l, .ending x⟩ => [(l, .answer x)]
  | none, some ⟨.trylock, l, .ending x⟩ => [(l, .tryCall), (l, .answer x)]
  | none, some ⟨.trylock, l, _⟩ => [(l, .tryCall)]
  | none, some ⟨.unlock, l, .ending _⟩ => [(l, .unlockCall)]
  | _, _ => []

/-! ## Steps -/

section Step

variable [DecidableEq Tid] {cfg : TmParams} {tm : Bool} {g g' : GraphState Tid TasPlace}
  {t : Tid} {c : GraphCode TasPlace}

theorem tas_setThread {th : GraphThread TasPlace} :
    (g.setThread t th).tas = g.tas.setThread t th.tas := by
  unfold GraphState.setThread GraphState.tas TasState.setThread
  congr 1
  funext u
  by_cases hu : u = t
  · simp [hu]
  · simp [hu]

/-- A thread whose place stands for the same as before. -/
theorem tas_setThread_eq {th : GraphThread TasPlace} (h : th.tas = (g.thread t).tas) :
    (g.setThread t th).tas = g.tas := by
  rw [tas_setThread, h]
  unfold TasState.setThread GraphState.tas
  simp only [TasState.mk.injEq, true_and]
  exact Function.update_eq_self t _

/-- A step that changes a word as well. -/
theorem tas_setObj {th : GraphThread TasPlace} {m : Addr} {obj : LockObj Tid} {w : Word}
    (hw : TasAll.val obj.word = w) :
    ({ g.setThread t th with obj := Function.update g.obj m obj } : GraphState Tid TasPlace).tas =
      (g.tas.setVal m w).setThread t th.tas := by
  rw [TasState.setVal, ← hw]
  have hth : (g.setThread t th).tas = g.tas.setThread t th.tas := tas_setThread
  simp only [GraphState.tas, TasState.setThread, TasState.mk.injEq] at hth ⊢
  refine ⟨?_, hth.2⟩
  funext l
  by_cases hl : l = m
  · simp [hl]
  · simp [hl]

/-- What a step of thread `t` that returns `es` is to `tas`. -/
def TasFollows (cfg : TmParams) (tm : Bool) (g : GraphState Tid TasPlace) (t : Tid)
    (es : List (Addr × LockEvent)) (g' : GraphState Tid TasPlace) : Prop :=
  (g'.tas = g.tas ∧ es ++ (g'.thread t).tasDue = (g.thread t).tasDue) ∨
  ∃ a, TasState.step cfg tm g.tas a = some g'.tas ∧ TasAct.tid a = t ∧
    (g.thread t).tasDue ++ callsOf (TasState.events tm g.tas a) = es ++ (g'.thread t).tasDue

theorem tas_step_call (hok : GraphOk (tasGraph cfg tm) tm g) {c : TlCall} {l : Addr}
    (hcode : (g.thread t).code = none) (hlocked : c = .unlock → l ∈ (g.thread t).locked) :
    TasFollows cfg tm g t [] (g.setThread t { g.thread t with
      code := some ⟨c, l, (tasGraph cfg tm).start c (g.thread t).saved.isSome⟩
      locked := c.before l (g.thread t).locked }) := by
  have htm : ∀ sv, (g.thread t).saved = some sv → tm = true :=
    fun sv hsv => (hok.saved hsv).1
  have hth : g.tas.thread t = (g.thread t).tas := rfl
  have hsame : ∀ th, th.tas = (g.thread t).tas → (g.setThread t th).tas = g.tas :=
    fun th => tas_setThread_eq
  unfold TasFollows
  rw [GraphState.setThread_thread]
  generalize g.thread t = th at *
  obtain ⟨code, locked, saved⟩ := th
  obtain rfl : code = none := hcode
  cases saved with
  | none =>
    cases c with
    | lock =>
      refine .inr ⟨.lock t l, ?_, rfl, ?_⟩
      · rw [tas_setThread]
        cases tm <;> simp [TasState.step, TasState.goto, hth, GraphThread.tas, tasGraph,
          GraphCode.tasLocked, TasPlace.pc, TlCall.before]
      · cases tm <;> rfl
    | trylock =>
      refine .inr ⟨.trylock t l, ?_, rfl, ?_⟩
      · rw [tas_setThread]
        simp [TasState.step, TasState.goto, hth, GraphThread.tas, tasGraph,
          GraphCode.tasLocked, TasPlace.pc, TlCall.before]
      · simp [TasState.events, hth, GraphThread.tas, callsOf, GraphThread.tasDue, tasGraph]
    | unlock =>
      -- the word is still to be reset
      refine .inl ⟨hsame _ ?_, rfl⟩
      simp [GraphThread.tas, tasGraph, GraphCode.tasLocked, TasPlace.pc, TlCall.before,
        Finset.insert_erase (hlocked rfl)]
  | some sv =>
    obtain rfl := htm sv rfl
    cases c with
    | lock =>
      refine .inr ⟨.lock t l, ?_, rfl, rfl⟩
      rw [tas_setThread]
      simp [TasState.step, TasState.gets, hth, GraphThread.tas, tasGraph,
        GraphCode.tasLocked, TasPlace.pc, TlCall.before, TlCall.after]
    | trylock =>
      refine .inr ⟨.trylock t l, ?_, rfl, ?_⟩
      · rw [tas_setThread]
        simp [TasState.step, TasState.gets, hth, GraphThread.tas, tasGraph,
          GraphCode.tasLocked, TasPlace.pc, TlCall.before, TlCall.after]
      · simp [TasState.events, hth, GraphThread.tas, callsOf, GraphThread.tasDue]
    | unlock =>
      refine .inr ⟨.unlock t l, ?_, rfl, ?_⟩
      · rw [tas_setThread]
        simp [TasState.step, hth, GraphThread.tas, tasGraph, GraphCode.tasLocked, TasPlace.pc,
          TlCall.before, TlCall.after, hlocked]
      · simp [TasState.events, hth, GraphThread.tas, callsOf, GraphThread.tasDue]

theorem tas_step_ret (hok : GraphOk (tasGraph cfg tm) tm g) {x : Int}
    (hcode : (g.thread t).code = some c)
    (hnode : (tasGraph cfg tm).node c.lock c.place = .ret x) :
    TasFollows cfg tm g t
      (if (g.thread t).saved = none then TlCall.events c.call c.lock x else [])
      (g.setThread t { g.thread t with
        code := none, locked := c.call.after c.lock x (g.thread t).locked }) := by
  have hin := hok.inTx hcode
  have hsame : ∀ th, th.tas = (g.thread t).tas → (g.setThread t th).tas = g.tas :=
    fun th => tas_setThread_eq
  unfold TasFollows
  rw [GraphState.setThread_thread]
  generalize g.thread t = th at *
  obtain ⟨code, locked, saved⟩ := th
  obtain rfl : code = some c := hcode
  obtain ⟨call, l, pl⟩ := c
  refine .inl ⟨hsame _ ?_, ?_⟩
  · cases pl with
    | ending y | spec =>
      cases hnode
      simp [GraphThread.tas, GraphCode.tasLocked, TasPlace.pc]
    | _ => cases hnode
  · cases pl with
    | ending y =>
      cases hnode
      obtain rfl : saved = none := by simpa [tasGraph] using hin
      cases call <;> rfl
    | spec =>
      have hsaved : saved ≠ none := by
        rintro rfl
        cases hin
      cases saved with
      | none => exact (hsaved rfl).elim
      | some sv => rfl
    | _ => cases hnode

theorem tas_step_load (hok : GraphOk (tasGraph cfg tm) tm g) {m : Addr} {f : LockField}
    {next : Int → TasPlace} (hcode : (g.thread t).code = some c)
    (hnode : (tasGraph cfg tm).node c.lock c.place = .op (.load (.lock m f)) next) :
    TasFollows cfg tm g t [] (g.goto t c (next (f.read (g.obj m)))) := by
  have hin := hok.inTx hcode
  have hfits := hok.fits hcode
  have hth : g.tas.thread t = (g.thread t).tas := rfl
  have hval : ∀ l, g.tas.val l = TasAll.val (g.obj l).word := fun _ => rfl
  have hread : LockField.val.read (g.obj m) ≠ 0 ↔ TasAll.val (g.obj m).word ≠ 0 :=
    read_val_ne_zero
  have hsame : ∀ th, th.tas = (g.thread t).tas → (g.setThread t th).tas = g.tas :=
    fun th => tas_setThread_eq
  unfold TasFollows GraphState.goto
  rw [GraphState.setThread_thread]
  generalize g.thread t = th at *
  obtain ⟨code, locked, saved⟩ := th
  obtain rfl : code = some c := hcode
  obtain ⟨call, l, pl⟩ := c
  -- the code reads the word only outside transactions
  have hsaved : saved = none := by
    cases pl with
    | spec => cases hnode
    | _ => simpa [tasGraph] using hin
  subst hsaved
  refine .inr ⟨.run t, ?_, rfl, ?_⟩
  · cases pl with
    | testRead n | tryRead =>
      cases hnode
      rw [tas_setThread]
      by_cases hv : TasAll.val (g.obj l).word = 0#32
      · simp [TasState.step, TasState.runStep, hth, hval, hv, hread, TasState.goto,
          GraphThread.tas, GraphCode.tasLocked, TasPlace.pc]
      · simp [TasState.step, TasState.runStep, hth, hval, hv, hread, TasState.goto,
          GraphThread.tas, GraphCode.tasLocked, TasPlace.pc, TlCall.after]
    | waitRead =>
      cases hnode
      by_cases hv : TasAll.val (g.obj l).word = 0#32
      · rw [tas_setThread]
        simp [TasState.step, TasState.runStep, hth, hval, hv, hread, TasState.goto,
          GraphThread.tas, GraphCode.tasLocked, TasPlace.pc]
      · -- the lock is held, so the waiter reads again, and nothing has changed
        rw [hsame _ (by simp [hread, hv])]
        simp [TasState.step, TasState.runStep, hth, hval, hv, GraphThread.tas, TasPlace.pc]
    | _ => cases hnode
  · cases pl with
    | testRead n | waitRead =>
      cases hnode
      cases call <;> cases hfits
      by_cases hv : TasAll.val (g.obj l).word = 0#32
      · simp [TasState.events, hth, hv, hread, GraphThread.tas, GraphThread.tasDue,
          TasPlace.pc, callsOf]
      · simp [TasState.events, hth, hv, hread, GraphThread.tas, GraphThread.tasDue,
          TasPlace.pc, callsOf]
    | tryRead =>
      cases hnode
      cases call <;> cases hfits
      by_cases hv : TasAll.val (g.obj l).word = 0#32
      · simp [TasState.events, hth, hval, hv, hread, GraphThread.tas, GraphThread.tasDue,
          TasPlace.pc, callsOf]
      · simp [TasState.events, hth, hval, hv, hread, GraphThread.tas, GraphThread.tasDue,
          TasPlace.pc, callsOf]
    | _ => cases hnode

theorem tas_step_modify (hok : GraphOk (tasGraph cfg tm) tm g) {o : LockOp} {m : Addr}
    {f : LockObj Tid → Option (Int × LockObj Tid)} {v : Int} {obj : LockObj Tid}
    {next : Int → TasPlace} (hcode : (g.thread t).code = some c)
    (hnode : (tasGraph cfg tm).node c.lock c.place = .op o next)
    (hsaved : (g.thread t).saved = none) (ho : o.modify t = some (m, f))
    (hf : f (g.obj m) = some (v, obj)) :
    TasFollows cfg tm g t []
      { g.goto t c (next v) with obj := Function.update g.obj m obj } := by
  have hfits := hok.fits hcode
  have hcall := hok.call hcode
  have hth : g.tas.thread t = (g.thread t).tas := rfl
  have hval : ∀ l, g.tas.val l = TasAll.val (g.obj l).word := fun _ => rfl
  have hread : LockField.val.read (g.obj m) ≠ 0 ↔ TasAll.val (g.obj m).word ≠ 0 :=
    read_val_ne_zero
  unfold TasFollows GraphState.goto
  dsimp only
  rw [GraphState.setThread_thread]
  generalize g.thread t = th at *
  obtain ⟨code, locked, saved⟩ := th
  obtain rfl : code = some c := hcode
  obtain rfl : saved = none := hsaved
  obtain ⟨call, l, pl⟩ := c
  cases pl with
  | release =>
    cases hnode
    cases ho
    cases hf
    cases call <;> cases hfits
    have hnot : l ∉ locked := hcall.2 rfl
    refine .inr ⟨.unlock t l, ?_, rfl, ?_⟩
    · rw [tas_setObj (w := 0) (by simp [write_val])]
      simp [TasState.step, hth, TasState.setVal, TasState.setThread, GraphThread.tas,
        GraphCode.tasLocked, TasPlace.pc, TlCall.after, Finset.erase_insert hnot]
    · simp [TasState.events, hth, GraphThread.tas, GraphThread.tasDue, callsOf]
  | testSwap n | waitSwap | trySwap =>
    cases hnode
    cases ho
    cases hf
    cases call <;> cases hfits
    refine .inr ⟨.run t, ?_, rfl, ?_⟩
    · -- the exchange writes 1, whether the word was 0 or not
      rw [tas_setObj (w := 1) (by simp [write_val])]
      by_cases hv : TasAll.val (g.obj l).word = 0#32
      · simp [TasState.step, TasState.runStep, hth, hval, hv, hread, TasState.gets,
          TasState.setVal, GraphThread.tas, GraphCode.tasLocked, TasPlace.pc, TlCall.after]
      · simp [TasState.step, TasState.runStep, hth, hval, hv, hread, TasState.goto,
          TasState.setVal, GraphThread.tas, GraphCode.tasLocked, TasPlace.pc, TlCall.after]
    · by_cases hv : TasAll.val (g.obj l).word = 0#32
      · simp [TasState.events, hth, hval, hv, hread, GraphThread.tas, GraphThread.tasDue,
          TasPlace.pc, callsOf]
      · simp [TasState.events, hth, hval, hv, hread, GraphThread.tas, GraphThread.tasDue,
          TasPlace.pc, callsOf]
  | _ =>
    cases hnode
    try cases ho

/-- A place where a transaction begins. -/
theorem TasPlace.eq_enterHtm {l : Addr} {pl : TasPlace} {next : Int → TasPlace}
    (hnode : (tasGraph cfg tm).node l pl = .op .xbegin next) : ∃ n, pl = .enterHtm n ∧
      next = fun v => if v = xbeginStarted then .spec else .htmFailed cfg n := by
  cases pl with
  | enterHtm n =>
    cases hnode
    exact ⟨n, rfl, rfl⟩
  | _ => cases hnode

/-- Where a failed begin or an abort goes on. -/
theorem tas_htmFailed {l : Addr} {n : Word} {locked : Finset Addr} :
    (GraphThread.mk (some ⟨.lock, l, TasPlace.htmFailed cfg n⟩) locked none).tas =
      { pc := TasPc.htmFailed cfg l n, locked := locked } := by
  unfold TasPlace.htmFailed TasPc.htmFailed
  split <;> rfl

/-- A thread that goes on after an abort has shown nothing of its call. -/
theorem tasDue_htmFailed {l : Addr} {n : Word} {locked : Finset Addr} :
    (GraphThread.mk (some ⟨.lock, l, TasPlace.htmFailed cfg n⟩) locked none).tasDue = [] := by
  unfold TasPlace.htmFailed
  split <;> rfl

theorem tas_step_begin (hok : GraphOk (tasGraph cfg tm) tm g) {next : Int → TasPlace}
    (hcode : (g.thread t).code = some c)
    (hnode : (tasGraph cfg tm).node c.lock c.place = .op .xbegin next)
    (hsaved : (g.thread t).saved = none) :
    TasFollows cfg tm g t [] (g.setThread t { g.thread t with
      code := some { c with place := next xbeginStarted }
      saved := some ⟨c, (g.thread t).locked⟩ }) := by
  have hfits := hok.fits hcode
  have hth : g.tas.thread t = (g.thread t).tas := rfl
  unfold TasFollows
  rw [GraphState.setThread_thread, tas_setThread]
  generalize g.thread t = th at *
  obtain ⟨code, locked, saved⟩ := th
  obtain rfl : code = some c := hcode
  obtain rfl : saved = none := hsaved
  obtain ⟨call, l, pl⟩ := c
  obtain ⟨n, rfl, rfl⟩ := TasPlace.eq_enterHtm hnode
  cases call with
  | lock =>
    refine .inr ⟨.htmStart t, ?_, rfl, rfl⟩
    simp [TasState.step, hth, GraphThread.tas, GraphCode.tasLocked, TasPlace.pc, TasPlace.tries,
      TlCall.after]
  | trylock | unlock => cases hfits

theorem tas_step_fail (hok : GraphOk (tasGraph cfg tm) tm g) {next : Int → TasPlace}
    {status : Int} (hcode : (g.thread t).code = some c)
    (hnode : (tasGraph cfg tm).node c.lock c.place = .op .xbegin next)
    (hsaved : (g.thread t).saved = none) (hstatus : status ≠ xbeginStarted) :
    TasFollows cfg tm g t [] (g.goto t c (next status)) := by
  have hfits := hok.fits hcode
  have hth : g.tas.thread t = (g.thread t).tas := rfl
  unfold TasFollows GraphState.goto
  rw [GraphState.setThread_thread, tas_setThread]
  generalize g.thread t = th at *
  obtain ⟨code, locked, saved⟩ := th
  obtain rfl : code = some c := hcode
  obtain rfl : saved = none := hsaved
  obtain ⟨call, l, pl⟩ := c
  obtain ⟨n, rfl, rfl⟩ := TasPlace.eq_enterHtm hnode
  simp only [if_neg hstatus]
  cases call with
  | lock =>
    refine .inr ⟨.htmAbort t, ?_, rfl, ?_⟩
    · rw [tas_htmFailed]
      simp [TasState.step, hth, GraphThread.tas, TasState.goto, GraphCode.tasLocked, TasPlace.pc]
    · rw [tasDue_htmFailed]
      rfl
  | trylock | unlock => cases hfits

theorem tas_step_abort (hok : GraphOk (tasGraph cfg tm) tm g) {sv : GraphSaved TasPlace}
    {next : Int → TasPlace} {status : Int} (hsaved : (g.thread t).saved = some sv)
    (hnode : (tasGraph cfg tm).node sv.lock sv.place = .op .xbegin next)
    (hstatus : status ≠ xbeginStarted) :
    TasFollows cfg tm g t [] (g.setThread t {
      code := some { sv.toGraphCode with place := next status }
      locked := sv.locked }) := by
  have hfits := (hok.saved hsaved).2.1
  have hth : g.tas.thread t = (g.thread t).tas := rfl
  unfold TasFollows
  rw [GraphState.setThread_thread, tas_setThread]
  generalize g.thread t = th at *
  obtain ⟨code, locked, saved⟩ := th
  obtain rfl : saved = some sv := hsaved
  obtain ⟨⟨call, l, pl⟩, svLocked⟩ := sv
  obtain ⟨n, rfl, rfl⟩ := TasPlace.eq_enterHtm hnode
  simp only [if_neg hstatus]
  cases call with
  | lock =>
    refine .inr ⟨.htmAbort t, ?_, rfl, ?_⟩
    · rw [tas_htmFailed]
      simp [TasState.step, hth, GraphThread.tas, TasPlace.tries]
    · rw [tasDue_htmFailed]
      rfl
  | trylock | unlock => cases hfits

/-- A step in the graph is a step of `tas` or none. -/
theorem tas_step (hok : GraphOk (tasGraph cfg tm) tm g) {a : TlAct Tid}
    {es : List (Addr × LockEvent)} (h : GraphStep (tasGraph cfg tm) g a es g') :
    TasFollows cfg tm g (TlAct.tid a) es g' := by
  cases h with
  | own => exact .inl ⟨rfl, rfl⟩
  | call hcode hlocked => exact tas_step_call hok hcode hlocked
  | ret hcode hnode => exact tas_step_ret hok hcode hnode
  | load hcode hnode => exact tas_step_load hok hcode hnode
  | modify hcode hnode hsaved ho hf => exact tas_step_modify hok hcode hnode hsaved ho hf
  | begin hcode hnode hsaved => exact tas_step_begin hok hcode hnode hsaved
  | fail hcode hnode hsaved hstatus => exact tas_step_fail hok hcode hnode hsaved hstatus
  | abort ha hsaved hnode hstatus =>
    subst ha
    exact tas_step_abort hok hsaved hnode hstatus

end Step

/-! ## Runs -/

section Run

variable [DecidableEq Tid] {cfg : TxConfig} {tm : Bool} {s : TlState Tid}

omit [DecidableEq Tid] in
/-- In the application a thread has shown what it has returned. -/
theorem tas_of_app {g : GraphState Tid TasPlace} (hg : InGraph (tasGraph cfg.toTmParams tm) tm g s)
    {t : Tid} (happ : (s.thread t).code = .app) :
    (g.tas.thread t).pc = .out ∧ (g.tas.thread t).locked = (s.thread t).locked ∧
      (g.tas.thread t).spec.isSome = (s.tx t).isSome ∧ (g.thread t).tasDue = [] := by
  have hcode := hg.code_of_app happ
  have hlocked := (hg.thread t).locked
  have hsome := (hg.thread t).isSome
  simp only [GraphState.tas, GraphThread.tas, GraphThread.tasDue, hcode, hlocked, ← hsome,
    Option.isSome_map, true_and]
  cases (g.thread t).saved <;> rfl

/-- The runs of the code and those of `tas`. -/
theorem tas_code_rep (tm : Bool) {tr : List (TlState Tid × TlAct Tid)}
    (h : (tlSystem Tid cfg (tasType tm)).Run System.Free tr s) :
    ∃ tr' g, (tas Tid Addr cfg.toTmParams tm).Run System.Free tr' g.tas ∧
      InGraph (tasGraph cfg.toTmParams tm) tm g s ∧
      ∀ t, System.events (callsSeen TasAct.tid (TasState.events tm) t) tr' =
        tlLog t tr ++ (g.thread t).tasDue := by
  exact tl_refines_map (tasGraph_lawful cfg tm) (N := tas Tid Addr cfg.toTmParams tm) TasAct.tid
    (TasState.events tm) GraphState.tas GraphThread.tasDue rfl rfl
    (fun g a es g' hok hs => tas_step hok hs) h

/-- What the code of `tas` or `tas_tm` returns outside transactions, the system `tas` shows, and
    the two leave the same lock words. Threads in the application are told the same. -/
theorem tas_code_refines (tm : Bool) {tr : List (TlState Tid × TlAct Tid)}
    (h : (tlSystem Tid cfg (tasType tm)).Run System.Free tr s) :
    ∃ tr' A, (tas Tid Addr cfg.toTmParams tm).Run System.Free tr' A ∧
      (∀ l, A.val l = TasAll.val (s.obj l).word) ∧
      (∀ t, tlLog t tr <+: System.events (callsSeen TasAct.tid (TasState.events tm) t) tr') ∧
      ∀ t, (s.thread t).code = .app → (A.thread t).pc = .out ∧
        (A.thread t).locked = (s.thread t).locked ∧
        (A.thread t).spec.isSome = (s.tx t).isSome ∧
        System.events (callsSeen TasAct.tid (TasState.events tm) t) tr' = tlLog t tr := by
  obtain ⟨tr', g, hrun, hg, hsee⟩ := tas_code_rep tm h
  refine ⟨tr', g.tas, hrun, fun l => ?_, fun t => ?_, fun t happ => ?_⟩
  · rw [← hg.obj]
    rfl
  · rw [hsee t]
    exact List.prefix_append _ _
  · obtain ⟨hpc, hlocked, hspec, hdue⟩ := tas_of_app hg happ
    exact ⟨hpc, hlocked, hspec, by rw [hsee t, hdue, List.append_nil]⟩

/-- Thread 0 has the lock 1, and thread 1 speculates on it. -/
theorem tas_code_refines_speculating : ∃ tr s,
    (tlSystem (Fin 2) { fuel := 1 } .tasTm).Run System.Free tr s ∧ (s.tx 1).isSome = true ∧
      ∃ tr' A, (tas (Fin 2) Addr {} true).Run System.Free tr' A ∧
        (∀ l, A.val l = TasAll.val (s.obj l).word) ∧
        (∀ t, tlLog t tr <+: System.events (callsSeen TasAct.tid (TasState.events true) t) tr') ∧
        ∀ t, (s.thread t).code = .app → (A.thread t).pc = .out ∧
          (A.thread t).locked = (s.thread t).locked ∧
          (A.thread t).spec.isSome = (s.tx t).isSome ∧
          System.events (callsSeen TasAct.tid (TasState.events true) t) tr' = tlLog t tr := by
  let s₀ : TlState (Fin 2) := ⟨fun _ => {}, fun _ => {}, fun _ => none, false⟩
  let as : List (TlAct (Fin 2)) := .call 0 .lock 1 :: List.replicate 7 (.run 0 0) ++
    .call 1 .lock 1 :: List.replicate 7 (.run 1 0) ++ [.htmBegin 1]
  have htx : ((tlSystem (Fin 2) { fuel := 1 } .tasTm).exec s₀ as).map
      (fun s => (s.tx 1).isSome) = some true := by decide
  obtain ⟨s, hs, htx⟩ := Option.map_eq_some_iff.mp htx
  have hrun := (System.Run.init (M := tlSystem (Fin 2) { fuel := 1 } .tasTm) rfl).exec hs
  exact ⟨_, s, hrun, htx, tas_code_refines true hrun⟩

omit [DecidableEq Tid] in
/-- `tas` counts a thread's last lock sooner than the code does, and its unlock later. -/
theorem tas_base_subset (th : GraphThread TasPlace) : th.base ⊆ TasThread.base th.tas := by
  obtain ⟨code, locked, saved⟩ := th
  cases saved with
  | some sv => exact Finset.Subset.refl _
  | none =>
    cases code with
    | none => exact Finset.Subset.refl _
    | some c =>
      obtain ⟨call, l, pl⟩ := c
      cases pl with
      | release => exact Finset.subset_insert l locked
      | ending x => exact TlCall.subset_after call l x locked
      | spec => exact TlCall.subset_after call l 0 locked
      | _ => exact Finset.Subset.refl _

/-- Two threads that run the code of `tas` or `tas_tm` never both have a lock outside
    transactions. -/
theorem tas_code_exclusive (tm : Bool) {tr : List (TlState Tid × TlAct Tid)}
    (h : (tlSystem Tid cfg (tasType tm)).Run System.Free tr s) {t u : Tid} {l : Addr}
    (ht : l ∈ TlState.base s t) (hu : l ∈ TlState.base s u) : t = u := by
  obtain ⟨tr', g, hrun, hg, -⟩ := tas_code_rep tm h
  rw [← hg.base] at ht hu
  exact ((tas_inv hrun).word l).unique (tas_base_subset _ ht) (tas_base_subset _ hu)

end Run

end TxLock.Spec
