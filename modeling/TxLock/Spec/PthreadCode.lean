import TxLock.Spec.LockFields
import TxLock.Spec.PthreadTrylock
import TxLock.Spec.TlGraph

/-!
# The code of the mutex locks

Threads that run the code of `pthread` or `pthread_tm`, operation by operation, do what the
system `pthreadMutex` does, whose steps are the calls of libpthread.

## Key results

- `pthreadGraph_lawful`: the control graph of the functions
- `pthread_step`: a step in the graph is a step of `pthreadMutex` or none
- `pthread_code_refines`: what the code returns, `pthreadMutex` shows, and it leaves the same
  mutexes
-/

namespace TxLock.Spec

open Native Prog

variable {Tid : Type}

/-! ## The graph -/

/-- Where a thread is in the code of `pthread` or `pthread_tm`. -/
inductive PthreadPlace where
  | mutexLock
  /-- `pthread_lock_tm`, in the loop that speculates. -/
  | testTrylock (tries : Word)
  | enterHtm (tries : Word)
  /-- The trylocks. -/
  | mutexTrylock
  /-- The unlocks. -/
  | mutexUnlock
  /-- About to return `x`, with nothing left to do on the mutex. -/
  | ending (x : Int)
  /-- In a transaction, where the functions of `pthread_tm` return 0. -/
  | spec
  deriving DecidableEq, Repr

/-- `enter_htm` returned 1 in `pthread_lock_tm`. -/
def PthreadPlace.htmFailed (cfg : TmParams) (tries : Word) : PthreadPlace :=
  if tries + 1 ≥ cfg.numTries then .mutexLock else .testTrylock (tries + 1)

/-- What the functions do at a place. -/
def PthreadPlace.node (cfg : TmParams) (tm : Bool) (l : Addr) :
    PthreadPlace → GraphNode LockOp PthreadPlace
  -- the functions of `pthread_tm` drop what lock and unlock return
  | .mutexLock => .op (.pthreadMutexLock l) fun v => .ending (if tm then 0 else v)
  | .testTrylock n => .op (.pthreadMutexTrylock l) fun v => if v = 0 then .ending 0 else .enterHtm n
  | .enterHtm n => .op .xbegin fun v => if v = xbeginStarted then .spec else .htmFailed cfg n
  | .mutexTrylock => .op (.pthreadMutexTrylock l) fun v => .ending v
  | .mutexUnlock => .op (.pthreadMutexUnlock l) fun v => .ending (if tm then 0 else v)
  | .ending x => .ret x
  | .spec => .ret 0

/-- The places of a call. -/
def PthreadPlace.fits (tm : Bool) : TlCall → PthreadPlace → Bool
  | .lock, .testTrylock _ | .lock, .enterHtm _ => tm
  | .lock, .mutexLock | .trylock, .mutexTrylock | .unlock, .mutexUnlock | _, .ending _ => true
  | _, .spec => tm
  | _, _ => false

/-- The functions of `pthread` or (`tm`) `pthread_tm`. -/
def pthreadGraph (cfg : TmParams) (tm : Bool) : LockGraph PthreadPlace where
  node := PthreadPlace.node cfg tm
  start
    | _, true => .spec
    | .lock, false => if tm then .testTrylock 0 else .mutexLock
    | .trylock, false => .mutexTrylock
    | .unlock, false => .mutexUnlock
  inTx
    | .spec => true
    | _ => false
  fits := PthreadPlace.fits tm

section Lawful

variable {cfg : TxConfig} {tm : Bool} {l : Addr} {w x : Int}

/-- Where nothing is left to do on the mutex outside a transaction. -/
theorem pthreadGraph_ends_ending :
    (pthreadGraph cfg.toTmParams tm).Ends l x 0 (.ending x) :=
  ⟨rfl, by simp [pthreadGraph]⟩

theorem pthreadGraph_ends_spec (hw : w ≠ 0) :
    (pthreadGraph cfg.toTmParams tm).Ends l 0 w .spec :=
  ⟨rfl, by simp [pthreadGraph, hw]⟩

theorem pthreadLock_goes :
    (pthreadGraph cfg.toTmParams false).Goes (pthreadLock l) l 0 .mutexLock := by
  unfold pthreadLock LockGraph.Goes
  simp only [bind_eq, walks_bind, walks_tmStatsAdd, walks_tmStatsSubRdtsc, pure_eq, walks_ret]
  exact walks_perform rfl rfl fun _ => pthreadGraph_ends_ending

theorem pthreadTrylock_goes :
    (pthreadGraph cfg.toTmParams tm).Goes (pthreadTrylock l) l 0 .mutexTrylock := by
  unfold pthreadTrylock LockGraph.Goes
  rw [bind_eq, walks_bind]
  refine walks_perform rfl rfl fun v => ?_
  split <;> simp only [bind_eq, walks_bind, walks_tmStatsAdd, walks_tmStatsSubRdtsc, pure_eq,
    walks_ret] <;> exact pthreadGraph_ends_ending

theorem pthreadUnlock_goes :
    (pthreadGraph cfg.toTmParams false).Goes (pthreadUnlock l) l 0 .mutexUnlock := by
  unfold pthreadUnlock LockGraph.Goes
  simp only [bind_eq, walks_bind, walks_tmStatsAddRdtsc, pure_eq, walks_ret]
  exact walks_perform rfl rfl fun _ => pthreadGraph_ends_ending

/-- The loop that speculates. -/
theorem pthreadLockTmLoop_walks {Q : Bool → Int → PthreadPlace → Prop}
    (hgot : Q false 0 (.ending 0)) (hspec : Q true l .spec) :
    (pthreadLockTmLoop cfg l).Walks (PthreadPlace.node cfg.toTmParams true l) ownOp Q 0
      (.testTrylock 0) := by
  unfold pthreadLockTmLoop
  refine walks_loop (I := fun tries w pl => w = 0 ∧ pl = .testTrylock tries) ?_ _ ⟨rfl, rfl⟩
  rintro tries w pl ⟨rfl, rfl⟩
  simp only [bind_eq, walks_bind]
  refine walks_perform rfl rfl fun v => ?_
  by_cases hv : v = 0
  · simp only [if_pos hv]
    exact hgot
  · -- the mutex is taken
    simp only [if_neg hv, walks_bind]
    refine walks_enterHtm rfl ?_ fun status hstatus => ?_
    · simpa using hspec
    · simp only [Int.one_ne_zero, if_false, walks_ite, if_neg hstatus, PthreadPlace.htmFailed]
      split
      · rw [walks_bind]
        exact walks_perform rfl rfl fun _ => hgot
      · exact ⟨rfl, rfl⟩

theorem pthreadLockTm_goes (hl : l ≠ 0) :
    (pthreadGraph cfg.toTmParams true).Goes (pthreadLockTm cfg l) l 0 (.testTrylock 0) := by
  unfold pthreadLockTm LockGraph.Goes
  simp only [bind_eq, walks_bind, walks_specEntry, ne_eq, not_true_eq_false, if_false,
    walks_tmStatsAdd]
  apply pthreadLockTmLoop_walks
  · simp only [Bool.false_eq_true, if_false, walks_bind, walks_tmStatsSubRdtsc, pure_eq, walks_ret]
    exact pthreadGraph_ends_ending
  · exact pthreadGraph_ends_spec hl

theorem pthreadTrylockTm_goes :
    (pthreadGraph cfg.toTmParams true).Goes (pthreadTrylockTm l) l 0 .mutexTrylock := by
  unfold pthreadTrylockTm LockGraph.Goes
  simp only [bind_eq, walks_bind, walks_specEntry, ne_eq, not_true_eq_false, if_false]
  refine walks_perform rfl rfl fun v => ?_
  split <;> simp only [walks_bind, walks_tmStatsAdd, walks_tmStatsAddRdtsc, pure_eq,
    walks_ret] <;> exact pthreadGraph_ends_ending

theorem pthreadUnlockTm_goes :
    (pthreadGraph cfg.toTmParams true).Goes (pthreadUnlockTm l) l 0 .mutexUnlock := by
  unfold pthreadUnlockTm LockGraph.Goes
  simp only [bind_eq, walks_bind, walks_specEntry, ne_eq, not_true_eq_false, if_false,
    walks_tmStatsAddRdtsc, pure_eq, walks_ret]
  exact walks_perform rfl rfl fun _ => pthreadGraph_ends_ending

/-- In a transaction the functions of `pthread_tm` do nothing and return 0. -/
theorem pthreadTm_goes_spec (hw : w ≠ 0) (c : TlCall) :
    (pthreadGraph cfg.toTmParams true).Goes (c.prog cfg .pthreadTm l) l w .spec := by
  unfold LockGraph.Goes
  cases c with
  | lock =>
    simp only [TlCall.prog, tlLock, lockTypes, pthreadLockTm, bind_eq, walks_bind,
      walks_specEntry, if_pos hw, pure_eq, walks_ret]
    exact pthreadGraph_ends_spec hw
  | trylock =>
    simp only [TlCall.prog, tlTrylock, lockTypes, pthreadTrylockTm, bind_eq, walks_bind,
      walks_specEntry, if_pos hw, pure_eq, walks_ret]
    exact pthreadGraph_ends_spec hw
  | unlock =>
    simp only [TlCall.prog, tlUnlock, lockTypes, pthreadUnlockTm, bind_eq, walks_bind,
      walks_specEntry, if_pos hw, pure_eq, walks_ret]
    exact pthreadGraph_ends_spec hw

/-- `pthread` or (`tm`) `pthread_tm`. -/
def pthreadType (tm : Bool) : LockType := if tm then .pthreadTm else .pthread

theorem pthreadGraph_lawful (cfg : TxConfig) (tm : Bool) :
    (pthreadGraph cfg.toTmParams tm).Lawful cfg (pthreadType tm) tm where
  goes c l hl := by
    cases tm with
    | false =>
      cases c with
      | lock => exact pthreadLock_goes
      | trylock => exact pthreadTrylock_goes
      | unlock => exact pthreadUnlock_goes
    | true =>
      cases c with
      | lock => exact pthreadLockTm_goes hl
      | trylock => exact pthreadTrylockTm_goes
      | unlock => exact pthreadUnlockTm_goes
  goes_tx htm c l w _ hw := by
    subst htm
    exact pthreadTm_goes_spec hw c
  start_inTx c b := by
    cases c <;> cases b <;> cases tm <;> rfl
  start_fits c b hb := by
    cases c <;> cases b <;> cases tm <;> first | rfl | cases hb rfl
  node_tx c l pl o next _ hin hnode := by
    cases pl with
    | spec => cases hnode
    | _ => cases hin
  node_out c l pl o next hfits hin hnode := by
    cases pl with
    | mutexLock | mutexTrylock | mutexUnlock =>
      cases hnode
      exact .inl ⟨.inr trivial, fun _ => ⟨rfl, by cases c <;> rfl⟩⟩
    | testTrylock n =>
      cases hnode
      refine .inl ⟨.inr trivial, fun v => ?_⟩
      -- both places an answer leads to belong to the same call
      dsimp only
      split <;> cases c <;> first | exact ⟨rfl, rfl⟩ | exact ⟨rfl, hfits⟩
    | enterHtm n =>
      cases hnode
      cases c with
      | lock =>
        refine .inr ⟨rfl, hfits, fun v => ?_⟩
        dsimp only
        by_cases hv : v = xbeginStarted
        · rw [if_pos hv, decide_eq_true hv]
          exact ⟨rfl, hfits⟩
        · rw [if_neg hv, decide_eq_false hv]
          unfold PthreadPlace.htmFailed
          split
          · exact ⟨rfl, rfl⟩
          · exact ⟨rfl, hfits⟩
      | trylock | unlock => cases hfits
    | ending x | spec => cases hnode

end Lawful

/-! ## What the places stand for -/

/-- The place in `pthreadMutex` of a call on `l`. -/
def PthreadPlace.pc (l : Addr) : PthreadPlace → PthreadPc Addr
  | .mutexLock => .mutexLock l
  | .testTrylock n => .testTrylock l n
  | .enterHtm n => .enterHtm l n
  | .mutexTrylock => .mutexTrylock l
  | .mutexUnlock => .mutexUnlock l
  | .ending _ | .spec => .out

/-- The tries at the begin of a transaction. -/
def PthreadPlace.tries : PthreadPlace → Word
  | .enterHtm n => n
  | _ => 0

/-- The locks a thread has in `pthreadMutex`: in its last steps on the way out those it is about
    to be told of. -/
def GraphCode.pthreadLocked (c : GraphCode PthreadPlace) (locked : Finset Addr) : Finset Addr :=
  match c.place with
  | .ending x => c.call.after c.lock x locked
  | .spec => c.call.after c.lock 0 locked
  | _ => locked

/-- The thread of `pthreadMutex` that a thread in the graph stands for. -/
def GraphThread.pthread (g : GraphThread PthreadPlace) : PthreadThread Addr where
  pc := match g.code with
    | some c => c.place.pc c.lock
    | none => .out
  locked := match g.code with
    | some c => c.pthreadLocked g.locked
    | none => g.locked
  spec := g.saved.map fun sv => ⟨sv.lock, sv.place.tries, sv.locked⟩

/-- The state of `pthreadMutex` that threads in the graph stand for. -/
def GraphState.pthread (g : GraphState Tid PthreadPlace) : PthreadState Tid Addr where
  mutex l := (g.obj l).mutex
  thread t := (g.thread t).pthread

/-- What `pthreadMutex` has shown of the call a thread is in. -/
def GraphThread.pthreadDue (g : GraphThread PthreadPlace) : List (Addr × LockEvent) :=
  match g.saved, g.code with
  | none, some ⟨.lock, l, .ending x⟩ => [(l, .answer x)]
  | none, some ⟨.trylock, l, .ending x⟩ => [(l, .tryCall), (l, .answer x)]
  | none, some ⟨.trylock, l, _⟩ => [(l, .tryCall)]
  | none, some ⟨.unlock, l, _⟩ => [(l, .unlockCall)]
  | _, _ => []

/-! ## Steps -/

section Step

variable [DecidableEq Tid] {cfg : TmParams} {tm : Bool} {g g' : GraphState Tid PthreadPlace}
  {t : Tid} {c : GraphCode PthreadPlace}

theorem pthread_setThread {th : GraphThread PthreadPlace} :
    (g.setThread t th).pthread = g.pthread.setThread t th.pthread := by
  unfold GraphState.setThread GraphState.pthread PthreadState.setThread
  congr 1
  funext u
  by_cases hu : u = t
  · simp [hu]
  · simp [hu]

/-- A thread whose place stands for the same as before. -/
theorem pthread_setThread_eq {th : GraphThread PthreadPlace}
    (h : th.pthread = (g.thread t).pthread) :
    (g.setThread t th).pthread = g.pthread := by
  rw [pthread_setThread, h]
  unfold PthreadState.setThread GraphState.pthread
  simp only [PthreadState.mk.injEq, true_and]
  exact Function.update_eq_self t _

/-- A step that changes a mutex as well. -/
theorem pthread_setObj {th : GraphThread PthreadPlace} {m : Addr} {obj : LockObj Tid} :
    ({ g.setThread t th with obj := Function.update g.obj m obj } :
      GraphState Tid PthreadPlace).pthread =
      (g.pthread.setMutex m obj.mutex).setThread t th.pthread := by
  have hth : (g.setThread t th).pthread = g.pthread.setThread t th.pthread := pthread_setThread
  simp only [GraphState.pthread, PthreadState.setThread, PthreadState.setMutex,
    PthreadState.mk.injEq] at hth ⊢
  refine ⟨?_, hth.2⟩
  funext l
  by_cases hl : l = m
  · simp [hl]
  · simp [hl]

/-- What a step of thread `t` that returns `es` is to `pthreadMutex`. -/
def PthreadFollows (cfg : TmParams) (tm : Bool) (g : GraphState Tid PthreadPlace) (t : Tid)
    (es : List (Addr × LockEvent)) (g' : GraphState Tid PthreadPlace) : Prop :=
  (g'.pthread = g.pthread ∧ es ++ (g'.thread t).pthreadDue = (g.thread t).pthreadDue) ∨
  ∃ a, PthreadState.step cfg tm g.pthread a = some g'.pthread ∧ PthreadAct.tid a = t ∧
    (g.thread t).pthreadDue ++ callsOf (PthreadState.events tm g.pthread a) =
      es ++ (g'.thread t).pthreadDue

theorem pthread_step_call (hok : GraphOk (pthreadGraph cfg tm) tm g) {c : TlCall} {l : Addr}
    (hcode : (g.thread t).code = none) (hlocked : c = .unlock → l ∈ (g.thread t).locked) :
    PthreadFollows cfg tm g t [] (g.setThread t { g.thread t with
      code := some ⟨c, l, (pthreadGraph cfg tm).start c (g.thread t).saved.isSome⟩
      locked := c.before l (g.thread t).locked }) := by
  have htm : ∀ sv, (g.thread t).saved = some sv → tm = true :=
    fun sv hsv => (hok.saved hsv).1
  have hth : g.pthread.thread t = (g.thread t).pthread := rfl
  have hsame : ∀ th, th.pthread = (g.thread t).pthread → (g.setThread t th).pthread = g.pthread :=
    fun th => pthread_setThread_eq
  unfold PthreadFollows
  rw [GraphState.setThread_thread]
  generalize g.thread t = th at *
  obtain ⟨code, locked, saved⟩ := th
  obtain rfl : code = none := hcode
  cases saved with
  -- outside a transaction the call starts the code
  | none =>
    cases c with
    | lock =>
      refine .inr ⟨.lock t l, ?_, rfl, ?_⟩
      · rw [pthread_setThread]
        cases tm <;> simp [PthreadState.step, PthreadState.goto, hth, GraphThread.pthread,
          pthreadGraph,
          GraphCode.pthreadLocked, PthreadPlace.pc, TlCall.before]
      · cases tm <;> rfl
    | trylock =>
      refine .inr ⟨.trylock t l, ?_, rfl, ?_⟩
      · rw [pthread_setThread]
        simp [PthreadState.step, PthreadState.goto, hth, GraphThread.pthread, pthreadGraph,
          GraphCode.pthreadLocked, PthreadPlace.pc, TlCall.before]
      · simp [PthreadState.events, hth, GraphThread.pthread, callsOf, GraphThread.pthreadDue,
          pthreadGraph]
    | unlock =>
      refine .inr ⟨.unlock t l, ?_, rfl, ?_⟩
      · rw [pthread_setThread]
        simp [PthreadState.step, hth, GraphThread.pthread, pthreadGraph, GraphCode.pthreadLocked,
          PthreadPlace.pc, TlCall.before, hlocked]
      · simp [PthreadState.events, hth, GraphThread.pthread, callsOf, GraphThread.pthreadDue]
  -- in a transaction of `pthread_tm` the call only records what it is told
  | some sv =>
    obtain rfl := htm sv rfl
    cases c with
    | lock =>
      refine .inr ⟨.lock t l, ?_, rfl, rfl⟩
      rw [pthread_setThread]
      simp [PthreadState.step, PthreadState.gets, hth, GraphThread.pthread, pthreadGraph,
        GraphCode.pthreadLocked, PthreadPlace.pc, TlCall.before, TlCall.after]
    | trylock =>
      refine .inr ⟨.trylock t l, ?_, rfl, ?_⟩
      · rw [pthread_setThread]
        simp [PthreadState.step, PthreadState.gets, hth, GraphThread.pthread, pthreadGraph,
          GraphCode.pthreadLocked, PthreadPlace.pc, TlCall.before, TlCall.after]
      · simp [PthreadState.events, hth, GraphThread.pthread, callsOf, GraphThread.pthreadDue]
    | unlock =>
      refine .inr ⟨.unlock t l, ?_, rfl, ?_⟩
      · rw [pthread_setThread]
        simp [PthreadState.step, hth, GraphThread.pthread, pthreadGraph, GraphCode.pthreadLocked,
          PthreadPlace.pc,
          TlCall.before, TlCall.after, hlocked]
      · simp [PthreadState.events, hth, GraphThread.pthread, callsOf, GraphThread.pthreadDue]

theorem pthread_step_ret (hok : GraphOk (pthreadGraph cfg tm) tm g) {x : Int}
    (hcode : (g.thread t).code = some c)
    (hnode : (pthreadGraph cfg tm).node c.lock c.place = .ret x) :
    PthreadFollows cfg tm g t
      (if (g.thread t).saved = none then TlCall.events c.call c.lock x else [])
      (g.setThread t { g.thread t with
        code := none, locked := c.call.after c.lock x (g.thread t).locked }) := by
  have hin := hok.inTx hcode
  have hsame : ∀ th, th.pthread = (g.thread t).pthread → (g.setThread t th).pthread = g.pthread :=
    fun th => pthread_setThread_eq
  unfold PthreadFollows
  rw [GraphState.setThread_thread]
  generalize g.thread t = th at *
  obtain ⟨code, locked, saved⟩ := th
  obtain rfl : code = some c := hcode
  obtain ⟨call, l, pl⟩ := c
  refine .inl ⟨hsame _ ?_, ?_⟩
  · cases pl with
    | ending y | spec =>
      cases hnode
      simp [GraphThread.pthread, GraphCode.pthreadLocked, PthreadPlace.pc]
    | _ => cases hnode
  · cases pl with
    | ending y =>
      cases hnode
      obtain rfl : saved = none := by simpa [pthreadGraph] using hin
      cases call <;> rfl
    | spec =>
      have hsaved : saved ≠ none := by
        rintro rfl
        cases hin
      cases saved with
      | none => exact (hsaved rfl).elim
      | some sv => rfl
    | _ => cases hnode

/-- The code reads no words of the mutexes. -/
theorem pthread_step_load {m : Addr} {f : LockField} {next : Int → PthreadPlace}
    (hnode : (pthreadGraph cfg tm).node c.lock c.place = .op (.load (.lock m f)) next) : False := by
  obtain ⟨call, l, pl⟩ := c
  cases pl <;> cases hnode

theorem pthread_step_modify (hok : GraphOk (pthreadGraph cfg tm) tm g) {o : LockOp} {m : Addr}
    {f : LockObj Tid → Option (Int × LockObj Tid)} {v : Int} {obj : LockObj Tid}
    {next : Int → PthreadPlace} (hcode : (g.thread t).code = some c)
    (hnode : (pthreadGraph cfg tm).node c.lock c.place = .op o next)
    (hsaved : (g.thread t).saved = none) (ho : o.modify t = some (m, f))
    (hf : f (g.obj m) = some (v, obj)) :
    PthreadFollows cfg tm g t []
      { g.goto t c (next v) with obj := Function.update g.obj m obj } := by
  have hfits := hok.fits hcode
  have hth : g.pthread.thread t = (g.thread t).pthread := rfl
  have hmutex : ∀ l, g.pthread.mutex l = (g.obj l).mutex := fun _ => rfl
  unfold PthreadFollows GraphState.goto
  dsimp only
  rw [GraphState.setThread_thread, pthread_setObj]
  generalize g.thread t = th at *
  obtain ⟨code, locked, saved⟩ := th
  obtain rfl : code = some c := hcode
  obtain rfl : saved = none := hsaved
  obtain ⟨call, l, pl⟩ := c
  cases pl with
  -- the call of the mutex returns, with the lock or with an error
  | mutexLock =>
    cases hnode
    cases ho
    cases call <;> cases hfits
    obtain ⟨r, hlock, hr⟩ := Option.map_eq_some_iff.mp hf
    cases hr
    refine .inr ⟨.run t, ?_, rfl, ?_⟩
    · by_cases hret : r.1 = 0
      · simp [PthreadState.step, PthreadState.runStep, hth, hmutex, hlock, hret,
          PthreadState.gets, PthreadState.setMutex, GraphThread.pthread,
          GraphCode.pthreadLocked, PthreadPlace.pc, TlCall.after]
      · cases tm <;> simp [PthreadState.step, PthreadState.runStep, hth, hmutex, hlock, hret,
          PthreadState.gets, PthreadState.goto, PthreadState.setMutex, GraphThread.pthread,
          GraphCode.pthreadLocked, PthreadPlace.pc, TlCall.after]
    · by_cases hret : r.1 = 0 <;> simp [PthreadState.events, hth, hmutex, hlock, hret,
        GraphThread.pthread, GraphThread.pthreadDue, PthreadPlace.pc, callsOf]
  -- the attempt of `lock` and the call of `trylock` differ in what comes next
  | testTrylock n | mutexTrylock =>
    cases hnode
    cases ho
    cases hf
    cases call <;> cases hfits
    refine .inr ⟨.run t, ?_, rfl, ?_⟩
    · by_cases hret : ((g.obj l).mutex.trylock t).1 = 0
      · simp [PthreadState.step, PthreadState.runStep, hth, hmutex, hret,
          PthreadState.gets, PthreadState.setMutex, GraphThread.pthread,
          GraphCode.pthreadLocked, PthreadPlace.pc, TlCall.after]
      · simp [PthreadState.step, PthreadState.runStep, hth, hmutex, hret,
          PthreadState.goto, PthreadState.setMutex, GraphThread.pthread,
          GraphCode.pthreadLocked, PthreadPlace.pc, TlCall.after]
    · by_cases hret : ((g.obj l).mutex.trylock t).1 = 0 <;> simp [PthreadState.events, hth, hmutex,
        hret, GraphThread.pthread, GraphThread.pthreadDue, PthreadPlace.pc, callsOf]
  | mutexUnlock =>
    cases hnode
    cases ho
    cases call <;> cases hfits
    obtain ⟨r, hunlock, hr⟩ := Option.map_eq_some_iff.mp hf
    cases hr
    refine .inr ⟨.run t, ?_, rfl, ?_⟩
    · simp [PthreadState.step, PthreadState.runStep, hth, hmutex, hunlock, PthreadState.goto,
        PthreadState.setMutex, GraphThread.pthread, GraphCode.pthreadLocked, PthreadPlace.pc,
        TlCall.after]
    · simp [PthreadState.events, hth, GraphThread.pthread, GraphThread.pthreadDue,
        PthreadPlace.pc, callsOf]
  | _ =>
    cases hnode
    try cases ho

/-- A place where a transaction begins. -/
theorem PthreadPlace.eq_enterHtm {l : Addr} {pl : PthreadPlace} {next : Int → PthreadPlace}
    (hnode : (pthreadGraph cfg tm).node l pl = .op .xbegin next) : ∃ n, pl = .enterHtm n ∧
      next = fun v => if v = xbeginStarted then .spec else .htmFailed cfg n := by
  cases pl with
  | enterHtm n =>
    cases hnode
    exact ⟨n, rfl, rfl⟩
  | _ => cases hnode

/-- Where a failed begin or an abort goes on. -/
theorem pthread_htmFailed {l : Addr} {n : Word} {locked : Finset Addr} :
    (GraphThread.mk (some ⟨.lock, l, PthreadPlace.htmFailed cfg n⟩) locked none).pthread =
      { pc := PthreadPc.htmFailed cfg l n, locked := locked } := by
  unfold PthreadPlace.htmFailed PthreadPc.htmFailed
  split <;> rfl

/-- A thread that goes on after an abort has shown nothing of its call. -/
theorem pthreadDue_htmFailed {l : Addr} {n : Word} {locked : Finset Addr} :
    (GraphThread.mk (some ⟨.lock, l, PthreadPlace.htmFailed cfg n⟩) locked none).pthreadDue =
      [] := by
  unfold PthreadPlace.htmFailed
  split <;> rfl

theorem pthread_step_begin (hok : GraphOk (pthreadGraph cfg tm) tm g) {next : Int → PthreadPlace}
    (hcode : (g.thread t).code = some c)
    (hnode : (pthreadGraph cfg tm).node c.lock c.place = .op .xbegin next)
    (hsaved : (g.thread t).saved = none) :
    PthreadFollows cfg tm g t [] (g.setThread t { g.thread t with
      code := some { c with place := next xbeginStarted }
      saved := some ⟨c, (g.thread t).locked⟩ }) := by
  have hfits := hok.fits hcode
  have hth : g.pthread.thread t = (g.thread t).pthread := rfl
  unfold PthreadFollows
  rw [GraphState.setThread_thread, pthread_setThread]
  generalize g.thread t = th at *
  obtain ⟨code, locked, saved⟩ := th
  obtain rfl : code = some c := hcode
  obtain rfl : saved = none := hsaved
  obtain ⟨call, l, pl⟩ := c
  obtain ⟨n, rfl, rfl⟩ := PthreadPlace.eq_enterHtm hnode
  cases call with
  | lock =>
    refine .inr ⟨.htmStart t, ?_, rfl, rfl⟩
    simp [PthreadState.step, hth, GraphThread.pthread, GraphCode.pthreadLocked, PthreadPlace.pc,
      PthreadPlace.tries,
      TlCall.after]
  | trylock | unlock => cases hfits

theorem pthread_step_fail (hok : GraphOk (pthreadGraph cfg tm) tm g) {next : Int → PthreadPlace}
    {status : Int} (hcode : (g.thread t).code = some c)
    (hnode : (pthreadGraph cfg tm).node c.lock c.place = .op .xbegin next)
    (hsaved : (g.thread t).saved = none) (hstatus : status ≠ xbeginStarted) :
    PthreadFollows cfg tm g t [] (g.goto t c (next status)) := by
  have hfits := hok.fits hcode
  have hth : g.pthread.thread t = (g.thread t).pthread := rfl
  unfold PthreadFollows GraphState.goto
  rw [GraphState.setThread_thread, pthread_setThread]
  generalize g.thread t = th at *
  obtain ⟨code, locked, saved⟩ := th
  obtain rfl : code = some c := hcode
  obtain rfl : saved = none := hsaved
  obtain ⟨call, l, pl⟩ := c
  obtain ⟨n, rfl, rfl⟩ := PthreadPlace.eq_enterHtm hnode
  simp only [if_neg hstatus]
  cases call with
  | lock =>
    refine .inr ⟨.htmAbort t, ?_, rfl, ?_⟩
    · rw [pthread_htmFailed]
      simp [PthreadState.step, hth, GraphThread.pthread, PthreadState.goto,
        GraphCode.pthreadLocked, PthreadPlace.pc]
    · rw [pthreadDue_htmFailed]
      rfl
  | trylock | unlock => cases hfits

theorem pthread_step_abort (hok : GraphOk (pthreadGraph cfg tm) tm g) {sv : GraphSaved PthreadPlace}
    {next : Int → PthreadPlace} {status : Int} (hsaved : (g.thread t).saved = some sv)
    (hnode : (pthreadGraph cfg tm).node sv.lock sv.place = .op .xbegin next)
    (hstatus : status ≠ xbeginStarted) :
    PthreadFollows cfg tm g t [] (g.setThread t {
      code := some { sv.toGraphCode with place := next status }
      locked := sv.locked }) := by
  have hfits := (hok.saved hsaved).2.1
  have hth : g.pthread.thread t = (g.thread t).pthread := rfl
  unfold PthreadFollows
  rw [GraphState.setThread_thread, pthread_setThread]
  generalize g.thread t = th at *
  obtain ⟨code, locked, saved⟩ := th
  obtain rfl : saved = some sv := hsaved
  obtain ⟨⟨call, l, pl⟩, svLocked⟩ := sv
  obtain ⟨n, rfl, rfl⟩ := PthreadPlace.eq_enterHtm hnode
  simp only [if_neg hstatus]
  cases call with
  | lock =>
    refine .inr ⟨.htmAbort t, ?_, rfl, ?_⟩
    · rw [pthread_htmFailed]
      simp [PthreadState.step, hth, GraphThread.pthread, PthreadPlace.tries]
    · rw [pthreadDue_htmFailed]
      rfl
  | trylock | unlock => cases hfits

/-- A step in the graph is a step of `pthreadMutex` or none. -/
theorem pthread_step (hok : GraphOk (pthreadGraph cfg tm) tm g) {a : TlAct Tid}
    {es : List (Addr × LockEvent)} (h : GraphStep (pthreadGraph cfg tm) g a es g') :
    PthreadFollows cfg tm g (TlAct.tid a) es g' := by
  cases h with
  | own => exact .inl ⟨rfl, rfl⟩
  | call hcode hlocked => exact pthread_step_call hok hcode hlocked
  | ret hcode hnode => exact pthread_step_ret hok hcode hnode
  | load _ hnode => exact (pthread_step_load hnode).elim
  | modify hcode hnode hsaved ho hf => exact pthread_step_modify hok hcode hnode hsaved ho hf
  | begin hcode hnode hsaved => exact pthread_step_begin hok hcode hnode hsaved
  | fail hcode hnode hsaved hstatus => exact pthread_step_fail hok hcode hnode hsaved hstatus
  | abort ha hsaved hnode hstatus =>
    subst ha
    exact pthread_step_abort hok hsaved hnode hstatus

end Step

/-! ## Runs -/

section Run

variable [DecidableEq Tid] {cfg : TxConfig} {tm : Bool} {s : TlState Tid}

omit [DecidableEq Tid] in
/-- In the application a thread has shown what it has returned. -/
theorem pthread_of_app {g : GraphState Tid PthreadPlace}
    (hg : InGraph (pthreadGraph cfg.toTmParams tm) tm g s)
    {t : Tid} (happ : (s.thread t).code = .app) :
    (g.pthread.thread t).pc = .out ∧ (g.pthread.thread t).locked = (s.thread t).locked ∧
      (g.pthread.thread t).spec.isSome = (s.tx t).isSome ∧ (g.thread t).pthreadDue = [] := by
  have hcode := hg.code_of_app happ
  have hlocked := (hg.thread t).locked
  have hsome := (hg.thread t).isSome
  simp only [GraphState.pthread, GraphThread.pthread, GraphThread.pthreadDue, hcode, hlocked,
    ← hsome,
    Option.isSome_map, true_and]
  cases (g.thread t).saved <;> rfl

/-- The runs of the code and those of `pthreadMutex`. -/
theorem pthread_code_rep (tm : Bool) {tr : List (TlState Tid × TlAct Tid)}
    (h : (tlSystem Tid cfg (pthreadType tm)).Run System.Free tr s) :
    ∃ tr' g, (pthreadMutex Tid Addr cfg.toTmParams tm).Run System.Free tr' g.pthread ∧
      InGraph (pthreadGraph cfg.toTmParams tm) tm g s ∧
      ∀ t, System.events (callsSeen PthreadAct.tid (PthreadState.events tm) t) tr' =
        tlLog t tr ++ (g.thread t).pthreadDue := by
  exact tl_refines_map (pthreadGraph_lawful cfg tm)
    (N := pthreadMutex Tid Addr cfg.toTmParams tm) PthreadAct.tid (PthreadState.events tm)
    GraphState.pthread GraphThread.pthreadDue rfl rfl
    (fun g a es g' hok hs => pthread_step hok hs) h

/-- What the code of `pthread` or `pthread_tm` returns outside transactions, the system
    `pthreadMutex` shows, and the two leave the same mutexes. Threads in the application are told
    the same. -/
theorem pthread_code_refines (tm : Bool) {tr : List (TlState Tid × TlAct Tid)}
    (h : (tlSystem Tid cfg (pthreadType tm)).Run System.Free tr s) :
    ∃ tr' A, (pthreadMutex Tid Addr cfg.toTmParams tm).Run System.Free tr' A ∧
      (∀ l, A.mutex l = (s.obj l).mutex) ∧
      (∀ t, tlLog t tr <+:
        System.events (callsSeen PthreadAct.tid (PthreadState.events tm) t) tr') ∧
      ∀ t, (s.thread t).code = .app → (A.thread t).pc = .out ∧
        (A.thread t).locked = (s.thread t).locked ∧
        (A.thread t).spec.isSome = (s.tx t).isSome ∧
        System.events (callsSeen PthreadAct.tid (PthreadState.events tm) t) tr' = tlLog t tr := by
  obtain ⟨tr', g, hrun, hg, hsee⟩ := pthread_code_rep tm h
  refine ⟨tr', g.pthread, hrun, fun l => ?_, fun t => ?_, fun t happ => ?_⟩
  · rw [← hg.obj]
    rfl
  · rw [hsee t]
    exact List.prefix_append _ _
  · obtain ⟨hpc, hlocked, hspec, hdue⟩ := pthread_of_app hg happ
    exact ⟨hpc, hlocked, hspec, by rw [hsee t, hdue, List.append_nil]⟩

/-- Thread 0 has the lock 1, and thread 1 speculates on it. -/
theorem pthread_code_refines_speculating : ∃ tr s,
    (tlSystem (Fin 2) { fuel := 1 } .pthreadTm).Run System.Free tr s ∧ (s.tx 1).isSome = true ∧
      ∃ tr' A, (pthreadMutex (Fin 2) Addr {} true).Run System.Free tr' A ∧
        (∀ l, A.mutex l = (s.obj l).mutex) ∧
        (∀ t, tlLog t tr <+:
          System.events (callsSeen PthreadAct.tid (PthreadState.events true) t) tr') ∧
        ∀ t, (s.thread t).code = .app → (A.thread t).pc = .out ∧
          (A.thread t).locked = (s.thread t).locked ∧
          (A.thread t).spec.isSome = (s.tx t).isSome ∧
          System.events (callsSeen PthreadAct.tid (PthreadState.events true) t) tr' =
            tlLog t tr := by
  let s₀ : TlState (Fin 2) := ⟨fun _ => {}, fun _ => {}, fun _ => none, false⟩
  let as : List (TlAct (Fin 2)) := .call 0 .lock 1 :: List.replicate 6 (.run 0 0) ++
    .call 1 .lock 1 :: List.replicate 7 (.run 1 0) ++ [.htmBegin 1]
  have htx : ((tlSystem (Fin 2) { fuel := 1 } .pthreadTm).exec s₀ as).map
      (fun s => (s.tx 1).isSome) = some true := by decide
  obtain ⟨s, hs, htx⟩ := Option.map_eq_some_iff.mp htx
  have hrun := (System.Run.init (M := tlSystem (Fin 2) { fuel := 1 } .pthreadTm) rfl).exec hs
  exact ⟨_, s, hrun, htx, pthread_code_refines true hrun⟩

omit [DecidableEq Tid] in
/-- `pthreadMutex` counts a thread's last lock sooner than the code does. -/
theorem pthread_base_subset (th : GraphThread PthreadPlace) :
    th.base ⊆ PthreadThread.base th.pthread := by
  obtain ⟨code, locked, saved⟩ := th
  cases saved with
  | some sv => exact Finset.Subset.refl _
  | none =>
    cases code with
    | none => exact Finset.Subset.refl _
    | some c =>
      obtain ⟨call, l, pl⟩ := c
      cases pl with
      | ending x => exact TlCall.subset_after call l x locked
      | spec => exact TlCall.subset_after call l 0 locked
      | _ => exact Finset.Subset.refl _

/-- Two threads that run the code of `pthread` or `pthread_tm` never both have a lock outside
    transactions. -/
theorem pthread_code_exclusive (tm : Bool) {tr : List (TlState Tid × TlAct Tid)}
    (h : (tlSystem Tid cfg (pthreadType tm)).Run System.Free tr s) {t u : Tid} {l : Addr}
    (ht : l ∈ TlState.base s t) (hu : l ∈ TlState.base s u) : t = u := by
  obtain ⟨tr', g, hrun, hg, -⟩ := pthread_code_rep tm h
  rw [← hg.base] at ht hu
  exact ((pthread_inv hrun).word l).unique (.inl (pthread_base_subset _ ht))
    (.inl (pthread_base_subset _ hu))

end Run

end TxLock.Spec
