import TxLock.Spec.LockFields
import TxLock.Spec.PriorityTrylock
import TxLock.Spec.TlGraph

/-!
# The code of the locks with priority for waiters

Threads that run the code of `tas_priority_tm`, operation by operation, do what the system
`tasPriority` does, whose steps are the accesses to the lock words.

## Key results

- `priorityGraph_lawful`: the control graph of the functions
- `priority_step`: a step in the graph is a step of `tasPriority` or none
- `priority_code_refines`: what the code returns, `tasPriority` shows, and it leaves the same
  lock words
-/

namespace TxLock.Spec

open Native Prog

variable {Tid : Type}

/-! ## The graph -/

/-- Where a thread is in the code of `tas_priority_tm`. -/
inductive PriorityPlace where
  /-- `tas_priority_lock_tm`, with the snapshot it has taken of the word. -/
  | readAll
  | fastRead (copy : BitVec 64)
  | fastSwap (copy : BitVec 64)
  | enterHtm
  /-- Counted in `ready`, or about to be. -/
  | incReady
  | waitRead
  | waitSwap
  | decReady
  /-- `tas_priority_trylock_tm` -/
  | tryAll
  | tryRead
  | trySwap
  /-- `tas_priority_unlock_tm`, about to reset `val`. -/
  | release
  /-- About to return `x`, with nothing left to do on the lock. -/
  | ending (x : Int)
  /-- In a transaction, where the functions return 0. -/
  | spec
  deriving DecidableEq, Repr

/-- The test-and-set after the snapshot `copy` has not taken the lock. -/
def PriorityPlace.afterFast (cfg : TmParams) (copy : BitVec 64) : PriorityPlace :=
  if cfg.mayWait copy then .enterHtm else .readAll

/-- What the functions do at a place. -/
def PriorityPlace.node (cfg : TmParams) (l : Addr) :
    PriorityPlace → GraphNode LockOp PriorityPlace
  | .readAll => .op (.load (.lock l .all)) fun v =>
    if TasAll.ready (BitVec.ofInt 64 v) = 0 then .fastRead (BitVec.ofInt 64 v)
    else .afterFast cfg (BitVec.ofInt 64 v)
  | .fastRead copy => .op (.load (.lock l .val)) fun v =>
    if v ≠ 0 then .afterFast cfg copy else .fastSwap copy
  | .fastSwap copy => .op (.testAndSet (.lock l .val) 1) fun v =>
    if v ≠ 0 then .afterFast cfg copy else .ending 0
  | .enterHtm => .op .xbegin fun v => if v = xbeginStarted then .spec else .incReady
  | .incReady => .op (.fetchAndAdd (.lock l .ready) 1) fun _ => .waitRead
  | .waitRead => .op (.load (.lock l .val)) fun v => if v ≠ 0 then .waitRead else .waitSwap
  | .waitSwap => .op (.testAndSet (.lock l .val) 1) fun v => if v ≠ 0 then .waitRead else .decReady
  | .decReady => .op (.fetchAndAdd (.lock l .ready) (-1)) fun _ => .ending 0
  | .tryAll => .op (.load (.lock l .all)) fun v =>
    if TasAll.ready (BitVec.ofInt 64 v) = 0 then .tryRead else .ending 1
  | .tryRead => .op (.load (.lock l .val)) fun v => if v ≠ 0 then .ending 1 else .trySwap
  | .trySwap => .op (.testAndSet (.lock l .val) 1) fun v => if v ≠ 0 then .ending 1 else .ending 0
  | .release => .op (.release (.lock l .val)) fun _ => .ending 0
  | .ending x => .ret x
  | .spec => .ret 0

/-- The places of a call. -/
def PriorityPlace.fits : TlCall → PriorityPlace → Bool
  | .lock, .readAll | .lock, .fastRead _ | .lock, .fastSwap _ | .lock, .enterHtm
  | .lock, .incReady | .lock, .waitRead | .lock, .waitSwap | .lock, .decReady
  | .trylock, .tryAll | .trylock, .tryRead | .trylock, .trySwap | .unlock, .release
  | _, .ending _ | _, .spec => true
  | _, _ => false

/-- The functions of `tas_priority_tm`. -/
def priorityGraph (cfg : TmParams) : LockGraph PriorityPlace where
  node := PriorityPlace.node cfg
  start
    | _, true => .spec
    | .lock, false => .readAll
    | .trylock, false => .tryAll
    | .unlock, false => .release
  inTx
    | .spec => true
    | _ => false
  fits := PriorityPlace.fits

section Lawful

variable {cfg : TxConfig} {l : Addr} {w : Int}

/-- Where nothing is left to do on the lock outside a transaction. -/
theorem priorityGraph_ends_ending {x : Int} :
    (priorityGraph cfg.toTmParams).Ends l x 0 (.ending x) :=
  ⟨rfl, by simp [priorityGraph]⟩

theorem priorityGraph_ends_spec (hw : w ≠ 0) :
    (priorityGraph cfg.toTmParams).Ends l 0 w .spec :=
  ⟨rfl, by simp [priorityGraph, hw]⟩

/-- The test-and-set after a snapshot, only when no thread waits. -/
theorem priorityFast_walks {α : Type} {k : Int → LockProg α} {Q : α → Int → PriorityPlace → Prop}
    {v : Int} (read swap : PriorityPlace)
    {held : PriorityPlace} (got : PriorityPlace)
    (hread : PriorityPlace.node cfg.toTmParams l read =
      .op (.load (.lock l .val)) fun v => if v ≠ 0 then held else swap)
    (hswap : PriorityPlace.node cfg.toTmParams l swap =
      .op (.testAndSet (.lock l .val) 1) fun v => if v ≠ 0 then held else got)
    (hheld : (k 1).Walks (PriorityPlace.node cfg.toTmParams l) ownOp Q 0 held)
    (hgot : (k 0).Walks (PriorityPlace.node cfg.toTmParams l) ownOp Q 0 got) :
    (if readyOf v = 0 then Prog.bind (tatas (.lock l .val) 1) k else Prog.bind (ret 1) k).Walks
      (PriorityPlace.node cfg.toTmParams l) ownOp Q 0
      (if TasAll.ready (BitVec.ofInt 64 v) = 0 then read else held) := by
  by_cases hready : readyOf v = 0
  · rw [if_pos hready, if_pos (readyOf_eq_zero.mp hready), walks_bind]
    exact walks_tatas swap held got hread hswap hheld hgot
  · rw [if_neg hready, if_neg fun h => hready (readyOf_eq_zero.mpr h), walks_bind, walks_ret]
    exact hheld

/-- The loop of `tas_priority_lock_tm`. -/
theorem tasPriorityLockTmLoop_walks {Q : Bool → Int → PriorityPlace → Prop}
    (hgot : Q false 0 (.ending 0)) (hspec : Q true l .spec) :
    (tasPriorityLockTmLoop cfg l).Walks (PriorityPlace.node cfg.toTmParams l) ownOp Q 0
      .readAll := by
  unfold tasPriorityLockTmLoop
  refine walks_loop (I := fun _ w pl => w = 0 ∧ pl = .readAll) ?_ _ ⟨rfl, rfl⟩
  rintro - w pl ⟨rfl, rfl⟩
  simp only [bind_eq, walks_bind]
  refine walks_perform rfl rfl fun v => ?_
  refine priorityFast_walks (.fastRead (BitVec.ofInt 64 v)) (.fastSwap (BitVec.ofInt 64 v))
    (.ending 0) rfl rfl ?_ ?_
  · -- the lock is not taken
    have hwait : (BitVec.ofInt 32 (readyOf v) < cfg.maxDistance - cfg.minDistance) ↔
        cfg.mayWait (BitVec.ofInt 64 v) = true := by
      unfold TmParams.mayWait
      rw [decide_eq_true_iff]
      rfl
    simp only [Int.one_ne_zero, if_false]
    unfold PriorityPlace.afterFast
    by_cases hmay : cfg.mayWait (BitVec.ofInt 64 v) = true
    · simp only [if_pos hmay, if_pos (hwait.mpr hmay), walks_bind]
      refine walks_enterHtm rfl ?_ fun status hstatus => ?_
      · simpa using hspec
      · simp only [Int.one_ne_zero, if_false, if_neg hstatus, walks_bind]
        refine walks_perform rfl rfl fun _ => ?_
        refine walks_tatasLoop .waitSwap .decReady rfl rfl ?_
        refine walks_perform rfl rfl fun _ => ?_
        exact hgot
    · simp only [if_neg hmay, if_neg fun h => hmay (hwait.mp h)]
      exact ⟨rfl, rfl⟩
  · simpa using hgot

theorem tasPriorityLockTm_goes (hl : l ≠ 0) :
    (priorityGraph cfg.toTmParams).Goes (tasPriorityLockTm cfg l) l 0 .readAll := by
  unfold tasPriorityLockTm LockGraph.Goes
  simp only [bind_eq, walks_bind, walks_specEntry, if_true, walks_tmStatsAdd]
  apply tasPriorityLockTmLoop_walks
  · simp only [Bool.false_eq_true, if_false, walks_bind, walks_rdtsc, walks_tmStatsAdd, pure_eq,
      walks_ret, forall_const]
    exact priorityGraph_ends_ending
  · exact priorityGraph_ends_spec hl

theorem tasPriorityTrylockTm_goes :
    (priorityGraph cfg.toTmParams).Goes (tasPriorityTrylockTm l) l 0 .tryAll := by
  unfold tasPriorityTrylockTm LockGraph.Goes
  simp only [bind_eq, walks_bind, walks_specEntry, if_true]
  refine walks_perform rfl rfl fun v => ?_
  refine priorityFast_walks .tryRead .trySwap (.ending 0) rfl rfl ?_ ?_
  · simp only [Int.one_ne_zero, if_false, pure_eq, walks_ret]
    exact priorityGraph_ends_ending
  · simp only [if_true, walks_bind, walks_tmStatsAdd, walks_tmStatsSubRdtsc, pure_eq, walks_ret]
    exact priorityGraph_ends_ending

theorem tasPriorityUnlockTm_goes :
    (priorityGraph cfg.toTmParams).Goes (tasPriorityUnlockTm l) l 0 .release := by
  unfold tasPriorityUnlockTm LockGraph.Goes
  simp only [bind_eq, walks_bind, walks_specEntry, if_true, walks_tmStatsAddRdtsc, pure_eq,
    walks_ret]
  exact walks_emit rfl rfl fun _ => priorityGraph_ends_ending

/-- In a transaction the functions do nothing and return 0. -/
theorem tasPriorityTm_goes_spec (hw : w ≠ 0) (c : TlCall) :
    (priorityGraph cfg.toTmParams).Goes (c.prog cfg .tasPriorityTm l) l w .spec := by
  unfold LockGraph.Goes
  cases c with
  | lock =>
    simp only [TlCall.prog, tlLock, lockTypes, tasPriorityLockTm, bind_eq, walks_bind,
      walks_specEntry, if_neg hw, walks_rdtsc, walks_tmStatsAdd, pure_eq, walks_ret, forall_const]
    exact priorityGraph_ends_spec hw
  | trylock =>
    simp only [TlCall.prog, tlTrylock, lockTypes, tasPriorityTrylockTm, bind_eq, walks_bind,
      walks_specEntry, if_neg hw, pure_eq, walks_ret]
    exact priorityGraph_ends_spec hw
  | unlock =>
    simp only [TlCall.prog, tlUnlock, lockTypes, tasPriorityUnlockTm, bind_eq, walks_bind,
      walks_specEntry, if_neg hw, pure_eq, walks_ret]
    exact priorityGraph_ends_spec hw

theorem afterFast_fits (copy : BitVec 64) :
    (priorityGraph cfg.toTmParams).inTx (.afterFast cfg.toTmParams copy) = false ∧
      (priorityGraph cfg.toTmParams).fits .lock (.afterFast cfg.toTmParams copy) = true := by
  unfold PriorityPlace.afterFast
  split <;> exact ⟨rfl, rfl⟩

theorem priorityGraph_lawful (cfg : TxConfig) :
    (priorityGraph cfg.toTmParams).Lawful cfg .tasPriorityTm true where
  goes c l hl := by
    cases c with
    | lock => exact tasPriorityLockTm_goes hl
    | trylock => exact tasPriorityTrylockTm_goes
    | unlock => exact tasPriorityUnlockTm_goes
  goes_tx _ c l w _ hw := tasPriorityTm_goes_spec hw c
  start_inTx c b := by
    cases c <;> cases b <;> rfl
  start_fits c b _ := by
    cases c <;> cases b <;> rfl
  node_tx c l pl o next _ hin hnode := by
    cases pl with
    | spec => cases hnode
    | _ => cases hin
  node_out c l pl o next hfits hin hnode := by
    cases pl with
    | release | incReady | decReady =>
      cases hnode
      refine .inl ⟨.inr trivial, fun _ => ⟨rfl, ?_⟩⟩
      cases c <;> first | rfl | cases hfits
    -- the fast path belongs to `lock` alone
    | readAll | fastRead copy | fastSwap copy =>
      cases hnode
      refine .inl ⟨by simp [ReadsLock, ChangesLock], fun v => ?_⟩
      cases c with
      | lock =>
        dsimp only
        split
        · first | exact ⟨rfl, rfl⟩ | exact afterFast_fits _
        · first | exact ⟨rfl, rfl⟩ | exact afterFast_fits _
      | trylock | unlock => cases hfits
    | waitRead | tryAll | tryRead | waitSwap | trySwap =>
      cases hnode
      refine .inl ⟨by simp [ReadsLock, ChangesLock], fun v => ?_⟩
      dsimp only
      split <;> cases c <;> first | exact ⟨rfl, rfl⟩ | exact ⟨rfl, hfits⟩
    -- only the speculating `lock` starts a transaction
    | enterHtm =>
      cases hnode
      cases c with
      | lock =>
        refine .inr ⟨rfl, rfl, fun v => ?_⟩
        dsimp only
        by_cases hv : v = xbeginStarted
        · rw [if_pos hv, decide_eq_true hv]
          exact ⟨rfl, rfl⟩
        · rw [if_neg hv, decide_eq_false hv]
          exact ⟨rfl, rfl⟩
      | trylock | unlock => cases hfits
    | ending x | spec => cases hnode

end Lawful

/-! ## What the places stand for -/

/-- The place in `tasPriority` of a call on `l`. -/
def PriorityPlace.pc (l : Addr) : PriorityPlace → PrioPc Addr
  | .readAll => .readAll l
  | .fastRead copy => .fastRead l copy
  | .fastSwap copy => .fastSwap l copy
  | .enterHtm => .enterHtm l
  | .incReady => .incReady l
  | .waitRead => .waitRead l
  | .waitSwap => .waitSwap l
  | .decReady => .decReady l
  | .tryAll => .tryAll l
  | .tryRead => .tryRead l
  | .trySwap => .trySwap l
  | .release | .ending _ | .spec => .out

theorem pc_afterFast {cfg : TmParams} {l : Addr} {copy : BitVec 64} :
    PriorityPlace.pc l (.afterFast cfg copy) = PrioPc.afterFast cfg l copy := by
  unfold PriorityPlace.afterFast PrioPc.afterFast
  split <;> rfl

/-- The locks a thread has in `tasPriority`: in its last steps on the way out those it is about
    to be told of, and in an unlock the lock until `val` is reset. -/
def GraphCode.priorityLocked (c : GraphCode PriorityPlace) (locked : Finset Addr) : Finset Addr :=
  match c.place with
  | .release => insert c.lock locked
  | .ending x => c.call.after c.lock x locked
  | .spec => c.call.after c.lock 0 locked
  | _ => locked

/-- The thread of `tasPriority` that a thread in the graph stands for. -/
def GraphThread.priority (g : GraphThread PriorityPlace) : PrioThread Addr where
  pc := match g.code with
    | some c => c.place.pc c.lock
    | none => .out
  locked := match g.code with
    | some c => c.priorityLocked g.locked
    | none => g.locked
  spec := g.saved.map fun sv => ⟨sv.lock, sv.locked⟩

/-- The state of `tasPriority` that threads in the graph stand for. -/
def GraphState.priority (g : GraphState Tid PriorityPlace) : PrioState Tid Addr where
  all l := (g.obj l).word
  thread t := (g.thread t).priority

/-- What `tasPriority` has shown of the call a thread is in. -/
def GraphThread.priorityDue (g : GraphThread PriorityPlace) : List (Addr × LockEvent) :=
  match g.saved, g.code with
  | none, some ⟨.lock, l, .ending x⟩ => [(l, .answer x)]
  | none, some ⟨.trylock, l, .ending x⟩ => [(l, .tryCall), (l, .answer x)]
  | none, some ⟨.trylock, l, _⟩ => [(l, .tryCall)]
  | none, some ⟨.unlock, l, .ending _⟩ => [(l, .unlockCall)]
  | _, _ => []

/-! ## Steps -/

section Step

variable [DecidableEq Tid] {cfg : TmParams} {g g' : GraphState Tid PriorityPlace}
  {t : Tid} {c : GraphCode PriorityPlace}

theorem priority_setThread {th : GraphThread PriorityPlace} :
    (g.setThread t th).priority = g.priority.setThread t th.priority := by
  unfold GraphState.setThread GraphState.priority PrioState.setThread
  congr 1
  funext u
  by_cases hu : u = t
  · simp [hu]
  · simp [hu]

/-- A thread whose place stands for the same as before. -/
theorem priority_setThread_eq {th : GraphThread PriorityPlace}
    (h : th.priority = (g.thread t).priority) : (g.setThread t th).priority = g.priority := by
  rw [priority_setThread, h]
  unfold PrioState.setThread GraphState.priority
  simp only [PrioState.mk.injEq, true_and]
  exact Function.update_eq_self t _

/-- A step that changes a word as well. -/
theorem priority_setObj {th : GraphThread PriorityPlace} {m : Addr} {obj : LockObj Tid}
    {w : BitVec 64} (hw : obj.word = w) :
    ({ g.setThread t th with obj := Function.update g.obj m obj } :
        GraphState Tid PriorityPlace).priority =
      (g.priority.setAll m w).setThread t th.priority := by
  rw [PrioState.setAll, ← hw]
  have hth : (g.setThread t th).priority = g.priority.setThread t th.priority :=
    priority_setThread
  simp only [GraphState.priority, PrioState.setThread, PrioState.mk.injEq] at hth ⊢
  refine ⟨?_, hth.2⟩
  funext l
  by_cases hl : l = m
  · simp [hl]
  · simp [hl]

/-- What a step of thread `t` that returns `es` is to `tasPriority`. -/
def PriorityFollows (cfg : TmParams) (g : GraphState Tid PriorityPlace) (t : Tid)
    (es : List (Addr × LockEvent)) (g' : GraphState Tid PriorityPlace) : Prop :=
  (g'.priority = g.priority ∧
    es ++ (g'.thread t).priorityDue = (g.thread t).priorityDue) ∨
  ∃ a, PrioState.step cfg g.priority a = some g'.priority ∧ PrioAct.tid a = t ∧
    (g.thread t).priorityDue ++ callsOf (PrioState.events g.priority a) =
      es ++ (g'.thread t).priorityDue

theorem priority_step_call {c : TlCall} {l : Addr} (hcode : (g.thread t).code = none)
    (hlocked : c = .unlock → l ∈ (g.thread t).locked) :
    PriorityFollows cfg g t [] (g.setThread t { g.thread t with
      code := some ⟨c, l, (priorityGraph cfg).start c (g.thread t).saved.isSome⟩
      locked := c.before l (g.thread t).locked }) := by
  have hth : g.priority.thread t = (g.thread t).priority := rfl
  have hsame : ∀ th, th.priority = (g.thread t).priority →
      (g.setThread t th).priority = g.priority := fun th => priority_setThread_eq
  unfold PriorityFollows
  rw [GraphState.setThread_thread]
  generalize g.thread t = th at *
  obtain ⟨code, locked, saved⟩ := th
  obtain rfl : code = none := hcode
  cases saved with
  | none =>
    cases c with
    | lock =>
      refine .inr ⟨.lock t l, ?_, rfl, rfl⟩
      rw [priority_setThread]
      simp [PrioState.step, PrioState.goto, hth, GraphThread.priority, priorityGraph,
        GraphCode.priorityLocked, PriorityPlace.pc, TlCall.before]
    | trylock =>
      refine .inr ⟨.trylock t l, ?_, rfl, ?_⟩
      · rw [priority_setThread]
        simp [PrioState.step, PrioState.goto, hth, GraphThread.priority, priorityGraph,
          GraphCode.priorityLocked, PriorityPlace.pc, TlCall.before]
      · simp [PrioState.events, hth, GraphThread.priority, callsOf, GraphThread.priorityDue,
          priorityGraph]
    | unlock =>
      -- the word is still to be reset
      refine .inl ⟨hsame _ ?_, rfl⟩
      simp [GraphThread.priority, priorityGraph, GraphCode.priorityLocked, PriorityPlace.pc,
        TlCall.before, Finset.insert_erase (hlocked rfl)]
  | some sv =>
    cases c with
    | lock =>
      refine .inr ⟨.lock t l, ?_, rfl, rfl⟩
      rw [priority_setThread]
      simp [PrioState.step, PrioState.gets, hth, GraphThread.priority, priorityGraph,
        GraphCode.priorityLocked, PriorityPlace.pc, TlCall.before, TlCall.after]
    | trylock =>
      refine .inr ⟨.trylock t l, ?_, rfl, ?_⟩
      · rw [priority_setThread]
        simp [PrioState.step, PrioState.gets, hth, GraphThread.priority, priorityGraph,
          GraphCode.priorityLocked, PriorityPlace.pc, TlCall.before, TlCall.after]
      · simp [PrioState.events, hth, GraphThread.priority, callsOf, GraphThread.priorityDue]
    | unlock =>
      refine .inr ⟨.unlock t l, ?_, rfl, ?_⟩
      · rw [priority_setThread]
        simp [PrioState.step, hth, GraphThread.priority, priorityGraph, GraphCode.priorityLocked,
          PriorityPlace.pc, TlCall.before, TlCall.after, hlocked]
      · simp [PrioState.events, hth, GraphThread.priority, callsOf, GraphThread.priorityDue]

theorem priority_step_ret (hok : GraphOk (priorityGraph cfg) true g) {x : Int}
    (hcode : (g.thread t).code = some c)
    (hnode : (priorityGraph cfg).node c.lock c.place = .ret x) :
    PriorityFollows cfg g t
      (if (g.thread t).saved = none then TlCall.events c.call c.lock x else [])
      (g.setThread t { g.thread t with
        code := none, locked := c.call.after c.lock x (g.thread t).locked }) := by
  have hin := hok.inTx hcode
  have hsame : ∀ th, th.priority = (g.thread t).priority →
      (g.setThread t th).priority = g.priority := fun th => priority_setThread_eq
  unfold PriorityFollows
  rw [GraphState.setThread_thread]
  generalize g.thread t = th at *
  obtain ⟨code, locked, saved⟩ := th
  obtain rfl : code = some c := hcode
  obtain ⟨call, l, pl⟩ := c
  refine .inl ⟨hsame _ ?_, ?_⟩
  · cases pl with
    | ending y | spec =>
      cases hnode
      simp [GraphThread.priority, GraphCode.priorityLocked, PriorityPlace.pc]
    | _ => cases hnode
  · cases pl with
    | ending y =>
      cases hnode
      obtain rfl : saved = none := by simpa [priorityGraph] using hin
      cases call <;> rfl
    | spec =>
      cases hnode
      cases saved with
      | none => cases hin
      | some sv => rfl
    | _ => cases hnode

omit [DecidableEq Tid] in
/-- A place where the call has nothing to tell yet. -/
theorem priority_of_locked {call : TlCall} {l : Addr} {pl : PriorityPlace} {locked : Finset Addr}
    (hpl : GraphCode.priorityLocked ⟨call, l, pl⟩ locked = locked) :
    (GraphThread.mk (some ⟨call, l, pl⟩) locked none).priority =
      { pc := pl.pc l, locked := locked } := by
  simp only [GraphThread.priority, hpl, Option.map_none]

omit [DecidableEq Tid] in
theorem priorityLocked_afterFast {l : Addr} {copy : BitVec 64} {locked : Finset Addr} :
    GraphCode.priorityLocked ⟨.lock, l, .afterFast cfg copy⟩ locked = locked := by
  unfold PriorityPlace.afterFast
  split <;> rfl

omit [DecidableEq Tid] in
theorem priorityDue_afterFast {l : Addr} {copy : BitVec 64} {locked : Finset Addr} :
    (GraphThread.mk (some ⟨.lock, l, .afterFast cfg copy⟩) locked none).priorityDue = [] := by
  unfold PriorityPlace.afterFast
  split <;> rfl

/-- Outside transactions a call goes on from `pl` to `pl'`, and the locks are as they were. -/
theorem priority_goOn {call : TlCall} {l : Addr} {pl pl' : PriorityPlace} {locked : Finset Addr}
    (hth : g.thread t = ⟨some ⟨call, l, pl⟩, locked, none⟩)
    (hs : g.priority.runStep cfg t =
      some (g.priority.setThread t (GraphThread.mk (some ⟨call, l, pl'⟩) locked none).priority))
    (hdue : (GraphThread.mk (some ⟨call, l, pl⟩) locked none).priorityDue ++
        callsOf (PrioState.events g.priority (.run t)) =
      (GraphThread.mk (some ⟨call, l, pl'⟩) locked none).priorityDue) :
    PriorityFollows cfg g t [] (g.goto t ⟨call, l, pl⟩ pl') := by
  rw [GraphState.goto_eq hth]
  refine .inr ⟨.run t, ?_, rfl, ?_⟩
  · rw [priority_setThread]
    exact hs
  · rw [GraphState.setThread_thread, hth]
    exact hdue

omit [DecidableEq Tid] in
/-- Where thread `t` is in `tasPriority`. -/
theorem priority_thread {call : TlCall} {l : Addr} {pl : PriorityPlace} {locked : Finset Addr}
    (hth : g.thread t = ⟨some ⟨call, l, pl⟩, locked, none⟩) :
    g.priority.thread t =
      { pc := pl.pc l, locked := GraphCode.priorityLocked ⟨call, l, pl⟩ locked } := by
  simp only [GraphState.priority, GraphThread.priority, hth, Option.map_none]

theorem priority_step_load (hok : GraphOk (priorityGraph cfg) true g) {m : Addr} {f : LockField}
    {next : Int → PriorityPlace} (hcode : (g.thread t).code = some c)
    (hnode : (priorityGraph cfg).node c.lock c.place = .op (.load (.lock m f)) next) :
    PriorityFollows cfg g t [] (g.goto t c (next (f.read (g.obj m)))) := by
  have hin := hok.inTx hcode
  have hfits := hok.fits hcode
  have hth : (g.thread t).saved = none → g.thread t = ⟨some c, (g.thread t).locked, none⟩ := by
    intro hsaved
    rw [← hcode, ← hsaved]
  have hall : ∀ l, g.priority.all l = (g.obj l).word := fun _ => rfl
  have hread : LockField.val.read (g.obj m) ≠ 0 ↔ TasAll.val (g.obj m).word ≠ 0 :=
    read_val_ne_zero
  obtain ⟨call, l, pl⟩ := c
  -- the code reads the word only outside transactions
  have hsaved : (g.thread t).saved = none := by
    cases pl with
    | spec => cases hnode
    | _ => simpa [priorityGraph] using hin
  have hth := hth hsaved
  generalize (g.thread t).locked = locked at hth
  cases pl with
  -- the fast path is only for a lock that nobody waits for
  | readAll =>
    cases hnode
    cases call <;> cases hfits
    have hthread := priority_thread hth
    simp only [ofInt_read_all, BitVec.ofNat_eq_ofNat]
    by_cases hready : TasAll.ready (g.obj l).word = 0#16
    · rw [if_pos hready]
      refine priority_goOn hth ?_ ?_
      · simp [PrioState.runStep, hthread, hall, hready, PrioState.goto, GraphThread.priority,
          GraphCode.priorityLocked, PriorityPlace.pc]
      · simp [PrioState.events, hthread, GraphThread.priorityDue, PriorityPlace.pc, callsOf]
    · rw [if_neg hready]
      refine priority_goOn hth ?_ ?_
      · rw [priority_of_locked priorityLocked_afterFast, pc_afterFast]
        simp [PrioState.runStep, hthread, hall, hready, PrioState.goto,
          GraphCode.priorityLocked, PriorityPlace.pc]
      · rw [priorityDue_afterFast]
        simp [PrioState.events, hthread, GraphThread.priorityDue, PriorityPlace.pc, callsOf]
  | fastRead copy =>
    cases hnode
    cases call <;> cases hfits
    have hthread := priority_thread hth
    dsimp only at hread ⊢
    by_cases hv : TasAll.val (g.obj l).word = 0#32
    · rw [if_neg (by simp [hread, hv])]
      refine priority_goOn hth ?_ ?_
      · simp [PrioState.runStep, hthread, hall, hv, PrioState.goto, GraphThread.priority,
          GraphCode.priorityLocked, PriorityPlace.pc]
      · simp [PrioState.events, hthread, GraphThread.priorityDue, PriorityPlace.pc, callsOf]
    · rw [if_pos (hread.mpr hv)]
      refine priority_goOn hth ?_ ?_
      · rw [priority_of_locked priorityLocked_afterFast, pc_afterFast]
        simp [PrioState.runStep, hthread, hall, hv, PrioState.goto, GraphCode.priorityLocked,
          PriorityPlace.pc]
      · rw [priorityDue_afterFast]
        simp [PrioState.events, hthread, GraphThread.priorityDue, PriorityPlace.pc, callsOf]
  -- a lock that is still held sends the waiter back to the same read
  | waitRead =>
    cases hnode
    cases call <;> cases hfits
    have hthread := priority_thread hth
    dsimp only at hread ⊢
    by_cases hv : TasAll.val (g.obj l).word = 0#32
    · rw [if_neg (by simp [hread, hv])]
      refine priority_goOn hth ?_ ?_
      · simp [PrioState.runStep, hthread, hall, hv, PrioState.goto, GraphThread.priority,
          GraphCode.priorityLocked, PriorityPlace.pc]
      · simp [PrioState.events, hthread, GraphThread.priorityDue, PriorityPlace.pc, callsOf]
    · rw [if_pos (hread.mpr hv)]
      refine priority_goOn hth ?_ ?_
      · rw [← priority_setThread, priority_setThread_eq (by rw [hth])]
        simp [PrioState.runStep, hthread, hall, hv, PriorityPlace.pc]
      · simp [PrioState.events, hthread, GraphThread.priorityDue, PriorityPlace.pc, callsOf]
  -- `trylock` gives up at once where `lock` goes on to wait
  | tryAll =>
    cases hnode
    cases call <;> cases hfits
    have hthread := priority_thread hth
    simp only [ofInt_read_all, BitVec.ofNat_eq_ofNat]
    by_cases hready : TasAll.ready (g.obj l).word = 0#16
    · rw [if_pos hready]
      refine priority_goOn hth ?_ ?_
      · simp [PrioState.runStep, hthread, hall, hready, PrioState.goto, GraphThread.priority,
          GraphCode.priorityLocked, PriorityPlace.pc]
      · simp [PrioState.events, hthread, hall, hready, GraphThread.priorityDue, PriorityPlace.pc,
          callsOf]
    · rw [if_neg hready]
      refine priority_goOn hth ?_ ?_
      · simp [PrioState.runStep, hthread, hall, hready, PrioState.goto, GraphThread.priority,
          GraphCode.priorityLocked, PriorityPlace.pc, TlCall.after]
      · simp [PrioState.events, hthread, hall, hready, GraphThread.priorityDue, PriorityPlace.pc,
          callsOf]
  | tryRead =>
    cases hnode
    cases call <;> cases hfits
    have hthread := priority_thread hth
    dsimp only at hread ⊢
    by_cases hv : TasAll.val (g.obj l).word = 0#32
    · rw [if_neg (by simp [hread, hv])]
      refine priority_goOn hth ?_ ?_
      · simp [PrioState.runStep, hthread, hall, hv, PrioState.goto, GraphThread.priority,
          GraphCode.priorityLocked, PriorityPlace.pc]
      · simp [PrioState.events, hthread, hall, hv, GraphThread.priorityDue, PriorityPlace.pc,
          callsOf]
    · rw [if_pos (hread.mpr hv)]
      refine priority_goOn hth ?_ ?_
      · simp [PrioState.runStep, hthread, hall, hv, PrioState.goto, GraphThread.priority,
          GraphCode.priorityLocked, PriorityPlace.pc, TlCall.after]
      · simp [PrioState.events, hthread, hall, hv, GraphThread.priorityDue, PriorityPlace.pc,
          callsOf]
  | _ => cases hnode

/-- Outside transactions a call changes the word of its lock. -/
theorem priority_modify {call : TlCall} {l : Addr} {pl pl' : PriorityPlace} {locked : Finset Addr}
    {obj : LockObj Tid} {a : PrioAct Tid Addr} {w : BitVec 64}
    (hth : g.thread t = ⟨some ⟨call, l, pl⟩, locked, none⟩) (ha : PrioAct.tid a = t)
    (hw : obj.word = w)
    (hs : g.priority.step cfg a = some ((g.priority.setAll l w).setThread t
      (GraphThread.mk (some ⟨call, l, pl'⟩) locked none).priority))
    (hdue : (GraphThread.mk (some ⟨call, l, pl⟩) locked none).priorityDue ++
        callsOf (PrioState.events g.priority a) =
      (GraphThread.mk (some ⟨call, l, pl'⟩) locked none).priorityDue) :
    PriorityFollows cfg g t []
      { g.goto t ⟨call, l, pl⟩ pl' with obj := Function.update g.obj l obj } := by
  rw [GraphState.goto_eq hth]
  refine .inr ⟨a, ?_, ha, ?_⟩
  · rw [hs]
    exact congrArg some (priority_setObj hw).symm
  · show _ = [] ++ ((g.setThread t _).thread t).priorityDue
    rw [GraphState.setThread_thread, hth]
    exact hdue

theorem priority_step_modify (hok : GraphOk (priorityGraph cfg) true g) {o : LockOp} {m : Addr}
    {f : LockObj Tid → Option (Int × LockObj Tid)} {v : Int} {obj : LockObj Tid}
    {next : Int → PriorityPlace} (hcode : (g.thread t).code = some c)
    (hnode : (priorityGraph cfg).node c.lock c.place = .op o next)
    (hsaved : (g.thread t).saved = none) (ho : o.modify t = some (m, f))
    (hf : f (g.obj m) = some (v, obj)) :
    PriorityFollows cfg g t []
      { g.goto t c (next v) with obj := Function.update g.obj m obj } := by
  have hfits := hok.fits hcode
  have hcall := hok.call hcode
  have hth : g.thread t = ⟨some c, (g.thread t).locked, none⟩ := by rw [← hcode, ← hsaved]
  have hall : ∀ l, g.priority.all l = (g.obj l).word := fun _ => rfl
  have hread : LockField.val.read (g.obj m) ≠ 0 ↔ TasAll.val (g.obj m).word ≠ 0 :=
    read_val_ne_zero
  generalize (g.thread t).locked = locked at hth hcall
  obtain ⟨call, l, pl⟩ := c
  have hthread := priority_thread hth
  cases pl with
  -- the release is the call of the abstract lock: the thread leaves the lock here
  | release =>
    cases hnode
    cases ho
    cases hf
    cases call <;> cases hfits
    have hnot : l ∉ locked := hcall.2 rfl
    refine priority_modify hth (a := .unlock t l) rfl write_val ?_ ?_
    · simp [PrioState.step, hthread, hall, PrioState.setAll, PrioState.setThread,
        GraphThread.priority, GraphCode.priorityLocked, PriorityPlace.pc, TlCall.after,
        Finset.erase_insert hnot]
    · simp [PrioState.events, hthread, GraphThread.priorityDue, callsOf]
  | incReady | decReady =>
    cases hnode
    cases ho
    cases hf
    cases call <;> cases hfits
    refine priority_modify hth (a := .run t) rfl (write_ready_add _) ?_ ?_
    · simp [PrioState.step, PrioState.runStep, hthread, hall, PrioState.setAll, PrioState.goto,
        PrioState.gets, PrioState.setThread, GraphThread.priority, GraphCode.priorityLocked,
        PriorityPlace.pc, TlCall.after]
    · simp [PrioState.events, hthread, GraphThread.priorityDue, PriorityPlace.pc, callsOf]
  | fastSwap copy =>
    cases hnode
    cases ho
    cases hf
    cases call <;> cases hfits
    dsimp only at hread ⊢
    by_cases hv : TasAll.val (g.obj l).word = 0#32
    · -- the exchange has read 0, so this thread has the lock
      rw [if_neg (by simp [hread, hv])]
      refine priority_modify hth (a := .run t) rfl write_val ?_ ?_
      · simp [PrioState.step, PrioState.runStep, hthread, hall, hv, PrioState.gets,
          PrioState.swapVal, PrioState.setAll, GraphThread.priority, GraphCode.priorityLocked,
          PriorityPlace.pc, TlCall.after]
      · simp [PrioState.events, hthread, hall, hv, GraphThread.priorityDue, PriorityPlace.pc,
          callsOf]
    · rw [if_pos (hread.mpr hv)]
      refine priority_modify hth (a := .run t) rfl write_val ?_ ?_
      · rw [priority_of_locked priorityLocked_afterFast, pc_afterFast]
        simp [PrioState.step, PrioState.runStep, hthread, hall, hv, PrioState.goto,
          PrioState.swapVal, PrioState.setAll, GraphCode.priorityLocked, PriorityPlace.pc]
      · rw [priorityDue_afterFast]
        simp [PrioState.events, hthread, hall, hv, GraphThread.priorityDue, PriorityPlace.pc,
          callsOf]
  -- the loop of `lock` and the single try of `trylock` differ only in what comes next
  | waitSwap | trySwap =>
    cases hnode
    cases ho
    cases hf
    cases call <;> cases hfits
    dsimp only at hread ⊢
    by_cases hv : TasAll.val (g.obj l).word = 0#32
    · rw [if_neg (by simp [hread, hv])]
      refine priority_modify hth (a := .run t) rfl write_val ?_ ?_
      · simp [PrioState.step, PrioState.runStep, hthread, hall, hv, PrioState.gets,
          PrioState.goto, PrioState.swapVal, PrioState.setAll, GraphThread.priority,
          GraphCode.priorityLocked, PriorityPlace.pc, TlCall.after]
      · simp [PrioState.events, hthread, hall, hv, GraphThread.priorityDue, PriorityPlace.pc,
          callsOf]
    · rw [if_pos (hread.mpr hv)]
      refine priority_modify hth (a := .run t) rfl write_val ?_ ?_
      · simp [PrioState.step, PrioState.runStep, hthread, hall, hv, PrioState.goto,
          PrioState.swapVal, PrioState.setAll, GraphThread.priority, GraphCode.priorityLocked,
          PriorityPlace.pc, TlCall.after]
      · simp [PrioState.events, hthread, hall, hv, GraphThread.priorityDue, PriorityPlace.pc,
          callsOf]
  | _ =>
    cases hnode
    try cases ho

/-- A place where a transaction begins. -/
theorem PriorityPlace.eq_enterHtm {l : Addr} {pl : PriorityPlace} {next : Int → PriorityPlace}
    (hnode : (priorityGraph cfg).node l pl = .op .xbegin next) : pl = .enterHtm ∧
      next = fun v => if v = xbeginStarted then .spec else .incReady := by
  cases pl with
  | enterHtm =>
    cases hnode
    exact ⟨rfl, rfl⟩
  | _ => cases hnode

theorem priority_step_begin (hok : GraphOk (priorityGraph cfg) true g)
    {next : Int → PriorityPlace} (hcode : (g.thread t).code = some c)
    (hnode : (priorityGraph cfg).node c.lock c.place = .op .xbegin next)
    (hsaved : (g.thread t).saved = none) :
    PriorityFollows cfg g t [] (g.setThread t { g.thread t with
      code := some { c with place := next xbeginStarted }
      saved := some ⟨c, (g.thread t).locked⟩ }) := by
  have hfits := hok.fits hcode
  have hth : g.priority.thread t = (g.thread t).priority := rfl
  unfold PriorityFollows
  rw [GraphState.setThread_thread, priority_setThread]
  generalize g.thread t = th at *
  obtain ⟨code, locked, saved⟩ := th
  obtain rfl : code = some c := hcode
  obtain rfl : saved = none := hsaved
  obtain ⟨call, l, pl⟩ := c
  obtain ⟨rfl, rfl⟩ := PriorityPlace.eq_enterHtm hnode
  cases call with
  | lock =>
    refine .inr ⟨.htmStart t, ?_, rfl, rfl⟩
    simp [PrioState.step, hth, GraphThread.priority, GraphCode.priorityLocked, PriorityPlace.pc,
      TlCall.after]
  | trylock | unlock => cases hfits

theorem priority_step_fail (hok : GraphOk (priorityGraph cfg) true g)
    {next : Int → PriorityPlace} {status : Int} (hcode : (g.thread t).code = some c)
    (hnode : (priorityGraph cfg).node c.lock c.place = .op .xbegin next)
    (hsaved : (g.thread t).saved = none) (hstatus : status ≠ xbeginStarted) :
    PriorityFollows cfg g t [] (g.goto t c (next status)) := by
  have hfits := hok.fits hcode
  have hth : g.priority.thread t = (g.thread t).priority := rfl
  unfold PriorityFollows GraphState.goto
  rw [GraphState.setThread_thread, priority_setThread]
  generalize g.thread t = th at *
  obtain ⟨code, locked, saved⟩ := th
  obtain rfl : code = some c := hcode
  obtain rfl : saved = none := hsaved
  obtain ⟨call, l, pl⟩ := c
  obtain ⟨rfl, rfl⟩ := PriorityPlace.eq_enterHtm hnode
  simp only [if_neg hstatus]
  cases call with
  | lock =>
    refine .inr ⟨.htmAbort t, ?_, rfl, rfl⟩
    simp [PrioState.step, hth, GraphThread.priority, PrioState.goto, GraphCode.priorityLocked,
      PriorityPlace.pc]
  | trylock | unlock => cases hfits

theorem priority_step_abort (hok : GraphOk (priorityGraph cfg) true g)
    {sv : GraphSaved PriorityPlace} {next : Int → PriorityPlace} {status : Int}
    (hsaved : (g.thread t).saved = some sv)
    (hnode : (priorityGraph cfg).node sv.lock sv.place = .op .xbegin next)
    (hstatus : status ≠ xbeginStarted) :
    PriorityFollows cfg g t [] (g.setThread t {
      code := some { sv.toGraphCode with place := next status }
      locked := sv.locked }) := by
  have hfits := (hok.saved hsaved).2.1
  have hth : g.priority.thread t = (g.thread t).priority := rfl
  unfold PriorityFollows
  rw [GraphState.setThread_thread, priority_setThread]
  generalize g.thread t = th at *
  obtain ⟨code, locked, saved⟩ := th
  obtain rfl : saved = some sv := hsaved
  obtain ⟨⟨call, l, pl⟩, svLocked⟩ := sv
  obtain ⟨rfl, rfl⟩ := PriorityPlace.eq_enterHtm hnode
  simp only [if_neg hstatus]
  cases call with
  | lock =>
    refine .inr ⟨.htmAbort t, ?_, rfl, ?_⟩
    · simp [PrioState.step, hth, GraphThread.priority, GraphCode.priorityLocked, PriorityPlace.pc]
    · simp [GraphThread.priorityDue, PrioState.events, callsOf]
  | trylock | unlock => cases hfits

/-- A step in the graph is a step of `tasPriority` or none. -/
theorem priority_step (hok : GraphOk (priorityGraph cfg) true g) {a : TlAct Tid}
    {es : List (Addr × LockEvent)} (h : GraphStep (priorityGraph cfg) g a es g') :
    PriorityFollows cfg g (TlAct.tid a) es g' := by
  cases h with
  | own => exact .inl ⟨rfl, rfl⟩
  | call hcode hlocked => exact priority_step_call hcode hlocked
  | ret hcode hnode => exact priority_step_ret hok hcode hnode
  | load hcode hnode => exact priority_step_load hok hcode hnode
  | modify hcode hnode hsaved ho hf => exact priority_step_modify hok hcode hnode hsaved ho hf
  | begin hcode hnode hsaved => exact priority_step_begin hok hcode hnode hsaved
  | fail hcode hnode hsaved hstatus => exact priority_step_fail hok hcode hnode hsaved hstatus
  | abort ha hsaved hnode hstatus =>
    subst ha
    exact priority_step_abort hok hsaved hnode hstatus

end Step

/-! ## Runs -/

section Run

variable [DecidableEq Tid] {cfg : TxConfig} {s : TlState Tid}

omit [DecidableEq Tid] in
/-- In the application a thread has shown what it has returned. -/
theorem priority_of_app {g : GraphState Tid PriorityPlace}
    (hg : InGraph (priorityGraph cfg.toTmParams) true g s) {t : Tid}
    (happ : (s.thread t).code = .app) :
    (g.priority.thread t).pc = .out ∧ (g.priority.thread t).locked = (s.thread t).locked ∧
      (g.priority.thread t).spec.isSome = (s.tx t).isSome ∧ (g.thread t).priorityDue = [] := by
  have hcode := hg.code_of_app happ
  have hlocked := (hg.thread t).locked
  have hsome := (hg.thread t).isSome
  simp only [GraphState.priority, GraphThread.priority, GraphThread.priorityDue, hcode, hlocked,
    ← hsome, Option.isSome_map, true_and]
  cases (g.thread t).saved <;> rfl

/-- The runs of the code and those of `tasPriority`. -/
theorem priority_code_rep {tr : List (TlState Tid × TlAct Tid)}
    (h : (tlSystem Tid cfg .tasPriorityTm).Run System.Free tr s) :
    ∃ tr' g, (tasPriority Tid Addr cfg.toTmParams).Run System.Free tr' g.priority ∧
      InGraph (priorityGraph cfg.toTmParams) true g s ∧
      ∀ t, System.events (callsSeen PrioAct.tid PrioState.events t) tr' =
        tlLog t tr ++ (g.thread t).priorityDue := by
  exact tl_refines_map (priorityGraph_lawful cfg) (N := tasPriority Tid Addr cfg.toTmParams)
    PrioAct.tid PrioState.events GraphState.priority GraphThread.priorityDue rfl rfl
    (fun g a es g' hok hs => priority_step hok hs) h

/-- What the code of `tas_priority_tm` returns outside transactions, the system `tasPriority`
    shows, and the two leave the same lock words. Threads in the application are told the
    same. -/
theorem priority_code_refines {tr : List (TlState Tid × TlAct Tid)}
    (h : (tlSystem Tid cfg .tasPriorityTm).Run System.Free tr s) :
    ∃ tr' A, (tasPriority Tid Addr cfg.toTmParams).Run System.Free tr' A ∧
      (∀ l, A.all l = (s.obj l).word) ∧
      (∀ t, tlLog t tr <+: System.events (callsSeen PrioAct.tid PrioState.events t) tr') ∧
      ∀ t, (s.thread t).code = .app → (A.thread t).pc = .out ∧
        (A.thread t).locked = (s.thread t).locked ∧
        (A.thread t).spec.isSome = (s.tx t).isSome ∧
        System.events (callsSeen PrioAct.tid PrioState.events t) tr' = tlLog t tr := by
  obtain ⟨tr', g, hrun, hg, hsee⟩ := priority_code_rep h
  refine ⟨tr', g.priority, hrun, fun l => ?_, fun t => ?_, fun t happ => ?_⟩
  · rw [← hg.obj]
    rfl
  · rw [hsee t]
    exact List.prefix_append _ _
  · obtain ⟨hpc, hlocked, hspec, hdue⟩ := priority_of_app hg happ
    exact ⟨hpc, hlocked, hspec, by rw [hsee t, hdue, List.append_nil]⟩

/-- Thread 0 has the lock 1, and thread 1 speculates on it. -/
theorem priority_code_refines_speculating : ∃ tr s,
    (tlSystem (Fin 2) { fuel := 1 } .tasPriorityTm).Run System.Free tr s ∧
      (s.tx 1).isSome = true ∧
      ∃ tr' A, (tasPriority (Fin 2) Addr {}).Run System.Free tr' A ∧
        (∀ l, A.all l = (s.obj l).word) ∧
        (∀ t, tlLog t tr <+: System.events (callsSeen PrioAct.tid PrioState.events t) tr') ∧
        ∀ t, (s.thread t).code = .app → (A.thread t).pc = .out ∧
          (A.thread t).locked = (s.thread t).locked ∧
          (A.thread t).spec.isSome = (s.tx t).isSome ∧
          System.events (callsSeen PrioAct.tid PrioState.events t) tr' = tlLog t tr := by
  let s₀ : TlState (Fin 2) := ⟨fun _ => {}, fun _ => {}, fun _ => none, false⟩
  let as : List (TlAct (Fin 2)) := .call 0 .lock 1 :: List.replicate 8 (.run 0 0) ++
    .call 1 .lock 1 :: List.replicate 8 (.run 1 0) ++ [.htmBegin 1]
  have htx : ((tlSystem (Fin 2) { fuel := 1 } .tasPriorityTm).exec s₀ as).map
      (fun s => (s.tx 1).isSome) = some true := by decide +kernel
  obtain ⟨s, hs, htx⟩ := Option.map_eq_some_iff.mp htx
  have hrun := (System.Run.init (M := tlSystem (Fin 2) { fuel := 1 } .tasPriorityTm) rfl).exec hs
  have hrefines := priority_code_refines hrun
  exact ⟨_, s, hrun, htx, hrefines⟩

omit [DecidableEq Tid] in
/-- `tasPriority` counts a thread's last lock sooner than the code does, and its unlock later. -/
theorem priority_base_subset (th : GraphThread PriorityPlace) :
    th.base ⊆ PrioThread.base th.priority := by
  obtain ⟨code, locked, saved⟩ := th
  cases saved with
  | some sv => exact Finset.Subset.refl _
  | none =>
    cases code with
    | none => exact Finset.Subset.refl _
    | some c =>
      obtain ⟨call, l, pl⟩ := c
      cases pl with
      | release => exact Finset.subset_insert l locked
      | ending x => exact TlCall.subset_after call l x locked
      | spec => exact TlCall.subset_after call l 0 locked
      | _ => exact Finset.Subset.refl _

/-- Two threads that run the code of `tas_priority_tm` never both have a lock outside
    transactions. -/
theorem priority_code_exclusive {tr : List (TlState Tid × TlAct Tid)}
    (h : (tlSystem Tid cfg .tasPriorityTm).Run System.Free tr s) {t u : Tid} {l : Addr}
    (ht : l ∈ TlState.base s t) (hu : l ∈ TlState.base s u) : t = u := by
  obtain ⟨tr', g, hrun, hg, -⟩ := priority_code_rep h
  rw [← hg.base] at ht hu
  exact ((priority_val hrun).word l).unique (.inl (priority_base_subset _ ht))
    (.inl (priority_base_subset _ hu))

end Run

end TxLock.Spec
