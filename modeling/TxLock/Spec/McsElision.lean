import TxLock.ForStd.Refine
import TxLock.Spec.McsMove
import TxLock.Spec.McsTrylock

/-!
# A speculating queue lock is a queue lock

To the callers outside transactions `mcs_tm` does nothing that `mcs` could not do. A thread
of `mcs_tm` that counts its position or speculates stands for one of `mcs` that waits, and
the walk that halts speculators does not happen in `mcs`. Both queues are the same, node by
node.

A lock of `mcs` that finds the queue empty returns at once, one of `mcs_tm` after four more
accesses to the counters: what a thread there is going to be told is due.

## Key results

- `McsErases.step`: every step of `mcs_tm` is a step of `mcs` or none
- `mcs_elision`: what each caller sees of a run of `mcs_tm` it sees of a run of `mcs`
-/

namespace TxLock.Spec

open Native

variable {Tid Lid : Type}

/-- The place in `mcs` that a place in `mcs_tm` stands for. -/
def McsPc.plain : McsPc Tid Lid → McsPc Tid Lid
  | .spinCnt lk mine _ | .readCnt lk mine _ | .writeCnt lk mine _ | .readServing lk mine _
  | .htmBegin lk mine _ | .checkSpeculate lk mine _ | .checkWait lk mine _
  | .speculating lk mine _ | .spinWaitTm lk mine _ | .assertServing lk mine _
  | .writeServing lk mine _ | .spinWait lk mine => .spinWait lk mine
  | .haltFirst lk mine | .haltAt lk mine _ _ | .haltNext lk mine _ _ | .readSuccessor lk mine =>
    .readSuccessor lk mine
  -- the queue was empty, and the lock of `mcs` has returned
  | .firstRead _ _ | .firstWriteCnt _ _ _ | .firstReadAgain _ _ | .firstWrite _ _ _ | .out => .out
  | .initLockNext lk tryLock mine => .initLockNext lk tryLock mine
  | .initWait lk tryLock mine => .initWait lk tryLock mine
  | .initSpeculate lk tryLock mine => .initSpeculate lk tryLock mine
  | .initCnt lk tryLock mine => .initCnt lk tryLock mine
  | .swapTail lk mine => .swapTail lk mine
  | .casTail lk mine => .casTail lk mine
  | .link lk mine pred => .link lk mine pred
  | .readNext lk mine => .readNext lk mine
  | .clearTail lk mine => .clearTail lk mine
  | .spinNext lk mine => .spinNext lk mine
  | .clearWait lk mine next => .clearWait lk mine next
  | .dealloc lk mine => .dealloc lk mine

/-- The lock that a thread has got without having been told, and the node it took it with. -/
def McsPc.got : McsPc Tid Lid → List (Lid × Nat)
  | .firstRead lk mine | .firstWriteCnt lk mine _ | .firstReadAgain lk mine
  | .firstWrite lk mine _ => [(lk, mine)]
  | .out | .initLockNext _ _ _ | .initWait _ _ _ | .initSpeculate _ _ _ | .initCnt _ _ _
  | .swapTail _ _ | .casTail _ _ | .link _ _ _ | .spinWait _ _ | .spinCnt _ _ _ | .readCnt _ _ _
  | .writeCnt _ _ _ | .readServing _ _ _ | .htmBegin _ _ _ | .checkSpeculate _ _ _
  | .checkWait _ _ _ | .speculating _ _ _ | .spinWaitTm _ _ _ | .assertServing _ _ _
  | .writeServing _ _ _ | .readNext _ _ | .clearTail _ _ | .spinNext _ _ | .haltFirst _ _
  | .haltAt _ _ _ _ | .haltNext _ _ _ _ | .readSuccessor _ _ | .clearWait _ _ _
  | .dealloc _ _ => []

/-- It has seen that the flag `wait` of its node is clear. -/
def McsPc.served : McsPc Tid Lid → Option Nat
  | .assertServing _ mine _ | .writeServing _ mine _ => some mine
  | .out | .initLockNext _ _ _ | .initWait _ _ _ | .initSpeculate _ _ _ | .initCnt _ _ _
  | .swapTail _ _ | .casTail _ _ | .link _ _ _ | .spinWait _ _ | .spinCnt _ _ _ | .readCnt _ _ _
  | .writeCnt _ _ _ | .readServing _ _ _ | .htmBegin _ _ _ | .checkSpeculate _ _ _
  | .checkWait _ _ _ | .speculating _ _ _ | .spinWaitTm _ _ _ | .firstRead _ _
  | .firstWriteCnt _ _ _ | .firstReadAgain _ _ | .firstWrite _ _ _ | .readNext _ _
  | .clearTail _ _ | .spinNext _ _ | .haltFirst _ _ | .haltAt _ _ _ _ | .haltNext _ _ _ _
  | .readSuccessor _ _ | .clearWait _ _ _ | .dealloc _ _ => none

/-- What the caller in thread `t` is going to see of its call. -/
def McsState.due (s : McsState Tid Lid) (t : Tid) : List (Lid × LockEvent) :=
  (McsPc.got (s.thread t).pc).flatMap fun p => [(p.1, .take), (p.1, .answer 0)]

/-- The thread `th'` of `mcs` stands for the thread `th` of `mcs_tm`. -/
structure McsThread.Erases (th' th : McsThread Tid Lid) : Prop where
  pc : th'.pc = McsPc.plain th.pc
  pool : th'.pool = th.pool
  held : th'.held = McsPc.got th.pc ++ th.held

/-- The node `x'` of `mcs` stands for the node `x` of `mcs_tm`. -/
structure McsNode.Erases (x' x : McsNode Tid) : Prop where
  lockNext : x'.lockNext = x.lockNext
  wait : x'.wait = x.wait

/-- The state `A` of `mcs` stands for the state `s` of `mcs_tm`. -/
structure McsErases (A s : McsState Tid Lid) : Prop where
  running : A.aborted = false
  node : ∀ n, McsNode.Erases (A.node n) (s.node n)
  tail : ∀ lk, (A.lock lk).tail = (s.lock lk).tail
  thread : ∀ t, McsThread.Erases (A.thread t) (s.thread t)
  served : ∀ t mine, McsPc.served (s.thread t).pc = some mine → (s.node (t, mine)).wait = false

namespace McsErases

variable [DecidableEq Tid] [DecidableEq Lid] {cfg : TmParams} {A A' s s' : McsState Tid Lid}
  {t : Tid}

omit [DecidableEq Lid] in
/-- A step of thread `t` after which no other thread waits that has been served. -/
theorem move (h : McsErases A s) {th' th : McsThread Tid Lid} (hrun : A'.aborted = false)
    (hA : A'.thread = Function.update A.thread t th')
    (hs : s'.thread = Function.update s.thread t th)
    (hnode : ∀ n, McsNode.Erases (A'.node n) (s'.node n))
    (htail : ∀ lk, (A'.lock lk).tail = (s'.lock lk).tail) (hth : McsThread.Erases th' th)
    (hserved : ∀ mine, McsPc.served th.pc = some mine → (s'.node (t, mine)).wait = false)
    (hwait : ∀ u mine, u ≠ t → (s.node (u, mine)).wait = false →
      (s'.node (u, mine)).wait = false) : McsErases A' s' := by
  refine ⟨hrun, hnode, htail, fun u => ?_, fun u mine hu => ?_⟩
  · rw [hA, hs]
    by_cases hut : u = t
    · subst hut
      simpa using hth
    · simpa [hut] using h.thread u
  · rw [hs] at hu
    by_cases hut : u = t
    · subst hut
      exact hserved mine (by simpa using hu)
    · refine hwait u mine hut (h.served u mine ?_)
      simpa [hut] using hu

omit [DecidableEq Lid] in
/-- A step of `mcs_tm` that `mcs` does not make. -/
theorem quiet (h : McsErases A s) {th : McsThread Tid Lid}
    (hs : s'.thread = Function.update s.thread t th)
    (hnode : ∀ n, (s'.node n).lockNext = (s.node n).lockNext ∧ (s'.node n).wait = (s.node n).wait)
    (htail : ∀ lk, (s'.lock lk).tail = (s.lock lk).tail)
    (hpc : McsPc.plain th.pc = McsPc.plain (s.thread t).pc)
    (hpool : th.pool = (s.thread t).pool)
    (hheld : McsPc.got th.pc ++ th.held = McsPc.got (s.thread t).pc ++ (s.thread t).held)
    (hserved : ∀ mine, McsPc.served th.pc = some mine → (s.node (t, mine)).wait = false) :
    McsErases A s' := by
  have ht := h.thread t
  refine h.move (t := t) h.running (Function.update_eq_self t A.thread).symm hs (fun n => ?_)
    (fun lk => (h.tail lk).trans (htail lk).symm)
    ⟨ht.pc.trans hpc.symm, ht.pool.trans hpool.symm, ht.held.trans hheld.symm⟩ (fun mine hm => ?_)
    fun u mine _ hw => ?_
  · obtain ⟨hnext, hwait⟩ := hnode n
    exact ⟨(h.node n).lockNext.trans hnext.symm, (h.node n).wait.trans hwait.symm⟩
  · rw [(hnode _).2]
    exact hserved mine hm
  · rw [(hnode _).2, hw]

end McsErases

/-! ## What the steps do to the queue -/

section Frame

variable [DecidableEq Tid] [DecidableEq Lid] (s : McsState Tid Lid) (t : Tid) (lk : Lid)

omit [DecidableEq Lid] in
/-- A store to a node that leaves the link and the flag `wait` alone. -/
theorem setNode_erases (n : Tid × Nat) {x : McsNode Tid} (hnext : x.lockNext = (s.node n).lockNext)
    (hwait : x.wait = (s.node n).wait) (m : Tid × Nat) :
    ((s.setNode n x).node m).lockNext = (s.node m).lockNext ∧
      ((s.setNode n x).node m).wait = (s.node m).wait := by
  by_cases hm : m = n
  · subst hm
    simp [McsState.setNode, hnext, hwait]
  · simp [McsState.setNode, hm]

omit [DecidableEq Tid] in
/-- A store to a lock that leaves `tail` alone. -/
theorem setLock_tail {l : McsLock Tid} (hl : l.tail = (s.lock lk).tail) (k : Lid) :
    ((s.setLock lk l).lock k).tail = (s.lock k).tail := by
  by_cases hk : k = lk
  · subst hk
    simp [McsState.setLock, hl]
  · simp [McsState.setLock, hk]

omit [DecidableEq Tid] in
theorem record_tail (n : Tid × Nat) (f : McsTurn Tid → McsTurn Tid) (k : Lid) :
    ((s.record lk n f).lock k).tail = (s.lock k).tail := by
  unfold McsState.record
  exact setLock_tail s lk (by rfl) k

/-- A node is queued: it becomes the tail. -/
theorem enqueued_tail (mine : Nat) (pc : McsPc Tid Lid) (k : Lid) :
    ((s.enqueued t lk mine pc).lock k).tail = if k = lk then some (t, mine) else (s.lock k).tail := by
  by_cases hk : k = lk
  · subst hk
    simp [McsState.enqueued, McsState.setThread, McsState.setLock]
  · simp [McsState.enqueued, McsState.setThread, McsState.setLock, McsState.setNode, hk]

end Frame

namespace McsErases

variable [DecidableEq Tid] [DecidableEq Lid] {cfg : TmParams} {A A' s s' : McsState Tid Lid}
  {t : Tid} {lk : Lid} {mine : Nat}

omit [DecidableEq Lid] in
/-- Both threads write the same node, and move. -/
theorem write (h : McsErases A s) {th' th : McsThread Tid Lid} {n : Tid × Nat} {x' x : McsNode Tid}
    (hx : McsNode.Erases x' x) (hth : McsThread.Erases th' th) (hserved : McsPc.served th.pc = none)
    (hwait : n.1 = t ∨ x.wait = (s.node n).wait ∨ x.wait = false) :
    McsErases ((A.setNode n x').setThread t th') ((s.setNode n x).setThread t th) := by
  refine h.move (t := t) h.running rfl rfl (fun m => ?_) h.tail hth (by simp [hserved])
    fun u i hu hw => ?_
  · by_cases hm : m = n
    · subst hm
      simpa [McsState.setThread, McsState.setNode] using hx
    · simpa [McsState.setThread, McsState.setNode, hm] using h.node m
  · by_cases hn : (u, i) = n
    · subst hn
      rcases hwait with hut | hsame | hclear
      · exact absurd hut hu
      · simpa [McsState.setThread, McsState.setNode, hsame] using hw
      · simpa [McsState.setThread, McsState.setNode] using hclear
    · simpa [McsState.setThread, McsState.setNode, hn] using hw

omit [DecidableEq Lid] in
/-- Both threads move. -/
theorem goOn (h : McsErases A s) {th' th : McsThread Tid Lid} (hth : McsThread.Erases th' th)
    (hserved : McsPc.served th.pc = none) :
    McsErases (A.setThread t th') (s.setThread t th) :=
  h.move (t := t) h.running rfl rfl h.node h.tail hth (by simp [hserved]) fun _ _ _ hw => hw

omit [DecidableEq Tid] in
/-- Only the counter of the lock is written. -/
theorem setLock (h : McsErases A s) {l : McsLock Tid} (hl : l.tail = (s.lock lk).tail) :
    McsErases A (s.setLock lk l) :=
  ⟨h.running, h.node, fun k => (h.tail k).trans (setLock_tail s lk hl k).symm, h.thread, h.served⟩

/-- Both threads have the lock and return. -/
theorem acquired (h : McsErases A s) (hgot : McsPc.got (s.thread t).pc = []) :
    McsErases (A.acquired t lk mine) (s.acquired t lk mine) := by
  have ht := h.thread t
  refine h.move (t := t) h.running rfl rfl h.node (fun k => ?_) ⟨rfl, ht.pool, ?_⟩
    (by simp [McsPc.served]) fun _ _ _ hw => hw
  · exact (record_tail A lk _ _ k).trans ((h.tail k).trans (record_tail s lk _ _ k).symm)
  · have hheld := ht.held
    rw [hgot] at hheld
    show (lk, mine) :: (A.thread t).held = _
    rw [hheld]
    rfl

/-- Both threads have queued their node behind the same one, or alone. -/
theorem enqueue (h : McsErases A s) (hgot : McsPc.got (s.thread t).pc = []) :
    McsErases (A.enqueue false t lk mine) (s.enqueue true t lk mine) := by
  have ht := h.thread t
  have hheld := ht.held
  rw [hgot, List.nil_append] at hheld
  have hnode : ∀ n, McsNode.Erases ((A.enqueued t lk mine .out).node n)
      ((s.enqueued t lk mine .out).node n) := by
    intro n
    by_cases hn : n = (t, mine)
    · subst hn
      have hx := h.node (t, mine)
      exact ⟨by simpa [McsState.enqueued, McsState.setThread, McsState.setLock, McsState.setNode]
        using hx.lockNext, by simpa [McsState.enqueued, McsState.setThread, McsState.setLock,
        McsState.setNode] using hx.wait⟩
    · simpa [McsState.enqueued, McsState.setThread, McsState.setLock, McsState.setNode, hn]
        using h.node n
  have hwait : ∀ u i, u ≠ t → (s.node (u, i)).wait = false →
      ((s.enqueued t lk mine .out).node (u, i)).wait = false := by
    intro u i hu hw
    simpa [McsState.enqueued, McsState.setThread, McsState.setLock, McsState.setNode, hu] using hw
  have htail : ∀ (pc pc' : McsPc Tid Lid) (k : Lid), ((A.enqueued t lk mine pc).lock k).tail =
      ((s.enqueued t lk mine pc').lock k).tail := by
    intro pc pc' k
    rw [enqueued_tail, enqueued_tail, h.tail k]
  have hpool : (A.thread t).pool.useNode mine = (s.thread t).pool.useNode mine := by rw [ht.pool]
  unfold McsState.enqueue
  rw [h.tail lk]
  cases htl : (s.lock lk).tail with
  | some pred =>
    simp only
    exact h.move (t := t) h.running rfl rfl hnode (htail _ _) ⟨rfl, hpool, hheld⟩
      (by simp [McsPc.served]) hwait
  | none =>
    -- the lock of `mcs` returns here
    simp only [Bool.false_eq_true, if_false, if_true]
    have hA : ((A.enqueued t lk mine .out).acquired t lk mine).thread = Function.update A.thread t
        ⟨.out, (A.thread t).pool.useNode mine, (lk, mine) :: (A.thread t).held, some 0⟩ := by
      simp [McsState.acquired, McsState.record, McsState.setThread, McsState.setLock,
        McsState.enqueued, McsState.setNode]
    refine h.move (t := t) h.running hA rfl hnode (fun k => ?_) ⟨rfl, hpool, ?_⟩
      (by simp [McsPc.served]) hwait
    · exact (record_tail _ lk _ _ k).trans (htail _ _ k)
    · show (lk, mine) :: (A.thread t).held = (lk, mine) :: (s.thread t).held
      rw [hheld]

end McsErases

/-! ## The steps -/

/-- `mcs` answers the step `a` of thread `t` by the same step or by none. -/
def McsAnswered [DecidableEq Tid] [DecidableEq Lid] (cfg : TmParams) (A s s' : McsState Tid Lid)
    (t : Tid) (a : McsAct Tid Lid) : Prop :=
  (McsState.events true s a ++ McsState.due s' t = McsState.due s t ∧ McsErases A s') ∨
    ∃ A', A.step cfg false a = some A' ∧
      McsState.due s t ++ McsState.events false A a =
        McsState.events true s a ++ McsState.due s' t ∧ McsErases A' s'

section Step

variable [DecidableEq Tid] [DecidableEq Lid] {cfg : TmParams} {A s s' : McsState Tid Lid}
  {a : McsAct Tid Lid} {t : Tid}

theorem McsAnswered.silent (hevents : McsState.events true s a = [])
    (hdue : McsState.due s' t = McsState.due s t) (h : McsErases A s') :
    McsAnswered cfg A s s' t a :=
  .inl ⟨by rw [hevents, hdue, List.nil_append], h⟩

theorem McsAnswered.run {A' : McsState Tid Lid} (h : McsErases A s)
    (hA : (A.runLock cfg false t).or (A.runUnlock cfg false t) = some A')
    (hsee : McsState.due s t ++ McsState.events false A (.run t) =
      McsState.events true s (.run t) ++ McsState.due s' t) (h' : McsErases A' s') :
    McsAnswered cfg A s s' t (.run t) :=
  .inr ⟨A', by simp [McsState.step, h.running, hA], hsee, h'⟩

/-- Both threads write a node and move on. -/
theorem McsAnswered.write {n : Tid × Nat} {x' x : McsNode Tid} {pc : McsPc Tid Lid} (h : McsErases A s)
    (hA : (A.runLock cfg false t).or (A.runUnlock cfg false t) =
      some ((A.setNode n x').goto t (McsPc.plain pc)))
    (hevents : McsState.events true s (.run t) = [] ∧ McsState.events false A (.run t) = [])
    (hgot : McsPc.got (s.thread t).pc = [] ∧ McsPc.got pc = []) (hx : McsNode.Erases x' x)
    (hserved : McsPc.served pc = none)
    (hwait : n.1 = t ∨ x.wait = (s.node n).wait ∨ x.wait = false) :
    McsAnswered cfg A s ((s.setNode n x).goto t pc) t (.run t) := by
  have ht := h.thread t
  have hheld := ht.held
  rw [hgot.1] at hheld
  refine .run h hA ?_ (h.write hx ⟨rfl, ht.pool, ?_⟩ hserved hwait)
  · simp [McsState.due, McsState.goto, McsState.setThread, hgot, hevents]
  · show (A.thread t).held = McsPc.got pc ++ (s.thread t).held
    rw [hheld, hgot.2]

/-- Both threads move on. -/
theorem McsAnswered.both {pc : McsPc Tid Lid} (h : McsErases A s)
    (hA : (A.runLock cfg false t).or (A.runUnlock cfg false t) = some (A.goto t (McsPc.plain pc)))
    (hevents : McsState.events true s (.run t) = [] ∧ McsState.events false A (.run t) = [])
    (hgot : McsPc.got (s.thread t).pc = [] ∧ McsPc.got pc = []) (hserved : McsPc.served pc = none) :
    McsAnswered cfg A s (s.goto t pc) t (.run t) := by
  have ht := h.thread t
  have hheld := ht.held
  rw [hgot.1] at hheld
  refine .run h hA ?_ (h.goOn ⟨rfl, ht.pool, ?_⟩ hserved)
  · simp [McsState.due, McsState.goto, McsState.setThread, hgot, hevents]
  · show (A.thread t).held = McsPc.got pc ++ (s.thread t).held
    rw [hheld, hgot.2]

/-- A lock that finds the queue empty is going to return. -/
theorem McsState.due_enqueue {lk : Lid} {mine : Nat} :
    McsState.due (s.enqueue true t lk mine) t =
      if (s.lock lk).tail = none then [(lk, .take), (lk, .answer 0)] else [] := by
  unfold McsState.enqueue
  cases (s.lock lk).tail with
  | some pred => simp [McsState.due, McsState.enqueued, McsState.setThread, McsPc.got]
  | none => simp [McsState.due, McsState.enqueued, McsState.setThread, McsPc.got]

/-- Thread `t` moves on in a step that `mcs` does not make, having written counters and flags
    `speculate` only. -/
theorem McsAnswered.quiet {s₁ : McsState Tid Lid} {pc : McsPc Tid Lid} (h : McsErases A s)
    (hevents : McsState.events true s a = []) (hpc : McsPc.plain pc = McsPc.plain (s.thread t).pc)
    (hgot : McsPc.got pc = McsPc.got (s.thread t).pc) (hthread : s₁.thread = s.thread)
    (hnode : ∀ n, (s₁.node n).lockNext = (s.node n).lockNext ∧ (s₁.node n).wait = (s.node n).wait)
    (htail : ∀ lk, (s₁.lock lk).tail = (s.lock lk).tail)
    (hserved : ∀ mine, McsPc.served pc = some mine → (s.node (t, mine)).wait = false) :
    McsAnswered cfg A s (s₁.goto t pc) t a := by
  have hs : (s₁.goto t pc).thread = Function.update s.thread t { s.thread t with pc := pc } := by
    simp [McsState.goto, McsState.setThread, hthread]
  refine .silent hevents ?_ (h.quiet hs hnode htail hpc rfl (by rw [hgot]) hserved)
  simp only [McsState.due, hs, Function.update_self, hgot]

/-- The same, having written nothing. -/
theorem McsAnswered.goto {pc : McsPc Tid Lid} (h : McsErases A s)
    (hevents : McsState.events true s a = []) (hpc : McsPc.plain pc = McsPc.plain (s.thread t).pc)
    (hgot : McsPc.got pc = McsPc.got (s.thread t).pc)
    (hserved : ∀ mine, McsPc.served pc = some mine → (s.node (t, mine)).wait = false) :
    McsAnswered cfg A s (s.goto t pc) t a :=
  .quiet h hevents hpc hgot rfl (fun _ => ⟨rfl, rfl⟩) (fun _ => rfl) hserved

/-- The next step of `mcs_lock_common` in thread `t`. -/
theorem McsErases.runLock (h : McsErases A s) (hs : s.runLock cfg true t = some s') :
    McsAnswered cfg A s s' t (.run t) := by
  have ht := h.thread t
  have hpc' := ht.pc
  cases hpc : (s.thread t).pc with
  | out | htmBegin lk mine cnt | speculating lk mine cnt | readNext lk mine | clearTail lk mine
  | spinNext lk mine | haltFirst lk mine | haltAt lk mine current dist
  | haltNext lk mine current dist | readSuccessor lk mine | clearWait lk mine next
  | dealloc lk mine => simp [McsState.runLock, hpc] at hs
  | initLockNext lk tryLock mine =>
    have hheld := ht.held
    rw [hpc] at hpc' hheld
    simp only [McsState.runLock, hpc, Option.some.injEq] at hs
    subst hs
    apply McsAnswered.run h
    · simp only [McsState.runLock, hpc', McsPc.plain, Option.some_or]
      rfl
    · simp [McsState.due, McsState.events, McsState.setThread, hpc, hpc', McsPc.plain, McsPc.got]
    · exact h.write ⟨rfl, (h.node _).wait⟩ ⟨rfl, congrArg (·.setLock mine lk) ht.pool, hheld⟩ rfl
        (.inl rfl)
  | initWait lk tryLock mine | initSpeculate lk tryLock mine =>
    rw [hpc] at hpc'
    simp only [McsState.runLock, hpc, Option.some.injEq] at hs
    subst hs
    apply McsAnswered.write h
    · simp only [McsState.runLock, hpc', McsPc.plain, Option.some_or]
      rfl
    · simp [McsState.events, hpc, hpc', McsPc.plain]
    · rw [hpc]
      exact ⟨rfl, rfl⟩
    · exact ⟨(h.node _).lockNext, by first | exact (h.node _).wait | rfl⟩
    · rfl
    · exact .inl rfl
  | initCnt lk tryLock mine =>
    rw [hpc] at hpc'
    simp only [McsState.runLock, hpc, Option.some.injEq] at hs
    subst hs
    cases tryLock <;>
    · apply McsAnswered.write h
      · simp only [McsState.runLock, hpc', McsPc.plain, Option.some_or]
        rfl
      · simp [McsState.events, hpc, hpc', McsPc.plain]
      · rw [hpc]
        exact ⟨rfl, rfl⟩
      · exact ⟨(h.node _).lockNext, (h.node _).wait⟩
      · rfl
      · exact .inl rfl
  | swapTail lk mine =>
    rw [hpc] at hpc'
    simp only [McsState.runLock, hpc, Option.some.injEq] at hs
    subst hs
    apply McsAnswered.run h
    · simp only [McsState.runLock, hpc', McsPc.plain, Option.some_or]
      rfl
    · rw [McsState.due_enqueue, McsState.due, hpc]
      simp only [McsState.events, hpc, hpc', McsPc.plain, h.tail lk]
      by_cases htl : (s.lock lk).tail = none <;> simp [htl, McsPc.got]
    · exact h.enqueue (by rw [hpc]; rfl)
  | casTail lk mine =>
    rw [hpc] at hpc'
    simp only [McsState.runLock, hpc] at hs
    by_cases htl : (s.lock lk).tail = none
    · simp only [htl, if_true, Option.some.injEq] at hs
      subst hs
      apply McsAnswered.run h
      · simp only [McsState.runLock, hpc', McsPc.plain, h.tail lk, htl, if_true, Option.some_or]
        rfl
      · rw [McsState.due_enqueue, McsState.due, hpc]
        simp [McsState.events, hpc, hpc', McsPc.plain, h.tail lk, htl, McsPc.got]
      · exact h.enqueue (by rw [hpc]; rfl)
    · simp only [htl, if_false, Option.some.injEq] at hs
      subst hs
      have hheld := ht.held
      rw [hpc] at hheld
      apply McsAnswered.run h
      · simp only [McsState.runLock, hpc', McsPc.plain, h.tail lk, htl, if_false, Option.some_or]
        rfl
      · simp [McsState.due, McsState.events, McsState.setThread, hpc, hpc', McsPc.plain, h.tail lk,
          htl, McsPc.got]
      · exact h.goOn ⟨rfl, ht.pool, hheld⟩ rfl
  | link lk mine pred =>
    rw [hpc] at hpc'
    simp only [McsState.runLock, hpc, if_true, Option.some.injEq] at hs
    subst hs
    apply McsAnswered.write h
    · simp only [McsState.runLock, hpc', McsPc.plain, Option.some_or]
      rfl
    · simp [McsState.events, hpc, hpc', McsPc.plain]
    · rw [hpc]
      exact ⟨rfl, rfl⟩
    · exact ⟨rfl, (h.node _).wait⟩
    · rfl
    · exact .inr (.inl rfl)
  | spinWait lk mine =>
    rw [hpc] at hpc'
    have hwait := (h.node (t, mine)).wait
    simp only [McsState.runLock, hpc] at hs
    by_cases hw : (s.node (t, mine)).wait = true
    · simp only [hw, if_true, Option.some.injEq] at hs
      subst hs
      exact .silent (by simp [McsState.events, hpc, hw]) rfl h
    · simp only [hw, Bool.false_eq_true, if_false, Option.some.injEq] at hs
      subst hs
      apply McsAnswered.run h
      · simp only [McsState.runLock, hpc', McsPc.plain, hwait, hw, Bool.false_eq_true, if_false,
          Option.some_or]
        rfl
      · simp [McsState.due, McsState.events, McsState.acquired, McsState.setThread, hpc, hpc',
          McsPc.plain, hwait, hw, McsPc.got]
      · exact h.acquired (by rw [hpc]; rfl)
  | spinCnt lk mine pred =>
    simp only [McsState.runLock, hpc] at hs
    have hev : McsState.events true s (.run t) = [] := by simp [McsState.events, hpc]
    split at hs <;> simp only [Option.some.injEq] at hs <;> subst hs
    · exact .silent hev rfl h
    · exact .goto h hev (by rw [hpc]; rfl) (by rw [hpc]; rfl) (by simp [McsPc.served])
  | readCnt lk mine pred | firstRead lk mine | firstReadAgain lk mine =>
    simp only [McsState.runLock, hpc, Option.some.injEq] at hs
    subst hs
    exact .goto h (by simp [McsState.events, hpc]) (by rw [hpc]; rfl) (by rw [hpc]; rfl)
      (by simp [McsPc.served])
  | writeCnt lk mine cnt | firstWriteCnt lk mine cnt =>
    simp only [McsState.runLock, hpc, Option.some.injEq] at hs
    subst hs
    exact .quiet h (by simp [McsState.events, hpc]) (by rw [hpc]; rfl) (by rw [hpc]; rfl) rfl
      (setNode_erases _ _ rfl rfl) (record_tail s lk _ _) (by simp [McsPc.served])
  | readServing lk mine cnt | checkSpeculate lk mine cnt =>
    simp only [McsState.runLock, hpc] at hs
    have hev : McsState.events true s (.run t) = [] := by simp [McsState.events, hpc]
    split at hs <;> simp only [Option.some.injEq] at hs <;> subst hs
    · exact .goto h hev (by rw [hpc]; rfl) (by rw [hpc]; rfl) (by simp [McsPc.served])
    · exact .goto h hev (by rw [hpc]; rfl) (by rw [hpc]; rfl) (by simp [McsPc.served])
  | checkWait lk mine cnt =>
    simp only [McsState.runLock, hpc] at hs
    have hev : McsState.events true s (.run t) = [] := by simp [McsState.events, hpc]
    split at hs <;> simp only [Option.some.injEq] at hs <;> subst hs
    · refine .silent hev ?_ (h.quiet (t := t) rfl (fun _ => ⟨rfl, rfl⟩) (fun _ => rfl) ?_ rfl ?_ ?_)
      · simp [McsState.due, McsState.setThread, hpc, McsPc.got]
      · rw [hpc]
        rfl
      · rw [hpc]
        rfl
      · simp [McsPc.served]
    · exact .goto h hev (by rw [hpc]; rfl) (by rw [hpc]; rfl) (by simp [McsPc.served])
  | spinWaitTm lk mine cnt =>
    simp only [McsState.runLock, hpc] at hs
    have hev : McsState.events true s (.run t) = [] := by simp [McsState.events, hpc]
    split at hs <;> rename_i hw <;> simp only [Option.some.injEq] at hs <;> subst hs
    · exact .silent hev rfl h
    · refine .goto h hev (by rw [hpc]; rfl) (by rw [hpc]; rfl) fun i hi => ?_
      obtain rfl : mine = i := by simpa [McsPc.served] using hi
      simpa using hw
  | assertServing lk mine cnt =>
    simp only [McsState.runLock, hpc] at hs
    have hev : McsState.events true s (.run t) = [] := by simp [McsState.events, hpc]
    split at hs <;> simp only [Option.some.injEq] at hs <;> subst hs
    · refine .goto h hev (by rw [hpc]; rfl) (by rw [hpc]; rfl) fun i hi => h.served t i ?_
      rw [hpc]
      exact hi
    · exact .silent hev rfl ⟨h.running, h.node, h.tail, h.thread, h.served⟩
  | writeServing lk mine cnt =>
    -- the thread of `mcs` reads the flag only now
    rw [hpc] at hpc'
    have hwait := (h.node (t, mine)).wait
    have hw := h.served t mine (by rw [hpc]; rfl)
    simp only [McsState.runLock, hpc, Option.some.injEq] at hs
    subst hs
    have hlock : McsErases A (s.setLock lk { s.lock lk with nowServing := cnt }) := h.setLock rfl
    apply McsAnswered.run h
    · simp only [McsState.runLock, hpc', McsPc.plain, hwait, hw, Bool.false_eq_true, if_false,
        Option.some_or]
      rfl
    · simp [McsState.due, McsState.events, McsState.acquired, McsState.setThread, hpc, hpc',
        McsPc.plain, hwait, hw, McsPc.got]
    · exact hlock.acquired (by show McsPc.got (s.thread t).pc = []; rw [hpc]; rfl)
  | firstWrite lk mine now =>
    simp only [McsState.runLock, hpc, Option.some.injEq] at hs
    subst hs
    refine .inl ⟨?_, h.quiet (t := t) rfl (fun _ => ⟨rfl, rfl⟩) (fun k => ?_) ?_ rfl ?_ ?_⟩
    · simp [McsState.due, McsState.events, McsState.acquired, McsState.setThread, hpc, McsPc.got]
    · exact (record_tail _ lk _ _ k).trans (setLock_tail s lk (by rfl) k)
    · rw [hpc]
      rfl
    · rw [hpc]
      rfl
    · simp [McsPc.served]

/-- The next step of `mcs_unlock_common` in thread `t`. -/
theorem McsErases.runUnlock (h : McsErases A s) (hs : s.runUnlock cfg true t = some s') :
    McsAnswered cfg A s s' t (.run t) := by
  have ht := h.thread t
  have hpc' := ht.pc
  cases hpc : (s.thread t).pc with
  | out | initLockNext lk tryLock mine | initWait lk tryLock mine | initSpeculate lk tryLock mine
  | initCnt lk tryLock mine | swapTail lk mine | casTail lk mine | link lk mine pred
  | spinWait lk mine | spinCnt lk mine pred | readCnt lk mine pred | writeCnt lk mine cnt
  | readServing lk mine cnt | htmBegin lk mine cnt | checkSpeculate lk mine cnt
  | checkWait lk mine cnt | speculating lk mine cnt | spinWaitTm lk mine cnt
  | assertServing lk mine cnt | writeServing lk mine cnt | firstRead lk mine
  | firstWriteCnt lk mine cnt | firstReadAgain lk mine | firstWrite lk mine now =>
    simp [McsState.runUnlock, hpc] at hs
  | readNext lk mine =>
    have hev : McsState.events true s (.run t) = [] := by simp [McsState.events, hpc]
    have hev' : McsState.events false A (.run t) = [] := by
      simp [McsState.events, hpc', hpc, McsPc.plain]
    rw [hpc] at hpc'
    have hnext := (h.node (t, mine)).lockNext
    simp only [McsState.runUnlock, hpc] at hs
    split at hs <;> rename_i hn <;> simp only [if_true, Option.some.injEq] at hs <;> subst hs
    all_goals
      refine .both h ?_ ⟨hev, hev'⟩ ⟨by rw [hpc]; rfl, rfl⟩ rfl
      simp [McsState.runLock, McsState.runUnlock, hpc', McsPc.plain, hnext, hn]
  | spinNext lk mine =>
    have hev : McsState.events true s (.run t) = [] := by simp [McsState.events, hpc]
    have hev' : McsState.events false A (.run t) = [] := by
      simp [McsState.events, hpc', hpc, McsPc.plain]
    rw [hpc] at hpc'
    have hnext := (h.node (t, mine)).lockNext
    simp only [McsState.runUnlock, hpc] at hs
    split at hs <;> rename_i hn <;> simp only [if_true, Option.some.injEq] at hs <;> subst hs
    · exact .silent hev rfl h
    · refine .both h ?_ ⟨hev, hev'⟩ ⟨by rw [hpc]; rfl, rfl⟩ rfl
      simp [McsState.runLock, McsState.runUnlock, hpc', McsPc.plain, hnext, hn]
  | clearTail lk mine =>
    have hheld := ht.held
    rw [hpc] at hpc' hheld
    simp only [McsState.runUnlock, hpc] at hs
    by_cases htl : (s.lock lk).tail = some (t, mine)
    · simp only [htl, if_true, Option.some.injEq] at hs
      subst hs
      apply McsAnswered.run h
      · simp only [McsState.runLock, McsState.runUnlock, hpc', McsPc.plain, h.tail lk, htl, if_true,
          Option.none_or]
        rfl
      · simp [McsState.due, McsState.events, McsState.goto, McsState.setThread, hpc, hpc',
          McsPc.plain, h.tail lk, htl, McsPc.got]
      · refine h.move (t := t) h.running rfl rfl h.node (fun k => ?_) ⟨rfl, ht.pool, hheld⟩
          (by simp [McsPc.served]) fun _ _ _ hw => hw
        by_cases hk : k = lk
        · subst hk
          simp [McsState.goto, McsState.setThread, McsState.setLock]
        · simpa [McsState.goto, McsState.setThread, McsState.setLock, hk] using h.tail k
    · simp only [htl, if_false, Option.some.injEq] at hs
      subst hs
      refine .both h ?_ ⟨?_, ?_⟩ ⟨by rw [hpc]; rfl, rfl⟩ rfl
      · simp [McsState.runLock, McsState.runUnlock, hpc', McsPc.plain, h.tail lk, htl]
      · simp [McsState.events, hpc, htl]
      · simp [McsState.events, hpc', McsPc.plain, h.tail lk, htl]
  | haltFirst lk mine | haltNext lk mine current dist =>
    simp only [McsState.runUnlock, hpc, Option.some.injEq] at hs
    subst hs
    exact .goto h (by simp [McsState.events, hpc]) (by rw [hpc]; rfl) (by rw [hpc]; rfl)
      (by simp [McsPc.served])
  | haltAt lk mine current dist =>
    have hev : McsState.events true s (.run t) = [] := by simp [McsState.events, hpc]
    cases current with
    | none =>
      simp only [McsState.runUnlock, hpc, Option.some.injEq] at hs
      subst hs
      exact .goto h hev (by rw [hpc]; rfl) (by rw [hpc]; rfl) (by simp [McsPc.served])
    | some x =>
      -- the walk stores to a flag `speculate` at most
      simp only [McsState.runUnlock, hpc] at hs
      have hnode : ∀ n, ((McsState.halt cfg s x dist).node n).lockNext = (s.node n).lockNext ∧
          ((McsState.halt cfg s x dist).node n).wait = (s.node n).wait := by
        unfold McsState.halt
        split
        · exact setNode_erases s x rfl rfl
        · exact fun _ => ⟨rfl, rfl⟩
      have hquiet : ∀ pc : McsPc Tid Lid, McsPc.plain pc = .readSuccessor lk mine → McsPc.got pc = [] →
          McsPc.served pc = none →
          McsAnswered cfg A s ((McsState.halt cfg s x dist).goto t pc) t (.run t) := by
        intro pc hpl hgot hserved
        refine .quiet h hev (by rw [hpl, hpc]; rfl) (by rw [hgot, hpc]; rfl)
          (McsState.halt_thread x dist) hnode (fun k => ?_) (by simp [hserved])
        rw [McsState.halt_lock]
      split at hs <;> simp only [Option.some.injEq] at hs <;> subst hs
      · exact hquiet _ rfl rfl rfl
      · exact hquiet _ rfl rfl rfl
  | readSuccessor lk mine =>
    have hev : McsState.events true s (.run t) = [] := by simp [McsState.events, hpc]
    have hev' : McsState.events false A (.run t) = [] := by
      simp [McsState.events, hpc', hpc, McsPc.plain]
    rw [hpc] at hpc'
    have hnext := (h.node (t, mine)).lockNext
    simp only [McsState.runUnlock, hpc] at hs
    split at hs <;> rename_i hn <;> simp only [Option.some.injEq] at hs <;> subst hs
    · refine .both h ?_ ⟨hev, hev'⟩ ⟨by rw [hpc]; rfl, rfl⟩ rfl
      simp [McsState.runLock, McsState.runUnlock, hpc', McsPc.plain, hnext, hn]
    · exact .silent hev rfl ⟨h.running, h.node, h.tail, h.thread, h.served⟩
  | clearWait lk mine next =>
    have hnone : (A.thread t).held = (s.thread t).held := by
      rw [ht.held, hpc]
      rfl
    have hrest : McsErases ((A.setNode next { A.node next with wait := false }).goto t (.dealloc lk mine))
        ((s.setNode next { s.node next with wait := false }).goto t (.dealloc lk mine)) :=
      h.write ⟨(h.node _).lockNext, rfl⟩ ⟨rfl, ht.pool, hnone⟩ rfl (.inr (.inr rfl))
    rw [hpc] at hpc'
    simp only [McsState.runUnlock, hpc, Option.some.injEq] at hs
    subst hs
    apply McsAnswered.run h
    · simp only [McsState.runLock, McsState.runUnlock, hpc', McsPc.plain, Option.none_or]
      rfl
    · simp [McsState.due, McsState.events, McsState.goto, McsState.setThread, hpc, hpc',
        McsPc.plain, McsPc.got]
    · refine ⟨h.running, hrest.node, fun k => ?_, hrest.thread, hrest.served⟩
      exact (setLock_tail _ lk (by rfl) k).trans ((h.tail k).trans
        (setLock_tail _ lk (by rfl) k).symm)
  | dealloc lk mine =>
    have hheld := ht.held
    rw [hpc] at hpc' hheld
    simp only [McsState.runUnlock, hpc, Option.some.injEq] at hs
    subst hs
    apply McsAnswered.run h
    · simp only [McsState.runLock, McsState.runUnlock, hpc', McsPc.plain, Option.none_or]
      rfl
    · simp [McsState.due, McsState.events, McsState.setThread, hpc, hpc', McsPc.plain, McsPc.got]
    · exact h.write ⟨rfl, (h.node _).wait⟩ ⟨rfl, congrArg (·.deallocNode mine) ht.pool, hheld⟩ rfl
        (.inl rfl)

/-- A call of `mcs_lock` or `mcs_trylock` from outside transactions, or in one. -/
theorem McsErases.callLock {lk : Lid} {tryLock : Bool} (h : McsErases A s)
    (hs : s.callLock t lk tryLock = some s') :
    ((s.thread t).pc ≠ .out ∧ s' = s) ∨
      (s.thread t).pc = .out ∧ (A.thread t).pc = .out ∧ McsState.due s' t = [] ∧
        ∃ A', A.callLock t lk tryLock = some A' ∧ McsErases A' s' := by
  have ht := h.thread t
  have hpc' := ht.pc
  cases hpc : (s.thread t).pc <;> simp only [McsState.callLock, hpc, reduceCtorEq] at hs
  case speculating lk' mine cnt =>
    simp only [Option.ite_none_right_eq_some, Option.some.injEq] at hs
    -- inside a transaction the call returns 0 and leaves the state alone
    exact .inl ⟨by simp, hs.2.symm⟩
  case out =>
    have hheld := ht.held
    rw [hpc] at hpc' hheld
    simp only [Option.ite_none_left_eq_some, Option.some.injEq] at hs
    obtain ⟨hnew, rfl⟩ := hs
    have h' : McsErases
        (A.setThread t { A.thread t with
          pc := .initLockNext lk tryLock (A.thread t).pool.getFreeNode.2
          pool := (A.thread t).pool.getFreeNode.1 })
        (s.setThread t { s.thread t with
          pc := .initLockNext lk tryLock (s.thread t).pool.getFreeNode.2
          pool := (s.thread t).pool.getFreeNode.1 }) :=
      h.goOn ⟨by rw [ht.pool]; rfl, by rw [ht.pool], hheld⟩ rfl
    refine .inr ⟨rfl, hpc', by simp [McsState.due, McsState.setThread, McsPc.got], _, ?_, h'⟩
    simp only [McsState.callLock, hpc', McsPc.plain]
    rw [if_neg (by rw [hheld]; exact hnew)]

/-- A call of `mcs_unlock` from outside transactions, or in one. -/
theorem McsErases.callUnlock {lk : Lid} (h : McsErases A s) (hs : s.callUnlock t lk = some s') :
    ((s.thread t).pc ≠ .out ∧ s' = s) ∨
      (s.thread t).pc = .out ∧ (A.thread t).pc = .out ∧ McsState.due s' t = [] ∧
        ∃ A', A.callUnlock t lk = some A' ∧ (∀ k, (A'.lock k).tail = (s'.lock k).tail) ∧
          (s'.aborted = false → McsErases A' s') := by
  have ht := h.thread t
  have hpc' := ht.pc
  cases hpc : (s.thread t).pc <;> simp only [McsState.callUnlock, hpc, reduceCtorEq] at hs
  case speculating lk' mine cnt =>
    simp only [Option.ite_none_right_eq_some, Option.some.injEq] at hs
    exact .inl ⟨by simp, hs.2.symm⟩
  case out =>
    have hheld := ht.held
    rw [hpc] at hpc' hheld
    simp only [Option.ite_none_right_eq_some] at hs
    obtain ⟨hown, hs⟩ := hs
    have hmem : lk ∈ (A.thread t).held.map Prod.fst := by
      rw [hheld]
      exact hown
    cases hfind : (s.thread t).pool.findNode lk with
    | none =>
      -- the assertion of `find_node` fails in both
      simp only [hfind, Option.some.injEq] at hs
      subst hs
      refine .inr ⟨rfl, hpc', by simp [McsState.due, hpc, McsPc.got], { A with aborted := true }, ?_,
        h.tail, by simp⟩
      simp [McsState.callUnlock, hpc', McsPc.plain, hmem, ht.pool, hfind]
    | some mine =>
      simp only [hfind, Option.some.injEq] at hs
      subst hs
      have h' : McsErases
          (A.setThread t { A.thread t with
            pc := .readNext lk mine, held := (A.thread t).held.filter fun h => h.1 ≠ lk })
          (s.setThread t { s.thread t with
            pc := .readNext lk mine, held := (s.thread t).held.filter fun h => h.1 ≠ lk }) :=
        h.goOn ⟨rfl, ht.pool, by rw [hheld]; rfl⟩ rfl
      refine .inr ⟨rfl, hpc', by simp [McsState.due, McsState.setThread, McsPc.got], _, ?_, h'.tail,
        fun _ => h'⟩
      simp [McsState.callUnlock, hpc', McsPc.plain, hmem, ht.pool, hfind]

/-- What `mcs` has to answer to the step `a` until `mcs_tm` has ended by an assertion. -/
def McsFollowed (cfg : TmParams) (A s s' : McsState Tid Lid) (a : McsAct Tid Lid) : Prop :=
  (McsState.events true s a ++ McsState.due s' (McsAct.tid a) = McsState.due s (McsAct.tid a) ∧
      McsErases A s') ∨
    ∃ A', A.step cfg false a = some A' ∧
      McsState.due s (McsAct.tid a) ++ McsState.events false A a =
        McsState.events true s a ++ McsState.due s' (McsAct.tid a) ∧
      (∀ lk, (A'.lock lk).tail = (s'.lock lk).tail) ∧ (s'.aborted = false → McsErases A' s')

theorem McsAnswered.followed {t : Tid} (ht : McsAct.tid a = t) (h : McsAnswered cfg A s s' t a) :
    McsFollowed cfg A s s' a := by
  subst ht
  rcases h with hnone | ⟨A', hA, hsee, h'⟩
  · exact .inl hnone
  · exact .inr ⟨A', hA, hsee, h'.tail, fun _ => h'⟩

/-- Every step of `mcs_tm` is the same step of `mcs`, or `mcs` does nothing. -/
theorem McsErases.step (h : McsErases A s) (hs : s.step cfg true a = some s') :
    McsFollowed cfg A s s' a := by
  simp only [McsState.step, Option.ite_none_left_eq_some] at hs
  obtain ⟨-, hs⟩ := hs
  cases a with
  | lock t lk =>
    -- in a transaction the call is erased, outside it is the same call of `mcs`
    rcases h.callLock hs with ⟨-, rfl⟩ | ⟨hpc, hpc', hdue, A', hA, h'⟩
    · exact .inl ⟨rfl, h⟩
    · refine .inr ⟨A', by simp [McsState.step, h.running, hA], ?_, h'.tail, fun _ => h'⟩
      rw [McsAct.tid, hdue]
      simp [McsState.due, hpc, McsPc.got, McsState.events]
  | trylock t lk =>
    rcases h.callLock hs with ⟨hpc, rfl⟩ | ⟨hpc, hpc', hdue, A', hA, h'⟩
    · refine .inl ⟨?_, h⟩
      cases hp : (s'.thread t).pc <;> simp [McsState.events, hp] at hpc ⊢
    · refine .inr ⟨A', by simp [McsState.step, h.running, hA], ?_, h'.tail, fun _ => h'⟩
      rw [McsAct.tid, hdue]
      simp [McsState.due, hpc, hpc', McsPc.got, McsState.events]
  | unlock t lk =>
    rcases h.callUnlock hs with ⟨hpc, rfl⟩ | ⟨hpc, hpc', hdue, A', hA, h'⟩
    · refine .inl ⟨?_, h⟩
      cases hp : (s'.thread t).pc <;> simp [McsState.events, hp] at hpc ⊢
    · refine .inr ⟨A', by simp [McsState.step, h.running, hA], ?_, h'⟩
      rw [McsAct.tid, hdue]
      simp [McsState.due, hpc, hpc', McsPc.got, McsState.events]
  | run t =>
    rcases Option.or_eq_some_iff.mp hs with hlock | ⟨-, hunlock⟩
    · exact (h.runLock hlock).followed rfl
    · exact (h.runUnlock hunlock).followed rfl
  -- begins and aborts of transactions have no counterpart in `mcs`
  | htmStart t =>
    cases hpc : (s.thread t).pc <;> simp only [hpc, reduceCtorEq, Option.some.injEq] at hs
    subst hs
    refine McsAnswered.followed rfl (.goto h rfl ?_ ?_ (by simp [McsPc.served])) <;> rw [hpc] <;> rfl
  | htmAbort t =>
    cases hpc : (s.thread t).pc <;>
      simp only [McsState.abortStep, hpc, reduceCtorEq, Option.some.injEq] at hs
    all_goals
      subst hs
      refine McsAnswered.followed rfl (.goto h rfl ?_ ?_ (by simp [McsPc.served])) <;>
        rw [hpc] <;> rfl

/-- What the callers in thread `t` see of a run. -/
def mcsLogOf (cfg : TmParams) (tm : Bool) (t : Tid)
    (tr : List (McsState Tid Lid × McsAct Tid Lid)) : List (Lid × LockEvent) :=
  (mcsView Tid Lid cfg tm).logOf t tr

/-- What each caller sees of a run of `mcs_tm`, up to an acquisition that is due to it, it
    sees of a run of `mcs` that leaves the same queues. -/
theorem mcs_elision (cfg : TmParams) {tr : List (McsState Tid Lid × McsAct Tid Lid)}
    (h : (mcs Tid Lid cfg true).Run System.Free tr s) :
    ∃ tr' s', (mcs Tid Lid cfg false).Run System.Free tr' s' ∧
      (∀ t, mcsLogOf cfg false t tr' = mcsLogOf cfg true t tr ++ McsState.due s t) ∧
      ∀ lk, (s'.lock lk).tail = (s.lock lk).tail := by
  have href := h.refines_due (N := mcs Tid Lid cfg false)
    (R := fun A s => (∀ lk, (A.lock lk).tail = (s.lock lk).tail) ∧
      (s.aborted = false → McsErases A s))
    (e := fun u s a => if McsAct.tid a = u then McsState.events true s a else [])
    (f := fun u s a => if McsAct.tid a = u then McsState.events false s a else [])
    (d := McsState.due) (fun s hs => ?_) fun A s a s' hR _ hs => ?_
  · obtain ⟨tr', s', hrun, hlog, htail, -⟩ := href
    exact ⟨tr', s', hrun, hlog, htail⟩
  · obtain rfl : s = {} := hs
    exact ⟨fun _ => rfl, {}, rfl, fun _ => rfl, fun _ => ⟨rfl, fun _ => ⟨rfl, rfl⟩, fun _ => rfl,
      fun _ => ⟨rfl, rfl, rfl⟩, by simp [McsPc.served]⟩⟩
  · have hs : s.step cfg true a = some s' := hs
    have hrunning : s.aborted = false := by
      cases hab : s.aborted with
      | false => rfl
      | true => simp [McsState.step, hab] at hs
    -- the other threads see nothing, and nothing more is due to them
    have hother : ∀ u, u ≠ McsAct.tid a → McsState.due s' u = McsState.due s u := by
      intro u hu
      simp only [McsState.due, McsState.step_thread hs hu]
    rcases (hR.2 hrunning).step hs with ⟨hsee, h'⟩ | ⟨A', hA, hsee, h'⟩
    · refine .inl ⟨fun u => ?_, h'.tail, fun _ => h'⟩
      by_cases hu : u = McsAct.tid a
      · subst hu
        rwa [if_pos rfl]
      · rw [if_neg (Ne.symm hu), List.nil_append, hother u hu]
    · refine .inr ⟨a, A', hA, fun u => ?_, h'⟩
      by_cases hu : u = McsAct.tid a
      · subst hu
        rwa [if_pos rfl, if_pos rfl]
      · rw [if_neg (Ne.symm hu), if_neg (Ne.symm hu), List.append_nil, List.nil_append, hother u hu]

end Step

/-- Thread 0 has the lock, and thread 1 is behind it and goes on without the lock. -/
theorem mcs_elision_speculating : ∃ tr s, (mcs (Fin 2) Unit {} true).Run System.Free tr s ∧
    (s.thread 1).pc = .speculating () 0 2 ∧
    ∃ tr' s', (mcs (Fin 2) Unit {} false).Run System.Free tr' s' ∧
      (∀ t, mcsLogOf {} false t tr' = mcsLogOf {} true t tr ++ McsState.due s t) ∧
      ∀ lk, (s'.lock lk).tail = (s.lock lk).tail := by
  let as : List (McsAct (Fin 2) Unit) :=
    .lock 0 () :: List.replicate 9 (.run 0) ++ .lock 1 () :: List.replicate 10 (.run 1) ++
      [.htmStart 1, .run 1, .run 1]
  have hspec : ((mcs (Fin 2) Unit {} true).exec {} as).map
      (fun s => (s.thread 1).pc) = some (.speculating () 0 2) := by decide
  obtain ⟨s, hs, hspec⟩ := Option.map_eq_some_iff.mp hspec
  have hrun := (System.Run.init (M := mcs (Fin 2) Unit {} true) rfl).exec hs
  exact ⟨_, s, hrun, hspec, mcs_elision {} hrun⟩

end TxLock.Spec
