import Mathlib.Data.List.Perm.Subperm
import TxLock.Spec.TxcondSignal

/-!
# The queue of `txcond.c`, and one post for every node

A signal takes one end of the queue, a broadcast the whole of it, and both post what
they have taken without the lock. `CondState.queue` are the nodes in the queue,
`CondState.hand` those a thread has taken and not posted; `CondState.removed` and
`CondState.posted` are the nodes a step takes off the queue and posts.

## Key results

- `CondState.queueStep_of_step`: what every step does to the queue
- `PostInv.step`: the nodes removed in a run are those posted and those in hand
- `txcond_posts_once`: the queue is well linked, every removed node is posted once, and
  no wakeup is lost between the release of the mutex and the sleep
-/

namespace TxLock.Spec

open Native

variable {Tid Lid : Type}

namespace CondState

/-- The nodes from `p` on. Nobody has allocated more than `fresh`. -/
def chain (s : CondState Tid Lid) (p : Option Nat) : List Nat :=
  follow (fun n => (s.node n).next) s.fresh p

/-- The nodes in the queue. -/
def queue (s : CondState Tid Lid) : List Nat := chain s s.head

/-- The nodes thread `t` has taken off the queue and not posted. -/
def hand (s : CondState Tid Lid) (t : Tid) : List Nat :=
  match CondPc.role (s.thread t).pc with
  | .posts n => [n]
  | .walks n => chain s (some n)
  | .steps n => chain s (s.node n).next
  | .walked _ _ r => chain s r
  | .idle | .fills _ _ | .sleeps _ | .claims _ | .frees _ | .leaves _ | .posted _
  | .discards _ => []

/-- The nodes whose semaphore a step posts. -/
def posted [DecidableEq Tid] [DecidableEq Lid] (s : CondState Tid Lid) (a : CondAct Tid Lid) :
    List Nat :=
  match s.step a with
  | some s' => (List.range s.fresh).filter fun n => (s.node n).sem < (s'.node n).sem
  | none => []

/-- The nodes a step takes off the queue. -/
def removed [DecidableEq Tid] [DecidableEq Lid] (s : CondState Tid Lid) (a : CondAct Tid Lid) :
    List Nat :=
  match s.step a with
  | some s' => (queue s).filter fun n => n ∉ queue s'
  | none => []

end CondState

/-- The queue is empty, or a doubly linked list from `head` to `tail`. -/
structure CondQueueOk (s : CondState Tid Lid) : Prop where
  list : DLinked (fun n => (s.node n).next) (fun n => (s.node n).prev) s.head s.tail
    (CondState.queue s)
  ends : s.head = none ∧ s.tail = none ∨
    ∃ m n, s.head = some m ∧ (s.node m).prev = none ∧ s.tail = some n ∧ (s.node n).next = none
  inverse : ∀ m ∈ CondState.queue s, ∀ n ∈ CondState.queue s,
    ((s.node m).next = some n ↔ (s.node n).prev = some m)

/-- What a step does to the queue: a wait adds a node at the tail, a signal takes one at
    one end and has it in hand, a broadcast takes all nodes there are. -/
def QueueStep (s s' : CondState Tid Lid) : CondAct Tid Lid → Prop
  | .run t =>
    match (s.thread t).pc with
    | .ulBody (.enqueue _ n) => CondState.queue s' = CondState.queue s ++ [n]
    | .ulBody .dequeue =>
      CondState.queue s = [] ∧ CondState.queue s' = [] ∧ CondState.hand s' t = [] ∨
      ∃ n, CondState.hand s' t = [n] ∧
        CondState.queue s = if CondState.takesHead s.cnt then n :: CondState.queue s'
          else CondState.queue s' ++ [n]
    | .ulBody .detach => CondState.queue s' = [] ∧ CondState.hand s' t = CondState.queue s
    | _ => CondState.queue s' = CondState.queue s
  | _ => CondState.queue s' = CondState.queue s

/-! ## The queue in the abstract view -/

section Queue

variable {s s' : CondState Tid Lid} {q q' : List Nat} {hands hands' : Tid → List Nat}
  {place place' : Nat → NodePlace Tid}

/-- The lists of nodes are not longer than the nodes there are. -/
theorem NodeInv.chain_eq (h : NodeInv (CondState.nodes s) q hands place) {p : Option Nat}
    {l : List Nat} (hl : Linked (fun n => (s.node n).next) p l)
    (hborn : ∀ n ∈ l, place n ≠ .unborn) : CondState.chain s p = l := by
  refine hl.follow_eq ?_
  have hsub : l ⊆ List.range s.fresh := fun n hn => by
    have hlt : ¬ s.fresh ≤ n := fun hle => hborn n hn ((h.unborn n).mpr hle)
    rw [List.mem_range]
    omega
  simpa using (List.subperm_of_subset hl.nodup hsub).length_le

theorem NodeInv.queue_eq (h : NodeInv (CondState.nodes s) q hands place) :
    CondState.queue s = q := by
  refine h.chain_eq h.queue.fwd fun n hn => ?_
  rw [(h.mem_queue n).mp hn]
  simp

theorem NodeInv.hand_eq (h : NodeInv (CondState.nodes s) q hands place) (t : Tid) :
    CondState.hand s t = hands t := by
  have hborn : ∀ n ∈ hands t, place n ≠ .unborn := fun n hn => by
    rw [(h.mem_hand t n).mp hn]
    simp
  have hhand : HandOk (fun n => (s.node n).next) (CondPc.role (s.thread t).pc) (hands t) :=
    (h.role t).hand
  unfold CondState.hand
  generalize CondPc.role (s.thread t).pc = r at hhand
  cases r with
  | walks n | steps n | walked n b r => exact h.chain_eq hhand hborn
  | posts n => exact hhand.symm
  | _ => exact hhand.symm

theorem NodeInv.condQueueOk (h : NodeInv (CondState.nodes s) q hands place) : CondQueueOk s := by
  have hlist : DLinked (fun n => (s.node n).next) (fun n => (s.node n).prev) s.head s.tail
      (CondState.queue s) := by
    rw [h.queue_eq]
    exact h.queue
  refine ⟨hlist, ?_, fun m hm n hn => hlist.next_eq_iff hm hn⟩
  cases hq : CondState.queue s with
  | nil =>
    rw [hq] at hlist
    exact .inl ⟨hlist.first_eq_none_iff.mpr rfl, hlist.last_eq_none_iff.mpr rfl⟩
  | cons m l =>
    obtain ⟨n, hn⟩ : ∃ n, s.tail = some n := by
      refine Option.ne_none_iff_exists'.mp fun hnone => ?_
      rw [hlist.last_eq_none_iff.mp hnone] at hq
      simp at hq
    have hhead : s.head = some m := by rw [← hlist.fwd.head?_eq, hq, List.head?_cons]
    rw [hn] at hlist
    obtain ⟨r, hr⟩ := hlist.exists_concat
    refine .inr ⟨m, n, hhead, ?_, hn, ?_⟩
    · -- the last cell of the backward list is the head
      have hbwd := hlist.bwd
      rw [hq, List.reverse_cons] at hbwd
      simpa using hbwd.next_eq
    · have hfwd := hlist.fwd
      rw [hr] at hfwd
      simpa using hfwd.next_eq

/-- The links of a state delimit the list `q`. -/
def Links (s : CondState Tid Lid) (q : List Nat) : Prop :=
  DLinked (fun n => (s.node n).next) (fun n => (s.node n).prev) s.head s.tail q

/-- Taking the head off takes the first node. -/
theorem Links.unlinkHead (h : Links s q) (h' : Links s.unlinkHead.1 q') :
    s.unlinkHead.2 = none ∧ q = [] ∧ q' = [] ∨ ∃ n, s.unlinkHead.2 = some n ∧ q = n :: q' := by
  have hfwd := h.fwd
  have hfwd' := h'.fwd
  simp only [CondState.unlinkHead] at hfwd' ⊢
  cases hhead : s.head with
  | none =>
    simp only [hhead] at hfwd hfwd'
    exact .inl ⟨rfl, hfwd.eq_nil_iff.mpr rfl, hfwd'.eq_nil_iff.mpr rfl⟩
  | some n =>
    right
    simp only [hhead] at hfwd hfwd'
    obtain ⟨r, rfl, hr⟩ := hfwd.exists_cons
    cases hnext : (s.node n).next with
    | none =>
      simp only [hnext] at hr hfwd' ⊢
      exact ⟨n, rfl, by rw [hr.eq_nil_iff.mpr rfl, hfwd'.eq_nil_iff.mpr rfl]⟩
    | some m =>
      simp only [hnext] at hr hfwd' ⊢
      refine ⟨n, rfl, ?_⟩
      have hlist : Linked (fun k => (s.node k).next) (some m) q' := by
        refine hfwd'.congr fun k _ => ?_
        by_cases hk : k = m
        · subst hk; simp [CondState.setNode]
        · simp [CondState.setNode, hk]
      rw [hr.unique hlist]

/-- Taking the tail off takes the last node. -/
theorem Links.unlinkTail (h : Links s q) (h' : Links s.unlinkTail.1 q') :
    s.unlinkTail.2 = none ∧ q = [] ∧ q' = [] ∨
      ∃ n, s.unlinkTail.2 = some n ∧ q = q' ++ [n] := by
  have hbwd := h.bwd
  have hbwd' := h'.bwd
  simp only [CondState.unlinkTail] at hbwd' ⊢
  cases htail : s.tail with
  | none =>
    simp only [htail] at hbwd hbwd'
    exact .inl ⟨rfl, by simpa using hbwd.eq_nil_iff, by simpa using hbwd'.eq_nil_iff⟩
  | some n =>
    right
    simp only [htail] at hbwd hbwd'
    obtain ⟨r, hq, hr⟩ := hbwd.exists_cons
    -- read backwards, the queue is the tail and the nodes before it
    have hqr : q = r.reverse ++ [n] := by
      rw [← List.reverse_reverse q, hq, List.reverse_cons]
    cases hprev : (s.node n).prev with
    | none =>
      simp only [hprev] at hr hbwd' ⊢
      have hq' : q' = [] := by simpa using hbwd'.eq_nil_iff
      exact ⟨n, rfl, by rw [hqr, hr.eq_nil_iff.mpr rfl, hq', List.reverse_nil]⟩
    | some m =>
      simp only [hprev] at hr hbwd' ⊢
      refine ⟨n, rfl, ?_⟩
      have hlist : Linked (fun k => (s.node k).prev) (some m) q'.reverse := by
        refine hbwd'.congr fun k _ => ?_
        by_cases hk : k = m
        · subst hk; simp [CondState.setNode]
        · simp [CondState.setNode, hk]
      rw [hqr, hr.unique hlist, List.reverse_reverse]

/-- A signal takes the end of the queue its counter says. -/
theorem Links.dequeueBody (h : Links s q) (h' : Links s.dequeueBody.1 q') :
    s.dequeueBody.2 = none ∧ q = [] ∧ q' = [] ∨
      ∃ n, s.dequeueBody.2 = some n ∧
        q = if CondState.takesHead s.cnt then n :: q' else q' ++ [n] := by
  simp only [CondState.dequeueBody] at h' ⊢
  generalize CondState.takesHead s.cnt = first at h'
  cases first with
  | true => exact Links.unlinkHead (s := { s with cnt := CondState.nextCnt s.cnt }) h h'
  | false => exact Links.unlinkTail (s := { s with cnt := CondState.nextCnt s.cnt }) h h'

/-- A wait links its new node in behind the last one. -/
theorem Links.enqueueBody {n : Nat} (h : Links s q) (hn : n ∉ q) (hnode : s.node n = {})
    (h' : Links (s.enqueueBody n) q') : q' = q ++ [n] := by
  unfold Links at h
  unfold CondState.enqueueBody Links at h'
  cases htail : s.tail with
  | none =>
    rw [htail] at h
    simp only [htail] at h'
    rw [h.last_eq_none_iff.mp rfl]
    exact h'.fwd.unique ⟨rfl, by simp [hnode]⟩
  | some l =>
    rw [htail] at h
    simp only [htail] at h'
    have hln : l ≠ n := fun hln => hn (hln ▸ h.mem_last)
    -- read backwards, the new node comes before the old last one
    have hlist : Linked (fun k => (((s.setNode n { s.node n with prev := some l }).setNode l
        { (s.setNode n { s.node n with prev := some l }).node l with next := some n }).node k).prev)
        (some n) (n :: q.reverse) := by
      refine ⟨rfl, ?_⟩
      have hpn : (((s.setNode n { s.node n with prev := some l }).setNode l
          { (s.setNode n { s.node n with prev := some l }).node l with
            next := some n }).node n).prev = some l := by
        simp [CondState.setNode, hln.symm]
      simp only [hpn]
      refine h.bwd.congr fun k hk => ?_
      have hkn : k ≠ n := fun hkn => hn (List.mem_reverse.mp (hkn ▸ hk))
      by_cases hkl : k = l
      · subst hkl; simp [CondState.setNode, hkn]
      · simp [CondState.setNode, hkl, hkn]
    rw [← List.reverse_reverse q', h'.bwd.unique hlist, List.reverse_cons, List.reverse_reverse]

variable [DecidableEq Tid] [DecidableEq Lid]

omit [DecidableEq Lid] in
/-- The section of a signal records its node and goes on. -/
theorem CondState.goto_record {n? : Option Nat} {t : Tid} {pc : CondPc Lid} :
    ((s.record n?).goto t pc).head = s.head ∧ ((s.record n?).goto t pc).cnt = s.cnt ∧
      (Links ((s.record n?).goto t pc) q ↔ Links s q) :=
  ⟨rfl, rfl, Iff.rfl⟩

/-- Outside the sections under the lock neither `cnt` nor a link of the queue is written: only a
    new node is filled in. -/
theorem CondState.links_step {a : CondAct Tid Lid} (hs : s.step a = some s')
    (hb : ∀ t b, a = .run t → (s.thread t).pc ≠ .ulBody b) :
    s'.head = s.head ∧ s'.cnt = s.cnt ∧ ∀ m, (∀ t c, (s.thread t).pc ≠ .semInit c m) →
      (s'.node m).next = (s.node m).next := by
  have hset : ∀ {n : Nat} {x : CondNode}, x.next = (s.node n).next → ∀ m,
      (Function.update s.node n x m).next = (s.node m).next := by
    intro n x hx m
    by_cases hm : m = n
    · subst hm
      rwa [Function.update_self]
    · rw [Function.update_of_ne hm]
  simp only [CondState.step] at hs
  split at hs
  · simp at hs
  cases a with
  | acquire t l | release t l | wait t c | signal t | broadcast t =>
    simp only at hs
    split at hs <;> simp only [Option.some.injEq, reduceCtorEq] at hs
    subst hs
    exact ⟨rfl, rfl, fun _ _ => rfl⟩
  | fail t e =>
    cases hpc : (s.thread t).pc <;>
      simp only [CondState.failStep, hpc, Option.some.injEq, reduceCtorEq] at hs
    case malloc c | semInit c n =>
      subst hs
      exact ⟨rfl, rfl, fun _ _ => rfl⟩
    case semWait c n =>
      cases e <;> simp only at hs <;> (try split at hs) <;>
        simp only [Option.some.injEq] at hs <;> subst hs <;> exact ⟨rfl, rfl, fun _ _ => rfl⟩
  | run t =>
    cases hpc : (s.thread t).pc with
    | ulBody b => exact absurd hpc (hb t b rfl)
    | out => simp [CondState.runStep, hpc] at hs
    | ulUnlock k =>
      rcases k with _ | (_ | _) | (_ | _) <;>
        simp only [CondState.runStep, hpc, CondState.bcLoop, Option.some.injEq] at hs <;>
        subst hs <;> exact ⟨rfl, rfl, fun _ _ => rfl⟩
    | semInit c n =>
      simp only [CondState.runStep, hpc, Option.some.injEq] at hs
      subst hs
      refine ⟨rfl, rfl, fun m hm => ?_⟩
      -- only the node that is filled in gets new links
      have hmn : m ≠ n := fun hmn => hm t c (hmn ▸ hpc)
      show (Function.update s.node n {} m).next = _
      rw [Function.update_of_ne hmn]
    | malloc c | tlUnlock c n | bcNext n e =>
      simp only [CondState.runStep, hpc, Option.some.injEq] at hs
      subst hs
      exact ⟨rfl, rfl, fun _ _ => rfl⟩
    | waitFree c n | sigFree n =>
      simp only [CondState.runStep, hpc, Option.some.injEq] at hs
      subst hs
      exact ⟨rfl, rfl, fun m _ => hset (by rfl) m⟩
    | bcFree n r e =>
      simp only [CondState.runStep, hpc, Option.some.injEq] at hs
      subst hs
      cases r <;> exact ⟨rfl, rfl, fun m _ => hset (by rfl) m⟩
    | ulRead b | ulSwap b | tlLock c n =>
      simp only [CondState.runStep, hpc] at hs
      split at hs <;> simp only [Option.some.injEq, reduceCtorEq] at hs <;> subst hs <;>
        exact ⟨rfl, rfl, fun _ _ => rfl⟩
    | semWait c n | casTimeout c n | casAwoken c n | sigCas n =>
      simp only [CondState.runStep, hpc] at hs
      split at hs <;> simp only [Option.some.injEq, reduceCtorEq] at hs <;> subst hs <;>
        first
          | exact ⟨rfl, rfl, fun m _ => hset (by rfl) m⟩
          | exact ⟨rfl, rfl, fun _ _ => rfl⟩
    | bcCas n r e =>
      simp only [CondState.runStep, hpc] at hs
      split at hs <;> simp only [Option.some.injEq] at hs <;> subst hs
      · cases r <;> exact ⟨rfl, rfl, fun m _ => hset (by rfl) m⟩
      · exact ⟨rfl, rfl, fun _ _ => rfl⟩
    | sigPost n | bcPost n e =>
      simp only [CondState.runStep, hpc] at hs
      split at hs <;> rename_i hpost <;> simp only [Option.some.injEq] at hs <;> subst hs
      · rw [CondState.semPost_eq_some hpost]
        exact ⟨rfl, rfl, fun m _ => hset (by rfl) m⟩
      · exact ⟨rfl, rfl, fun _ _ => rfl⟩

/-- What every step does to the queue. -/
theorem CondState.queueStep_of_step {a : CondAct Tid Lid}
    (h : NodeInv (CondState.nodes s) q hands place)
    (h' : NodeInv (CondState.nodes s') q' hands' place') (hs : s.step a = some s') :
    QueueStep s s' a := by
  have hkeep : (∀ t b, a = .run t → (s.thread t).pc ≠ .ulBody b) →
      CondState.queue s' = CondState.queue s := by
    intro hb
    obtain ⟨hhead, -, hnext⟩ := CondState.links_step hs hb
    rw [h.queue_eq, h'.queue_eq]
    have hlist : Linked (fun n => (s'.node n).next) s'.head q := by
      rw [hhead]
      refine h.queue.fwd.congr fun m hm => hnext m fun t c hpc => ?_
      -- a node that is being filled in is not in the queue
      have hrole : (CondState.nodes s).role t = .fills m false := by
        show CondPc.role (s.thread t).pc = _
        rw [hpc, CondPc.role]
      have hnew := ((h.role t).fills m false hrole).1
      rw [(h.mem_queue m).mp hm] at hnew
      simp at hnew
    exact h'.queue.fwd.unique hlist
  cases a with
  | acquire t l | release t l | wait t c | signal t | broadcast t | fail t e =>
    exact hkeep (by simp)
  | run t =>
    simp only [QueueStep]
    cases hpc : (s.thread t).pc with
    | ulBody b =>
      have hq : Links s q := h.queue
      have hq' : Links s' q' := h'.queue
      simp only [CondState.step] at hs
      split at hs
      · simp at hs
      rw [h.queue_eq, h'.queue_eq]
      cases b with
      | enqueue c n =>
        simp only [CondState.runStep, hpc, Option.some.injEq] at hs
        subst hs
        have hrole : (CondState.nodes s).role t = .fills n true := by
          show CondPc.role (s.thread t).pc = _
          rw [hpc, CondPc.role]
        obtain ⟨hnew, hready⟩ := (h.role t).fills n true hrole
        refine hq.enqueueBody (fun hn => ?_) (hready rfl) hq'
        rw [(h.mem_queue n).mp hn] at hnew
        simp at hnew
      | dequeue =>
        simp only [CondState.runStep, hpc, Option.some.injEq] at hs
        subst hs
        have hhand : ∀ n?, s.dequeueBody.2 = n? → CondState.hand
            ((s.dequeueBody.1.record s.dequeueBody.2).goto t (.ulUnlock (.signal s.dequeueBody.2))) t =
              n?.toList := by
          rintro n? hn
          cases n? <;>
            simp [CondState.hand, CondState.goto, CondState.setThread, CondPc.role, hn]
        rcases hq.dequeueBody (CondState.goto_record.2.2.mp hq') with
          ⟨hnone, hnil, hnil'⟩ | ⟨n, hsome, hlist⟩
        · exact .inl ⟨hnil, hnil', hhand none hnone⟩
        · exact .inr ⟨n, hhand (some n) hsome, hlist⟩
      | detach =>
        rw [h'.hand_eq]
        simp only [CondState.runStep, hpc, Option.some.injEq, CondState.detachBody] at hs
        have hfwd := hq.fwd
        have hfwd' := hq'.fwd
        have hhand := (h'.role t).hand
        cases hhead : s.head with
        | none =>
          simp only [hhead] at hs hfwd
          subst hs
          have hrole : (CondState.nodes (s.goto t (.ulUnlock (.broadcast none)))).role t =
              .idle := by
            simp [CondState.nodes, CondState.goto, CondState.setThread, CondPc.role,
              NodeRole.walk]
          rw [hrole] at hhand
          have hnil' : q' = [] := hfwd'.eq_nil_iff.mpr hhead
          exact ⟨hnil', by rw [hfwd.eq_nil_iff.mpr rfl]; exact hhand⟩
        | some n =>
          simp only [hhead] at hs hfwd
          subst hs
          have hrole : (CondState.nodes ({ s with head := none, tail := none }.goto t
              (.ulUnlock (.broadcast (some n))))).role t = .walks n := by
            simp [CondState.nodes, CondState.goto, CondState.setThread, CondPc.role,
              NodeRole.walk]
          rw [hrole] at hhand
          have hnil' : q' = [] := hfwd'.eq_nil_iff.mpr rfl
          exact ⟨hnil', hhand.unique hfwd⟩
    | _ =>
      refine hkeep ?_
      rintro u b ⟨⟩
      simp [hpc]

end Queue

/-! ## Removals and posts of a run -/

/-- The node is off the queue, posted or not. -/
def NodePlace.dequeued : NodePlace Tid → Prop
  | hand _ | spent => True
  | unborn | new | queued => False

/-- The node a thread in this role is about to post. -/
def NodeRole.posting : NodeRole → List Nat
  | posts n | walks n => [n]
  | idle | fills _ _ | sleeps _ | claims _ | frees _ | leaves _ | posted _ | discards _
  | steps _ | walked _ _ _ => []

theorem NodeRole.mem_posting {r : NodeRole} {n : Nat} :
    n ∈ r.posting ↔ r = .posts n ∨ r = .walks n := by
  cases r <;> simp [NodeRole.posting, eq_comm]

theorem NodeRole.posting_nodup (r : NodeRole) : r.posting.Nodup := by
  cases r <;> simp [NodeRole.posting]

/-- A thread posts one node at a time. -/
theorem NodeRole.eq_posting {r : NodeRole} {l : List Nat} (hl : l.Nodup)
    (h : ∀ n, n ∈ l ↔ n ∈ r.posting) : l = r.posting := by
  have hperm : l.Perm r.posting := (List.perm_ext_iff_of_nodup hl r.posting_nodup).mpr h
  cases r with
  | posts n | walks n => exact List.perm_singleton.mp hperm
  | _ => exact List.perm_nil.mp hperm

/-- What the steps of a run have removed and posted. -/
structure PostInv (c : CondNodes Tid) (place : Nat → NodePlace Tid) (removed posted : List Nat) :
    Prop where
  removed_nodup : removed.Nodup
  mem_removed : ∀ n, n ∈ removed ↔ (place n).dequeued
  posted_nodup : posted.Nodup
  mem_posted : ∀ n, n ∈ posted ↔ place n = .spent
  returned : ∀ n, c.returned n = some 0 → place n = .spent

section Step

variable {c c' : CondNodes Tid} {q q' : List Nat} {hands hands' : Tid → List Nat}
  {place place' : Nat → NodePlace Tid} {removed posted : List Nat}

/-- A node that leaves the queue is dequeued, and no other node is. -/
theorem NodePlace.Moves.dequeued_iff {t : Tid} {p p' : NodePlace Tid} (h : p.Moves t p') :
    p'.dequeued ↔ p.dequeued ∨ p = .queued ∧ p' ≠ .queued := by
  cases h with
  | stay => cases p <;> simp [NodePlace.dequeued]
  | _ => simp [NodePlace.dequeued]

/-- The node a thread is about to post is in its hands, and its semaphore empty. -/
theorem NodeInv.hand_of_posting (h : NodeInv c q hands place) {t : Tid} {n : Nat}
    (hn : n ∈ (c.role t).posting) : place n = .hand t ∧ (c.node n).sem = 0 := by
  have hhand := (h.role t).hand
  have hmem : n ∈ hands t := by
    rcases NodeRole.mem_posting.mp hn with hr | hr <;> rw [hr] at hhand
    · rw [show hands t = [n] from hhand]
      exact List.mem_singleton_self n
    · obtain ⟨l, hl, -⟩ := Linked.exists_cons hhand
      rw [hl]
      exact List.mem_cons_self
  have hp := (h.mem_hand t n).mp hmem
  exact ⟨hp, (h.unposted n (by rw [hp]; trivial)).sem⟩

variable [DecidableEq Tid]

/-- A node that is about to be posted is posted by the thread's next step. -/
theorem NodeInv.spent_of_posting (h' : NodeInv c' q' hands' place') {t : Tid} {e : NodeEvent}
    (hs : NodeStep c t e c') {n : Nat} (hn : n ∈ (c.role t).posting) : place' n = .spent := by
  refine (h'.role t).spent n ?_
  rcases NodeRole.mem_posting.mp hn with hr | hr <;> cases hs <;> simp_all [CondNodes.setRole] <;> rfl

/-- A wait returns 0 with a node that has been posted. -/
theorem NodeInv.spent_of_returned (h : NodeInv c q hands place) {t : Tid} {e : NodeEvent}
    (hs : NodeStep c t e c') {n : Nat} (hn : c'.returned n = some 0) :
    c.returned n = some 0 ∨ place n = .spent := by
  cases hs with
  | @leave m hr =>
    by_cases hnm : n = m
    · exact .inr ((h.role t).spent n (by rw [hr, hnm]; rfl))
    · exact .inl (by simpa [CondNodes.setRole, CondNodes.ret, hnm] using hn)
  | @initFails m hr | @expire m hr hst =>
    left
    by_cases hnm : n = m
    · subst hnm
      simp [CondNodes.setRole, CondNodes.ret] at hn
    · simpa [CondNodes.setRole, CondNodes.ret, CondNodes.setStatus, CondNodes.setNode, hnm] using hn
  | _ => exact .inl hn

/-- One step: the nodes it removes were in the queue, the node it posts in the thread's hands. -/
theorem PostInv.step (h : PostInv c place removed posted) (hinv : NodeInv c q hands place)
    (hinv' : NodeInv c' q' hands' place') {t : Tid} {e : NodeEvent} (hs : NodeStep c t e c')
    (hmoved : NodesMoved (c.role t) t place place') :
    PostInv c' place' (removed ++ q.filter fun n => n ∉ q') (posted ++ (c.role t).posting) where
  removed_nodup := by
    refine List.nodup_append.mpr ⟨h.removed_nodup, hinv.queue.nodup.filter _, ?_⟩
    rintro m hm n hn rfl
    have hp := (hinv.mem_queue m).mp (List.mem_filter.mp hn).1
    have hd := (h.mem_removed m).mp hm
    rw [hp] at hd
    exact hd
  mem_removed n := by
    -- a node is dequeued from the step on if the step takes it out of the queue
    rw [(hmoved.moves n).dequeued_iff, List.mem_append, h.mem_removed, List.mem_filter,
      hinv.mem_queue, decide_eq_true_eq, hinv'.mem_queue]
  posted_nodup := by
    refine List.nodup_append.mpr ⟨h.posted_nodup, ?_, ?_⟩
    · exact (c.role t).posting_nodup
    · rintro m hm n hn rfl
      have hp := (hinv.hand_of_posting hn).1
      rw [(h.mem_posted m).mp hm] at hp
      simp at hp
  mem_posted n := by
    rw [List.mem_append, h.mem_posted]
    constructor
    · rintro (hn | hn)
      · exact hmoved.spent hn
      · exact hinv'.spent_of_posting hs hn
    · intro hn
      exact (hmoved.posts n hn).imp_right NodeRole.mem_posting.mpr
  returned n hn := by
    rcases hinv.spent_of_returned hs hn with hn | hn
    · exact hmoved.spent (h.returned n hn)
    · exact hmoved.spent hn

/-- A step raises the semaphore of the node that its thread is about to post, and no other. -/
theorem NodeStep.sem_lt_iff (h : NodeInv c q hands place) {t : Tid} {e : NodeEvent}
    (hs : NodeStep c t e c') (n : Nat) :
    (c.node n).sem < (c'.node n).sem ↔ n ∈ (c.role t).posting := by
  -- the other steps raise none
  have hkept : ∀ {r : NodeRole}, c.role t = r → r.posting = [] →
      (∀ m, (c'.node m).sem ≤ (c.node m).sem) →
      ((c.node n).sem < (c'.node n).sem ↔ n ∈ (c.role t).posting) := by
    intro r hr hnone hle
    rw [hr, hnone]
    exact iff_of_false (Nat.not_lt.mpr (hle n)) List.not_mem_nil
  have hset : ∀ {d : CondNodes Tid} {k : Nat} {x : CondNode},
      (∀ m, (d.node m).sem ≤ (c.node m).sem) → x.sem ≤ (c.node k).sem →
      ∀ m, ((d.setNode k x).node m).sem ≤ (c.node m).sem := by
    intro d k x hd hx m
    by_cases hm : m = k
    · subst hm
      simpa [CondNodes.setNode] using hx
    · simpa [CondNodes.setNode, hm] using hd m
  have hrefl : ∀ m, (c.node m).sem ≤ (c.node m).sem := fun _ => Nat.le_refl _
  have hposts : ∀ m, m ∈ (c.role t).posting → c'.node = (c.post m).node →
      ((c.node n).sem < (c'.node n).sem ↔ n ∈ (c.role t).posting) := by
    intro m hm hd
    have hsingle : ∀ k, k ∈ (c.role t).posting ↔ k = m := by
      intro k
      rw [NodeRole.mem_posting] at hm ⊢
      rcases hm with hr | hr <;> simp [hr, eq_comm]
    rw [hsingle, hd]
    by_cases hnm : n = m
    · subst hnm
      simp [CondNodes.post, CondNodes.setNode]
    · simp [CondNodes.post, CondNodes.setNode, hnm]
  cases hs with
  | post hr => exact hposts _ (NodeRole.mem_posting.mpr (.inl hr)) rfl
  | walkPost hr => exact hposts _ (NodeRole.mem_posting.mpr (.inr hr)) rfl
  | walkFails hr hsem =>
    have hz := (h.hand_of_posting (NodeRole.mem_posting.mpr (.inr hr))).2
    rw [hz] at hsem
    exact absurd hsem (by decide)
  | alloc hr | initFails hr | enqueueFirst hr | late hr | yield hr | leave hr | dequeueHead hr
  | dequeueTail hr | signalYield hr | detach hr | walkNext hr | walkYield hr =>
    exact hkept hr rfl hrefl
  | fill hr => exact hkept hr rfl (hset hrefl (Nat.zero_le _))
  | wake hr => exact hkept hr rfl (hset hrefl (Nat.sub_le _ _))
  | @enqueueLast k m hr htail =>
    have hprev : ∀ j, (((c.setPrev k (some m)).node j).sem ≤ (c.node j).sem) :=
      hset hrefl (Nat.le_refl _)
    exact hkept hr rfl (hset hprev (hprev m))
  | expire hr | claim hr | free hr | dequeueHeadOf hr | dequeueTailOf hr | signalClaim hr
  | discard hr | walkClaim hr | walkFree hr => exact hkept hr rfl (hset hrefl (Nat.le_refl _))

end Step

section Run

variable [DecidableEq Tid] [DecidableEq Lid] {s s' : CondState Tid Lid} {a : CondAct Tid Lid}
  {q q' : List Nat} {hands hands' : Tid → List Nat} {place place' : Nat → NodePlace Tid}

theorem CondState.runStep_of_step {t : Tid} (hs : s.step (.run t) = some s') :
    s.runStep t = some s' := by
  simp only [CondState.step] at hs
  split at hs
  · simp at hs
  · exact hs

/-- The code posts what its thread is about to post in the abstract view. -/
theorem CondState.posted_eq (h : NodeInv (CondState.nodes s) q hands place)
    (hs : s.step a = some s') {t : Tid} {e : NodeEvent}
    (ht : NodeStep (CondState.nodes s) t e (CondState.nodes s')) :
    CondState.posted s a = ((CondState.nodes s).role t).posting := by
  simp only [CondState.posted, hs]
  refine NodeRole.eq_posting (List.nodup_range.filter _) fun n => ?_
  rw [List.mem_filter, List.mem_range, decide_eq_true_eq]
  have hsem : (s.node n).sem < (s'.node n).sem ↔ n ∈ ((CondState.nodes s).role t).posting :=
    ht.sem_lt_iff h n
  rw [hsem]
  refine ⟨And.right, fun hn => ⟨?_, hn⟩⟩
  by_contra hlt
  have hborn := (h.unborn n).mpr (Nat.not_lt.mp hlt)
  rw [(h.hand_of_posting hn).1] at hborn
  cases hborn

/-- A step that leaves the nodes alone posts none. -/
theorem CondState.posted_eq_nil (hs : s.step a = some s')
    (hsame : CondState.nodes s' = CondState.nodes s) : CondState.posted s a = [] := by
  have hnode : s'.node = s.node := congrArg CondNodes.node hsame
  simp only [CondState.posted, hs, hnode]
  exact List.filter_eq_nil_iff.mpr fun n _ => by simp

/-- A step of the code that is one of the abstract view adds to the history what it removes
    and posts. -/
theorem PostInv.step_nodes {tr : List (CondState Tid Lid × CondAct Tid Lid)}
    (h : PostInv (CondState.nodes s) place (System.events CondState.removed tr)
      (System.events CondState.posted tr))
    (hinv : NodeInv (CondState.nodes s) q hands place)
    (hinv' : NodeInv (CondState.nodes s') q' hands' place') (hs : s.step a = some s') {t : Tid}
    {e : NodeEvent}
    (ht : NodeStep (CondState.nodes s) t e (CondState.nodes s'))
    (hmoved : NodesMoved ((CondState.nodes s).role t) t place place') :
    PostInv (CondState.nodes s') place' (System.events CondState.removed (tr ++ [(s, a)]))
      (System.events CondState.posted (tr ++ [(s, a)])) := by
  have hremoved : CondState.removed s a = q.filter fun n => n ∉ q' := by
    simp only [CondState.removed, hs, hinv.queue_eq, hinv'.queue_eq]
  simp only [System.events_append, System.events_singleton]
  rw [hremoved, CondState.posted_eq hinv hs ht]
  exact h.step hinv hinv' ht hmoved

/-- A step that leaves the nodes alone adds nothing. -/
theorem PostInv.step_same {tr : List (CondState Tid Lid × CondAct Tid Lid)}
    (h : PostInv (CondState.nodes s) place (System.events CondState.removed tr)
      (System.events CondState.posted tr))
    (hinv : NodeInv (CondState.nodes s) q hands place) (hs : s.step a = some s')
    (hsame : CondState.nodes s' = CondState.nodes s) :
    PostInv (CondState.nodes s') place (System.events CondState.removed (tr ++ [(s, a)]))
      (System.events CondState.posted (tr ++ [(s, a)])) := by
  have hinv' : NodeInv (CondState.nodes s') q hands place := by
    rw [hsame]
    exact hinv
  have hremoved : CondState.removed s a = [] := by
    simp only [CondState.removed, hs, hinv.queue_eq, hinv'.queue_eq]
    exact List.filter_eq_nil_iff.mpr fun n hn => by simpa using hn
  simp only [System.events_append, System.events_singleton]
  rw [hremoved, CondState.posted_eq_nil hs hsame, List.append_nil, List.append_nil, hsame]
  exact h

/-- What a run keeps: the nodes are in their places, and the history of removals and posts
    says which. -/
def OnceInv (tr : List (CondState Tid Lid × CondAct Tid Lid)) (s : CondState Tid Lid) : Prop :=
  ∃ q hands place, NodeInv (CondState.nodes s) q hands place ∧
    PostInv (CondState.nodes s) place (System.events CondState.removed tr)
      (System.events CondState.posted tr)

theorem OnceInv.init (hs : s = { cnt := s.cnt }) : OnceInv [] s := by
  refine ⟨_, _, _, nodeInv_init hs, ?_⟩
  rw [hs]
  exact
    { removed_nodup := List.nodup_nil
      mem_removed := by simp [NodePlace.dequeued]
      posted_nodup := List.nodup_nil
      mem_posted := by simp
      returned := by simp [CondState.nodes] }

theorem OnceInv.step {tr : List (CondState Tid Lid × CondAct Tid Lid)} (h : OnceInv tr s)
    (hs : s.step a = some s') : OnceInv (tr ++ [(s, a)]) s' := by
  obtain ⟨q, hands, place, hinv, hpost⟩ := h
  rcases CondState.nodes_step hs with ⟨t, -, ht⟩ | ⟨-, hsame⟩
  · obtain ⟨q', hands', place', hinv', hmoved⟩ := hinv.step ht
    exact ⟨q', hands', place', hinv', hpost.step_nodes hinv hinv' hs ht hmoved⟩
  · exact ⟨q, hands, place, hsame ▸ hinv, hpost.step_same hinv hs hsame⟩

theorem onceInv_of_run {C : CondState Tid Lid → CondAct Tid Lid → Prop}
    {tr : List (CondState Tid Lid × CondAct Tid Lid)} (h : (txcond Tid Lid).Run C tr s) :
    OnceInv tr s :=
  h.invariant_trace (I := OnceInv) (fun _ hs => .init hs) fun _ _ _ _ _ hi _ hs => hi.step hs

/-- The history of a run says where the nodes are: every removed node is posted once, or in
    the hands of one waker that goes on to post it; a wait that returns 0 has been posted, and
    one that is asleep and not posted is in the queue or in the hands of one waker. -/
structure PostsOnce (tr : List (CondState Tid Lid × CondAct Tid Lid)) (s : CondState Tid Lid) :
    Prop where
  queue : CondQueueOk s
  removed_nodup : (System.events CondState.removed tr).Nodup
  posted_nodup : (System.events CondState.posted tr).Nodup
  removed_of_posted : ∀ n ∈ System.events CondState.posted tr,
    n ∈ System.events CondState.removed tr
  posted_or_hand : ∀ n ∈ System.events CondState.removed tr,
    n ∈ System.events CondState.posted tr ∧ (∀ t, n ∉ CondState.hand s t) ∨
      n ∉ System.events CondState.posted tr ∧ ∃! t, n ∈ CondState.hand s t
  goes_on : s.aborted = false → ∀ t, CondState.hand s t ≠ [] → (s.step (.run t)).isSome
  returned : ∀ n, s.returned n = some 0 → n ∈ System.events CondState.posted tr
  asleep : ∀ t n, CondPc.role (s.thread t).pc = .sleeps n →
    n ∉ System.events CondState.posted tr →
    n ∈ CondState.queue s ∧ (∀ u, n ∉ CondState.hand s u) ∨
      n ∉ CondState.queue s ∧ ∃! u, n ∈ CondState.hand s u

/-- A waker with nodes in hand is never blocked. -/
theorem CondState.isSome_of_hand (hab : s.aborted = false) {t : Tid}
    (hhand : CondState.hand s t ≠ []) : (s.step (.run t)).isSome := by
  simp only [CondState.step, hab, Bool.false_eq_true, ↓reduceIte]
  unfold CondState.hand at hhand
  cases hpc : (s.thread t).pc with
  | ulRead b | ulSwap b | ulBody b =>
    cases b <;> simp [hpc, CondPc.role] at hhand
  | ulUnlock k => rcases k with _ | (_ | _) | _ <;> simp [CondState.runStep, hpc]
  | sigPost n | sigCas n | bcPost n e | bcCas n r e =>
    simp only [CondState.runStep, hpc]
    split <;> rfl
  | bcNext n e | bcFree n r e => simp [CondState.runStep, hpc]
  | _ => simp [hpc, CondPc.role] at hhand

theorem OnceInv.postsOnce {tr : List (CondState Tid Lid × CondAct Tid Lid)} (h : OnceInv tr s) :
    PostsOnce tr s := by
  obtain ⟨q, hands, place, hinv, hpost⟩ := h
  have hhand : ∀ t n, n ∈ CondState.hand s t ↔ place n = .hand t := fun t n => by
    rw [hinv.hand_eq, hinv.mem_hand]
  have hno : ∀ n, (∀ t, place n ≠ .hand t) → ∀ t, n ∉ CondState.hand s t :=
    fun n hn t hm => hn t ((hhand t n).mp hm)
  -- a node has one place, so it is in one hand
  have hone : ∀ n t, place n = .hand t → ∃! u, n ∈ CondState.hand s u := by
    intro n t hn
    refine ⟨t, (hhand t n).mpr hn, fun u hu => ?_⟩
    have hu' := (hhand u n).mp hu
    rw [hn, NodePlace.hand.injEq] at hu'
    exact hu'.symm
  refine
    { queue := hinv.condQueueOk
      removed_nodup := hpost.removed_nodup
      posted_nodup := hpost.posted_nodup
      removed_of_posted := fun n hn => ?_
      posted_or_hand := fun n hn => ?_
      goes_on := fun hab t ht => CondState.isSome_of_hand hab ht
      returned := fun n hn => (hpost.mem_posted n).mpr (hpost.returned n hn)
      asleep := fun t n hr hn => ?_ }
  · rw [hpost.mem_removed, (hpost.mem_posted n).mp hn]
    trivial
  · have hd := (hpost.mem_removed n).mp hn
    rw [hpost.mem_posted]
    cases hp : place n with
    | unborn | new | queued =>
      rw [hp] at hd
      exact absurd hd (by simp [NodePlace.dequeued])
    | hand t => exact .inr ⟨by simp, hone n t hp⟩
    | spent => exact .inl ⟨rfl, hno n (by simp [hp])⟩
  · rw [hpost.mem_posted] at hn
    -- a sleeper that is not posted is queued or in a hand
    rw [hinv.queue_eq, hinv.mem_queue]
    obtain ⟨hnew, hborn, -⟩ := (hinv.role t).sleeps n hr
    cases hp : place n with
    | unborn => exact absurd hp hborn
    | new => exact absurd hp hnew
    | queued => exact .inl ⟨rfl, hno n (by simp [hp])⟩
    | hand u => exact .inr ⟨by simp, hone n u hp⟩
    | spent => exact absurd hp hn

/-- In every state of every run the queue is well linked, every removed node is posted once
    and no wakeup is lost; every step does to the queue what it should, and posts only nodes
    that have been removed before. -/
theorem txcond_posts_once (tr : List (CondState Tid Lid × CondAct Tid Lid))
    (s : CondState Tid Lid) (h : (txcond Tid Lid).Run System.Free tr s) :
    PostsOnce tr s ∧ ∀ a s', s.step a = some s' →
      QueueStep s s' a ∧ ∀ n ∈ CondState.posted s a, n ∈ System.events CondState.removed tr := by
  have hinv := onceInv_of_run h
  refine ⟨hinv.postsOnce, fun a s' hs => ?_⟩
  have hinv' : OnceInv (tr ++ [(s, a)]) s' := hinv.step hs
  obtain ⟨q, hands, place, hnodes, hpost⟩ := hinv
  obtain ⟨q', hands', place', hnodes', -⟩ := hinv'
  refine ⟨CondState.queueStep_of_step hnodes hnodes' hs, fun n hn => ?_⟩
  rcases CondState.nodes_step hs with ⟨t, -, ht⟩ | ⟨-, hsame⟩
  · -- the node that is posted was in a hand, so it has been removed
    rw [CondState.posted_eq hnodes hs ht] at hn
    rw [hpost.mem_removed, (hnodes.hand_of_posting hn).1]
    trivial
  · rw [CondState.posted_eq_nil hs hsame] at hn
    simp at hn

end Run

/-- Threads 0 and 1 wait, and a broadcast posts both nodes. -/
theorem txcond_posts_once_broadcast :
    ∃ tr s, (txcond (Fin 3) (Fin 1)).Run System.Free tr s ∧
      System.events CondState.removed tr = [0, 1] ∧ System.events CondState.posted tr = [0, 1] ∧
      s.returned 0 = some 0 ∧ PostsOnce tr s := by
  let as : List (CondAct (Fin 3) (Fin 1)) :=
    [.acquire 0 0, .wait 0 ⟨0, false⟩, .run 0, .run 0, .run 0, .run 0, .run 0, .run 0, .run 0,
      .acquire 1 0, .wait 1 ⟨0, true⟩, .run 1, .run 1, .run 1, .run 1, .run 1, .run 1, .run 1,
      .broadcast 2, .run 2, .run 2, .run 2, .run 2, .run 2, .run 2, .run 2, .run 2, .run 2,
      .run 2, .run 0, .run 0, .run 0, .run 0]
  have hret : ((txcond (Fin 3) (Fin 1)).exec {} as).map (fun s => s.returned 0) =
      some (some 0) := by decide
  have hevents : System.events CondState.removed ((txcond (Fin 3) (Fin 1)).execTrace {} as) = [0, 1] ∧
      System.events CondState.posted ((txcond (Fin 3) (Fin 1)).execTrace {} as) = [0, 1] := by
    decide
  obtain ⟨s, hs, hr⟩ := Option.map_eq_some_iff.mp hret
  have hrun := (System.Run.init (M := txcond (Fin 3) (Fin 1)) (s := {}) rfl).exec hs
  exact ⟨_, s, hrun, hevents.1, hevents.2, hr, (txcond_posts_once _ s hrun).1⟩

end TxLock.Spec
