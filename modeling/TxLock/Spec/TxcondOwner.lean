import TxLock.Spec.TxcondOnce

/-!
# Who frees a node of `txcond.c`

A posted node has two parties, the wait that made it and the waker that posted it. The
first of them to be done with it swaps its status, the other one finds it swapped and
frees the node. `CondState.accesses` are the nodes whose fields a step reads or writes,
`CondState.frees` those it frees.

## Key results

- `CondState.step_setNode`: a step depends on no node but those it accesses
- `OwnInv.step`: until it is freed a posted node has two parties, or one and a swapped status
- `txcond_single_owner`: no node is freed twice, used after it was freed or freed while
  it is in the queue, and none is left behind
-/

namespace TxLock.Spec

open Native

variable {Tid Lid : Type}

namespace CondState

/-- The nodes whose `next`, `prev`, `sem` or `status` a step reads or writes. -/
def accesses (s : CondState Tid Lid) : CondAct Tid Lid → List Nat
  | .run t | .fail t _ =>
    match (s.thread t).pc with
    | .semInit _ n | .semWait _ n | .casTimeout _ n | .casAwoken _ n | .sigPost n | .sigCas n
    | .bcPost n _ | .bcNext n _ | .bcCas n _ _ => [n]
    | .ulBody (.enqueue _ n) => n :: s.tail.toList
    | .ulBody .dequeue =>
      match s.signalPick with
      | none => []
      | some n =>
        n :: (if CondState.takesHead s.cnt then (s.node n).next else (s.node n).prev).toList
    | .ulBody .detach | .out | .malloc _ | .ulRead _ | .ulSwap _ | .ulUnlock _ | .tlUnlock _ _
    | .waitFree _ _ | .tlLock _ _ | .sigFree _ | .bcFree _ _ _ => []
  | _ => []

/-- The nodes a step frees. -/
def frees (s : CondState Tid Lid) : CondAct Tid Lid → List Nat
  | .run t =>
    match (s.thread t).pc with
    | .waitFree _ n | .sigFree n | .bcFree n _ _ => [n]
    | .out | .malloc _ | .semInit _ _ | .ulRead _ | .ulSwap _ | .ulBody _ | .ulUnlock _
    | .tlUnlock _ _ | .semWait _ _ | .casTimeout _ _ | .casAwoken _ _ | .tlLock _ _ | .sigPost _
    | .sigCas _ | .bcPost _ _ | .bcNext _ _ | .bcCas _ _ _ => []
  | _ => []

/-- The nodes thread `t` is not done with. A wait at `tl_lock` is done with its node. -/
def uses (s : CondState Tid Lid) (t : Tid) : List Nat :=
  match CondPc.role (s.thread t).pc with
  | .fills n _ | .sleeps n | .claims n | .frees n | .posts n | .posted n | .discards n => [n]
  | .walks n => chain s (some n)
  | .steps n => n :: chain s (s.node n).next
  | .walked n _ r => n :: chain s r
  | .idle | .leaves _ => []

end CondState

/-! ## A step depends on the nodes it accesses only -/

section Footprint

variable {s s' : CondState Tid Lid} {n : Nat} {x : CondNode}

theorem CondState.setNode_comm {k : Nat} (hk : k ≠ n) (y : CondNode) :
    (s.setNode n x).setNode k y = (s.setNode k y).setNode n x := by
  simp only [CondState.setNode, CondState.mk.injEq, and_true]
  exact (Function.update_comm hk y x s.node).symm

@[simp] theorem CondState.setNode_node_of_ne {k : Nat} (hk : k ≠ n) :
    (s.setNode n x).node k = s.node k := Function.update_of_ne hk _ _

@[simp] theorem CondState.setNode_thread : (s.setNode n x).thread = s.thread := rfl

@[simp] theorem CondState.setNode_owner : (s.setNode n x).owner = s.owner := rfl

@[simp] theorem CondState.setNode_lkVal : (s.setNode n x).lkVal = s.lkVal := rfl

@[simp] theorem CondState.setNode_cnt : (s.setNode n x).cnt = s.cnt := rfl

/-- A node that is not read does not matter for the section of a signal. -/
theorem CondState.dequeueBody_setNode
    (hn : ∀ k, s.signalPick = some k →
      n ∉ k :: (if CondState.takesHead s.cnt then (s.node k).next else (s.node k).prev).toList) :
    (s.setNode n x).dequeueBody = (s.dequeueBody.1.setNode n x, s.dequeueBody.2) := by
  simp only [CondState.dequeueBody, CondState.setNode_cnt]
  unfold CondState.signalPick at hn
  -- the section reads the node it picks and the neighbour that takes its place
  by_cases hfirst : CondState.takesHead s.cnt = true
  · simp only [hfirst, ↓reduceIte] at hn ⊢
    cases hhead : s.head with
    | none => simp [CondState.unlinkHead, CondState.setNode, hhead]
    | some k =>
      have hk := hn k hhead
      simp only [List.mem_cons, Option.mem_toList, not_or] at hk
      have hkn : k ≠ n := Ne.symm hk.1
      cases hnext : (s.node k).next with
      | none => simp [CondState.unlinkHead, CondState.setNode, hhead, hkn, hnext]
      | some m =>
        have hmn : m ≠ n := fun hmn => hk.2 (by rw [hnext, hmn])
        simp [CondState.unlinkHead, CondState.setNode, hhead, hkn, hnext, hmn,
          Function.update_comm hmn]
  · simp only [hfirst, Bool.false_eq_true, ↓reduceIte] at hn ⊢
    cases htail : s.tail with
    | none => simp [CondState.unlinkTail, CondState.setNode, htail]
    | some k =>
      have hk := hn k htail
      simp only [List.mem_cons, Option.mem_toList, not_or] at hk
      have hkn : k ≠ n := Ne.symm hk.1
      cases hprev : (s.node k).prev with
      | none => simp [CondState.unlinkTail, CondState.setNode, htail, hkn, hprev]
      | some m =>
        have hmn : m ≠ n := fun hmn => hk.2 (by rw [hprev, hmn])
        simp [CondState.unlinkTail, CondState.setNode, htail, hkn, hprev, hmn,
          Function.update_comm hmn]

theorem CondState.enqueueBody_setNode {k : Nat} (hn : n ∉ k :: s.tail.toList) :
    (s.setNode n x).enqueueBody k = (s.enqueueBody k).setNode n x := by
  simp only [List.mem_cons, Option.mem_toList, not_or] at hn
  have hkn : k ≠ n := Ne.symm hn.1
  cases htail : s.tail with
  | none => simp [CondState.enqueueBody, CondState.setNode, htail]
  | some m =>
    have hmn : m ≠ n := fun hmn => hn.2 (by rw [htail, hmn])
    by_cases hmk : m = k
    · subst hmk
      simp [CondState.enqueueBody, CondState.setNode, htail, hkn, Function.update_comm hkn]
    · simp [CondState.enqueueBody, CondState.setNode, htail, hkn, hmn, hmk,
        Function.update_comm hkn, Function.update_comm hmn]

variable [DecidableEq Tid] [DecidableEq Lid]

theorem CondState.runStep_setNode {t : Tid} (ha : n ∉ CondState.accesses s (.run t))
    (hf : n ∉ CondState.frees s (.run t)) :
    (s.setNode n x).runStep t = (s.runStep t).map fun s' => s'.setNode n x := by
  have hth : (s.setNode n x).thread t = s.thread t := rfl
  cases hpc : (s.thread t).pc with
  | out | malloc c | tlUnlock c k => simp only [CondState.runStep, hth, hpc]; rfl
  | ulUnlock k =>
    rcases k with _ | (_ | _) | (_ | _) <;> simp only [CondState.runStep, hth, hpc] <;> rfl
  | ulRead b | ulSwap b | tlLock c k =>
    simp only [CondState.runStep, hth, hpc]
    rw [apply_ite (Option.map _)]
    exact if_congr Iff.rfl rfl rfl
  | ulBody b =>
    cases b with
    | enqueue c k =>
      simp only [CondState.accesses, hpc] at ha
      simp only [CondState.runStep, hth, hpc, enqueueBody_setNode ha]
      rfl
    | dequeue =>
      simp only [CondState.accesses, hpc] at ha
      have hn : ∀ k, s.signalPick = some k → n ∉ k ::
          (if CondState.takesHead s.cnt then (s.node k).next else (s.node k).prev).toList := by
        intro k hk
        simpa only [hk] using ha
      simp only [CondState.runStep, hth, hpc, dequeueBody_setNode hn]
      rfl
    | detach =>
      simp only [CondState.runStep, hth, hpc, CondState.detachBody]
      have hhead : (s.setNode n x).head = s.head := rfl
      rw [hhead]
      cases s.head <;> rfl
  -- a step that frees one node
  | waitFree c k | sigFree k =>
    simp only [CondState.frees, hpc, List.mem_singleton] at hf
    simp only [CondState.runStep, hth, hpc, CondState.free, setNode_node_of_ne (Ne.symm hf),
      CondState.setNode_comm (Ne.symm hf)]
    rfl
  | bcFree k r e =>
    simp only [CondState.frees, hpc, List.mem_singleton] at hf
    simp only [CondState.runStep, hth, hpc, CondState.free, setNode_node_of_ne (Ne.symm hf),
      CondState.setNode_comm (Ne.symm hf)]
    cases r <;> rfl
  -- a step that accesses one node
  | semInit c k | bcNext k e =>
    simp only [CondState.accesses, hpc, List.mem_singleton] at ha
    simp only [CondState.runStep, hth, hpc, setNode_node_of_ne (Ne.symm ha),
      CondState.setNode_comm (Ne.symm ha)]
    rfl
  | semWait c k | casTimeout c k | casAwoken c k | sigCas k =>
    simp only [CondState.accesses, hpc, List.mem_singleton] at ha
    simp only [CondState.runStep, hth, hpc, CondState.setStatus, setNode_node_of_ne (Ne.symm ha),
      CondState.setNode_comm (Ne.symm ha)]
    split_ifs <;> rfl
  | bcCas k r e =>
    simp only [CondState.accesses, hpc, List.mem_singleton] at ha
    simp only [CondState.runStep, hth, hpc, CondState.setStatus, setNode_node_of_ne (Ne.symm ha),
      CondState.setNode_comm (Ne.symm ha)]
    split_ifs
    · cases r <;> rfl
    · rfl
  | sigPost k | bcPost k e =>
    simp only [CondState.accesses, hpc, List.mem_singleton] at ha
    simp only [CondState.runStep, hth, hpc, CondState.semPost, setNode_node_of_ne (Ne.symm ha),
      CondState.setNode_comm (Ne.symm ha)]
    by_cases hsem : (s.node k).sem < semValueMax <;> simp only [hsem, ↓reduceIte] <;> rfl

/-- A step neither reads nor writes a node that it does not access or free. -/
theorem CondState.step_setNode {a : CondAct Tid Lid} (ha : n ∉ CondState.accesses s a)
    (hf : n ∉ CondState.frees s a) :
    (s.setNode n x).step a = (s.step a).map fun s' => s'.setNode n x := by
  have hab : (s.setNode n x).aborted = s.aborted := rfl
  simp only [CondState.step, hab]
  by_cases hab : s.aborted
  · simp [hab]
  rw [if_neg hab, if_neg hab]
  cases a with
  | acquire t l | release t l | wait t c | signal t | broadcast t =>
    rw [apply_ite (Option.map _)]
    exact if_congr Iff.rfl rfl rfl
  | fail t e =>
    simp only [CondState.failStep, CondState.setNode_thread]
    cases hpc : (s.thread t).pc <;> try rfl
    case semWait c k =>
      cases e <;> try rfl
      simp only
      split <;> rfl
  | run t => exact CondState.runStep_setNode ha hf

end Footprint

/-! ## The two parties of a posted node -/

/-- The node of a wait that is not done with it. -/
def NodeRole.waiter? : NodeRole → Option Nat
  | sleeps n | claims n | frees n => some n
  | idle | fills _ _ | leaves _ | posts _ | posted _ | discards _ | walks _ | steps _
  | walked _ _ _ => none

/-- The posted node of a waker that is not done with it. -/
def NodeRole.waker? : NodeRole → Option Nat
  | posted n | discards n | steps n | walked n _ _ => some n
  | idle | fills _ _ | sleeps _ | claims _ | frees _ | leaves _ | posts _ | walks _ => none

/-- The node whose status a thread has found swapped: the thread is about to free it. -/
def NodeRole.finds? : NodeRole → Option Nat
  | frees n | discards n | walked n true _ => some n
  | idle | fills _ _ | sleeps _ | claims _ | leaves _ | posts _ | posted _ | walks _ | steps _
  | walked _ false _ => none

/-- Some thread's role holds the node, as `f` tells. -/
def Holds (f : NodeRole → Option Nat) (c : CondNodes Tid) (n : Nat) : Prop :=
  ∃ t, f (c.role t) = some n

/-- A posted node with the parties `f` and `g`: before its status is swapped both hold it,
    then one of them does, or none and it is freed. -/
structure Parties (f g : NodeRole → Option Nat) (c : CondNodes Tid) (n : Nat) : Prop where
  waiting : (c.node n).status = .waiting → Holds f c n ∧ Holds g c n ∧ (c.node n).freed = false
  swapped : (c.node n).status ≠ .waiting →
    Holds f c n ∧ ¬ Holds g c n ∧ (c.node n).freed = false ∨
    ¬ Holds f c n ∧ Holds g c n ∧ (c.node n).freed = false ∨
    ¬ Holds f c n ∧ ¬ Holds g c n ∧ (c.node n).freed = true

/-- Every posted node has its parties, and no other node is freed. -/
structure OwnInv (c : CondNodes Tid) (place : Nat → NodePlace Tid) : Prop where
  parties : ∀ n, place n = .spent → Parties NodeRole.waiter? NodeRole.waker? c n
  freed : ∀ n, (c.node n).freed = true → place n = .spent
  waker_inj : ∀ t u n, (c.role t).waker? = some n → (c.role u).waker? = some n → t = u
  finds : ∀ t n, (c.role t).finds? = some n → (c.node n).status ≠ .waiting

@[simp] theorem NodeRole.idle_done :
    NodeRole.idle.waiter? = none ∧ NodeRole.idle.waker? = none ∧ NodeRole.idle.finds? = none :=
  ⟨rfl, rfl, rfl⟩

@[simp] theorem NodeRole.walk_done (p : Option Nat) : (NodeRole.walk p).waiter? = none ∧
    (NodeRole.walk p).waker? = none ∧ (NodeRole.walk p).finds? = none := by
  cases p <;> exact ⟨rfl, rfl, rfl⟩

section Parties

variable {f g : NodeRole → Option Nat} {c c' : CondNodes Tid} {n : Nat}

theorem Parties.symm (h : Parties f g c n) : Parties g f c n where
  waiting hst := by
    obtain ⟨hf, hg, hfree⟩ := h.waiting hst
    exact ⟨hg, hf, hfree⟩
  swapped hst := by
    rcases h.swapped hst with ⟨hf, hg, hfree⟩ | ⟨hf, hg, hfree⟩ | ⟨hf, hg, hfree⟩
    · exact .inr (.inl ⟨hg, hf, hfree⟩)
    · exact .inl ⟨hg, hf, hfree⟩
    · exact .inr (.inr ⟨hg, hf, hfree⟩)

/-- A party that holds the node has not freed it, nor has the other one. -/
theorem Parties.not_freed (h : Parties f g c n) (hf : Holds f c n) :
    (c.node n).freed = false := by
  by_cases hst : (c.node n).status = .waiting
  · exact (h.waiting hst).2.2
  · rcases h.swapped hst with ⟨-, -, hfree⟩ | ⟨-, -, hfree⟩ | ⟨hno, -, -⟩
    · exact hfree
    · exact hfree
    · exact absurd hf hno

theorem Parties.congr (h : Parties f g c n) (hf : Holds f c' n ↔ Holds f c n)
    (hg : Holds g c' n ↔ Holds g c n) (hst : (c'.node n).status = (c.node n).status)
    (hfree : (c'.node n).freed = (c.node n).freed) : Parties f g c' n where
  waiting hw := by
    rw [hf, hg, hfree]
    exact h.waiting (hst ▸ hw)
  swapped hw := by
    rw [hf, hg, hfree]
    exact h.swapped (hst ▸ hw)

/-- One party swaps the status and is done. -/
theorem Parties.swap (h : Parties f g c n) (hw : (c.node n).status = .waiting)
    (hf : ¬ Holds f c' n) (hg : Holds g c n → Holds g c' n)
    (hst : (c'.node n).status ≠ .waiting)
    (hfree : (c'.node n).freed = (c.node n).freed) : Parties f g c' n where
  waiting hw' := absurd hw' hst
  swapped _ := by
    obtain ⟨-, hg', hfree'⟩ := h.waiting hw
    exact .inr (.inl ⟨hf, hg hg', hfree.trans hfree'⟩)

/-- The other party frees the node and is done. -/
theorem Parties.free (h : Parties f g c n) (hw : (c.node n).status ≠ .waiting)
    (hheld : Holds f c n) (hf : ¬ Holds f c' n) (hg : Holds g c' n → Holds g c n)
    (hst : (c'.node n).status = (c.node n).status) (hfree : (c'.node n).freed = true) :
    Parties f g c' n where
  waiting hw' := absurd (hst ▸ hw') hw
  swapped _ := by
    rcases h.swapped hw with ⟨-, hno, -⟩ | ⟨hno, -, -⟩ | ⟨hno, -, -⟩
    · exact .inr (.inr ⟨hf, fun hg' => hno (hg hg'), hfree⟩)
    · exact absurd hheld hno
    · exact absurd hheld hno

variable [DecidableEq Tid] {t : Tid} {r : NodeRole}

/-- A step of `t` that holds the node as before. -/
theorem holds_congr (hroles : c'.role = Function.update c.role t r)
    (hr : f r = some n ↔ f (c.role t) = some n) : Holds f c' n ↔ Holds f c n := by
  unfold Holds
  constructor
  · rintro ⟨u, hu⟩
    refine ⟨u, ?_⟩
    rw [hroles] at hu
    by_cases hut : u = t
    · subst hut
      rw [Function.update_self] at hu
      exact hr.mp hu
    · rwa [Function.update_of_ne hut] at hu
  · rintro ⟨u, hu⟩
    refine ⟨u, ?_⟩
    rw [hroles]
    by_cases hut : u = t
    · subst hut
      rw [Function.update_self]
      exact hr.mpr hu
    · rwa [Function.update_of_ne hut]

/-- The only thread that holds the node leaves it. -/
theorem not_holds (hroles : c'.role = Function.update c.role t r) (hr : f r ≠ some n)
    (huniq : ∀ u, f (c.role u) = some n → u = t) : ¬ Holds f c' n := by
  rintro ⟨u, hu⟩
  rw [hroles] at hu
  by_cases hut : u = t
  · subst hut
    rw [Function.update_self] at hu
    exact hr hu
  · rw [Function.update_of_ne hut] at hu
    exact hut (huniq u hu)

end Parties

namespace OwnInv

variable {c c' : CondNodes Tid} {q q' : List Nat} {hands hands' : Tid → List Nat}
  {place place' : Nat → NodePlace Tid} {t : Tid} {r : NodeRole}

/-- A node some waker holds has been posted. -/
theorem spent_of_waker (hinv : NodeInv c q hands place) {n : Nat}
    (hn : (c.role t).waker? = some n) : place n = .spent := by
  refine (hinv.role t).spent n ?_
  cases hr : c.role t <;> simp_all [NodeRole.waker?, NodeRole.spent?]

theorem spent_of_finds (hinv : NodeInv c q hands place) {n : Nat}
    (hn : (c.role t).finds? = some n) : place n = .spent := by
  refine (hinv.role t).spent n ?_
  cases hr : c.role t with
  | walked m b p => cases b <;> simp_all [NodeRole.finds?, NodeRole.spent?]
  | _ => simp_all [NodeRole.finds?, NodeRole.spent?]

/-- One thread waits with a node. -/
theorem waiter_uniq (hinv : NodeInv c q hands place) {n : Nat}
    (hn : (c.role t).waiter? = some n) (u : Tid) (hu : (c.role u).waiter? = some n) : u = t := by
  have hwaits : ∀ {r : NodeRole}, r.waiter? = some n → r.waits? = some n := by
    intro r hr
    cases r <;> simp_all [NodeRole.waiter?, NodeRole.waits?]
  exact hinv.inj u t n (hwaits hu) (hwaits hn)

variable [DecidableEq Tid]

/-- The invariant after a step of thread `t`, when the posted nodes have their parties. -/
theorem of_parties (h : OwnInv c place) (hinv : NodeInv c q hands place)
    (hroles : c'.role = Function.update c.role t r)
    (hparties : ∀ m, place' m = .spent → Parties NodeRole.waiter? NodeRole.waker? c' m)
    (hspent : ∀ m, place m = .spent → place' m = .spent)
    (hfreed : ∀ m, (c'.node m).freed = true → (c.node m).freed = true ∨ place m = .spent)
    (hinj : ∀ m, r.waker? = some m →
      (c.role t).waker? = some m ∨ ∀ u, (c.role u).waker? ≠ some m)
    (hfinds : ∀ m, r.finds? = some m → (c'.node m).status ≠ .waiting)
    (hst : ∀ m, place m = .spent → (c'.node m).status = .waiting →
      (c.node m).status = .waiting) : OwnInv c' place' where
  parties := hparties
  freed m hm := hspent m ((hfreed m hm).elim (h.freed m) id)
  waker_inj u v m hu hv := by
    -- two wakers of one node: they were the same thread before the step
    have hother : ∀ w, w ≠ t → r.waker? = some m → (c.role w).waker? ≠ some m := by
      intro w hw hr hw'
      rcases hinj m hr with ht | hno
      · exact hw (h.waker_inj w t m hw' ht)
      · exact hno w hw'
    rw [hroles] at hu hv
    by_cases hut : u = t <;> by_cases hvt : v = t
    · rw [hut, hvt]
    · subst hut
      rw [Function.update_self] at hu
      rw [Function.update_of_ne hvt] at hv
      exact absurd hv (hother v hvt hu)
    · subst hvt
      rw [Function.update_self] at hv
      rw [Function.update_of_ne hut] at hu
      exact absurd hu (hother u hut hv)
    · rw [Function.update_of_ne hut] at hu
      rw [Function.update_of_ne hvt] at hv
      exact h.waker_inj u v m hu hv
  finds u m hu := by
    rw [hroles] at hu
    by_cases hut : u = t
    · subst hut
      rw [Function.update_self] at hu
      exact hfinds m hu
    · rw [Function.update_of_ne hut] at hu
      exact fun hw => h.finds u m hu (hst m (spent_of_finds hinv hu) hw)

/-- A step that leaves the posted nodes and their parties as they are. -/
theorem quiet (h : OwnInv c place) (hinv : NodeInv c q hands place)
    (hroles : c'.role = Function.update c.role t r)
    (hplace : ∀ m, place' m = .spent ↔ place m = .spent)
    (hnode : ∀ m, place m = .spent →
      (c'.node m).status = (c.node m).status ∧ (c'.node m).freed = (c.node m).freed)
    (hfreed : ∀ m, (c'.node m).freed = true → (c.node m).freed = true)
    (hwaiter : ∀ m, place m = .spent → (r.waiter? = some m ↔ (c.role t).waiter? = some m))
    (hwaker : r.waker? = (c.role t).waker?)
    (hfinds : ∀ m, r.finds? = some m → (c'.node m).status ≠ .waiting) : OwnInv c' place' := by
  refine h.of_parties hinv hroles (fun m hm => ?_) (fun m => (hplace m).mpr)
    (fun m hm => .inl (hfreed m hm)) (fun m hm => .inl (hwaker ▸ hm)) hfinds fun m hm hw => ?_
  · have hp := (hplace m).mp hm
    exact (h.parties m hp).congr (holds_congr hroles (hwaiter m hp))
      (holds_congr hroles (by rw [hwaker])) (hnode m hp).1 (hnode m hp).2
  · rwa [(hnode m hm).1] at hw

/-- A waker posts the node `n`: from now on it has two parties, or its wait has timed out. -/
theorem post (h : OwnInv c place) (hinv : NodeInv c q hands place) {n : Nat}
    (hn : n ∈ (c.role t).posting) (hroles : c'.role = Function.update c.role t r)
    (hplace : ∀ m, place' m = .spent ↔ place m = .spent ∨ m = n)
    (hnode : ∀ m, (c'.node m).status = (c.node m).status ∧ (c'.node m).freed = (c.node m).freed)
    (hr : r.waiter? = none ∧ r.waker? = some n ∧ r.finds? = none) : OwnInv c' place' := by
  have hhand := (hinv.hand_of_posting hn).1
  have hR : (c.role t).waiter? = none ∧ (c.role t).waker? = none := by
    rcases NodeRole.mem_posting.mp hn with hr | hr <;> rw [hr] <;> exact ⟨rfl, rfl⟩
  have hnew : ∀ u, (c.role u).waker? ≠ some n := fun u hu => by
    have := spent_of_waker hinv hu
    rw [hhand] at this
    simp at this
  have hunfreed : (c.node n).freed = false := by
    by_contra hf
    rw [h.freed n (by simpa using hf)] at hhand
    simp at hhand
  have hwaker : Holds NodeRole.waker? c' n := ⟨t, by rw [hroles, Function.update_self]; exact hr.2.1⟩
  have hwaiter : Holds NodeRole.waiter? c' n ↔ Holds NodeRole.waiter? c n :=
    holds_congr hroles (by simp [hr.1, hR.1])
  refine h.of_parties hinv hroles (fun m hm => ?_) (fun m hm => (hplace m).mpr (.inl hm))
    (fun m hm => .inl ((hnode m).2 ▸ hm)) (fun m hm => ?_) (by simp [hr.2.2])
    fun m _ hw => (hnode m).1 ▸ hw
  · by_cases hmn : m = n
    · subst hmn
      have hun := hinv.unposted m (by rw [hhand]; trivial)
      refine ⟨fun hw => ?_, fun hw => ?_⟩
      · rw [(hnode m).1] at hw
        rcases hun.owner with ⟨-, w, hsl⟩ | ⟨ht, -⟩
        · exact ⟨hwaiter.mpr ⟨w, by rw [hsl]; rfl⟩, hwaker, (hnode m).2.trans hunfreed⟩
        · rw [ht] at hw
          simp at hw
      · rw [(hnode m).1] at hw
        refine .inr (.inl ⟨fun hno => ?_, hwaker, (hnode m).2.trans hunfreed⟩)
        -- a wait that times out is over
        obtain ⟨w, hrole⟩ := hwaiter.mp hno
        rcases hun.owner with ⟨hwait, -⟩ | ⟨ht, -⟩
        · exact hw hwait
        · cases hrw : c.role w with
          | sleeps k =>
            rw [hrw, NodeRole.waiter?, Option.some.injEq] at hrole
            exact ((hinv.role w).sleeps k hrw).2.2 (hrole ▸ ht)
          | claims k | frees k =>
            rw [hrw, NodeRole.waiter?, Option.some.injEq] at hrole
            have := (hinv.role w).spent k (by rw [hrw]; rfl)
            rw [hrole, hhand] at this
            simp at this
          | _ => simp [hrw, NodeRole.waiter?] at hrole
    · have hp : place m = .spent := ((hplace m).mp hm).resolve_right hmn
      refine (h.parties m hp).congr (holds_congr hroles (by simp [hr.1, hR.1]))
        (holds_congr hroles ?_) (hnode m).1 (hnode m).2
      simp [hr.2.1, hR.2, Ne.symm hmn]
  · rw [hr.2.1, Option.some.injEq] at hm
    exact .inr (hm ▸ hnew)

/-- A party swaps the status of the posted node `n`, or frees it, and is done. -/
theorem done (h : OwnInv c place) (hinv : NodeInv c q hands place) {n : Nat}
    (hroles : c'.role = Function.update c.role t r)
    (hplace : ∀ m, place' m = .spent ↔ place m = .spent)
    (hnode : ∀ m, m ≠ n →
      (c'.node m).status = (c.node m).status ∧ (c'.node m).freed = (c.node m).freed)
    (hst : (c'.node n).status ≠ .waiting)
    (hr : r.waiter? = none ∧ r.waker? = none ∧ r.finds? = none)
    (hR : (c.role t).waiter? = some n ∧ (c.role t).waker? = none ∨
      (c.role t).waiter? = none ∧ (c.role t).waker? = some n)
    (hdone : (c.node n).status = .waiting ∧ (c'.node n).freed = (c.node n).freed ∨
      (c.role t).finds? = some n ∧ (c'.node n).status = (c.node n).status ∧
        (c'.node n).freed = true) : OwnInv c' place' := by
  refine h.of_parties hinv hroles (fun m hm => ?_) (fun m => (hplace m).mpr) (fun m hm => ?_)
    (by simp [hr.2.1]) (by simp [hr.2.2]) fun m _ hw => ?_
  · have hp := (hplace m).mp hm
    by_cases hmn : m = n
    · subst hmn
      have hother := h.parties m hp
      rcases hR with ⟨hwt, hwk⟩ | ⟨hwt, hwk⟩
      · -- the waiter is done with the node, the waker is where it was
        have hno : ¬ Holds NodeRole.waiter? c' m :=
          not_holds hroles (by simp [hr.1]) (waiter_uniq hinv hwt)
        have hkeep : Holds NodeRole.waker? c' m ↔ Holds NodeRole.waker? c m :=
          holds_congr hroles (by simp [hr.2.1, hwk])
        rcases hdone with ⟨hw, hfree⟩ | ⟨hfound, hsame, hfree⟩
        · exact hother.swap hw hno hkeep.mpr hst hfree
        · exact hother.free (h.finds t m hfound) ⟨t, hwt⟩ hno hkeep.mp hsame hfree
      · -- the same with the parties exchanged
        have hno : ¬ Holds NodeRole.waker? c' m :=
          not_holds hroles (by simp [hr.2.1]) fun u hu => h.waker_inj u t m hu hwk
        have hkeep : Holds NodeRole.waiter? c' m ↔ Holds NodeRole.waiter? c m :=
          holds_congr hroles (by simp [hr.1, hwt])
        rcases hdone with ⟨hw, hfree⟩ | ⟨hfound, hsame, hfree⟩
        · exact (hother.symm.swap hw hno hkeep.mpr hst hfree).symm
        · exact (hother.symm.free (h.finds t m hfound) ⟨t, hwk⟩ hno hkeep.mp hsame hfree).symm
    · refine (h.parties m hp).congr (holds_congr hroles ?_) (holds_congr hroles ?_)
        (hnode m hmn).1 (hnode m hmn).2
      · rcases hR with hR | hR <;> simp [hr.1, hR.1, Ne.symm hmn]
      · rcases hR with hR | hR <;> simp [hr.2.1, hR.2, Ne.symm hmn]
  · by_cases hmn : m = n
    · subst hmn
      rcases hdone with ⟨-, hfree⟩ | ⟨hfound, -, -⟩
      · exact .inl (hfree ▸ hm)
      · exact .inr (spent_of_finds hinv hfound)
    · exact .inl ((hnode m hmn).2 ▸ hm)
  · by_cases hmn : m = n
    · subst hmn
      exact absurd hw hst
    · rwa [(hnode m hmn).1] at hw

/-- Every step keeps the parties of the posted nodes. -/
theorem step (h : OwnInv c place) (hinv : NodeInv c q hands place)
    (hinv' : NodeInv c' q' hands' place') {e : NodeEvent} (hs : NodeStep c t e c')
    (hmoved : NodesMoved (c.role t) t place place') : OwnInv c' place' := by
  have hsame : (c.role t).posting = [] → ∀ m, place' m = .spent ↔ place m = .spent := by
    intro hr m
    refine ⟨fun hm => (hmoved.posts m hm).resolve_right fun hp => ?_, hmoved.spent⟩
    have := NodeRole.mem_posting.mpr hp
    simp [hr] at this
  have hpost : ∀ n, (c.role t).posting = [n] →
      ∀ m, place' m = .spent ↔ place m = .spent ∨ m = n := by
    intro n hr m
    constructor
    · intro hm
      refine (hmoved.posts m hm).imp_right fun hp => ?_
      have := NodeRole.mem_posting.mpr hp
      rwa [hr, List.mem_singleton] at this
    · rintro (hm | rfl)
      · exact hmoved.spent hm
      · exact hinv'.spent_of_posting hs (by simp [hr])
  -- what the steps write in a node, apart from its links and semaphore
  have hset : ∀ (node : Nat → CondNode) (n : Nat) (x : CondNode),
      x.status = (node n).status ∧ x.freed = (node n).freed → ∀ m,
        (Function.update node n x m).status = (node m).status ∧
          (Function.update node n x m).freed = (node m).freed := by
    intro node n x hx m
    by_cases hm : m = n
    · subst hm
      rwa [Function.update_self]
    · rw [Function.update_of_ne hm]
      exact ⟨rfl, rfl⟩
  have hother : ∀ {n : Nat} {x : CondNode} (m : Nat), m ≠ n →
      (Function.update c.node n x m).status = (c.node m).status ∧
        (Function.update c.node n x m).freed = (c.node m).freed := by
    intro n x m hm
    rw [Function.update_of_ne hm]
    exact ⟨rfl, rfl⟩
  have hnew : ∀ {n m : Nat} {b : Bool}, c.role t = .fills n b → place m = .spent → m ≠ n := by
    rintro n m b hr hm rfl
    rw [((hinv.role t).fills m b hr).1] at hm
    simp at hm
  cases hs with
  | alloc hr | initFails hr | leave hr | dequeueHead hr | dequeueTail hr | detach hr =>
    exact h.quiet hinv rfl (hsame (by rw [hr]; rfl)) (fun _ _ => ⟨rfl, rfl⟩) (fun _ => id)
      (by simp [hr, NodeRole.waiter?]) (by rw [hr]; rfl) (by simp [NodeRole.finds?])
  | @dequeueHeadOf n l hr =>
    have hnode := hset c.node l { c.node l with prev := none } ⟨rfl, rfl⟩
    exact h.quiet hinv rfl (hsame (by rw [hr]; rfl)) (fun m _ => hnode m)
      (fun m hm => (hnode m).2 ▸ hm) (by simp [hr, NodeRole.waiter?]) (by rw [hr]; rfl)
      (by simp [NodeRole.finds?])
  | @dequeueTailOf n l hr =>
    have hnode := hset c.node l { c.node l with next := none } ⟨rfl, rfl⟩
    exact h.quiet hinv rfl (hsame (by rw [hr]; rfl)) (fun m _ => hnode m)
      (fun m hm => (hnode m).2 ▸ hm) (by simp [hr, NodeRole.waiter?]) (by rw [hr]; rfl)
      (by simp [NodeRole.finds?])
  | @fill n hr =>
    refine h.quiet hinv rfl (hsame (by rw [hr]; rfl)) (fun m hm => hother m (hnew hr hm))
      (fun m hm => ?_) (by simp [hr, NodeRole.waiter?]) (by rw [hr]; rfl)
      (by simp [NodeRole.finds?])
    by_cases hmn : m = n
    · subst hmn
      simp [CondNodes.setRole, CondNodes.setNode] at hm
    · exact (hother (n := n) (x := {}) m hmn).2 ▸ hm
  | @enqueueFirst n hr =>
    refine h.quiet hinv rfl (hsame (by rw [hr]; rfl)) (fun _ _ => ⟨rfl, rfl⟩) (fun _ => id)
      (fun m hm => ?_) (by rw [hr]; rfl) (by simp [NodeRole.finds?])
    simp [hr, NodeRole.waiter?, (hnew hr hm).symm]
  | @enqueueLast n l hr =>
    have hnode : ∀ m, (((c.setPrev n (some l)).setNext l (some n)).node m).status =
        (c.node m).status ∧ (((c.setPrev n (some l)).setNext l (some n)).node m).freed =
        (c.node m).freed := by
      intro m
      have hprev := hset c.node n { c.node n with prev := some l } ⟨rfl, rfl⟩ m
      have hnext := hset (c.setPrev n (some l)).node l
        { (c.setPrev n (some l)).node l with next := some n } ⟨rfl, rfl⟩ m
      exact ⟨hnext.1.trans hprev.1, hnext.2.trans hprev.2⟩
    refine h.quiet hinv rfl (hsame (by rw [hr]; rfl)) (fun m _ => hnode m)
      (fun m hm => (hnode m).2 ▸ hm) (fun m hm => ?_) (by rw [hr]; rfl) (by simp [NodeRole.finds?])
    simp [hr, NodeRole.waiter?, (hnew hr hm).symm]
  | @wake n hr hsem =>
    have hnode := hset c.node n { c.node n with sem := (c.node n).sem - 1 } ⟨rfl, rfl⟩
    exact h.quiet hinv rfl (hsame (by rw [hr]; rfl)) (fun m _ => hnode m)
      (fun m hm => (hnode m).2 ▸ hm) (by simp [hr, NodeRole.waiter?]) (by rw [hr]; rfl)
      (by simp [NodeRole.finds?])
  | @late n hr hst | @yield n hr hst | @signalYield n hr hst | @walkYield n p hr hst =>
    refine h.quiet hinv rfl (hsame (by rw [hr]; rfl)) (fun _ _ => ⟨rfl, rfl⟩) (fun _ => id)
      (by simp [hr, NodeRole.waiter?]) (by rw [hr]; rfl) fun m hm => ?_
    rw [NodeRole.finds?, Option.some.injEq] at hm
    exact hm ▸ hst
  | @walkNext n hr =>
    exact h.quiet hinv rfl (hsame (by rw [hr]; rfl)) (fun _ _ => ⟨rfl, rfl⟩) (fun _ => id)
      (by simp [hr, NodeRole.waiter?]) (by rw [hr]; rfl) (by simp [NodeRole.finds?])
  | @post n hr | @walkPost n hr =>
    exact h.post hinv (n := n) (by simp [hr, NodeRole.posting]) rfl (hpost n (by rw [hr]; rfl))
      (hset c.node n { c.node n with sem := (c.node n).sem + 1 } ⟨rfl, rfl⟩) ⟨rfl, rfl, rfl⟩
  | @walkFails n hr hsem =>
    have hz := (hinv.hand_of_posting (t := t) (n := n) (by simp [hr, NodeRole.posting])).2
    rw [hz] at hsem
    exact absurd hsem (by decide)
  | @expire n hr hst | @claim n hr hst =>
    refine h.done hinv (n := n) rfl (hsame (by rw [hr]; rfl)) hother ?_ ⟨rfl, rfl, rfl⟩
      (.inl (by rw [hr]; exact ⟨rfl, rfl⟩)) (.inl ⟨hst, ?_⟩) <;>
      simp [CondNodes.setRole, CondNodes.ret, CondNodes.setStatus, CondNodes.setNode]
  | @free n hr =>
    have hfound : (c.role t).finds? = some n := by rw [hr]; rfl
    refine h.done hinv (n := n) rfl (hsame (by rw [hr]; rfl)) hother ?_ ⟨rfl, rfl, rfl⟩
      (.inl (by rw [hr]; exact ⟨rfl, rfl⟩)) (.inr ⟨hfound, ?_, ?_⟩)
    · simpa [CondNodes.setRole, CondNodes.free, CondNodes.setNode] using h.finds t n hfound
    · simp [CondNodes.setRole, CondNodes.free, CondNodes.setNode]
    · simp [CondNodes.setRole, CondNodes.free, CondNodes.setNode]
  | @signalClaim n hr hst | @walkClaim n p hr hst =>
    refine h.done hinv (n := n) rfl (hsame (by rw [hr]; rfl)) hother ?_ (by simp)
      (.inr (by rw [hr]; exact ⟨rfl, rfl⟩)) (.inl ⟨hst, ?_⟩) <;>
      simp [CondNodes.setRole, CondNodes.setStatus, CondNodes.setNode]
  | @discard n hr | @walkFree n p hr =>
    have hfound : (c.role t).finds? = some n := by rw [hr]; rfl
    refine h.done hinv (n := n) rfl (hsame (by rw [hr]; rfl)) hother ?_ (by simp)
      (.inr (by rw [hr]; exact ⟨rfl, rfl⟩)) (.inr ⟨hfound, ?_, ?_⟩)
    · simpa [CondNodes.setRole, CondNodes.free, CondNodes.setNode] using h.finds t n hfound
    · simp [CondNodes.setRole, CondNodes.free, CondNodes.setNode]
    · simp [CondNodes.setRole, CondNodes.free, CondNodes.setNode]

/-- A node that a party holds, or that is not posted yet, is not freed. -/
theorem not_freed (h : OwnInv c place) {n : Nat}
    (hn : (c.role t).waiter? = some n ∨ (c.role t).waker? = some n ∨ place n ≠ .spent) :
    (c.node n).freed = false := by
  by_cases hp : place n = .spent
  · rcases hn with hn | hn | hn
    · exact (h.parties n hp).not_freed ⟨t, hn⟩
    · exact (h.parties n hp).symm.not_freed ⟨t, hn⟩
    · exact absurd hp hn
  · by_contra hf
    exact hp (h.freed n (by simpa using hf))

/-- Freed are the nodes that were freed before, and the one its thread has found swapped. -/
theorem freed_iff (h : OwnInv c place) (hinv : NodeInv c q hands place) {e : NodeEvent}
    (hs : NodeStep c t e c') (n : Nat) :
    (c'.node n).freed = true ↔ (c.node n).freed = true ∨ n ∈ (c.role t).finds?.toList := by
  have hset : ∀ {k : Nat} {x : CondNode}, (c.role t).finds? = none → x.freed = (c.node k).freed →
      ((Function.update c.node k x n).freed = true ↔
        (c.node n).freed = true ∨ n ∈ (c.role t).finds?.toList) := by
    intro k x hr hx
    by_cases hk : n = k
    · subst hk
      simp [hr, hx]
    · simp [hr, hk]
  -- freeing marks the one node that the thread has found swapped
  have hfree : ∀ {k : Nat}, (c.role t).finds? = some k →
      (((c.free k).node n).freed = true ↔
        (c.node n).freed = true ∨ n ∈ (c.role t).finds?.toList) := by
    intro k hr
    by_cases hk : n = k
    · subst hk
      simp [hr, CondNodes.free, CondNodes.setNode]
    · simp [hr, CondNodes.free, CondNodes.setNode, hk]
  cases hs with
  | alloc hr | initFails hr | enqueueFirst hr | late hr | yield hr | leave hr | dequeueHead hr
  | dequeueTail hr | signalYield hr | detach hr | walkFails hr | walkNext hr | walkYield hr =>
    have hnone : (c.role t).finds? = none := by rw [hr]; rfl
    simp [hnone, CondNodes.setRole, CondNodes.ret, CondNodes.setEnds, CondNodes.record]
  | wake hr | expire hr | claim hr | dequeueHeadOf hr | dequeueTailOf hr | post hr
  | signalClaim hr | walkPost hr | walkClaim hr =>
    exact hset (by rw [hr]; rfl) rfl
  -- the node is new, so it is not one that has been freed
  | @fill k hr =>
    have hnew : place k ≠ .spent := by
      rw [((hinv.role t).fills k false hr).1]
      simp
    exact hset (by rw [hr]; rfl) (h.not_freed (t := t) (.inr (.inr hnew))).symm
  | @enqueueLast k l hr =>
    have hnone : (c.role t).finds? = none := by rw [hr]; rfl
    by_cases hk : n = k <;> by_cases hl : n = l <;>
      simp_all [CondNodes.setRole, CondNodes.setEnds, CondNodes.setNext, CondNodes.setPrev,
        CondNodes.setNode, Function.update_apply]
  | free hr | discard hr | walkFree hr => exact hfree (by rw [hr]; rfl)

end OwnInv

/-! ## Runs of the code -/

/-- The nodes a thread is not done with, by its role. -/
theorem CondState.mem_uses {s : CondState Tid Lid} {t : Tid} {n : Nat} :
    n ∈ CondState.uses s t ↔
    (∃ b, (CondState.nodes s).role t = .fills n b) ∨
      ((CondState.nodes s).role t).waiter? = some n ∨
      ((CondState.nodes s).role t).waker? = some n ∨ n ∈ CondState.hand s t := by
  have hrole : (CondState.nodes s).role t = CondPc.role (s.thread t).pc := rfl
  rw [hrole]
  unfold CondState.uses CondState.hand
  cases CondPc.role (s.thread t).pc <;>
    simp [NodeRole.waiter?, NodeRole.waker?, eq_comm]

section Run

variable [DecidableEq Tid] {s s' : CondState Tid Lid} {q q' : List Nat}
  {hands hands' : Tid → List Nat} {place place' : Nat → NodePlace Tid}

/-- Nobody uses a freed node. -/
theorem OwnInv.not_uses (h : OwnInv (CondState.nodes s) place)
    (hinv : NodeInv (CondState.nodes s) q hands place) {n : Nat}
    (hn : (s.node n).freed = true) (t : Tid) : n ∉ CondState.uses s t := by
  have hp : place n = .spent := h.freed n hn
  have hno : ∀ {b : Bool}, (s.node n).freed = b → b = true := fun hb => hb.symm.trans hn
  rw [CondState.mem_uses]
  rintro (⟨b, hr⟩ | hr | hr | hr)
  · have := ((hinv.role t).fills n b hr).1
    simp [hp] at this
  · exact absurd (hno (h.not_freed (.inl hr))) (by simp)
  · exact absurd (hno (h.not_freed (.inr (.inl hr)))) (by simp)
  · rw [hinv.hand_eq, hinv.mem_hand, hp] at hr
    simp at hr

omit [DecidableEq Tid] in
/-- A posted node that nobody uses has been freed. -/
theorem OwnInv.freed_of_done (h : OwnInv (CondState.nodes s) place) {n : Nat}
    (hp : place n = .spent) (hn : ∀ t, n ∉ CondState.uses s t) : (s.node n).freed = true := by
  have hwaiter : ¬ Holds NodeRole.waiter? (CondState.nodes s) n :=
    fun ⟨t, ht⟩ => hn t (CondState.mem_uses.mpr (.inr (.inl ht)))
  have hwaker : ¬ Holds NodeRole.waker? (CondState.nodes s) n :=
    fun ⟨t, ht⟩ => hn t (CondState.mem_uses.mpr (.inr (.inr (.inl ht))))
  by_cases hst : (s.node n).status = .waiting
  · exact absurd ((h.parties n hp).waiting hst).1 hwaiter
  · rcases (h.parties n hp).swapped hst with ⟨hw, -⟩ | ⟨-, hw, -⟩ | ⟨-, -, hf⟩
    · exact absurd hw hwaiter
    · exact absurd hw hwaker
    · exact hf

/-- Every node a step accesses or frees is allocated. -/
theorem OwnInv.not_freed_of_accesses (h : OwnInv (CondState.nodes s) place)
    (hinv : NodeInv (CondState.nodes s) q hands place) {a : CondAct Tid Lid} {n : Nat}
    (hn : n ∈ CondState.accesses s a ∨ n ∈ CondState.frees s a) : (s.node n).freed = false := by
  have hqueued : n ∈ q → (s.node n).freed = false := by
    intro hq
    refine Bool.eq_false_iff.mpr fun hf => ?_
    have hp := h.freed n hf
    rw [(hinv.mem_queue n).mp hq] at hp
    simp at hp
  -- by the place of the thread: it waits with the node, has posted it or is about to
  have hthread : ∀ t, n ∈ CondState.accesses s (.run t) ∨ n ∈ CondState.frees s (.run t) →
      (s.node n).freed = false := by
    intro t hn
    have hrole : (CondState.nodes s).role t = CondPc.role (s.thread t).pc := rfl
    have hfills : ∀ {b : Bool}, CondPc.role (s.thread t).pc = .fills n b →
        (s.node n).freed = false := by
      intro b hr
      have hp := ((hinv.role t).fills n b hr).1
      exact h.not_freed (t := t) (.inr (.inr (by rw [hp]; simp)))
    cases hpc : (s.thread t).pc <;>
      simp only [CondState.accesses, CondState.frees, hpc, List.mem_singleton, List.not_mem_nil,
        or_false, false_or] at hn <;> rw [hpc] at hrole
    case semWait c k | casTimeout c k | casAwoken c k | waitFree c k =>
      exact h.not_freed (t := t) (.inl (by rw [hrole, hn]; rfl))
    case sigCas k | sigFree k | bcNext k e | bcCas k r e | bcFree k r e =>
      exact h.not_freed (t := t) (.inr (.inl (by rw [hrole, hn]; rfl)))
    case sigPost k | bcPost k e =>
      have hp := (hinv.hand_of_posting (t := t) (n := n) (by
        rw [hrole, hn]
        exact List.mem_singleton_self _)).1
      exact h.not_freed (t := t) (.inr (.inr (by rw [hp]; simp)))
    case semInit c k => exact hfills (by rw [hpc, hn]; rfl)
    case ulBody b =>
      cases b with
      | enqueue c k =>
        simp only [List.mem_cons, Option.mem_toList] at hn
        rcases hn with rfl | hn
        · exact hfills (by rw [hpc]; rfl)
        · exact hqueued (hinv.mem_of_end (.inr hn))
      | dequeue =>
        cases hpick : s.signalPick with
        | none => simp [hpick] at hn
        | some k =>
          simp only [hpick, List.mem_cons, Option.mem_toList] at hn
          have hk : k ∈ q := by
            unfold CondState.signalPick at hpick
            split at hpick
            · exact hinv.mem_of_end (.inl hpick)
            · exact hinv.mem_of_end (.inr hpick)
          rcases hn with rfl | hn
          · exact hqueued hk
          · refine hqueued ?_
            split at hn
            · exact (hinv.queue.prev_of_next hk hn).1
            · exact List.mem_reverse.mp
                (hinv.queue.symm.prev_of_next (List.mem_reverse.mpr hk) hn).1
      | detach => simp at hn
  cases a with
  | run t => exact hthread t hn
  | fail t e =>
    refine hthread t (hn.imp_right fun hf => ?_)
    simp [CondState.frees] at hf
  | _ => simp [CondState.accesses, CondState.frees] at hn

/-- The code frees what its thread has found swapped. -/
theorem CondState.frees_eq [DecidableEq Lid] {a : CondAct Tid Lid} (hs : s.step a = some s')
    {t : Tid} (ha : a = .run t ∨ ∃ e, a = .fail t e) :
    CondState.frees s a = ((CondState.nodes s).role t).finds?.toList := by
  show CondState.frees s a = (CondPc.role (s.thread t).pc).finds?.toList
  rcases ha with rfl | ⟨e, rfl⟩
  · cases hpc : (s.thread t).pc with
    | ulRead b | ulSwap b | ulBody b =>
      simp only [CondState.frees, hpc]
      cases b <;> rfl
    | ulUnlock k =>
      simp only [CondState.frees, hpc]
      rcases k with _ | (_ | _) | (_ | _) <;> rfl
    | _ =>
      simp only [CondState.frees, hpc]
      rfl
  · simp only [CondState.step] at hs
    split at hs
    · simp at hs
    cases hpc : (s.thread t).pc <;>
      simp only [CondState.failStep, hpc, reduceCtorEq] at hs <;> rfl

/-- A step that leaves the nodes alone frees none. -/
theorem CondState.frees_eq_nil [DecidableEq Lid] {a : CondAct Tid Lid} (hs : s.step a = some s')
    (hsame : CondState.nodes s' = CondState.nodes s) : CondState.frees s a = [] := by
  cases a with
  | run t =>
    have hrun := CondState.runStep_of_step hs
    have hrole : CondPc.role (s'.thread t).pc = CondPc.role (s.thread t).pc :=
      congrFun (congrArg CondNodes.role hsame) t
    cases hpc : (s.thread t).pc with
    | waitFree c n | sigFree n =>
      rw [hpc] at hrole
      simp only [CondState.runStep, hpc, Option.some.injEq] at hrun
      subst hrun
      simp [CondState.goto, CondState.setThread, CondPc.role] at hrole
    | bcFree n r e =>
      rw [hpc] at hrole
      simp only [CondState.runStep, hpc, Option.some.injEq] at hrun
      subst hrun
      cases r <;> simp [CondState.bcLoop, CondState.goto, CondState.setThread, CondPc.role] at hrole
    | _ => simp only [CondState.frees, hpc]
  | _ => rfl

variable [DecidableEq Lid]

/-- What a run keeps: the nodes and their history, the parties of the posted nodes, and the
    history of the nodes freed. -/
def OwnerInv (tr : List (CondState Tid Lid × CondAct Tid Lid)) (s : CondState Tid Lid) : Prop :=
  ∃ q hands place, NodeInv (CondState.nodes s) q hands place ∧
    PostInv (CondState.nodes s) place (System.events CondState.removed tr)
      (System.events CondState.posted tr) ∧
    OwnInv (CondState.nodes s) place ∧ (System.events CondState.frees tr).Nodup ∧
    ∀ n, n ∈ System.events CondState.frees tr ↔ (s.node n).freed = true

theorem OwnerInv.init (hs : s = { cnt := s.cnt }) : OwnerInv [] s := by
  obtain ⟨q, hands, place, hinv, hpost⟩ := OnceInv.init hs
  have hspent : ∀ n, place n ≠ .spent := fun n hn => by
    have := (hpost.mem_posted n).mpr hn
    simp at this
  have hrole : ∀ t, (CondState.nodes s).role t = .idle := fun t => by
    rw [hs]
    rfl
  have hnode : ∀ n, (s.node n).freed = false := fun n => by rw [hs]
  refine ⟨q, hands, place, hinv, hpost, ?_, List.nodup_nil, by simp [hnode]⟩
  exact
    { parties := fun n hn => absurd hn (hspent n)
      freed := fun n hn => absurd ((hnode n).symm.trans hn) (by simp)
      waker_inj := fun t u n hn => by simp [hrole] at hn
      finds := fun t n hn => by simp [hrole] at hn }

theorem OwnerInv.step {tr : List (CondState Tid Lid × CondAct Tid Lid)} {a : CondAct Tid Lid}
    (h : OwnerInv tr s) (hs : s.step a = some s') : OwnerInv (tr ++ [(s, a)]) s' := by
  obtain ⟨q, hands, place, hinv, hpost, hown, hnodup, hmem⟩ := h
  -- what the step frees has not been freed before, as it is still accessed
  have hallocated : ∀ n ∈ CondState.frees s a, n ∉ System.events CondState.frees tr := by
    intro n hn hfreed
    have hno := hown.not_freed_of_accesses hinv (.inr hn)
    rw [(hmem n).mp hfreed] at hno
    simp at hno
  have hnodup' : (System.events CondState.frees (tr ++ [(s, a)])).Nodup := by
    rw [System.events_append, System.events_singleton]
    refine List.nodup_append.mpr ⟨hnodup, ?_, ?_⟩
    · cases a with
      | run t => cases hpc : (s.thread t).pc <;> simp [CondState.frees, hpc]
      | _ => exact List.nodup_nil
    · rintro m hm n hn rfl
      exact hallocated m hn hm
  rcases CondState.nodes_step hs with ⟨t, ha, ht⟩ | ⟨-, hsame⟩
  · obtain ⟨q', hands', place', hinv', hmoved⟩ := hinv.step ht
    refine ⟨q', hands', place', hinv', ?_, hown.step hinv hinv' ht hmoved, hnodup', fun n => ?_⟩
    · exact hpost.step_nodes hinv hinv' hs ht hmoved
    · rw [System.events_append, System.events_singleton, List.mem_append, hmem,
        CondState.frees_eq hs ha]
      exact (hown.freed_iff hinv ht n).symm
  · have hnode : s'.node = s.node := congrArg CondNodes.node hsame
    refine ⟨q, hands, place, hsame ▸ hinv, hpost.step_same hinv hs hsame, hsame ▸ hown, hnodup',
      fun n => ?_⟩
    rw [System.events_append, System.events_singleton, CondState.frees_eq_nil hs hsame,
      List.append_nil, hmem, hnode]

theorem ownerInv_of_run {C : CondState Tid Lid → CondAct Tid Lid → Prop}
    {tr : List (CondState Tid Lid × CondAct Tid Lid)} (h : (txcond Tid Lid).Run C tr s) :
    OwnerInv tr s :=
  h.invariant_trace (I := OwnerInv) (fun _ hs => .init hs) fun _ _ _ _ _ hi _ hs => hi.step hs

/-- Every node has a single owner: it is freed once, when the queue and all threads are done
    with it, and a node off the queue that all threads are done with has been freed. -/
structure SingleOwner (tr : List (CondState Tid Lid × CondAct Tid Lid)) (s : CondState Tid Lid) :
    Prop where
  frees_nodup : (System.events CondState.frees tr).Nodup
  freed_iff : ∀ n, n ∈ System.events CondState.frees tr ↔ (s.node n).freed = true
  queue : CondQueueOk s
  not_queued : ∀ n ∈ System.events CondState.frees tr, n ∉ CondState.queue s
  not_used : ∀ n ∈ System.events CondState.frees tr, ∀ t, n ∉ CondState.uses s t
  freed_of_done : ∀ n ∈ System.events CondState.removed tr, (∀ t, n ∉ CondState.uses s t) →
    n ∈ System.events CondState.frees tr

/-- No step reads, writes or frees a freed node: it is not among the nodes the step is at, and
    the step is the same whatever the node holds. -/
structure StaysOff (freed : List Nat) (s : CondState Tid Lid) (a : CondAct Tid Lid) : Prop where
  accesses : ∀ n ∈ CondState.accesses s a, n ∉ freed
  frees : ∀ n ∈ CondState.frees s a, n ∉ freed
  same : ∀ n ∈ freed, ∀ x, (s.setNode n x).step a = (s.step a).map fun s' => s'.setNode n x

/-- In every run no node is freed twice, used after it was freed, or freed while it is in the
    queue, and none is left behind. -/
theorem txcond_single_owner (tr : List (CondState Tid Lid × CondAct Tid Lid))
    (s : CondState Tid Lid) (h : (txcond Tid Lid).Run System.Free tr s) :
    SingleOwner tr s ∧ ∀ a, StaysOff (System.events CondState.frees tr) s a := by
  obtain ⟨q, hands, place, hinv, hpost, hown, hnodup, hmem⟩ := ownerInv_of_run h
  have hspent : ∀ n ∈ System.events CondState.frees tr, place n = .spent :=
    fun n hn => hown.freed n ((hmem n).mp hn)
  -- what a step accesses or frees has not been freed before
  have hoff : ∀ a n, n ∈ CondState.accesses s a ∨ n ∈ CondState.frees s a →
      n ∉ System.events CondState.frees tr := by
    intro a n hn hfreed
    have hno := hown.not_freed_of_accesses hinv hn
    rw [(hmem n).mp hfreed] at hno
    simp at hno
  constructor
  · refine
      { frees_nodup := hnodup
        freed_iff := hmem
        queue := hinv.condQueueOk
        not_queued := fun n hn hq => ?_
        not_used := fun n hn t => hown.not_uses hinv ((hmem n).mp hn) t
        freed_of_done := fun n hn hdone => ?_ }
    · rw [hinv.queue_eq, hinv.mem_queue, hspent n hn] at hq
      simp at hq
    · have hd := (hpost.mem_removed n).mp hn
      refine (hmem n).mpr (hown.freed_of_done ?_ hdone)
      cases hp : place n with
      | spent => rfl
      | hand t =>
        -- a waker that has the node in hand is not done with it
        have hh : n ∈ CondState.hand s t := by rw [hinv.hand_eq, hinv.mem_hand, hp]
        exact absurd (CondState.mem_uses.mpr (.inr (.inr (.inr hh)))) (hdone t)
      | unborn | new | queued =>
        rw [hp] at hd
        exact absurd hd (by simp [NodePlace.dequeued])
  · intro a
    exact
      { accesses := fun n hn => hoff a n (.inl hn)
        frees := fun n hn => hoff a n (.inr hn)
        same := fun n hn x => CondState.step_setNode (fun hm => hoff a n (.inl hm) hn)
          fun hm => hoff a n (.inr hm) hn }

end Run

/-- Thread 0's deadline passes after a broadcast has taken its node: the broadcast frees it. -/
theorem txcond_single_owner_timeout :
    ∃ tr s, (txcond (Fin 2) (Fin 1)).Run System.Free tr s ∧ s.returned 0 = some (-1) ∧
      System.events CondState.frees tr = [0] ∧ SingleOwner tr s := by
  let as : List (CondAct (Fin 2) (Fin 1)) :=
    [.acquire 0 0, .wait 0 ⟨0, true⟩, .run 0, .run 0, .run 0, .run 0, .run 0, .run 0, .run 0,
      .broadcast 1, .run 1, .run 1, .run 1, .fail 0 .eintr, .fail 0 .etimedout, .run 1, .run 1,
      .run 0, .run 1, .run 1, .run 1]
  have hret : ((txcond (Fin 2) (Fin 1)).exec {} as).map (fun s => s.returned 0) =
      some (some (-1)) := by decide
  have hfrees : System.events CondState.frees ((txcond (Fin 2) (Fin 1)).execTrace {} as) = [0] := by
    decide
  obtain ⟨s, hs, hr⟩ := Option.map_eq_some_iff.mp hret
  have hrun := (System.Run.init (M := txcond (Fin 2) (Fin 1)) (s := {}) rfl).exec hs
  exact ⟨_, s, hrun, hr, hfrees, (txcond_single_owner _ s hrun).1⟩

end TxLock.Spec
