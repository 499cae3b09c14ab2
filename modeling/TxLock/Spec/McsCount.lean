import Mathlib.Algebra.Group.Nat.Defs
import TxLock.Spec.McsFifo

/-!
# The positions that `mcs_tm` hands out

`CountOk c lk`: the `j`-th node of the queue of `lk` has no position yet or the position
`released + j + 1`, and `now_serving` is the number of acquisitions granted. A node that
is about to take its position from the one before it finds it there even when that one has
left the queue, as long as nobody resets it, and no counter overflows as long as fewer than
`2 ^ 63` nodes were queued for a lock; these are the conditions under which a step keeps the
positions (`McsCount.step`).
-/

namespace TxLock.Spec

open Native McsView

variable {Tid Lid : Type}

/-- The node whose `cnt` it is about to read. -/
def QueueRole.countsOn : QueueRole Tid → Option (Tid × Nat)
  | .counting p | .reading p => some p
  | .linking _ | .counted _ | .waiting _ | .entering _ | .firstRead | .firstGive _ | .firstAgain
  | .firstServe _ | .holds | .closing | .awaiting | .handing | .clearing _ => none

/-- Out of the queue, with the `cnt` it had there. -/
def McsRole.isSpent : McsRole Tid Lid → Bool
  | .free | .left => true
  | .fresh done => done ≤ 3
  | .queued _ _ => false

namespace McsView

/-- The position of a node, 0 while it has none. -/
def pos (c : McsView Tid Lid) (n : Tid × Nat) : Nat := (c.node n).cnt.toNat

/-- The position entered in the history for the `m`-th acquisition of `lk`. -/
def given (c : McsView Tid Lid) (lk : Lid) (m : Nat) : Option Nat :=
  (c.lock lk).turns[m]?.bind fun a => a.cnt.map BitVec.toNat

/-- The node of the `m`-th acquisition of `lk`, and the node before it. -/
def links (c : McsView Tid Lid) (lk : Lid) (m : Nat) : Option ((Tid × Nat) × Option (Tid × Nat)) :=
  (c.lock lk).turns[m]?.map fun a => (a.node, a.pred)

theorem pos_ne_zero {c : McsView Tid Lid} {n : Tid × Nat} (h : (c.node n).cnt ≠ 0) : c.pos n ≠ 0 :=
  fun hz => h (BitVec.eq_of_toNat_eq hz)

section

variable {c : McsView Tid Lid} {n m : Tid × Nat}

@[simp] theorem setRole_pos [DecidableEq Tid] {r : McsRole Tid Lid} :
    (c.setRole n r).pos = c.pos := rfl

@[simp] theorem setLock_pos [DecidableEq Lid] {lk : Lid} {l : McsLock Tid} :
    (c.setLock lk l).pos = c.pos := rfl

@[simp] theorem setNode_pos_self [DecidableEq Tid] {x : McsNode Tid} :
    (c.setNode n x).pos n = x.cnt.toNat := by
  rw [pos, setNode_self]

@[simp] theorem setNode_pos_ne [DecidableEq Tid] {x : McsNode Tid} (h : m ≠ n) :
    (c.setNode n x).pos m = c.pos m := by
  rw [pos, setNode_ne h, pos]

/-- A write to a node that leaves its `cnt` alone. -/
theorem setNode_pos [DecidableEq Tid] {x : McsNode Tid} (h : x.cnt = (c.node n).cnt) :
    (c.setNode n x).pos m = c.pos m := by
  by_cases hm : m = n
  · rw [hm, setNode_pos_self, h, pos]
  · exact setNode_pos_ne hm

end

end McsView

/-- The node `p` before the `j`-th node has the position before it, or none. -/
structure PredOk (c : McsView Tid Lid) (lk : Lid) (j : Nat) (p : Tid × Nat) : Prop where
  behind : 0 < j → (c.queue lk)[j - 1]? = some p
  spent : j = 0 → (c.role p).isSpent = true ∧
    c.pos p + 1 = (c.lock lk).released + j + 1 ∧ c.pos p ≠ 0

/-- The position of the `j`-th node of the queue. -/
def CntOk (c : McsView Tid Lid) (lk : Lid) (j : Nat) (n : Tid × Nat) : QueueRole Tid → Prop
  | .linking _ | .firstRead => c.pos n = 0
  | .counting p => c.pos n = 0 ∧ PredOk c lk j p
  | .reading p => c.pos n = 0 ∧ PredOk c lk j p ∧ c.pos p ≠ 0
  | .counted cnt => c.pos n = 0 ∧ cnt.toNat = (c.lock lk).released + j + 1
  | .waiting cnt => cnt.map BitVec.toNat = some ((c.lock lk).released + j + 1) ∧
      c.pos n = (c.lock lk).released + j + 1
  | .entering cnt => cnt.toNat = (c.lock lk).released + j + 1 ∧
      c.pos n = (c.lock lk).released + j + 1
  | .firstGive cnt => c.pos n = 0 ∧ cnt.toNat = (c.lock lk).released + j + 1
  | .firstServe now => now.toNat + 1 = (c.lock lk).released + j + 1 ∧
      c.pos n = (c.lock lk).released + j + 1
  | .firstAgain | .holds | .closing | .awaiting | .handing | .clearing _ =>
    c.pos n = (c.lock lk).released + j + 1

/-- The node before it has its position already. -/
def QueueRole.isCounted : QueueRole Tid → Bool
  | .counted _ | .waiting _ => true
  | .linking _ | .counting _ | .reading _ | .entering _ | .firstRead | .firstGive _ | .firstAgain
  | .firstServe _ | .holds | .closing | .awaiting | .handing | .clearing _ => false

/-- The positions of the queue of `lk` and their history. -/
structure CountOk (c : McsView Tid Lid) (lk : Lid) : Prop where
  entry : ∀ j n r, (c.queue lk)[j]? = some n → c.role n = .queued lk r → CntOk c lk j n r
  before : ∀ j n r p, (c.queue lk)[j + 1]? = some n → c.role n = .queued lk r →
    r.isCounted = true → (c.queue lk)[j]? = some p → c.pos p ≠ 0
  serving : (c.lock lk).nowServing.toNat = c.served lk
  past : ∀ m, m < (c.lock lk).released → c.given lk m = some (m + 1)
  present : ∀ j n, (c.queue lk)[j]? = some n → c.given lk ((c.lock lk).released + j) =
    if c.pos n = 0 then none else some (c.pos n)
  preds : ∀ m n p, c.links lk m = some (n, some p) →
    0 < m ∧ (c.links lk (m - 1)).map Prod.fst = some p

/-- The positions of every lock. -/
def McsCount (c : McsView Tid Lid) : Prop := ∀ lk, CountOk c lk

section

variable {c c' : McsView Tid Lid} {lk : Lid} {j : Nat} {n : Tid × Nat} {r r' : QueueRole Tid}

/-- A node has its position or none. -/
theorem CntOk.cnt_eq (h : CntOk c lk j n r) :
    c.pos n = 0 ∨ c.pos n = (c.lock lk).released + j + 1 := by
  cases r with
  | linking p | firstRead => exact .inl h
  | counting p | reading p | counted v | firstGive v => exact .inl h.1
  | waiting v | entering v | firstServe v => exact .inr h.2
  | firstAgain | holds | closing | awaiting | handing | clearing m => exact .inr h

/-- What keeps the queue up to its `j`-th node keeps the position of that node. -/
theorem CntOk.congr (h : CntOk c lk j n r)
    (hrel : (c'.lock lk).released = (c.lock lk).released)
    (hq : ∀ p, 0 < j → (c.queue lk)[j - 1]? = some p → (c'.queue lk)[j - 1]? = some p)
    (hn : c'.pos n = c.pos n)
    (hpred : ∀ p, r.countsOn = some p → 0 < j → c.pos p ≠ 0 → c'.pos p ≠ 0)
    (hspent : ∀ p, r.countsOn = some p → (c.role p).isSpent = true →
      (c'.role p).isSpent = true ∧ c'.pos p = c.pos p) : CntOk c' lk j n r := by
  have hpredOk : ∀ p, r.countsOn = some p → PredOk c lk j p → PredOk c' lk j p := by
    intro p hp h
    refine ⟨fun hj => hq p hj (h.behind hj), fun hj => ?_⟩
    obtain ⟨hs, hc, hne⟩ := h.spent hj
    obtain ⟨hs', hc'⟩ := hspent p hp hs
    exact ⟨hs', by rw [hc', hrel]; exact hc, by rw [hc']; exact hne⟩
  cases r with
  | linking p | firstRead => exact hn.trans h
  | counting p => exact ⟨hn.trans h.1, hpredOk p rfl h.2⟩
  | reading p =>
    refine ⟨hn.trans h.1, hpredOk p rfl h.2.1, ?_⟩
    rcases Nat.eq_zero_or_pos j with hj | hj
    · rw [(hspent p rfl (h.2.1.spent hj).1).2]
      exact h.2.2
    · exact hpred p rfl hj h.2.2
  | counted v | firstGive v => exact ⟨hn.trans h.1, by rw [hrel]; exact h.2⟩
  | waiting v | entering v | firstServe v =>
    exact ⟨by rw [hrel]; exact h.1, by rw [hn, hrel]; exact h.2⟩
  | firstAgain | holds | closing | awaiting | handing | clearing m =>
    show c'.pos n = _
    rw [hn, hrel]
    exact h

theorem queue_getElem? (c : McsView Tid Lid) (lk : Lid) (j : Nat) :
    (c.queue lk)[j]? = (c.lock lk).turns[(c.lock lk).released + j]?.map McsTurn.node := by
  rw [McsView.queue, List.map_drop, List.getElem?_drop, List.getElem?_map]

theorem given_congr (hlock : c'.lock lk = c.lock lk) (m : Nat) :
    c'.given lk m = c.given lk m := by
  unfold McsView.given
  rw [hlock]

theorem links_congr (hlock : c'.lock lk = c.lock lk) (m : Nat) :
    c'.links lk m = c.links lk m := by
  unfold McsView.links
  rw [hlock]

namespace CountOk

/-- What keeps the queue, the nodes in it and the nodes it counts on keeps the positions. -/
theorem frame (h : CountOk c lk) (hlock : c'.lock lk = c.lock lk)
    (hrole : ∀ n ∈ c.queue lk, c'.role n = c.role n)
    (hcnt : ∀ n ∈ c.queue lk, c'.pos n = c.pos n)
    (hspent : ∀ n r p, n ∈ c.queue lk → c.role n = .queued lk r → r.countsOn = some p →
      (c.role p).isSpent = true →
      (c'.role p).isSpent = true ∧ c'.pos p = c.pos p) : CountOk c' lk := by
  have hq : c'.queue lk = c.queue lk := queue_congr hlock
  constructor
  · intro j n r hj hr
    rw [hq] at hj
    have hn := List.mem_of_getElem? hj
    rw [hrole n hn] at hr
    have he := h.entry j n r hj hr
    refine he.congr (by rw [hlock]) (fun p _ hp => by rw [hq]; exact hp) (hcnt n hn)
      (fun p hp hpos hc => ?_) fun p hp hs => hspent n r p hn hr hp hs
    -- the node before it is in the queue
    have hpq : (c.queue lk)[j - 1]? = some p := by
      cases r <;> simp only [QueueRole.countsOn, Option.some.injEq, reduceCtorEq] at hp <;> subst hp
      · exact he.2.behind hpos
      · exact he.2.1.behind hpos
    rw [hcnt p (List.mem_of_getElem? hpq)]
    exact hc
  · intro j n r p hj hr hc hp
    rw [hq] at hj hp
    rw [hrole n (List.mem_of_getElem? hj)] at hr
    rw [hcnt p (List.mem_of_getElem? hp)]
    exact h.before j n r p hj hr hc hp
  · rw [hlock, h.serving]
    exact (served_congr (by rw [hlock]) hq fun n hn => by rw [hrole n (List.mem_of_head? hn)]).symm
  · intro m hm
    rw [hlock] at hm
    rw [given_congr hlock]
    exact h.past m hm
  · intro j n hj
    rw [hq] at hj
    rw [given_congr hlock, hlock, hcnt n (List.mem_of_getElem? hj)]
    exact h.present j n hj
  · simp only [links_congr hlock]
    exact h.preds

/-- A queued node moves on in its place, or takes its position there. -/
theorem move (h : CountOk c lk) (hr : c.role n = .queued lk r)
    (hr' : c'.role n = .queued lk r') (hrole : ∀ m, m ≠ n → c'.role m = c.role m)
    (hcnt : ∀ m, m ≠ n → c'.pos m = c.pos m)
    (hkept : c.pos n ≠ 0 → c'.pos n ≠ 0)
    (hrel : (c'.lock lk).released = (c.lock lk).released) (hqueue : c'.queue lk = c.queue lk)
    (hserving : (c'.lock lk).nowServing.toNat = c'.served lk)
    (hpast : ∀ m, m < (c.lock lk).released → c'.given lk m = c.given lk m)
    (hpresent : ∀ j m, (c.queue lk)[j]? = some m → c'.given lk ((c.lock lk).released + j) =
      if c'.pos m = 0 then none else some (c'.pos m))
    (hlinks : ∀ m, c'.links lk m = c.links lk m)
    (hentry : ∀ j, (c.queue lk)[j]? = some n → CntOk c lk j n r → CntOk c' lk j n r')
    (hcounted : r'.isCounted = true → r.isCounted = true ∨
      ∀ j p, (c.queue lk)[j + 1]? = some n → (c.queue lk)[j]? = some p → c.pos p ≠ 0) :
    CountOk c' lk := by
  -- a position that has been taken stays taken
  have hnz : ∀ p, c.pos p ≠ 0 → c'.pos p ≠ 0 := by
    intro p hp
    by_cases hpn : p = n
    · subst hpn
      exact hkept hp
    · rw [hcnt p hpn]
      exact hp
  constructor
  · intro j m rm hj hm
    rw [hqueue] at hj
    by_cases hmn : m = n
    · subst hmn
      rw [hr', McsRole.queued.injEq] at hm
      obtain rfl := hm.2
      exact hentry j hj (h.entry j m r hj hr)
    · rw [hrole m hmn] at hm
      refine (h.entry j m rm hj hm).congr hrel (fun p _ hp => by rw [hqueue]; exact hp)
        (hcnt m hmn) (fun p _ _ hp => hnz p hp) fun p _ hs => ?_
      -- the predecessor is through with its position, the node `n` is not
      have hpn : p ≠ n := by
        rintro rfl
        rw [hr] at hs
        simp [McsRole.isSpent] at hs
      rw [hrole p hpn, hcnt p hpn]
      exact ⟨hs, rfl⟩
  · intro j m rm p hj hm hc hp
    rw [hqueue] at hj hp
    by_cases hmn : m = n
    · subst hmn
      rw [hr', McsRole.queued.injEq] at hm
      obtain rfl := hm.2
      rcases hcounted hc with hold | hall
      · exact hnz p (h.before j m r p hj hr hold hp)
      · exact hnz p (hall j p hj hp)
    · rw [hrole m hmn] at hm
      exact hnz p (h.before j m rm p hj hm hc hp)
  · exact hserving
  · intro m hm
    rw [hrel] at hm
    rw [hpast m hm]
    exact h.past m hm
  · intro j m hj
    rw [hqueue] at hj
    rw [hrel]
    exact hpresent j m hj
  · simp only [hlinks]
    exact h.preds

variable [DecidableEq Tid]

/-- A queued node moves on, and nothing else changes. -/
theorem moveRole (h : CountOk c lk) (hr : c.role n = .queued lk r)
    (hhold : r'.isHolding = r.isHolding)
    (hentry : ∀ j, (c.queue lk)[j]? = some n → CntOk c lk j n r → CntOk c lk j n r')
    (hcounted : r'.isCounted = true → r.isCounted = true ∨
      ∀ j p, (c.queue lk)[j + 1]? = some n → (c.queue lk)[j]? = some p → c.pos p ≠ 0) :
    CountOk (c.setRole n (.queued lk r')) lk := by
  have hserved : (c.setRole n (.queued lk r')).served lk = c.served lk := by
    refine served_congr rfl rfl fun m _ => ?_
    by_cases hm : m = n
    · subst hm
      simp only [setRole_self, hr, McsRole.isHolding, hhold]
    · rw [setRole_ne hm]
  refine h.move hr setRole_self (fun m hm => setRole_ne hm) (fun _ _ => rfl) id rfl rfl
    (h.serving.trans hserved.symm) (fun _ _ => rfl) h.present (fun _ => rfl)
    (fun j hj he => ?_) hcounted
  -- the nodes it counts on are not the node itself
  refine (hentry j hj he).congr rfl (fun _ _ hp => hp) rfl (fun _ _ _ hc => hc) fun p _ hs => ?_
  have hpn : p ≠ n := by
    rintro rfl
    rw [hr] at hs
    simp [McsRole.isSpent] at hs
  rw [setRole_ne hpn]
  exact ⟨hs, rfl⟩

variable [DecidableEq Lid]

omit [DecidableEq Tid] in
theorem links_record {f : McsTurn Tid → McsTurn Tid}
    (hf : ∀ a, ((f a).node, (f a).pred) = (a.node, a.pred)) (m : Nat) :
    (c.record lk n f).links lk m = c.links lk m := by
  unfold McsView.links McsView.record
  rw [setLock_self, List.getElem?_modify]
  cases (c.lock lk).turns[m]? with
  | none => rfl
  | some a =>
    simp only [Option.map_eq_map, Option.map_some]
    split
    · rw [hf]
    · rfl

omit [DecidableEq Tid] in
theorem given_record {f : McsTurn Tid → McsTurn Tid} (m : Nat) :
    (c.record lk n f).given lk m =
      if (c.node n).turn = m then (c.lock lk).turns[m]?.bind fun a => (f a).cnt.map BitVec.toNat
      else c.given lk m := by
  unfold McsView.given McsView.record
  rw [setLock_self, List.getElem?_modify]
  cases (c.lock lk).turns[m]? with
  | none => simp
  | some a => split <;> rfl

/-- The node takes its position. -/
theorem giveCnt (h : CountOk c lk) (hq : QueueOk c lk) (hr : c.role n = .queued lk r)
    {cnt : BitVec 64}
    (hhold : r'.isHolding = r.isHolding)
    (hcnt : ∀ j, CntOk c lk j n r → cnt.toNat = (c.lock lk).released + j + 1)
    (hentry : ∀ c' j, CntOk c lk j n r → (c'.lock lk).released = (c.lock lk).released →
      c'.pos n = (c.lock lk).released + j + 1 → CntOk c' lk j n r')
    (hcounted : r'.isCounted = true → r.isCounted = true) :
    CountOk ((c.giveCnt lk n cnt).setRole n (.queued lk r')) lk := by
  obtain ⟨k, hk, hek⟩ := hq.exists_index hr
  have hpos := hcnt k (h.entry k n r hk hr)
  generalize hc : (c.giveCnt lk n cnt).setRole n (.queued lk r') = c'
  have hself : c'.role n = .queued lk r' := by subst hc; exact setRole_self
  have hrole : ∀ m, m ≠ n → c'.role m = c.role m := fun m hm => by subst hc; exact setRole_ne hm
  have hnode : ∀ m, m ≠ n → c'.pos m = c.pos m := fun m hm => by
    subst hc
    exact setNode_pos_ne hm
  have hn : c'.pos n = cnt.toNat := by
    subst hc
    exact setNode_pos_self
  have hrel : (c'.lock lk).released = (c.lock lk).released := by
    subst hc
    simp [McsView.giveCnt, McsView.record]
  have hqueue : c'.queue lk = c.queue lk := by subst hc; exact queue_record fun _ => rfl
  -- the history of this turn gets the position, all others stay
  have hgiven : ∀ m, c'.given lk m = if (c.lock lk).released + k = m then
      (c.lock lk).turns[m]?.bind fun _ => some cnt.toNat else c.given lk m := fun m => by
    subst hc
    rw [← hek.turn]
    exact given_record (f := fun a => { a with cnt := some cnt }) m
  have hlinks : ∀ m, c'.links lk m = c.links lk m := fun m => by
    subst hc
    exact links_record (f := fun a => { a with cnt := some cnt }) (fun _ => rfl) m
  have hserved : c'.served lk = c.served lk := by
    refine served_congr hrel hqueue fun m _ => ?_
    by_cases hm : m = n
    · subst hm
      simp only [hself, hr, McsRole.isHolding, hhold]
    · rw [hrole m hm]
  have hnow : (c'.lock lk).nowServing = (c.lock lk).nowServing := by
    subst hc
    simp [McsView.giveCnt, McsView.record]
  refine h.move hr hself hrole hnode (fun _ => by rw [hn]; omega) hrel hqueue
    (by rw [hnow, hserved]; exact h.serving) (fun m hm => ?_) (fun j m hj => ?_) hlinks
    (fun j hj he => hentry c' j he hrel (by rw [hn]; exact hcnt j he))
    fun hc' => .inl (hcounted hc')
  · rw [hgiven, if_neg (by omega)]
  · rw [hgiven]
    by_cases hjk : j = k
    · -- the node itself, in its place of the history
      subst hjk
      obtain rfl : m = n := Option.some.inj (hj.symm.trans hk)
      rw [queue_getElem?] at hj
      obtain ⟨a, ha, -⟩ := Option.map_eq_some_iff.mp hj
      have hne : cnt.toNat ≠ 0 := by omega
      rw [if_pos rfl, ha, hn, if_neg hne]
      rfl
    · have hmn : m ≠ n := by
        rintro rfl
        exact hjk (hq.index_inj hj hk)
      rw [if_neg (by omega), hnode m hmn]
      exact h.present j m hj

/-- The first node gets the lock with its position. -/
theorem enter (h : CountOk c lk) (hq : QueueOk c lk) (hr : c.role n = .queued lk r)
    (hfront : r.isBehind = false) (hhold : r.isHolding = false) {now : BitVec 64}
    (hnow : now.toNat = (c.lock lk).released + 1) (hcnt : c.pos n = (c.lock lk).released + 1) :
    CountOk ((c.setLock lk { c.lock lk with nowServing := now }).enter lk n) lk := by
  obtain ⟨hj, he⟩ := hq.first hr (.inl hfront)
  have hq' : QueueOk ((c.setLock lk { c.lock lk with nowServing := now }).enter lk n) lk :=
    (hq.setServing now).enter (r := r) hr (.inl hfront)
      (QueueRole.not_isLinking_of_not_isBehind hfront) hhold
  generalize hc : (c.setLock lk { c.lock lk with nowServing := now }).enter lk n = c' at hq'
  have hself : c'.role n = .queued lk .holds := by subst hc; exact setRole_self
  have hrel : (c'.lock lk).released = (c.lock lk).released := by
    subst hc
    simp [McsView.enter, McsView.record]
  -- the record of the entry does not touch what was given, or the links
  have hgiven : ∀ m, c'.given lk m = c.given lk m := fun m => by
    subst hc
    simp only [McsView.enter, McsView.given, setRole_lock, McsView.record, setLock_self,
      List.getElem?_modify]
    cases (c.lock lk).turns[m]? with
    | none => rfl
    | some a =>
      simp only [Option.map_eq_map, Option.map_some, Option.bind_some]
      split <;> rfl
  have hlinks : ∀ m, c'.links lk m = c.links lk m := fun m => by
    subst hc
    simp only [McsView.enter, McsView.links, setRole_lock, McsView.record, setLock_self,
      List.getElem?_modify]
    cases (c.lock lk).turns[m]? with
    | none => rfl
    | some a =>
      simp only [Option.map_eq_map, Option.map_some]
      split <;> rfl
  have hqueue : c'.queue lk = c.queue lk := by
    subst hc
    have hrecord : ((c.setLock lk { c.lock lk with nowServing := now }).enter lk n).queue lk =
        (c.setLock lk { c.lock lk with nowServing := now }).queue lk := queue_record fun _ => rfl
    rw [hrecord]
    simp [McsView.queue]
  have hserving : (c'.lock lk).nowServing.toNat = c'.served lk := by
    rw [hq'.served_of_holding hself rfl, hrel, ← hnow]
    subst hc
    simp [McsView.enter, McsView.record]
  have hpos : c'.pos = c.pos := by subst hc; rfl
  refine h.move hr hself (fun m hm => by subst hc; exact setRole_ne hm)
    (fun _ _ => by rw [hpos]) (by rw [hpos]; exact id) hrel hqueue hserving
    (fun m _ => hgiven m) (fun j m hm => ?_) hlinks (fun j hj' _ => ?_) (by simp [QueueRole.isCounted])
  · rw [hgiven, hpos]
    exact h.present j m hm
  · obtain rfl := hq.index_inj hj' hj
    show c'.pos n = _
    rw [hpos, hrel]
    exact hcnt

/-- A new last node has no position. -/
theorem push (h : CountOk c lk) (hq : QueueOk c lk) (hr : c.role n = .fresh 4)
    (hzero : c.pos n = 0)
    (hserved : (c.push lk n (c.pushRole lk)).served lk = c.served lk) :
    CountOk (c.push lk n (c.pushRole lk)) lk := by
  have hqueue := hq.push_queue (n := n) (c.pushRole lk)
  have hpush := McsView.pushRole_cases c lk
  generalize c.pushRole lk = r' at hqueue hserved hpush ⊢
  generalize hc : c.push lk n r' = c' at hqueue hserved ⊢
  have hlen := hq.queue_length
  have hlock : c'.lock lk = { c.lock lk with
      tail := some n
      turns := (c.lock lk).turns ++ [{ node := n, pred := (c.lock lk).tail }] } := by
    subst hc
    simp [McsView.push]
  have hself : c'.role n = .queued lk r' := by subst hc; exact setRole_self
  have hrole : ∀ m, m ≠ n → c'.role m = c.role m := fun m hm => by subst hc; exact setRole_ne hm
  have hnq : n ∉ c.queue lk := fun hn => by
    obtain ⟨r, hqr⟩ := (hq.mem n).mp hn
    rw [hr] at hqr
    simp at hqr
  have hcnt : ∀ m, c'.pos m = c.pos m := fun m => by
    subst hc
    exact setNode_pos rfl
  have hgiven : ∀ m, m < (c.lock lk).turns.length → c'.given lk m = c.given lk m := fun m hm => by
    unfold McsView.given
    rw [hlock, List.getElem?_append_left hm]
  have hlinks : ∀ m, m < (c.lock lk).turns.length → c'.links lk m = c.links lk m := fun m hm => by
    unfold McsView.links
    rw [hlock, List.getElem?_append_left hm]
  -- an entry of the longer queue is one of the old ones, or the new last one
  have hlast : ∀ j m, (c.queue lk ++ [n])[j]? = some m → j < (c.queue lk).length ∧
      (c.queue lk)[j]? = some m ∧ m ≠ n ∨ j = (c.queue lk).length ∧ m = n := by
    intro j m hj
    by_cases hlt : j < (c.queue lk).length
    · rw [List.getElem?_append_left hlt] at hj
      exact .inl ⟨hlt, hj, fun e => hnq (e ▸ List.mem_of_getElem? hj)⟩
    · have hj' := (List.getElem?_eq_some_iff.mp hj).1
      rw [List.length_append, List.length_singleton] at hj'
      obtain rfl : j = (c.queue lk).length := by omega
      rw [List.getElem?_concat_length, Option.some.injEq] at hj
      exact .inr ⟨rfl, hj.symm⟩
  constructor
  · intro j m rm hj hm
    rw [hqueue] at hj
    rcases hlast j m hj with ⟨hlt, hj, hmn⟩ | ⟨rfl, rfl⟩
    · rw [hrole m hmn] at hm
      refine (h.entry j m rm hj hm).congr (by rw [hlock]) (fun p hpos hp => ?_) (hcnt m)
        (fun p _ _ hp => by rw [hcnt]; exact hp) fun p _ hs => ?_
      · rw [hqueue, List.getElem?_append_left (by omega)]
        exact hp
      · have hpn : p ≠ n := by
          rintro rfl
          rw [hr] at hs
          simp [McsRole.isSpent] at hs
        rw [hrole p hpn, hcnt]
        exact ⟨hs, rfl⟩
    · rw [hself, McsRole.queued.injEq] at hm
      obtain rfl := hm.2
      have hz : c'.pos m = 0 := (hcnt m).trans hzero
      rcases hpush with ⟨p, -, rfl⟩ | ⟨-, rfl⟩ <;> exact hz
  · intro j m rm p hj hm hcounted hp
    rw [hqueue] at hj hp
    rcases hlast (j + 1) m hj with ⟨hlt, hj, hmn⟩ | ⟨-, rfl⟩
    · rw [hrole m hmn] at hm
      rw [List.getElem?_append_left (by omega)] at hp
      rw [hcnt]
      exact h.before j m rm p hj hm hcounted hp
    · rw [hself, McsRole.queued.injEq] at hm
      obtain rfl := hm.2
      rcases hpush with ⟨p, -, rfl⟩ | ⟨-, rfl⟩ <;> simp [QueueRole.isCounted] at hcounted
  · rw [hserved, hlock]
    exact h.serving
  · intro m hm
    rw [hlock] at hm
    have hle := hq.released_le
    rw [hgiven m (Nat.lt_of_lt_of_le hm hle)]
    exact h.past m hm
  · intro j m hj
    rw [hqueue] at hj
    rw [hlock, hcnt]
    rcases hlast j m hj with ⟨hlt, hj, -⟩ | ⟨rfl, rfl⟩
    · rw [hgiven _ (by show (c.lock lk).released + j < _; omega)]
      exact h.present j m hj
    · rw [if_pos hzero, McsView.given, hlock]
      show (_ ++ _)[(c.lock lk).released + (c.queue lk).length]?.bind _ = _
      rw [hlen, List.getElem?_concat_length]
      rfl
  · intro m x p hx
    by_cases hm : m < (c.lock lk).turns.length
    · rw [hlinks m hm] at hx
      rw [hlinks (m - 1) (by omega)]
      exact h.preds m x p hx
    · -- the node before it was the last of the queue
      have hx' := hx
      unfold McsView.links at hx'
      rw [hlock] at hx'
      have hml : m = (c.lock lk).turns.length := by
        obtain ⟨a, ha, -⟩ := Option.map_eq_some_iff.mp hx'
        have ha' := (List.getElem?_eq_some_iff.mp ha).1
        rw [List.length_append, List.length_singleton] at ha'
        omega
      subst hml
      rw [List.getElem?_concat_length, Option.map_some, Option.some.injEq, Prod.mk.injEq,
        hq.tail] at hx'
      have hp : (c.queue lk).getLast? = some p := hx'.2
      rw [List.getLast?_eq_getElem?] at hp
      have hpos := (List.getElem?_eq_some_iff.mp hp).1
      rw [queue_getElem?, show (c.lock lk).released + ((c.queue lk).length - 1) =
        (c.lock lk).turns.length - 1 by omega] at hp
      rw [hlinks _ (by omega), McsView.links, Option.map_map]
      exact ⟨by omega, hp⟩

/-- The queue becomes empty. -/
theorem clearTail (h : CountOk c lk) (hq : QueueOk c lk) (hr : c.role n = .queued lk r)
    (hhold : r.isHolding = true) (htail : (c.lock lk).tail = some n)
    (hcnt : c.pos n = (c.lock lk).released + 1) :
    CountOk ((c.setLock lk { c.lock lk with tail := none }).pop lk n) lk := by
  have hsingle := hq.queue_eq_singleton hr (QueueRole.not_isBehind_of_isHolding hhold) htail
  have hserved := hq.served_of_holding hr hhold
  generalize hc : (c.setLock lk { c.lock lk with tail := none }).pop lk n = c'
  have hlock : c'.lock lk = { c.lock lk with
      tail := none, released := (c.lock lk).released + 1 } := by
    subst hc
    simp [McsView.pop]
  have hlen := hq.queue_length
  rw [hsingle, List.length_singleton] at hlen
  -- the node was alone in the queue, so none is left
  have hempty : c'.queue lk = [] := by
    rw [McsView.queue, hlock, List.map_eq_nil_iff, List.drop_eq_nil_iff]
    exact Nat.le_of_eq hlen.symm
  have hgiven : ∀ m, c'.given lk m = c.given lk m := fun m => by
    unfold McsView.given
    rw [hlock]
  constructor
  · intro j m rm hj
    simp [hempty] at hj
  · intro j m rm p hj
    simp [hempty] at hj
  · have hserved' : c'.served lk = (c.lock lk).released + 1 := by
      unfold McsView.served
      rw [hempty, hlock]
      rfl
    rw [hserved', hlock, ← hserved]
    exact h.serving
  · intro m hm
    rw [hlock] at hm
    rw [hgiven]
    rcases Nat.lt_succ_iff_lt_or_eq.mp hm with hm | rfl
    · exact h.past m hm
    · -- what the last node was given is its position
      have hlast := h.present 0 n (by rw [hsingle]; rfl)
      rw [Nat.add_zero, if_neg (by omega), hcnt] at hlast
      exact hlast
  · intro j m hj
    simp [hempty] at hj
  · have hlinks : ∀ m, c'.links lk m = c.links lk m := fun m => by
      unfold McsView.links
      rw [hlock]
    simp only [hlinks]
    exact h.preds

/-- The first node hands the lock to the second, which may still want to read its `cnt`. -/
theorem hand {m : Tid × Nat} (h : CountOk c lk) (hq : QueueOk c lk)
    (hr : c.role n = .queued lk r) (hhold : r.isHolding = true)
    (hnext : (c.node n).lockNext = some m) (hcnt : c.pos n = (c.lock lk).released + 1)
    (hserved : ((c.setNode m { c.node m with wait := false }).pop lk n).served lk = c.served lk) :
    CountOk ((c.setNode m { c.node m with wait := false }).pop lk n) lk := by
  have hfront := QueueRole.not_isBehind_of_isHolding hhold
  obtain ⟨q, hqe⟩ := hq.queue_eq_cons hr hfront hnext
  have hone := hq.served_of_holding hr hhold
  generalize hc : (c.setNode m { c.node m with wait := false }).pop lk n = c' at hserved ⊢
  have hlock : c'.lock lk = { c.lock lk with released := (c.lock lk).released + 1 } := by
    subst hc
    simp [McsView.pop]
  have hshift : ∀ j : Nat, (c'.queue lk)[j]? = (c.queue lk)[j + 1]? := fun j => by
    rw [queue_getElem?, queue_getElem?, hlock]
    show (c.lock lk).turns[(c.lock lk).released + 1 + j]?.map _ = _
    rw [show (c.lock lk).released + 1 + j = (c.lock lk).released + (j + 1) by omega]
  have hnodup := hq.nodup
  rw [hqe] at hnodup
  have hself : c'.role n = .left := by subst hc; exact setRole_self
  have hrole : ∀ x, x ≠ n → c'.role x = c.role x := fun x hx => by subst hc; exact setRole_ne hx
  have hnode : ∀ x, c'.pos x = c.pos x := fun x => by
    subst hc
    exact setNode_pos rfl
  have hne : ∀ (j : Nat) x, (c.queue lk)[j + 1]? = some x → x ≠ n := by
    rintro j x hx rfl
    have hzero := hq.index_inj hx (k := 0) (by rw [hqe]; rfl)
    omega
  have hgiven : ∀ k, c'.given lk k = c.given lk k := fun k => by
    unfold McsView.given
    rw [hlock]
  -- a node counts on the one before it, which may now be out of the queue
  have hpred : ∀ j p, PredOk c lk (j + 1) p → (0 < j → (c'.queue lk)[j - 1]? = some p) ∧
      (j = 0 → p = n) := by
    intro j p hp
    have hb := hp.behind (Nat.succ_pos j)
    rw [Nat.add_sub_cancel] at hb
    refine ⟨fun hj => ?_, fun hj => ?_⟩
    · rw [hshift, Nat.sub_add_cancel hj]
      exact hb
    · subst hj
      rw [hqe] at hb
      exact (Option.some.inj hb).symm
  have hpredOk : ∀ j p, PredOk c lk (j + 1) p → PredOk c' lk j p := by
    intro j p hp
    obtain ⟨hpos, hzero⟩ := hpred j p hp
    refine ⟨hpos, fun hj => ?_⟩
    obtain rfl := hzero hj
    rw [hself, hnode, hlock, hcnt, hj]
    exact ⟨rfl, rfl, Nat.succ_ne_zero _⟩
  have hrel : ∀ j, (c'.lock lk).released + j + 1 = (c.lock lk).released + (j + 1) + 1 := by
    intro j
    rw [hlock]
    show (c.lock lk).released + 1 + j + 1 = _
    omega
  constructor
  · intro j x rx hj hx
    rw [hshift] at hj
    rw [hrole x (hne j x hj)] at hx
    have he := h.entry (j + 1) x rx hj hx
    cases rx with
    | linking p | firstRead => exact (hnode x).trans he
    | counting p => exact ⟨(hnode x).trans he.1, hpredOk j p he.2⟩
    | reading p => exact ⟨(hnode x).trans he.1, hpredOk j p he.2.1, by rw [hnode]; exact he.2.2⟩
    | counted v | firstGive v => exact ⟨(hnode x).trans he.1, by rw [hrel]; exact he.2⟩
    | waiting v | entering v | firstServe v =>
      exact ⟨by rw [hrel]; exact he.1, by rw [hnode, hrel]; exact he.2⟩
    | firstAgain | holds | closing | awaiting | handing | clearing y =>
      show c'.pos x = _
      rw [hnode, hrel]
      exact he
  · intro j x rx p hj hx hcounted hp
    rw [hshift] at hj hp
    rw [hrole x (hne (j + 1) x hj)] at hx
    rw [hnode]
    exact h.before (j + 1) x rx p hj hx hcounted hp
  · rw [hserved, hlock]
    exact h.serving
  · intro k hk
    rw [hlock] at hk
    rw [hgiven]
    rcases Nat.lt_succ_iff_lt_or_eq.mp hk with hk | rfl
    · exact h.past k hk
    · have hlast := h.present 0 n (by rw [hqe]; rfl)
      rw [Nat.add_zero, if_neg (by omega), hcnt] at hlast
      exact hlast
  · intro j x hj
    rw [hshift] at hj
    have hp := h.present (j + 1) x hj
    rw [hgiven, hnode, hlock]
    show c.given lk ((c.lock lk).released + 1 + j) = _
    rw [show (c.lock lk).released + 1 + j = (c.lock lk).released + (j + 1) by omega]
    exact hp
  · have hlinks : ∀ k, c'.links lk k = c.links lk k := fun k => by
      unfold McsView.links
      rw [hlock]
    simp only [hlinks]
    exact h.preds

end CountOk

/-! ## Every step keeps the positions -/

namespace McsCount

/-- A step at a node that is or will be in the queue of `lk`. -/
theorem of_queued (h : McsCount c) (hinv : McsInv c) (hlk : CountOk c' lk)
    (hlock : ∀ lk', lk' ≠ lk → c'.lock lk' = c.lock lk')
    (hrole : ∀ m, m ≠ n → c'.role m = c.role m)
    (hcnt : ∀ m, m ≠ n → c'.pos m = c.pos m)
    (hn : ∀ lk', lk' ≠ lk → ∀ r, c.role n ≠ .queued lk' r)
    (hspent : (c.role n).isSpent = false) : McsCount c' := by
  intro lk'
  by_cases hlk' : lk' = lk
  · exact hlk' ▸ hlk
  have hne : ∀ m ∈ c.queue lk', m ≠ n := by
    rintro m hm rfl
    obtain ⟨r, hr⟩ := ((hinv.queue lk').mem m).mp hm
    exact hn lk' hlk' r hr
  refine (h lk').frame (hlock lk' hlk') (fun m hm => hrole m (hne m hm))
    (fun m hm => hcnt m (hne m hm)) fun m r p _ _ _ hs => ?_
  have hp : p ≠ n := by
    rintro rfl
    rw [hspent] at hs
    simp at hs
  rw [hrole p hp, hcnt p hp]
  exact ⟨hs, rfl⟩

/-- A step at a node that is in no queue. -/
theorem of_unqueued (h : McsCount c) (hinv : McsInv c) (hlock : c'.lock = c.lock)
    (hrole : ∀ m, m ≠ n → c'.role m = c.role m)
    (hcnt : ∀ m, m ≠ n → c'.pos m = c.pos m)
    (hn : ∀ lk r, c.role n ≠ .queued lk r)
    (hspent : (∃ m lk r, c.role m = .queued lk r ∧ r.countsOn = some n) →
      (c.role n).isSpent = true → (c'.role n).isSpent = true ∧ c'.pos n = c.pos n) :
    McsCount c' := by
  intro lk
  have hne : ∀ m ∈ c.queue lk, m ≠ n := by
    rintro m hm rfl
    obtain ⟨r, hr⟩ := ((hinv.queue lk).mem m).mp hm
    exact hn lk r hr
  refine (h lk).frame (by rw [hlock]) (fun m hm => hrole m (hne m hm))
    (fun m hm => hcnt m (hne m hm)) fun m r p _ hr hp hs => ?_
  by_cases hpn : p = n
  · subst hpn
    exact hspent ⟨m, lk, r, hr, hp⟩ hs
  · rw [hrole p hpn, hcnt p hpn]
    exact ⟨hs, rfl⟩

variable [DecidableEq Tid]

/-- A queued node moves on, and nothing else changes. -/
theorem moveRole (h : McsCount c) (hinv : McsInv c) (hr : c.role n = .queued lk r)
    (hhold : r'.isHolding = r.isHolding)
    (hentry : ∀ j, (c.queue lk)[j]? = some n → CntOk c lk j n r → CntOk c lk j n r')
    (hcounted : r'.isCounted = true → r.isCounted = true ∨
      ∀ j p, (c.queue lk)[j + 1]? = some n → (c.queue lk)[j]? = some p → c.pos p ≠ 0) :
    McsCount (c.setRole n (.queued lk r')) := by
  refine h.of_queued hinv ((h lk).moveRole hr hhold hentry hcounted) (fun _ _ => rfl)
    (fun m hm => setRole_ne hm) (fun _ _ => rfl) (fun lk' hlk' r he => ?_) (by rw [hr]; rfl)
  rw [hr, McsRole.queued.injEq] at he
  exact hlk' he.1.symm

variable [DecidableEq Lid]

theorem giveCnt {cnt : BitVec 64} (h : McsCount c) (hinv : McsInv c) (hr : c.role n = .queued lk r)
    (hhold : r'.isHolding = r.isHolding)
    (hcnt : ∀ j, CntOk c lk j n r → cnt.toNat = (c.lock lk).released + j + 1)
    (hentry : ∀ c' j, CntOk c lk j n r → (c'.lock lk).released = (c.lock lk).released →
      c'.pos n = (c.lock lk).released + j + 1 → CntOk c' lk j n r')
    (hcounted : r'.isCounted = true → r.isCounted = true) :
    McsCount ((c.giveCnt lk n cnt).setRole n (.queued lk r')) := by
  refine h.of_queued hinv ((h lk).giveCnt (hinv.queue lk) hr hhold hcnt hentry hcounted)
    (fun lk' hlk' => setLock_ne hlk') (fun m hm => setRole_ne hm)
    (fun m hm => setNode_pos_ne hm) (fun lk' hlk' r he => ?_) (by rw [hr]; rfl)
  rw [hr, McsRole.queued.injEq] at he
  exact hlk' he.1.symm

theorem enter (h : McsCount c) (hinv : McsInv c) (hr : c.role n = .queued lk r)
    (hfront : r.isBehind = false) (hhold : r.isHolding = false) {now : BitVec 64}
    (hnow : now.toNat = (c.lock lk).released + 1) (hcnt : c.pos n = (c.lock lk).released + 1) :
    McsCount ((c.setLock lk { c.lock lk with nowServing := now }).enter lk n) := by
  refine h.of_queued (n := n) hinv
    ((h lk).enter (hinv.queue lk) hr hfront hhold hnow hcnt) (fun lk' hlk' => ?_)
    (fun m hm => setRole_ne hm) (fun _ _ => rfl) (fun lk' hlk' r he => ?_) (by rw [hr]; rfl)
  · simp [McsView.enter, McsView.record, hlk']
  · rw [hr, McsRole.queued.injEq] at he
    exact hlk' he.1.symm

/-- A step of `mcs_tm` keeps the positions, if it does not reset the `cnt` of a node that
    another thread is about to read, and the counters are large enough. -/
theorem step (h : McsCount c) (hinv : McsInv c) (hs : McsStep true c n c')
    (hkept : c.role n = .fresh 3 → ∀ m lk r, c.role m = .queued lk r → r.countsOn ≠ some n)
    (hroom : ∀ lk, (c.lock lk).turns.length < 2 ^ 63) : McsCount c' := by
  have hinv' := hinv.step hs
  have hserved := fun lk => hs.served hinv hinv' lk
  have hother : ∀ {lk r}, c.role n = .queued lk r →
      ∀ lk', lk' ≠ lk → ∀ r', c.role n ≠ .queued lk' r' := by
    intro lk r hr lk' hlk' r' he
    rw [hr, McsRole.queued.injEq] at he
    exact hlk' he.1.symm
  cases hs with
  | prepare hr =>
    exact h.of_unqueued hinv rfl (fun m hm => setRole_ne hm) (fun _ _ => rfl) (by simp [hr])
      fun _ _ => ⟨by simp [McsRole.isSpent], rfl⟩
  | initLockNext hr | initWait hr | initSpeculate hr =>
    exact h.of_unqueued hinv rfl (fun m hm => setRole_ne hm) (fun m _ => setNode_pos rfl)
      (by simp [hr]) fun _ _ => ⟨by simp [McsRole.isSpent], setNode_pos rfl⟩
  | initCnt hr =>
    -- nobody is about to read it
    exact h.of_unqueued hinv rfl (fun m hm => setRole_ne hm) (fun m hm => by simp [hm])
      (by simp [hr]) fun hread => by
        obtain ⟨m, lk, r, hm, hp⟩ := hread
        exact absurd hp (hkept hr m lk r hm)
  | giveUp hr =>
    exact h.of_unqueued hinv rfl (fun m hm => setRole_ne hm) (fun _ _ => rfl) (by simp [hr])
      fun _ _ => ⟨rfl.trans (by simp [McsRole.isSpent]), rfl⟩
  | @push lk hr _ =>
    have hsv : (c.push lk n (c.pushRole lk)).served lk = c.served lk := by
      rcases hserved lk with ⟨hsv, -⟩ | ⟨-, hnew, -⟩
      · exact hsv
      · rcases McsView.pushRole_cases c lk with ⟨p, -, hp⟩ | ⟨-, hp⟩ <;>
          simp [McsView.push, hp] at hnew
    have hzero : c.pos n = 0 := congrArg BitVec.toNat ((hinv.fresh n 4 hr).cnt (by omega))
    refine h.of_queued (n := n) hinv ((h lk).push (hinv.queue lk) hr hzero hsv)
      (fun lk' hlk' => ?_) (fun m hm => setRole_ne hm) (fun m _ => setNode_pos rfl)
      (fun lk' _ r he => ?_) (by rw [hr]; rfl)
    · simp [McsView.push, hlk']
    · rw [hr] at he
      simp at he
  | pushFirst _ htm => simp at htm
  | @link lk p hr =>
    obtain ⟨j, hj, he⟩ := (hinv.queue lk).exists_index hr
    have hmove : McsCount (c.setRole n (.queued lk (.counting p))) := by
      refine h.moveRole hinv hr rfl (fun i hi hc => ⟨hc, ?_⟩) (by simp [QueueRole.isCounted])
      obtain rfl := (hinv.queue lk).index_inj hi hj
      obtain ⟨hpos, hp⟩ := he.pred p rfl
      exact ⟨fun _ => hp, fun hz => by omega⟩
    exact fun lk' => (hmove lk').frame rfl (fun _ _ => rfl) (fun m _ => setNode_pos rfl)
      fun _ _ q _ _ _ hq => ⟨hq, setNode_pos rfl⟩
  | see hr hcnt =>
    exact h.moveRole hinv hr rfl (fun j _ he => ⟨he.1, he.2, pos_ne_zero hcnt⟩)
      (by simp [QueueRole.isCounted])
  | @read lk p hr =>
    refine h.moveRole hinv hr rfl (fun j hj he => ⟨he.1, ?_⟩) fun _ => .inr fun j q hj hq => ?_
    · have hpos : c.pos p + 1 = (c.lock lk).released + j + 1 := by
        rcases Nat.eq_zero_or_pos j with hz | hpos
        · exact (he.2.1.spent hz).2.1
        · -- the node before it is still in the queue
          have hq := he.2.1.behind hpos
          obtain ⟨r, hp⟩ := (hinv.queue lk).queued hq
          have hc := ((h lk).entry (j - 1) p r hq hp).cnt_eq
          have hne := he.2.2
          omega
      have hlt := (List.getElem?_eq_some_iff.mp hj).1
      have hlen := (hinv.queue lk).queue_length
      have hbound := hroom lk
      exact (BitVec.toNat_add_of_lt (show c.pos p + 1 < 2 ^ 64 by omega)).trans hpos
    · have he := (h lk).entry (j + 1) n _ hj hr
      have hp := he.2.1.behind (Nat.succ_pos j)
      rw [Nat.add_sub_cancel, hq, Option.some.injEq] at hp
      rw [hp]
      exact he.2.2
  | give hr =>
    refine h.giveCnt hinv hr rfl (fun j he => he.2) (fun c' j he hrel hn => ?_) fun _ => rfl
    refine ⟨?_, by rw [hrel]; exact hn⟩
    rw [hrel, Option.map_some, he.2]
  | @wake lk cnt hr hwait =>
    exact h.moveRole hinv hr rfl (fun j _ he => ⟨Option.some.inj he.1, he.2⟩)
      (by simp [QueueRole.isCounted])
  | @wakeHolds lk hr hwait =>
    obtain ⟨j, hj, -⟩ := (hinv.queue lk).exists_index hr
    have he := (h lk).entry j n _ hj hr
    exact absurd he.1 (by simp)
  | @serve lk cnt hr =>
    have he := (h lk).entry 0 n _ ((hinv.queue lk).first hr (.inl rfl)).1 hr
    exact h.enter hinv hr rfl rfl he.1 he.2
  | @firstRead lk hr =>
    refine h.moveRole hinv hr rfl (fun j hj he => ⟨he, ?_⟩) (by simp [QueueRole.isCounted])
    obtain ⟨hz, -⟩ := (hinv.queue lk).first hr (.inl rfl)
    obtain rfl := (hinv.queue lk).index_inj hj hz
    have hserving := (h lk).serving
    rw [QueueOk.served_of_first hz hr rfl] at hserving
    have hle := (hinv.queue lk).released_le
    have hbound := hroom lk
    refine (BitVec.toNat_add_of_lt ?_).trans (congrArg (· + 1) hserving)
    rw [hserving]
    exact show (c.lock lk).released + 1 < 2 ^ 64 by omega
  | firstGive hr =>
    exact h.giveCnt hinv hr rfl (fun j he => he.2)
      (fun c' j he hrel hn => hn.trans (by rw [hrel])) (by simp [QueueRole.isCounted])
  | @firstAgain lk hr =>
    refine h.moveRole hinv hr rfl (fun j hj he => ⟨?_, he⟩) (by simp [QueueRole.isCounted])
    obtain ⟨hz, -⟩ := (hinv.queue lk).first hr (.inl rfl)
    obtain rfl := (hinv.queue lk).index_inj hj hz
    rw [(h lk).serving, QueueOk.served_of_first hz hr rfl]
  | @firstServe lk now hr =>
    have he := (h lk).entry 0 n _ ((hinv.queue lk).first hr (.inl rfl)).1 hr
    have hlt : now.toNat + 1 < 2 ^ 64 := by
      have hnow := he.1
      have hle := (hinv.queue lk).released_le
      have hbound := hroom lk
      omega
    exact h.enter hinv hr rfl rfl ((BitVec.toNat_add_of_lt hlt).trans he.1) he.2
  | close hr | await hr | successor hr =>
    exact h.moveRole hinv hr rfl (fun j _ he => he) (by simp [QueueRole.isCounted])
  | next hr =>
    rcases hr with hr | hr <;>
      exact h.moveRole hinv hr rfl (fun j _ he => he) (by simp [QueueRole.isCounted])
  | @clearTail lk hr htail =>
    have he := (h lk).entry 0 n _ ((hinv.queue lk).first hr (.inl rfl)).1 hr
    refine h.of_queued (n := n) hinv ((h lk).clearTail (hinv.queue lk) hr rfl htail he)
      (fun lk' hlk' => ?_) (fun m hm => setRole_ne hm) (fun _ _ => rfl) (hother hr) (by rw [hr]; rfl)
    simp [McsView.pop, hlk']
  | halt x hr =>
    exact fun lk => (h lk).frame rfl (fun _ _ => rfl) (fun m _ => setNode_pos rfl)
      fun _ _ q _ _ _ hq => ⟨hq, setNode_pos rfl⟩
  | @hand lk m hr =>
    obtain ⟨hz, hez⟩ := (hinv.queue lk).first hr (.inl rfl)
    have he := (h lk).entry 0 n _ hz hr
    have hsv : ((c.setNode m { c.node m with wait := false }).pop lk n).served lk =
        c.served lk := by
      rcases hserved lk with ⟨hsv, -⟩ | ⟨-, hnew, -⟩
      · exact hsv
      · simp [McsView.pop] at hnew
    refine h.of_queued (n := n) hinv
      ((h lk).hand (hinv.queue lk) hr rfl (hez.clears m rfl) he hsv)
      (fun lk' hlk' => ?_) (fun x hx => setRole_ne hx) (fun x _ => setNode_pos rfl) (hother hr)
      (by rw [hr]; rfl)
    simp [McsView.pop, hlk']
  | drop hr =>
    exact h.of_unqueued hinv rfl (fun m hm => setRole_ne hm) (fun m _ => setNode_pos rfl)
      (by simp [hr]) fun _ _ => ⟨by simp [McsRole.isSpent], setNode_pos rfl⟩

end McsCount

end

end TxLock.Spec
