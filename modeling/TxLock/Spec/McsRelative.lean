import TxLock.Spec.McsCount
import TxLock.Spec.McsMove

/-!
# The positions of `mcs_tm` from node to node

Whatever the position is that a node takes when the node before it has left and been used
again, the nodes behind it count on from there: the position of a node is one more than
that of the node before it. A node only gets the lock with the position its turn says, as
the code asserts it, so while somebody has the lock every position in the queue is right.
Unlike `CountOk` this is modulo the width of the counters, and needs no condition on the run.

## Key results

- `RelOk.step`: a step keeps the positions, if a node gets the lock at its turn
- `RelOk.cnt_eq`: the positions while a node has the lock
- `mcs_relative`: this holds in every run
-/

namespace TxLock.Spec

open Native McsView

variable {Tid Lid : Type}

/-- The node `p` is queued for `lk` just before `n`. -/
def Before (c : McsView Tid Lid) (lk : Lid) (p n : Tid × Nat) : Prop :=
  (∃ r, c.role p = .queued lk r) ∧ (c.node p).turn + 1 = (c.node n).turn

/-- The position of a node, and of the node before it if that is in the queue. -/
def RelCnt (c : McsView Tid Lid) (lk : Lid) (n : Tid × Nat) : QueueRole Tid → Prop
  | .linking _ | .firstRead => (c.node n).cnt = 0
  | .counting p => (c.node n).cnt = 0 ∧ ((c.lock lk).released < (c.node n).turn → Before c lk p n)
  | .reading p => (c.node n).cnt = 0 ∧
      ((c.lock lk).released < (c.node n).turn → Before c lk p n ∧ (c.node p).cnt ≠ 0)
  | .counted cnt => (c.node n).cnt = 0 ∧ ((c.lock lk).released < (c.node n).turn →
      ∃ p, Before c lk p n ∧ (c.node p).cnt ≠ 0 ∧ cnt = (c.node p).cnt + 1)
  | .waiting cnt => cnt = some (c.node n).cnt
  | .entering cnt => cnt = (c.node n).cnt
  | .firstGive cnt => (c.node n).cnt = 0 ∧ cnt = BitVec.ofNat 64 ((c.lock lk).released + 1)
  | .firstServe now => now = BitVec.ofNat 64 (c.lock lk).released ∧
      (c.node n).cnt = BitVec.ofNat 64 ((c.lock lk).released + 1)
  | .firstAgain | .holds | .closing | .awaiting | .handing | .clearing _ =>
    (c.node n).cnt = BitVec.ofNat 64 ((c.lock lk).released + 1)

/-- The positions of the queue of `lk`, from node to node. -/
structure RelOk (c : McsView Tid Lid) (lk : Lid) : Prop where
  chain : ∀ p n r, Before c lk p n → c.role n = .queued lk r → (c.node n).cnt ≠ 0 →
    (c.node p).cnt ≠ 0 ∧ (c.node n).cnt = (c.node p).cnt + 1
  entry : ∀ n r, c.role n = .queued lk r → RelCnt c lk n r
  serving : (c.lock lk).nowServing = BitVec.ofNat 64 (c.served lk)

section

variable {c c' : McsView Tid Lid} {lk : Lid} {i j : Nat} {n m p : Tid × Nat} {r r' : QueueRole Tid}

namespace QueueOk

/-- The turns of the nodes in a queue tell them apart. -/
theorem turn_inj (h : QueueOk c lk) (hn : c.role n = .queued lk r) (hm : c.role m = .queued lk r')
    (ht : (c.node n).turn = (c.node m).turn) : n = m := by
  obtain ⟨j, hj, hej⟩ := h.exists_index hn
  obtain ⟨k, hk, hek⟩ := h.exists_index hm
  have hturn := hej.turn
  rw [ht, hek.turn] at hturn
  obtain rfl : k = j := by omega
  rw [hk] at hj
  exact (Option.some.inj hj).symm

/-- The turn of a queued node has not passed, and it is not still to come. -/
theorem turn_bounds (h : QueueOk c lk) (hn : c.role n = .queued lk r) :
    (c.lock lk).released ≤ (c.node n).turn ∧ (c.node n).turn < (c.lock lk).turns.length := by
  obtain ⟨j, hj, he⟩ := h.exists_index hn
  have hlt := (List.getElem?_eq_some_iff.mp hj).1
  have hlen := h.queue_length
  rw [he.turn]
  omega

theorem turn_first (h : QueueOk c lk) (hn : c.role n = .queued lk r) (hfront : r.isBehind = false) :
    (c.node n).turn = (c.lock lk).released := (h.first hn (.inl hfront)).2.turn

end QueueOk

/-- The positions of the other nodes after a step at `n`. -/
theorem RelCnt.congr (h : RelCnt c lk m r) (hcnt : (c'.node m).cnt = (c.node m).cnt)
    (hturn : (c'.node m).turn = (c.node m).turn)
    (hfirst : r.isBehind = false → (c'.lock lk).released = (c.lock lk).released)
    (hrel : (c.lock lk).released ≤ (c'.lock lk).released)
    (hbefore : ∀ p, (c'.lock lk).released < (c.node m).turn → Before c lk p m →
      Before c' lk p m ∧ ((c.node p).cnt ≠ 0 → (c'.node p).cnt = (c.node p).cnt)) :
    RelCnt c' lk m r := by
  -- what a role says about its predecessor is only said while the node is behind it
  cases r with
  | linking p => exact hcnt.trans h
  | counting p =>
    refine ⟨hcnt.trans h.1, fun hlt => ?_⟩
    rw [hturn] at hlt
    exact (hbefore p hlt (h.2 (by omega))).1
  | reading p =>
    refine ⟨hcnt.trans h.1, fun hlt => ?_⟩
    rw [hturn] at hlt
    obtain ⟨hb, hne⟩ := h.2 (by omega)
    obtain ⟨hb', hc⟩ := hbefore p hlt hb
    exact ⟨hb', by rw [hc hne]; exact hne⟩
  | counted v =>
    refine ⟨hcnt.trans h.1, fun hlt => ?_⟩
    rw [hturn] at hlt
    obtain ⟨p, hb, hne, hv⟩ := h.2 (by omega)
    obtain ⟨hb', hc⟩ := hbefore p hlt hb
    exact ⟨p, hb', by rw [hc hne]; exact hne, by rw [hc hne]; exact hv⟩
  | waiting v =>
    rw [RelCnt, hcnt]
    exact h
  | entering v => exact Eq.trans h hcnt.symm
  | firstRead => exact hcnt.trans h
  | firstGive v =>
    have hreleased := hfirst rfl
    rw [RelCnt, hcnt, hreleased]
    exact h
  | firstServe now =>
    have hreleased := hfirst rfl
    rw [RelCnt, hcnt, hreleased]
    exact h
  | firstAgain | holds | closing | awaiting | handing | clearing x =>
    have hreleased := hfirst rfl
    rw [RelCnt, hcnt, hreleased]
    exact h

namespace RelOk

/-- A step at the node `n`. It stays queued with its turn and its position, or has left. -/
theorem of_node (h : RelOk c lk) (hq : QueueOk c lk) (hrole : ∀ m, m ≠ n → c'.role m = c.role m)
    (hnode : ∀ m, m ≠ n → (c'.node m).cnt = (c.node m).cnt ∧ (c'.node m).turn = (c.node m).turn)
    (hrel : (c.lock lk).released ≤ (c'.lock lk).released)
    (hfirst : ∀ m r, m ≠ n → c.role m = .queued lk r → r.isBehind = false →
      (c'.lock lk).released = (c.lock lk).released)
    (hkeep : ∀ r, c.role n = .queued lk r → (c'.lock lk).released ≤ (c.node n).turn →
      (∃ r', c'.role n = .queued lk r') ∧ (c'.node n).turn = (c.node n).turn ∧
        ((c.node n).cnt ≠ 0 → (c'.node n).cnt = (c.node n).cnt))
    (hnew : ∀ r', c'.role n = .queued lk r' → (∃ r, c.role n = .queued lk r ∧
        (c'.lock lk).released ≤ (c.node n).turn) ∨
      (c'.node n).turn = (c.lock lk).turns.length ∧ (c'.node n).cnt = 0)
    (hcnt : ∀ p r r', c.role n = .queued lk r → c'.role n = .queued lk r' → Before c lk p n →
      (c.node n).cnt = 0 → (c'.node n).cnt ≠ 0 →
      (c.node p).cnt ≠ 0 ∧ (c'.node n).cnt = (c.node p).cnt + 1)
    (hentry : ∀ r', c'.role n = .queued lk r' → RelCnt c' lk n r')
    (hserving : (c'.lock lk).nowServing = BitVec.ofNat 64 (c'.served lk)) : RelOk c' lk := by
  constructor
  · rintro p m rm ⟨⟨rp, hp⟩, ht⟩ hm hc
    by_cases hmn : m = n
    · subst hmn
      have hpm : p ≠ m := by
        rintro rfl
        omega
      rw [hrole p hpm] at hp
      rw [(hnode p hpm).1]
      rw [(hnode p hpm).2] at ht
      rcases hnew rm hm with ⟨r, hr, hle⟩ | ⟨-, hz⟩
      · obtain ⟨-, hturn, hsame⟩ := hkeep r hr hle
        rw [hturn] at ht
        by_cases hz : (c.node m).cnt = 0
        · exact hcnt p r rm hr hm ⟨⟨rp, hp⟩, ht⟩ hz hc
        · rw [hsame hz]
          exact h.chain p m r ⟨⟨rp, hp⟩, ht⟩ hr hz
      · exact absurd hz hc
    · rw [hrole m hmn] at hm
      rw [(hnode m hmn).1] at hc ⊢
      rw [(hnode m hmn).2] at ht
      by_cases hpn : p = n
      · subst hpn
        rcases hnew rp hp with ⟨r, hr, hle⟩ | ⟨hlast, -⟩
        · obtain ⟨-, hturn, hsame⟩ := hkeep r hr hle
          rw [hturn] at ht
          obtain ⟨hne, hv⟩ := h.chain p m rm ⟨⟨r, hr⟩, ht⟩ hm hc
          rw [hsame hne]
          exact ⟨hne, hv⟩
        · -- nothing is queued behind a node that has just been queued
          have hlt := (hq.turn_bounds hm).2
          omega
      · rw [hrole p hpn] at hp
        rw [(hnode p hpn).2] at ht
        rw [(hnode p hpn).1]
        exact h.chain p m rm ⟨⟨rp, hp⟩, ht⟩ hm hc
  · intro m rm hm
    by_cases hmn : m = n
    · subst hmn
      exact hentry rm hm
    · rw [hrole m hmn] at hm
      refine (h.entry m rm hm).congr (hnode m hmn).1 (hnode m hmn).2 (hfirst m rm hmn hm) hrel ?_
      rintro p hlt ⟨⟨rp, hp⟩, ht⟩
      by_cases hpn : p = n
      · subst hpn
        obtain ⟨hq', hturn, hsame⟩ := hkeep rp hp (by omega)
        exact ⟨⟨hq', by rw [hturn, (hnode m hmn).2]; exact ht⟩, hsame⟩
      · obtain ⟨hpc, hpt⟩ := hnode p hpn
        exact ⟨⟨⟨rp, by rw [hrole p hpn]; exact hp⟩, by rw [hpt, (hnode m hmn).2]; exact ht⟩,
          fun _ => hpc⟩
  · exact hserving

end RelOk

end

/-! ## Every step keeps the positions from node to node -/

section

variable [DecidableEq Tid] [DecidableEq Lid] {c c' : McsView Tid Lid} {lk : Lid}
  {n m p : Tid × Nat} {r r' : QueueRole Tid}

/-- A step gives no position or turn to another node than its own. -/
theorem McsStep.node_ne {tm : Bool} (hs : McsStep tm c n c') (hm : m ≠ n) :
    (c'.node m).cnt = (c.node m).cnt ∧ (c'.node m).turn = (c.node m).turn := by
  have hset : ∀ {x : Tid × Nat} {v : McsNode Tid}, v.cnt = (c.node x).cnt →
      v.turn = (c.node x).turn → ((c.setNode x v).node m).cnt = (c.node m).cnt ∧
        ((c.setNode x v).node m).turn = (c.node m).turn := by
    intro x v hcnt hturn
    by_cases hx : m = x
    · subst hx
      rw [setNode_self]
      exact ⟨hcnt, hturn⟩
    · rw [setNode_ne hx]
      exact ⟨rfl, rfl⟩
  have hown : ∀ v, (c.setNode n v).node m = c.node m := fun v => setNode_ne hm
  cases hs with
  | prepare | giveUp | see | read | wake | wakeHolds | serve | firstRead | firstAgain
  | firstServe | close | next | await | successor | clearTail => exact ⟨rfl, rfl⟩
  | initLockNext | initWait | initSpeculate | initCnt | push | pushFirst | give | firstGive
  | drop => exact ⟨congrArg McsNode.cnt (hown _), congrArg McsNode.turn (hown _)⟩
  | link | halt | hand => exact hset rfl rfl

namespace RelOk

/-- A step at a node that is not in the queue of `lk`. -/
theorem other (h : RelOk c lk) (hinv : McsInv c) (hs : McsStep true c n c')
    (hn : ∀ r, c.role n ≠ .queued lk r) (hn' : ∀ r, c'.role n ≠ .queued lk r)
    (hlock : c'.lock lk = c.lock lk) : RelOk c' lk := by
  have hserved : c'.served lk = c.served lk := by
    rcases hs.served hinv (hinv.step hs) lk with ⟨hsame, -⟩ | ⟨-, hholds, -⟩
    · exact hsame
    · exact absurd hholds (hn' _)
  have hrel : (c'.lock lk).released = (c.lock lk).released := by rw [hlock]
  apply h.of_node (hinv.queue lk) (fun m hm => hs.role_ne hm) (fun m hm => hs.node_ne hm)
    (Nat.le_of_eq hrel.symm) (fun _ _ _ _ _ => hrel)
  · exact fun r hr => absurd hr (hn r)
  · exact fun r hr => absurd hr (hn' r)
  · exact fun _ r _ hr => absurd hr (hn r)
  · exact fun r hr => absurd hr (hn' r)
  · rw [hlock, hserved]
    exact h.serving

/-- A queued node moves on in its place. -/
theorem own (h : RelOk c lk) (hinv : McsInv c) (hs : McsStep true c n c')
    (hr : c.role n = .queued lk r) (hr' : c'.role n = .queued lk r')
    (hrel : (c'.lock lk).released = (c.lock lk).released)
    (hturn : (c'.node n).turn = (c.node n).turn)
    (hcnt : (c'.node n).cnt = (c.node n).cnt ∨ (c.node n).cnt = 0 ∧ ∀ p, Before c lk p n →
      (c.node p).cnt ≠ 0 ∧ (c'.node n).cnt = (c.node p).cnt + 1)
    (hserving : (c'.lock lk).nowServing = (c.lock lk).nowServing ∧ (r' = .holds → r = .holds) ∨
      (c'.lock lk).nowServing = (c.lock lk).nowServing + 1 ∧ r' = .holds ∧ r ≠ .holds)
    (hentry : RelCnt c lk n r → RelCnt c' lk n r') : RelOk c' lk := by
  have hkept : (c.node n).cnt ≠ 0 → (c'.node n).cnt = (c.node n).cnt := fun hne => by
    rcases hcnt with hsame | ⟨hz, -⟩
    · exact hsame
    · exact absurd hz hne
  apply h.of_node (hinv.queue lk) (fun m hm => hs.role_ne hm) (fun m hm => hs.node_ne hm)
    (Nat.le_of_eq hrel.symm) (fun _ _ _ _ _ => hrel)
  · exact fun _ _ _ => ⟨⟨r', hr'⟩, hturn, hkept⟩
  · exact fun _ _ => .inl ⟨r, hr, by rw [hrel]; exact ((hinv.queue lk).turn_bounds hr).1⟩
  · intro p _ _ _ _ hb hz hne
    rcases hcnt with hsame | ⟨-, hgive⟩
    · exact absurd (hsame.trans hz) hne
    · exact hgive p hb
  · intro r₁ hr₁
    rw [hr', McsRole.queued.injEq] at hr₁
    obtain rfl := hr₁.2
    exact hentry (h.entry n r hr)
  · have hbefore := h.serving
    have hroles : ∀ r₁ r₂ : QueueRole Tid,
        (McsRole.queued lk r₁ : McsRole Tid Lid) = .queued lk r₂ ↔ r₁ = r₂ := by simp
    rcases hs.served hinv (hinv.step hs) lk with ⟨hsame, hold⟩ | ⟨hmore, hnew, hold⟩
    · rw [hr, hr', hroles, hroles] at hold
      rcases hserving with ⟨hnow, -⟩ | ⟨-, he, hne⟩
      · rw [hnow, hsame, hbefore]
      · exact absurd (hold he) hne
    · rw [hr', hroles] at hnew
      rw [hr, Ne, hroles] at hold
      rcases hserving with ⟨-, he⟩ | ⟨hnow, -, -⟩
      · exact absurd (he hnew) hold
      · rw [hnow, hmore, hbefore, BitVec.ofNat_add]
        rfl

/-- The first node leaves the queue. -/
theorem leave (h : RelOk c lk) (hinv : McsInv c) (hs : McsStep true c n c')
    (hr : c.role n = .queued lk r) (hfront : r.isBehind = false) (hr' : c'.role n = .left)
    (hrel : (c'.lock lk).released = (c.lock lk).released + 1)
    (hnow : (c'.lock lk).nowServing = (c.lock lk).nowServing) : RelOk c' lk := by
  have hturn := (hinv.queue lk).turn_first hr hfront
  have hgone : ∀ r₁, c'.role n ≠ .queued lk r₁ := by simp [hr']
  apply h.of_node (hinv.queue lk) (fun m hm => hs.role_ne hm) (fun m hm => hs.node_ne hm)
  · omega
  · -- there is only one first node
    intro m r₁ hmn hm hf
    have hmt := (hinv.queue lk).turn_first hm hf
    exact absurd ((hinv.queue lk).turn_inj hm hr (hmt.trans hturn.symm)) hmn
  · intro r₁ _ hle
    omega
  · exact fun r₁ hr₁ => absurd hr₁ (hgone r₁)
  · exact fun _ _ r₁ _ hr₁ => absurd hr₁ (hgone r₁)
  · exact fun r₁ hr₁ => absurd hr₁ (hgone r₁)
  · have hserved : c'.served lk = c.served lk := by
      rcases hs.served hinv (hinv.step hs) lk with ⟨hsame, -⟩ | ⟨-, hholds, -⟩
      · exact hsame
      · exact absurd hholds (hgone _)
    rw [hnow, hserved]
    exact h.serving

/-- A new last node has no position. -/
theorem push (h : RelOk c lk) (hinv : McsInv c) (hr : c.role n = .fresh 4)
    (hs : McsStep true c n (c.push lk n (c.pushRole lk))) :
    RelOk (c.push lk n (c.pushRole lk)) lk := by
  have hpush := McsView.pushRole_cases c lk
  have hz := (hinv.fresh n 4 hr).cnt (Nat.le_refl 4)
  generalize c.pushRole lk = r' at hs hpush ⊢
  generalize hc : c.push lk n r' = c' at hs ⊢
  have hself : c'.role n = .queued lk r' := by subst hc; exact setRole_self
  have hnode : c'.node n = { c.node n with turn := (c.lock lk).turns.length } := by
    subst hc
    simp [McsView.push]
  have hcnt : (c'.node n).cnt = 0 := by rw [hnode]; exact hz
  have hrel : (c'.lock lk).released = (c.lock lk).released := by
    subst hc
    simp [McsView.push]
  have hold : ∀ r, c.role n ≠ .queued lk r := by simp [hr]
  apply h.of_node (hinv.queue lk) (fun m hm => hs.role_ne hm) (fun m hm => hs.node_ne hm)
    (Nat.le_of_eq hrel.symm) (fun _ _ _ _ _ => hrel)
  · exact fun r hr => absurd hr (hold r)
  · exact fun _ _ => .inr ⟨by rw [hnode], hcnt⟩
  · exact fun _ r _ hr => absurd hr (hold r)
  · intro r₁ hr₁
    rw [hself, McsRole.queued.injEq] at hr₁
    obtain rfl := hr₁.2
    rcases hpush with ⟨p, -, rfl⟩ | ⟨-, rfl⟩ <;> exact hcnt
  · have hnow : (c'.lock lk).nowServing = (c.lock lk).nowServing := by
      subst hc
      simp [McsView.push]
    have hserved : c'.served lk = c.served lk := by
      rcases hs.served hinv (hinv.step hs) lk with ⟨hsame, -⟩ | ⟨-, hholds, -⟩
      · exact hsame
      · rw [hself] at hholds
        rcases hpush with ⟨p, -, rfl⟩ | ⟨-, rfl⟩ <;> simp at hholds
    rw [hnow, hserved]
    exact h.serving

end RelOk

/-- The positions of every lock. -/
def McsRel (c : McsView Tid Lid) : Prop := ∀ lk, RelOk c lk

namespace McsRel

/-- A step at a node that is or will be in the queue of `lk`. -/
theorem of_queued (h : McsRel c) (hinv : McsInv c) (hs : McsStep true c n c')
    (hr : ∀ lk', lk' ≠ lk → ∀ r, c.role n ≠ .queued lk' r)
    (hr' : ∀ lk', lk' ≠ lk → ∀ r, c'.role n ≠ .queued lk' r)
    (hlock : ∀ lk', lk' ≠ lk → c'.lock lk' = c.lock lk') (hlk : RelOk c' lk) : McsRel c' := by
  intro lk'
  by_cases he : lk' = lk
  · exact he ▸ hlk
  · exact (h lk').other hinv hs (hr lk' he) (hr' lk' he) (hlock lk' he)

/-- A queued node moves on, and nothing else changes. -/
theorem moveRole (h : McsRel c) (hinv : McsInv c) (hr : c.role n = .queued lk r)
    (hs : McsStep true c n (c.setRole n (.queued lk r'))) (hholds : r' = .holds → r = .holds)
    (hentry : RelCnt c lk n r → RelCnt c lk n r') : McsRel (c.setRole n (.queued lk r')) := by
  have hown : RelOk (c.setRole n (.queued lk r')) lk := by
    apply (h lk).own hinv hs hr setRole_self rfl rfl (.inl rfl) (.inl ⟨rfl, hholds⟩)
    intro he
    refine (hentry he).congr rfl rfl (fun _ => rfl) (Nat.le_refl _) ?_
    rintro p - ⟨⟨rp, hp⟩, ht⟩
    -- the node before it is another one
    have hpn : p ≠ n := by
      rintro rfl
      omega
    exact ⟨⟨⟨rp, (setRole_ne hpn).trans hp⟩, ht⟩, fun _ => rfl⟩
  refine h.of_queued hinv hs (fun lk' he r₁ hr₁ => ?_) (fun lk' he r₁ hr₁ => ?_)
    (fun _ _ => rfl) hown
  · rw [hr, McsRole.queued.injEq] at hr₁
    exact he hr₁.1.symm
  · rw [setRole_self, McsRole.queued.injEq] at hr₁
    exact he hr₁.1.symm

/-- A node takes its position. -/
theorem giveCnt {cnt : BitVec 64} (h : McsRel c) (hinv : McsInv c) (hr : c.role n = .queued lk r)
    (hs : McsStep true c n ((c.giveCnt lk n cnt).setRole n (.queued lk r')))
    (hzero : RelCnt c lk n r → (c.node n).cnt = 0)
    (hbefore : ∀ p, RelCnt c lk n r → Before c lk p n →
      (c.node p).cnt ≠ 0 ∧ cnt = (c.node p).cnt + 1) (hholds : r' ≠ .holds)
    (hentry : ∀ c' : McsView Tid Lid, (c'.node n).cnt = cnt →
      (c'.lock lk).released = (c.lock lk).released → RelCnt c lk n r → RelCnt c' lk n r') :
    McsRel ((c.giveCnt lk n cnt).setRole n (.queued lk r')) := by
  have he := (h lk).entry n r hr
  generalize hc : (c.giveCnt lk n cnt).setRole n (.queued lk r') = c' at hs ⊢
  have hself : c'.role n = .queued lk r' := by subst hc; exact setRole_self
  have hcnt : (c'.node n).cnt = cnt := by subst hc; exact congrArg McsNode.cnt setNode_self
  have hturn : (c'.node n).turn = (c.node n).turn := by
    have hstored := congrArg McsNode.turn (setNode_self
      (c := c.record lk n fun a => { a with cnt := some cnt }) (n := n)
      (x := { c.node n with cnt := cnt }))
    subst hc
    exact hstored
  have hrel : (c'.lock lk).released = (c.lock lk).released := by
    subst hc
    simp [McsView.giveCnt, McsView.record]
  have hnow : (c'.lock lk).nowServing = (c.lock lk).nowServing := by
    subst hc
    simp [McsView.giveCnt, McsView.record]
  have hown : RelOk c' lk :=
    (h lk).own hinv hs hr hself hrel hturn
      (.inr ⟨hzero he, fun p hp => by rw [hcnt]; exact hbefore p he hp⟩)
      (.inl ⟨hnow, fun hh => absurd hh hholds⟩) (hentry c' hcnt hrel)
  refine h.of_queued hinv hs (fun lk' he r₁ hr₁ => ?_) (fun lk' he r₁ hr₁ => ?_)
    (fun lk' he => by subst hc; exact setLock_ne he) hown
  · rw [hr, McsRole.queued.injEq] at hr₁
    exact he hr₁.1.symm
  · rw [hself, McsRole.queued.injEq] at hr₁
    exact he hr₁.1.symm

/-- The first node gets the lock. -/
theorem enter {now : BitVec 64} (h : McsRel c) (hinv : McsInv c) (hr : c.role n = .queued lk r)
    (hs : McsStep true c n ((c.setLock lk { c.lock lk with nowServing := now }).enter lk n))
    (hholds : r ≠ .holds) (hnow : now = (c.lock lk).nowServing + 1)
    (hcnt : (c.node n).cnt = BitVec.ofNat 64 ((c.lock lk).released + 1)) :
    McsRel ((c.setLock lk { c.lock lk with nowServing := now }).enter lk n) := by
  generalize hc : (c.setLock lk { c.lock lk with nowServing := now }).enter lk n = c' at hs ⊢
  have hself : c'.role n = .queued lk .holds := by subst hc; exact setRole_self
  have hnode : c'.node = c.node := by subst hc; rfl
  have hrel : (c'.lock lk).released = (c.lock lk).released := by
    subst hc
    simp [McsView.enter, McsView.record]
  have hserving : (c'.lock lk).nowServing = now := by
    subst hc
    simp [McsView.enter, McsView.record]
  have hown : RelOk c' lk := by
    refine (h lk).own hinv hs hr hself hrel (by rw [hnode]) (.inl (by rw [hnode]))
      (.inr ⟨hserving.trans hnow, rfl, hholds⟩) fun _ => ?_
    show (c'.node n).cnt = _
    rw [hnode, hrel]
    exact hcnt
  refine h.of_queued hinv hs (fun lk' he r₁ hr₁ => ?_) (fun lk' he r₁ hr₁ => ?_)
    (fun lk' he => ?_) hown
  · rw [hr, McsRole.queued.injEq] at hr₁
    exact he hr₁.1.symm
  · rw [hself, McsRole.queued.injEq] at hr₁
    exact he hr₁.1.symm
  · subst hc
    simp [McsView.enter, McsView.record, he]

/-- A step keeps the positions from node to node, if a node that has been waiting gets the
    lock with the position after `now_serving`. -/
theorem step (h : McsRel c) (hinv : McsInv c) (hs : McsStep true c n c')
    (hserve : ∀ lk v, c.role n = .queued lk (.entering v) → c'.role n = .queued lk .holds →
      v = (c.lock lk).nowServing + 1) : McsRel c' := by
  have hs' := hs
  have hother : ∀ {lk r} {d : McsView Tid Lid}, d.role n = .queued lk r →
      ∀ lk', lk' ≠ lk → ∀ r', d.role n ≠ .queued lk' r' := by
    intro lk r d hr lk' he r' hr'
    rw [hr, McsRole.queued.injEq] at hr'
    exact he hr'.1.symm
  cases hs with
  | prepare hr | initLockNext hr | initWait hr | initSpeculate hr | initCnt hr | giveUp hr
  | drop hr => exact fun lk => (h lk).other hinv hs' (by simp [hr]) (by simp) rfl
  | @push lk hr _ =>
    exact h.of_queued hinv hs' (by simp [hr]) (hother setRole_self)
      (fun lk' he => by simp [McsView.push, he]) ((h lk).push hinv hr hs')
  | pushFirst _ htm => simp at htm
  | @link lk p hr =>
    have hcnt : ∀ m, ((c.setNode p { c.node p with lockNext := some n }).node m).cnt =
        (c.node m).cnt ∧ ((c.setNode p { c.node p with lockNext := some n }).node m).turn =
        (c.node m).turn := by
      intro m
      by_cases hm : m = p
      · subst hm
        simp
      · simp [hm]
    obtain ⟨j, hj, he⟩ := (hinv.queue lk).exists_index hr
    obtain ⟨hpos, hp⟩ := he.pred p rfl
    obtain ⟨rp, hrp⟩ := (hinv.queue lk).queued hp
    have hpe := (hinv.queue lk).entry (j - 1) p rp hp hrp
    have hpn : p ≠ n := by
      rintro rfl
      have hjj := (hinv.queue lk).index_inj hj hp
      omega
    refine h.of_queued hinv hs' (hother hr) (hother setRole_self) (fun _ _ => rfl) ?_
    refine (h lk).own hinv hs' hr setRole_self rfl (hcnt n).2 (.inl (hcnt n).1)
      (.inl ⟨rfl, (by simp)⟩) fun hz => ⟨(hcnt n).1.trans hz, fun _ => ⟨⟨rp, ?_⟩, ?_⟩⟩
    · exact (setRole_ne hpn).trans hrp
    · have hpt := hpe.turn
      have hnt := he.turn
      have hturn : (c.node p).turn + 1 = (c.node n).turn := by omega
      rw [← (hcnt p).2, ← (hcnt n).2] at hturn
      exact hturn
  | see hr hcnt =>
    exact h.moveRole hinv hr hs' (by simp) fun he => ⟨he.1, fun hlt => ⟨he.2 hlt, hcnt⟩⟩
  | read hr =>
    exact h.moveRole hinv hr hs' (by simp) fun he => ⟨he.1, fun hlt =>
      ⟨_, (he.2 hlt).1, (he.2 hlt).2, rfl⟩⟩
  | @give lk cnt hr =>
    refine h.giveCnt hinv hr hs' (fun he => he.1) (fun p he hb => ?_) (by simp) fun c' hn _ he => ?_
    · have hle := ((hinv.queue lk).turn_bounds hb.1.choose_spec).1
      have hbt := hb.2
      obtain ⟨p', hb', hne, hv⟩ := he.2 (by omega)
      have hbt' := hb'.2
      obtain ⟨⟨rp, hp⟩, -⟩ := hb
      obtain ⟨⟨rp', hp'⟩, -⟩ := hb'
      obtain rfl := (hinv.queue lk).turn_inj hp' hp (by omega)
      exact ⟨hne, hv⟩
    · exact congrArg some hn.symm
  | wake hr =>
    exact h.moveRole hinv hr hs' (by simp) fun he => Option.some.inj he
  | @wakeHolds lk hr =>
    have hwait : _ = some _ := (h lk).entry n _ hr
    cases hwait
  | @serve lk cnt hr =>
    have hnow := hserve lk cnt hr setRole_self
    have hentry : cnt = (c.node n).cnt := (h lk).entry n _ hr
    have hserving := (h lk).serving
    rw [QueueOk.served_of_first ((hinv.queue lk).first hr (.inl rfl)).1 hr rfl] at hserving
    refine h.enter hinv hr hs' (by simp) hnow ?_
    rw [← hentry, hnow, hserving, BitVec.ofNat_add]
    rfl
  | @firstRead lk hr =>
    refine h.moveRole hinv hr hs' (by simp) fun he => ⟨he, ?_⟩
    have hserving := (h lk).serving
    rw [QueueOk.served_of_first ((hinv.queue lk).first hr (.inl rfl)).1 hr rfl] at hserving
    rw [hserving, BitVec.ofNat_add]
    rfl
  | @firstGive lk cnt hr =>
    refine h.giveCnt hinv hr hs' (fun he => he.1) (fun p he hb => ?_) (by simp)
      fun c' hn hrel he => ?_
    · -- the first node has none before it
      have hle := ((hinv.queue lk).turn_bounds hb.1.choose_spec).1
      have hbt := hb.2
      have hturn := (hinv.queue lk).turn_first hr rfl
      omega
    · show (c'.node n).cnt = _
      rw [hn, hrel]
      exact he.2
  | @firstAgain lk hr =>
    refine h.moveRole hinv hr hs' (by simp) fun he => ⟨?_, he⟩
    have hserving := (h lk).serving
    rw [QueueOk.served_of_first ((hinv.queue lk).first hr (.inl rfl)).1 hr rfl] at hserving
    exact hserving
  | @firstServe lk now hr =>
    have he : _ ∧ _ := (h lk).entry n _ hr
    have hserving := (h lk).serving
    rw [QueueOk.served_of_first ((hinv.queue lk).first hr (.inl rfl)).1 hr rfl] at hserving
    exact h.enter hinv hr hs' (by simp) (by rw [he.1, hserving]) he.2
  | close hr | await hr | successor hr => exact h.moveRole hinv hr hs' (by simp) fun he => he
  | next hr =>
    rcases hr with hr | hr <;> exact h.moveRole hinv hr hs' (by simp) fun he => he
  | @clearTail lk hr =>
    refine h.of_queued hinv hs' (hother hr) (by simp [McsView.pop])
      (fun lk' he => by simp [McsView.pop, he]) ?_
    exact (h lk).leave hinv hs' hr rfl setRole_self (by simp [McsView.pop]) (by simp [McsView.pop])
  | @hand lk m hr =>
    refine h.of_queued hinv hs' (hother hr) (by simp [McsView.pop])
      (fun lk' he => by simp [McsView.pop, he]) ?_
    exact (h lk).leave hinv hs' hr rfl setRole_self (by simp [McsView.pop]) (by simp [McsView.pop])
  | @halt lk x hr =>
    have hcnt : ((c.setNode x { c.node x with speculate := false }).node n).cnt =
        (c.node n).cnt ∧ ((c.setNode x { c.node x with speculate := false }).node n).turn =
        (c.node n).turn := by
      by_cases hm : n = x
      · subst hm
        simp
      · simp [hm]
    refine h.of_queued hinv hs' (hother hr) (hother (d := c.setNode _ _) hr) (fun _ _ => rfl) ?_
    exact (h lk).own hinv hs' hr hr rfl hcnt.2 (.inl hcnt.1) (.inl ⟨rfl, id⟩)
      fun he => hcnt.1.trans he

end McsRel

/-! ## While a node has the lock -/

omit [DecidableEq Tid] [DecidableEq Lid] in
/-- A node that is queued right before another. -/
theorem QueueOk.before (h : QueueOk c lk) {j : Nat} (hp : (c.queue lk)[j]? = some p)
    (hn : (c.queue lk)[j + 1]? = some n) : Before c lk p n := by
  obtain ⟨rp, hrp⟩ := h.queued hp
  obtain ⟨rn, hrn⟩ := h.queued hn
  have hpt := (h.entry j p rp hp hrp).turn
  have hnt := (h.entry (j + 1) n rn hn hrn).turn
  exact ⟨⟨rp, hrp⟩, by omega⟩

namespace RelOk

omit [DecidableEq Tid] [DecidableEq Lid] in
/-- The nodes before one that has a position have theirs. -/
theorem cnt_ne_zero (h : RelOk c lk) (hq : QueueOk c lk) {i j : Nat}
    (hn : (c.queue lk)[j]? = some n) (hc : (c.node n).cnt ≠ 0) (hij : i ≤ j)
    (hm : (c.queue lk)[i]? = some m) : (c.node m).cnt ≠ 0 := by
  induction j generalizing n with
  | zero =>
    obtain rfl : i = 0 := by omega
    rw [hn, Option.some.injEq] at hm
    exact hm ▸ hc
  | succ j ih =>
    by_cases hi : i = j + 1
    · subst hi
      rw [hn, Option.some.injEq] at hm
      exact hm ▸ hc
    · obtain ⟨r, hr⟩ := hq.queued hn
      have hlt := (List.getElem?_eq_some_iff.mp hn).1
      obtain ⟨p, hp⟩ : ∃ p, (c.queue lk)[j]? = some p := ⟨_, List.getElem?_eq_getElem (by omega)⟩
      exact ih hp (h.chain _ n r (hq.before hp hn) hr hc).1 (by omega)

omit [DecidableEq Tid] [DecidableEq Lid] in
/-- While a node has the lock, the position of every node that has one is the one its turn
    says. -/
theorem cnt_eq (h : RelOk c lk) (hq : QueueOk c lk) {f : Tid × Nat}
    (hf : c.role f = .queued lk r) (hhold : r.isHolding = true) {j : Nat}
    (hn : (c.queue lk)[j]? = some n) (hc : (c.node n).cnt ≠ 0) :
    (c.node n).cnt = BitVec.ofNat 64 ((c.lock lk).released + j + 1) := by
  induction j generalizing n with
  | zero =>
    obtain ⟨hz, -⟩ := hq.first hf (.inl (QueueRole.not_isBehind_of_isHolding hhold))
    rw [hz, Option.some.injEq] at hn
    subst hn
    have he := h.entry f r hf
    cases r with
    | holds | closing | awaiting | handing | clearing x => exact he
    | linking | counting | reading | counted | waiting | entering | firstRead | firstGive
    | firstAgain | firstServe => simp [QueueRole.isHolding] at hhold
  | succ j ih =>
    obtain ⟨rn, hrn⟩ := hq.queued hn
    have hlt := (List.getElem?_eq_some_iff.mp hn).1
    obtain ⟨p, hp⟩ : ∃ p, (c.queue lk)[j]? = some p := ⟨_, List.getElem?_eq_getElem (by omega)⟩
    obtain ⟨hne, hv⟩ := h.chain _ n rn (hq.before hp hn) hrn hc
    rw [hv, ih hp hne, ← Nat.add_assoc, BitVec.ofNat_add (_ + 1) 1]
    rfl

omit [DecidableEq Tid] [DecidableEq Lid] in
/-- The nodes before one that has a position are linked up to it. -/
theorem lockNext_eq (h : RelOk c lk) (hq : QueueOk c lk) {i j : Nat}
    (hn : (c.queue lk)[j]? = some n) (hc : (c.node n).cnt ≠ 0) (hij : i < j)
    (hm : (c.queue lk)[i]? = some m) :
    ∃ x, (c.queue lk)[i + 1]? = some x ∧ (c.node m).lockNext = some x := by
  have hlt := (List.getElem?_eq_some_iff.mp hn).1
  obtain ⟨x, hx⟩ : ∃ x, (c.queue lk)[i + 1]? = some x := ⟨_, List.getElem?_eq_getElem (by omega)⟩
  obtain ⟨rm, hrm⟩ := hq.queued hm
  obtain ⟨rx, hrx⟩ := hq.queued hx
  refine ⟨_, hx, ?_⟩
  rw [(hq.entry i m rm hm hrm).next, hx, Option.filter_eq_some_iff]
  -- a node that is not linked yet has no position
  have hxc := h.cnt_ne_zero hq hn hc (by omega) hx
  have hlink : rx.isLinking = false := by
    cases rx with
    | linking p => exact absurd (h.entry _ _ hrx) hxc
    | counting | reading | counted | waiting | entering | firstRead | firstGive | firstAgain
    | firstServe | holds | closing | awaiting | handing | clearing => rfl
  refine ⟨rfl, ?_⟩
  simp [McsView.linked, hrx, McsRole.isLinking, hlink]

end RelOk

/-! ## In a run -/

/-- A step changes `now_serving` only at the first node of the queue, which gets the lock. -/
theorem McsStep.nowServing_eq {tm : Bool} (hs : McsStep tm c n c') (lk : Lid) :
    (c'.lock lk).nowServing = (c.lock lk).nowServing ∨
      ∃ r, c.role n = .queued lk r ∧ r.isBehind = false ∧ r.isHolding = false := by
  have hset : ∀ {lk' : Lid} {l : McsLock Tid}, l.nowServing = (c.lock lk').nowServing →
      ((c.setLock lk' l).lock lk).nowServing = (c.lock lk).nowServing := by
    intro lk' l hl
    by_cases he : lk = lk'
    · subst he
      rw [setLock_self, hl]
    · rw [setLock_ne he]
  cases hs with
  | prepare | initLockNext | initWait | initSpeculate | initCnt | giveUp | link | see | read
  | wake | firstRead | firstAgain | close | next | await | halt | successor | drop =>
    exact .inl rfl
  | push | give | firstGive | wakeHolds => exact .inl (hset rfl)
  | @clearTail lk' | @hand lk' | @pushFirst lk' =>
    by_cases he : lk = lk'
    · subst he
      simp [McsView.pop, McsView.push, McsView.enter, McsView.record]
    · simp [McsView.pop, McsView.push, McsView.enter, McsView.record, he]
  | @serve lk' cnt hr | @firstServe lk' now hr =>
    by_cases he : lk = lk'
    · subst he
      exact .inr ⟨_, hr, rfl, rfl⟩
    · simp [McsView.enter, McsView.record, he]

namespace McsState

/-- A thread about to write `now_serving` has checked it. -/
def ServeOk (s : McsState Tid Lid) : Prop :=
  ∀ t lk n cnt, (s.thread t).pc = .writeServing lk n cnt → cnt = (s.lock lk).nowServing + 1

variable {cfg : TmParams} {s s' : McsState Tid Lid} {a : McsAct Tid Lid} {t : Tid}

/-- A thread checks `now_serving` before it writes it. -/
theorem assertServing_step {i : Nat} {cnt : BitVec 64}
    (hpc : (s.thread (McsAct.tid a)).pc = .assertServing lk i cnt)
    (hs : s.step cfg true a = some s') :
    McsPc.role? (s'.thread (McsAct.tid a)).pc = some (i, .queued lk (.entering cnt)) := by
  simp only [McsState.step] at hs
  split at hs
  · simp at hs
  cases a with
  | run t =>
    have hpc : (s.thread t).pc = .assertServing lk i cnt := hpc
    simp only [McsState.runLock, McsState.runUnlock, hpc, Option.or_none] at hs
    split at hs <;> simp only [Option.some.injEq] at hs <;> subst hs
    · rw [McsAct.tid, goto_self]
      rfl
    · rw [McsAct.tid, hpc]
      rfl
  | lock t lk | trylock t lk => simp [McsState.callLock, show (s.thread t).pc = _ from hpc] at hs
  | unlock t lk => simp [McsState.callUnlock, show (s.thread t).pc = _ from hpc] at hs
  | htmStart t | htmAbort t => simp [McsState.abortStep, show (s.thread t).pc = _ from hpc] at hs

/-- A node that gets the lock after waiting gets it with the position after `now_serving`. -/
theorem serve_step (h : ServeOk s) (hs : s.step cfg true a = some s') {i : Nat} {cnt : BitVec 64}
    (hr : (McsState.view s).role (McsAct.tid a, i) = .queued lk (.entering cnt))
    (hr' : (McsState.view s').role (McsAct.tid a, i) = .queued lk .holds) :
    cnt = (s.lock lk).nowServing + 1 := by
  have hrole := role?_of_view hr nofun fun lk' => by simp
  cases hpc : (s.thread (McsAct.tid a)).pc <;> rw [hpc] at hrole <;>
    simp only [McsPc.role?, Option.some.injEq, Prod.mk.injEq, McsRole.queued.injEq,
      QueueRole.entering.injEq, reduceCtorEq, and_false] at hrole
  case writeServing =>
    obtain ⟨rfl, rfl, rfl⟩ := hrole
    exact h _ _ _ _ hpc
  case assertServing =>
    obtain ⟨rfl, rfl, rfl⟩ := hrole
    have hself : (McsState.view s').role (McsAct.tid a, _) = _ :=
      McsThread.role_self (assertServing_step hpc hs)
    rw [hself] at hr'
    simp at hr'

theorem ServeOk.step (h : ServeOk s) (hok : ThreadsOk s) (hinv : McsInv (McsState.view s))
    (hs : s.step cfg true a = some s') : ServeOk s' := by
  intro t lk n cnt hpc
  by_cases ht : t = McsAct.tid a
  · subst ht
    have hmove := step_move hs
    generalize McsAct.tid a = t at hpc hmove
    cases hmove with
    | assert _ hnow =>
      rw [goto_self] at hpc
      obtain ⟨rfl, rfl, rfl⟩ := McsPc.writeServing.inj hpc
      show _ = (s.lock _).nowServing + 1
      rw [hnow, BitVec.sub_add_cancel]
    | window | start | checkSpeculate | halting | haltFirst | haltEnd | haltAt | haltBreak | haltNext
    | successor =>
      rw [goto_self] at hpc
      exact nomatch hpc
    | checkWait =>
      rw [setThread_self] at hpc
      exact nomatch hpc
    | inside hpc' =>
      rw [hpc'] at hpc
      exact nomatch hpc
    | crash hpc' =>
      exact nomatch hpc'.symm.trans hpc
    | other hplain =>
      rw [hpc] at hplain
      exact nomatch hplain
  · rw [step_thread hs ht] at hpc
    have hnow : (s'.lock lk).nowServing = (s.lock lk).nowServing := by
      rcases view_step hok hs with hsame | ⟨i, hstep⟩
      · exact congrArg (fun c => (McsView.lock c lk).nowServing) hsame
      · rcases hstep.nowServing_eq lk with hsame | ⟨r, hr, hfront, -⟩
        · exact hsame
        · -- only one node is the first
          have hrole : (McsState.view s).role (t, n) = .queued lk (.entering cnt) :=
            McsThread.role_self (by rw [hpc]; rfl)
          have hturn := (hinv.queue lk).turn_first hr hfront
          have hturn' := (hinv.queue lk).turn_first hrole rfl
          have hnode := (hinv.queue lk).turn_inj hrole hr (hturn'.trans hturn.symm)
          exact absurd (congrArg Prod.fst hnode) ht
    rw [hnow]
    exact h t lk n cnt hpc

end McsState

/-- In every run of `mcs_tm` the positions are right from node to node. -/
theorem mcs_relative {cfg : TmParams} {C : McsState Tid Lid → McsAct Tid Lid → Prop} {tr}
    {s : McsState Tid Lid} (h : (mcs Tid Lid cfg true).Run C tr s) :
    McsRel (McsState.view s) ∧ McsState.ServeOk s := by
  refine System.Run.invariant_trace (I := fun _ s => McsRel (McsState.view s) ∧ McsState.ServeOk s)
    (fun s hs => ?_) (fun tr s a s' hr hi _ hs => ?_) h
  · obtain rfl : s = {} := hs
    have hrole : ∀ lk n r, (McsState.view ({} : McsState Tid Lid)).role n ≠ .queued lk r := by
      simp [McsState.view, McsThread.role, McsPc.role?, heldRole]
    exact ⟨fun lk => ⟨fun p n r _ hr => absurd hr (hrole lk n r), fun n r hr =>
      absurd hr (hrole lk n r), rfl⟩, fun t lk n cnt hpc => by simp at hpc⟩
  · obtain ⟨hok, hinv⟩ := mcs_invariant hr
    have hs : s.step cfg true a = some s' := hs
    refine ⟨?_, hi.2.step hok hinv hs⟩
    rcases McsState.view_step hok hs with hsame | ⟨i, hstep⟩
    · rw [hsame]
      exact hi.1
    · exact hi.1.step hinv hstep fun lk v hr hr' => McsState.serve_step hi.2 hs hr hr'

end

end TxLock.Spec
