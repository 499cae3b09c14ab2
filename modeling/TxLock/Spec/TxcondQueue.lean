import TxLock.Spec.TxcondNodes

/-!
# The queue of a condition variable and the hands of its wakers

Every node is in one place at a time (`NodePlace`): it is new, queued, in the hands of
the waker that took it, or posted. `NodeInv` connects the places with the links of the
queue, the lists the wakers walk through, and the roles of the threads.

## Key results

- `NodeInv.step`: every step of the abstract view keeps the invariant
- `nodeInv_of_run`: it holds in every state of every run of the code
-/

namespace TxLock.Spec

open Native

variable {Tid Lid : Type}

/-- Where a node is. -/
inductive NodePlace (Tid : Type) where
  | unborn
  | new
  | queued
  | hand (t : Tid)
  | spent
  deriving DecidableEq, Repr

/-- Not posted yet. -/
def NodePlace.unposted : NodePlace Tid → Prop
  | queued | hand _ => True
  | unborn | new | spent => False

/-- What a step of thread `t` does to the place of a node: nothing, or one step onwards. -/
inductive NodePlace.Moves (t : Tid) : NodePlace Tid → NodePlace Tid → Prop where
  | stay (p : NodePlace Tid) : Moves t p p
  | born : Moves t .unborn .new
  | enqueued : Moves t .new .queued
  | taken : Moves t .queued (.hand t)
  | posted : Moves t (.hand t) .spent

/-- A step of thread `t`, at first in role `r`, moves nodes onwards, and posts its own only. -/
structure NodesMoved (r : NodeRole) (t : Tid) (place place' : Nat → NodePlace Tid) : Prop where
  moves : ∀ n, (place n).Moves t (place' n)
  posts : ∀ n, place' n = .spent → place n = .spent ∨ r = .posts n ∨ r = .walks n

/-- The nodes `l` are those a thread has taken off the queue and not posted. -/
def HandOk (next : Nat → Option Nat) : NodeRole → List Nat → Prop
  | .posts n, l => l = [n]
  | .walks n, l => Linked next (some n) l
  | .steps n, l => Linked next (next n) l
  | .walked _ _ r, l => Linked next r l
  | .idle, l | .fills _ _, l | .sleeps _, l | .claims _, l | .frees _, l | .leaves _, l
  | .posted _, l | .discards _, l => l = []

/-- What a thread's role says about the places and the contents of nodes. -/
structure RoleOk (node : Nat → CondNode) (place : Nat → NodePlace Tid) (l : List Nat)
    (r : NodeRole) : Prop where
  hand : HandOk (fun n => (node n).next) r l
  fills : ∀ n b, r = .fills n b → place n = .new ∧ (b = true → node n = {})
  spent : ∀ n, r.spent? = some n → place n = .spent
  sleeps : ∀ n, r = .sleeps n →
    place n ≠ .new ∧ place n ≠ .unborn ∧ (node n).status ≠ .timeout

/-- A node that is not posted has an empty semaphore, and its wait is asleep or has
    returned with a timeout. -/
structure UnpostedOk (c : CondNodes Tid) (n : Nat) : Prop where
  sem : (c.node n).sem = 0
  owner : (c.node n).status = .waiting ∧ (∃ w, c.role w = .sleeps n) ∨
    (c.node n).status = .timeout ∧ c.returned n = some (-1)

/-- The queue `q`, the nodes `hands t` that thread `t` has taken and not posted, and the
    place of every node. -/
structure NodeInv (c : CondNodes Tid) (q : List Nat) (hands : Tid → List Nat)
    (place : Nat → NodePlace Tid) : Prop where
  queue : DLinked c.next c.prev c.head c.tail q
  mem_queue : ∀ n, n ∈ q ↔ place n = .queued
  mem_hand : ∀ t n, n ∈ hands t ↔ place n = .hand t
  unborn : ∀ n, place n = .unborn ↔ c.fresh ≤ n
  role : ∀ t, RoleOk c.node place (hands t) (c.role t)
  inj : ∀ t u n, (c.role t).waits? = some n → (c.role u).waits? = some n → t = u
  unposted : ∀ n, (place n).unposted → UnpostedOk c n

/-- Roles survive what other threads do. -/
theorem RoleOk.congr {node node' : Nat → CondNode} {place place' : Nat → NodePlace Tid}
    {l : List Nat} {r : NodeRole} (h : RoleOk node place l r)
    (hhand : ∀ n ∈ l, (node' n).next = (node n).next)
    (hspent : ∀ n, place n = .spent → place' n = .spent ∧ (node' n).next = (node n).next)
    (hfills : ∀ n b, r = .fills n b → place' n = place n ∧ (b = true → node' n = node n))
    (hsleeps : ∀ n, r = .sleeps n → place' n ≠ .new ∧ place' n ≠ .unborn ∧
      (node' n).status ≠ .timeout) : RoleOk node' place' l r where
  hand := by
    have hh := h.hand
    cases r with
    | walks n | walked n b x => exact hh.congr hhand
    | steps n =>
      have hn := (hspent n (h.spent n rfl)).2
      simp only [HandOk, hn]
      exact hh.congr hhand
    | _ => exact hh
  fills n b hr := by
    obtain ⟨hp, hn⟩ := hfills n b hr
    obtain ⟨hnew, hready⟩ := h.fills n b hr
    exact ⟨hp.trans hnew, fun hb => (hn hb).trans (hready hb)⟩
  spent n hn := (hspent n (h.spent n hn)).1
  sleeps := hsleeps

namespace RoleOk

variable {node : Nat → CondNode} {place : Nat → NodePlace Tid} {l : List Nat}

theorem idle (hl : l = []) : RoleOk node place l .idle :=
  ⟨hl, by simp, by simp [NodeRole.spent?], by simp⟩

/-- A role that has a posted node in hand. -/
theorem of_spent {r : NodeRole} {n : Nat} (hr : r.spent? = some n) (hn : place n = .spent)
    (hl : HandOk (fun m => (node m).next) r l) : RoleOk node place l r where
  hand := hl
  fills m b h := by rw [h] at hr; simp [NodeRole.spent?] at hr
  spent m hm := by
    rw [hr, Option.some.injEq] at hm
    exact hm ▸ hn
  sleeps m h := by rw [h] at hr; simp [NodeRole.spent?] at hr

/-- A broadcast that goes on with the list `l`. -/
theorem walk {p : Option Nat} (hl : Linked (fun m => (node m).next) p l) :
    RoleOk node place l (.walk p) := by
  cases p with
  | none => exact .idle (hl.eq_nil_iff.mpr rfl)
  | some n => exact ⟨hl, by simp [NodeRole.walk], by simp [NodeRole.walk, NodeRole.spent?],
      by simp [NodeRole.walk]⟩

end RoleOk

@[simp] theorem waits?_walk (p : Option Nat) : (NodeRole.walk p).waits? = none := by
  cases p <;> rfl

/-- The owner of an unposted node goes on as before. -/
theorem UnpostedOk.congr {c c' : CondNodes Tid} {n : Nat} (h : UnpostedOk c n)
    (hsem : (c'.node n).sem = (c.node n).sem) (hst : (c'.node n).status = (c.node n).status)
    (hret : c'.returned n = c.returned n)
    (hw : ∀ w, c.role w = .sleeps n → ∃ w', c'.role w' = .sleeps n) : UnpostedOk c' n where
  sem := hsem.trans h.sem
  owner := by
    rw [hst, hret]
    exact h.owner.imp_left fun ⟨hwait, w, hrole⟩ => ⟨hwait, hw w hrole⟩

namespace NodeInv

variable {c c' : CondNodes Tid} {q q' : List Nat} {hands hands' : Tid → List Nat}
  {place place' : Nat → NodePlace Tid}

/-- A node that has been enqueued and is not unposted is spent. -/
theorem spent_of_sleeps (h : NodeInv c q hands place) {t : Tid} {n : Nat}
    (hr : c.role t = .sleeps n) (hn : ¬ (place n).unposted) : place n = .spent := by
  obtain ⟨hnew, hborn, -⟩ := (h.role t).sleeps n hr
  cases hp : place n with
  | unborn => exact absurd hp hborn
  | new => exact absurd hp hnew
  | queued | hand u => exact absurd (by rw [hp]; trivial) hn
  | spent => rfl

/-- A waker takes nodes off the queue. -/
theorem moved_take (h : NodeInv c q hands place) {r : NodeRole} {t : Tid} {l : List Nat}
    (hl : ∀ m ∈ l, m ∈ q) :
    NodesMoved r t place fun m => if m ∈ l then .hand t else place m where
  moves n := by
    by_cases hn : n ∈ l
    · rw [if_pos hn, (h.mem_queue n).mp (hl n hn)]
      exact .taken
    · rw [if_neg hn]
      exact .stay _
  posts n hn := by
    split at hn
    · simp at hn
    · exact .inl hn

/-- A waker posts a node in its hands. -/
theorem moved_spend (h : NodeInv c q hands place) {r : NodeRole} {t : Tid} {k : Nat}
    (hk : k ∈ hands t) (hr : r = .posts k ∨ r = .walks k) :
    NodesMoved r t place (Function.update place k .spent) where
  moves n := by
    by_cases hn : n = k
    · subst hn
      rw [Function.update_self, (h.mem_hand t n).mp hk]
      exact .posted
    · rw [Function.update_of_ne hn]
      exact .stay _
  posts n hn := by
    by_cases hnk : n = k
    · subst hnk
      exact .inr hr
    · rw [Function.update_of_ne hnk] at hn
      exact .inl hn

end NodeInv

namespace NodesMoved

variable {place place' : Nat → NodePlace Tid} {r : NodeRole} {t : Tid}

theorem refl : NodesMoved r t place place := ⟨fun _ => .stay _, fun _ hn => .inl hn⟩

theorem of_update {n : Nat} {p : NodePlace Tid} (hp : (place n).Moves t p) (hne : p ≠ .spent) :
    NodesMoved r t place (Function.update place n p) where
  moves m := by
    by_cases hm : m = n
    · subst hm
      rwa [Function.update_self]
    · rw [Function.update_of_ne hm]
      exact .stay _
  posts m hm := by
    by_cases hmn : m = n
    · subst hmn
      rw [Function.update_self] at hm
      exact absurd hm hne
    · rw [Function.update_of_ne hmn] at hm
      exact .inl hm

/-- A posted node stays posted. -/
theorem spent (h : NodesMoved r t place place') {n : Nat} (hn : place n = .spent) :
    place' n = .spent := by
  have hm := h.moves n
  rw [hn] at hm
  generalize place' n = p at hm
  cases hm
  rfl

end NodesMoved

namespace NodeInv

variable {c c' : CondNodes Tid} {q q' : List Nat} {hands hands' : Tid → List Nat}
  {place place' : Nat → NodePlace Tid}

variable [DecidableEq Tid]

/-- A step of thread `t`: what it has to keep of the other threads' nodes, and what it has
    to establish of its own. -/
theorem move (h : NodeInv c q hands place) {t : Tid} {r : NodeRole}
    (hroles : c'.role = Function.update c.role t r)
    (hqueue : DLinked c'.next c'.prev c'.head c'.tail q')
    (hmemq : ∀ n, n ∈ q' ↔ place' n = .queued)
    (hmemh : ∀ u n, n ∈ hands' u ↔ place' n = .hand u)
    (hborn : ∀ n, place' n = .unborn ↔ c'.fresh ≤ n)
    (hhands : ∀ u, u ≠ t → hands' u = hands u)
    (hhand : ∀ u m, u ≠ t → place m = .hand u → (c'.node m).next = (c.node m).next)
    (hspent : ∀ m, place m = .spent →
      place' m = .spent ∧ (c'.node m).next = (c.node m).next)
    (hfills : ∀ u m b, u ≠ t → c.role u = .fills m b →
      place' m = place m ∧ c'.node m = c.node m)
    (hsleeps : ∀ u m, u ≠ t → c.role u = .sleeps m →
      place' m ≠ .new ∧ place' m ≠ .unborn ∧ (c'.node m).status ≠ .timeout)
    (hself : RoleOk c'.node place' (hands' t) r)
    (hinj : ∀ u m, u ≠ t → r.waits? = some m → (c.role u).waits? ≠ some m)
    (hun : ∀ m, (place' m).unposted → UnpostedOk c' m) : NodeInv c' q' hands' place' where
  queue := hqueue
  mem_queue := hmemq
  mem_hand := hmemh
  unborn := hborn
  role u := by
    rw [hroles]
    by_cases hu : u = t
    · subst hu
      rwa [Function.update_self]
    · rw [Function.update_of_ne hu, hhands u hu]
      -- the other threads keep their roles, and what these say of their nodes
      refine (h.role u).congr (fun m hm => hhand u m hu ((h.mem_hand u m).mp hm)) hspent
        (fun m b hr => ?_) fun m hr => hsleeps u m hu hr
      obtain ⟨hp, hn⟩ := hfills u m b hu hr
      exact ⟨hp, fun _ => hn⟩
  inj u v m hum hvm := by
    rw [hroles] at hum hvm
    -- two waits on one node: they were the same thread, or one of them is `t`
    by_cases hu : u = t <;> by_cases hv : v = t
    · rw [hu, hv]
    · subst hu
      rw [Function.update_self] at hum
      rw [Function.update_of_ne hv] at hvm
      exact absurd hvm (hinj v m hv hum)
    · subst hv
      rw [Function.update_self] at hvm
      rw [Function.update_of_ne hu] at hum
      exact absurd hum (hinj u m hu hvm)
    · rw [Function.update_of_ne hu] at hum
      rw [Function.update_of_ne hv] at hvm
      exact h.inj u v m hum hvm
  unposted := hun

/-- A step that touches one node at most, which is spent, and moves none. -/
theorem touch (h : NodeInv c q hands place) {t : Tid} {r : NodeRole} {n : Nat}
    (hn : place n = .spent) (hroles : c'.role = Function.update c.role t r)
    (hends : c'.head = c.head ∧ c'.tail = c.tail ∧ c'.fresh = c.fresh)
    (hother : ∀ m, m ≠ n → c'.node m = c.node m ∧ c'.returned m = c.returned m)
    (hlinks : (c'.node n).next = (c.node n).next ∧ (c'.node n).prev = (c.node n).prev)
    (hst : (c'.node n).status = .timeout → (c.node n).status = .timeout)
    (hwaits : ∀ m, r.waits? = some m → (c.role t).waits? = some m)
    (hself : RoleOk c'.node place (hands t) r)
    (hsleeps : ∀ m, c.role t = .sleeps m → m = n) : NodeInv c' q hands place := by
  have hnext : ∀ m, (c'.node m).next = (c.node m).next := fun m => by
    by_cases hm : m = n
    · rw [hm]; exact hlinks.1
    · rw [(hother m hm).1]
  have hprev : ∀ m, (c'.node m).prev = (c.node m).prev := fun m => by
    by_cases hm : m = n
    · rw [hm]; exact hlinks.2
    · rw [(hother m hm).1]
  -- the node is spent: neither a new nor an unposted one
  have hne : ∀ m, place m ≠ .spent → m ≠ n := fun m hm hmn => hm (hmn ▸ hn)
  refine h.move hroles ?_ h.mem_queue h.mem_hand ?_ (fun _ _ => rfl) (fun _ m _ _ => hnext m)
    (fun m hm => ⟨hm, hnext m⟩) (fun u m b hu hr => ?_) (fun u m hu hr => ?_) hself
    (fun u m hu hr => ?_) fun m hm => ?_
  · rw [hends.1, hends.2.1]
    exact h.queue.congr (fun m _ => hnext m) fun m _ => hprev m
  · rw [hends.2.2]; exact h.unborn
  · refine ⟨rfl, (hother m (hne m ?_)).1⟩
    rw [((h.role u).fills m b hr).1]
    simp
  · obtain ⟨hnew, hborn, htimeout⟩ := (h.role u).sleeps m hr
    refine ⟨hnew, hborn, fun ht => htimeout ?_⟩
    by_cases hm : m = n
    · subst hm; exact hst ht
    · rwa [(hother m hm).1] at ht
  · exact fun hu' => hu (h.inj u t m hu' (hwaits m hr))
  · have hmn : m ≠ n := hne m fun hp => by rw [hp] at hm; exact hm
    refine (h.unposted m hm).congr ?_ ?_ (hother m hmn).2 fun w hw => ⟨w, ?_⟩
    · rw [(hother m hmn).1]
    · rw [(hother m hmn).1]
    · have hwt : w ≠ t := fun hwt => hmn (hsleeps m (hwt ▸ hw))
      rw [hroles, Function.update_of_ne hwt]
      exact hw

/-- The same for a step that writes the node, and no link of it. -/
theorem touchNode (h : NodeInv c q hands place) {t : Tid} {r : NodeRole} {n : Nat} {x : CondNode}
    (hn : place n = .spent)
    (hlinks : x.next = (c.node n).next ∧ x.prev = (c.node n).prev)
    (hst : x.status = .timeout → (c.node n).status = .timeout)
    (hwaits : ∀ m, r.waits? = some m → (c.role t).waits? = some m)
    (hself : RoleOk (Function.update c.node n x) place (hands t) r)
    (hsleeps : ∀ m, c.role t = .sleeps m → m = n) :
    NodeInv ((c.setNode n x).setRole t r) q hands place := by
  refine h.touch hn rfl ⟨rfl, rfl, rfl⟩ (fun m hm => ⟨Function.update_of_ne hm _ _, rfl⟩) ?_ ?_
    hwaits hself hsleeps
  · simpa [CondNodes.setRole, CondNodes.setNode] using hlinks
  · simpa [CondNodes.setRole, CondNodes.setNode] using hst

/-- The same for a step that writes no node. -/
theorem touchRole (h : NodeInv c q hands place) {t : Tid} {r : NodeRole} {n : Nat}
    (hn : place n = .spent) (hwaits : ∀ m, r.waits? = some m → (c.role t).waits? = some m)
    (hself : RoleOk c.node place (hands t) r) (hsleeps : ∀ m, c.role t = .sleeps m → m = n) :
    NodeInv (c.setRole t r) q hands place :=
  h.touch hn rfl ⟨rfl, rfl, rfl⟩ (fun _ _ => ⟨rfl, rfl⟩) ⟨rfl, rfl⟩ id hwaits hself hsleeps

/-- A waker posts the first of the nodes in its hands, or fails to. -/
theorem spend (h : NodeInv c q hands place) {t : Tid} {r : NodeRole} {n : Nat} {l : List Nat}
    (hl : hands t = n :: l) (hn : n ∉ l) (hw : (c.role t).waits? = none)
    (hroles : c'.role = Function.update c.role t r)
    (hends : c'.head = c.head ∧ c'.tail = c.tail ∧ c'.fresh = c.fresh ∧ c'.returned = c.returned)
    (hother : ∀ m, m ≠ n → c'.node m = c.node m)
    (hlinks : (c'.node n).next = (c.node n).next ∧ (c'.node n).prev = (c.node n).prev)
    (hst : (c'.node n).status = (c.node n).status) (hwaits : r.waits? = none)
    (hself : RoleOk c'.node (Function.update place n .spent) l r) :
    NodeInv c' q (Function.update hands t l) (Function.update place n .spent) := by
  have hpn : place n = .hand t := (h.mem_hand t n).mp (hl ▸ List.mem_cons_self)
  have hnext : ∀ m, (c'.node m).next = (c.node m).next := fun m => by
    by_cases hm : m = n
    · rw [hm]; exact hlinks.1
    · rw [hother m hm]
  have hprev : ∀ m, (c'.node m).prev = (c.node m).prev := fun m => by
    by_cases hm : m = n
    · rw [hm]; exact hlinks.2
    · rw [hother m hm]
  -- only the first node in the hand moves, and no link is written
  have hplace : ∀ m, m ≠ n → Function.update place n .spent m = place m :=
    fun m hm => Function.update_of_ne hm _ _
  refine h.move hroles ?_ (fun m => ?_) (fun u m => ?_) (fun m => ?_)
    (fun u hu => Function.update_of_ne hu _ _) (fun _ m _ _ => hnext m)
    (fun m hm => ⟨?_, hnext m⟩) (fun u m b hu hr => ?_) (fun u m hu hr => ?_) (by simpa using hself)
    (fun u m _ hr => by simp [hwaits] at hr) fun m hm => ?_
  · rw [hends.1, hends.2.1]
    exact h.queue.congr (fun m _ => hnext m) fun m _ => hprev m
  · by_cases hm : m = n
    · subst hm; simp [h.mem_queue, hpn]
    · rw [hplace m hm]; exact h.mem_queue m
  · -- the others have none of the nodes in the hand of `t`
    by_cases hu : u = t
    · subst hu
      rw [Function.update_self]
      by_cases hm : m = n
      · subst hm; simp [hn]
      · rw [hplace m hm, ← h.mem_hand, hl]
        simp [hm]
    · rw [Function.update_of_ne hu, h.mem_hand]
      by_cases hm : m = n
      · subst hm
        simp only [hpn, NodePlace.hand.injEq, Function.update_self, reduceCtorEq, iff_false]
        exact fun htu => hu htu.symm
      · rw [hplace m hm]
  · rw [hends.2.2.1]
    by_cases hm : m = n
    · subst hm
      rw [Function.update_self, ← h.unborn, hpn]
      simp
    · rw [hplace m hm]; exact h.unborn m
  · by_cases hmn : m = n
    · subst hmn; exact Function.update_self ..
    · rw [hplace m hmn]; exact hm
  · have hm : m ≠ n := fun hm => by
      have := ((h.role u).fills m b hr).1
      rw [hm, hpn] at this
      simp at this
    exact ⟨hplace m hm, hother m hm⟩
  · obtain ⟨hnew, hborn, htimeout⟩ := (h.role u).sleeps m hr
    by_cases hm : m = n
    · subst hm
      exact ⟨by simp, by simp, by rwa [hst]⟩
    · rw [hplace m hm, hother m hm]
      exact ⟨hnew, hborn, htimeout⟩
  · have hmn : m ≠ n := fun hmn => by
      subst hmn
      simp [NodePlace.unposted] at hm
    rw [hplace m hmn] at hm
    refine (h.unposted m hm).congr ?_ ?_ ?_ fun w hw' => ⟨w, ?_⟩
    · rw [hother m hmn]
    · rw [hother m hmn]
    · rw [hends.2.2.2]
    · have hwt : w ≠ t := fun hwt => by
        rw [hwt] at hw'
        simp [hw', NodeRole.waits?] at hw
      rw [hroles, Function.update_of_ne hwt]
      exact hw'

/-- A wait's node is filled in, or given up, before anybody else knows it. -/
theorem prepare (h : NodeInv c q hands place) {t : Tid} {r : NodeRole} {n : Nat} {b : Bool}
    (hr : c.role t = .fills n b) (hroles : c'.role = Function.update c.role t r)
    (hends : c'.head = c.head ∧ c'.tail = c.tail ∧ c'.fresh = c.fresh)
    (hother : ∀ m, m ≠ n → c'.node m = c.node m ∧ c'.returned m = c.returned m)
    (hr' : r = .idle ∨ r = .fills n true ∧ c'.node n = {}) : NodeInv c' q hands place := by
  have hpn := ((h.role t).fills n b hr).1
  -- the node is new, so it is none of those the others have
  have hne : ∀ m, place m ≠ .new → m ≠ n := fun m hm hmn => hm (hmn ▸ hpn)
  have hwn : (c.role t).waits? = some n := by rw [hr]; rfl
  have hhand : hands t = [] := by simpa [hr, HandOk] using (h.role t).hand
  refine h.move hroles ?_ h.mem_queue h.mem_hand ?_ (fun _ _ => rfl) (fun u m _ hm => ?_)
    (fun m hm => ⟨hm, ?_⟩) (fun u m b' hu hr => ⟨rfl, (hother m fun hm => ?_).1⟩)
    (fun u m hu hr => ?_) ?_ (fun u m hu hr hu' => ?_) fun m hm => ?_
  · rw [hends.1, hends.2.1]
    have hq : ∀ m ∈ q, m ≠ n := fun m hm => hne m (by rw [(h.mem_queue m).mp hm]; simp)
    refine h.queue.congr (fun m hm => ?_) fun m hm => ?_
    · simp only [CondNodes.next, (hother m (hq m hm)).1]
    · simp only [CondNodes.prev, (hother m (hq m hm)).1]
  · rw [hends.2.2]; exact h.unborn
  · rw [(hother m (hne m (by rw [hm]; simp))).1]
  · rw [(hother m (hne m (by rw [hm]; simp))).1]
  · exact hu (h.inj u t n (by rw [hr, hm]; rfl) hwn)
  · obtain ⟨hnew, hborn, htimeout⟩ := (h.role u).sleeps m hr
    rw [(hother m (hne m hnew)).1]
    exact ⟨hnew, hborn, htimeout⟩
  · rcases hr' with rfl | ⟨rfl, hnode⟩
    · exact .idle hhand
    · refine ⟨hhand, ?_, by simp [NodeRole.spent?], by simp⟩
      rintro m b' ⟨⟩
      exact ⟨hpn, fun _ => hnode⟩
  · rcases hr' with rfl | ⟨rfl, -⟩
    · simp [NodeRole.waits?] at hr
    · simp only [NodeRole.waits?, Option.some.injEq] at hr
      exact hu (h.inj u t n (hr ▸ hu') hwn)
  · have hmn := hne m fun hp => by rw [hp] at hm; exact hm
    refine (h.unposted m hm).congr ?_ ?_ (hother m hmn).2 fun w hw => ⟨w, ?_⟩
    · rw [(hother m hmn).1]
    · rw [(hother m hmn).1]
    · have hwt : w ≠ t := fun hwt => by
        rw [hwt, hr] at hw
        simp at hw
      rw [hroles, Function.update_of_ne hwt]
      exact hw

/-- A waker takes the nodes `l` off the queue. -/
theorem take (h : NodeInv c q hands place) {t : Tid} {r : NodeRole} {l : List Nat}
    (hidle : c.role t = .idle) (hroles : c'.role = Function.update c.role t r)
    (hl : ∀ m ∈ l, m ∈ q) (hmem : ∀ m, m ∈ q' ↔ m ∈ q ∧ m ∉ l)
    (hqueue : DLinked c'.next c'.prev c'.head c'.tail q')
    (hfresh : c'.fresh = c.fresh ∧ c'.returned = c.returned)
    (hother : ∀ m, m ∉ q → c'.node m = c.node m)
    (hnode : ∀ m, (c'.node m).sem = (c.node m).sem ∧ (c'.node m).status = (c.node m).status)
    (hself : RoleOk c'.node (fun m => if m ∈ l then .hand t else place m) l r)
    (hwaits : r.waits? = none) :
    NodeInv c' q' (Function.update hands t l) (fun m => if m ∈ l then .hand t else place m) := by
  have hhand : hands t = [] := by simpa [hidle, HandOk] using (h.role t).hand
  have hqueued : ∀ m ∈ l, place m = .queued := fun m hm => (h.mem_queue m).mp (hl m hm)
  -- only nodes of the queue are written, for their links
  have hout : ∀ m, place m ≠ .queued → m ∉ q := fun m hm hq => hm ((h.mem_queue m).mp hq)
  have hplace : ∀ m, place m ≠ .queued →
      (if m ∈ l then NodePlace.hand t else place m) = place m := fun m hm => by
    rw [if_neg fun hml => hm (hqueued m hml)]
  refine h.move hroles hqueue (fun m => ?_) (fun u m => ?_) (fun m => ?_)
    (fun u hu => Function.update_of_ne hu _ _) (fun u m _ hm => ?_) (fun m hm => ?_)
    (fun u m b _ hr => ?_) (fun u m _ hr => ?_) (by simpa using hself)
    (fun u m _ hr => by simp [hwaits] at hr) fun m hm => ?_
  · rw [hmem, h.mem_queue]
    by_cases hm : m ∈ l <;> simp [hm]
  · by_cases hu : u = t
    · subst hu
      -- the waker had nothing in its hand before
      have hno : ∀ m, place m ≠ .hand u := fun m hm => by
        have := (h.mem_hand u m).mpr hm
        simp [hhand] at this
      by_cases hm : m ∈ l <;> simp [hm, hno]
    · rw [Function.update_of_ne hu, h.mem_hand]
      by_cases hm : m ∈ l
      · simp only [hm, hqueued m hm, reduceCtorEq, ↓reduceIte, NodePlace.hand.injEq, false_iff]
        exact fun htu => hu htu.symm
      · simp [hm]
  · rw [hfresh.1, ← h.unborn]
    by_cases hm : m ∈ l
    · simp [hm, hqueued m hm]
    · simp [hm]
  · rw [hother m (hout m (by rw [hm]; simp))]
  · have hne : place m ≠ .queued := by rw [hm]; simp
    exact ⟨(hplace m hne).trans hm, by rw [hother m (hout m hne)]⟩
  · have hne : place m ≠ .queued := by rw [((h.role u).fills m b hr).1]; simp
    exact ⟨hplace m hne, hother m (hout m hne)⟩
  · obtain ⟨hnew, hborn, htimeout⟩ := (h.role u).sleeps m hr
    rw [(hnode m).2]
    refine ⟨?_, ?_, htimeout⟩ <;> split <;> simp_all
  · have hun : (place m).unposted := by
      by_cases hml : m ∈ l
      · rw [hqueued m hml]; trivial
      · simpa [hml] using hm
    refine (h.unposted m hun).congr (hnode m).1 (hnode m).2 (by rw [hfresh.2]) fun w hw => ⟨w, ?_⟩
    have hwt : w ≠ t := fun hwt => by
      rw [hwt, hidle] at hw
      simp at hw
    rw [hroles, Function.update_of_ne hwt]
    exact hw

/-- A wait enqueues its node. -/
theorem enqueue (h : NodeInv c q hands place) {t : Tid} {n : Nat}
    (hr : c.role t = .fills n true) (hroles : c'.role = Function.update c.role t (.sleeps n))
    (hqueue : DLinked c'.next c'.prev c'.head c'.tail (q ++ [n]))
    (hfresh : c'.fresh = c.fresh ∧ c'.returned = c.returned)
    (hother : ∀ m, m ∉ q → m ≠ n → c'.node m = c.node m)
    (hnode : ∀ m, (c'.node m).sem = (c.node m).sem ∧ (c'.node m).status = (c.node m).status) :
    NodeInv c' (q ++ [n]) hands (Function.update place n .queued) := by
  -- the node is new: it is in no list, and only its waiter knows it
  obtain ⟨hpn, hready⟩ := (h.role t).fills n true hr
  have hcell := hready rfl
  have hhand : hands t = [] := by simpa [hr, HandOk] using (h.role t).hand
  have hwn : (c.role t).waits? = some n := by rw [hr]; rfl
  have hne : ∀ m, place m ≠ .new → m ≠ n := fun m hm hmn => hm (hmn ▸ hpn)
  have hplace : ∀ m, m ≠ n → Function.update place n .queued m = place m :=
    fun m hm => Function.update_of_ne hm _ _
  -- what is neither queued nor the new node is not written
  have hsame : ∀ m, place m ≠ .queued → m ≠ n → c'.node m = c.node m :=
    fun m hm hmn => hother m (fun hq => hm ((h.mem_queue m).mp hq)) hmn
  refine h.move hroles hqueue (fun m => ?_) (fun u m => ?_) (fun m => ?_) (fun _ _ => rfl)
    (fun u m _ hm => ?_) (fun m hm => ?_) (fun u m b hu hru => ?_) (fun u m hu hru => ?_) ?_
    (fun u m hu hru hu' => ?_) fun m hm => ?_
  · by_cases hm : m = n
    · subst hm; simp
    · rw [hplace m hm, ← h.mem_queue]; simp [hm]
  · rw [h.mem_hand]
    by_cases hm : m = n
    · subst hm; simp [hpn]
    · rw [hplace m hm]
  · rw [hfresh.1, ← h.unborn]
    by_cases hm : m = n
    · subst hm; simp [hpn]
    · rw [hplace m hm]
  · rw [hsame m (by rw [hm]; simp) (hne m (by rw [hm]; simp))]
  · have hmn := hne m (by rw [hm]; simp)
    exact ⟨(hplace m hmn).trans hm, by rw [hsame m (by rw [hm]; simp) hmn]⟩
  · have hmn : m ≠ n := fun hmn => hu (h.inj u t n (by rw [hru, hmn]; rfl) hwn)
    have hmp := ((h.role u).fills m b hru).1
    exact ⟨hplace m hmn, hsame m (by rw [hmp]; simp) hmn⟩
  · obtain ⟨hnew, hborn, htimeout⟩ := (h.role u).sleeps m hru
    rw [hplace m (hne m hnew), (hnode m).2]
    exact ⟨hnew, hborn, htimeout⟩
  · refine ⟨hhand, by simp, by simp [NodeRole.spent?], ?_⟩
    rintro m ⟨⟩
    rw [Function.update_self, (hnode n).2, hcell]
    simp
  · simp only [NodeRole.waits?, Option.some.injEq] at hru
    exact hu (h.inj u t n (hru ▸ hu') hwn)
  · by_cases hmn : m = n
    · subst hmn
      refine ⟨by rw [(hnode m).1, hcell], .inl ⟨by rw [(hnode m).2, hcell], t, ?_⟩⟩
      rw [hroles, Function.update_self]
    · rw [hplace m hmn] at hm
      refine (h.unposted m hm).congr (hnode m).1 (hnode m).2 (by rw [hfresh.2]) fun w hw => ⟨w, ?_⟩
      have hwt : w ≠ t := fun hwt => by
        rw [hwt, hr] at hw
        simp at hw
      rw [hroles, Function.update_of_ne hwt]
      exact hw

/-- `malloc` returns a node that was not in use. -/
theorem alloc (h : NodeInv c q hands place) {t : Tid} (hr : c.role t = .idle) :
    NodeInv ({ c with fresh := c.fresh + 1 }.setRole t (.fills c.fresh false)) q hands
      (Function.update place c.fresh .new) := by
  have hpf : place c.fresh = .unborn := (h.unborn _).mpr (Nat.le_refl _)
  have hhand : hands t = [] := by simpa [hr, HandOk] using (h.role t).hand
  have hne : ∀ m, place m ≠ .unborn → m ≠ c.fresh := fun m hm hmn => hm (hmn ▸ hpf)
  have hplace : ∀ m, m ≠ c.fresh → Function.update place c.fresh .new m = place m :=
    fun m hm => Function.update_of_ne hm _ _
  refine h.move rfl h.queue (fun m => ?_) (fun u m => ?_) (fun m => ?_) (fun _ _ => rfl)
    (fun _ _ _ _ => rfl) (fun m hm => ⟨?_, rfl⟩) (fun u m b _ hru => ⟨?_, rfl⟩)
    (fun u m _ hru => ?_) ?_ (fun u m _ hru hu' => ?_) fun m hm => ?_
  · by_cases hm : m = c.fresh
    · subst hm; simp [h.mem_queue, hpf]
    · rw [hplace m hm]; exact h.mem_queue m
  · by_cases hm : m = c.fresh
    · subst hm; simp [h.mem_hand, hpf]
    · rw [hplace m hm]; exact h.mem_hand u m
  · by_cases hm : m = c.fresh
    · subst hm; simp [CondNodes.setRole]
    · rw [hplace m hm, h.unborn]
      simp only [CondNodes.setRole]
      omega
  · rw [hplace m (hne m (by rw [hm]; simp)), hm]
  · exact hplace m (hne m (by rw [((h.role u).fills m b hru).1]; simp))
  · obtain ⟨hnew, hborn, htimeout⟩ := (h.role u).sleeps m hru
    rw [hplace m (hne m hborn)]
    exact ⟨hnew, hborn, htimeout⟩
  · refine ⟨hhand, ?_, by simp [NodeRole.spent?], by simp⟩
    rintro m b ⟨⟩
    simp
  · -- a node that some wait uses has been born
    simp only [NodeRole.waits?, Option.some.injEq] at hru
    subst hru
    cases hrole : c.role u with
    | fills n b =>
      rw [hrole, NodeRole.waits?, Option.some.injEq] at hu'
      have := ((h.role u).fills n b hrole).1
      simp [hu', hpf] at this
    | sleeps n =>
      rw [hrole, NodeRole.waits?, Option.some.injEq] at hu'
      exact ((h.role u).sleeps n hrole).2.1 (hu' ▸ hpf)
    | claims n | frees n | leaves n =>
      rw [hrole, NodeRole.waits?, Option.some.injEq] at hu'
      have := (h.role u).spent n (by rw [hrole]; rfl)
      simp [hu', hpf] at this
    | _ => simp [hrole, NodeRole.waits?] at hu'
  · have hmn : m ≠ c.fresh := fun hmn => by
      subst hmn
      simp [NodePlace.unposted] at hm
    rw [hplace m hmn] at hm
    refine (h.unposted m hm).congr rfl rfl rfl fun w hw => ⟨w, ?_⟩
    have hwt : w ≠ t := fun hwt => by
      rw [hwt, hr] at hw
      simp at hw
    simp only [CondNodes.setRole]
    rw [Function.update_of_ne hwt]
    exact hw

/-- A wait times out: its node stays where it is, in the queue or with a waker. -/
theorem expire (h : NodeInv c q hands place) {t : Tid} {n : Nat} (hr : c.role t = .sleeps n) :
    NodeInv (((c.setStatus n .timeout).ret n (-1)).setRole t .idle) q hands place := by
  have hhand : hands t = [] := by simpa [hr, HandOk] using (h.role t).hand
  have hwn : (c.role t).waits? = some n := by rw [hr]; rfl
  have hother : ∀ m, m ≠ n → Function.update c.node n
      { c.node n with status := .timeout } m = c.node m := fun m hm => Function.update_of_ne hm _ _
  -- the timeout is written into the status, so the links stay
  have hnext : ∀ m, (Function.update c.node n
      { c.node n with status := .timeout } m).next = (c.node m).next := fun m => by
    by_cases hm : m = n
    · subst hm; simp
    · rw [hother m hm]
  have hprev : ∀ m, (Function.update c.node n
      { c.node n with status := .timeout } m).prev = (c.node m).prev := fun m => by
    by_cases hm : m = n
    · subst hm; simp
    · rw [hother m hm]
  have hne : ∀ u m, u ≠ t → (c.role u).waits? = some m → m ≠ n :=
    fun u m hu hm hmn => hu (h.inj u t n (hmn ▸ hm) hwn)
  refine h.move rfl (h.queue.congr (fun m _ => hnext m) fun m _ => hprev m) h.mem_queue h.mem_hand
    h.unborn (fun _ _ => rfl) (fun _ m _ _ => hnext m) (fun m hm => ⟨hm, hnext m⟩)
    (fun u m b hu hru => ⟨rfl, hother m (hne u m hu (by rw [hru]; rfl))⟩) (fun u m hu hru => ?_)
    (.idle hhand) (fun u m _ hm => by simp [NodeRole.waits?] at hm) fun m hm => ?_
  · obtain ⟨hnew, hborn, htimeout⟩ := (h.role u).sleeps m hru
    refine ⟨hnew, hborn, ?_⟩
    show (Function.update c.node n { c.node n with status := .timeout } m).status ≠ .timeout
    rw [hother m (hne u m hu (by rw [hru]; rfl))]
    exact htimeout
  · by_cases hmn : m = n
    · subst hmn
      have hok := h.unposted m hm
      refine ⟨?_, .inr ⟨?_, ?_⟩⟩
      · simpa [CondNodes.setRole, CondNodes.ret, CondNodes.setStatus, CondNodes.setNode] using hok.sem
      · simp [CondNodes.setRole, CondNodes.ret, CondNodes.setStatus, CondNodes.setNode]
      · simp [CondNodes.setRole, CondNodes.ret]
    · refine (h.unposted m hm).congr ?_ ?_ ?_ fun w hw => ⟨w, ?_⟩
      · simp [CondNodes.setRole, CondNodes.ret, CondNodes.setStatus, CondNodes.setNode, hmn]
      · simp [CondNodes.setRole, CondNodes.ret, CondNodes.setStatus, CondNodes.setNode, hmn]
      · simp [CondNodes.setRole, CondNodes.ret, CondNodes.setStatus, CondNodes.setNode, hmn]
      · have hwt : w ≠ t := fun hwt => by
          rw [hwt, hr, NodeRole.sleeps.injEq] at hw
          exact hmn hw.symm
        simp only [CondNodes.setRole]
        rw [Function.update_of_ne hwt]
        exact hw

/-- A signal dequeues the node at one end. -/
theorem dequeue (h : NodeInv c q hands place) {t : Tid} {n : Nat} (hidle : c.role t = .idle)
    (hroles : c'.role = Function.update c.role t (.posts n))
    (hmem : ∀ m, m ∈ q' ↔ m ∈ q ∧ m ≠ n) (hn : n ∈ q)
    (hqueue : DLinked c'.next c'.prev c'.head c'.tail q')
    (hfresh : c'.fresh = c.fresh ∧ c'.returned = c.returned)
    (hother : ∀ m, m ∉ q → c'.node m = c.node m)
    (hnode : ∀ m, (c'.node m).sem = (c.node m).sem ∧ (c'.node m).status = (c.node m).status) :
    NodeInv c' q' (Function.update hands t [n])
      (fun m => if m ∈ [n] then .hand t else place m) := by
  refine h.take hidle hroles (fun m hm => ?_) (fun m => ?_) hqueue hfresh hother hnode
    ⟨rfl, by simp, by simp [NodeRole.spent?], by simp⟩ rfl
  · rw [List.mem_singleton.mp hm]; exact hn
  · rw [hmem, List.mem_singleton]

/-- A wait enqueues its node behind the last one. -/
theorem enqueueLast (h : NodeInv c q hands place) {t : Tid} {n l : Nat}
    (hr : c.role t = .fills n true) (htail : c.tail = some l) :
    NodeInv (((c.setPrev n (some l)).setNext l (some n)).setEnds c.head (some n)
      |>.setRole t (.sleeps n)) (q ++ [n]) hands (Function.update place n .queued) := by
  obtain ⟨hnew, hready⟩ := (h.role t).fills n true hr
  have hcell := hready rfl
  have hnq : n ∉ q := fun hn => by simp [(h.mem_queue n).mp hn] at hnew
  have hqueue := h.queue
  rw [htail] at hqueue
  -- the last node is in the queue, the new one is not
  have hln : l ≠ n := fun hln => hnq (hln ▸ hqueue.mem_last)
  refine h.enqueue hr rfl ?_ ⟨rfl, rfl⟩ (fun m hm hmn => ?_) fun m => ?_
  · refine hqueue.push hnq (fun m hm hml => ?_) ?_ ?_ (fun m hm => ?_) ?_
    · have hmn : m ≠ n := fun hmn => hnq (hmn ▸ hm)
      simp [CondNodes.next, CondNodes.setRole, CondNodes.setEnds, CondNodes.setNext,
        CondNodes.setPrev, CondNodes.setNode, hml, hmn]
    · simp [CondNodes.next, CondNodes.setRole, CondNodes.setEnds, CondNodes.setNext,
        CondNodes.setNode]
    · simp [CondNodes.next, CondNodes.setRole, CondNodes.setEnds, CondNodes.setNext,
        CondNodes.setPrev, CondNodes.setNode, hln.symm, hcell]
    · have hmn : m ≠ n := fun hmn => hnq (hmn ▸ hm)
      by_cases hml : m = l
      · subst hml
        simp [CondNodes.prev, CondNodes.setRole, CondNodes.setEnds, CondNodes.setNext,
          CondNodes.setPrev, CondNodes.setNode, hmn]
      · simp [CondNodes.prev, CondNodes.setRole, CondNodes.setEnds, CondNodes.setNext,
          CondNodes.setPrev, CondNodes.setNode, hml, hmn]
    · simp [CondNodes.prev, CondNodes.setRole, CondNodes.setEnds, CondNodes.setNext,
        CondNodes.setPrev, CondNodes.setNode, hln.symm]
  · have hml : m ≠ l := fun hml => hm (hml ▸ hqueue.mem_last)
    simp [CondNodes.setRole, CondNodes.setEnds, CondNodes.setNext, CondNodes.setPrev,
      CondNodes.setNode, hml, hmn]
  · by_cases hml : m = l
    · subst hml
      simp [CondNodes.setRole, CondNodes.setEnds, CondNodes.setNext, CondNodes.setPrev,
        CondNodes.setNode, hln]
    · by_cases hmn : m = n
      · subst hmn
        simp [CondNodes.setRole, CondNodes.setEnds, CondNodes.setNext, CondNodes.setPrev,
          CondNodes.setNode, hml]
      · simp [CondNodes.setRole, CondNodes.setEnds, CondNodes.setNext, CondNodes.setPrev,
          CondNodes.setNode, hml, hmn]

theorem mem_tail_iff {l : List Nat} {n : Nat} (hn : n ∉ l) (m : Nat) :
    m ∈ l ↔ m ∈ n :: l ∧ m ≠ n := by
  simp only [List.mem_cons]
  constructor
  · intro hm
    exact ⟨.inr hm, fun hmn => hn (hmn ▸ hm)⟩
  · rintro ⟨rfl | hm, hne⟩
    · exact absurd rfl hne
    · exact hm

theorem mem_reverse_iff {l : List Nat} {n : Nat} (hl : q.reverse = n :: l) (hn : n ∉ l) (m : Nat) :
    m ∈ l.reverse ↔ m ∈ q ∧ m ≠ n := by
  have hq : m ∈ q ↔ m ∈ n :: l := by rw [← hl, List.mem_reverse]
  rw [List.mem_reverse, hq]
  exact mem_tail_iff hn m

/-- Every step keeps the invariant, and moves nodes onwards. -/
theorem step (h : NodeInv c q hands place) {t : Tid} {e : NodeEvent} (hs : NodeStep c t e c') :
    ∃ q' hands' place', NodeInv c' q' hands' place' ∧
      NodesMoved (c.role t) t place place' := by
  have hrole := h.role t
  have hkeep : NodesMoved (c.role t) t place place := .refl
  cases hs with
  | alloc hr =>
    refine ⟨q, hands, _, h.alloc hr, .of_update ?_ (by simp)⟩
    rw [(h.unborn _).mpr (Nat.le_refl _)]
    exact .born
  | @fill n hr =>
    refine ⟨q, hands, place, h.prepare hr rfl ⟨rfl, rfl, rfl⟩ (fun m hm => ⟨?_, rfl⟩)
      (.inr ⟨rfl, ?_⟩), hkeep⟩
    · exact Function.update_of_ne hm _ _
    · exact Function.update_self ..
  | @initFails n hr =>
    refine ⟨q, hands, place, h.prepare hr rfl ⟨rfl, rfl, rfl⟩ (fun m hm => ⟨rfl, ?_⟩) (.inl rfl),
      hkeep⟩
    exact Function.update_of_ne hm _ _
  | @enqueueFirst n hr htail =>
    have hq : q = [] := h.queue.last_eq_none_iff.mp htail
    obtain ⟨-, hready⟩ := hrole.fills n true hr
    have hcell := hready rfl
    subst hq
    refine ⟨_, _, _, h.enqueue hr rfl ?_ ⟨rfl, rfl⟩ (fun _ _ _ => rfl) (fun _ => ⟨rfl, rfl⟩),
      .of_update ?_ (by simp)⟩
    · exact .single (by simp [CondNodes.next, CondNodes.setRole, CondNodes.setEnds, hcell])
        (by simp [CondNodes.prev, CondNodes.setRole, CondNodes.setEnds, hcell])
    · rw [(hrole.fills n true hr).1]
      exact .enqueued
  | @enqueueLast n l hr htail =>
    refine ⟨_, _, _, h.enqueueLast hr htail, .of_update ?_ (by simp)⟩
    rw [(hrole.fills n true hr).1]
    exact .enqueued
  | @wake n hr hsem =>
    have hp : place n = .spent := h.spent_of_sleeps hr fun hu => hsem (h.unposted n hu).sem
    have hnil : hands t = [] := by simpa [hr, HandOk] using hrole.hand
    exact ⟨q, hands, place, h.touchNode hp ⟨rfl, rfl⟩ id (by simp [NodeRole.waits?, hr])
      (.of_spent rfl hp hnil) (by simp [hr]), hkeep⟩
  | @expire n hr hst => exact ⟨q, hands, place, h.expire hr, hkeep⟩
  | @late n hr hst =>
    -- the status of an unposted node is waiting or timeout
    have hp : place n = .spent := h.spent_of_sleeps hr fun hu => by
      rcases (h.unposted n hu).owner with ho | ho
      · exact hst ho.1
      · exact (hrole.sleeps n hr).2.2 ho.1
    have hnil : hands t = [] := by simpa [hr, HandOk] using hrole.hand
    exact ⟨q, hands, place, h.touchRole hp (by simp [NodeRole.waits?, hr]) (.of_spent rfl hp hnil)
      (by simp [hr]), hkeep⟩
  | @claim n hr hst | @free n hr | @yield n hr hst =>
    have hp : place n = .spent := hrole.spent n (by rw [hr]; rfl)
    have hnil : hands t = [] := by simpa [hr, HandOk] using hrole.hand
    refine ⟨q, hands, place, ?_, hkeep⟩
    first
      | exact h.touchNode hp ⟨rfl, rfl⟩ (by simp) (by simp [NodeRole.waits?, hr])
          (.of_spent rfl hp hnil) (by simp [hr])
      | exact h.touchRole hp (by simp [NodeRole.waits?, hr]) (.of_spent rfl hp hnil)
          (by simp [hr])
  | @leave n hr =>
    have hp : place n = .spent := hrole.spent n (by rw [hr]; rfl)
    have hnil : hands t = [] := by simpa [hr, HandOk] using hrole.hand
    refine ⟨q, hands, place, h.touch hp rfl ⟨rfl, rfl, rfl⟩ (fun m hm => ⟨rfl, ?_⟩) ⟨rfl, rfl⟩ id
      (by simp [NodeRole.waits?]) (.idle hnil) (by simp [hr]), hkeep⟩
    exact Function.update_of_ne hm _ _
  | @dequeueHead n hr hhead hnext =>
    have hqueue := h.queue
    rw [hhead] at hqueue
    obtain ⟨l, rfl, hnl, -, hend, -⟩ := hqueue.pop
    refine ⟨l, _, _, h.dequeue hr rfl (mem_tail_iff hnl) List.mem_cons_self (hend hnext) ⟨rfl, rfl⟩
      (fun _ _ => rfl) fun _ => ⟨rfl, rfl⟩, h.moved_take (by simp)⟩
  | @dequeueHeadOf n m hr hhead hnext =>
    have hqueue := h.queue
    rw [hhead] at hqueue
    obtain ⟨l, rfl, hnl, hlist, -, hpop⟩ := hqueue.pop
    have hml : m ∈ l := by
      have hm : Linked c.next (some m) l := by rw [← hnext]; exact hlist
      obtain ⟨r, rfl, -⟩ := hm.exists_cons
      exact List.mem_cons_self
    refine ⟨l, _, _, h.dequeue hr rfl (mem_tail_iff hnl) List.mem_cons_self
      (hpop m hnext ?_ (fun k _ => ?_) fun k _ hkm => ?_) ⟨rfl, rfl⟩ (fun k hk => ?_) fun k => ?_,
      h.moved_take (by simp)⟩
    · simp [CondNodes.prev, CondNodes.setRole, CondNodes.record, CondNodes.setPrev, CondNodes.setNode]
    · by_cases hkm : k = m
      · subst hkm
        simp [CondNodes.next, CondNodes.setRole, CondNodes.record, CondNodes.setPrev,
          CondNodes.setNode, CondNodes.setEnds]
      · simp [CondNodes.next, CondNodes.setRole, CondNodes.record, CondNodes.setPrev,
          CondNodes.setNode, CondNodes.setEnds, hkm]
    · simp [CondNodes.prev, CondNodes.setRole, CondNodes.record, CondNodes.setPrev,
        CondNodes.setNode, CondNodes.setEnds, hkm]
    · have hkm : k ≠ m := fun hkm => hk (hkm ▸ List.mem_cons_of_mem _ hml)
      simp [CondNodes.setRole, CondNodes.record, CondNodes.setPrev, CondNodes.setNode,
        CondNodes.setEnds, hkm]
    · by_cases hkm : k = m
      · subst hkm
        simp [CondNodes.setRole, CondNodes.record, CondNodes.setPrev, CondNodes.setNode,
          CondNodes.setEnds]
      · simp [CondNodes.setRole, CondNodes.record, CondNodes.setPrev, CondNodes.setNode,
          CondNodes.setEnds, hkm]
  | @dequeueTail n hr htail hprev =>
    have hqueue := h.queue.symm
    rw [htail] at hqueue
    obtain ⟨l, hl, hnl, -, hend, -⟩ := hqueue.pop
    refine ⟨l.reverse, _, _, h.dequeue hr rfl (mem_reverse_iff hl hnl) ?_ (hend hprev).symm
      ⟨rfl, rfl⟩ (fun _ _ => rfl) fun _ => ⟨rfl, rfl⟩, h.moved_take ?_⟩
    · simpa using hqueue.symm.mem_last
    · simpa using hqueue.symm.mem_last
  | @dequeueTailOf n m hr htail hprev =>
    have hqueue := h.queue.symm
    rw [htail] at hqueue
    obtain ⟨l, hl, hnl, hlist, -, hpop⟩ := hqueue.pop
    have hmq : m ∈ q := by
      have hm : Linked c.prev (some m) l := by rw [← hprev]; exact hlist
      obtain ⟨r, rfl, -⟩ := hm.exists_cons
      rw [← List.mem_reverse, hl]
      simp
    refine ⟨l.reverse, _, _, h.dequeue hr rfl (mem_reverse_iff hl hnl) ?_
      (hpop m hprev ?_ (fun k _ => ?_) fun k _ hkm => ?_).symm ⟨rfl, rfl⟩ (fun k hk => ?_)
      fun k => ?_, h.moved_take ?_⟩
    · simpa using hqueue.symm.mem_last
    · simp [CondNodes.next, CondNodes.setRole, CondNodes.record, CondNodes.setNext, CondNodes.setNode]
    · by_cases hkm : k = m
      · subst hkm
        simp [CondNodes.prev, CondNodes.setRole, CondNodes.record, CondNodes.setNext,
          CondNodes.setNode, CondNodes.setEnds]
      · simp [CondNodes.prev, CondNodes.setRole, CondNodes.record, CondNodes.setNext,
          CondNodes.setNode, CondNodes.setEnds, hkm]
    · simp [CondNodes.next, CondNodes.setRole, CondNodes.record, CondNodes.setNext,
        CondNodes.setNode, CondNodes.setEnds, hkm]
    · have hkm : k ≠ m := fun hkm => hk (hkm ▸ hmq)
      simp [CondNodes.setRole, CondNodes.record, CondNodes.setNext, CondNodes.setNode,
        CondNodes.setEnds, hkm]
    · by_cases hkm : k = m
      · subst hkm
        simp [CondNodes.setRole, CondNodes.record, CondNodes.setNext, CondNodes.setNode,
          CondNodes.setEnds]
      · simp [CondNodes.setRole, CondNodes.record, CondNodes.setNext, CondNodes.setNode,
          CondNodes.setEnds, hkm]
    · simpa using hqueue.symm.mem_last
  | @detach n hr hhead =>
    have hqueue := h.queue
    rw [hhead] at hqueue
    have hmem : ∀ m, m ∈ ([] : List Nat) ↔ m ∈ q ∧ m ∉ q := by simp
    refine ⟨[], _, _, h.take hr rfl (fun _ hm => hm) hmem .empty ⟨rfl, rfl⟩ (fun _ _ => rfl)
      (fun _ => ⟨rfl, rfl⟩) ⟨hqueue.fwd, by simp, by simp [NodeRole.spent?], by simp⟩ rfl,
      h.moved_take fun _ hm => hm⟩
  | @post n hr =>
    have hl : hands t = [n] := by simpa [hr, HandOk] using hrole.hand
    refine ⟨q, _, _, h.spend hl (by simp) (by rw [hr]; rfl) rfl ⟨rfl, rfl, rfl, rfl⟩
      (fun m hm => Function.update_of_ne hm _ _) ?_ ?_ rfl (.of_spent rfl (by simp) rfl),
      h.moved_spend (by simp [hl]) (.inl hr)⟩
    · simp [CondNodes.setRole, CondNodes.post, CondNodes.setNode]
    · simp [CondNodes.setRole, CondNodes.post, CondNodes.setNode]
  | @walkPost n hr =>
    have hlist : Linked (fun m => (c.node m).next) (some n) (hands t) := by
      simpa [hr, HandOk] using hrole.hand
    obtain ⟨l, hl, hrest⟩ := hlist.exists_cons
    have hnl : n ∉ l := (List.nodup_cons.mp (hl ▸ hlist.nodup)).1
    have hnext : ∀ m, ((c.post n).node m).next = (c.node m).next := fun m => by
      by_cases hm : m = n
      · subst hm; simp [CondNodes.post, CondNodes.setNode]
      · simp [CondNodes.post, CondNodes.setNode, hm]
    refine ⟨q, _, _, h.spend hl hnl (by rw [hr]; rfl) rfl ⟨rfl, rfl, rfl, rfl⟩
      (fun m hm => Function.update_of_ne hm _ _) ⟨hnext n, ?_⟩ ?_ rfl
      (.of_spent rfl (by simp) ?_), h.moved_spend (by simp [hl]) (.inr hr)⟩
    · simp [CondNodes.setRole, CondNodes.post, CondNodes.setNode]
    · simp [CondNodes.setRole, CondNodes.post, CondNodes.setNode]
    · show Linked (fun m => ((c.post n).node m).next) ((c.post n).node n).next l
      rw [hnext]
      exact hrest.congr fun m _ => hnext m
  | @walkFails n hr hsem =>
    have hlist : Linked (fun m => (c.node m).next) (some n) (hands t) := by
      simpa [hr, HandOk] using hrole.hand
    obtain ⟨l, hl, hrest⟩ := hlist.exists_cons
    have hnl : n ∉ l := (List.nodup_cons.mp (hl ▸ hlist.nodup)).1
    exact ⟨q, _, _, h.spend hl hnl (by rw [hr]; rfl) rfl ⟨rfl, rfl, rfl, rfl⟩ (fun _ _ => rfl)
      ⟨rfl, rfl⟩ rfl rfl (.of_spent rfl (by simp) hrest),
      h.moved_spend (by simp [hl]) (.inr hr)⟩
  | @signalClaim n hr hst | @discard n hr | @signalYield n hr hst =>
    have hp : place n = .spent := hrole.spent n (by rw [hr]; rfl)
    have hnil : hands t = [] := by simpa [hr, HandOk] using hrole.hand
    refine ⟨q, hands, place, ?_, hkeep⟩
    first
      | exact h.touchNode hp ⟨rfl, rfl⟩ (by simp) (by simp [NodeRole.waits?]) (.idle hnil)
          (by simp [hr])
      | exact h.touchRole hp (by simp [NodeRole.waits?]) (.of_spent rfl hp hnil) (by simp [hr])
  | @walkNext n hr =>
    have hp : place n = .spent := hrole.spent n (by rw [hr]; rfl)
    have hlist : Linked (fun m => (c.node m).next) (c.node n).next (hands t) := by
      simpa [hr, HandOk] using hrole.hand
    exact ⟨q, hands, place, h.touchRole hp (by simp [NodeRole.waits?]) (.of_spent rfl hp hlist)
      (by simp [hr]), hkeep⟩
  | @walkClaim n r hr hst | @walkFree n r hr | @walkYield n r hr hst =>
    have hp : place n = .spent := hrole.spent n (by rw [hr]; rfl)
    have hlist : Linked (fun m => (c.node m).next) r (hands t) := by
      simpa [hr, HandOk] using hrole.hand
    have hwalk : ∀ {x : CondNode}, x.next = (c.node n).next →
        RoleOk (Function.update c.node n x) place (hands t) (.walk r) := fun hx => by
      refine .walk (hlist.congr fun m hm => ?_)
      by_cases hmn : m = n
      · subst hmn; simpa using hx
      · simp [hmn]
    refine ⟨q, hands, place, ?_, hkeep⟩
    first
      | exact h.touchNode hp ⟨rfl, rfl⟩ (by simp) (by simp) (hwalk rfl) (by simp [hr])
      | exact h.touchRole hp (by simp [NodeRole.waits?]) (.of_spent rfl hp hlist) (by simp [hr])

end NodeInv

/-- The queue is empty at the start. -/
theorem nodeInv_init {s : CondState Tid Lid} (hs : s = { cnt := s.cnt }) :
    NodeInv (CondState.nodes s) [] (fun _ => []) (fun _ => .unborn) := by
  rw [hs]
  exact
    { queue := .empty
      mem_queue := by simp
      mem_hand := by simp
      unborn := by simp [CondState.nodes]
      role := fun _ => .idle rfl
      inj := by simp [CondState.nodes, CondPc.role, NodeRole.waits?]
      unposted := by simp [NodePlace.unposted] }

/-- The invariant holds in every state of every run. -/
theorem nodeInv_of_run [DecidableEq Tid] [DecidableEq Lid] {C : CondState Tid Lid → _ → Prop}
    {tr : List (CondState Tid Lid × CondAct Tid Lid)} {s : CondState Tid Lid}
    (h : (txcond Tid Lid).Run C tr s) :
    ∃ q hands place, NodeInv (CondState.nodes s) q hands place := by
  refine h.invariant (I := fun s => ∃ q hands place, NodeInv (CondState.nodes s) q hands place)
    (fun s hs => ⟨_, _, _, nodeInv_init hs⟩) ?_
  rintro s a s' ⟨q, hands, place, hinv⟩ - hs
  rcases CondState.nodes_step hs with ⟨t, -, ht⟩ | ⟨-, hsame⟩
  · obtain ⟨q', hands', place', hinv', -⟩ := hinv.step ht
    exact ⟨q', hands', place', hinv'⟩
  · rw [hsame]
    exact ⟨q, hands, place, hinv⟩

end TxLock.Spec
