import TxLock.Spec.McsView

/-!
# The queue of an MCS lock

`QueueOk c lk`: the nodes queued for `lk` are those between `released` and the end of the
order in which `tail` was swapped. `tail` is the last of them; each is linked to the one
behind it, unless that one is still about to link itself; all but the first wait with
their flag set, and the first is the only one that may have the lock. Where a node came
from and which counters it has plays no role here, so the same invariant serves `mcs` and
`mcs_tm`.

## Key results

- `McsInv.step`: every step keeps the invariant
-/

namespace TxLock.Spec

open Native McsView

variable {Tid Lid : Type}

/-- Queued, and the node before it is not linked to it yet. -/
def McsRole.isLinking : McsRole Tid Lid → Bool
  | .queued _ r => r.isLinking
  | .free | .fresh _ | .left => false

/-- Queued, with the lock or in its unlock. -/
def McsRole.isHolding : McsRole Tid Lid → Bool
  | .queued _ r => r.isHolding
  | .free | .fresh _ | .left => false

namespace McsView

/-- The node before it in the queue is linked to it. -/
def linked (c : McsView Tid Lid) (n : Tid × Nat) : Bool := !(c.role n).isLinking

/-- How many acquisitions of `lk` have been granted. -/
def served (c : McsView Tid Lid) (lk : Lid) : Nat :=
  (c.lock lk).released + if (c.queue lk).head?.any (fun n => (c.role n).isHolding) then 1 else 0

end McsView

/-- The `j`-th node of the queue of `lk`. -/
structure EntryOk (c : McsView Tid Lid) (lk : Lid) (j : Nat) (n : Tid × Nat)
    (r : QueueRole Tid) : Prop where
  turn : (c.node n).turn = (c.lock lk).released + j
  next : (c.node n).lockNext = (c.queue lk)[j + 1]?.filter c.linked
  behind : 0 < j → r.isBehind = true
  wait : r.isBehind = true → (c.node n).wait = decide (0 < j)
  pred : ∀ p, r = .linking p → 0 < j ∧ (c.queue lk)[j - 1]? = some p
  awaits : r = .awaiting → (c.queue lk)[j + 1]? ≠ none
  hands : r = .handing → (c.node n).lockNext ≠ none
  clears : ∀ m, r = .clearing m → (c.node n).lockNext = some m

/-- The queue of `lk` and its history. -/
structure QueueOk (c : McsView Tid Lid) (lk : Lid) : Prop where
  released_le : (c.lock lk).released ≤ (c.lock lk).turns.length
  tail : (c.lock lk).tail = (c.queue lk).getLast?
  nodup : (c.queue lk).Nodup
  mem : ∀ n, n ∈ c.queue lk ↔ ∃ r, c.role n = .queued lk r
  entry : ∀ j n r, (c.queue lk)[j]? = some n → c.role n = .queued lk r → EntryOk c lk j n r
  acquired : ∀ m a, (c.lock lk).turns[m]? = some a → (a.acquired = true ↔ m < c.served lk)

/-- What has been written to a node that is being filled in. -/
structure FreshOk (x : McsNode Tid) (done : Nat) : Prop where
  lockNext : 1 ≤ done → x.lockNext = none
  wait : 2 ≤ done → x.wait = true
  cnt : 4 ≤ done → x.cnt = 0

/-- The invariant of the nodes and the locks. -/
structure McsInv (c : McsView Tid Lid) : Prop where
  queue : ∀ lk, QueueOk c lk
  fresh : ∀ n k, c.role n = .fresh k → FreshOk (c.node n) k

/-- Two views with the same queue of `lk`, as far as its links and flags go. -/
structure SameQueue (c c' : McsView Tid Lid) (lk : Lid) : Prop where
  released : (c'.lock lk).released = (c.lock lk).released
  tail : (c'.lock lk).tail = (c.lock lk).tail
  queue : c'.queue lk = c.queue lk
  node : ∀ n ∈ c.queue lk, (c'.node n).lockNext = (c.node n).lockNext ∧
    (c'.node n).wait = (c.node n).wait ∧ (c'.node n).turn = (c.node n).turn
  linked : ∀ n ∈ c.queue lk, c'.linked n = c.linked n

section

variable {c c' : McsView Tid Lid} {lk : Lid} {j k : Nat} {n m : Tid × Nat} {r r' : QueueRole Tid}

theorem filter_linked_congr {q : List (Tid × Nat)} (h : ∀ n ∈ q, c'.linked n = c.linked n) :
    q[j]?.filter c'.linked = q[j]?.filter c.linked := by
  cases hj : q[j]? with
  | none => rfl
  | some n => simp only [Option.filter, h n (List.mem_of_getElem? hj)]

theorem EntryOk.congr (h : EntryOk c lk j n r) (hs : SameQueue c c' lk) (hn : n ∈ c.queue lk) :
    EntryOk c' lk j n r := by
  obtain ⟨hnext, hwait, hturn⟩ := hs.node n hn
  constructor
  · rw [hturn, hs.released]
    exact h.turn
  · rw [hnext, hs.queue, filter_linked_congr hs.linked]
    exact h.next
  · exact h.behind
  · rw [hwait]
    exact h.wait
  · rw [hs.queue]
    exact h.pred
  · rw [hs.queue]
    exact h.awaits
  · rw [hnext]
    exact h.hands
  · rw [hnext]
    exact h.clears

/-- A node that moves on without having seen its turn, or after it. -/
theorem EntryOk.change (h : EntryOk c lk j n r) (hbehind : r'.isBehind = r.isBehind)
    (hlink : r'.isLinking = false) (hawaits : r' = .awaiting → (c.queue lk)[j + 1]? ≠ none)
    (hhands : r' = .handing → (c.node n).lockNext ≠ none)
    (hclears : ∀ m, r' = .clearing m → (c.node n).lockNext = some m) : EntryOk c lk j n r' where
  turn := h.turn
  next := h.next
  behind := by
    rw [hbehind]
    exact h.behind
  wait := by
    rw [hbehind]
    exact h.wait
  pred p hp := by
    rw [hp] at hlink
    simp [QueueRole.isLinking] at hlink
  awaits := hawaits
  hands := hhands
  clears := hclears

theorem served_congr (hrel : (c'.lock lk).released = (c.lock lk).released)
    (hq : c'.queue lk = c.queue lk)
    (hr : ∀ n, (c.queue lk).head? = some n → (c'.role n).isHolding = (c.role n).isHolding) :
    c'.served lk = c.served lk := by
  unfold McsView.served
  rw [hrel, hq]
  cases hh : (c.queue lk).head? with
  | none => rfl
  | some n => simp only [Option.any_some, hr n hh]

namespace QueueOk

theorem queued (h : QueueOk c lk) (hj : (c.queue lk)[j]? = some n) :
    ∃ r, c.role n = .queued lk r := (h.mem n).mp (List.mem_of_getElem? hj)

/-- A queued node has a place in the queue. -/
theorem exists_index (h : QueueOk c lk) (hr : c.role n = .queued lk r) :
    ∃ j, (c.queue lk)[j]? = some n ∧ EntryOk c lk j n r := by
  obtain ⟨j, hj⟩ := List.mem_iff_getElem?.mp ((h.mem n).mpr ⟨r, hr⟩)
  exact ⟨j, hj, h.entry j n r hj hr⟩

theorem index_inj (h : QueueOk c lk) (hj : (c.queue lk)[j]? = some n)
    (hk : (c.queue lk)[k]? = some n) : j = k := by
  have hlt : j < (c.queue lk).length := (List.getElem?_eq_some_iff.mp hj).1
  exact (List.getElem?_inj hlt h.nodup).mp (hj.trans hk.symm)

/-- A node that is not behind another is the first. -/
theorem first (h : QueueOk c lk) (hr : c.role n = .queued lk r)
    (hfront : r.isBehind = false ∨ (c.node n).wait = false) :
    (c.queue lk)[0]? = some n ∧ EntryOk c lk 0 n r := by
  obtain ⟨j, hj, he⟩ := h.exists_index hr
  have hzero : j = 0 := by
    rcases Nat.eq_zero_or_pos j with hz | hpos
    · exact hz
    have hbehind := he.behind hpos
    rcases hfront with hf | hf
    · rw [hf] at hbehind
      simp at hbehind
    · have hwait := he.wait hbehind
      rw [hf] at hwait
      simp [hpos] at hwait
  subst hzero
  exact ⟨hj, he⟩

theorem queue_length (h : QueueOk c lk) :
    (c.lock lk).released + (c.queue lk).length = (c.lock lk).turns.length := by
  have hle := h.released_le
  simp only [McsView.queue, List.length_map, List.length_drop]
  omega

theorem served_le (h : QueueOk c lk) : c.served lk ≤ (c.lock lk).turns.length := by
  have hlen := h.queue_length
  unfold McsView.served
  cases hq : c.queue lk with
  | nil =>
    show (c.lock lk).released + 0 ≤ _
    omega
  | cons m q =>
    rw [hq, List.length_cons] at hlen
    split <;> omega

/-- A node that holds the lock is the first of its queue. -/
theorem served_of_holding (h : QueueOk c lk) (hr : c.role n = .queued lk r)
    (hh : r.isHolding = true) : c.served lk = (c.lock lk).released + 1 := by
  obtain ⟨hj, -⟩ := h.first hr (.inl (QueueRole.not_isBehind_of_isHolding hh))
  unfold McsView.served
  rw [List.head?_eq_getElem?, hj]
  simp only [Option.any_some, hr, McsRole.isHolding, hh, if_true]

/-- While the first node does not hold the lock, nobody does. -/
theorem served_of_first (hj : (c.queue lk)[0]? = some n) (hr : c.role n = .queued lk r)
    (hh : r.isHolding = false) : c.served lk = (c.lock lk).released := by
  unfold McsView.served
  rw [List.head?_eq_getElem?, hj]
  simp [hr, McsRole.isHolding, hh]

/-- Only the last node of a queue, and then the only one, may leave it empty. -/
theorem queue_eq_singleton (h : QueueOk c lk) (hr : c.role n = .queued lk r)
    (hfront : r.isBehind = false) (htail : (c.lock lk).tail = some n) : c.queue lk = [n] := by
  obtain ⟨hj, -⟩ := h.first hr (.inl hfront)
  rw [h.tail, List.getLast?_eq_getElem?] at htail
  have hlast := h.index_inj hj htail
  have hpos := (List.getElem?_eq_some_iff.mp hj).1
  obtain ⟨m, hm⟩ := List.length_eq_one_iff.mp (show (c.queue lk).length = 1 by omega)
  rw [hm] at hj ⊢
  rw [show m = n from Option.some.inj hj]

/-- The first node hands over to the one it is linked to, which is the one behind it. -/
theorem queue_eq_cons (h : QueueOk c lk) (hr : c.role n = .queued lk r)
    (hfront : r.isBehind = false) (hnext : (c.node n).lockNext = some m) :
    ∃ q, c.queue lk = n :: m :: q := by
  obtain ⟨hj, he⟩ := h.first hr (.inl hfront)
  rw [he.next, Option.filter_eq_some_iff] at hnext
  obtain ⟨hm, -⟩ := hnext
  cases hq : c.queue lk with
  | nil => simp [hq] at hj
  | cons a q =>
    rw [hq] at hj hm
    cases q with
    | nil => simp at hm
    | cons b q =>
      obtain rfl := Option.some.inj hj
      obtain rfl := Option.some.inj hm
      exact ⟨q, rfl⟩

/-- What keeps the queue and who is in it keeps the invariant. -/
theorem frame (h : QueueOk c lk) (hlock : c'.lock lk = c.lock lk)
    (hnode : ∀ n ∈ c.queue lk, (c'.node n).lockNext = (c.node n).lockNext ∧
      (c'.node n).wait = (c.node n).wait ∧ (c'.node n).turn = (c.node n).turn)
    (hrole : ∀ n r, c'.role n = .queued lk r ↔ c.role n = .queued lk r) : QueueOk c' lk := by
  have hq : c'.queue lk = c.queue lk := queue_congr hlock
  have hsame : ∀ n ∈ c.queue lk, c'.role n = c.role n := fun n hn => by
    obtain ⟨r, hr⟩ := (h.mem n).mp hn
    rw [hr]
    exact (hrole n r).mpr hr
  have hs : SameQueue c c' lk := by
    refine ⟨by rw [hlock], by rw [hlock], hq, hnode, fun n hn => ?_⟩
    rw [McsView.linked, McsView.linked, hsame n hn]
  have hserved : c'.served lk = c.served lk :=
    served_congr hs.released hq fun n hn => by rw [hsame n (List.mem_of_head? hn)]
  constructor
  · rw [hlock]
    exact h.released_le
  · rw [hlock, hq]
    exact h.tail
  · rw [hq]
    exact h.nodup
  · intro n
    rw [hq, h.mem n]
    exact ⟨fun ⟨r, hr⟩ => ⟨r, (hrole n r).mpr hr⟩, fun ⟨r, hr⟩ => ⟨r, (hrole n r).mp hr⟩⟩
  · intro j n r hj hr
    rw [hq] at hj
    exact (h.entry j n r hj ((hrole n r).mp hr)).congr hs (List.mem_of_getElem? hj)
  · rw [hlock, hserved]
    exact h.acquired

/-- A queued node moves on in its place. -/
theorem move (h : QueueOk c lk) (hr : c.role n = .queued lk r) (hr' : c'.role n = .queued lk r')
    (hrole : ∀ m, m ≠ n → c'.role m = c.role m)
    (htail : (c'.lock lk).tail = (c.lock lk).tail)
    (hrel : (c'.lock lk).released = (c.lock lk).released)
    (hlen : (c'.lock lk).turns.length = (c.lock lk).turns.length) (hq : c'.queue lk = c.queue lk)
    (hnode : ∀ m ∈ c.queue lk, (c'.node m).lockNext = (c.node m).lockNext ∧
      (c'.node m).wait = (c.node m).wait ∧ (c'.node m).turn = (c.node m).turn)
    (hlink : r'.isLinking = r.isLinking)
    (hentry : ∀ j, EntryOk c lk j n r → EntryOk c lk j n r')
    (hacq : ∀ m a, (c'.lock lk).turns[m]? = some a → (a.acquired = true ↔ m < c'.served lk)) :
    QueueOk c' lk := by
  -- to the other nodes of the queue nothing has changed
  have hs : SameQueue c c' lk := by
    refine ⟨hrel, htail, hq, hnode, fun m _ => ?_⟩
    by_cases hm : m = n
    · subst hm
      simp only [McsView.linked, hr, hr', McsRole.isLinking, hlink]
    · simp only [McsView.linked, hrole m hm]
  constructor
  · rw [hrel, hlen]
    exact h.released_le
  · rw [htail, hq]
    exact h.tail
  · rw [hq]
    exact h.nodup
  · intro m
    rw [hq, h.mem m]
    by_cases hm : m = n
    · subst hm
      exact ⟨fun _ => ⟨r', hr'⟩, fun _ => ⟨r, hr⟩⟩
    · rw [hrole m hm]
  · intro j m rm hj hm
    rw [hq] at hj
    have hmem := List.mem_of_getElem? hj
    by_cases hmn : m = n
    · subst hmn
      rw [hr', McsRole.queued.injEq] at hm
      obtain rfl := hm.2
      exact (hentry j (h.entry j m r hj hr)).congr hs hmem
    · rw [hrole m hmn] at hm
      exact (h.entry j m rm hj hm).congr hs hmem
  · exact hacq

/-- The same for a step that only moves the node. -/
theorem moveRole [DecidableEq Tid] (h : QueueOk c lk) (hr : c.role n = .queued lk r)
    (hlink : r'.isLinking = r.isLinking) (hhold : r'.isHolding = r.isHolding)
    (hentry : ∀ j, EntryOk c lk j n r → EntryOk c lk j n r') :
    QueueOk (c.setRole n (.queued lk r')) lk := by
  have hserved : (c.setRole n (.queued lk r')).served lk = c.served lk := by
    refine served_congr rfl rfl fun m _ => ?_
    by_cases hm : m = n
    · subst hm
      simp only [setRole_self, hr, McsRole.isHolding, hhold]
    · rw [setRole_ne hm]
  refine h.move hr setRole_self (fun m hm => setRole_ne hm) rfl rfl rfl rfl
    (fun _ _ => ⟨rfl, rfl, rfl⟩) hlink hentry ?_
  rw [hserved]
  exact h.acquired

/-- The first node of the queue gets the lock. -/
theorem enter [DecidableEq Tid] [DecidableEq Lid] (h : QueueOk c lk)
    (hr : c.role n = .queued lk r) (hfront : r.isBehind = false ∨ (c.node n).wait = false)
    (hlink : r.isLinking = false) (hhold : r.isHolding = false) : QueueOk (c.enter lk n) lk := by
  obtain ⟨hj, he⟩ := h.first hr hfront
  have hq : (c.enter lk n).queue lk = c.queue lk := queue_record fun _ => rfl
  have hlock : (c.enter lk n).lock lk = { c.lock lk with
      turns := (c.lock lk).turns.modify (c.node n).turn fun a => { a with acquired := true } } := by
    simp [McsView.enter, McsView.record]
  have hserved : (c.enter lk n).served lk = (c.lock lk).released + 1 := by
    unfold McsView.served
    rw [hq, hlock, List.head?_eq_getElem?, hj]
    simp [McsView.enter, McsRole.isHolding, QueueRole.isHolding]
  have hself : (c.enter lk n).role n = .queued lk .holds := setRole_self
  refine h.move hr hself (fun m hm => setRole_ne hm) (by rw [hlock])
    (by rw [hlock]) (by rw [hlock, List.length_modify]) hq (fun _ _ => ⟨rfl, rfl, rfl⟩)
    (by rw [hlink]; rfl) (fun j hej => ?_) fun m a hm => ?_
  · have hzero := he.turn.symm.trans hej.turn
    obtain rfl : j = 0 := by omega
    exact { he with
      behind := fun hpos => by omega
      wait := by simp [QueueRole.isBehind]
      pred := by simp
      awaits := by simp
      hands := by simp
      clears := by simp }
  · -- the turns before it are granted, and now its own
    rw [hlock, List.getElem?_modify, he.turn, Nat.add_zero] at hm
    have hbefore := h.acquired m
    rw [served_of_first hj hr hhold] at hbefore
    rw [hserved]
    cases ht : (c.lock lk).turns[m]? with
    | none => simp [ht] at hm
    | some b =>
      have hb := hbefore b ht
      by_cases hmr : (c.lock lk).released = m
      · subst hmr
        simp only [ht, if_true, Option.map_eq_map, Option.map_some, Option.some.injEq] at hm
        subst hm
        simp
      · simp only [ht, hmr, if_false, Option.map_eq_map, Option.map_some,
          Option.some.injEq] at hm
        subst hm
        rw [hb]
        omega

variable [DecidableEq Tid]

/-- A queued node links the one before it to itself. -/
theorem link (h : QueueOk c lk) {p : Tid × Nat} (hr : c.role n = .queued lk (.linking p))
    (hlink : r'.isLinking = false) (hbehind : r'.isBehind = true) :
    QueueOk ((c.setNode p { c.node p with lockNext := some n }).setRole n (.queued lk r')) lk := by
  generalize hc : (c.setNode p { c.node p with lockNext := some n }).setRole n (.queued lk r') = c'
  obtain ⟨j, hj, he⟩ := h.exists_index hr
  obtain ⟨hpos, hp⟩ := he.pred p rfl
  have hq : c'.queue lk = c.queue lk := by subst hc; rfl
  have hlock : c'.lock lk = c.lock lk := by subst hc; rfl
  have hrole : ∀ m, m ≠ n → c'.role m = c.role m := fun m hm => by subst hc; exact setRole_ne hm
  have hself : c'.role n = .queued lk r' := by subst hc; exact setRole_self
  have hnode : ∀ m, m ≠ p → c'.node m = c.node m := fun m hm => by subst hc; exact setNode_ne hm
  have hpnode : c'.node p = { c.node p with lockNext := some n } := by subst hc; exact setNode_self
  have hwait : ∀ m, (c'.node m).wait = (c.node m).wait ∧ (c'.node m).turn = (c.node m).turn := by
    intro m
    by_cases hm : m = p
    · subst hm
      rw [hpnode]
      exact ⟨rfl, rfl⟩
    · rw [hnode m hm]
      exact ⟨rfl, rfl⟩
  have hlinked : ∀ m, m ≠ n → c'.linked m = c.linked m := fun m hm => by
    rw [McsView.linked, McsView.linked, hrole m hm]
  have hserved : c'.served lk = c.served lk := by
    refine served_congr (by rw [hlock]) hq fun m hm => ?_
    rw [List.head?_eq_getElem?] at hm
    rw [hrole m]
    rintro rfl
    have hzero := h.index_inj hj hm
    omega
  -- the link is right at `p`, and nothing changes elsewhere
  have hnext : ∀ i m, (c.queue lk)[i]? = some m →
      (c.node m).lockNext = (c.queue lk)[i + 1]?.filter c.linked →
      (c'.node m).lockNext = (c'.queue lk)[i + 1]?.filter c'.linked := by
    intro i m hi hm
    rw [hq]
    by_cases hmp : m = p
    · subst hmp
      have hij := h.index_inj hi hp
      rw [show i + 1 = j by omega, hj, hpnode]
      have hlk : c'.linked n = true := by simp [McsView.linked, hself, McsRole.isLinking, hlink]
      simp only [Option.filter, hlk, if_true]
    · rw [hnode m hmp, hm]
      cases hs : (c.queue lk)[i + 1]? with
      | none => rfl
      | some x =>
        have hxn : x ≠ n := by
          rintro rfl
          have hij := h.index_inj hs hj
          rw [show j - 1 = i by omega, hi] at hp
          exact hmp (Option.some.inj hp)
        simp only [Option.filter, hlinked x hxn]
  constructor
  · rw [hlock]
    exact h.released_le
  · rw [hlock, hq]
    exact h.tail
  · rw [hq]
    exact h.nodup
  · intro m
    rw [hq, h.mem m]
    by_cases hm : m = n
    · subst hm
      exact ⟨fun _ => ⟨r', hself⟩, fun _ => ⟨_, hr⟩⟩
    · rw [hrole m hm]
  · intro i m rm hi hm
    rw [hq] at hi
    by_cases hmn : m = n
    · subst hmn
      obtain rfl := h.index_inj hi hj
      rw [hself, McsRole.queued.injEq] at hm
      obtain rfl := hm.2
      constructor
      · rw [(hwait m).2, hlock]
        exact he.turn
      · exact hnext i m hi he.next
      · exact fun _ => hbehind
      · rw [(hwait m).1]
        exact fun _ => he.wait rfl
      · exact fun x hx => by rw [hx] at hlink; simp [QueueRole.isLinking] at hlink
      · exact fun hx => by rw [hx] at hbehind; simp [QueueRole.isBehind] at hbehind
      · exact fun hx => by rw [hx] at hbehind; simp [QueueRole.isBehind] at hbehind
      · exact fun x hx => by rw [hx] at hbehind; simp [QueueRole.isBehind] at hbehind
    · rw [hrole m hmn] at hm
      have hem := h.entry i m rm hi hm
      have hlinks : ∀ {x}, (c.node m).lockNext = some x → (c'.node m).lockNext = some x := by
        intro x hx
        by_cases hmp : m = p
        · -- `n` was not linked
          subst hmp
          have hij := h.index_inj hi hp
          rw [hem.next, show i + 1 = j by omega, hj] at hx
          have hlk : c.linked n = false := by
            simp [McsView.linked, hr, McsRole.isLinking, QueueRole.isLinking]
          simp [Option.filter, hlk] at hx
        · rw [hnode m hmp]
          exact hx
      constructor
      · rw [(hwait m).2, hlock]
        exact hem.turn
      · exact hnext i m hi hem.next
      · exact hem.behind
      · rw [(hwait m).1]
        exact hem.wait
      · rw [hq]
        exact hem.pred
      · rw [hq]
        exact hem.awaits
      · intro hh
        obtain ⟨x, hx⟩ := Option.ne_none_iff_exists'.mp (hem.hands hh)
        rw [hlinks hx]
        simp
      · exact fun x hx => hlinks (hem.clears x hx)
  · rw [hlock, hserved]
    exact h.acquired

variable [DecidableEq Lid]

theorem push_queue (h : QueueOk c lk) (r' : QueueRole Tid) :
    (c.push lk n r').queue lk = c.queue lk ++ [n] := by
  simp [McsView.queue, McsView.push, List.drop_append_of_le_length h.released_le]

/-- A node is queued behind the last one, or alone. -/
theorem push (h : QueueOk c lk) (hr : c.role n = .fresh 4) (hf : FreshOk (c.node n) 4) :
    QueueOk (c.push lk n (c.pushRole lk)) lk := by
  have hq := h.push_queue (n := n) (c.pushRole lk)
  have hpush := pushRole_cases c lk
  rw [h.tail] at hpush
  generalize hr' : c.pushRole lk = r' at hq hpush ⊢
  generalize hc : c.push lk n r' = c' at hq ⊢
  have hlen := h.queue_length
  have hlock : c'.lock lk = { c.lock lk with
      tail := some n
      turns := (c.lock lk).turns ++ [{ node := n, pred := (c.lock lk).tail }] } := by
    subst hc
    simp [McsView.push]
  have hnq : n ∉ c.queue lk := fun hn => by
    obtain ⟨r, hqr⟩ := (h.mem n).mp hn
    rw [hr] at hqr
    simp at hqr
  have hself : c'.role n = .queued lk r' := by subst hc; exact setRole_self
  have hrole : ∀ m, m ≠ n → c'.role m = c.role m := fun m hm => by subst hc; exact setRole_ne hm
  have hnode : ∀ m, m ≠ n → c'.node m = c.node m := fun m hm => by subst hc; exact setNode_ne hm
  have hnnode : c'.node n = { c.node n with turn := (c.lock lk).turns.length } := by
    subst hc
    exact setNode_self
  -- only the last node has a new one behind it, which is not linked
  have hnext : ∀ j, j < (c.queue lk).length →
      (c.queue lk ++ [n])[j + 1]?.filter c'.linked = (c.queue lk)[j + 1]?.filter c.linked := by
    intro j hj
    by_cases hlast : j + 1 < (c.queue lk).length
    · rw [List.getElem?_append_left hlast]
      refine filter_linked_congr fun m hm => ?_
      rw [McsView.linked, McsView.linked, hrole m (fun e => hnq (e ▸ hm))]
    · have hne : (c.queue lk).getLast? ≠ none := by
        rw [Ne, List.getLast?_eq_none_iff]
        exact List.ne_nil_of_length_pos (by omega)
      rcases hpush with ⟨p, -, hlinking⟩ | ⟨hnone, -⟩
      · have hlk : c'.linked n = false := by
          simp [McsView.linked, hself, hlinking, McsRole.isLinking, QueueRole.isLinking]
        rw [show j + 1 = (c.queue lk).length by omega, List.getElem?_concat_length,
          List.getElem?_eq_none (Nat.le_refl _)]
        simp only [Option.filter, hlk]
        rfl
      · exact absurd hnone hne
  have hserved : c'.served lk = c.served lk := by
    unfold McsView.served
    rw [hq, hlock]
    cases hql : c.queue lk with
    | nil =>
      rcases hpush with ⟨p, hp, -⟩ | ⟨-, hfirst⟩
      · simp [hql] at hp
      · simp [hself, hfirst, McsRole.isHolding, QueueRole.isHolding]
    | cons m q =>
      have hmn : m ≠ n := fun e => hnq (by simp [hql, e])
      simp only [List.cons_append, List.head?_cons, Option.any_some, hrole m hmn]
      rfl
  constructor
  · rw [hlock, List.length_append]
    exact Nat.le_add_right_of_le h.released_le
  · rw [hq, hlock, List.getLast?_concat]
  · rw [hq, List.nodup_append]
    exact ⟨h.nodup, by simp, by
      intro a ha b hb hab
      rw [List.mem_singleton.mp hb] at hab
      exact hnq (hab ▸ ha)⟩
  · intro m
    rw [hq, List.mem_append, List.mem_singleton, h.mem m]
    by_cases hm : m = n
    · subst hm
      exact ⟨fun _ => ⟨r', hself⟩, fun _ => .inr rfl⟩
    · rw [hrole m hm]
      simp [hm]
  · intro j m rm hj hm
    rw [hq] at hj
    by_cases hlt : j < (c.queue lk).length
    · -- the nodes before it
      rw [List.getElem?_append_left hlt] at hj
      have hmn : m ≠ n := fun e => hnq (e ▸ List.mem_of_getElem? hj)
      rw [hrole m hmn] at hm
      have he := h.entry j m rm hj hm
      constructor
      · rw [hnode m hmn, hlock]
        exact he.turn
      · rw [hnode m hmn, hq, hnext j hlt]
        exact he.next
      · exact he.behind
      · rw [hnode m hmn]
        exact he.wait
      · intro p hp
        obtain ⟨hpos, hpj⟩ := he.pred p hp
        rw [hq, List.getElem?_append_left (by omega)]
        exact ⟨hpos, hpj⟩
      · intro hawait hnone
        rw [hq] at hnone
        have hge := List.getElem?_eq_none_iff.mp hnone
        rw [List.length_append, List.length_singleton] at hge
        exact he.awaits hawait (List.getElem?_eq_none (by omega))
      · rw [hnode m hmn]
        exact he.hands
      · rw [hnode m hmn]
        exact he.clears
    · -- the node itself
      have hjl : j = (c.queue lk).length := by
        have hj' := (List.getElem?_eq_some_iff.mp hj).1
        rw [List.length_append, List.length_singleton] at hj'
        omega
      subst hjl
      rw [List.getElem?_concat_length, Option.some.injEq] at hj
      subst hj
      rw [hself, McsRole.queued.injEq] at hm
      obtain rfl := hm.2
      have hnone : (c.queue lk ++ [n])[(c.queue lk).length + 1]? = none := by simp
      constructor
      · rw [hnnode, hlock]
        exact hlen.symm
      · rw [hnnode, hq, hnone]
        exact hf.lockNext (by omega)
      · intro hpos
        rcases hpush with ⟨p, -, hp⟩ | ⟨hnil, -⟩
        · rw [hp]
          rfl
        · rw [List.getLast?_eq_none_iff.mp hnil] at hpos
          simp at hpos
      · intro hb
        rcases hpush with ⟨p, hp, -⟩ | ⟨-, hp⟩
        · have hpos : 0 < (c.queue lk).length :=
            List.length_pos_of_mem (List.mem_of_getLast? hp)
          rw [hnnode]
          simp [hf.wait (by omega), hpos]
        · rw [hp] at hb
          simp [QueueRole.isBehind] at hb
      · rintro p rfl
        rcases hpush with ⟨p', hp', hp⟩ | ⟨-, hp⟩
        · rw [QueueRole.linking.injEq] at hp
          subst hp
          have hpos : 0 < (c.queue lk).length :=
            List.length_pos_of_mem (List.mem_of_getLast? hp')
          refine ⟨hpos, ?_⟩
          rw [hq, List.getElem?_append_left (by omega), ← List.getLast?_eq_getElem?]
          exact hp'
        · simp at hp
      all_goals
        intros
        rcases hpush with ⟨_, -, hp⟩ | ⟨-, hp⟩ <;> simp_all
  · intro m a hm
    rw [hlock] at hm
    rw [hserved]
    by_cases hlt : m < (c.lock lk).turns.length
    · rw [List.getElem?_append_left hlt] at hm
      exact h.acquired m a hm
    · have hml : m = (c.lock lk).turns.length := by
        have hm' := (List.getElem?_eq_some_iff.mp hm).1
        rw [List.length_append, List.length_singleton] at hm'
        omega
      subst hml
      rw [List.getElem?_concat_length, Option.some.injEq] at hm
      subst hm
      have hle := h.served_le
      simp only [Bool.false_eq_true, false_iff]
      omega

/-- The queue becomes empty. -/
theorem clearTail (h : QueueOk c lk) (hr : c.role n = .queued lk r) (hhold : r.isHolding = true)
    (htail : (c.lock lk).tail = some n) :
    QueueOk ((c.setLock lk { c.lock lk with tail := none }).pop lk n) lk := by
  have hsingle := h.queue_eq_singleton hr (QueueRole.not_isBehind_of_isHolding hhold) htail
  generalize hc : (c.setLock lk { c.lock lk with tail := none }).pop lk n = c'
  have hlock : c'.lock lk = { c.lock lk with
      tail := none, released := (c.lock lk).released + 1 } := by
    subst hc
    simp [McsView.pop]
  have hlen := h.queue_length
  rw [hsingle, List.length_singleton] at hlen
  -- the node was alone, so the queue is empty behind it
  have hq : c'.queue lk = [] := by
    rw [McsView.queue, hlock, List.map_eq_nil_iff, List.drop_eq_nil_iff]
    exact Nat.le_of_eq hlen.symm
  have hserved : c'.served lk = c.served lk := by
    rw [h.served_of_holding hr hhold]
    unfold McsView.served
    rw [hq, hlock]
    rfl
  constructor
  · rw [hlock]
    exact Nat.le_of_eq hlen
  · rw [hlock, hq]
    rfl
  · rw [hq]
    exact List.nodup_nil
  · intro m
    rw [hq]
    refine ⟨fun hm => by simp at hm, fun hex => ?_⟩
    obtain ⟨r', hr'⟩ := hex
    by_cases hm : m = n
    · have hself : c'.role n = .left := by subst hc; exact setRole_self
      rw [hm, hself] at hr'
      simp at hr'
    · have hrole : c'.role m = c.role m := by subst hc; exact setRole_ne hm
      have hmem := (h.mem m).mpr ⟨r', hrole ▸ hr'⟩
      rw [hsingle] at hmem
      exact absurd (List.mem_singleton.mp hmem) hm
  · intro j m rm hj
    simp [hq] at hj
  · intro m a hm
    rw [hlock] at hm
    rw [hserved]
    exact h.acquired m a hm

/-- The first node hands the lock to the second. -/
theorem hand (h : QueueOk c lk) (hr : c.role n = .queued lk r) (hhold : r.isHolding = true)
    (hnext : (c.node n).lockNext = some m) :
    QueueOk ((c.setNode m { c.node m with wait := false }).pop lk n) lk := by
  have hfront := QueueRole.not_isBehind_of_isHolding hhold
  obtain ⟨q, hqe⟩ := h.queue_eq_cons hr hfront hnext
  obtain ⟨hj, he⟩ := h.first hr (.inl hfront)
  generalize hc : (c.setNode m { c.node m with wait := false }).pop lk n = c'
  have hlock : c'.lock lk = { c.lock lk with released := (c.lock lk).released + 1 } := by
    subst hc
    simp [McsView.pop]
  have hlen := h.queue_length
  rw [hqe, List.length_cons, List.length_cons] at hlen
  have hq : c'.queue lk = m :: q := by
    have hdrop : c'.queue lk = (c.queue lk).drop 1 := by
      rw [McsView.queue, hlock, McsView.queue, ← List.map_drop, List.drop_drop]
    rw [hdrop, hqe]
    rfl
  have hnodup := h.nodup
  rw [hqe] at hnodup
  have hnq : n ∉ m :: q := (List.nodup_cons.mp hnodup).1
  have hmq : m ∉ q := (List.nodup_cons.mp (List.nodup_cons.mp hnodup).2).1
  have hrole : ∀ x ∈ m :: q, c'.role x = c.role x := fun x hx => by
    subst hc
    exact setRole_ne fun e => hnq (e ▸ hx)
  have hself : c'.role n = .left := by subst hc; exact setRole_self
  have hnode : ∀ x, x ≠ m → c'.node x = c.node x := fun x hx => by subst hc; exact setNode_ne hx
  have hmnode : c'.node m = { c.node m with wait := false } := by subst hc; exact setNode_self
  have hlinks : ∀ x, (c'.node x).lockNext = (c.node x).lockNext ∧
      (c'.node x).turn = (c.node x).turn := by
    intro x
    by_cases hx : x = m
    · subst hx
      rw [hmnode]
      exact ⟨rfl, rfl⟩
    · rw [hnode x hx]
      exact ⟨rfl, rfl⟩
  have hshift : ∀ j, (c'.queue lk)[j]? = (c.queue lk)[j + 1]? := fun j => by
    rw [hq, hqe, List.getElem?_cons_succ]
  have hmem : ∀ j x, (c'.queue lk)[j]? = some x → x ∈ m :: q := fun j x hx => by
    rw [hq] at hx
    exact List.mem_of_getElem? hx
  -- the second node is linked, and has not seen its turn
  obtain ⟨rm, hrm⟩ := h.queued (j := 1) (n := m) (by rw [hqe]; rfl)
  have hem := h.entry 1 m rm (by rw [hqe]; rfl) hrm
  have hlinked : rm.isLinking = false := by
    have hn := he.next
    rw [hnext] at hn
    have hl := (Option.filter_eq_some_iff.mp hn.symm).2
    simpa [McsView.linked, hrm, McsRole.isLinking] using hl
  have hserved : c'.served lk = c.served lk := by
    rw [h.served_of_holding hr hhold]
    have hzero : (c'.queue lk)[0]? = some m := by rw [hq]; rfl
    have hrm' : c'.role m = .queued lk rm := by rw [hrole m (by simp)]; exact hrm
    have hnot : rm.isHolding = false := by
      cases hh : rm.isHolding with
      | false => rfl
      | true =>
        have hb := hem.behind Nat.one_pos
        rw [QueueRole.not_isBehind_of_isHolding hh] at hb
        simp at hb
    rw [served_of_first hzero hrm' hnot, hlock]
  constructor
  · rw [hlock]
    show (c.lock lk).released + 1 ≤ (c.lock lk).turns.length
    omega
  · rw [hlock, hq]
    show (c.lock lk).tail = _
    rw [h.tail, hqe, List.getLast?_cons_cons]
  · rw [hq]
    exact (List.nodup_cons.mp hnodup).2
  · intro x
    rw [hq]
    constructor
    · intro hx
      rw [hrole x hx]
      exact (h.mem x).mp (by rw [hqe]; exact List.mem_cons_of_mem _ hx)
    · rintro ⟨r', hr'⟩
      have hxn : x ≠ n := by
        rintro rfl
        rw [hself] at hr'
        simp at hr'
      have hx : c'.role x = c.role x := by subst hc; exact setRole_ne hxn
      have hx' := (h.mem x).mpr ⟨r', hx ▸ hr'⟩
      rw [hqe] at hx'
      exact (List.mem_cons.mp hx').resolve_left hxn
  · intro j x rx hj hrx
    have hxq := hmem j x hj
    rw [hrole x hxq] at hrx
    rw [hshift] at hj
    have hex := h.entry (j + 1) x rx hj hrx
    constructor
    · rw [(hlinks x).2, hlock]
      show _ = (c.lock lk).released + 1 + j
      rw [hex.turn]
      omega
    · rw [(hlinks x).1, hex.next, hshift]
      cases hy : (c.queue lk)[j + 1 + 1]? with
      | none => rfl
      | some y =>
        have hl : c'.linked y = c.linked y := by
          rw [McsView.linked, McsView.linked, hrole y (hmem (j + 1) y (by rw [hshift, hy]))]
        simp only [Option.filter, hl]
    · exact fun _ => hex.behind (Nat.succ_pos j)
    · intro hb
      by_cases hx : x = m
      · subst hx
        have hzero := h.index_inj hj (k := 1) (by rw [hqe]; rfl)
        rw [hmnode]
        simp [show j = 0 by omega]
      · have hpos : 0 < j := by
          rcases Nat.eq_zero_or_pos j with rfl | hpos
          · rw [hqe] at hj
            exact absurd (Option.some.inj hj).symm hx
          · exact hpos
        rw [hnode x hx, hex.wait hb]
        simp [hpos]
    · intro p hp
      obtain ⟨-, hpj⟩ := hex.pred p hp
      have hpos : 0 < j := by
        rcases Nat.eq_zero_or_pos j with rfl | hpos
        · rw [hqe] at hj
          obtain rfl : m = x := Option.some.inj hj
          rw [hrm, McsRole.queued.injEq] at hrx
          rw [hrx.2, hp] at hlinked
          simp [QueueRole.isLinking] at hlinked
        · exact hpos
      refine ⟨hpos, ?_⟩
      rw [hshift, show j - 1 + 1 = j + 1 - 1 by omega]
      exact hpj
    · rw [hshift]
      exact hex.awaits
    · rw [(hlinks x).1]
      exact hex.hands
    · rw [(hlinks x).1]
      exact hex.clears
  · intro k a hk
    rw [hlock] at hk
    rw [hserved]
    exact h.acquired k a hk

/-- The counters of a queued node and their history do not matter here. -/
theorem giveCnt (h : QueueOk c lk) (hr : c.role n = .queued lk r)
    (hlink : r'.isLinking = r.isLinking) (hhold : r'.isHolding = r.isHolding) {cnt : BitVec 64}
    (hentry : ∀ j, EntryOk c lk j n r → EntryOk c lk j n r') :
    QueueOk ((c.giveCnt lk n cnt).setRole n (.queued lk r')) lk := by
  generalize hc : (c.giveCnt lk n cnt).setRole n (.queued lk r') = c'
  have hq : c'.queue lk = c.queue lk := by
    subst hc
    exact queue_record fun _ => rfl
  have hlock : c'.lock lk = { c.lock lk with
      turns := (c.lock lk).turns.modify (c.node n).turn fun a => { a with cnt := some cnt } } := by
    subst hc
    simp [McsView.giveCnt, McsView.record]
  have hself : c'.role n = .queued lk r' := by subst hc; exact setRole_self
  have hrole : ∀ m, m ≠ n → c'.role m = c.role m := fun m hm => by subst hc; exact setRole_ne hm
  have hnode : ∀ m, (c'.node m).lockNext = (c.node m).lockNext ∧
      (c'.node m).wait = (c.node m).wait ∧ (c'.node m).turn = (c.node m).turn := by
    intro m
    subst hc
    by_cases hm : m = n
    · subst hm
      simp [McsView.giveCnt, McsView.record]
    · simp [McsView.giveCnt, McsView.record, hm]
  have hserved : c'.served lk = c.served lk := by
    refine served_congr (by rw [hlock]) hq fun m _ => ?_
    by_cases hm : m = n
    · subst hm
      simp only [hself, hr, McsRole.isHolding, hhold]
    · rw [hrole m hm]
  refine h.move hr hself hrole (by rw [hlock]) (by rw [hlock]) (by rw [hlock, List.length_modify])
    hq (fun m _ => hnode m) hlink hentry fun m a hm => ?_
  -- the entry got a count, and whether it has acquired the lock is as before
  rw [hlock, List.getElem?_modify] at hm
  rw [hserved]
  cases ht : (c.lock lk).turns[m]? with
  | none => simp [ht] at hm
  | some b =>
    have hb := h.acquired m b ht
    have hab : a.acquired = b.acquired := by
      rw [ht, Option.map_eq_map, Option.map_some, Option.some.injEq] at hm
      subst hm
      split <;> rfl
    rw [hab]
    exact hb

omit [DecidableEq Tid] in
/-- Nor does `now_serving`. -/
theorem setServing (h : QueueOk c lk) (now : BitVec 64) :
    QueueOk (c.setLock lk { c.lock lk with nowServing := now }) lk := by
  generalize hc : c.setLock lk { c.lock lk with nowServing := now } = c'
  have hlock : c'.lock lk = { c.lock lk with nowServing := now } := by
    subst hc
    exact setLock_self
  have hq : c'.queue lk = c.queue lk := by
    rw [McsView.queue, McsView.queue, hlock]
  have hrole : c'.role = c.role := by subst hc; rfl
  have hnode : c'.node = c.node := by subst hc; rfl
  have hs : SameQueue c c' lk := by
    refine ⟨by rw [hlock], by rw [hlock], hq, fun m _ => by rw [hnode]; exact ⟨rfl, rfl, rfl⟩,
      fun m _ => ?_⟩
    rw [McsView.linked, McsView.linked, hrole]
  have hserved : c'.served lk = c.served lk :=
    served_congr hs.released hq fun m _ => by rw [hrole]
  constructor
  · rw [hlock]
    exact h.released_le
  · rw [hlock, hq]
    exact h.tail
  · rw [hq]
    exact h.nodup
  · rw [hq, hrole]
    exact h.mem
  · intro j m rm hj hm
    rw [hq] at hj
    rw [hrole] at hm
    exact (h.entry j m rm hj hm).congr hs (List.mem_of_getElem? hj)
  · rw [hlock, hserved]
    exact h.acquired

end QueueOk

end

/-! ## Every step keeps the invariant -/

namespace McsInv

variable {c c' : McsView Tid Lid} {lk : Lid} {n : Tid × Nat}

/-- A step at the queue of `lk`. -/
theorem of_queued (h : McsInv c) (hlk : QueueOk c' lk)
    (hlock : ∀ lk', lk' ≠ lk → c'.lock lk' = c.lock lk')
    (hrole : ∀ m, m ≠ n → c'.role m = c.role m)
    (hn : ∀ lk', lk' ≠ lk → ∀ r, c.role n ≠ .queued lk' r ∧ c'.role n ≠ .queued lk' r)
    (hnode : ∀ m, ((c'.node m).lockNext = (c.node m).lockNext ∧
      (c'.node m).wait = (c.node m).wait ∧ (c'.node m).turn = (c.node m).turn ∧
      (c'.node m).cnt = (c.node m).cnt) ∨ m = n ∨ ∃ r, c.role m = .queued lk r)
    (hfresh : ∀ k, c'.role n ≠ .fresh k) : McsInv c' := by
  constructor
  · intro lk'
    by_cases hlk' : lk' = lk
    · exact hlk' ▸ hlk
    refine (h.queue lk').frame (hlock lk' hlk') (fun m hm => ?_) fun m r => ?_
    · obtain ⟨r, hr⟩ := ((h.queue lk').mem m).mp hm
      rcases hnode m with hsame | rfl | ⟨r', hr'⟩
      · exact ⟨hsame.1, hsame.2.1, hsame.2.2.1⟩
      · exact absurd hr (hn lk' hlk' r).1
      · rw [hr, McsRole.queued.injEq] at hr'
        exact absurd hr'.1 hlk'
    · by_cases hm : m = n
      · subst hm
        simp only [(hn lk' hlk' r).1, (hn lk' hlk' r).2]
      · rw [hrole m hm]
  · intro m k hk
    by_cases hm : m = n
    · exact absurd (hm ▸ hk) (hfresh k)
    rw [hrole m hm] at hk
    have hf := h.fresh m k hk
    rcases hnode m with ⟨hnext, hwait, -, hcnt⟩ | hmn | ⟨r, hr⟩
    · exact ⟨by rw [hnext]; exact hf.lockNext, by rw [hwait]; exact hf.wait,
        by rw [hcnt]; exact hf.cnt⟩
    · exact absurd hmn hm
    · rw [hk] at hr
      simp at hr

/-- A step at a node that is in no queue. -/
theorem of_unqueued (h : McsInv c) (hlock : c'.lock = c.lock)
    (hrole : ∀ m, m ≠ n → c'.role m = c.role m)
    (hn : ∀ lk r, c.role n ≠ .queued lk r ∧ c'.role n ≠ .queued lk r)
    (hnode : ∀ m, m ≠ n → c'.node m = c.node m)
    (hfresh : ∀ k, c'.role n = .fresh k → FreshOk (c'.node n) k) : McsInv c' := by
  constructor
  · intro lk
    refine (h.queue lk).frame (by rw [hlock]) (fun m hm => ?_) fun m r => ?_
    · obtain ⟨r, hr⟩ := ((h.queue lk).mem m).mp hm
      have hmn : m ≠ n := fun e => (hn lk r).1 (e ▸ hr)
      rw [hnode m hmn]
      exact ⟨rfl, rfl, rfl⟩
    · by_cases hm : m = n
      · subst hm
        simp only [(hn lk r).1, (hn lk r).2]
      · rw [hrole m hm]
  · intro m k hk
    by_cases hm : m = n
    · subst hm
      exact hfresh k hk
    · rw [hrole m hm] at hk
      rw [hnode m hm]
      exact h.fresh m k hk

variable [DecidableEq Tid] {r r' : QueueRole Tid}

/-- A queued node moves on, and nothing else changes. -/
theorem moveRole (h : McsInv c) (hr : c.role n = .queued lk r) (hlink : r.isLinking = false)
    (hlink' : r'.isLinking = false) (hhold : r'.isHolding = r.isHolding)
    (hentry : ∀ j, EntryOk c lk j n r → EntryOk c lk j n r') :
    McsInv (c.setRole n (.queued lk r')) := by
  refine h.of_queued ((h.queue lk).moveRole hr (by rw [hlink, hlink']) hhold hentry)
    (fun _ _ => rfl) (fun m hm => setRole_ne hm) (fun lk' hlk' r => ?_)
    (fun _ => .inl ⟨rfl, rfl, rfl, rfl⟩) fun k => ?_
  · rw [hr, setRole_self]
    exact ⟨fun e => hlk' (McsRole.queued.inj e).1.symm, fun e => hlk' (McsRole.queued.inj e).1.symm⟩
  · rw [setRole_self]
    exact nofun

variable [DecidableEq Lid]

/-- The first node of the queue gets the lock, with a write to `now_serving` or without. -/
theorem enter (h : McsInv c) (hr : c.role n = .queued lk r)
    (hfront : r.isBehind = false ∨ (c.node n).wait = false) (hlink : r.isLinking = false)
    (hhold : r.isHolding = false) : McsInv (c.enter lk n) := by
  refine h.of_queued ((h.queue lk).enter hr hfront hlink hhold)
    (fun lk' hlk' => setLock_ne hlk') (fun m hm => setRole_ne hm) (fun lk' hlk' r => ?_)
    (fun _ => .inl ⟨rfl, rfl, rfl, rfl⟩) fun k => ?_
  · rw [hr, McsView.enter, setRole_self]
    exact ⟨fun e => hlk' (McsRole.queued.inj e).1.symm, fun e => hlk' (McsRole.queued.inj e).1.symm⟩
  · rw [McsView.enter, setRole_self]
    exact nofun

omit [DecidableEq Tid] in
theorem setServing (h : McsInv c) (now : BitVec 64) :
    McsInv (c.setLock lk { c.lock lk with nowServing := now }) := by
  constructor
  · intro lk'
    by_cases hlk : lk' = lk
    · subst hlk
      exact (h.queue lk').setServing now
    · exact (h.queue lk').frame (setLock_ne hlk) (fun _ _ => ⟨rfl, rfl, rfl⟩) fun _ _ => .rfl
  · exact h.fresh

theorem giveCnt {cnt : BitVec 64} (h : McsInv c) (hr : c.role n = .queued lk r)
    (hlink : r.isLinking = false) (hlink' : r'.isLinking = false)
    (hhold : r'.isHolding = r.isHolding)
    (hentry : ∀ j, EntryOk c lk j n r → EntryOk c lk j n r') :
    McsInv ((c.giveCnt lk n cnt).setRole n (.queued lk r')) := by
  refine h.of_queued ((h.queue lk).giveCnt hr (by rw [hlink, hlink']) hhold hentry)
    (fun lk' hlk' => setLock_ne hlk') (fun m hm => setRole_ne hm) (fun lk' hlk' r => ?_)
    (fun m => ?_) fun k => ?_
  · rw [hr, setRole_self]
    exact ⟨fun e => hlk' (McsRole.queued.inj e).1.symm, fun e => hlk' (McsRole.queued.inj e).1.symm⟩
  · by_cases hm : m = n
    · exact .inr (.inl hm)
    · left
      simp [McsView.giveCnt, McsView.record, hm]
  · rw [setRole_self]
    exact nofun

theorem push (h : McsInv c) (hr : c.role n = .fresh 4) :
    McsInv (c.push lk n (c.pushRole lk)) := by
  refine h.of_queued (n := n) ((h.queue lk).push hr (h.fresh n 4 hr))
    (fun lk' hlk' => setLock_ne hlk') (fun m hm => setRole_ne hm) (fun lk' hlk' r => ?_)
    (fun m => ?_) fun k => ?_
  · rw [hr, McsView.push, setRole_self]
    exact ⟨nofun, fun e => hlk' (McsRole.queued.inj e).1.symm⟩
  · by_cases hm : m = n
    · exact .inr (.inl hm)
    · left
      simp [McsView.push, hm]
  · rw [McsView.push, setRole_self]
    exact nofun

omit [DecidableEq Lid] in
theorem link (h : McsInv c) {p : Tid × Nat} (hr : c.role n = .queued lk (.linking p))
    (hlink : r'.isLinking = false) (hbehind : r'.isBehind = true) :
    McsInv ((c.setNode p { c.node p with lockNext := some n }).setRole n (.queued lk r')) := by
  refine h.of_queued ((h.queue lk).link hr hlink hbehind) (fun _ _ => rfl)
    (fun m hm => setRole_ne hm) (fun lk' hlk' r => ?_) (fun m => ?_) fun k => ?_
  · rw [hr, setRole_self]
    exact ⟨fun e => hlk' (McsRole.queued.inj e).1.symm, fun e => hlk' (McsRole.queued.inj e).1.symm⟩
  · by_cases hm : m = p
    · obtain ⟨j, -, he⟩ := (h.queue lk).exists_index hr
      subst hm
      exact .inr (.inr ((h.queue lk).queued (he.pred m rfl).2))
    · left
      simp [hm]
  · rw [setRole_self]
    exact nofun

/-- The first node leaves the queue: nobody is behind it, or the next one is told. -/
theorem leave (h : McsInv c) (hr : c.role n = .queued lk r) (hq : QueueOk (c'.pop lk n) lk)
    (hlock : ∀ lk', lk' ≠ lk → c'.lock lk' = c.lock lk') (hrole : c'.role = c.role)
    (hnode : ∀ m, c'.node m = c.node m ∨ ∃ r, c.role m = .queued lk r) : McsInv (c'.pop lk n) := by
  refine h.of_queued (n := n) hq (fun lk' hlk' => ?_) (fun m hm => ?_) (fun lk' hlk' r => ?_)
    (fun m => ?_) fun k => ?_
  · rw [McsView.pop, setRole_lock, setLock_ne hlk', hlock lk' hlk']
  · rw [McsView.pop, setRole_ne hm, setLock_role, hrole]
  · rw [hr, McsView.pop, setRole_self]
    exact ⟨fun e => hlk' (McsRole.queued.inj e).1.symm, nofun⟩
  · rcases hnode m with hsame | hm
    · left
      simp [McsView.pop, hsame]
    · exact .inr (.inr hm)
  · rw [McsView.pop, setRole_self]
    exact nofun

/-- Every step keeps the invariant. -/
theorem step {tm : Bool} (h : McsInv c) (hs : McsStep tm c n c') : McsInv c' := by
  cases hs with
  | prepare hr =>
    exact h.of_unqueued rfl (fun m hm => setRole_ne hm) (fun lk r => by simp [hr])
      (fun _ _ => rfl) fun k hk => by
        obtain rfl : 0 = k := by simpa using hk
        exact ⟨by simp, by simp, by simp⟩
  | initLockNext hr | initWait hr | initSpeculate hr | initCnt hr =>
    -- one more field is as it should be
    have hf := h.fresh n _ hr
    exact h.of_unqueued rfl (fun m hm => setRole_ne hm) (fun lk r => by simp [hr])
      (fun m hm => setNode_ne hm) fun k hk => by
        have hk' := McsRole.fresh.inj ((setRole_self).symm.trans hk)
        subst hk'
        constructor <;> simp [hf.lockNext, hf.wait]
  | giveUp hr =>
    exact h.of_unqueued rfl (fun m hm => setRole_ne hm) (fun lk r => by simp [hr])
      (fun _ _ => rfl) fun k hk => by simp at hk
  | push hr => exact h.push hr
  | @pushFirst lk hr _ htail =>
    have hpush : McsInv (c.push lk n (c.pushRole lk)) := h.push hr
    have hfirst : c.pushRole lk = .firstRead := by simp only [McsView.pushRole, htail]
    rw [hfirst] at hpush
    exact hpush.enter setRole_self (.inl rfl) rfl rfl
  | link hr => cases tm <;> exact h.link hr rfl rfl
  | see hr | read hr =>
    exact h.moveRole hr rfl rfl rfl fun j he => he.change rfl rfl nofun nofun nofun
  | give hr =>
    exact h.giveCnt hr rfl rfl rfl fun j he => he.change rfl rfl nofun nofun nofun
  | @wake lk cnt hr hwait =>
    -- its flag is cleared, so it is the first
    refine h.moveRole hr rfl rfl rfl fun j he => ?_
    obtain ⟨-, hzero⟩ := (h.queue lk).first hr (.inr hwait)
    have hj := hzero.turn.symm.trans he.turn
    obtain rfl : j = 0 := by omega
    exact { he with
      behind := fun hpos => absurd hpos (Nat.lt_irrefl 0)
      wait := nofun
      pred := nofun
      awaits := nofun
      hands := nofun
      clears := nofun }
  | wakeHolds hr hwait => exact h.enter hr (.inr hwait) rfl rfl
  | serve hr | firstServe hr =>
    exact (h.setServing _).enter (r := _) hr (.inl rfl) rfl rfl
  | firstRead hr | firstAgain hr =>
    exact h.moveRole hr rfl rfl rfl fun j he => he.change rfl rfl nofun nofun nofun
  | firstGive hr =>
    exact h.giveCnt hr rfl rfl rfl fun j he => he.change rfl rfl nofun nofun nofun
  | close hr =>
    exact h.moveRole hr rfl rfl rfl fun j he => he.change rfl rfl nofun nofun nofun
  | next hr hnext =>
    rcases hr with hr | hr <;>
      exact h.moveRole hr rfl rfl rfl fun j he => he.change rfl rfl nofun (fun _ => hnext) nofun
  | @await lk hr htail =>
    refine h.moveRole hr rfl rfl rfl fun j he => he.change rfl rfl (fun _ hnone => ?_) nofun nofun
    -- it would be the last node, and `tail` would be it
    obtain ⟨hj, hzero⟩ := (h.queue lk).first hr (.inl rfl)
    have hj' := hzero.turn.symm.trans he.turn
    obtain rfl : j = 0 := by omega
    have hlen := List.getElem?_eq_none_iff.mp hnone
    have hpos := (List.getElem?_eq_some_iff.mp hj).1
    rw [(h.queue lk).tail, List.getLast?_eq_getElem?,
      show (c.queue lk).length - 1 = 0 by omega] at htail
    exact htail hj
  | @clearTail lk hr htail =>
    exact h.leave hr ((h.queue lk).clearTail hr rfl htail) (fun lk' hlk' => setLock_ne hlk') rfl
      fun _ => .inl rfl
  | halt x hr =>
    have hsame : ∀ m, ((c.setNode x { c.node x with speculate := false }).node m).lockNext =
        (c.node m).lockNext ∧ ((c.setNode x { c.node x with speculate := false }).node m).wait =
        (c.node m).wait ∧ ((c.setNode x { c.node x with speculate := false }).node m).turn =
        (c.node m).turn ∧ ((c.setNode x { c.node x with speculate := false }).node m).cnt =
        (c.node m).cnt := by
      intro m
      by_cases hm : m = x
      · subst hm
        simp
      · simp [hm]
    constructor
    · exact fun lk => (h.queue lk).frame rfl
        (fun m _ => ⟨(hsame m).1, (hsame m).2.1, (hsame m).2.2.1⟩) fun _ _ => .rfl
    · intro m k hk
      have hf := h.fresh m k hk
      obtain ⟨hnext, hwait, -, hcnt⟩ := hsame m
      exact ⟨by rw [hnext]; exact hf.lockNext, by rw [hwait]; exact hf.wait,
        by rw [hcnt]; exact hf.cnt⟩
  | successor hr hnext =>
    exact h.moveRole hr rfl rfl rfl fun j he => he.change rfl rfl nofun nofun fun m hm => by
      obtain rfl := QueueRole.clearing.inj hm
      exact hnext
  | @hand lk m hr =>
    obtain ⟨-, he⟩ := (h.queue lk).first hr (.inl rfl)
    have hnext := he.clears m rfl
    refine h.leave hr ((h.queue lk).hand hr rfl hnext) (fun _ _ => rfl) rfl fun x => ?_
    by_cases hx : x = m
    · obtain ⟨q, hq⟩ := (h.queue lk).queue_eq_cons hr rfl hnext
      exact .inr (((h.queue lk).mem x).mp (by rw [hq, hx]; simp))
    · exact .inl (setNode_ne hx)
  | drop hr =>
    exact h.of_unqueued rfl (fun m hm => setRole_ne hm) (fun lk r => by simp [hr])
      (fun m hm => setNode_ne hm) fun k hk => by simp at hk

end McsInv

end TxLock.Spec
