import Mathlib.Data.Fintype.Card
import TxLock.Native.McsHtm
import TxLock.Spec.McsRelative

/-!
# The handover of `mcs_tm` halts the speculators

A waiter speculates when its number says that it is not too close to the front and not too
far from it. The thread that hands the lock over walks along the queue before, and clears the
flag `speculate` of the waiters at these distances. The window of the waiters is wider while
`now_serving` lags behind, by one place at the front; there the walk has cleared the flag by
the time the queue moves on.

## Key results

- `McsState.ahead_move`: the walk comes to every waiter that has a number and may speculate
- `McsState.HaltOk.step`: how far from the front a waiter is whose flag is set
- `McsState.walkLeft_move`: the walk ends
- `mcs_halts`: the handover of the lock
- `mcs_halts_unread`: a transaction that has just begun is not aborted at once
-/

namespace TxLock.Spec

open Native McsView

variable {Tid Lid : Type}

/-- The lock, the node and the position of a thread that speculates or is about to. -/
def McsPc.speculation : McsPc Tid Lid → Option (Lid × Nat × BitVec 64)
  | .htmBegin lk n cnt | .checkSpeculate lk n cnt | .checkWait lk n cnt
  | .speculating lk n cnt => some (lk, n, cnt)
  | .out | .initLockNext _ _ _ | .initWait _ _ _ | .initSpeculate _ _ _ | .initCnt _ _ _
  | .swapTail _ _ | .casTail _ _ | .link _ _ _ | .spinWait _ _ | .spinCnt _ _ _ | .readCnt _ _ _
  | .writeCnt _ _ _ | .readServing _ _ _ | .spinWaitTm _ _ _ | .assertServing _ _ _
  | .writeServing _ _ _ | .firstRead _ _ | .firstWriteCnt _ _ _ | .firstReadAgain _ _
  | .firstWrite _ _ _ | .readNext _ _ | .clearTail _ _ | .spinNext _ _ | .haltFirst _ _
  | .haltAt _ _ _ _ | .haltNext _ _ _ _ | .readSuccessor _ _ | .clearWait _ _ _
  | .dealloc _ _ => none

/-- The lock and the node of a thread that hands over, from the start of the walk on. -/
def McsPc.handover : McsPc Tid Lid → Option (Lid × Nat)
  | .haltFirst lk n | .haltAt lk n _ _ | .haltNext lk n _ _ | .readSuccessor lk n
  | .clearWait lk n _ => some (lk, n)
  | .out | .initLockNext _ _ _ | .initWait _ _ _ | .initSpeculate _ _ _ | .initCnt _ _ _
  | .swapTail _ _ | .casTail _ _ | .link _ _ _ | .spinWait _ _ | .spinCnt _ _ _ | .readCnt _ _ _
  | .writeCnt _ _ _ | .readServing _ _ _ | .htmBegin _ _ _ | .checkSpeculate _ _ _
  | .checkWait _ _ _ | .speculating _ _ _ | .spinWaitTm _ _ _ | .assertServing _ _ _
  | .writeServing _ _ _ | .firstRead _ _ | .firstWriteCnt _ _ _ | .firstReadAgain _ _
  | .firstWrite _ _ _ | .readNext _ _ | .clearTail _ _ | .spinNext _ _ | .dealloc _ _ => none

theorem McsPc.eq_none_of_isPlain {pc : McsPc Tid Lid} (h : McsPc.isPlain pc = true) :
    McsPc.speculation pc = none ∧ McsPc.handover pc = none := by
  cases pc <;> first | exact ⟨rfl, rfl⟩ | simp [McsPc.isPlain] at h

theorem McsPc.handover_of_speculation {pc : McsPc Tid Lid} {x : Lid × Nat × BitVec 64}
    (h : McsPc.speculation pc = some x) : McsPc.handover pc = none := by
  cases pc <;> first | rfl | simp [McsPc.speculation] at h

namespace McsState

/-- The walk of a thread at `pc` has yet to come to the node with the turn `k`. -/
def Ahead (s : McsState Tid Lid) (k : Nat) : McsPc Tid Lid → Prop
  | .haltFirst _ _ => True
  | .haltAt _ _ (some x) _ => (s.node x).turn ≤ k
  | .haltNext _ _ x _ => (s.node x).turn < k
  | _ => False

/-- The node a walk is at. -/
def WalkAt (s : McsState Tid Lid) (t : Tid) (lk : Lid) (x : Tid × Nat) (d : Word) : Prop :=
  ∃ n, (s.thread t).pc = .haltAt lk n (some x) d ∨ (s.thread t).pc = .haltNext lk n x d

end McsState

/-! ## What the steps leave of a queue -/

section

variable [DecidableEq Tid] [DecidableEq Lid] {c c' : McsView Tid Lid} {lk : Lid}
  {n x : Tid × Nat} {r : QueueRole Tid} {tm : Bool}

/-- A node keeps its turn while it is in a queue. -/
theorem McsStep.turn_eq (hs : McsStep tm c n c') (hx : c.role x = .queued lk r) :
    (c'.node x).turn = (c.node x).turn := by
  by_cases hxn : x = n
  · subst hxn
    have hset : ∀ {m : Tid × Nat} {v : McsNode Tid}, v.turn = (c.node m).turn →
        ((c.setNode m v).node x).turn = (c.node x).turn := by
      intro m v hv
      by_cases hm : x = m
      · subst hm
        rw [setNode_self, hv]
      · rw [setNode_ne hm]
    cases hs with
    | prepare hr | initLockNext hr | initWait hr | initSpeculate hr | initCnt hr | giveUp hr
    | push hr | pushFirst hr | drop hr => simp [hr] at hx
    | see | read | wake | wakeHolds | serve | firstRead | firstAgain | firstServe | close | next
    | await | successor | clearTail => rfl
    | link | halt | hand => exact hset rfl
    | @give _ cnt | @firstGive _ cnt => exact hset (v := { c.node x with cnt := cnt }) rfl
  · exact (hs.node_ne hxn).2

/-- The queue keeps its nodes in their places until one leaves. -/
theorem McsStep.queue_kept (hinv : McsInv c) (hs : McsStep tm c n c') {j : Nat}
    (hrel : (c'.lock lk).released = (c.lock lk).released) (hx : (c.queue lk)[j]? = some x) :
    (c'.queue lk)[j]? = some x := by
  have hturns := hs.turns_node hinv lk
  rw [queue_getElem?, ← List.getElem?_map] at hx ⊢
  rw [hrel, hturns]
  exact (List.getElem?_append_left (List.getElem?_eq_some_iff.mp hx).1).trans hx

end

/-! ## The walk -/

namespace McsState

/-- What every run of `mcs_tm` keeps. -/
structure Sound (s : McsState Tid Lid) : Prop where
  ok : ThreadsOk s
  inv : McsInv (McsState.view s)
  rel : McsRel (McsState.view s)
  serve : ServeOk s

/-- A walk is at a node of the queue, and counts its place. -/
def WalkOk (s : McsState Tid Lid) : Prop :=
  ∀ t lk x d, WalkAt s t lk x d →
    ∃ i, 0 < i ∧ ((McsState.view s).queue lk)[i]? = some x ∧ d = BitVec.ofNat 32 i

theorem role_of_speculation {s : McsState Tid Lid} {u : Tid} {lk : Lid} {k : Nat}
    {cnt : BitVec 64}
    (h : McsPc.speculation (s.thread u).pc = some (lk, k, cnt)) :
    (McsState.view s).role (u, k) = .queued lk (.waiting (some cnt)) := by
  apply McsThread.role_self
  generalize (s.thread u).pc = pc at h
  cases pc <;> simp only [McsPc.speculation, Option.some.injEq, Prod.mk.injEq, reduceCtorEq] at h <;>
    obtain ⟨rfl, rfl, rfl⟩ := h <;> rfl

theorem role_of_handover {s : McsState Tid Lid} {t : Tid} {lk : Lid} {n : Nat}
    (h : McsPc.handover (s.thread t).pc = some (lk, n)) :
    ∃ r, (McsState.view s).role (t, n) = .queued lk r ∧ r.isHolding = true := by
  have hrole : ∃ r, McsPc.role? (s.thread t).pc = some (n, .queued lk r) ∧ r.isHolding = true := by
    generalize (s.thread t).pc = pc at h
    cases pc <;> simp only [McsPc.handover, Option.some.injEq, Prod.mk.injEq, reduceCtorEq] at h <;>
      obtain ⟨rfl, rfl⟩ := h <;> exact ⟨_, rfl, rfl⟩
  obtain ⟨r, hr, hhold⟩ := hrole
  exact ⟨r, McsThread.role_self hr, hhold⟩

/-- The node of a thread that hands over is the first of its queue. -/
theorem Sound.first {s : McsState Tid Lid} {t : Tid} {lk : Lid} {n : Nat} (h : Sound s)
    (hpc : McsPc.handover (s.thread t).pc = some (lk, n)) :
    ((McsState.view s).queue lk)[0]? = some (t, n) := by
  obtain ⟨r, hr, hhold⟩ := role_of_handover hpc
  exact ((h.inv.queue lk).first hr (.inl (QueueRole.not_isBehind_of_isHolding hhold))).1

/-- Only one thread hands over. -/
theorem Sound.handover_inj {s : McsState Tid Lid} {t u : Tid} {lk : Lid} {n m : Nat} (h : Sound s)
    (ht : McsPc.handover (s.thread t).pc = some (lk, n))
    (hu : McsPc.handover (s.thread u).pc = some (lk, m)) : t = u := by
  have hfirst := (h.first ht).symm.trans (h.first hu)
  exact (Prod.mk.inj (Option.some.inj hfirst)).1

theorem Sound.turn_eq {s : McsState Tid Lid} {lk : Lid} {j : Nat} {x : Tid × Nat} (h : Sound s)
    (hx : ((McsState.view s).queue lk)[j]? = some x) :
    (s.node x).turn = (s.lock lk).released + j := by
  obtain ⟨r, hr⟩ := (h.inv.queue lk).queued hx
  exact ((h.inv.queue lk).entry j x r hx hr).turn

/-- A node that may speculate behind the first, by its turn. -/
theorem Sound.index_of_speculation {s : McsState Tid Lid} {u : Tid} {lk : Lid} {k : Nat}
    {cnt : BitVec 64} (h : Sound s) (hpc : McsPc.speculation (s.thread u).pc = some (lk, k, cnt)) :
    ∃ j, ((McsState.view s).queue lk)[j]? = some (u, k) ∧
      (s.node (u, k)).turn = (s.lock lk).released + j ∧ (s.node (u, k)).cnt = cnt := by
  have hr := role_of_speculation hpc
  obtain ⟨j, hj, he⟩ := (h.inv.queue lk).exists_index hr
  have hcnt : cnt = (s.node (u, k)).cnt := Option.some.inj ((h.rel lk).entry _ _ hr)
  exact ⟨j, hj, he.turn, hcnt.symm⟩

section

variable [DecidableEq Tid] [DecidableEq Lid] {cfg : TmParams} {s s' : McsState Tid Lid}
  {t u : Tid} {lk : Lid} {n k : Nat} {cnt : BitVec 64} {a : McsAct Tid Lid}

omit [DecidableEq Lid] in
theorem halt_turn (x y : Tid × Nat) (d : Word) :
    ((McsState.halt cfg s x d).node y).turn = (s.node y).turn := by
  unfold McsState.halt
  split
  · by_cases hy : y = x
    · subst hy
      simp [McsState.setNode]
    · simp [McsState.setNode, hy]
  · rfl

theorem toNat_distance {d : Word} {i j : Nat} (hd : d = BitVec.ofNat 32 i) (hij : i ≤ j)
    (hj : j ≤ cfg.maxDistance.toNat) : d.toNat = i := by
  have hlt := cfg.maxDistance.isLt
  rw [hd, BitVec.toNat_ofNat]
  exact Nat.mod_eq_of_lt (by omega)

omit [DecidableEq Lid] in
/-- The walk does not leave out a node at one of the distances at which it halts, if the
    node has its position, and clears its flag when it is there. -/
theorem ahead_move (h : Sound s) (hwalk : WalkOk s) (hmove : McsMove cfg s t s') {y : Tid × Nat}
    {j : Nat} (hy : ((McsState.view s).queue lk)[j]? = some y) (hc : (s.node y).cnt ≠ 0)
    (hpos : 0 < j) (hmin : cfg.minDistance.toNat ≤ j) (hmax : j ≤ cfg.maxDistance.toNat)
    (hpc : McsPc.handover (s.thread t).pc = some (lk, n))
    (hpc' : McsPc.handover (s'.thread t).pc = some (lk, n))
    (hah : Ahead s (s.node y).turn (s.thread t).pc) (hflag : (s'.node y).speculate = true) :
    Ahead s' (s.node y).turn (s'.thread t).pc := by
  have hyt := h.turn_eq hy
  -- the next node of the walk, while it is before `y`
  have hnext : ∀ i x, i < j → ((McsState.view s).queue lk)[i]? = some x →
      ∃ z, (s.node x).lockNext = some z ∧ (s.node z).turn = (s.lock lk).released + i + 1 := by
    intro i x hij hx
    obtain ⟨z, hz, hlink⟩ := (h.rel lk).lockNext_eq (h.inv.queue lk) hy hc hij hx
    exact ⟨z, hlink, h.turn_eq hz⟩
  cases hmove with
  | window hp | start hp | checkSpeculate hp | checkWait hp | inside hp | assert hp =>
    rw [hp] at hpc
    exact nomatch hpc
  | halting hp => rcases hp with hp | hp <;> exact nomatch hp ▸ hpc
  | haltEnd hp | successor hp | crash hp =>
    rw [hp] at hah
    exact hah.elim
  | other hplain =>
    rw [(McsPc.eq_none_of_isPlain hplain).2] at hpc'
    exact nomatch hpc'
  | haltFirst hp =>
    have hfirst := h.first hpc
    rw [hp] at hpc
    obtain ⟨rfl, rfl⟩ := Prod.mk.inj (Option.some.inj hpc)
    obtain ⟨z, hlink, hz⟩ := hnext 0 _ hpos hfirst
    rw [goto_self, hlink]
    show (s.node z).turn ≤ _
    omega
  | @haltAt lk' n' x d hp hd =>
    rw [hp] at hpc hah
    obtain ⟨rfl, rfl⟩ := Prod.mk.inj (Option.some.inj hpc)
    obtain ⟨i, hi, hx, hdist⟩ := hwalk t _ x d ⟨_, .inl hp⟩
    have hxt := h.turn_eq hx
    have hle : (s.node x).turn ≤ (s.node y).turn := hah
    have hdn := toNat_distance hdist (j := j) (by omega) hmax
    rw [goto_self]
    show ((McsState.halt cfg s x d).node x).turn < _
    rw [halt_turn]
    by_contra hge
    -- the walk is at `y`
    obtain rfl : i = j := by omega
    rw [hx, Option.some.injEq] at hy
    subst hy
    have hlt := (halt_speculate hflag).2 rfl
    rw [BitVec.lt_def] at hlt
    omega
  | @haltBreak lk' n' x d hp hd =>
    rw [hp] at hpc hah
    obtain ⟨rfl, rfl⟩ := Prod.mk.inj (Option.some.inj hpc)
    obtain ⟨i, hi, hx, hdist⟩ := hwalk t _ x d ⟨_, .inl hp⟩
    have hxt := h.turn_eq hx
    have hle : (s.node x).turn ≤ (s.node y).turn := hah
    have hdn := toNat_distance hdist (j := j) (by omega) hmax
    have hgt := BitVec.lt_def.mp hd
    omega
  | @haltNext lk' n' x d hp =>
    rw [hp] at hpc hah
    obtain ⟨rfl, rfl⟩ := Prod.mk.inj (Option.some.inj hpc)
    obtain ⟨i, hi, hx, hdist⟩ := hwalk t _ x d ⟨_, .inr hp⟩
    have hxt := h.turn_eq hx
    have hlt : (s.node x).turn < (s.node y).turn := hah
    obtain ⟨z, hlink, hz⟩ := hnext i x (by omega) hx
    rw [goto_self, hlink]
    show (s.node z).turn ≤ _
    omega

/-! ## What a step leaves of the walks and the waiters -/

/-- A node leaves the queue at the swap of `tail` for `NULL` or when the flag of its successor
    is cleared. -/
theorem released_cases (hs : s.step cfg true a = some s') (lk : Lid) :
    (s'.lock lk).released = (s.lock lk).released ∨
      (s'.lock lk).released = (s.lock lk).released + 1 ∧ ∃ n,
        ((s.thread (McsAct.tid a)).pc = .clearTail lk n ∧
          (s.lock lk).tail = some (McsAct.tid a, n)) ∨
        ∃ m, (s.thread (McsAct.tid a)).pc = .clearWait lk n m := by
  have hstep := released_step hs lk
  unfold departs at hstep
  cases a with
  | lock | trylock | unlock | htmStart | htmAbort => exact .inl hstep
  | run t =>
    simp only at hstep
    split at hstep
    · rename_i lk' n hpc
      split at hstep
      · rename_i hcond
        obtain ⟨rfl, htail⟩ := hcond
        exact .inr ⟨hstep, n, .inl ⟨hpc, htail⟩⟩
      · exact .inl hstep
    · rename_i lk' n m hpc
      split at hstep
      · rename_i hlk
        subst hlk
        exact .inr ⟨hstep, n, .inr ⟨m, hpc⟩⟩
      · exact .inl hstep
    · exact .inl hstep

/-- No other thread takes a node out of the queue during a handover. -/
theorem Sound.released_eq (h : Sound s) (hs : s.step cfg true a = some s')
    (hpc : McsPc.handover (s.thread t).pc = some (lk, n)) (ht : t ≠ McsAct.tid a) :
    (s'.lock lk).released = (s.lock lk).released := by
  rcases released_cases hs lk with hsame | ⟨-, m, hpop⟩
  · exact hsame
  have hrole : ∃ r, (McsState.view s).role (McsAct.tid a, m) = .queued lk r ∧
      r.isBehind = false := by
    rcases hpop with ⟨hp, -⟩ | ⟨x, hp⟩
    · exact ⟨.closing, McsThread.role_self (by rw [hp]; rfl), rfl⟩
    · exact ⟨.clearing x, McsThread.role_self (by rw [hp]; rfl), rfl⟩
  obtain ⟨r, hr, hfront⟩ := hrole
  have hfirst := ((h.inv.queue lk).first hr (.inl hfront)).1.symm.trans (h.first hpc)
  exact absurd (Prod.mk.inj (Option.some.inj hfirst)).1.symm ht

theorem queue_step (h : Sound s) (hs : s.step cfg true a = some s') {j : Nat} {x : Tid × Nat}
    (hrel : (s'.lock lk).released = (s.lock lk).released)
    (hx : ((McsState.view s).queue lk)[j]? = some x) :
    ((McsState.view s').queue lk)[j]? = some x := by
  rcases view_step h.ok hs with hsame | ⟨i, hstep⟩
  · rw [hsame]
    exact hx
  · exact hstep.queue_kept h.inv hrel hx

theorem turn_step (h : Sound s) (hs : s.step cfg true a = some s') {j : Nat} {x : Tid × Nat}
    (hx : ((McsState.view s).queue lk)[j]? = some x) :
    (s'.node x).turn = (s.node x).turn := by
  obtain ⟨r, hr⟩ := (h.inv.queue lk).queued hx
  rcases view_step h.ok hs with hsame | ⟨i, hstep⟩
  · exact congrArg (fun c => (McsView.node c x).turn) hsame
  · exact hstep.turn_eq hr

omit [DecidableEq Lid] in
/-- Only its own thread sets the flag of a node. -/
theorem speculate_move (hmove : McsMove cfg s t s') {x : Tid × Nat} (hx : x.1 ≠ t)
    (hflag : (s'.node x).speculate = true) : (s.node x).speculate = true := by
  cases hmove with
  | window | start | checkSpeculate | checkWait | inside | assert | halting | haltFirst | haltEnd
  | haltNext | successor | crash => exact hflag
  | haltAt | haltBreak => exact (halt_speculate hflag).1
  | other _ hflags => exact (hflags x hx).symm.trans hflag

/-- The walk of another thread stays where it is. -/
theorem Ahead.step (h : Sound s) (hwalk : WalkOk s) (hs : s.step cfg true a = some s') {i : Nat}
    (hah : Ahead s i (s.thread t).pc) : Ahead s' i (s.thread t).pc := by
  have hturn : ∀ lk x d, WalkAt s t lk x d → (s'.node x).turn = (s.node x).turn := by
    intro lk x d hat
    obtain ⟨j, -, hx, -⟩ := hwalk t lk x d hat
    exact turn_step h hs hx
  cases hpc : (s.thread t).pc with
  | haltFirst => trivial
  | haltAt lk n x d =>
    rw [hpc] at hah
    cases x with
    | none => exact hah
    | some x =>
      show (s'.node x).turn ≤ i
      rw [hturn lk x d ⟨n, .inl hpc⟩]
      exact hah
  | haltNext lk n x d =>
    rw [hpc] at hah
    show (s'.node x).turn < i
    rw [hturn lk x d ⟨n, .inr hpc⟩]
    exact hah
  | _ =>
    rw [hpc] at hah
    exact hah.elim

omit [DecidableEq Lid] in
/-- A walk goes from a node to the one behind it. -/
theorem walk_move (h : Sound s) (hwalk : WalkOk s) (hmove : McsMove cfg s t s') {x : Tid × Nat}
    {d : Word} (hat : WalkAt s' t lk x d) :
    ∃ i, 0 < i ∧ ((McsState.view s').queue lk)[i]? = some x ∧ d = BitVec.ofNat 32 i := by
  obtain ⟨n, hat⟩ := hat
  -- the link of a node in the queue
  have hnext : ∀ {lk : Lid} {i : Nat} {x z : Tid × Nat},
      ((McsState.view s).queue lk)[i]? = some x → (s.node x).lockNext = some z →
        ((McsState.view s).queue lk)[i + 1]? = some z := by
    intro lk i x z hx hz
    obtain ⟨r, hr⟩ := (h.inv.queue lk).queued hx
    have hlink := ((h.inv.queue lk).entry i x r hx hr).next
    have hlink' := hlink.symm.trans hz
    exact (Option.filter_eq_some_iff.mp hlink').1
  cases hmove with
  | window | start | checkSpeculate | assert | halting | haltEnd | haltBreak | successor =>
    rw [goto_self] at hat
    rcases hat with hat | hat <;> exact nomatch hat
  | checkWait =>
    rw [setThread_self] at hat
    rcases hat with hat | hat <;> exact nomatch hat
  | inside hp | crash hp =>
    rcases hat with hat | hat <;> exact nomatch hp.symm.trans hat
  | other hplain => rcases hat with hat | hat <;> exact nomatch hat ▸ hplain
  | @haltFirst lk' n' hp =>
    have hover : McsPc.handover (s.thread t).pc = some (lk', n') := by rw [hp]; rfl
    have hfirst := h.first hover
    rw [goto_self] at hat
    rcases hat with hat | hat
    · obtain ⟨rfl, rfl, hz, rfl⟩ := McsPc.haltAt.inj hat
      exact ⟨1, Nat.one_pos, hnext hfirst hz, rfl⟩
    · exact nomatch hat
  | @haltAt lk' n' x' d' hp =>
    obtain ⟨i, hi, hx, hd⟩ := hwalk t lk' x' d' ⟨n', .inl hp⟩
    rw [goto_self] at hat
    rcases hat with hat | hat
    · exact nomatch hat
    · obtain ⟨rfl, rfl, rfl, rfl⟩ := McsPc.haltNext.inj hat
      refine ⟨i, hi, ?_, hd⟩
      rw [McsView.queue_congr (c := McsState.view s) (congrFun (halt_lock x' d') lk')]
      exact hx
  | @haltNext lk' n' x' d' hp =>
    obtain ⟨i, hi, hx, hd⟩ := hwalk t lk' x' d' ⟨n', .inr hp⟩
    rw [goto_self] at hat
    rcases hat with hat | hat
    · obtain ⟨rfl, rfl, hz, rfl⟩ := McsPc.haltAt.inj hat
      refine ⟨i + 1, Nat.succ_pos i, hnext hx hz, ?_⟩
      rw [hd, BitVec.ofNat_add]
      rfl
    · exact nomatch hat

omit [DecidableEq Tid] [DecidableEq Lid] in
theorem WalkAt.handover {x : Tid × Nat} {d : Word} (hat : WalkAt s t lk x d) :
    ∃ n, McsPc.handover (s.thread t).pc = some (lk, n) := by
  obtain ⟨n, hat | hat⟩ := hat <;> exact ⟨n, by rw [hat]; rfl⟩

theorem WalkOk.step (h : Sound s) (hwalk : WalkOk s) (hs : s.step cfg true a = some s') :
    WalkOk s' := by
  intro t lk x d hat
  by_cases ht : t = McsAct.tid a
  · subst ht
    exact walk_move h hwalk (step_move hs) hat
  · have hat' : WalkAt s t lk x d := by
      unfold WalkAt at hat
      rw [step_thread hs ht] at hat
      exact hat
    obtain ⟨n, hpc⟩ := hat'.handover
    obtain ⟨i, hi, hx, hd⟩ := hwalk t lk x d hat'
    exact ⟨i, hi, queue_step h hs (h.released_eq hs hpc ht) hx, hd⟩

/-! ## The window -/

omit [DecidableEq Tid] [DecidableEq Lid] in
/-- The window of a position that is not negative, where no subtraction overflows. -/
theorem inWindow_iff {now cnt : BitVec 64} (hcnt : 0 ≤ cnt.toInt) :
    inWindow cfg now cnt = true ↔ now.toInt < cnt.toInt - cfg.minDistance.toNat ∧
      cnt.toInt - cfg.maxDistance.toNat < now.toInt := by
  have hsub : ∀ d : Word, (cnt - d.setWidth 64).toInt = cnt.toInt - d.toNat := by
    intro d
    have hlt := d.isLt
    have hd : (d.setWidth 64).toInt = d.toNat := by
      rw [BitVec.toInt_eq_toNat_of_lt, BitVec.toNat_setWidth_of_le (by decide)]
      rw [BitVec.toNat_setWidth_of_le (by decide)]
      omega
    have hupper := BitVec.toInt_lt (x := cnt)
    rw [BitVec.toInt_sub, hd]
    exact Int.bmod_eq_of_le (by omega) (by omega)
  simp only [inWindow, Bool.and_eq_true, BitVec.slt_iff_toInt_lt, hsub]

/-- A waiter that speculates or is about to, with its flag set and the position that its turn
    says, is at one of the distances at which the walk halts. The nearest of them is only in
    the window while `now_serving` lags behind, or until the walk comes to it. -/
structure HaltOk (cfg : TmParams) (s : McsState Tid Lid) : Prop where
  walk : WalkOk s
  /-- The position has not wrapped to 0. -/
  numbered : ∀ u lk k cnt, (s.lock lk).turns.length < 2 ^ 63 →
    McsPc.speculation (s.thread u).pc = some (lk, k, cnt) → cnt ≠ 0
  window : ∀ u lk k cnt, (s.lock lk).turns.length < 2 ^ 63 →
    McsPc.speculation (s.thread u).pc = some (lk, k, cnt) →
    (s.node (u, k)).speculate = true → (s.lock lk).released < (s.node (u, k)).turn →
    cnt = BitVec.ofNat 64 ((s.node (u, k)).turn + 1) →
      (s.lock lk).released + cfg.minDistance.toNat ≤ (s.node (u, k)).turn ∧
      (s.node (u, k)).turn < (s.lock lk).released + cfg.maxDistance.toNat ∧
      ∀ t n, McsPc.handover (s.thread t).pc = some (lk, n) →
        (s.node (u, k)).turn = (s.lock lk).released + cfg.minDistance.toNat →
          Ahead s (s.node (u, k)).turn (s.thread t).pc

omit [DecidableEq Tid] [DecidableEq Lid] in
theorem toInt_ofNat {k : Nat} (hk : k < 2 ^ 63) : (BitVec.ofNat 64 k).toInt = k := by
  have hmod : (BitVec.ofNat 64 k).toNat = k := by
    rw [BitVec.toNat_ofNat, Nat.mod_eq_of_lt (by omega)]
  rw [BitVec.toInt_eq_toNat_of_lt (by rw [hmod]; omega), hmod]

omit [DecidableEq Tid] [DecidableEq Lid] in
/-- `now_serving` is the number of acquisitions granted. -/
theorem Sound.nowServing_eq (h : Sound s) (hroom : (s.lock lk).turns.length < 2 ^ 63) :
    (s.lock lk).nowServing.toInt = (McsState.view s).served lk := by
  have hserving : (s.lock lk).nowServing = BitVec.ofNat 64 ((McsState.view s).served lk) :=
    (h.rel lk).serving
  have hle : (McsState.view s).served lk ≤ (s.lock lk).turns.length := (h.inv.queue lk).served_le
  rw [hserving, toInt_ofNat (by omega)]

omit [DecidableEq Tid] [DecidableEq Lid] in
/-- Nobody decides to speculate with the position 0. -/
theorem window_numbered (h : Sound s) (hroom : (s.lock lk).turns.length < 2 ^ 63)
    (hin : inWindow cfg (s.lock lk).nowServing cnt = true) : cnt ≠ 0 := by
  rintro rfl
  have hlow := ((inWindow_iff (by decide)).mp hin).1
  have hzero : (0 : BitVec 64).toInt = 0 := rfl
  rw [h.nowServing_eq hroom, hzero] at hlow
  omega

omit [DecidableEq Tid] [DecidableEq Lid] in
/-- A waiter that has just read `now_serving`. -/
theorem window_enter (h : Sound s) (hroom : (s.lock lk).turns.length < 2 ^ 63)
    (hin : inWindow cfg (s.lock lk).nowServing cnt = true)
    (hcnt : cnt = BitVec.ofNat 64 ((s.node (u, k)).turn + 1))
    (hturn : (s.node (u, k)).turn < (s.lock lk).turns.length) :
    (s.lock lk).released + cfg.minDistance.toNat ≤ (s.node (u, k)).turn ∧
      (s.node (u, k)).turn < (s.lock lk).released + cfg.maxDistance.toNat ∧
      ∀ t n, McsPc.handover (s.thread t).pc = some (lk, n) →
        (s.node (u, k)).turn ≠ (s.lock lk).released + cfg.minDistance.toNat := by
  have hpos : cnt.toInt = ((s.node (u, k)).turn + 1 : Nat) := by
    rw [hcnt, toInt_ofNat (by omega)]
  obtain ⟨hlow, hhigh⟩ := (inWindow_iff (by omega)).mp hin
  rw [h.nowServing_eq hroom, hpos] at hlow hhigh
  have hserved : (McsState.view s).served lk = (s.lock lk).released ∨
      (McsState.view s).served lk = (s.lock lk).released + 1 := by
    unfold McsView.served
    split
    · exact .inr rfl
    · exact .inl rfl
  refine ⟨by omega, by omega, fun t n ht => ?_⟩
  -- the lock is held, so `now_serving` does not lag behind
  obtain ⟨r, hr, hhold⟩ := role_of_handover ht
  have hone : (McsState.view s).served lk = (s.lock lk).released + 1 :=
    (h.inv.queue lk).served_of_holding hr hhold
  omega

omit [DecidableEq Lid] in
/-- A waiter goes on inside its speculation, or has just decided for it. -/
theorem speculation_move (hmove : McsMove cfg s u s')
    (hpc : McsPc.speculation (s'.thread u).pc = some (lk, k, cnt)) :
    s'.node = s.node ∧ s'.lock = s.lock ∧ (∀ t, t ≠ u → s'.thread t = s.thread t) ∧
      (McsPc.speculation (s.thread u).pc = some (lk, k, cnt) ∨
        (s.thread u).pc = .readServing lk k cnt ∧
          inWindow cfg (s.lock lk).nowServing cnt = true) := by
  cases hmove with
  | assert | halting | haltFirst | haltEnd | haltAt | haltBreak | haltNext | successor =>
    rw [goto_self] at hpc
    exact nomatch hpc
  | crash hp => exact nomatch hp ▸ hpc
  | other hplain =>
    rw [(McsPc.eq_none_of_isPlain hplain).1] at hpc
    exact nomatch hpc
  | window hp hin =>
    rw [goto_self] at hpc
    obtain ⟨rfl, rfl, rfl⟩ : _ = lk ∧ _ = k ∧ _ = cnt := by simpa [McsPc.speculation] using hpc
    exact ⟨rfl, rfl, fun t ht => goto_thread _ ht, .inr ⟨hp, hin⟩⟩
  | start hp | checkSpeculate hp =>
    rw [goto_self] at hpc
    exact ⟨rfl, rfl, fun t ht => goto_thread _ ht, .inl (by rw [hp]; exact hpc)⟩
  | checkWait hp =>
    rw [setThread_self] at hpc
    exact ⟨rfl, rfl, fun t ht => setThread_thread _ ht, .inl (by rw [hp]; exact hpc)⟩
  | inside => exact ⟨rfl, rfl, fun _ _ => rfl, .inl hpc⟩

omit [DecidableEq Lid] in
theorem handover_move (hmove : McsMove cfg s t s')
    (hpc : McsPc.handover (s'.thread t).pc = some (lk, n)) :
    (s'.thread t).pc = .haltFirst lk n ∨ McsPc.handover (s.thread t).pc = some (lk, n) := by
  cases hmove with
  | window | start | checkSpeculate | assert =>
    rw [goto_self] at hpc
    exact nomatch hpc
  | checkWait =>
    rw [setThread_self] at hpc
    exact nomatch hpc
  | inside hp | crash hp => exact .inr hpc
  | other hplain =>
    rw [(McsPc.eq_none_of_isPlain hplain).2] at hpc
    exact nomatch hpc
  | halting =>
    rw [goto_self] at hpc ⊢
    obtain ⟨rfl, rfl⟩ : _ = lk ∧ _ = n := by simpa [McsPc.handover] using hpc
    exact .inl rfl
  | haltFirst hp | haltEnd hp | haltAt hp | haltBreak hp | haltNext hp | successor hp =>
    rw [goto_self] at hpc
    rw [hp]
    exact .inr hpc

omit [DecidableEq Lid] in
theorem clearWait_move {m : Tid × Nat} (hmove : McsMove cfg s t s')
    (hpc : (s.thread t).pc = .clearWait lk n m) : McsPc.handover (s'.thread t).pc = none := by
  cases hmove with
  | other hplain => exact (McsPc.eq_none_of_isPlain hplain).2
  | halting hp => rcases hp with hp | hp <;> exact nomatch hp.symm.trans hpc
  | window hp | start hp | checkSpeculate hp | checkWait hp | inside hp | assert hp | haltFirst hp
  | haltEnd hp | haltAt hp | haltBreak hp | haltNext hp | successor hp | crash hp =>
    exact nomatch hp.symm.trans hpc

/-- A lock that has room for more acquisitions had it before. -/
theorem Sound.room (h : Sound s) (hs : s.step cfg true a = some s')
    (hroom : (s'.lock lk).turns.length < 2 ^ 63) : (s.lock lk).turns.length < 2 ^ 63 := by
  have hlen := (turns_length_step h.ok h.inv hs lk).1
  omega

/-- A waiter decides to speculate with a position that is not 0, and keeps it. -/
theorem HaltOk.numbered_step (hi : HaltOk cfg s) (h : Sound s) (hs : s.step cfg true a = some s')
    (hroom : (s'.lock lk).turns.length < 2 ^ 63)
    (hpc : McsPc.speculation (s'.thread u).pc = some (lk, k, cnt)) : cnt ≠ 0 := by
  have hroom := h.room hs hroom
  by_cases hu : u = McsAct.tid a
  · subst hu
    obtain ⟨-, -, -, hp | ⟨-, hin⟩⟩ := speculation_move (step_move hs) hpc
    · exact hi.numbered _ lk k cnt hroom hp
    · exact window_numbered h hroom hin
  · rw [step_thread hs hu] at hpc
    exact hi.numbered u lk k cnt hroom hpc

/-- Every step keeps how far from the front a waiter is whose flag is set. -/
theorem HaltOk.step (hi : HaltOk cfg s) (h : Sound s) (hs : s.step cfg true a = some s') :
    HaltOk cfg s' := by
  refine ⟨hi.walk.step h hs, fun u lk k cnt hroom hpc => hi.numbered_step h hs hroom hpc,
    fun u lk k cnt hroom hpc hflag hbehind hcnt => ?_⟩
  have hmove := step_move hs
  have hroom := h.room hs hroom
  by_cases hu : u = McsAct.tid a
  · subst hu
    obtain ⟨hnode, hlock, hthread, hp⟩ := speculation_move hmove hpc
    rw [hnode] at hflag hbehind hcnt ⊢
    rw [hlock] at hbehind ⊢
    have hother : ∀ t n, McsPc.handover (s'.thread t).pc = some (lk, n) → t ≠ McsAct.tid a := by
      intro t n ht he
      rw [he, McsPc.handover_of_speculation hpc] at ht
      exact nomatch ht
    rcases hp with hp | ⟨hp, hin⟩
    · obtain ⟨hlow, hhigh, hah⟩ := hi.window _ lk k cnt hroom hp hflag hbehind hcnt
      refine ⟨hlow, hhigh, fun t n ht hmin => ?_⟩
      have htn := hother t n ht
      rw [hthread t htn] at ht ⊢
      exact (hah t n ht hmin).step h hi.walk hs
    · have hr : (McsState.view s).role (McsAct.tid a, k) = .queued lk (.waiting (some cnt)) :=
        McsThread.role_self (by rw [hp]; rfl)
      have hturn := ((h.inv.queue lk).turn_bounds hr).2
      obtain ⟨hlow, hhigh, hne⟩ := window_enter h hroom hin hcnt hturn
      refine ⟨hlow, hhigh, fun t n ht hmin => ?_⟩
      rw [hthread t (hother t n ht)] at ht
      exact absurd hmin (hne t n ht)
  · rw [step_thread hs hu] at hpc
    obtain ⟨j, hj, hturn, hc⟩ := h.index_of_speculation hpc
    have hne := hi.numbered u lk k cnt hroom hpc
    have hkept := turn_step h hs hj
    rw [hkept] at hbehind hcnt ⊢
    have hold := speculate_move hmove (x := (u, k)) hu hflag
    rcases released_cases hs lk with hrel | ⟨hrel, m, hpop⟩
    · rw [hrel] at hbehind ⊢
      obtain ⟨hlow, hhigh, hah⟩ := hi.window u lk k cnt hroom hpc hold hbehind hcnt
      refine ⟨hlow, hhigh, fun t n ht hmin => ?_⟩
      by_cases hta : t = McsAct.tid a
      · subst hta
        rcases handover_move hmove ht with hp | hp
        · rw [hp]
          trivial
        · have hnow := hah _ n hp hmin
          exact ahead_move h hi.walk hmove hj (by rw [hc]; exact hne) (by omega) (by omega)
            (by omega) hp ht hnow hflag
      · rw [step_thread hs hta] at ht ⊢
        exact (hah t n ht hmin).step h hi.walk hs
    · rw [hrel] at hbehind ⊢
      rcases hpop with ⟨hp, htail⟩ | ⟨x, hp⟩
      · -- the last node of a queue has none behind it
        have hr : (McsState.view s).role (McsAct.tid a, m) = .queued lk .closing :=
          McsThread.role_self (by rw [hp]; rfl)
        have hsingle := (h.inv.queue lk).queue_eq_singleton hr rfl htail
        have hlt := (List.getElem?_eq_some_iff.mp hj).1
        rw [hsingle, List.length_singleton] at hlt
        omega
      · have hv : McsPc.handover (s.thread (McsAct.tid a)).pc = some (lk, m) := by rw [hp]; rfl
        obtain ⟨hlow, hhigh, hah⟩ := hi.window u lk k cnt hroom hpc hold (by omega) hcnt
        -- the walk is over, so the waiter is not at the nearest distance
        have hfar : (s.node (u, k)).turn ≠ (s.lock lk).released + cfg.minDistance.toNat := by
          intro hmin
          have hnow := hah _ m hv hmin
          rw [hp] at hnow
          exact hnow
        refine ⟨by omega, by omega, fun t n ht _ => ?_⟩
        by_cases hta : t = McsAct.tid a
        · subst hta
          rw [clearWait_move hmove hp] at ht
          exact nomatch ht
        · rw [step_thread hs hta] at ht
          exact absurd (h.handover_inj ht hv) hta

/-! ## Conflicts -/

omit [DecidableEq Lid] in
/-- A transaction that has read the word goes back to the real wait. -/
theorem conflict_of_mem {w : McsWord Tid}
    (h : w ∈ McsPc.readSet w.node.1 (s.thread w.node.1).pc) :
    ∃ lk k cnt, McsPc.speculation (s.thread w.node.1).pc = some (lk, k, cnt) ∧
      s.conflict w = s.goto w.node.1 (.spinWaitTm lk k cnt) := by
  unfold McsState.conflict
  simp only [h, if_true]
  unfold McsState.abortStep
  cases hpc : (s.thread w.node.1).pc <;> rw [hpc] at h <;>
    simp only [McsPc.readSet, List.not_mem_nil] at h
  case checkWait lk k cnt | speculating lk k cnt => exact ⟨lk, k, cnt, rfl, rfl⟩

omit [DecidableEq Lid] in
theorem conflict_of_not_mem {w : McsWord Tid}
    (h : w ∉ McsPc.readSet w.node.1 (s.thread w.node.1).pc) : s.conflict w = s := by
  unfold McsState.conflict
  simp only [h, if_false]

/-- A step that stores to one of the words fails no assertion. -/
theorem stores_aborted {w : McsWord Tid} (hw : s.stores cfg a = some w)
    (hs : s.step cfg true a = some s') : s'.aborted = false := by
  simp only [McsState.step] at hs
  split at hs
  · simp at hs
  rename_i hlive
  have hlive : s.aborted = false := by simpa using hlive
  cases a with
  | lock | trylock | unlock | htmStart | htmAbort => simp [McsState.stores] at hw
  | run t =>
    simp only [McsState.stores] at hw
    split at hw
    · rename_i hpc
      simp only [McsState.runLock, McsState.runUnlock, hpc, Option.or_none,
        Option.some.injEq] at hs
      exact hs ▸ hlive
    · rename_i hpc
      simp only [McsState.runLock, McsState.runUnlock, hpc, Option.or_none,
        Option.some.injEq] at hs
      exact hs ▸ hlive
    · rename_i hpc
      simp only [McsState.runLock, McsState.runUnlock, hpc, Option.none_or] at hs
      split at hs <;> split at hs <;> simp only [Option.some.injEq] at hs <;> exact hs ▸ hlive
    · rename_i hpc
      simp only [McsState.runLock, McsState.runUnlock, hpc, Option.none_or,
        Option.some.injEq] at hs
      exact hs ▸ hlive
    · simp at hw

/-- A step with its conflict is a step of `mcs_tm` and, after a conflict, an abort. -/
theorem htmStep_cases (hs : s.htmStep cfg a = some s') :
    ∃ s₁, s.step cfg true a = some s₁ ∧ (s' = s₁ ∨ ∃ u lk k cnt,
      McsPc.speculation (s₁.thread u).pc = some (lk, k, cnt) ∧
        s' = s₁.goto u (.spinWaitTm lk k cnt) ∧ s₁.step cfg true (.htmAbort u) = some s') := by
  obtain ⟨s₁, hs₁, rfl⟩ := Option.map_eq_some_iff.mp hs
  refine ⟨s₁, hs₁, ?_⟩
  cases hw : s.stores cfg a with
  | none => exact .inl rfl
  | some w =>
    by_cases hmem : w ∈ McsPc.readSet w.node.1 (s₁.thread w.node.1).pc
    · obtain ⟨lk, k, cnt, hspec, hconf⟩ := conflict_of_mem hmem
      refine .inr ⟨w.node.1, lk, k, cnt, hspec, hconf, ?_⟩
      have hlive := stores_aborted hw hs₁
      simp only [McsState.step, hlive, Bool.false_eq_true, if_false, McsState.abortStep, hconf]
      generalize (s₁.thread w.node.1).pc = pc at hspec
      cases pc <;> simp only [McsPc.speculation, Option.some.injEq, Prod.mk.injEq,
        reduceCtorEq] at hspec <;> obtain ⟨rfl, rfl, rfl⟩ := hspec <;> rfl
    · exact .inl (conflict_of_not_mem hmem)

/-- A transaction that has read its flag has read that it is set. -/
def Checked (s : McsState Tid Lid) : Prop :=
  ∀ u lk k cnt, (s.thread u).pc = .checkWait lk k cnt ∨ (s.thread u).pc = .speculating lk k cnt →
    (s.node (u, k)).speculate = true

/-- A walk goes on only by steps of its own. -/
theorem run_of_handover (hpc : McsPc.handover (s.thread (McsAct.tid a)).pc = some (lk, n))
    (hs : s.step cfg true a = some s') : a = .run (McsAct.tid a) := by
  simp only [McsState.step] at hs
  split at hs
  · simp at hs
  cases a with
  | run => rfl
  | lock t lk' | trylock t lk' | unlock t lk' | htmStart t | htmAbort t =>
    simp only [McsAct.tid] at hpc
    cases hp : (s.thread t).pc <;> rw [hp] at hpc <;>
      simp [McsPc.handover] at hpc <;>
      simp [McsState.callLock, McsState.callUnlock, McsState.abortStep, hp] at hs

/-- The step that clears the flag of a node stores to it. -/
theorem speculate_kept (hs : s.step cfg true a = some s') {x : Tid × Nat}
    (hx : x.1 ≠ McsAct.tid a) (hflag : (s.node x).speculate = true) :
    (s'.node x).speculate = true ∨ s.stores cfg a = some (.speculate x) := by
  have hhalt : ∀ {lk n y d}, (s.thread (McsAct.tid a)).pc = .haltAt lk n (some y) d →
      ((McsState.halt cfg s y d).node x).speculate = true ∨
        s.stores cfg a = some (.speculate x) := by
    intro lk n y d hpc
    have hover : McsPc.handover (s.thread (McsAct.tid a)).pc = some (lk, n) := by rw [hpc]; rfl
    have hrun := run_of_handover hover hs
    by_cases hd : d ≥ cfg.minDistance
    · by_cases hy : x = y
      · subst hy
        rw [hrun]
        simp only [McsState.stores, hpc, hd, if_true]
        exact .inr trivial
      · simp [McsState.halt, hd, McsState.setNode, hy, hflag]
    · simp [McsState.halt, hd, hflag]
  have hmove := step_move hs
  generalize McsAct.tid a = t at hmove hhalt hx
  cases hmove with
  | window | start | checkSpeculate | checkWait | inside | assert | halting | haltFirst | haltEnd
  | haltNext | successor | crash => exact .inl hflag
  | haltAt hp | haltBreak hp => exact hhalt hp
  | other _ hflags => exact .inl ((hflags x hx).trans hflag)

omit [DecidableEq Lid] in
theorem checked_move (h : Checked s) (hmove : McsMove cfg s u s')
    (hpc : (s'.thread u).pc = .checkWait lk k cnt ∨ (s'.thread u).pc = .speculating lk k cnt) :
    (s'.node (u, k)).speculate = true := by
  cases hmove with
  | window | start | assert | halting | haltFirst | haltEnd | haltAt | haltBreak | haltNext
  | successor =>
    rw [goto_self] at hpc
    rcases hpc with hpc | hpc <;> exact nomatch hpc
  | crash hp => rcases hpc with hpc | hpc <;> exact nomatch hp.symm.trans hpc
  | other hplain => rcases hpc with hpc | hpc <;> exact nomatch hpc ▸ hplain
  | checkSpeculate hp hflag =>
    rw [goto_self] at hpc
    rcases hpc with hpc | hpc
    · obtain ⟨rfl, rfl, rfl⟩ := McsPc.checkWait.inj hpc
      exact hflag
    · exact nomatch hpc
  | checkWait hp =>
    rw [setThread_self] at hpc
    rcases hpc with hpc | hpc
    · exact nomatch hpc
    · obtain ⟨rfl, rfl, rfl⟩ := McsPc.speculating.inj hpc
      exact h u _ _ _ (.inl hp)
  | inside => exact h u lk k cnt hpc

theorem Checked.step (h : Checked s) (hs : s.htmStep cfg a = some s') : Checked s' := by
  intro u lk k cnt hpc
  obtain ⟨s₁, hs₁, rfl⟩ := Option.map_eq_some_iff.mp hs
  -- before the conflict, only the step that clears the flag may leave it cleared
  have hbefore : (s₁.thread u).pc = .checkWait lk k cnt ∨ (s₁.thread u).pc = .speculating lk k cnt →
      (s₁.node (u, k)).speculate = true ∨ s.stores cfg a = some (.speculate (u, k)) := by
    intro hp
    by_cases hu : u = McsAct.tid a
    · subst hu
      exact .inl (checked_move h (step_move hs₁) hp)
    · rw [step_thread hs₁ hu] at hp
      exact speculate_kept hs₁ hu (h u lk k cnt hp)
  cases hw : s.stores cfg a with
  | none =>
    rw [hw] at hpc hbefore
    rcases hbefore hpc with hflag | hno
    · exact hflag
    · exact nomatch hno
  | some w =>
    rw [hw] at hpc hbefore
    show ((s₁.conflict w).node (u, k)).speculate = true
    have hpc : ((s₁.conflict w).thread u).pc = .checkWait lk k cnt ∨
      ((s₁.conflict w).thread u).pc = .speculating lk k cnt := hpc
    by_cases hmem : w ∈ McsPc.readSet w.node.1 (s₁.thread w.node.1).pc
    · obtain ⟨lk', k', cnt', -, hconf⟩ := conflict_of_mem hmem
      rw [hconf] at hpc ⊢
      by_cases hu : u = w.node.1
      · subst hu
        rw [goto_self] at hpc
        rcases hpc with hpc | hpc <;> exact nomatch hpc
      · rw [goto_thread _ hu] at hpc
        rcases hbefore hpc with hflag | hno
        · exact hflag
        · rw [Option.some.inj hno] at hu
          exact absurd rfl hu
    · rw [conflict_of_not_mem hmem] at hpc ⊢
      rcases hbefore hpc with hflag | hno
      · exact hflag
      · -- the transaction has read the word
        rw [Option.some.inj hno] at hmem
        refine absurd ?_ hmem
        rcases hpc with hpc | hpc <;> simp [McsWord.node, hpc, McsPc.readSet]

end

end McsState

open McsState

section

variable [DecidableEq Tid] [DecidableEq Lid] {cfg : TmParams} {s s' : McsState Tid Lid}
  {tr : List (McsState Tid Lid × McsAct Tid Lid)}
  {C : McsState Tid Lid → McsAct Tid Lid → Prop}

theorem mcs_sound (h : (mcs Tid Lid cfg true).Run C tr s) : Sound s :=
  ⟨(mcs_invariant h).1, (mcs_invariant h).2, (mcs_relative h).1, (mcs_relative h).2⟩

/-- The windows and the walks in every run. -/
theorem mcs_window (h : (mcs Tid Lid cfg true).Run C tr s) : HaltOk cfg s := by
  refine System.Run.invariant_trace (I := fun _ s => HaltOk cfg s) (fun s hs => ?_)
    (fun tr s a s' hr hi _ hs => hi.step (mcs_sound hr) hs) h
  obtain rfl : s = {} := hs
  refine ⟨fun t lk x d hat => ?_, fun u lk k cnt _ hpc => (nomatch hpc),
    fun u lk k cnt _ hpc => nomatch hpc⟩
  obtain ⟨n, hat | hat⟩ := hat <;> exact nomatch hat

/-- A run with conflicts is a run in which transactions abort at any time. -/
theorem mcsHtm_run (h : (mcsHtm Tid Lid cfg).Run C tr s) :
    ∃ tr', (mcs Tid Lid cfg true).Run System.Free tr' s := by
  induction h with
  | init h => exact ⟨[], .init h⟩
  | step h _ hs ih =>
    obtain ⟨tr', hr⟩ := ih
    obtain ⟨s₁, hs₁, hcases⟩ := htmStep_cases hs
    have hr₁ := System.Run.step hr trivial hs₁
    rcases hcases with rfl | ⟨u, lk, k, cnt, -, -, hab⟩
    · exact ⟨_, hr₁⟩
    · have hab : (mcs Tid Lid cfg true).step s₁ (.htmAbort u) = some _ := hab
      exact ⟨_, hr₁.step trivial hab⟩

/-- A lock that has room for more acquisitions after a step with its conflict had it before. -/
theorem McsState.Sound.room_htmStep {lk : Lid} {a : McsAct Tid Lid} (h : Sound s)
    (hs : s.htmStep cfg a = some s') (hroom : (s'.lock lk).turns.length < 2 ^ 63) :
    (s.lock lk).turns.length < 2 ^ 63 := by
  obtain ⟨s₁, hs₁, rfl | ⟨u, lk', k, cnt, -, rfl, -⟩⟩ := htmStep_cases hs
  · exact h.room hs₁ hroom
  · exact h.room hs₁ hroom

/-- What every state of a run with conflicts satisfies. -/
theorem mcsHtm_invariant (h : (mcsHtm Tid Lid cfg).Run C tr s) :
    Sound s ∧ HaltOk cfg s ∧ Checked s := by
  obtain ⟨tr', hr⟩ := mcsHtm_run h
  refine ⟨mcs_sound hr, mcs_window hr, ?_⟩
  refine System.Run.invariant (I := Checked) (fun s hs => ?_) (fun s a s' hi _ hs => hi.step hs) h
  obtain rfl : s = {} := hs
  intro u lk k cnt hpc
  rcases hpc with hpc | hpc <;> exact nomatch hpc

/-! ## The waiters since the start of a walk -/

omit [DecidableEq Tid] [DecidableEq Lid] in
/-- How far a thread is that speculates or is about to. -/
def McsPc.stage : McsPc Tid Lid → Nat
  | .checkSpeculate _ _ _ => 1
  | .checkWait _ _ _ => 2
  | .speculating _ _ _ => 3
  | _ => 0

/-- The waiters that speculated or were about to in `s₀`: they have gone back to the real wait,
    or their flag is cleared, or the walk of thread `t` has yet to come to them. -/
def SinceWalk (s₀ s : McsState Tid Lid) (t : Tid) (lk : Lid) : Prop :=
  ∀ u k cnt, McsPc.speculation (s₀.thread u).pc = some (lk, k, cnt) →
    (s.thread u).pc = .spinWaitTm lk k cnt ∨
      McsPc.speculation (s.thread u).pc = some (lk, k, cnt) ∧
        McsPc.stage (s₀.thread u).pc ≤ McsPc.stage (s.thread u).pc ∧
        ((s.node (u, k)).speculate = true → Ahead s (s.node (u, k)).turn (s.thread t).pc)

namespace McsState

variable {t u : Tid} {lk : Lid} {n k : Nat} {cnt : BitVec 64} {a : McsAct Tid Lid}

/-- A waiter at the real wait stays there as long as its flag `wait` is set. -/
theorem spinWaitTm_step (hpc : (s.thread (McsAct.tid a)).pc = .spinWaitTm lk k cnt)
    (hwait : (s.node (McsAct.tid a, k)).wait = true) (hs : s.step cfg true a = some s') :
    s' = s := by
  simp only [McsState.step] at hs
  split at hs
  · simp at hs
  cases a with
  | run t =>
    simp only [McsAct.tid] at hpc hwait
    simp only [McsState.runLock, McsState.runUnlock, hpc, hwait, if_true, Option.or_none,
      Option.some.injEq] at hs
    exact hs.symm
  | lock t lk' | trylock t lk' | unlock t lk' | htmStart t | htmAbort t =>
    simp only [McsAct.tid] at hpc
    simp [McsState.callLock, McsState.callUnlock, McsState.abortStep, hpc] at hs

/-- A waiter that speculates goes on, or back to the real wait. -/
theorem speculation_step
    (hpc : McsPc.speculation (s.thread (McsAct.tid a)).pc = some (lk, k, cnt))
    (hs : s.step cfg true a = some s') : s'.node = s.node ∧
      ((s'.thread (McsAct.tid a)).pc = .spinWaitTm lk k cnt ∨
        McsPc.speculation (s'.thread (McsAct.tid a)).pc = some (lk, k, cnt) ∧
          McsPc.stage (s.thread (McsAct.tid a)).pc ≤ McsPc.stage (s'.thread (McsAct.tid a)).pc) := by
  simp only [McsState.step] at hs
  split at hs
  · simp at hs
  cases a with
  | run t =>
    simp only [McsAct.tid] at hpc ⊢
    cases hp : (s.thread t).pc <;> rw [hp] at hpc <;>
      simp only [McsPc.speculation, Option.some.injEq, Prod.mk.injEq, reduceCtorEq] at hpc <;>
      obtain ⟨rfl, rfl, rfl⟩ := hpc <;>
      simp only [McsState.runLock, McsState.runUnlock, hp, Option.or_none, Option.or_self,
        reduceCtorEq] at hs
    all_goals
      split at hs <;> simp only [Option.some.injEq] at hs <;> subst hs
    all_goals first
      | (rw [goto_self]; exact ⟨rfl, .inl rfl⟩)
      | (rw [goto_self]; exact ⟨rfl, .inr ⟨rfl, by simp [McsPc.stage]⟩⟩)
      | (rw [setThread_self]; exact ⟨rfl, .inr ⟨rfl, by simp [McsPc.stage]⟩⟩)
  -- a call in the section of the speculator changes nothing
  | lock t lk' | trylock t lk' | unlock t lk' =>
    simp only [McsAct.tid] at hpc ⊢
    cases hp : (s.thread t).pc <;> rw [hp] at hpc <;>
      simp only [McsPc.speculation, Option.some.injEq, Prod.mk.injEq, reduceCtorEq] at hpc <;>
      simp [McsState.callLock, McsState.callUnlock, hp, McsPc.specEntry] at hs
    subst hs
    rw [hp]
    exact ⟨rfl, .inr ⟨by rw [← hpc.1, ← hpc.2.1, ← hpc.2.2]; rfl, Nat.le_refl _⟩⟩
  | htmStart t =>
    simp only [McsAct.tid] at hpc ⊢
    cases hp : (s.thread t).pc <;> rw [hp] at hpc <;>
      simp only [McsPc.speculation, Option.some.injEq, Prod.mk.injEq, reduceCtorEq] at hpc <;>
      obtain ⟨rfl, rfl, rfl⟩ := hpc <;> simp [hp] at hs
    subst hs
    rw [goto_self]
    exact ⟨rfl, .inr ⟨rfl, by simp [McsPc.stage]⟩⟩
  | htmAbort t =>
    simp only [McsAct.tid] at hpc ⊢
    cases hp : (s.thread t).pc <;> rw [hp] at hpc <;>
      simp only [McsPc.speculation, Option.some.injEq, Prod.mk.injEq, reduceCtorEq] at hpc <;>
      obtain ⟨rfl, rfl, rfl⟩ := hpc <;> simp [McsState.abortStep, hp] at hs
    all_goals
      subst hs
      rw [goto_self]
      exact ⟨rfl, .inl rfl⟩

omit [DecidableEq Tid] [DecidableEq Lid] in
/-- The position of a waiter during a handover, if it is not 0, is the one that its turn says,
    and its flag `wait` is set. -/
theorem Sound.waiter (h : Sound s) (ht : McsPc.handover (s.thread t).pc = some (lk, n))
    (hr : (McsState.view s).role (u, k) = .queued lk (.waiting (some cnt))) :
    ∃ j, 0 < j ∧ ((McsState.view s).queue lk)[j]? = some (u, k) ∧
      (s.node (u, k)).turn = (s.lock lk).released + j ∧ (s.node (u, k)).cnt = cnt ∧
      (cnt ≠ 0 → cnt = BitVec.ofNat 64 ((s.node (u, k)).turn + 1)) ∧
      (s.node (u, k)).wait = true := by
  obtain ⟨j, hj, he⟩ := (h.inv.queue lk).exists_index hr
  have hcnt : cnt = (s.node (u, k)).cnt := Option.some.inj ((h.rel lk).entry _ _ hr)
  obtain ⟨r, hrt, hhold⟩ := role_of_handover ht
  have hturn : (s.node (u, k)).turn = (s.lock lk).released + j := he.turn
  have hpos : 0 < j := by
    rcases Nat.eq_zero_or_pos j with hz | hpos
    · -- the first node is that of the thread that hands over
      subst hz
      have hfirst := hj.symm.trans (h.first ht)
      rw [Option.some.inj hfirst, hrt, McsRole.queued.injEq] at hr
      rw [hr.2] at hhold
      exact nomatch hhold
    · exact hpos
  have hwait : (s.node (u, k)).wait = decide (0 < j) := he.wait rfl
  refine ⟨j, hpos, hj, hturn, hcnt.symm, fun hne => ?_, ?_⟩
  · rw [hcnt, hturn]
    exact (h.rel lk).cnt_eq (h.inv.queue lk) hrt hhold hj (hcnt ▸ hne)
  · rw [hwait]
    exact decide_eq_true hpos

end McsState

omit [DecidableEq Tid] [DecidableEq Lid] in
theorem SinceWalk.start {s₀ : McsState Tid Lid} {t : Tid} {lk : Lid} {n : Nat}
    (hpc : (s₀.thread t).pc = .haltFirst lk n) : SinceWalk s₀ s₀ t lk := by
  intro u k cnt hspec
  refine .inr ⟨hspec, Nat.le_refl _, fun _ => ?_⟩
  rw [hpc]
  trivial

/-- A step of `mcs_tm` during the handover. -/
theorem SinceWalk.step {s₀ : McsState Tid Lid} {t : Tid} {lk : Lid} {n : Nat}
    {a : McsAct Tid Lid} (hw : SinceWalk s₀ s t lk) (h : Sound s) (hi : HaltOk cfg s)
    (hpc : McsPc.handover (s.thread t).pc = some (lk, n))
    (hpc' : McsPc.handover (s'.thread t).pc = some (lk, n)) (hs : s.step cfg true a = some s')
    (hroom : (s.lock lk).turns.length < 2 ^ 63) : SinceWalk s₀ s' t lk := by
  intro u k cnt hspec
  have hut : ∀ {pc : McsPc Tid Lid}, (s.thread u).pc = pc → McsPc.handover pc = none → u ≠ t := by
    rintro pc hp hnone rfl
    rw [hp, hnone] at hpc
    exact nomatch hpc
  rcases hw u k cnt hspec with hp | ⟨hp, hstage, hah⟩
  · -- a waiter that is back in its real wait stays there, as its flag is not cleared yet
    left
    by_cases hu : u = McsAct.tid a
    · subst hu
      have hr : (McsState.view s).role (McsAct.tid a, k) = .queued lk (.waiting (some cnt)) :=
        McsThread.role_self (by rw [hp]; rfl)
      obtain ⟨j, -, -, -, -, -, hwait⟩ := h.waiter hpc hr
      rw [spinWaitTm_step hp hwait hs]
      exact hp
    · rw [step_thread hs hu]
      exact hp
  · have hr := role_of_speculation hp
    obtain ⟨j, hpos, hj, hturn, hc, hright, -⟩ := h.waiter hpc hr
    have hne := hi.numbered u lk k cnt hroom hp
    have hkept := turn_step h hs hj
    have hne_t := hut rfl (McsPc.handover_of_speculation hp)
    by_cases hu : u = McsAct.tid a
    · subst hu
      obtain ⟨hnode, hback | ⟨hon, hmore⟩⟩ := speculation_step hp hs
      · exact .inl hback
      · refine .inr ⟨hon, Nat.le_trans hstage hmore, fun hflag => ?_⟩
        rw [hnode] at hflag ⊢
        rw [step_thread hs (Ne.symm hne_t)]
        exact (hah hflag).step h hi.walk hs
    · rw [step_thread hs hu, hkept]
      refine .inr ⟨hp, hstage, fun hflag => ?_⟩
      have hmove := step_move hs
      have hold := speculate_move hmove (x := (u, k)) hu hflag
      -- a step of the walk: the waiter is in the window, so it is still ahead
      by_cases ht : t = McsAct.tid a
      · subst ht
        obtain ⟨hlow, hhigh, -⟩ := hi.window u lk k cnt hroom hp hold (by omega) (hright hne)
        exact ahead_move h hi.walk hmove hj (by rw [hc]; exact hne) hpos (by omega) (by omega)
          hpc hpc' (hah hold) hflag
      · rw [step_thread hs ht]
        exact (hah hold).step h hi.walk hs

/-- A step with its conflict during the handover. -/
theorem SinceWalk.htmStep {s₀ : McsState Tid Lid} {t : Tid} {lk : Lid} {n : Nat}
    {a : McsAct Tid Lid} (hw : SinceWalk s₀ s t lk) (hr : (mcsHtm Tid Lid cfg).Run C tr s)
    (hpc : McsPc.handover (s.thread t).pc = some (lk, n))
    (hpc' : McsPc.handover (s'.thread t).pc = some (lk, n)) (hs : s.htmStep cfg a = some s')
    (hroom : (s'.lock lk).turns.length < 2 ^ 63) : SinceWalk s₀ s' t lk := by
  obtain ⟨tr', hr'⟩ := mcsHtm_run hr
  obtain ⟨s₁, hs₁, hcases⟩ := htmStep_cases hs
  have hr₁ : (mcs Tid Lid cfg true).Run System.Free _ s₁ := hr'.step trivial hs₁
  rcases hcases with rfl | ⟨u, lk', k, cnt, hspec, rfl, hab⟩
  · exact hw.step (mcs_sound hr') (mcs_window hr') hpc hpc' hs₁ ((mcs_sound hr').room hs₁ hroom)
  · have htu : t ≠ u := by
      rintro rfl
      rw [goto_self] at hpc'
      exact nomatch hpc'
    have hpc₁ : McsPc.handover (s₁.thread t).pc = some (lk, n) := by
      rw [goto_thread _ htu] at hpc'
      exact hpc'
    have hroom₁ := (mcs_sound hr₁).room hab hroom
    have hw₁ := hw.step (mcs_sound hr') (mcs_window hr') hpc hpc₁ hs₁
      ((mcs_sound hr').room hs₁ hroom₁)
    exact hw₁.step (mcs_sound hr₁) (mcs_window hr₁) hpc₁ hpc' hab hroom₁

/-! ## The walk ends -/

omit [DecidableEq Tid] [DecidableEq Lid] in
/-- The lock and the node of a thread in its halting walk. -/
def McsPc.walk : McsPc Tid Lid → Option (Lid × Nat)
  | .haltFirst lk n | .haltAt lk n _ _ | .haltNext lk n _ _ => some (lk, n)
  | _ => none

omit [DecidableEq Tid] [DecidableEq Lid] in
/-- A bound for the steps that are left of a walk, when `size` nodes can be in a queue. -/
def walkLeft (size : Nat) (s : McsState Tid Lid) (lk : Lid) : McsPc Tid Lid → Nat
  | .haltFirst _ _ => 2 * size
  | .haltAt _ _ (some x) _ => 2 * (size - ((s.node x).turn - (s.lock lk).released)) + 1
  | .haltAt _ _ none _ => 1
  | .haltNext _ _ x _ => 2 * (size - ((s.node x).turn - (s.lock lk).released))
  | _ => 0

namespace McsState

variable {t u : Tid} {lk : Lid} {n k : Nat} {cnt : BitVec 64} {a : McsAct Tid Lid}

omit [DecidableEq Tid] [DecidableEq Lid] in
theorem handover_of_walk {pc : McsPc Tid Lid} (h : McsPc.walk pc = some (lk, n)) :
    McsPc.handover pc = some (lk, n) := by
  cases pc <;> first | exact h | simp [McsPc.walk] at h

omit [DecidableEq Tid] [DecidableEq Lid] in
/-- A thread has one node in a queue at most. -/
theorem Sound.node_inj (h : Sound s) {i j : Nat} {r r' : QueueRole Tid}
    (hi : (McsState.view s).role (t, i) = .queued lk r)
    (hj : (McsState.view s).role (t, j) = .queued lk r') : i = j := by
  have hok := h.ok t
  have hheld : ∀ {i j : Nat} {r r' : QueueRole Tid},
      heldRole (s.thread t).held i = .queued lk r → heldRole (s.thread t).held j = .queued lk r' →
        i = j := by
    intro i j r r' hi hj
    have heq := List.inj_on_of_nodup_map hok.nodup (heldRole_queued hi).1 (heldRole_queued hj).1 rfl
    exact (Prod.mk.inj heq).2
  have hi : McsThread.role (s.thread t) i = .queued lk r := hi
  have hj : McsThread.role (s.thread t) j = .queued lk r' := hj
  cases hp : McsPc.role? (s.thread t).pc with
  | none =>
    rw [McsThread.role_out hp] at hi hj
    exact hheld hi hj
  | some p =>
    obtain ⟨m, rm⟩ := p
    -- the lock of the node at hand is not among those the thread has
    have hbusy : ∀ {i : Nat} {r r' : QueueRole Tid}, rm = .queued lk r →
        heldRole (s.thread t).held i = .queued lk r' → False := by
      intro i r r' hrm hi
      have hplace : McsPc.place (s.thread t).pc = .busy lk m := by
        rw [hrm] at hp
        generalize (s.thread t).pc = pc at hp
        cases pc <;> simp only [McsPc.role?, Option.some.injEq, Prod.mk.injEq, McsRole.queued.injEq,
          reduceCtorEq, and_false] at hp <;> obtain ⟨rfl, rfl, -⟩ := hp <;> rfl
      rw [hplace] at hok
      obtain ⟨-, -, -, hout, -⟩ := hok.pool
      exact hout (List.mem_map_of_mem (heldRole_queued hi).1)
    have hrole : ∀ i, McsThread.role (s.thread t) i = if i = m then rm
        else heldRole (s.thread t).held i := fun i => by simp only [McsThread.role, hp]
    rw [hrole] at hi hj
    split at hi <;> split at hj
    · omega
    · exact (hbusy hi hj).elim
    · exact (hbusy hj hi).elim
    · exact hheld hi hj

omit [DecidableEq Tid] [DecidableEq Lid] in
/-- No queue is longer than there are threads. -/
theorem Sound.length_le [Fintype Tid] (h : Sound s) (lk : Lid) :
    ((McsState.view s).queue lk).length ≤ Fintype.card Tid := by
  have hnodup : (((McsState.view s).queue lk).map Prod.fst).Nodup := by
    apply List.Nodup.map_on _ (h.inv.queue lk).nodup
    rintro ⟨t, i⟩ hi ⟨u, j⟩ hj he
    obtain rfl : t = u := he
    obtain ⟨r, hr⟩ := ((h.inv.queue lk).mem _).mp hi
    obtain ⟨r', hr'⟩ := ((h.inv.queue lk).mem _).mp hj
    rw [h.node_inj hr hr']
  have hlen := hnodup.length_le_card
  rwa [List.length_map] at hlen

omit [DecidableEq Tid] [DecidableEq Lid] in
theorem walkLeft_bounds [Fintype Tid] (h : Sound s) (hwalk : WalkOk s)
    (hpc : McsPc.walk (s.thread t).pc = some (lk, n)) :
    1 ≤ walkLeft (Fintype.card Tid) s lk (s.thread t).pc ∧
      walkLeft (Fintype.card Tid) s lk (s.thread t).pc ≤ 2 * Fintype.card Tid := by
  have hcard := Fintype.card_pos_iff.mpr ⟨t⟩
  have hlen := h.length_le lk
  cases hp : (s.thread t).pc <;> rw [hp] at hpc <;> simp only [McsPc.walk, reduceCtorEq] at hpc
  case haltFirst =>
    show 1 ≤ 2 * _ ∧ 2 * _ ≤ _
    omega
  case haltAt lk' n' x d =>
    obtain ⟨rfl, rfl⟩ := Prod.mk.inj (Option.some.inj hpc)
    cases x with
    | none =>
      show 1 ≤ 1 ∧ 1 ≤ _
      omega
    | some x =>
      obtain ⟨i, hi, hx, -⟩ := hwalk t _ x d ⟨_, .inl hp⟩
      have hturn := h.turn_eq hx
      show 1 ≤ 2 * (_ - _) + 1 ∧ 2 * (_ - _) + 1 ≤ _
      omega
  case haltNext lk' n' x d =>
    obtain ⟨rfl, rfl⟩ := Prod.mk.inj (Option.some.inj hpc)
    obtain ⟨i, hi, hx, -⟩ := hwalk t _ x d ⟨_, .inr hp⟩
    have hlt := (List.getElem?_eq_some_iff.mp hx).1
    have hturn := h.turn_eq hx
    show 1 ≤ 2 * (_ - _) ∧ 2 * (_ - _) ≤ _
    omega

omit [DecidableEq Lid] in
/-- Every step of the thread shortens what is left of its walk. -/
theorem walkLeft_move [Fintype Tid] (h : Sound s) (hwalk : WalkOk s) (hmove : McsMove cfg s t s')
    (hpc : McsPc.walk (s.thread t).pc = some (lk, n)) :
    walkLeft (Fintype.card Tid) s' lk (s'.thread t).pc + 1 ≤
      walkLeft (Fintype.card Tid) s lk (s.thread t).pc := by
  have hcard := Fintype.card_pos_iff.mpr ⟨t⟩
  have hlen := h.length_le lk
  -- a link of the queue leads one turn on
  have hnext : ∀ {i : Nat} {x z : Tid × Nat}, ((McsState.view s).queue lk)[i]? = some x →
      (s.node x).lockNext = some z → (s.node z).turn = (s.lock lk).released + (i + 1) := by
    intro i x z hx hz
    obtain ⟨r, hr⟩ := (h.inv.queue lk).queued hx
    have hlink := ((h.inv.queue lk).entry i x r hx hr).next.symm.trans hz
    exact h.turn_eq (Option.filter_eq_some_iff.mp hlink).1
  cases hmove with
  | window hp | start hp | checkSpeculate hp | checkWait hp | inside hp | assert hp
  | successor hp | crash hp =>
    rw [hp] at hpc
    exact nomatch hpc
  | halting hp => rcases hp with hp | hp <;> exact nomatch hp ▸ hpc
  -- a walk that is over has no steps left
  | other hplain =>
    have hzero : ∀ pc : McsPc Tid Lid, McsPc.isPlain pc = true →
        walkLeft (Fintype.card Tid) s' lk pc = 0 := by
      intro pc hp
      cases pc <;> first | rfl | simp [McsPc.isPlain] at hp
    rw [hzero _ hplain]
    exact (walkLeft_bounds h hwalk hpc).1
  | @haltFirst lk' n' hp =>
    have hfirst := h.first (handover_of_walk hpc)
    rw [hp] at hpc
    obtain ⟨rfl, rfl⟩ := Prod.mk.inj (Option.some.inj hpc)
    rw [goto_self, hp]
    show walkLeft _ s _ (.haltAt _ _ (s.node _).lockNext 1) + 1 ≤ 2 * _
    cases hl : (s.node (t, n')).lockNext with
    | none =>
      show 1 + 1 ≤ _
      omega
    | some z =>
      have hz := hnext hfirst hl
      show 2 * (_ - _) + 1 + 1 ≤ _
      omega
  | haltEnd hp =>
    rw [goto_self, hp]
    exact Nat.le_refl 1
  | @haltAt lk' n' x d hp =>
    rw [goto_self, hp]
    show 2 * (_ - (((McsState.halt cfg s x d).node x).turn -
      ((McsState.halt cfg s x d).lock lk).released)) + 1 ≤ _
    rw [halt_turn, halt_lock]
    exact Nat.le_refl _
  -- the walk stops at its distance, with steps to spare
  | haltBreak hp =>
    rw [goto_self, hp]
    show 0 + 1 ≤ 2 * (_ - _) + 1
    omega
  | @haltNext lk' n' x d hp =>
    rw [hp] at hpc
    obtain ⟨rfl, rfl⟩ := Prod.mk.inj (Option.some.inj hpc)
    obtain ⟨i, hi, hx, -⟩ := hwalk t _ x d ⟨_, .inr hp⟩
    have hlt := (List.getElem?_eq_some_iff.mp hx).1
    have hxt := h.turn_eq hx
    rw [goto_self, hp]
    show walkLeft _ s _ (.haltAt _ _ (s.node _).lockNext _) + 1 ≤ 2 * (_ - _)
    cases hl : (s.node x).lockNext with
    | none =>
      show 1 + 1 ≤ _
      omega
    | some z =>
      have hz := hnext hx hl
      show 2 * (_ - _) + 1 + 1 ≤ _
      omega

/-- What is left of a walk stays when another thread takes a step. -/
theorem walkLeft_step {size : Nat} (h : Sound s) (hwalk : WalkOk s)
    (hpc : McsPc.walk (s.thread t).pc = some (lk, n)) (hs : s.step cfg true a = some s')
    (ht : t ≠ McsAct.tid a) :
    walkLeft size s' lk (s'.thread t).pc = walkLeft size s lk (s.thread t).pc := by
  have hrel := h.released_eq hs (handover_of_walk hpc) ht
  have hturn : ∀ lk x d, WalkAt s t lk x d → (s'.node x).turn = (s.node x).turn := by
    intro lk x d hat
    obtain ⟨j, -, hx, -⟩ := hwalk t lk x d hat
    exact turn_step h hs hx
  rw [step_thread hs ht]
  cases hp : (s.thread t).pc with
  | haltAt lk' n' x d =>
    cases x with
    | none => rfl
    | some x => simp only [walkLeft, hrel, hturn lk' x d ⟨n', .inl hp⟩]
  | haltNext lk' n' x d => simp only [walkLeft, hrel, hturn lk' x d ⟨n', .inr hp⟩]
  | _ => rfl

end McsState

/-- A step with its conflict shortens the walk of the thread that takes it and no other. -/
theorem walkLeft_htmStep [Fintype Tid] {t : Tid} {lk : Lid} {n : Nat} {a : McsAct Tid Lid}
    (h : Sound s) (hwalk : WalkOk s) (hpc : McsPc.walk (s.thread t).pc = some (lk, n))
    (hs : s.htmStep cfg a = some s') :
    walkLeft (Fintype.card Tid) s' lk (s'.thread t).pc + (if McsAct.tid a = t then 1 else 0) ≤
      walkLeft (Fintype.card Tid) s lk (s.thread t).pc := by
  obtain ⟨s₁, hs₁, hcases⟩ := htmStep_cases hs
  have hstep : walkLeft (Fintype.card Tid) s₁ lk (s₁.thread t).pc +
      (if McsAct.tid a = t then 1 else 0) ≤
        walkLeft (Fintype.card Tid) s lk (s.thread t).pc := by
    by_cases ht : McsAct.tid a = t
    · subst ht
      rw [if_pos rfl]
      exact walkLeft_move h hwalk (step_move hs₁) hpc
    · rw [if_neg ht, walkLeft_step h hwalk hpc hs₁ (Ne.symm ht)]
      exact Nat.le_refl _
  rcases hcases with rfl | ⟨u, lk', k, cnt, -, rfl, -⟩
  · exact hstep
  · by_cases htu : t = u
    · subst htu
      rw [goto_self]
      show 0 + _ ≤ _
      omega
    · rw [goto_thread _ htu]
      cases hp : (s₁.thread t).pc with
      | haltAt _ _ x _ => cases x <;> exact hp ▸ hstep
      | _ => exact hp ▸ hstep

/-! ## Handing over the lock -/

/-- A waiter that does not get past the check of its flags: it has gone back to the real wait,
    or its flag is cleared and it has not read it. -/
inductive Halted (s : McsState Tid Lid) (u : Tid) (lk : Lid) (k : Nat) (cnt : BitVec 64) : Prop where
  | back (hpc : (s.thread u).pc = .spinWaitTm lk k cnt)
  | notBegun (hpc : (s.thread u).pc = .htmBegin lk k cnt)
      (hflag : (s.node (u, k)).speculate = false)
  | notChecked (hpc : (s.thread u).pc = .checkSpeculate lk k cnt)
      (hflag : (s.node (u, k)).speculate = false)

namespace Halted

variable {u : Tid} {lk : Lid} {k : Nat} {cnt : BitVec 64} {a : McsAct Tid Lid}

omit [DecidableEq Tid] [DecidableEq Lid] in
theorem of_cleared (hc : Checked s)
    (hpc : McsPc.speculation (s.thread u).pc = some (lk, k, cnt))
    (hflag : (s.node (u, k)).speculate = false) : Halted s u lk k cnt := by
  have hchecked := hc u lk k cnt
  rw [hflag] at hchecked
  cases hp : (s.thread u).pc <;> rw [hp] at hpc hchecked <;>
    simp only [McsPc.speculation, Option.some.injEq, Prod.mk.injEq, reduceCtorEq] at hpc <;>
    obtain ⟨rfl, rfl, rfl⟩ := hpc
  case htmBegin => exact .notBegun hp hflag
  case checkSpeculate => exact .notChecked hp hflag
  case checkWait => exact nomatch hchecked (.inl rfl)
  case speculating => exact nomatch hchecked (.inr rfl)

/-- Until it is back at the real wait it goes no further. -/
theorem htmStep (h : Halted s u lk k cnt) (hc' : Checked s')
    (hnot : (s.thread u).pc ≠ .spinWaitTm lk k cnt) (hs : s.htmStep cfg a = some s') :
    Halted s' u lk k cnt := by
  have hspec : McsPc.speculation (s.thread u).pc = some (lk, k, cnt) ∧
      (s.node (u, k)).speculate = false := by
    cases h with
    | back hpc => exact absurd hpc hnot
    | notBegun hpc hflag | notChecked hpc hflag => exact ⟨by rw [hpc]; rfl, hflag⟩
  obtain ⟨hp, hflag⟩ := hspec
  obtain ⟨s₁, hs₁, hcases⟩ := htmStep_cases hs
  have hstep : (s₁.thread u).pc = .spinWaitTm lk k cnt ∨
      McsPc.speculation (s₁.thread u).pc = some (lk, k, cnt) ∧
        (s₁.node (u, k)).speculate = false := by
    by_cases hu : u = McsAct.tid a
    · subst hu
      obtain ⟨hnode, hback | ⟨hon, -⟩⟩ := speculation_step hp hs₁
      · exact .inl hback
      · rw [hnode]
        exact .inr ⟨hon, hflag⟩
    · rw [step_thread hs₁ hu]
      refine .inr ⟨hp, Bool.eq_false_iff.mpr fun htrue => ?_⟩
      have hold := speculate_move (step_move hs₁) (x := (u, k)) hu htrue
      rw [hflag] at hold
      exact nomatch hold
  rcases hcases with rfl | ⟨v, lk', k', cnt', hv, rfl, -⟩
  · rcases hstep with hback | ⟨hon, hcleared⟩
    · exact .back hback
    · exact of_cleared hc' hon hcleared
  · by_cases huv : u = v
    · subst huv
      -- its own transaction is the one that aborts
      rcases hstep with hback | ⟨hon, -⟩
      · rw [hback] at hv
        exact nomatch hv
      · rw [hon] at hv
        obtain ⟨rfl, rfl, rfl⟩ : lk = lk' ∧ k = k' ∧ cnt = cnt' := by simpa using hv
        exact .back (by rw [goto_self])
    · rcases hstep with hback | ⟨hon, hcleared⟩
      · exact .back (by rw [goto_thread _ huv]; exact hback)
      · exact of_cleared hc' (by rw [goto_thread _ huv]; exact hon) hcleared

end Halted

/-- A thread that hands over has begun its walk at some step. -/
theorem walk_since (h : (mcsHtm Tid Lid cfg).Run C tr s) :
    ∀ t lk n, McsPc.handover (s.thread t).pc = some (lk, n) →
      (s.thread t).pc = .haltFirst lk n ∨ ∃ pre s₀ seg, tr = pre ++ (s₀, .run t) :: seg ∧
        (s₀.thread t).pc = .haltFirst lk n ∧
        (∀ p ∈ seg, McsPc.handover (p.1.thread t).pc = some (lk, n)) ∧
        ((s.lock lk).turns.length < 2 ^ 63 → SinceWalk s₀ s t lk) := by
  refine System.Run.invariant_trace (I := fun tr s => ∀ t lk n,
    McsPc.handover (s.thread t).pc = some (lk, n) → (s.thread t).pc = .haltFirst lk n ∨
      ∃ pre s₀ seg, tr = pre ++ (s₀, .run t) :: seg ∧ (s₀.thread t).pc = .haltFirst lk n ∧
        (∀ p ∈ seg, McsPc.handover (p.1.thread t).pc = some (lk, n)) ∧
        ((s.lock lk).turns.length < 2 ^ 63 → SinceWalk s₀ s t lk))
    (fun s hs t lk n hpc => ?_) (fun tr s a s' hr ih _ hs t lk n hpc' => ?_) h
  · obtain rfl : s = {} := hs
    exact nomatch hpc
  have hs : s.htmStep cfg a = some s' := hs
  obtain ⟨s₁, hs₁, hcases⟩ := htmStep_cases hs
  -- a waiter that a conflict aborts is not the thread that hands over
  have hsame : s'.thread t = s₁.thread t := by
    rcases hcases with rfl | ⟨u, lk', k, cnt, -, rfl, -⟩
    · rfl
    · refine goto_thread _ ?_
      rintro rfl
      rw [goto_self] at hpc'
      exact nomatch hpc'
  have hpc : (s'.thread t).pc = .haltFirst lk n ∨
      McsPc.handover (s.thread t).pc = some (lk, n) ∧
        ((s.thread t).pc = .haltFirst lk n → a = .run t ∨ (s'.thread t).pc = .haltFirst lk n) := by
    rw [hsame] at hpc' ⊢
    by_cases ht : t = McsAct.tid a
    · subst ht
      rcases handover_move (step_move hs₁) hpc' with hp | hp
      · exact .inl hp
      · exact .inr ⟨hp, fun _ => .inl (run_of_handover hp hs₁)⟩
    · rw [step_thread hs₁ ht] at hpc' ⊢
      exact .inr ⟨hpc', .inr⟩
  rcases hpc with hfirst | ⟨hpc, hact⟩
  · exact .inl hfirst
  have hroom_of : (s'.lock lk).turns.length < 2 ^ 63 → (s.lock lk).turns.length < 2 ^ 63 :=
    (mcsHtm_invariant hr).1.room_htmStep hs
  -- the walk begins with this step, or began earlier and goes on
  rcases ih t lk n hpc with hfirst | ⟨pre, s₀, seg, rfl, hstart, hseg, hw⟩
  · rcases hact hfirst with rfl | hstill
    · exact .inr ⟨tr, s, [], rfl, hfirst, by simp,
        fun hroom => (SinceWalk.start hfirst).htmStep hr hpc hpc' hs hroom⟩
    · exact .inl hstill
  · refine .inr ⟨pre, s₀, seg ++ [(s, a)], by simp, hstart, fun p hp => ?_,
      fun hroom => (hw (hroom_of hroom)).htmStep hr hpc hpc' hs hroom⟩
    rcases List.mem_append.mp hp with hp | hp
    · exact hseg p hp
    · rw [List.mem_singleton.mp hp]
      exact hpc

/-- What a handover of an `mcs_tm` lock does to the speculators, after the steps `tr` have led
    to `s`. -/
structure McsHaltLaw [Fintype Tid] (cfg : TmParams)
    (tr : List (McsState Tid Lid × McsAct Tid Lid)) (s : McsState Tid Lid) : Prop where
  /-- At the store of `wait` nobody who speculated when the walk began, or was about to, can get
      past the check of the flags, as long as `cnt` and `now_serving` have not overflowed. A
      transaction that had read its flag by then has aborted. -/
  halted : ∀ t lk n m, (s.lock lk).turns.length < 2 ^ 63 → (s.thread t).pc = .clearWait lk n m →
    ∃ pre s₀ seg, tr = pre ++ (s₀, .run t) :: seg ∧ (s₀.thread t).pc = .haltFirst lk n ∧
      (∀ p ∈ seg, McsPc.handover (p.1.thread t).pc = some (lk, n)) ∧
      (∀ u k cnt, McsPc.speculation (s₀.thread u).pc = some (lk, k, cnt) →
        Halted s u lk k cnt) ∧
      ∀ u k cnt, (s₀.thread u).pc = .checkWait lk k cnt ∨
        (s₀.thread u).pc = .speculating lk k cnt → (s.thread u).pc = .spinWaitTm lk k cnt
  /-- From then on such a waiter goes nowhere but back to the real wait. -/
  checks : ∀ pre p seg u lk k cnt, tr = pre ++ p :: seg → Halted p.1 u lk k cnt →
    (∀ q ∈ p :: seg, (q.1.thread u).pc ≠ .spinWaitTm lk k cnt) → Halted s u lk k cnt
  /-- The walk is at nodes that are queued for the lock. -/
  queued : ∀ t lk x d, WalkAt s t lk x d → x ∈ (McsState.view s).queue lk
  /-- It takes at most two steps for each thread. -/
  ends : ∀ pre seg t lk n, tr = pre ++ seg →
    (∀ p ∈ seg, McsPc.walk (p.1.thread t).pc = some (lk, n)) →
      seg.countP (fun p => McsAct.tid p.2 = t) ≤ 2 * Fintype.card Tid
  /-- It never has to wait for another thread. -/
  goesOn : ∀ t lk n, s.aborted = false → McsPc.walk (s.thread t).pc = some (lk, n) →
    ∃ s', s.htmStep cfg (.run t) = some s'

/-- The thread is never stuck in its walk. -/
theorem walk_goesOn {t : Tid} {lk : Lid} {n : Nat} (hlive : s.aborted = false)
    (hpc : McsPc.walk (s.thread t).pc = some (lk, n)) :
    ∃ s', s.htmStep cfg (.run t) = some s' := by
  have hstep : ∃ s₁, s.step cfg true (.run t) = some s₁ := by
    simp only [McsState.step, hlive, Bool.false_eq_true, if_false]
    cases hp : (s.thread t).pc <;> rw [hp] at hpc <;> simp only [McsPc.walk, reduceCtorEq] at hpc
    case haltFirst | haltNext =>
      simp only [runLock, runUnlock, hp, Option.none_or]
      exact ⟨_, rfl⟩
    case haltAt lk' n' x d =>
      cases x with
      | none =>
        simp only [runLock, runUnlock, hp, Option.none_or]
        exact ⟨_, rfl⟩
      | some x =>
        simp only [runLock, runUnlock, hp, Option.none_or]
        split <;> exact ⟨_, rfl⟩
  obtain ⟨s₁, hs₁⟩ := hstep
  exact ⟨_, by rw [McsState.htmStep, hs₁, Option.map_some]⟩

/-- Every handover of an `mcs_tm` lock halts the speculators, for any distances and any
    interleaving. -/
theorem mcs_halts [Fintype Tid] (h : (mcsHtm Tid Lid cfg).Run System.Free tr s) :
    McsHaltLaw cfg tr s := by
  obtain ⟨hsound, hok, hchecked⟩ := mcsHtm_invariant h
  constructor
  · intro t lk n m hroom hpc
    have hover : McsPc.handover (s.thread t).pc = some (lk, n) := by rw [hpc]; rfl
    rcases walk_since h t lk n hover with hfirst | ⟨pre, s₀, seg, htr, hstart, hseg, hw⟩
    · rw [hpc] at hfirst
      exact nomatch hfirst
    -- a waiter that speculated when the walk began is back, or its flag is cleared
    have hwaiter : ∀ u k cnt, McsPc.speculation (s₀.thread u).pc = some (lk, k, cnt) →
        (s.thread u).pc = .spinWaitTm lk k cnt ∨
          McsPc.speculation (s.thread u).pc = some (lk, k, cnt) ∧
            McsPc.stage (s₀.thread u).pc ≤ McsPc.stage (s.thread u).pc ∧
            (s.node (u, k)).speculate = false := by
      intro u k cnt hspec
      rcases hw hroom u k cnt hspec with hback | ⟨hon, hstage, hah⟩
      · exact .inl hback
      · -- the walk is over
        rw [hpc] at hah
        exact .inr ⟨hon, hstage, Bool.eq_false_iff.mpr hah⟩
    refine ⟨pre, s₀, seg, htr, hstart, hseg, fun u k cnt hspec => ?_, fun u k cnt hread => ?_⟩
    · rcases hwaiter u k cnt hspec with hback | ⟨hon, -, hcleared⟩
      · exact .back hback
      · exact .of_cleared hchecked hon hcleared
    · have hspec : McsPc.speculation (s₀.thread u).pc = some (lk, k, cnt) ∧
          2 ≤ McsPc.stage (s₀.thread u).pc := by
        rcases hread with hp | hp <;> rw [hp] <;> exact ⟨rfl, by simp [McsPc.stage]⟩
      rcases hwaiter u k cnt hspec.1 with hback | ⟨hon, hstage, hcleared⟩
      · exact hback
      · cases Halted.of_cleared hchecked hon hcleared with
        | back hp => exact hp
        | notBegun hp | notChecked hp =>
          -- it had read the flag when the walk began, so it is past these places
          rw [hp] at hstage
          have hlow := Nat.le_trans hspec.2 hstage
          exact absurd hlow (by simp [McsPc.stage])
  · rintro pre p seg u lk k cnt rfl hstart hnot
    have hsplit : pre ++ p :: seg = pre ++ [p] ++ seg := by simp
    rw [hsplit] at h
    -- once the flag is cleared the waiter can only go back
    revert hnot
    apply h.invariant_after (I := fun seg s => (∀ q ∈ p :: seg,
      (q.1.thread u).pc ≠ .spinWaitTm lk k cnt) → Halted s u lk k cnt)
    · intro s h hnot
      have hcut : (mcsHtm Tid Lid cfg).Run System.Free (pre ++ [(p.1, p.2)]) s := h
      obtain ⟨-, -, hs⟩ := hcut.concat_inv
      exact hstart.htmStep (mcsHtm_invariant h).2.2 (hnot p (by simp)) hs
    · intro seg s a s' hr ih _ hs hnot
      have hlast := ih fun q hq => hnot q (by
        rcases List.mem_cons.mp hq with rfl | hq
        · simp
        · simp [hq])
      have hr' := hr.step (M := mcsHtm Tid Lid cfg) trivial hs
      exact hlast.htmStep (mcsHtm_invariant hr').2.2 (hnot (s, a) (by simp)) hs
  · intro t lk x d hat
    obtain ⟨i, -, hx, -⟩ := hok.walk t lk x d hat
    exact List.mem_of_getElem? hx
  · rintro pre seg t lk n rfl
    intro hseg
    -- each step of the walk shortens what is left of it
    have hcount : (McsPc.walk (s.thread t).pc = some (lk, n) →
        seg.countP (fun p => McsAct.tid p.2 = t) +
          walkLeft (Fintype.card Tid) s lk (s.thread t).pc ≤ 2 * Fintype.card Tid) ∧
        seg.countP (fun p => McsAct.tid p.2 = t) ≤ 2 * Fintype.card Tid := by
      revert hseg
      apply h.invariant_after (I := fun seg s =>
        (∀ p ∈ seg, McsPc.walk (p.1.thread t).pc = some (lk, n)) →
          (McsPc.walk (s.thread t).pc = some (lk, n) →
            seg.countP (fun p => McsAct.tid p.2 = t) +
              walkLeft (Fintype.card Tid) s lk (s.thread t).pc ≤ 2 * Fintype.card Tid) ∧
            seg.countP (fun p => McsAct.tid p.2 = t) ≤ 2 * Fintype.card Tid)
      · intro s h _
        obtain ⟨hsound, hok, -⟩ := mcsHtm_invariant h
        refine ⟨fun hpc => ?_, Nat.zero_le _⟩
        rw [List.countP_nil, Nat.zero_add]
        exact (walkLeft_bounds hsound hok.walk hpc).2
      · intro seg s a s' hr ih _ hs hseg
        obtain ⟨hsound, hok, -⟩ := mcsHtm_invariant hr
        have hpc := hseg (s, a) (by simp)
        have hbefore := (ih fun p hp => hseg p (List.mem_append_left _ hp)).1 hpc
        have hstep := walkLeft_htmStep hsound hok.walk hpc hs
        rw [List.countP_append, List.countP_singleton]
        simp only [decide_eq_true_eq]
        omega
    exact hcount.2
  · exact fun t lk n hlive hpc => walk_goesOn hlive hpc

/-- The lock is handed over while the thread behind speculates and the next one is about to. -/
theorem mcs_halts_both : ∃ tr s, @McsHaltLaw (Fin 3) Unit _ _ _ {maxDistance := 3} tr s ∧
    (s.thread 0).pc = .clearWait () 0 (1, 0) ∧ (s.thread 1).pc = .spinWaitTm () 0 2 ∧
    (s.thread 2).pc = .htmBegin () 0 3 := by
  have hs : ((mcsHtm (Fin 3) Unit {maxDistance := 3}).exec {}
      [[.lock 0 ()], .replicate 9 (.run 0), [.lock 1 ()], .replicate 10 (.run 1),
        [.htmStart 1, .run 1, .run 1, .lock 2 ()], .replicate 10 (.run 2),
        [.unlock 0 ()], .replicate 8 (.run 0)].flatten).map
      (fun s => ((s.thread 0).pc, (s.thread 1).pc, (s.thread 2).pc)) =
      some (.clearWait () 0 (1, 0), .spinWaitTm () 0 2, .htmBegin () 0 3) := by decide
  obtain ⟨s, hexec, hpcs⟩ := Option.map_eq_some_iff.mp hs
  rw [Prod.mk.injEq, Prod.mk.injEq] at hpcs
  have hrun := (System.Run.init (M := mcsHtm (Fin 3) Unit {maxDistance := 3}) rfl).exec hexec
  exact ⟨_, s, mcs_halts hrun, hpcs⟩

/-- A transaction that has not read its flag when the walk begins may be live until after the
    handover. -/
theorem mcs_halts_unread : ∃ pre s₀ seg s,
    (mcsHtm (Fin 2) Unit {}).Run System.Free (pre ++ (s₀, .run 0) :: seg) s ∧
    (s₀.thread 0).pc = .haltFirst () 0 ∧ (s.thread 0).pc = .clearWait () 0 (1, 0) ∧
    (∀ p ∈ seg, McsPc.handover (p.1.thread 0).pc = some ((), 0)) ∧
    (s₀.thread 1).pc = .checkSpeculate () 0 2 ∧
    (∀ p ∈ seg, (p.1.thread 1).pc = .checkSpeculate () 0 2) ∧
    (s.thread 1).pc = .checkSpeculate () 0 2 := by
  have hs : ((mcsHtm (Fin 2) Unit {}).exec {}
      [[.lock 0 ()], .replicate 9 (.run 0), [.lock 1 ()], .replicate 10 (.run 1),
        [.htmStart 1, .unlock 0 (), .run 0]].flatten).bind (fun s₀ =>
      ((mcsHtm (Fin 2) Unit {}).exec s₀ (List.replicate 5 (.run 0))).map fun s =>
        decide ((s₀.thread 0).pc = .haltFirst () 0 ∧ (s.thread 0).pc = .clearWait () 0 (1, 0) ∧
          (∀ p ∈ (mcsHtm (Fin 2) Unit {}).execTrace s₀ (List.replicate 5 (.run 0)),
            McsPc.handover (p.1.thread 0).pc = some ((), 0)) ∧
          (s₀.thread 1).pc = .checkSpeculate () 0 2 ∧
          (∀ p ∈ (mcsHtm (Fin 2) Unit {}).execTrace s₀ (List.replicate 5 (.run 0)),
            (p.1.thread 1).pc = .checkSpeculate () 0 2) ∧
          (s.thread 1).pc = .checkSpeculate () 0 2)) = some true := by decide
  obtain ⟨s₀, hexec₀, hs⟩ := Option.bind_eq_some_iff.mp hs
  obtain ⟨s, hexec, hpcs⟩ := Option.map_eq_some_iff.mp hs
  obtain ⟨hstart, hend, hover, hlive₀, hlive, hlive'⟩ := of_decide_eq_true hpcs
  have hrun := ((System.Run.init (M := mcsHtm (Fin 2) Unit {}) rfl).exec hexec₀).exec hexec
  exact ⟨_, s₀, _, s, hrun, hstart, hend, fun p hp => hover p (List.mem_cons_of_mem _ hp), hlive₀,
    fun p hp => hlive p (List.mem_cons_of_mem _ hp), hlive'⟩

end

end TxLock.Spec
