import TxLock.ForStd.Lcg
import TxLock.Spec.TxcondOnce

/-!
# The oldest waiter of a condition variable

`txcond_signal` takes the newest waiter, except when the number it draws is divisible by
10; then it takes the oldest. Only a signal draws a number, and only a signal that takes the
head or a broadcast changes the head of a queue that is not empty. The numbers are those
of a linear congruential generator that goes on from 5 when it is at 0, so 0, which is
divisible by 10, is drawn within `2 ^ 32` signals.

## Key results

- `exists_takesHead`: from every value of `cnt` a signal to come takes the head
- `txcond_eventual_fifo`: the oldest waiter does not starve
-/

namespace TxLock.Spec

open Native CondState

variable {Tid Lid : Type}

variable [DecidableEq Tid] [DecidableEq Lid]

/-- What the locked section of a `txcond_signal` takes off the queue. -/
def CondState.dequeues (s : CondState Tid Lid) : CondAct Tid Lid → List (List Nat)
  | .run t =>
    match (s.thread t).pc with
    | .ulBody .dequeue => [CondState.removed s (.run t)]
    | _ => []
  | .acquire _ _ | .release _ _ | .wait _ _ | .signal _ | .broadcast _ | .fail _ _ => []

/-- What the locked section of a `txcond_broadcast` takes off the queue. -/
def CondState.detaches (s : CondState Tid Lid) : CondAct Tid Lid → List (List Nat)
  | .run t =>
    match (s.thread t).pc with
    | .ulBody .detach => [CondState.removed s (.run t)]
    | _ => []
  | .acquire _ _ | .release _ _ | .wait _ _ | .signal _ | .broadcast _ | .fail _ _ => []

/-! ## The numbers drawn -/

/-- From every value of `cnt`, one of the next `2 ^ 32 - 1` signals takes the head. -/
theorem exists_takesHead (cnt : Word) :
    ∃ k, k + 1 < 2 ^ 32 ∧ takesHead (nextCnt^[k] cnt) = true := by
  have ha : ∃ t, (1103515245 : Word) = 1 + 4 * t := ⟨275878811, by decide⟩
  have hc : Odd (12345 : Word) := ⟨6172, by decide⟩
  obtain ⟨n, hpos, hlt, hn⟩ := exists_reset_iterate_eq_zero ha hc bitVec_even_or_odd
    (bitVec_two_pow 32) (show (5 : Word) ≠ 0 by decide) cnt
  obtain ⟨k, rfl⟩ := Nat.exists_eq_add_of_le' hpos
  refine ⟨k, hlt, ?_⟩
  have hzero : nextCnt (nextCnt^[k] cnt) = 0 := by
    rw [← Function.iterate_succ_apply' nextCnt]
    exact hn
  unfold takesHead
  rw [hzero]
  rfl

/-! ## The head of the queue -/

section

variable {s s' : CondState Tid Lid} {a : CondAct Tid Lid} {n : Nat} {q q' : List Nat}
  {hands hands' : Tid → List Nat} {place place' : Nat → NodePlace Tid}

theorem CondState.dequeues_eq_nil (hb : ∀ t b, a = .run t → (s.thread t).pc ≠ .ulBody b) :
    CondState.dequeues s a = [] := by
  cases a with
  | run t =>
    simp only [CondState.dequeues]
    split
    · rename_i hpc
      exact absurd hpc (hb t .dequeue rfl)
    · rfl
  | _ => rfl

omit [DecidableEq Tid] [DecidableEq Lid] in
theorem CondState.cnt_dequeueBody (s : CondState Tid Lid) :
    s.dequeueBody.1.cnt = nextCnt s.cnt := by
  simp only [dequeueBody]
  split
  · unfold unlinkHead
    repeat' split
    all_goals rfl
  · unfold unlinkTail
    repeat' split
    all_goals rfl

omit [DecidableEq Tid] [DecidableEq Lid] in
/-- A signal that takes another node leaves the head where it is. -/
theorem CondState.head_dequeueBody
    (hq : DLinked (fun m => (s.node m).next) (fun m => (s.node m).prev) s.head s.tail q)
    (hhead : s.head = some n) (hpick : s.signalPick ≠ some n) :
    s.dequeueBody.1.head = some n := by
  have hcnt : takesHead s.cnt = false := by
    by_contra hcnt
    rw [Bool.not_eq_false] at hcnt
    exact hpick (by rw [signalPick, if_pos hcnt, hhead])
  rw [signalPick, hcnt] at hpick
  simp only [dequeueBody, hcnt, Bool.false_eq_true, if_false]
  cases htail : s.tail with
  | none =>
    rw [hq.last_eq_none_iff, ← hq.first_eq_none_iff, hhead] at htail
    simp at htail
  | some l =>
    have hne : l ≠ n := by
      rintro rfl
      exact hpick htail
    -- a last node that is not the head has one before it
    have hprev : (s.node l).prev ≠ none := by
      intro hnone
      rw [htail, hhead] at hq
      obtain ⟨r, hr, hr'⟩ := hq.bwd.exists_cons
      rw [hnone] at hr'
      rw [hr'.eq_nil_iff.mpr rfl] at hr
      have hmem := hq.symm.mem_last
      rw [hr, List.mem_singleton] at hmem
      exact hne hmem.symm
    obtain ⟨m, hm⟩ := Option.ne_none_iff_exists'.mp hprev
    simp only [unlinkTail, hm]
    exact hhead

/-- A signal takes the node it has picked off the queue. -/
theorem CondState.mem_removed_dequeue {t : Tid} (h : NodeInv (CondState.nodes s) q hands place)
    (h' : NodeInv (CondState.nodes s') q' hands' place') (hs : s.step (.run t) = some s')
    (hpc : (s.thread t).pc = .ulBody .dequeue) (hpick : s.signalPick = some n) :
    n ∈ CondState.removed s (.run t) := by
  have hstep := CondState.queueStep_of_step h h' hs
  have hlist := h.condQueueOk.list
  have hnodup := hlist.nodup
  simp only [QueueStep, hpc] at hstep
  simp only [CondState.removed, hs]
  rw [List.mem_filter, decide_eq_true_eq]
  rw [signalPick] at hpick
  rcases hstep with ⟨hnil, -, -⟩ | ⟨m, -, hqueue⟩
  · rw [hnil] at hlist
    rw [hlist.first_eq_none_iff.mpr rfl, hlist.last_eq_none_iff.mpr rfl] at hpick
    simp at hpick
  · cases hcnt : takesHead s.cnt with
    | true =>
      rw [hcnt, if_pos rfl] at hqueue hpick
      rw [hqueue] at hlist hnodup ⊢
      obtain rfl := Option.some.inj (hpick.symm.trans hlist.fwd.1)
      exact ⟨List.mem_cons_self, (List.nodup_cons.mp hnodup).1⟩
    | false =>
      rw [hcnt, if_neg Bool.false_ne_true] at hqueue hpick
      rw [hqueue] at hlist hnodup ⊢
      have hlast := hlist.bwd
      rw [List.reverse_concat] at hlast
      obtain rfl := Option.some.inj (hpick.symm.trans hlast.1)
      exact ⟨List.mem_concat_self, fun hn => (List.nodup_append.mp hnodup).2.2 n hn n (by simp) rfl⟩

/-- A broadcast takes the head of the queue, with the rest. -/
theorem CondState.mem_removed_detach {t : Tid} (h : NodeInv (CondState.nodes s) q hands place)
    (h' : NodeInv (CondState.nodes s') q' hands' place') (hs : s.step (.run t) = some s')
    (hpc : (s.thread t).pc = .ulBody .detach) (hhead : s.head = some n) :
    n ∈ CondState.removed s (.run t) := by
  have hstep := CondState.queueStep_of_step h h' hs
  have hlist := h.condQueueOk.list
  simp only [QueueStep, hpc] at hstep
  simp only [CondState.removed, hs]
  rw [List.mem_filter, decide_eq_true_eq, hstep.1]
  rw [hhead] at hlist
  exact ⟨hlist.mem_first, List.not_mem_nil⟩

/-- A signal draws one number, and leaves the head alone when it has picked another node. -/
theorem CondState.dequeue_step {t : Tid} (hq : Links s q) (hs : s.runStep t = some s')
    (hpc : (s.thread t).pc = .ulBody .dequeue) (hhead : s.head = some n) :
    s'.cnt = nextCnt s.cnt ∧ (s.signalPick ≠ some n → s'.head = some n) := by
  simp only [runStep, hpc, Option.some.injEq] at hs
  subst hs
  rw [(CondState.goto_record (q := q)).2.1, (CondState.goto_record (q := q)).1]
  exact ⟨CondState.cnt_dequeueBody s, CondState.head_dequeueBody hq hhead⟩

/-- A wait that finds a queue leaves its head and `cnt` alone. -/
theorem CondState.enqueue_step {t : Tid} {c : WaitCall Lid} {m : Nat} (hq : Links s q)
    (hs : s.runStep t = some s') (hpc : (s.thread t).pc = .ulBody (.enqueue c m))
    (hhead : s.head = some n) : s'.head = some n ∧ s'.cnt = s.cnt := by
  simp only [runStep, hpc, Option.some.injEq] at hs
  subst hs
  constructor
  · -- the queue is not empty, so the node is linked behind its last one
    have htail : s.tail ≠ none := by
      rw [Ne, hq.last_eq_none_iff, ← hq.first_eq_none_iff, hhead]
      simp
    obtain ⟨l, hl⟩ := Option.ne_none_iff_exists'.mp htail
    show (s.enqueueBody m).head = _
    simp only [enqueueBody, hl]
    exact hhead
  · show (s.enqueueBody m).cnt = _
    unfold enqueueBody
    split <;> rfl

/-- What a step can do to the head and to `cnt`. -/
theorem CondState.head_step (h : NodeInv (CondState.nodes s) q hands place)
    (h' : NodeInv (CondState.nodes s') q' hands' place') (hs : s.step a = some s')
    (hhead : s.head = some n) :
    (CondState.dequeues s a = [] ∧ s'.head = some n ∧ s'.cnt = s.cnt) ∨
    (CondState.dequeues s a = [CondState.removed s a] ∧ s'.cnt = nextCnt s.cnt ∧
      (s.signalPick = some n → n ∈ CondState.removed s a) ∧
      (s.signalPick ≠ some n → s'.head = some n)) ∨
    (CondState.dequeues s a = [] ∧ ∃ ns ∈ CondState.detaches s a, n ∈ ns) := by
  have hq : Links s q := h.queue
  by_cases hb : ∀ t b, a = .run t → (s.thread t).pc ≠ .ulBody b
  · -- everything but the sections under the lock leaves the queue alone
    obtain ⟨hh, hc, -⟩ := CondState.links_step hs hb
    exact .inl ⟨CondState.dequeues_eq_nil hb, hh.trans hhead, hc⟩
  · push Not at hb
    obtain ⟨t, b, rfl, hpc⟩ := hb
    have hrun := CondState.runStep_of_step hs
    cases b with
    | enqueue c m =>
      exact .inl ⟨by simp [CondState.dequeues, hpc], CondState.enqueue_step hq hrun hpc hhead⟩
    | dequeue =>
      obtain ⟨hc, hh⟩ := CondState.dequeue_step hq hrun hpc hhead
      exact .inr (.inl ⟨by simp [CondState.dequeues, hpc], hc,
        CondState.mem_removed_dequeue h h' hs hpc, hh⟩)
    | detach =>
      have hmem := CondState.mem_removed_detach h h' hs hpc hhead
      exact .inr (.inr ⟨by simp [CondState.dequeues, hpc],
        ⟨_, by simp [CondState.detaches, hpc], hmem⟩⟩)

/-- While a node is the head, the signals draw one number after the other, and the first
    that is divisible by 10 takes the node off. -/
theorem CondState.dequeues_head {tr : List (CondState Tid Lid × CondAct Tid Lid)}
    (hrun : (txcond Tid Lid).Run System.Free tr s) (hhead : s.head = some n) {k : Nat}
    (hk : takesHead (nextCnt^[k] s.cnt) = true) {as : List (CondAct Tid Lid)}
    (hs : (txcond Tid Lid).exec s as = some s') :
    (System.events CondState.dequeues ((txcond Tid Lid).execTrace s as)).length ≤ k ∨
    (∃ ns ∈ (System.events CondState.dequeues ((txcond Tid Lid).execTrace s as)).take (k + 1),
      n ∈ ns) ∨
    ∃ ns ∈ System.events CondState.detaches ((txcond Tid Lid).execTrace s as), n ∈ ns := by
  induction as generalizing s tr k with
  | nil => exact .inl (Nat.zero_le k)
  | cons a as ih =>
    simp only [System.exec] at hs
    cases hstep : (txcond Tid Lid).step s a with
    | none => simp [hstep] at hs
    | some t =>
      simp only [hstep, Option.bind_some] at hs
      have hrun' := hrun.step trivial hstep
      obtain ⟨q, hands, place, hinv⟩ := nodeInv_of_run hrun
      obtain ⟨q', hands', place', hinv'⟩ := nodeInv_of_run hrun'
      have htrace : (txcond Tid Lid).execTrace s (a :: as) =
          [(s, a)] ++ (txcond Tid Lid).execTrace t as := by
        simp [System.execTrace, hstep]
      rw [htrace, System.events_append, System.events_append, System.events_singleton,
        System.events_singleton]
      -- a broadcast to come
      have hlater : (∃ ns ∈ System.events CondState.detaches ((txcond Tid Lid).execTrace t as),
          n ∈ ns) → ∃ ns ∈ CondState.detaches s a ++
            System.events CondState.detaches ((txcond Tid Lid).execTrace t as), n ∈ ns := by
        rintro ⟨ns, hns, hn⟩
        exact ⟨ns, List.mem_append_right _ hns, hn⟩
      rcases CondState.head_step hinv hinv' hstep hhead with
        ⟨hd, hh, hc⟩ | ⟨hd, hc, htakes, hh⟩ | ⟨-, ns, hns, hn⟩
      · rw [hd, List.nil_append]
        rcases ih hrun' hh (hc ▸ hk) hs with h | h | h
        · exact .inl h
        · exact .inr (.inl h)
        · exact .inr (.inr (hlater h))
      · rw [hd, List.singleton_append, List.length_cons, List.take_succ_cons]
        by_cases hpick : s.signalPick = some n
        · exact .inr (.inl ⟨_, List.mem_cons_self, htakes hpick⟩)
        cases k with
        | zero =>
          -- the number drawn is divisible by 10
          refine absurd ?_ hpick
          have hnow : takesHead s.cnt = true := hk
          rw [CondState.signalPick, if_pos hnow, hhead]
        | succ k =>
          rw [Function.iterate_succ_apply, ← hc] at hk
          rcases ih hrun' (hh hpick) hk hs with h | ⟨ns, hns, hn⟩ | h
          · exact .inl (by omega)
          · exact .inr (.inl ⟨ns, List.mem_cons_of_mem _ hns, hn⟩)
          · exact .inr (.inr (hlater h))
      · exact .inr (.inr ⟨ns, List.mem_append_left _ hns, hn⟩)

/-- The oldest waiter does not starve. From every value of `cnt` a number divisible by 10 is
    one of the next `2 ^ 32 - 1` drawn; and whichever node is then at the head, and whatever
    the threads do, one of that many signals has taken it off the queue, unless a broadcast
    took it off before. -/
theorem txcond_eventual_fifo (cnt : Word) :
    ∃ k, k + 1 < 2 ^ 32 ∧ takesHead (nextCnt^[k] cnt) = true ∧
      ∀ {tr : List (CondState Tid Lid × CondAct Tid Lid)} {s : CondState Tid Lid} {n : Nat},
        (txcond Tid Lid).Run System.Free tr s → s.cnt = cnt → s.head = some n →
        ∀ (as : List (CondAct Tid Lid)) (s' : CondState Tid Lid),
          (txcond Tid Lid).exec s as = some s' →
          k < (System.events CondState.dequeues ((txcond Tid Lid).execTrace s as)).length →
          (∃ ns ∈ (System.events CondState.dequeues
            ((txcond Tid Lid).execTrace s as)).take (k + 1), n ∈ ns) ∨
          ∃ ns ∈ System.events CondState.detaches ((txcond Tid Lid).execTrace s as), n ∈ ns := by
  obtain ⟨k, hlt, hk⟩ := exists_takesHead cnt
  refine ⟨k, hlt, hk, fun hrun hcnt hhead as s' hs hlen => ?_⟩
  -- if the node is still the head, fewer than `k + 1` numbers have been drawn
  subst hcnt
  exact (CondState.dequeues_head hrun hhead hk hs).resolve_left (Nat.not_le.mpr hlen)

end

/-- Threads 0 and 1 wait, in this order. -/
theorem txcond_eventual_fifo_two_waiters :
    ∃ s : CondState (Fin 3) (Fin 1), s.head = some 0 ∧ s.tail = some 1 ∧
      ∃ k, k + 1 < 2 ^ 32 ∧ ∀ as s', (txcond (Fin 3) (Fin 1)).exec s as = some s' →
        k < (System.events CondState.dequeues ((txcond (Fin 3) (Fin 1)).execTrace s as)).length →
        (∃ ns ∈ (System.events CondState.dequeues
          ((txcond (Fin 3) (Fin 1)).execTrace s as)).take (k + 1), 0 ∈ ns) ∨
        ∃ ns ∈ System.events CondState.detaches ((txcond (Fin 3) (Fin 1)).execTrace s as),
          0 ∈ ns := by
  let as : List (CondAct (Fin 3) (Fin 1)) :=
    [.acquire 0 0, .wait 0 ⟨0, false⟩] ++ List.replicate 7 (.run 0) ++
      [.acquire 1 0, .wait 1 ⟨0, false⟩] ++ List.replicate 7 (.run 1)
  have hsteps : ((txcond (Fin 3) (Fin 1)).exec { cnt := 7 } as).map
      (fun s => (s.head, s.tail, s.cnt)) = some (some 0, some 1, 7) := by decide
  obtain ⟨s, hs, hq⟩ := Option.map_eq_some_iff.mp hsteps
  rw [Prod.mk.injEq, Prod.mk.injEq] at hq
  obtain ⟨hhead, htail, hcnt⟩ := hq
  obtain ⟨k, hk, -, hfifo⟩ := @txcond_eventual_fifo (Fin 3) (Fin 1) _ _ 7
  have hrun := (System.Run.init (M := txcond (Fin 3) (Fin 1)) (s := { cnt := 7 }) rfl).exec hs
  exact ⟨s, hhead, htail, k, hk, fun as s' => hfifo hrun hcnt hhead as s'⟩

end TxLock.Spec
