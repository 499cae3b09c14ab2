import TxLock.Spec.TxcondQueue

/-!
# What a signal of `txcond.c` is spent on

A wait that times out leaves its node in the queue, and a signal does not look at the
status of the node it dequeues: it may be spent on a wait that has returned already.
It is not spent so when every signal dequeues a node that has not timed out, and no
wait times out whose node a signal has dequeued (`SignalSound`).

## Key results

- `Woken`, `SignalInv`: a dequeued node's wait has been woken and will return 0
- `returnsZero_semWait`: a wait whose semaphore is posted returns 0 by its own steps
- `txcond_signal_wakes`: no signal of a run is lost if and only if its steps are sound
-/

namespace TxLock.Spec

open Native

variable {Tid Lid : Type}

/-- The wait with node `n` has returned 0, or is about to: it has taken its semaphore or
    will find it posted. -/
def Woken (c : CondNodes Tid) (n : Nat) : Prop :=
  c.returned n = some 0 ∨
    ∃ w, (c.role w = .claims n ∨ c.role w = .frees n ∨ c.role w = .leaves n) ∨
      c.role w = .sleeps n ∧ (1 ≤ (c.node n).sem ∨ ∃ u, c.role u = .posts n)

/-- No signal is lost: each has dequeued a node of its own, whose wait has not timed out
    and has been woken. -/
structure SignalsKept (s : CondState Tid Lid) : Prop where
  nodup : s.signalled.Nodup
  not_expired : ∀ n ∈ s.signalled, s.returned n ≠ some (-1)
  woken : ∀ n ∈ s.signalled, Woken (CondState.nodes s) n

/-- The node is in the queue. -/
def Queued (s : CondState Tid Lid) (n : Nat) : Prop :=
  ∃ q, Linked (fun m => (s.node m).next) s.head q ∧ n ∈ q

/-- A signal that finds nodes in the queue dequeues one whose wait is asleep. -/
def WakesOne (s : CondState Tid Lid) : CondAct Tid Lid → Prop
  | .run t => (s.thread t).pc = .ulBody .dequeue → ∀ m, Queued s m →
      ∃ n w, s.signalPick = some n ∧ (s.node n).status = .waiting ∧
        CondPc.role (s.thread w).pc = .sleeps n
  | _ => True

/-- A signal does not dequeue a node that has timed out, and a node that a signal has
    dequeued does not time out. -/
def SignalSound (s : CondState Tid Lid) (a : CondAct Tid Lid) : Prop :=
  match CondState.event s a with
  | .dequeued n => (s.node n).status ≠ .timeout
  | .expired n => n ∉ s.signalled
  | .other => True

instance (s : CondState Tid Lid) (a : CondAct Tid Lid) : Decidable (SignalSound s a) :=
  match h : CondState.event s a with
  | .dequeued n => decidable_of_iff ((s.node n).status ≠ .timeout) (by simp [SignalSound, h])
  | .expired n => decidable_of_iff (n ∉ s.signalled) (by simp [SignalSound, h])
  | .other => isTrue (by simp [SignalSound, h])

/-! ## Signals in the abstract view -/

/-- The condition in the abstract view. -/
def NodeSound (c : CondNodes Tid) : NodeEvent → Prop
  | .dequeued n => (c.node n).status ≠ .timeout
  | .expired n => n ∉ c.signalled
  | .other => True

/-- The values returned so far belong to waits that are over. -/
structure ReturnedOk (c : CondNodes Tid) : Prop where
  running : ∀ t n, (c.role t).waits? = some n → c.returned n = none
  unborn : ∀ n, c.fresh ≤ n → c.returned n = none

/-- The node a signal has dequeued is posted or about to be, and its wait is woken. -/
structure SignalInv (c : CondNodes Tid) (place : Nat → NodePlace Tid) : Prop where
  nodup : c.signalled.Nodup
  place : ∀ n ∈ c.signalled, place n = .spent ∨ ∃ t, c.role t = .posts n
  woken : ∀ n ∈ c.signalled, Woken c n

section Step

variable {c c' : CondNodes Tid} {q : List Nat} {hands : Tid → List Nat}
  {place place' : Nat → NodePlace Tid}

/-- The node of a wait has been allocated. -/
theorem NodeInv.waits_lt (h : NodeInv c q hands place) {t : Tid} {n : Nat}
    (hn : (c.role t).waits? = some n) : n < c.fresh := by
  have hborn : place n ≠ .unborn := by
    cases hr : c.role t with
    | fills m b =>
      rw [hr, NodeRole.waits?, Option.some.injEq] at hn
      rw [← hn, ((h.role t).fills m b hr).1]
      simp
    | sleeps m =>
      rw [hr, NodeRole.waits?, Option.some.injEq] at hn
      exact hn ▸ ((h.role t).sleeps m hr).2.1
    | claims m | frees m | leaves m =>
      rw [hr, NodeRole.waits?, Option.some.injEq] at hn
      rw [← hn, (h.role t).spent m (by rw [hr]; rfl)]
      simp
    | _ => simp [hr, NodeRole.waits?] at hn
  rw [ne_eq, h.unborn] at hborn
  omega

/-- Both ends of the queue are nodes in it. -/
theorem NodeInv.mem_of_end (h : NodeInv c q hands place) {n : Nat}
    (hn : c.head = some n ∨ c.tail = some n) : n ∈ q := by
  have hqueue := h.queue
  rcases hn with hn | hn <;> rw [hn] at hqueue
  · exact hqueue.mem_first
  · exact hqueue.mem_last

/-- The wait of a queued node is asleep, unless it has timed out. -/
theorem NodeInv.sleeps_of_mem (h : NodeInv c q hands place) {n : Nat} (hn : n ∈ q)
    (hst : (c.node n).status ≠ .timeout) :
    (c.node n).status = .waiting ∧ ∃ w, c.role w = .sleeps n := by
  have hp : (place n).unposted := by
    rw [(h.mem_queue n).mp hn]
    trivial
  exact (h.unposted n hp).owner.resolve_right fun ht => hst ht.1

/-- A node a signal has dequeued is neither new nor in the queue. -/
theorem SignalInv.place_of_mem (h : SignalInv c place) (hinv : NodeInv c q hands place) {n : Nat}
    (hn : n ∈ c.signalled) : place n ≠ .new ∧ place n ≠ .queued := by
  rcases h.place n hn with hp | ⟨t, hr⟩
  · simp [hp]
  · have hhand : hands t = [n] := by simpa [hr, HandOk] using (hinv.role t).hand
    rw [(hinv.mem_hand t n).mp (by simp [hhand])]
    simp

variable [DecidableEq Tid]

/-- A wait returns a value for its own node, when it is over. -/
theorem ReturnedOk.step (h : ReturnedOk c) (hinv : NodeInv c q hands place) {t : Tid}
    {e : NodeEvent} (hs : NodeStep c t e c') : ReturnedOk c' := by
  -- a thread that goes on with its node has not returned from it
  have hself : ∀ {r : NodeRole}, (∀ n, r.waits? = some n → (c.role t).waits? = some n) →
      ∀ u n, (Function.update c.role t r u).waits? = some n → c.returned n = none := by
    intro r hr u n hu
    by_cases hut : u = t
    · subst hut
      rw [Function.update_self] at hu
      exact h.running u n (hr n hu)
    · rw [Function.update_of_ne hut] at hu
      exact h.running u n hu
  -- a thread that returns gives its node up
  have hover : ∀ {n : Nat} {v : Int}, (c.role t).waits? = some n →
      ReturnedOk ((c.ret n v).setRole t .idle) := by
    intro n v hn
    refine ⟨fun u m hu => ?_, fun m hm => ?_⟩
    · by_cases hut : u = t
      · subst hut
        simp [CondNodes.setRole, NodeRole.waits?] at hu
      · have hum : (c.role u).waits? = some m := by
          simpa [CondNodes.setRole, CondNodes.ret, hut] using hu
        have hmn : m ≠ n := fun hmn => hut (hinv.inj u t n (hmn ▸ hum) hn)
        simpa [CondNodes.setRole, CondNodes.ret, hmn] using h.running u m hum
    · have hmn : m ≠ n := fun hmn => absurd (hinv.waits_lt hn) (by
        simp only [CondNodes.setRole, CondNodes.ret] at hm; omega)
      simpa [CondNodes.setRole, CondNodes.ret, hmn] using h.unborn m hm
  cases hs with
  | alloc hr =>
    refine ⟨fun u n hu => ?_, fun n hn => h.unborn n ?_⟩
    · by_cases hut : u = t
      · subst hut
        simp only [CondNodes.setRole, Function.update_self, NodeRole.waits?,
          Option.some.injEq] at hu
        exact h.unborn n (by omega)
      · exact h.running u n (by simpa [CondNodes.setRole, hut] using hu)
    · simp only [CondNodes.setRole] at hn
      omega
  | initFails hr | leave hr => exact hover (by rw [hr]; rfl)
  | @expire n hr =>
    have := hover (n := n) (v := -1) (by rw [hr]; rfl)
    exact ⟨this.running, this.unborn⟩
  | fill hr | enqueueFirst hr | enqueueLast hr | wake hr | late hr | claim hr | yield hr
  | free hr | dequeueHead hr | dequeueHeadOf hr | dequeueTail hr | dequeueTailOf hr | post hr
  | signalClaim hr | signalYield hr | discard hr | detach hr | walkPost hr | walkFails hr
  | walkNext hr | walkYield hr => exact ⟨hself (by simp [hr, NodeRole.waits?]), h.unborn⟩
  | walkClaim hr | walkFree hr => exact ⟨hself (by simp), h.unborn⟩

/-- What a step of thread `t` has to do for a wait to stay woken. -/
theorem Woken.congr {n : Nat} {t : Tid} {r : NodeRole} (h : Woken c n)
    (hroles : c'.role = Function.update c.role t r)
    (hret : c.returned n = some 0 → c'.returned n = some 0)
    (hself : (c.role t).waits? = some n → Woken c' n)
    (hsem : 1 ≤ (c.node n).sem → 1 ≤ (c'.node n).sem)
    (hpost : c.role t = .posts n → 1 ≤ (c'.node n).sem) : Woken c' n := by
  have hother : ∀ u, u ≠ t → c'.role u = c.role u := fun u hu => by
    rw [hroles, Function.update_of_ne hu]
  rcases h with hr | ⟨w, hw⟩
  · exact .inl (hret hr)
  · by_cases hwt : w = t
    · subst hwt
      refine hself ?_
      rcases hw with (hw | hw | hw) | ⟨hw, -⟩ <;> rw [hw] <;> rfl
    · refine .inr ⟨w, ?_⟩
      rw [hother w hwt]
      refine hw.imp_right fun ⟨hsl, htoken⟩ => ⟨hsl, ?_⟩
      rcases htoken with hs | ⟨u, hu⟩
      · exact .inl (hsem hs)
      · by_cases hut : u = t
        · subst hut
          exact .inl (hpost hu)
        · exact .inr ⟨u, by rw [hother u hut]; exact hu⟩

/-- A sound step keeps a woken wait woken. -/
theorem Woken.step {n : Nat} (h : Woken c n) (hinv : NodeInv c q hands place)
    (hplace : place n ≠ .new) {t : Tid} {e : NodeEvent} (hs : NodeStep c t e c')
    (he : e ≠ .expired n) : Woken c' n := by
  -- no step takes back what has been posted
  have hkeep : ∀ {d : CondNodes Tid} {k : Nat} {x : CondNode}, (d.node k).sem ≤ x.sem →
      1 ≤ (d.node n).sem → 1 ≤ ((d.setNode k x).node n).sem := by
    intro d k x hx h1
    by_cases hk : n = k
    · subst hk
      simpa [CondNodes.setNode] using Nat.le_trans h1 hx
    · simpa [CondNodes.setNode, hk] using h1
  -- a node that is filled in is new, so it is not `n`
  have hfill : ∀ {m : Nat} {b : Bool}, c.role t = .fills m b → m ≠ n := by
    rintro m b hr rfl
    exact hplace ((hinv.role t).fills m b hr).1
  cases hs with
  | alloc hr | dequeueHead hr | dequeueTail hr | detach hr | signalYield hr | walkFails hr
  | walkNext hr | walkYield hr =>
    exact h.congr rfl id (by simp [hr, NodeRole.waits?]) id (by simp [hr])
  | dequeueHeadOf hr | dequeueTailOf hr =>
    exact h.congr rfl id (by simp [hr, NodeRole.waits?])
      (hkeep (d := c.setEnds _ _) (by simp [CondNodes.setEnds])) (by simp [hr])
  | signalClaim hr | discard hr | walkPost hr
  | walkClaim hr | walkFree hr =>
    exact h.congr rfl id (by simp [hr, NodeRole.waits?]) (hkeep (by simp)) (by simp [hr])
  -- the node that was to be posted has its wakeup now
  | @post m hr =>
    refine h.congr rfl id (by simp [hr, NodeRole.waits?]) (hkeep (by simp)) fun hp => ?_
    rw [hr, NodeRole.posts.injEq] at hp
    subst hp
    simp [CondNodes.setRole, CondNodes.post, CondNodes.setNode]
  | @fill m hr =>
    have hmn : n ≠ m := (hfill hr).symm
    exact h.congr rfl id (fun hw => absurd (by simpa [hr, NodeRole.waits?] using hw) hmn.symm)
      (by simp [CondNodes.setRole, CondNodes.setNode, hmn]) (by simp [hr])
  | @initFails m hr =>
    have hmn : n ≠ m := (hfill hr).symm
    exact h.congr rfl (by simp [CondNodes.setRole, CondNodes.ret, hmn])
      (fun hw => absurd (by simpa [hr, NodeRole.waits?] using hw) hmn.symm) id (by simp [hr])
  | @enqueueFirst m hr =>
    exact h.congr rfl id (fun hw => absurd (by simpa [hr, NodeRole.waits?] using hw) (hfill hr)) id
      (by simp [hr])
  | @enqueueLast m l hr =>
    exact h.congr rfl id (fun hw => absurd (by simpa [hr, NodeRole.waits?] using hw) (hfill hr))
      (fun h1 => hkeep (d := c.setPrev m (some l)) (by simp) (hkeep (by simp) h1)) (by simp [hr])
  | @wake m hr =>
    by_cases hmn : n = m
    · subst hmn
      exact .inr ⟨t, .inl (.inl (by simp [CondNodes.setRole]))⟩
    · exact h.congr rfl id (fun hw => absurd (by simpa [hr, NodeRole.waits?] using hw) (Ne.symm hmn))
        (by simp [CondNodes.setRole, CondNodes.setNode, hmn]) (by simp [hr])
  | @expire m hr =>
    have hmn : n ≠ m := fun hmn => he (by rw [hmn])
    exact h.congr rfl (by simp [CondNodes.setRole, CondNodes.ret, CondNodes.setStatus,
      CondNodes.setNode, hmn])
      (fun hw => absurd (by simpa [hr, NodeRole.waits?] using hw) hmn.symm)
      (hkeep (by simp)) (by simp [hr])
  | @late m hr | @yield m hr =>
    refine h.congr rfl id (fun hw => .inr ⟨t, .inl (.inr (.inl ?_))⟩) id (by simp [hr])
    simp only [hr, NodeRole.waits?, Option.some.injEq] at hw
    simp [CondNodes.setRole, hw]
  | @claim m hr | @free m hr =>
    refine h.congr rfl id (fun hw => .inr ⟨t, .inl (.inr (.inr ?_))⟩) (hkeep (by simp)) (by simp [hr])
    simp only [hr, NodeRole.waits?, Option.some.injEq] at hw
    simp [CondNodes.setRole, hw]
  | @leave m hr =>
    by_cases hmn : n = m
    · subst hmn
      exact .inl (by simp [CondNodes.setRole, CondNodes.ret])
    · exact h.congr rfl (by simp [CondNodes.setRole, CondNodes.ret, hmn])
        (fun hw => absurd (by simpa [hr, NodeRole.waits?] using hw) (Ne.symm hmn)) id (by simp [hr])

/-- A step changes the role of one thread. -/
theorem NodeStep.role_eq {t : Tid} {e : NodeEvent} (hs : NodeStep c t e c') :
    ∃ r, c'.role = Function.update c.role t r := by
  cases hs <;> exact ⟨_, rfl⟩

/-- A signal has taken the node at one end of the queue, and is recorded. -/
theorem NodeStep.dequeued_inv {t : Tid} {n : Nat} (hs : NodeStep c t (.dequeued n) c') :
    c.role t = .idle ∧ (c.head = some n ∨ c.tail = some n) ∧
      c'.role = Function.update c.role t (.posts n) ∧ c'.signalled = n :: c.signalled ∧
      c'.returned = c.returned := by
  cases hs with
  | dequeueHead hr hhead | dequeueHeadOf hr hhead => exact ⟨hr, .inl hhead, rfl, rfl, rfl⟩
  | dequeueTail hr htail | dequeueTailOf hr htail => exact ⟨hr, .inr htail, rfl, rfl, rfl⟩

/-- A wait that times out returns -1. -/
theorem NodeStep.expired_inv {t : Tid} {n : Nat} (hs : NodeStep c t (.expired n) c') :
    c'.returned n = some (-1) ∧ c'.signalled = c.signalled := by
  cases hs
  exact ⟨by simp [CondNodes.setRole, CondNodes.ret], rfl⟩

theorem NodeStep.signalled_eq {t : Tid} {e : NodeEvent} (hs : NodeStep c t e c')
    (he : ∀ n, e ≠ .dequeued n) : c'.signalled = c.signalled := by
  cases hs <;> first | rfl | exact absurd rfl (he _)

/-- A signal that has dequeued its node has it still to post, or it is posted. -/
theorem NodeStep.posts {t u : Tid} {e : NodeEvent} {n : Nat} (hs : NodeStep c t e c')
    (hr : c.role u = .posts n) : c'.role u = .posts n ∨ c'.role u = .posted n := by
  obtain ⟨r, hroles⟩ := hs.role_eq
  by_cases hut : u = t
  · subst hut
    cases hs with
    | @post m hr' =>
      rw [hr, NodeRole.posts.injEq] at hr'
      subst hr'
      exact .inr (by simp [CondNodes.setRole])
    | _ => simp_all
  · left
    rw [hroles, Function.update_of_ne hut]
    exact hr

/-- A sound step keeps the signals. -/
theorem SignalInv.step (h : SignalInv c place) (hinv : NodeInv c q hands place)
    {q' : List Nat} {hands' : Tid → List Nat} (hinv' : NodeInv c' q' hands' place')
    (hspent : ∀ n, place n = .spent → place' n = .spent) {t : Tid} {e : NodeEvent}
    (hs : NodeStep c t e c') (he : NodeSound c e) : SignalInv c' place' := by
  have hplace : ∀ n ∈ c.signalled, place' n = .spent ∨ ∃ u, c'.role u = .posts n := by
    intro n hn
    rcases h.place n hn with hp | ⟨u, hr⟩
    · exact .inl (hspent n hp)
    · rcases hs.posts hr with hr' | hr'
      · exact .inr ⟨u, hr'⟩
      · exact .inl ((hinv'.role u).spent n (by rw [hr']; rfl))
  have hwoken : ∀ n ∈ c.signalled, Woken c' n := by
    intro n hn
    refine (h.woken n hn).step hinv (h.place_of_mem hinv hn).1 hs ?_
    rintro rfl
    exact he hn
  by_cases hd : ∃ n, e = .dequeued n
  · obtain ⟨n, rfl⟩ := hd
    obtain ⟨hidle, hend, hroles, hsig, -⟩ := hs.dequeued_inv
    have hq := hinv.mem_of_end hend
    have hp := (hinv.mem_queue n).mp hq
    have hposts : c'.role t = .posts n := by rw [hroles, Function.update_self]
    refine ⟨?_, fun m hm => ?_, fun m hm => ?_⟩
    · rw [hsig]
      exact List.nodup_cons.mpr ⟨fun hn => (h.place_of_mem hinv hn).2 hp, h.nodup⟩
    · rw [hsig] at hm
      rcases List.mem_cons.mp hm with rfl | hm
      · exact .inr ⟨t, hposts⟩
      · exact hplace m hm
    · rw [hsig] at hm
      rcases List.mem_cons.mp hm with rfl | hm
      · -- the wait of a queued node that has not timed out is asleep
        obtain ⟨-, w, hw⟩ := hinv.sleeps_of_mem hq he
        refine .inr ⟨w, .inr ⟨?_, .inr ⟨t, hposts⟩⟩⟩
        have hwt : w ≠ t := fun hwt => by simp [hwt, hidle] at hw
        rw [hroles, Function.update_of_ne hwt]
        exact hw
      · exact hwoken m hm
  · have hsig := hs.signalled_eq fun n hn => hd ⟨n, hn⟩
    exact ⟨hsig ▸ h.nodup, hsig ▸ hplace, hsig ▸ hwoken⟩

end Step

/-! ## Runs of the code -/

/-- A wait that has been woken returns 0. -/
theorem Woken.not_expired {c : CondNodes Tid} {n : Nat} (h : Woken c n) (hret : ReturnedOk c) :
    c.returned n ≠ some (-1) := by
  rcases h with h | ⟨w, hw⟩
  · simp [h]
  · have hn : (c.role w).waits? = some n := by
      rcases hw with (hw | hw | hw) | ⟨hw, -⟩ <;> rw [hw] <;> rfl
    simp [hret.running w n hn]

/-- The invariant of the runs whose signals are sound. -/
def SignalsInv (s : CondState Tid Lid) : Prop :=
  ∃ q hands place, NodeInv (CondState.nodes s) q hands place ∧
    ReturnedOk (CondState.nodes s) ∧ SignalInv (CondState.nodes s) place

namespace SignalsInv

variable {s s' : CondState Tid Lid}

theorem init (hs : s = { cnt := s.cnt }) : SignalsInv s := by
  refine ⟨_, _, _, nodeInv_init hs, ?_, ?_⟩ <;> rw [hs]
  · exact ⟨by simp [CondState.nodes], by simp [CondState.nodes]⟩
  · exact ⟨List.nodup_nil, by simp [CondState.nodes], by simp [CondState.nodes]⟩

theorem kept (h : SignalsInv s) : SignalsKept s := by
  obtain ⟨q, hands, place, -, hret, hsig⟩ := h
  exact ⟨hsig.nodup, fun n hn => (hsig.woken n hn).not_expired hret, hsig.woken⟩

variable {a : CondAct Tid Lid}

/-- A signal that finds nodes in the queue wakes one of the waits. -/
theorem wakesOne (h : SignalsInv s) (ha : SignalSound s a) : WakesOne s a := by
  obtain ⟨q, hands, place, hinv, -, -⟩ := h
  cases a with
  | run t =>
    rintro hpc m ⟨q', hlist, hm⟩
    have hne : q ≠ [] := by
      rw [hinv.queue.fwd.unique hlist]
      exact List.ne_nil_of_mem hm
    -- somebody is queued, so both ends of the queue are nodes
    have hends : s.head ≠ none ∧ s.tail ≠ none :=
      ⟨fun hh => hne (hinv.queue.first_eq_none_iff.mp hh),
        fun ht => hne (hinv.queue.last_eq_none_iff.mp ht)⟩
    obtain ⟨n, hn⟩ : ∃ n, s.signalPick = some n := by
      refine Option.ne_none_iff_exists'.mp ?_
      unfold CondState.signalPick
      split
      · exact hends.1
      · exact hends.2
    have hq : n ∈ q := by
      refine hinv.mem_of_end ?_
      unfold CondState.signalPick at hn
      split at hn
      · exact .inl hn
      · exact .inr hn
    have hst : (s.node n).status ≠ .timeout := by
      simpa [SignalSound, CondState.event, hpc, hn] using ha
    obtain ⟨hwait, w, hw⟩ := hinv.sleeps_of_mem hq hst
    exact ⟨n, w, hn, hwait, hw⟩
  | _ => trivial

variable [DecidableEq Tid] [DecidableEq Lid]

theorem step (h : SignalsInv s) (ha : SignalSound s a) (hs : s.step a = some s') :
    SignalsInv s' := by
  obtain ⟨q, hands, place, hinv, hret, hsig⟩ := h
  rcases CondState.nodes_step hs with ⟨t, -, ht⟩ | ⟨-, hsame⟩
  · obtain ⟨q', hands', place', hinv', hmoved⟩ := hinv.step ht
    refine ⟨q', hands', place', hinv', hret.step hinv ht,
      hsig.step hinv hinv' (fun _ => hmoved.spent) ht ?_⟩
    unfold SignalSound at ha
    cases he : CondState.event s a with
    | other => trivial
    | dequeued n | expired n =>
      rw [he] at ha
      exact ha
  · rw [SignalsInv, hsame]
    exact ⟨q, hands, place, hinv, hret, hsig⟩

/-- A step that is not sound loses a signal. -/
theorem sound_of_kept (h : SignalsInv s) (hs : s.step a = some s') (hkept : SignalsKept s') :
    SignalSound s a := by
  obtain ⟨q, hands, place, hinv, -, -⟩ := h
  unfold SignalSound
  rcases CondState.nodes_step hs with ⟨t, -, ht⟩ | ⟨he, -⟩
  · cases he : CondState.event s a with
    | other => trivial
    -- the signal has taken the node of a wait that has timed out: it is lost
    | dequeued n =>
      rw [he] at ht
      obtain ⟨-, hend, -, hsig, hret⟩ := ht.dequeued_inv
      intro hst
      have hp : (place n).unposted := by
        rw [(hinv.mem_queue n).mp (hinv.mem_of_end hend)]
        trivial
      rcases (hinv.unposted n hp).owner with ho | ho
      · exact absurd (hst.symm.trans ho.1) (by simp)
      · refine hkept.not_expired n ?_ ?_
        · show n ∈ (CondState.nodes s').signalled
          rw [hsig]
          exact List.mem_cons_self
        · show (CondState.nodes s').returned n = some (-1)
          rw [hret]
          exact ho.2
    -- a wait that a signal has taken times out: the signal is lost
    | expired n =>
      rw [he] at ht
      obtain ⟨hret, hsig⟩ := ht.expired_inv
      intro hn
      refine hkept.not_expired n ?_ hret
      show n ∈ (CondState.nodes s').signalled
      rw [hsig]
      exact hn
  · rw [he]
    trivial

end SignalsInv

section Return

variable [DecidableEq Tid] [DecidableEq Lid] {s s' : CondState Tid Lid} {w : Tid}
  {c : WaitCall Lid} {n : Nat}

/-- Thread `w` returns 0 from the wait with node `n`, if it is left to itself. -/
def ReturnsZero (s : CondState Tid Lid) (w : Tid) (n : Nat) : Prop :=
  ∃ k s', (txcond Tid Lid).exec s (List.replicate k (.run w)) = some s' ∧ s'.returned n = some 0

theorem ReturnsZero.of_step (hab : s.aborted = false) (hs : s.runStep w = some s')
    (h : ReturnsZero s' w n) : ReturnsZero s w n := by
  obtain ⟨k, u, hexec, hret⟩ := h
  refine ⟨k + 1, u, ?_, hret⟩
  have hstep : (txcond Tid Lid).step s (.run w) = some s' := by
    simp only [txcond, CondState.step, hab, Bool.false_eq_true, ↓reduceIte]
    exact hs
  simp only [List.replicate_succ, System.exec, hstep, Option.bind_some]
  exact hexec

theorem returnsZero_tlLock (hab : s.aborted = false) (hfree : s.owner c.lk = none)
    (hpc : (s.thread w).pc = .tlLock c n) : ReturnsZero s w n := by
  have hs : s.runStep w = some ((s.setOwner c.lk (some w)).waitReturns w c n 0
      ((s.thread w).locks + 1)) := by
    simp only [CondState.runStep, hpc, hfree, ne_eq, not_true_eq_false, ↓reduceIte]
  refine .of_step hab hs ⟨0, _, rfl, ?_⟩
  simp [CondState.waitReturns, CondState.setThread]

theorem returnsZero_waitFree (hab : s.aborted = false) (hfree : s.owner c.lk = none)
    (hpc : (s.thread w).pc = .waitFree c n) : ReturnsZero s w n := by
  have hs : s.runStep w = some ((s.free n).goto w (.tlLock c n)) := by
    simp only [CondState.runStep, hpc]
  refine .of_step hab hs (returnsZero_tlLock (c := c) hab hfree ?_)
  simp [CondState.goto, CondState.setThread]

/-- A wait that has taken its semaphore returns 0 as soon as its mutex is free. -/
theorem returnsZero_casAwoken (hab : s.aborted = false) (hfree : s.owner c.lk = none)
    (hpc : (s.thread w).pc = .casAwoken c n) : ReturnsZero s w n := by
  by_cases hst : (s.node n).status = .waiting
  · have hs : s.runStep w = some ((s.setStatus n .awoken).goto w (.tlLock c n)) := by
      simp only [CondState.runStep, hpc, hst, ↓reduceIte]
    refine .of_step hab hs (returnsZero_tlLock (c := c) hab hfree ?_)
    simp [CondState.goto, CondState.setThread]
  · have hs : s.runStep w = some (s.goto w (.waitFree c n)) := by
      simp only [CondState.runStep, hpc, hst, ↓reduceIte]
    refine .of_step hab hs (returnsZero_waitFree (c := c) hab hfree ?_)
    simp [CondState.goto, CondState.setThread]

/-- So does one whose deadline has passed, when the waker has swapped the status first. -/
theorem returnsZero_casTimeout (hab : s.aborted = false) (hfree : s.owner c.lk = none)
    (hpc : (s.thread w).pc = .casTimeout c n) (hst : (s.node n).status ≠ .waiting) :
    ReturnsZero s w n := by
  have hs : s.runStep w = some (s.goto w (.waitFree c n)) := by
    simp only [CondState.runStep, hpc, hst, ↓reduceIte]
  refine .of_step hab hs (returnsZero_waitFree (c := c) hab hfree ?_)
  simp [CondState.goto, CondState.setThread]

/-- And one that finds its semaphore posted. -/
theorem returnsZero_semWait (hab : s.aborted = false) (hfree : s.owner c.lk = none)
    (hpc : (s.thread w).pc = .semWait c n) (hsem : 1 ≤ (s.node n).sem) : ReturnsZero s w n := by
  have hne : (s.node n).sem ≠ 0 := by omega
  have hs : s.runStep w = some ((s.setNode n { s.node n with sem := (s.node n).sem - 1 }).goto w
      (.casAwoken c n)) := by
    simp only [CondState.runStep, hpc, hne, ↓reduceIte]
  refine .of_step hab hs (returnsZero_casAwoken (c := c) hab hfree ?_)
  simp [CondState.goto, CondState.setThread]

end Return

/-- In a run every signal wakes a wait of its own, if there is one in the queue, and is
    spent on no wait that times out, if and only if no signal dequeues a node that has
    timed out and no node times out that a signal has dequeued. -/
theorem txcond_signal_wakes [DecidableEq Tid] [DecidableEq Lid]
    (tr : List (CondState Tid Lid × CondAct Tid Lid)) (s : CondState Tid Lid)
    (h : (txcond Tid Lid).Run System.Free tr s) :
    (∀ p ∈ tr, SignalSound p.1 p.2) ↔
      SignalsKept s ∧ ∀ p ∈ tr, SignalsKept p.1 ∧ WakesOne p.1 p.2 :=
  h.condition_iff_step (I := SignalsInv) (fun _ hs => SignalsInv.init hs)
    (fun _ _ _ hi ha hs => hi.step ha hs) (fun _ hi => hi.kept)
    (fun _ _ _ hi ha _ => hi.wakesOne ha) fun _ _ _ hi hs hok _ => hi.sound_of_kept hs hok

/-- Thread 1 waits with a deadline, its deadline passes, and a signal dequeues its node
    while thread 0 waits before it in the queue. -/
def signalLost : List (CondAct (Fin 3) (Fin 1)) :=
  [.acquire 0 0, .wait 0 ⟨0, false⟩, .run 0, .run 0, .run 0, .run 0, .run 0, .run 0, .run 0,
    .acquire 1 0, .wait 1 ⟨0, true⟩, .run 1, .run 1, .run 1, .run 1, .run 1, .run 1, .run 1,
    .fail 1 .etimedout, .run 1, .signal 2, .run 2, .run 2, .run 2]

/-- The signal is lost: thread 0 is asleep, and the only node ever signalled belongs to a
    wait that has returned -1. -/
theorem txcond_signal_lost :
    ∃ s, (txcond (Fin 3) (Fin 1)).Reachable System.Free s ∧
      CondPc.role (s.thread 0).pc = .sleeps 0 ∧ (s.node 0).sem = 0 ∧ s.signalled = [1] ∧
      s.returned 1 = some (-1) ∧ ¬ SignalsKept s := by
  obtain ⟨s, hs, hp⟩ := System.reachable_of_exec (M := txcond (Fin 3) (Fin 1)) (s := {})
    signalLost (p := fun s => CondPc.role (s.thread 0).pc = .sleeps 0 ∧ (s.node 0).sem = 0 ∧
      s.signalled = [1] ∧ s.returned 1 = some (-1)) rfl (by decide)
  simp only [decide_eq_true_eq] at hp
  obtain ⟨h0, hsem, hsig, hret⟩ := hp
  exact ⟨s, hs, h0, hsem, hsig, hret, fun hk => hk.not_expired 1 (by simp [hsig]) hret⟩

/-- Thread 0 waits and thread 1 signals: the signal is kept. -/
theorem txcond_signal_wakes_one :
    ∃ tr s, (txcond (Fin 2) (Fin 1)).Run System.Free tr s ∧ s.returned 0 = some 0 ∧
      SignalsKept s ∧ ∀ p ∈ tr, SignalsKept p.1 ∧ WakesOne p.1 p.2 := by
  let as : List (CondAct (Fin 2) (Fin 1)) :=
    [.acquire 0 0, .wait 0 ⟨0, true⟩, .run 0, .run 0, .run 0, .run 0, .run 0, .run 0, .run 0,
      .signal 1, .run 1, .run 1, .run 1, .run 1, .run 1, .run 0, .run 0, .run 1, .run 1,
      .run 0]
  have hret : ((txcond (Fin 2) (Fin 1)).exec {} as).map (fun s => s.returned 0) =
      some (some 0) := by decide
  have hsound : ∀ p ∈ (txcond (Fin 2) (Fin 1)).execTrace {} as, SignalSound p.1 p.2 := by
    decide
  obtain ⟨s, hs, hr⟩ := Option.map_eq_some_iff.mp hret
  have hrun := (System.Run.init (M := txcond (Fin 2) (Fin 1)) (s := {}) rfl).exec hs
  exact ⟨_, s, hrun, hr, (txcond_signal_wakes _ s hrun).mp hsound⟩

end TxLock.Spec
