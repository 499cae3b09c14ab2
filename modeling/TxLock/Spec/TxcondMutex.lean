import TxLock.Native.Txcond

/-!
# The mutex at the return of a `txcond` wait

A wait gives its mutex away once it is queued and takes it back before it returns 0.
The exit of a timed wait that wins the race on its node's status is the exception: it
returns -1 without `tl_lock`.

## Key results

- `WaitThreadOk`: who has the mutex at every place of the code, kept by every step that
  is not the timeout exit
- `txcond_wait_mutex`: all returns of a run are right if and only if the run never
  takes that exit
- `ulBody_exclusive`: the condition variable's own lock excludes
-/

namespace TxLock.Spec

open Native

variable {Tid Lid : Type}

/-- The wait a thread is in before it has unlocked its mutex. -/
def CondPc.queueing? : CondPc Lid → Option (WaitCall Lid)
  | .malloc c | .semInit c _ | .ulRead (.enqueue c _) | .ulSwap (.enqueue c _)
  | .ulBody (.enqueue c _) | .ulUnlock (.wait c _) | .tlUnlock c _ => some c
  | .out | .ulRead .dequeue | .ulSwap .dequeue | .ulBody .dequeue | .ulRead .detach
  | .ulSwap .detach | .ulBody .detach | .ulUnlock (.signal _) | .ulUnlock (.broadcast _)
  | .semWait _ _ | .casTimeout _ _ | .casAwoken _ _ | .waitFree _ _ | .tlLock _ _
  | .sigPost _ | .sigCas _ | .sigFree _ | .bcPost _ _ | .bcNext _ _ | .bcCas _ _ _
  | .bcFree _ _ _ => none

/-- In a wait that has unlocked its mutex and not locked it again. -/
def CondPc.isAsleep : CondPc Lid → Bool
  | .semWait _ _ | .casTimeout _ _ | .casAwoken _ _ | .waitFree _ _ | .tlLock _ _ => true
  | .out | .malloc _ | .semInit _ _ | .ulRead _ | .ulSwap _ | .ulBody _ | .ulUnlock _
  | .tlUnlock _ _ | .sigPost _ | .sigCas _ | .sigFree _ | .bcPost _ _ | .bcNext _ _
  | .bcCas _ _ _ | .bcFree _ _ _ => false

/-- The caller has its mutex back, and the call has unlocked and locked it once each or
    not at all. -/
structure WaitReturnOk (owner : Lid → Option Tid) (t : Tid) (r : WaitReturn Lid) : Prop where
  owns : owner r.lk = some t
  once : (r.unlocks = 0 ∧ r.locks = 0) ∨ (r.unlocks = 1 ∧ r.locks = 1)

/-- Every thread that has just returned from a wait has returned rightly. -/
def WaitReturnsOk (s : CondState Tid Lid) : Prop :=
  ∀ t r, (s.thread t).ret = some r → WaitReturnOk s.owner t r

/-- The node whose status a wait is about to swap after `ETIMEDOUT`. -/
def CondPc.expired? : CondPc Lid → Option Nat
  | .casTimeout _ n => some n
  | .out | .malloc _ | .semInit _ _ | .ulRead _ | .ulSwap _ | .ulBody _ | .ulUnlock _
  | .tlUnlock _ _ | .semWait _ _ | .casAwoken _ _ | .waitFree _ _ | .tlLock _ _ | .sigPost _
  | .sigCas _ | .sigFree _ | .bcPost _ _ | .bcNext _ _ | .bcCas _ _ _ | .bcFree _ _ _ => none

/-- The step does not win the race of a wait whose deadline has passed: it finds the
    node's status changed. -/
def NoTimeoutExit (s : CondState Tid Lid) : CondAct Tid Lid → Prop
  | .run t => ∀ n ∈ CondPc.expired? (s.thread t).pc, (s.node n).status ≠ .waiting
  | _ => True

instance (s : CondState Tid Lid) : ∀ a, Decidable (NoTimeoutExit s a)
  | .run t => inferInstanceAs
      (Decidable (∀ n ∈ CondPc.expired? (s.thread t).pc, (s.node n).status ≠ .waiting))
  | .acquire _ _ | .release _ _ | .wait _ _ | .signal _ | .broadcast _ | .fail _ _ =>
    isTrue trivial

/-- What thread `t` owns and has counted at its place in the code. -/
structure WaitThreadOk (owner : Lid → Option Tid) (t : Tid) (th : CondThread Lid) : Prop where
  queueing : ∀ c, CondPc.queueing? th.pc = some c →
    owner c.lk = some t ∧ th.unlocks = 0 ∧ th.locks = 0
  asleep : CondPc.isAsleep th.pc = true → th.unlocks = 1 ∧ th.locks = 0
  ret : ∀ r, th.ret = some r → th.pc = .out ∧ WaitReturnOk owner t r

namespace WaitThreadOk

variable {owner owner' : Lid → Option Tid} {t : Tid} {th : CondThread Lid}

/-- What other threads do to the mutexes leaves the owned ones alone. -/
theorem mono (h : WaitThreadOk owner t th)
    (ho : ∀ l, owner l = some t → owner' l = some t) : WaitThreadOk owner' t th where
  queueing c hc := ⟨ho _ (h.queueing c hc).1, (h.queueing c hc).2⟩
  asleep := h.asleep
  ret r hr := ⟨(h.ret r hr).1, ho _ (h.ret r hr).2.owns, (h.ret r hr).2.once⟩

/-- Inside a call the thread has not just returned. -/
theorem ret_none (h : WaitThreadOk owner t th) (hin : th.pc ≠ .out) : th.ret = none := by
  cases hr : th.ret with
  | none => rfl
  | some r => exact absurd (h.ret r hr).1 hin

/-- Going on in a place that asks for no more. -/
theorem goto (h : WaitThreadOk owner t th) {pc : CondPc Lid} (hin : th.pc ≠ .out)
    (hq : ∀ c, CondPc.queueing? pc = some c → CondPc.queueing? th.pc = some c)
    (ha : CondPc.isAsleep pc = true → CondPc.isAsleep th.pc = true) :
    WaitThreadOk owner t { th with pc := pc } where
  queueing c hc := h.queueing c (hq c hc)
  asleep hs := h.asleep (ha hs)
  ret r hr := by simp [h.ret_none hin] at hr

/-- A thread that returns with its mutex. -/
theorem returned {c : WaitCall Lid} {v : Int} {unlocks locks : Nat}
    (hown : owner c.lk = some t)
    (honce : (unlocks = 0 ∧ locks = 0) ∨ (unlocks = 1 ∧ locks = 1)) :
    WaitThreadOk owner t ⟨.out, unlocks, locks, some ⟨c.lk, v, unlocks, locks⟩⟩ where
  queueing := by simp [CondPc.queueing?]
  asleep := by simp [CondPc.isAsleep]
  ret := by
    rintro r ⟨⟩
    exact ⟨rfl, hown, honce⟩

end WaitThreadOk

/-- Every thread has its mutex where it should. -/
def WaitInv (s : CondState Tid Lid) : Prop := ∀ t, WaitThreadOk s.owner t (s.thread t)

variable [DecidableEq Tid] {s s' : CondState Tid Lid}

namespace WaitInv

/-- A step of thread `t` that changes no owner. -/
theorem setThread (h : WaitInv s) {t : Tid} {th : CondThread Lid}
    (hok : WaitThreadOk s.owner t th) : WaitInv (s.setThread t th) := by
  intro u
  by_cases hu : u = t
  · subst hu
    simpa [CondState.setThread] using hok
  · simpa [CondState.setThread, hu] using h u

/-- A step of thread `t` that concerns no mutex. -/
theorem goto (h : WaitInv s) {t : Tid} (hin : (s.thread t).pc ≠ .out)
    {s₁ : CondState Tid Lid} {pc : CondPc Lid} (hthread : s₁.thread = s.thread)
    (howner : s₁.owner = s.owner)
    (hq : ∀ c, CondPc.queueing? pc = some c → CondPc.queueing? (s.thread t).pc = some c)
    (ha : CondPc.isAsleep pc = true → CondPc.isAsleep (s.thread t).pc = true) :
    WaitInv (s₁.goto t pc) := by
  have h₁ : WaitInv s₁ := by
    intro u
    rw [hthread, howner]
    exact h u
  rw [← hthread] at hin hq ha
  exact h₁.setThread ((h₁ t).goto hin hq ha)

/-- Thread `t` takes the mutex `l`, which is free, or gives it away. -/
theorem setOwner (h : WaitInv s) {t : Tid} {l : Lid} {o : Option Tid} {th : CondThread Lid}
    [DecidableEq Lid] (hl : ∀ u, u ≠ t → s.owner l ≠ some u)
    (hok : WaitThreadOk (Function.update s.owner l o) t th) :
    WaitInv ((s.setOwner l o).setThread t th) := by
  intro u
  by_cases hu : u = t
  · subst hu
    simpa [CondState.setThread, CondState.setOwner] using hok
  · simp only [CondState.setThread, CondState.setOwner, ne_eq, hu, not_false_eq_true,
      Function.update_of_ne]
    refine (h u).mono fun k hk => ?_
    have hkl : k ≠ l := by
      rintro rfl
      exact hl u hu hk
    rw [Function.update_of_ne hkl]
    exact hk

/-- A library call fails. -/
theorem failStep (h : WaitInv s) {t : Tid} {e : Errno} (hs : s.failStep t e = some s') :
    WaitInv s' := by
  have hin : (s.thread t).pc ≠ .out := fun ho => by simp [CondState.failStep, ho] at hs
  cases hpc : (s.thread t).pc <;>
    simp only [CondState.failStep, hpc, Option.some.injEq, reduceCtorEq] at hs
  case malloc c => exact hs ▸ h
  case semInit c n =>
    subst hs
    have hown := (h t).queueing c (by rw [hpc]; rfl)
    exact h.setThread (.returned hown.1 (.inl hown.2))
  case semWait c n =>
    cases e with
    | eintr | einval | other =>
      simp only [Option.some.injEq] at hs
      exact hs ▸ h
    | etimedout =>
      simp only at hs
      split at hs <;> simp only [Option.some.injEq] at hs <;> subst hs
      · exact h.goto hin rfl rfl (by simp [CondPc.queueing?]) (by simp [hpc, CondPc.isAsleep])
      · exact h

variable [DecidableEq Lid]

/-- A step inside the code of the condition variable. -/
theorem runStep (h : WaitInv s) {t : Tid} (hc : NoTimeoutExit s (.run t))
    (hs : s.runStep t = some s') : WaitInv s' := by
  have hin : (s.thread t).pc ≠ .out := fun ho => by simp [CondState.runStep, ho] at hs
  have hgo := @goto _ _ _ s h t hin
  cases hpc : (s.thread t).pc with
  | out => simp [CondState.runStep, hpc] at hs
  -- steps that go on without a choice, and keep what the thread owes
  | malloc c | semInit c n | waitFree c n | sigFree n | bcNext n e =>
    simp only [CondState.runStep, hpc, Option.some.injEq] at hs
    subst hs
    exact hgo rfl rfl (by simp [hpc, CondPc.queueing?]) (by simp [hpc, CondPc.isAsleep])
  | ulRead b | ulSwap b =>
    simp only [CondState.runStep, hpc] at hs
    split at hs <;> simp only [Option.some.injEq] at hs <;> subst hs
    all_goals first
      | exact h
      | cases b <;>
          exact hgo rfl rfl (by simp [hpc, CondPc.queueing?]) (by simp [CondPc.isAsleep])
  | ulBody b =>
    cases b with
    | enqueue c n =>
      simp only [CondState.runStep, hpc, Option.some.injEq] at hs
      subst hs
      exact hgo (by simp) (by simp) (by simp [hpc, CondPc.queueing?])
        (by simp [CondPc.isAsleep])
    | dequeue | detach =>
      simp only [CondState.runStep, hpc, Option.some.injEq] at hs
      subst hs
      exact hgo (by simp) (by simp) (by simp [CondPc.queueing?]) (by simp [CondPc.isAsleep])
  | ulUnlock k =>
    cases k with
    | wait c n =>
      simp only [CondState.runStep, hpc, Option.some.injEq] at hs
      subst hs
      exact hgo rfl rfl (by simp [hpc, CondPc.queueing?]) (by simp [CondPc.isAsleep])
    | signal n? | broadcast n? =>
      cases n? <;> simp only [CondState.runStep, hpc, Option.some.injEq, CondState.bcLoop] at hs <;>
        subst hs <;>
        exact hgo rfl rfl (by simp [CondPc.queueing?]) (by simp [CondPc.isAsleep])
  -- the wait gives the mutex up, and owes it to its caller until it returns
  | tlUnlock c n =>
    simp only [CondState.runStep, hpc, Option.some.injEq] at hs
    subst hs
    have hown := (h t).queueing c (by rw [hpc]; rfl)
    refine h.setOwner (fun u hu hl => hu ?_) ⟨by simp [CondPc.queueing?], fun _ => ?_, fun r hr => ?_⟩
    · exact Option.some.inj (hl.symm.trans hown.1)
    · exact ⟨by rw [hown.2.1], hown.2.2⟩
    · simp [(h t).ret_none hin] at hr
  | semWait c n =>
    simp only [CondState.runStep, hpc] at hs
    split at hs <;> simp only [Option.some.injEq, reduceCtorEq] at hs
    subst hs
    exact hgo rfl rfl (by simp [CondPc.queueing?]) (by simp [hpc, CondPc.isAsleep])
  -- the exit without the mutex is the one the condition rules out
  | casTimeout c n =>
    simp only [CondState.runStep, hpc] at hs
    rw [if_neg (hc n (by rw [hpc]; rfl)), Option.some.injEq] at hs
    subst hs
    exact hgo rfl rfl (by simp [CondPc.queueing?]) (by simp [hpc, CondPc.isAsleep])
  | casAwoken c n =>
    simp only [CondState.runStep, hpc] at hs
    split at hs <;> simp only [Option.some.injEq] at hs <;> subst hs <;>
      exact hgo rfl rfl (by simp [CondPc.queueing?]) (by simp [hpc, CondPc.isAsleep])
  -- the mutex is free, so the wait takes it and has paid what it owed
  | tlLock c n =>
    simp only [CondState.runStep, hpc] at hs
    split at hs <;> simp only [Option.some.injEq, reduceCtorEq] at hs
    subst hs
    rename_i hfree
    have hcount := (h t).asleep (by rw [hpc]; rfl)
    have hfree : s.owner c.lk = none := by simpa using hfree
    exact h.setOwner (by simp [hfree]) (.returned (by simp) (.inr ⟨hcount.1, by rw [hcount.2]⟩))
  | sigPost n =>
    simp only [CondState.runStep, hpc] at hs
    split at hs <;> simp only [Option.some.injEq] at hs <;> subst hs
    · rename_i hpost
      rw [CondState.semPost_eq_some hpost]
      exact hgo rfl rfl (by simp [CondPc.queueing?]) (by simp [CondPc.isAsleep])
    · exact h
  | sigCas n =>
    simp only [CondState.runStep, hpc] at hs
    split at hs <;> simp only [Option.some.injEq] at hs <;> subst hs <;>
      exact hgo rfl rfl (by simp [CondPc.queueing?]) (by simp [CondPc.isAsleep])
  | bcPost n e =>
    simp only [CondState.runStep, hpc] at hs
    split at hs <;> simp only [Option.some.injEq] at hs <;> subst hs
    · rename_i hpost
      rw [CondState.semPost_eq_some hpost]
      exact hgo rfl rfl (by simp [CondPc.queueing?]) (by simp [CondPc.isAsleep])
    · exact hgo rfl rfl (by simp [CondPc.queueing?]) (by simp [CondPc.isAsleep])
  | bcCas m n? e =>
    simp only [CondState.runStep, hpc] at hs
    split at hs <;> simp only [Option.some.injEq] at hs <;> subst hs
    · cases n? <;> exact hgo rfl rfl (by simp [CondPc.queueing?]) (by simp [CondPc.isAsleep])
    · exact hgo rfl rfl (by simp [CondPc.queueing?]) (by simp [CondPc.isAsleep])
  | bcFree m n? e =>
    simp only [CondState.runStep, hpc, Option.some.injEq] at hs
    subst hs
    cases n? <;> exact hgo rfl rfl (by simp [CondPc.queueing?]) (by simp [CondPc.isAsleep])

/-- Every step but the timeout exit keeps the invariant. -/
theorem step (h : WaitInv s) {a : CondAct Tid Lid} (hc : NoTimeoutExit s a)
    (hs : s.step a = some s') : WaitInv s' := by
  simp only [CondState.step] at hs
  split at hs
  · simp at hs
  cases a with
  | acquire t l =>
    simp only at hs
    split at hs <;> simp only [Option.some.injEq, reduceCtorEq] at hs
    rename_i hl
    subst hs
    exact h.setOwner (by simp [hl.2]) ⟨by simp [CondPc.queueing?], by simp [CondPc.isAsleep],
      by simp⟩
  | release t l =>
    simp only at hs
    split at hs <;> simp only [Option.some.injEq, reduceCtorEq] at hs
    rename_i hl
    subst hs
    refine h.setOwner (fun u hu hlu => hu ?_) ⟨by simp [CondPc.queueing?],
      by simp [CondPc.isAsleep], by simp⟩
    exact Option.some.inj (hlu.symm.trans hl.2)
  -- a caller has the mutex when it starts to wait
  | wait t c =>
    simp only at hs
    split at hs <;> simp only [Option.some.injEq, reduceCtorEq] at hs
    rename_i hl
    subst hs
    exact h.setThread ⟨by simpa [CondPc.queueing?] using hl.2, by simp [CondPc.isAsleep], by simp⟩
  | signal t | broadcast t =>
    simp only at hs
    split at hs <;> simp only [Option.some.injEq, reduceCtorEq] at hs
    subst hs
    exact h.setThread ⟨by simp [CondPc.queueing?], by simp [CondPc.isAsleep], by simp⟩
  | run t => exact h.runStep hc hs
  | fail t e => exact h.failStep hs

/-- A step that is the timeout exit is a return without the mutex. -/
theorem noTimeoutExit (h : WaitInv s) {a : CondAct Tid Lid} (hs : s.step a = some s')
    (hok : WaitReturnsOk s') : NoTimeoutExit s a := by
  cases a with
  | run t =>
    intro n hexp hw
    cases hpc : (s.thread t).pc <;>
      simp only [hpc, CondPc.expired?, Option.mem_some_iff, Option.not_mem_none] at hexp
    rename_i c m
    subst hexp
    simp only [CondState.step] at hs
    split at hs
    · simp at hs
    simp only [CondState.runStep, hpc, hw, ↓reduceIte, Option.some.injEq] at hs
    subst hs
    have hcount := (h t).asleep (by rw [hpc]; rfl)
    have := (hok t ⟨c.lk, -1, (s.thread t).unlocks, (s.thread t).locks⟩
      (by simp [CondState.waitReturns, CondState.setThread, CondState.setStatus,
        CondState.setNode])).once
    simp [hcount] at this
  | _ => trivial

end WaitInv

/-- In a run every thread owns its mutex whenever it returns from a wait, having unlocked
    and locked it once each or not at all, if and only if no wait takes the timeout exit. -/
theorem txcond_wait_mutex [DecidableEq Lid] (tr : List (CondState Tid Lid × CondAct Tid Lid))
    (s : CondState Tid Lid) (h : (txcond Tid Lid).Run System.Free tr s) :
    (∀ p ∈ tr, NoTimeoutExit p.1 p.2) ↔
      WaitReturnsOk s ∧ ∀ p ∈ tr, WaitReturnsOk p.1 := by
  refine h.condition_iff (I := WaitInv) ?_ (fun s a s' hi hc hs => hi.step hc hs)
    (fun s hi t r hr => ((hi t).ret r hr).2) fun s a s' hi hs hok => hi.noTimeoutExit hs hok
  intro s hs t
  rw [show s = _ from hs]
  exact ⟨by simp [CondPc.queueing?], by simp [CondPc.isAsleep], by simp⟩

/-- A timed wait whose deadline passes returns without its mutex. -/
theorem txcond_timeout_without_mutex :
    ∃ s, (txcond (Fin 1) (Fin 1)).Reachable System.Free s ∧
      (s.thread 0).ret = some ⟨0, -1, 1, 0⟩ ∧ s.owner 0 = none ∧ ¬ WaitReturnsOk s := by
  obtain ⟨s, hs, hp⟩ := System.reachable_of_exec (M := txcond (Fin 1) (Fin 1)) (s := {})
    [.acquire 0 0, .wait 0 ⟨0, true⟩, .run 0, .run 0, .run 0, .run 0, .run 0, .run 0, .run 0,
      .fail 0 .etimedout, .run 0]
    (p := fun s => (s.thread 0).ret = some ⟨0, -1, 1, 0⟩ ∧ s.owner 0 = none) rfl (by decide)
  simp only [decide_eq_true_eq] at hp
  refine ⟨s, hs, hp.1, hp.2, fun hok => ?_⟩
  have := (hok 0 _ hp.1).owns
  simp [hp.2] at this

/-- A wait, a signal by another thread, and the return of the wait. -/
theorem txcond_wait_mutex_signalled :
    ∃ tr s, (txcond (Fin 2) (Fin 1)).Run System.Free tr s ∧
      (s.thread 0).ret = some ⟨0, 0, 1, 1⟩ ∧ WaitReturnsOk s ∧ ∀ p ∈ tr, WaitReturnsOk p.1 := by
  let as : List (CondAct (Fin 2) (Fin 1)) :=
    [.acquire 0 0, .wait 0 ⟨0, true⟩, .run 0, .run 0, .run 0, .run 0, .run 0, .run 0, .run 0,
      .signal 1, .run 1, .run 1, .run 1, .run 1, .run 1, .run 0, .run 0, .run 1, .run 1,
      .run 0]
  have hret : ((txcond (Fin 2) (Fin 1)).exec {} as).map (fun s => (s.thread 0).ret) =
      some (some ⟨0, 0, 1, 1⟩) := by decide
  have hexit : ∀ p ∈ (txcond (Fin 2) (Fin 1)).execTrace {} as, NoTimeoutExit p.1 p.2 := by
    decide
  obtain ⟨s, hs, hr⟩ := Option.map_eq_some_iff.mp hret
  have hrun := (System.Run.init (M := txcond (Fin 2) (Fin 1)) (s := {}) rfl).exec hs
  exact ⟨_, s, hrun, hr, (txcond_wait_mutex _ s hrun).mp hexit⟩

/-! ## The condition variable's own lock -/

/-- Between `ul_lock` and `ul_unlock`. -/
def CondPc.inSection : CondPc Lid → Bool
  | .ulBody _ | .ulUnlock _ => true
  | .out | .malloc _ | .semInit _ _ | .ulRead _ | .ulSwap _ | .tlUnlock _ _ | .semWait _ _
  | .casTimeout _ _ | .casAwoken _ _ | .waitFree _ _ | .tlLock _ _ | .sigPost _ | .sigCas _
  | .sigFree _ | .bcPost _ _ | .bcNext _ _ | .bcCas _ _ _ | .bcFree _ _ _ => false

/-- The lock word is not 0 while a thread is in the section, and no other thread is. -/
def UlInv (s : CondState Tid Lid) : Prop :=
  ∀ t, CondPc.inSection (s.thread t).pc = true →
    s.lkVal ≠ 0 ∧ ∀ u, CondPc.inSection (s.thread u).pc = true → u = t

namespace UlInv

/-- A step that leaves the lock word alone does not enter the section. -/
theorem setThread (h : UlInv s) {s₁ : CondState Tid Lid} {t : Tid} {th : CondThread Lid}
    (hthread : s₁.thread = s.thread) (hlk : s₁.lkVal = s.lkVal)
    (hin : CondPc.inSection th.pc = true → CondPc.inSection (s.thread t).pc = true) :
    UlInv (s₁.setThread t th) := by
  have hold : ∀ u, CondPc.inSection ((s₁.setThread t th).thread u).pc = true →
      CondPc.inSection (s.thread u).pc = true := by
    intro u hu
    by_cases hut : u = t
    · subst hut
      exact hin (by simpa [CondState.setThread] using hu)
    · simpa [CondState.setThread, hut, hthread] using hu
  intro u hu
  obtain ⟨hval, hone⟩ := h u (hold u hu)
  refine ⟨?_, fun v hv => hone v (hold v hv)⟩
  simpa [CondState.setThread, hlk] using hval

/-- The thread in the section leaves it and resets the word. -/
theorem leave (h : UlInv s) {s₁ : CondState Tid Lid} {t : Tid} {th : CondThread Lid}
    (hthread : s₁.thread = s.thread) (hin : CondPc.inSection (s.thread t).pc = true)
    (hout : CondPc.inSection th.pc = false) : UlInv (s₁.setThread t th) := by
  intro u hu
  by_cases hut : u = t
  · subst hut
    simp [CondState.setThread, hout] at hu
  · have hu' : CondPc.inSection (s.thread u).pc = true := by
      simpa [CondState.setThread, hut, hthread] using hu
    exact absurd ((h t hin).2 u hu') hut

variable [DecidableEq Lid]

/-- A step inside the code of the condition variable. -/
theorem runStep (h : UlInv s) {t : Tid} (hs : s.runStep t = some s') : UlInv s' := by
  have hgo := @setThread _ _ _ s h
  cases hpc : (s.thread t).pc with
  | out => simp [CondState.runStep, hpc] at hs
  | malloc c | semInit c n | waitFree c n | sigFree n | bcNext n e | tlUnlock c n =>
    simp only [CondState.runStep, hpc, Option.some.injEq] at hs
    subst hs
    exact hgo rfl rfl (by simp [CondPc.inSection])
  | ulRead b =>
    simp only [CondState.runStep, hpc] at hs
    split at hs <;> simp only [Option.some.injEq] at hs <;> subst hs
    · exact h
    · exact hgo rfl rfl (by simp [CondPc.inSection])
  | ulSwap b =>
    simp only [CondState.runStep, hpc] at hs
    split at hs <;> rename_i hv <;> simp only [Option.some.injEq] at hs <;> subst hs
    · -- the swap found the word taken: it was not 0 and is not 0 now
      intro u hu
      have hread : UlInv (s.goto t (.ulRead b)) := hgo rfl rfl (by simp [CondPc.inSection])
      have hold := hread u hu
      exact ⟨by simp [CondState.goto, CondState.setThread], hold.2⟩
    · have hnone : ∀ u, CondPc.inSection (s.thread u).pc = false := fun u => by
        cases hu : CondPc.inSection (s.thread u).pc with
        | false => rfl
        | true => exact absurd (h u hu).1 hv
      intro u hu
      have hut : ∀ v, CondPc.inSection
          (({ s with lkVal := 1 }.goto t (.ulBody b)).thread v).pc = true → v = t := by
        intro v hv
        by_contra hne
        simp [CondState.goto, CondState.setThread, hne, hnone] at hv
      refine ⟨by simp [CondState.goto, CondState.setThread], fun v hv => ?_⟩
      rw [hut v hv, hut u hu]
  | ulBody b =>
    have hin : CondPc.inSection (s.thread t).pc = true := by rw [hpc]; rfl
    cases b <;> simp only [CondState.runStep, hpc, Option.some.injEq] at hs <;> subst hs <;>
      exact hgo (by simp) (by simp) fun _ => hin
  | ulUnlock k =>
    have hin : CondPc.inSection (s.thread t).pc = true := by rw [hpc]; rfl
    cases k with
    | wait c n =>
      simp only [CondState.runStep, hpc, Option.some.injEq] at hs
      subst hs
      exact h.leave rfl hin rfl
    | signal n? | broadcast n? =>
      cases n? <;> simp only [CondState.runStep, hpc, Option.some.injEq, CondState.bcLoop] at hs <;>
        subst hs <;> exact h.leave rfl hin rfl
  | semWait c n | tlLock c n =>
    simp only [CondState.runStep, hpc] at hs
    split at hs <;> simp only [Option.some.injEq, reduceCtorEq] at hs
    subst hs
    exact hgo rfl rfl (by simp [CondPc.inSection])
  | casTimeout c n | casAwoken c n | sigCas n =>
    simp only [CondState.runStep, hpc] at hs
    split at hs <;> simp only [Option.some.injEq] at hs <;> subst hs <;>
      exact hgo rfl rfl (by simp [CondPc.inSection])
  | sigPost n =>
    simp only [CondState.runStep, hpc] at hs
    split at hs <;> rename_i hpost <;> simp only [Option.some.injEq] at hs <;> subst hs
    · rw [CondState.semPost_eq_some hpost]
      exact hgo rfl rfl (by simp [CondPc.inSection])
    · exact h
  | bcPost n e =>
    simp only [CondState.runStep, hpc] at hs
    split at hs <;> rename_i hpost <;> simp only [Option.some.injEq] at hs <;> subst hs
    · rw [CondState.semPost_eq_some hpost]
      exact hgo rfl rfl (by simp [CondPc.inSection])
    · exact hgo rfl rfl (by simp [CondPc.inSection])
  | bcCas m n? e =>
    simp only [CondState.runStep, hpc] at hs
    split at hs <;> simp only [Option.some.injEq] at hs <;> subst hs
    · cases n? <;> exact hgo rfl rfl (by simp [CondPc.inSection])
    · exact hgo rfl rfl (by simp [CondPc.inSection])
  | bcFree m n? e =>
    simp only [CondState.runStep, hpc, Option.some.injEq] at hs
    subst hs
    cases n? <;> exact hgo rfl rfl (by simp [CondPc.inSection])

end UlInv

/-- No two threads are in the section under the lock at once. -/
theorem ulBody_exclusive [DecidableEq Lid] {C : CondState Tid Lid → _ → Prop}
    {tr : List (CondState Tid Lid × CondAct Tid Lid)} {s : CondState Tid Lid}
    (h : (txcond Tid Lid).Run C tr s) : UlInv s := by
  refine h.invariant (I := UlInv) ?_ fun s a s' hi _ hs => ?_
  · intro s hs t ht
    rw [show s = _ from hs] at ht
    simp [CondPc.inSection] at ht
  · simp only [txcond, CondState.step] at hs
    split at hs
    · simp at hs
    cases a with
    | acquire t l | release t l | wait t c | signal t | broadcast t =>
      simp only at hs
      split at hs <;> simp only [Option.some.injEq, reduceCtorEq] at hs
      subst hs
      exact hi.setThread rfl rfl (by simp [CondPc.inSection])
    | run t => exact hi.runStep hs
    | fail t e =>
      cases hpc : (s.thread t).pc <;>
        simp only [CondState.failStep, hpc, Option.some.injEq, reduceCtorEq] at hs
      case malloc c => exact hs ▸ hi
      case semInit c n =>
        subst hs
        exact hi.setThread rfl rfl (by simp [CondPc.inSection])
      case semWait c n =>
        cases e with
        | eintr | einval | other =>
          simp only [Option.some.injEq] at hs
          exact hs ▸ hi
        | etimedout =>
          simp only at hs
          split at hs <;> simp only [Option.some.injEq] at hs <;> subst hs
          · exact hi.setThread rfl rfl (by simp [CondPc.inSection])
          · exact hi

end TxLock.Spec
