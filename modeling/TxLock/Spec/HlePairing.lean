import TxLock.Native.TasHle

/-!
# Lock and unlock pairing of `tas_hle`

`tas_unlock_hle` looks at the transaction, not at the lock it is given: while a
transaction is active it ends the innermost one, whatever lock is unlocked. The
locks of a thread come out right exactly when no lock whose word the thread holds is
unlocked inside a transaction (`HleOrdered`), that is, when the locks taken before
the outermost elided one are unlocked after the transaction is over.

## Key results

- `HleThreadOk`: what one thread's record, transaction and owned words have to do
  with each other; kept by every ordered step
- `hle_pairing`: every state of a run is right if and only if all its steps are
  ordered
-/

namespace TxLock.Spec

open Native

/-- In the transaction just begun, before the call returns. -/
def HlePc.isChecking {Lid : Type} : HlePc Lid → Bool
  | .check _ | .hang _ => true
  | .out | .enterHtm _ _ | .testRead _ | .testSwap _ => false

/-- The lock a call of `tas_lock_hle` is about to take. -/
def HlePc.target? {Lid : Type} : HlePc Lid → Option Lid
  | .enterHtm l _ | .check l | .hang l | .testRead l | .testSwap l => some l
  | .out => none

variable {Tid Lid : Type}

/-! Neither a begin nor an end nor an abort of a transaction changes what is owned. -/

@[simp] theorem htmFailed_owned (cfg : TmParams) (th : HleThread Lid) (l : Lid)
    (tries : Word) : (th.htmFailed cfg l tries).owned = th.owned := by
  unfold HleThread.htmFailed
  split <;> rfl

@[simp] theorem htmFailed_locked (cfg : TmParams) (th : HleThread Lid) (l : Lid)
    (tries : Word) : (th.htmFailed cfg l tries).locked = th.locked := by
  unfold HleThread.htmFailed
  split <;> rfl

@[simp] theorem htmBegin_owned (th : HleThread Lid) (l : Lid) (tries : Word) :
    (th.htmBegin l tries).owned = th.owned := by
  unfold HleThread.htmBegin
  split <;> rfl

@[simp] theorem htmBegin_locked (th : HleThread Lid) (l : Lid) (tries : Word) :
    (th.htmBegin l tries).locked = th.locked := by
  unfold HleThread.htmBegin
  split <;> rfl

@[simp] theorem htmEnd_owned (th : HleThread Lid) : th.htmEnd.owned = th.owned := by
  unfold HleThread.htmEnd
  split <;> rfl

/-- Lock words are not restored by an abort, as no transaction writes them. -/
@[simp] theorem rollback_owned (cfg : TmParams) (th : HleThread Lid) :
    (th.rollback cfg).owned = th.owned := by
  unfold HleThread.rollback
  split
  · exact htmFailed_owned ..
  · rfl
variable [DecidableEq Lid]

/-- The number of locks a thread has elided: locked, but the word is not its own. -/
def elided (th : HleThread Lid) : Nat := th.locked.countP fun l => l ∉ th.owned

/-- Unlocking inside a transaction is for elided locks only. -/
def HleOrdered (s : HleState Tid Lid) : HleAct Tid Lid → Prop
  | .unlock t l => (s.thread t).depth ≠ 0 → l ∉ (s.thread t).owned
  | _ => True

instance (s : HleState Tid Lid) : ∀ a, Decidable (HleOrdered s a)
  | .unlock t l => inferInstanceAs (Decidable ((s.thread t).depth ≠ 0 → l ∉ (s.thread t).owned))
  | .lock _ _ | .trylock _ _ | .run _ | .htmStart _ | .htmAbort _ => isTrue trivial

/-- Unlocking never stores 0 to a word that another thread owns. -/
def HleStoreOk (s : HleState Tid Lid) : HleAct Tid Lid → Prop
  | .unlock t l => (s.thread t).depth = 0 → ∀ u, u ≠ t → l ∉ (s.thread u).owned
  | _ => True

/-- Each unlock so far has ended the protection of its lock and of no other. -/
structure HleOk (s : HleState Tid Lid) : Prop where
  /-- A lock that is locked and not unlocked is protected: its word is 1 and this
      thread's, or the transaction that has read it as 0 is live. -/
  guarded : ∀ t, ∀ l ∈ (s.thread t).locked,
    (l ∈ (s.thread t).owned ∧ s.val l = 1 ∧ ∀ u, u ≠ t → l ∉ (s.thread u).owned) ∨
    ((s.thread t).depth ≠ 0 ∧ l ∈ (s.thread t).readSet ∧ s.val l = 0)
  /-- A lock that has been unlocked has no word left at 1 by this thread. -/
  released : ∀ t, ∀ l ∈ (s.thread t).owned, l ∈ (s.thread t).locked
  /-- There is one level of nesting for each elided lock, and one for the call that has
      begun its transaction and not returned. -/
  nesting : ∀ t, (s.thread t).depth =
    elided (s.thread t) + if HlePc.isChecking (s.thread t).pc then 1 else 0

/-! ## One thread -/

/-- What one thread's record, transaction and owned words have to do with each other. -/
structure HleThreadOk (th : HleThread Lid) : Prop where
  nodup : th.locked.Nodup
  owned_nodup : th.owned.Nodup
  owned : ∀ l ∈ th.owned, l ∈ th.locked
  nesting : th.depth = elided th + if HlePc.isChecking th.pc then 1 else 0
  read : ∀ l ∈ th.locked, l ∉ th.owned → l ∈ th.readSet
  active : th.saved.isSome = true ↔ th.depth ≠ 0
  saved : ∀ sv, th.saved = some sv →
    sv.lock ∉ sv.locked ∧ sv.locked.Nodup ∧ ∀ l, l ∈ sv.locked ↔ l ∈ th.owned
  target : ∀ l, HlePc.target? th.pc = some l → l ∉ th.locked
  fallback : ∀ l, th.pc = .testRead l ∨ th.pc = .testSwap l → th.depth = 0

namespace HleThreadOk

variable {th : HleThread Lid}

/-- Outside a transaction every lock that is locked is owned. -/
theorem owned_of_depth (h : HleThreadOk th) (hd : th.depth = 0) :
    ∀ l ∈ th.locked, l ∈ th.owned := by
  have h0 : elided th = 0 := by have := h.nesting; omega
  simpa [elided, List.countP_eq_zero] using h0

/-- Moving to a place that is in the same call, and not in a new transaction. -/
theorem goto (h : HleThreadOk th) {pc : HlePc Lid}
    (hc : HlePc.isChecking pc = HlePc.isChecking th.pc)
    (ht : ∀ l, HlePc.target? pc = some l → l ∉ th.locked)
    (hf : ∀ l, pc = .testRead l ∨ pc = .testSwap l → th.depth = 0) :
    HleThreadOk { th with pc := pc } :=
  { h with nesting := by rw [show HlePc.isChecking pc = _ from hc]; exact h.nesting
           target := ht
           fallback := hf }

/-- Outside a transaction the locks that are locked are those that are owned. -/
theorem of_owned {th : HleThread Lid} (hpc : th.pc = .out) (hd : th.depth = 0)
    (hs : th.saved = none) (hl : th.locked.Nodup) (ho : th.owned.Nodup)
    (h : ∀ l, l ∈ th.locked ↔ l ∈ th.owned) : HleThreadOk th where
  nodup := hl
  owned_nodup := ho
  owned l hl := (h l).mpr hl
  nesting := by
    have h0 : elided th = 0 := by
      simpa [elided, List.countP_eq_zero] using fun l => (h l).mp
    rw [hd, h0, hpc]
    rfl
  read l hl hn := absurd ((h l).mp hl) hn
  active := by simp [hs, hd]
  saved := by simp [hs]
  target := by simp [hpc, HlePc.target?]
  fallback := by simp [hpc]

theorem saved_none (h : HleThreadOk th) (hd : th.depth = 0) : th.saved = none := by
  have := h.active
  cases hsv : th.saved with
  | none => rfl
  | some sv => simp [hsv, hd] at this

/-- A begin that fails goes on in the same call of `tas_lock_hle`. -/
theorem htmFailed (h : HleThreadOk { th with pc := .out }) (cfg : TmParams) {l : Lid}
    {tries : Word} (hd : th.depth = 0) (hl : l ∉ th.locked) :
    HleThreadOk (th.htmFailed cfg l tries) := by
  unfold HleThread.htmFailed
  split
  · exact h.goto rfl (fun k hk => Option.some.inj hk ▸ hl) fun _ _ => hd
  · exact h.goto rfl (fun k hk => Option.some.inj hk ▸ hl) fun _ _ => hd

/-- An abort leaves the thread with exactly the locks it owns. -/
theorem rollback (h : HleThreadOk th) (cfg : TmParams) (hd : th.depth ≠ 0) :
    HleThreadOk (th.rollback cfg) ∧
      ∀ l ∈ (th.rollback cfg).locked, l ∈ (th.rollback cfg).owned := by
  obtain ⟨sv, hsv⟩ := Option.isSome_iff_exists.mp (h.active.mpr hd)
  obtain ⟨hlock, hnodup, howned⟩ := h.saved sv hsv
  simp only [HleThread.rollback, hsv]
  refine ⟨htmFailed ?_ cfg rfl hlock, ?_⟩
  · exact of_owned rfl rfl rfl hnodup h.owned_nodup howned
  · simpa using fun l hl => (howned l).mp hl

/-- A begin, outermost or nested. -/
theorem htmBegin (h : HleThreadOk th) {l : Lid} {tries : Word}
    (hpc : th.pc = .enterHtm l tries) : HleThreadOk (th.htmBegin l tries) := by
  have hnot : l ∉ th.locked := h.target l (by rw [hpc]; rfl)
  have hnest := h.nesting
  simp only [hpc, HlePc.isChecking, Bool.false_eq_true, ↓reduceIte, Nat.add_zero] at hnest
  unfold HleThread.htmBegin
  split
  · rename_i hd
    -- an outermost begin: all that is locked is owned, and saved for the abort
    have hall := h.owned_of_depth hd
    exact
      { h with
        nesting := by
          change 1 = elided th + 1
          rw [← hnest, hd]
        read := fun k hk hn => absurd (hall k hk) hn
        active := by simp
        saved := by
          rintro sv ⟨⟩
          exact ⟨hnot, h.nodup, fun k => ⟨hall k, h.owned k⟩⟩
        target := fun k hk => Option.some.inj hk ▸ hnot
        fallback := by simp }
  · rename_i hd
    exact
      { h with
        nesting := congrArg (· + 1) hnest
        active := by simpa [hd] using h.active
        target := fun k hk => Option.some.inj hk ▸ hnot
        fallback := by simp }

/-- Unlocking an elided lock leaves one level of nesting. -/
theorem unlock (h : HleThreadOk th) {l : Lid} (hpc : th.pc = .out) (hd : th.depth ≠ 0)
    (hl : l ∈ th.locked) (hno : l ∉ th.owned) :
    HleThreadOk { th.htmEnd with locked := th.locked.erase l } ∧
      ∀ k ∈ th.locked.erase l, k ∈ th.locked := by
  have hnest := h.nesting
  simp only [hpc, HlePc.isChecking, Bool.false_eq_true, ↓reduceIte, Nat.add_zero] at hnest
  have hel : elided th = (th.locked.erase l).countP (fun k => decide (k ∉ th.owned)) + 1 := by
    unfold elided
    rw [(List.perm_cons_erase hl).countP_eq, List.countP_cons]
    simp [hno]
  have hne : ∀ k ∈ th.owned, k ≠ l := fun k hk hkl => hno (hkl ▸ hk)
  refine ⟨?_, fun k hk => List.mem_of_mem_erase hk⟩
  unfold HleThread.htmEnd
  split
  · -- the outermost transaction commits: no other lock was elided
    rename_i h1
    have hzero : (th.locked.erase l).countP (fun k => decide (k ∉ th.owned)) = 0 := by omega
    refine .of_owned hpc rfl rfl (h.nodup.erase l) h.owned_nodup fun k => ⟨fun hk => ?_, fun hk => ?_⟩
    · simpa using List.countP_eq_zero.mp hzero k hk
    · exact (List.mem_erase_of_ne (hne k hk)).mpr (h.owned k hk)
  · exact
      { h with
        nodup := h.nodup.erase l
        owned := fun k hk => (List.mem_erase_of_ne (hne k hk)).mpr (h.owned k hk)
        nesting := by
          simp only [hpc, HlePc.isChecking, Bool.false_eq_true, ↓reduceIte, Nat.add_zero]
          change th.depth - 1 = (th.locked.erase l).countP (fun k => decide (k ∉ th.owned))
          omega
        read := fun k hk hn => h.read k (List.mem_of_mem_erase hk) hn
        active := by
          rename_i h1
          have h2 : th.depth - 1 ≠ 0 := by omega
          simpa [h2, hd] using h.active
        target := by simp [hpc, HlePc.target?]
        fallback := by simp [hpc] }

end HleThreadOk

/-! ## The words and the threads -/

variable {s s' : HleState Tid Lid}

/-- The lock words belong to the threads that own them. -/
structure HleInv (s : HleState Tid Lid) : Prop where
  thread : ∀ t, HleThreadOk (s.thread t)
  word : ∀ l, s.val l ≠ 0 ↔ ∃ t, l ∈ (s.thread t).owned
  bit : ∀ l, s.val l = 0 ∨ s.val l = 1
  unique : ∀ l t u, l ∈ (s.thread t).owned → l ∈ (s.thread u).owned → t = u
  free : ∀ t, ∀ l ∈ (s.thread t).locked, l ∉ (s.thread t).owned → s.val l = 0

namespace HleInv

theorem val_of_owned (h : HleInv s) {t : Tid} {l : Lid} (hl : l ∈ (s.thread t).owned) :
    s.val l = 1 :=
  (h.bit l).resolve_left ((h.word l).mpr ⟨t, hl⟩)

/-- What is right in a state that satisfies the invariant. -/
theorem ok (h : HleInv s) : HleOk s where
  guarded t l hl := by
    by_cases ho : l ∈ (s.thread t).owned
    · exact .inl ⟨ho, h.val_of_owned ho, fun u hu hlu => hu (h.unique l u t hlu ho)⟩
    · have hd : (s.thread t).depth ≠ 0 := fun hd => ho ((h.thread t).owned_of_depth hd l hl)
      exact .inr ⟨hd, (h.thread t).read l hl ho, h.free t l hl ho⟩
  released t l hl := (h.thread t).owned l hl
  nesting t := (h.thread t).nesting

variable [DecidableEq Tid]

/-- A step that changes one thread and no word. -/
theorem setThread (h : HleInv s) {t : Tid} {th : HleThread Lid} (hok : HleThreadOk th)
    (howned : th.owned = (s.thread t).owned)
    (hfree : ∀ l ∈ th.locked, l ∉ th.owned → s.val l = 0) : HleInv (s.setThread t th) := by
  have hsame : ∀ u, ((s.setThread t th).thread u).owned = (s.thread u).owned := by
    intro u
    by_cases hu : u = t
    · subst hu; simp [HleState.setThread, howned]
    · simp [HleState.setThread, hu]
  refine ⟨fun u => ?_, fun l => ?_, h.bit, fun l u v => ?_, fun u => ?_⟩
  · by_cases hu : u = t
    · subst hu; simpa [HleState.setThread] using hok
    · simpa [HleState.setThread, hu] using h.thread u
  · simp only [hsame]; exact h.word l
  · simp only [hsame]; exact h.unique l u v
  · by_cases hu : u = t
    · subst hu; simpa [HleState.setThread] using hfree
    · simpa [HleState.setThread, hu] using h.free u

/-- A thread outside transactions stores to the word of `l`: transactions that have
    read the word abort, and `l` is owned afterwards by whom the word says. -/
theorem store (h : HleInv s) (cfg : TmParams) {t : Tid} {th : HleThread Lid} {l : Lid}
    {w : Word} (hok : HleThreadOk th) (hw : w = 0 ∨ w = 1)
    (hother : ∀ k, k ≠ l → (k ∈ th.owned ↔ k ∈ (s.thread t).owned))
    (hl : w ≠ 0 ↔ l ∈ th.owned ∨ ∃ u, u ≠ t ∧ l ∈ (s.thread u).owned)
    (hone : l ∈ th.owned → ∀ u, u ≠ t → l ∉ (s.thread u).owned)
    (hall : ∀ k ∈ th.locked, k ∈ th.owned) :
    HleInv ((s.store cfg t l w).setThread t th) := by
  have ht : ((s.store cfg t l w).setThread t th).thread t = th := by
    simp [HleState.setThread]
  have hu : ∀ u, u ≠ t → ((s.store cfg t l w).setThread t th).thread u =
      (s.store cfg t l w).thread u := fun u hu => by simp [HleState.setThread, hu]
  have howned : ∀ u, ((s.store cfg t l w).thread u).owned = (s.thread u).owned := by
    intro u
    simp only [HleState.store]
    split
    · exact rollback_owned cfg _
    · rfl
  have hsame : ∀ u, u ≠ t → (((s.store cfg t l w).setThread t th).thread u).owned =
      (s.thread u).owned := fun u hne => by rw [hu u hne, howned]
  have hval : ∀ k, k ≠ l → ((s.store cfg t l w).setThread t th).val k = s.val k :=
    fun k hk => by simp [HleState.setThread, HleState.store, hk]
  refine ⟨fun u => ?_, fun k => ?_, fun k => ?_, fun k u v hku hkv => ?_, fun u k hk hn => ?_⟩
  · by_cases hut : u = t
    · subst hut; rwa [ht]
    · rw [hu u hut]
      simp only [HleState.store]
      split
      · rename_i hroll
        exact ((h.thread u).rollback cfg hroll.2.1).1
      · exact h.thread u
  · -- the owners of a word after the store: `t` by its new list, the others as before
    have hex : (∃ u, k ∈ (((s.store cfg t l w).setThread t th).thread u).owned) ↔
        k ∈ th.owned ∨ ∃ u, u ≠ t ∧ k ∈ (s.thread u).owned := by
      constructor
      · rintro ⟨u, hk⟩
        by_cases hut : u = t
        · subst hut; rw [ht] at hk; exact .inl hk
        · rw [hsame u hut] at hk; exact .inr ⟨u, hut, hk⟩
      · rintro (hk | ⟨u, hut, hk⟩)
        · exact ⟨t, by rwa [ht]⟩
        · exact ⟨u, by rwa [hsame u hut]⟩
    rw [hex]
    by_cases hk : k = l
    · subst hk
      simpa [HleState.setThread, HleState.store] using hl
    · rw [hval k hk, h.word k, hother k hk]
      constructor
      · rintro ⟨u, hku⟩
        by_cases hut : u = t
        · subst hut; exact .inl hku
        · exact .inr ⟨u, hut, hku⟩
      · rintro (hku | ⟨u, -, hku⟩)
        · exact ⟨t, hku⟩
        · exact ⟨u, hku⟩
  · by_cases hk : k = l
    · subst hk; simpa [HleState.setThread, HleState.store] using hw
    · rw [hval k hk]; exact h.bit k
  · -- two owners: thread `t` owns nothing it did not own before, but the word of `l`
    have key : ∀ v, v ≠ t → k ∈ th.owned → k ∉ (s.thread v).owned := by
      intro w hw hkt hkw
      by_cases hk : k = l
      · subst hk; exact hone hkt w hw hkw
      · exact hw (h.unique k w t hkw ((hother k hk).mp hkt))
    by_cases hut : u = t <;> by_cases hvt : v = t
    · rw [hut, hvt]
    · subst hut
      rw [ht] at hku
      rw [hsame v hvt] at hkv
      exact absurd hkv (key v hvt hku)
    · subst hvt
      rw [ht] at hkv
      rw [hsame u hut] at hku
      exact absurd hku (key u hut hkv)
    · rw [hsame u hut] at hku
      rw [hsame v hvt] at hkv
      exact h.unique k u v hku hkv
  · by_cases hut : u = t
    · subst hut
      rw [ht] at hk hn
      exact absurd (hall k hk) hn
    · rw [hu u hut] at hk hn
      simp only [HleState.store] at hk hn
      split at hk <;> rename_i hroll
      · rw [if_pos hroll] at hn
        exact absurd (((h.thread u).rollback cfg hroll.2.1).2 k hk) hn
      · rw [if_neg hroll] at hn
        by_cases hkl : k = l
        · -- the transaction has read the word, so the store aborts it
          subst hkl
          have hd : (s.thread u).depth ≠ 0 :=
            fun hd => hn ((h.thread u).owned_of_depth hd k hk)
          exact absurd ⟨hut, hd, (h.thread u).read k hk hn⟩ hroll
        · rw [hval k hkl]
          exact h.free u k hk hn

/-- A step inside the lock's code. -/
theorem runStep (h : HleInv s) {cfg : TmParams} {t : Tid} (hs : s.runStep cfg t = some s') :
    HleInv s' := by
  have hok := h.thread t
  cases hpc : (s.thread t).pc with
  | out | enterHtm _ _ => simp [HleState.runStep, hpc] at hs
  | check l =>
    have hnot : l ∉ (s.thread t).locked := hok.target l (by simp [hpc, HlePc.target?])
    have hnest := hok.nesting
    simp only [hpc, HlePc.isChecking, ↓reduceIte] at hnest
    simp only [HleState.runStep, hpc] at hs
    split at hs <;> rename_i hv <;> simp only [Option.some.injEq] at hs <;> subst hs
    · -- the word is taken: the elided attempt hangs until its transaction aborts
      refine h.setThread ?_ rfl (h.free t)
      exact
        { hok with
          nesting := by simpa [elided, HlePc.isChecking] using hnest
          read := fun k hk hn => List.mem_cons_of_mem _ (hok.read k hk hn)
          target := fun k hk => by
            simp only [HlePc.target?, Option.some.injEq] at hk
            exact hk ▸ hnot
          fallback := by simp }
    · -- the word is 0, so nobody owns it: the lock is elided, and only read
      have hv0 : s.val l = 0 := (h.bit l).resolve_right hv
      have hno : l ∉ (s.thread t).owned := fun ho => (h.word l).mpr ⟨t, ho⟩ hv0
      refine h.setThread ?_ rfl fun k hk hn => ?_
      · exact
          { hok with
            nodup := List.nodup_cons.mpr ⟨hnot, hok.nodup⟩
            owned := fun k hk => List.mem_cons_of_mem _ (hok.owned k hk)
            nesting := by
              simp only [elided, List.countP_cons, HlePc.isChecking] at hnest ⊢
              simpa [hno] using hnest
            read := fun k hk hn => by
              rcases List.mem_cons.mp hk with rfl | hk
              · exact List.mem_cons_self
              · exact List.mem_cons_of_mem _ (hok.read k hk hn)
            target := by simp [HlePc.target?]
            fallback := by simp }
      · rcases List.mem_cons.mp hk with rfl | hk
        · exact hv0
        · exact h.free t k hk hn
  | hang l =>
    simp only [HleState.runStep, hpc, Option.some.injEq] at hs
    exact hs ▸ h
  | testRead l =>
    have hd : (s.thread t).depth = 0 := hok.fallback l (.inl hpc)
    have hnot : l ∉ (s.thread t).locked := hok.target l (by simp [hpc, HlePc.target?])
    simp only [HleState.runStep, hpc] at hs
    split at hs <;> simp only [Option.some.injEq] at hs <;> subst hs
    · exact h
    · refine h.setThread ?_ rfl (h.free t)
      exact hok.goto (by rw [hpc]; rfl) (fun k hk => Option.some.inj hk ▸ hnot) fun _ _ => hd
  | testSwap l =>
    have hd : (s.thread t).depth = 0 := hok.fallback l (.inr hpc)
    have hnot : l ∉ (s.thread t).locked := hok.target l (by simp [hpc, HlePc.target?])
    have hno : l ∉ (s.thread t).owned := fun ho => hnot (hok.owned l ho)
    have hall := hok.owned_of_depth hd
    simp only [HleState.runStep, hpc] at hs
    split at hs <;> rename_i hv <;> simp only [Option.some.injEq] at hs <;> subst hs
    · refine h.store cfg ?_ (.inr rfl) (fun _ _ => Iff.rfl) ?_ (fun ho => absurd ho hno) hall
      · exact hok.goto (by rw [hpc]; rfl) (fun k hk => Option.some.inj hk ▸ hnot) fun _ _ => hd
      · -- the exchange has found the word taken, and leaves it as it was
        obtain ⟨u, hu⟩ := (h.word l).mp hv
        exact iff_of_true (by decide) (.inr ⟨u, fun hut => hno (hut ▸ hu), hu⟩)
    · -- the exchange has read 0: nobody owned the word, and now `t` does
      have hfree : ∀ u, l ∉ (s.thread u).owned :=
        fun u hu => (h.word l).mpr ⟨u, hu⟩ (by simpa using hv)
      refine h.store cfg ?_ (.inr rfl) (fun k hk => by simp [hk]) (by simp)
        (fun _ u _ => hfree u) fun k hk => ?_
      · refine .of_owned rfl hd (hok.saved_none hd) (List.nodup_cons.mpr ⟨hnot, hok.nodup⟩)
          (List.nodup_cons.mpr ⟨hno, hok.owned_nodup⟩) fun k => ?_
        simp only [List.mem_cons]
        exact or_congr_right ⟨hall k, hok.owned k⟩
      · rcases List.mem_cons.mp hk with rfl | hk
        · exact List.mem_cons_self
        · exact List.mem_cons_of_mem _ (hall k hk)

/-- Every ordered step keeps the invariant. -/
theorem step (h : HleInv s) {cfg : TmParams} {a : HleAct Tid Lid} (ha : HleOrdered s a)
    (hs : s.step cfg a = some s') : HleInv s' := by
  simp only [HleState.step] at hs
  split at hs
  · simp at hs
  cases a with
  | lock t l =>
    simp only at hs
    split at hs <;> simp only [Option.some.injEq, reduceCtorEq] at hs
    rename_i hl
    subst hs
    refine h.setThread ?_ rfl (h.free t)
    exact (h.thread t).goto (by rw [hl.1]; rfl) (fun k hk => Option.some.inj hk ▸ hl.2) (by simp)
  | trylock t l =>
    simp only at hs
    split at hs
    · split at hs <;> simp only [Option.some.injEq] at hs <;> subst hs
      · rename_i hd
        -- inside a transaction the assertion of `trylock` ends in an abort
        obtain ⟨hok, hall⟩ := (h.thread t).rollback cfg hd
        exact h.setThread hok (rollback_owned cfg _) fun k hk hn => absurd (hall k hk) hn
      · exact ⟨h.thread, h.word, h.bit, h.unique, h.free⟩
    · simp at hs
  | unlock t l =>
    have hok := h.thread t
    simp only at hs
    split at hs
    · rename_i hl
      split at hs <;> rename_i hd <;> simp only [Option.some.injEq] at hs <;> subst hs
      · -- in a transaction only an elided lock is unlocked
        have hno : l ∉ (s.thread t).owned := ha hd
        obtain ⟨hok', hfree⟩ := hok.unlock hl.1 hd hl.2 hno
        refine h.setThread hok' (htmEnd_owned _) fun k hk hn => h.free t k (hfree k hk) ?_
        rwa [← htmEnd_owned (s.thread t)]
      · have hd : (s.thread t).depth = 0 := by simpa using hd
        -- outside transactions what is locked is owned
        have hown := hok.owned_of_depth hd l hl.2
        refine h.store cfg (.of_owned hl.1 hd (hok.saved_none hd) (hok.nodup.erase l)
          (hok.owned_nodup.erase l) fun k => ?_) (.inl rfl) (fun k hk => ?_) ?_ ?_ fun k hk => ?_
        · rw [hok.nodup.mem_erase_iff, hok.owned_nodup.mem_erase_iff]
          exact and_congr_right fun _ => ⟨hok.owned_of_depth hd k, hok.owned k⟩
        · exact List.mem_erase_of_ne hk
        · simp only [ne_eq, not_true_eq_false, hok.owned_nodup.mem_erase_iff, false_and,
            false_or, false_iff, not_exists, not_and]
          exact fun u hu hlu => hu (h.unique l u t hlu hown)
        · exact fun hmem => absurd hmem (by simp [hok.owned_nodup.mem_erase_iff])
        · rw [hok.nodup.mem_erase_iff] at hk
          rw [hok.owned_nodup.mem_erase_iff]
          exact ⟨hk.1, hok.owned_of_depth hd k hk.2⟩
    · simp at hs
  | run t => exact h.runStep hs
  | htmStart t =>
    cases hpc : (s.thread t).pc <;>
      simp only [hpc, Option.some.injEq, reduceCtorEq] at hs
    subst hs
    refine h.setThread ((h.thread t).htmBegin hpc) (htmBegin_owned ..) ?_
    simpa using h.free t
  | htmAbort t =>
    simp only at hs
    split at hs
    · rename_i hd
      simp only [Option.some.injEq] at hs
      subst hs
      obtain ⟨hok, hall⟩ := (h.thread t).rollback cfg hd
      exact h.setThread hok (rollback_owned cfg _) fun k hk hn => absurd (hall k hk) hn
    · rename_i hd
      cases hpc : (s.thread t).pc <;>
        simp only [hpc, Option.some.injEq, reduceCtorEq] at hs
      subst hs
      have hok := h.thread t
      refine h.setThread (.htmFailed (hok.goto (by rw [hpc]; rfl) nofun nofun) cfg
        (by simpa using hd) (hok.target _ (by rw [hpc]; rfl))) (htmFailed_owned ..) ?_
      simpa using h.free t

end HleInv

variable [DecidableEq Tid]

/-- All locks are free at the start. -/
theorem hleInv_init {cfg : TmParams} (s : HleState Tid Lid) (hs : (tasHle Tid Lid cfg).init s) :
    HleInv s := by
  subst hs
  have hok : HleThreadOk ({} : HleThread Lid) :=
    .of_owned rfl rfl rfl List.nodup_nil List.nodup_nil fun _ => Iff.rfl
  exact ⟨fun _ => hok, by simp, by simp, by simp, by simp⟩

/-- No store of an unlock hits the word of another thread. -/
theorem HleInv.storeOk (h : HleInv s) {cfg : TmParams} {a : HleAct Tid Lid}
    (hs : s.step cfg a = some s') : HleStoreOk s a := by
  cases a with
  | unlock t l =>
    intro hd u hu hlu
    simp only [HleState.step, hd, ne_eq, not_true_eq_false, ↓reduceIte] at hs
    split at hs
    · simp at hs
    split at hs
    · rename_i hl
      exact hu (h.unique l u t hlu ((h.thread t).owned_of_depth hd l hl.2))
    · simp at hs
  | _ => trivial

/-- An unlock that is not ordered leaves the word of its lock at 1. -/
theorem HleInv.ordered_of_released (h : HleInv s) {cfg : TmParams} {a : HleAct Tid Lid}
    (hs : s.step cfg a = some s')
    (hrel : ∀ t, ∀ l ∈ (s'.thread t).owned, l ∈ (s'.thread t).locked) : HleOrdered s a := by
  cases a with
  | unlock t l =>
    intro hd hown
    simp only [HleState.step, hd, ne_eq, not_false_eq_true, ↓reduceIte] at hs
    split at hs
    · simp at hs
    split at hs
    · simp only [Option.some.injEq] at hs
      subst hs
      have := hrel t l (by simpa [HleState.setThread] using hown)
      simp [HleState.setThread, (h.thread t).nodup.mem_erase_iff] at this
    · simp at hs
  | _ => trivial

/-- Every state of a run is right, and no unlock in it stores to a word that is not its
    own, if and only if the run unlocks no lock that it owns inside a transaction. -/
theorem hle_pairing (cfg : TmParams) (tr : List (HleState Tid Lid × HleAct Tid Lid))
    (s : HleState Tid Lid) (h : (tasHle Tid Lid cfg).Run System.Free tr s) :
    (∀ p ∈ tr, HleOrdered p.1 p.2) ↔
      HleOk s ∧ ∀ p ∈ tr, HleOk p.1 ∧ HleStoreOk p.1 p.2 := by
  refine h.condition_iff_step (I := HleInv) hleInv_init (fun s a s' hi ha hs => hi.step ha hs)
    (fun s hi => hi.ok) (fun s a s' hi _ hs => hi.storeOk hs) ?_
  -- an unlock that is not ordered leaves a word set that nobody has locked
  exact fun s a s' hi hs hok _ => hi.ordered_of_released hs hok.released

/-- One thread takes lock 0 after its last try, elides lock 1 and unlocks lock 0: that
    commits the transaction. After unlocking lock 1 too the word of lock 0 is still 1. -/
theorem hle_not_paired :
    ∃ s, (tasHle (Fin 1) (Fin 2) { numTries := 2 }).Reachable System.Free s ∧
      (s.thread 0).pc = .out ∧ (s.thread 0).locked = [] ∧ s.val 0 = 1 ∧ ¬ HleOk s := by
  obtain ⟨s, hs, hp⟩ := System.reachable_of_exec
    (M := tasHle (Fin 1) (Fin 2) { numTries := 2 })
    [.lock 0 0, .htmAbort 0, .htmAbort 0, .run 0, .run 0, .lock 0 1, .htmStart 0, .run 0,
      .unlock 0 0, .unlock 0 1]
    (p := fun s => (s.thread 0).pc = .out ∧ (s.thread 0).locked = [] ∧ s.val 0 = 1 ∧
      (s.thread 0).owned = [0]) rfl (by decide)
  simp only [decide_eq_true_eq] at hp
  obtain ⟨hpc, hlocked, hval, howned⟩ := hp
  refine ⟨s, hs, hpc, hlocked, hval, fun hok => ?_⟩
  simpa [hlocked] using hok.released 0 0 (by simp [howned])

/-- One thread elides two locks and unlocks them in the order it took them. -/
theorem hle_pairing_two_elided :
    ∃ tr s, (tasHle (Fin 1) (Fin 2) {}).Run System.Free tr s ∧ (s.thread 0).locked = [] ∧
      HleOk s ∧ ∀ p ∈ tr, HleOk p.1 ∧ HleStoreOk p.1 p.2 := by
  let s₀ : HleState (Fin 1) (Fin 2) := ⟨fun _ => 0, fun _ => {}, false⟩
  let as : List (HleAct (Fin 1) (Fin 2)) :=
    [.lock 0 0, .htmStart 0, .run 0, .lock 0 1, .htmStart 0, .run 0, .unlock 0 0, .unlock 0 1]
  have hlocked : ((tasHle (Fin 1) (Fin 2) {}).exec s₀ as).map
      (fun s => (s.thread 0).locked) = some [] := by decide
  have hord : ∀ p ∈ (tasHle (Fin 1) (Fin 2) {}).execTrace s₀ as, HleOrdered p.1 p.2 := by decide
  obtain ⟨s, hs, hl⟩ := Option.map_eq_some_iff.mp hlocked
  have hrun := (System.Run.init (M := tasHle (Fin 1) (Fin 2) {}) (s := s₀) rfl).exec hs
  exact ⟨_, s, hrun, hl, (hle_pairing {} _ s hrun).mp hord⟩

end TxLock.Spec
