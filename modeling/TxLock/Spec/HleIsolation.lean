import TxLock.Native.HleData
import TxLock.Spec.HlePairing

/-!
# Elided sections are isolated

With one lock the order in which locks are unlocked cannot go wrong, so the invariant of
`Spec/HlePairing` holds in every run. While a section is elided the lock word is 0 and
nobody has the lock; while somebody has it no section is elided. So the completed
sections, in the order in which they commit or are released, are a serial execution.

## Key results

- `HleMoves`, `HleInv.moves`: what a step other than an unlock does to the threads
- `IsoInv.setHle`, `IsoInv.access`, `IsoInv.unlocked`: the three kinds of steps
- `hle_isolated`: isolation and a serial order of the completed sections, in every run
-/

namespace TxLock.Spec

open Native

variable {Tid Addr Val : Type}

/-! ## One lock -/

section OneLock

variable {th : HleThread Unit}

/-- With one lock a thread owns its word exactly when it has locked it outside a transaction. -/
theorem HleThreadOk.mem_owned_iff (h : HleThreadOk th) :
    () ∈ th.owned ↔ () ∈ th.locked ∧ th.depth = 0 := by
  constructor
  · intro ho
    have hl := h.owned () ho
    have hel : elided th = 0 := by
      simpa [elided, List.countP_eq_zero] using fun _ _ => ho
    have hpc : HlePc.isChecking th.pc = false := by
      cases hpc : th.pc with
      | check l | hang l => exact absurd hl (h.target () (by rw [hpc]; rfl))
      | _ => rfl
    have hnest := h.nesting
    rw [hel, hpc] at hnest
    exact ⟨hl, by simpa using hnest⟩
  · rintro ⟨hl, hd⟩
    exact h.owned_of_depth hd () hl

/-- A section in a transaction is in the outermost one. -/
theorem HleThreadOk.depth_eq_one (h : HleThreadOk th) (hpc : th.pc = .out) (hd : th.depth ≠ 0) :
    th.depth = 1 := by
  have hnest := h.nesting
  have hel : elided th ≤ th.locked.length := List.countP_le_length
  have hlen : th.locked.length ≤ 1 := by
    have hnodup := h.nodup
    match th.locked, hnodup with
    | [], _ => exact Nat.zero_le _
    | [_], _ => exact Nat.le_refl _
    | _ :: _ :: _, hnodup => simp at hnodup
  simp only [hpc, HlePc.isChecking, Bool.false_eq_true, ↓reduceIte, Nat.add_zero] at hnest
  omega

/-- An abort ends the transaction. -/
theorem HleThreadOk.rollback_depth (h : HleThreadOk th) (cfg : TmParams) (hd : th.depth ≠ 0) :
    (th.rollback cfg).depth = 0 := by
  obtain ⟨sv, hsv⟩ := Option.isSome_iff_exists.mp (h.active.mpr hd)
  simp only [HleThread.rollback, hsv, HleThread.htmFailed]
  split <;> rfl

/-- With one lock an unlock inside a transaction is for an elided lock. -/
theorem HleInv.ordered {s : HleState Tid Unit} (h : HleInv s) (a : HleAct Tid Unit) :
    HleOrdered s a := by
  cases a with
  | unlock t l =>
    intro hd ho
    exact hd ((h.thread t).mem_owned_iff.mp ho).2
  | _ => trivial

/-- What a step other than an unlock does to a thread. -/
structure HleMoves (th th' : HleThread Unit) : Prop where
  locked : () ∈ th.locked → () ∈ th'.locked ∨ th.depth ≠ 0 ∧ th'.depth = 0
  owned : () ∈ th.owned → () ∈ th'.owned
  took : () ∈ th'.owned → () ∈ th.owned ∨ () ∉ th.locked
  began : th.depth = 0 → th'.depth ≠ 0 → () ∉ th.locked

/-- A step that neither begins nor ends a transaction. -/
theorem HleMoves.of_depth {th th' : HleThread Unit} (hd : th'.depth = th.depth)
    (hl : () ∈ th.locked → () ∈ th'.locked) (ho : () ∈ th.owned → () ∈ th'.owned)
    (ht : () ∈ th'.owned → () ∈ th.owned ∨ () ∉ th.locked) : HleMoves th th' where
  locked h := .inl (hl h)
  owned := ho
  took := ht
  began h h' := absurd (hd.trans h) h'

theorem HleMoves.refl (th : HleThread Unit) : HleMoves th th := .of_depth rfl id id .inl

theorem HleThreadOk.rollback_moves (h : HleThreadOk th) (cfg : TmParams) (hd : th.depth ≠ 0) :
    HleMoves th (th.rollback cfg) where
  locked _ := .inr ⟨hd, h.rollback_depth cfg hd⟩
  owned ho := by rwa [rollback_owned]
  took ho := by
    rw [rollback_owned] at ho
    exact .inl ho
  began h0 := absurd h0 hd

end OneLock

section Moves

variable [DecidableEq Tid] {cfg : TmParams} {s s' : HleState Tid Unit}

/-- A step that changes one thread. -/
theorem moves_setThread {t : Tid} {th : HleThread Unit} (hm : HleMoves (s.thread t) th) (u : Tid) :
    HleMoves (s.thread u) ((s.setThread t th).thread u) := by
  by_cases hu : u = t
  · subst hu
    simpa [HleState.setThread] using hm
  · simpa [HleState.setThread, hu] using HleMoves.refl _

/-- A store to the lock word by thread `t`. -/
theorem HleInv.moves_store (h : HleInv s) {t : Tid} {th : HleThread Unit} {w : Word}
    (hm : HleMoves (s.thread t) th) (u : Tid) :
    HleMoves (s.thread u) (((s.store cfg t () w).setThread t th).thread u) := by
  by_cases hu : u = t
  · subst hu
    simpa [HleState.setThread] using hm
  · simp only [HleState.setThread, Function.update_of_ne hu, HleState.store]
    split
    · rename_i hroll
      exact (h.thread u).rollback_moves cfg hroll.2.1
    · exact .refl _

theorem HleInv.moves_runStep (h : HleInv s) {t : Tid} (hs : s.runStep cfg t = some s') (u : Tid) :
    HleMoves (s.thread u) (s'.thread u) := by
  cases hpc : (s.thread t).pc with
  | out | enterHtm _ _ => simp [HleState.runStep, hpc] at hs
  | hang l =>
    simp only [HleState.runStep, hpc, Option.some.injEq] at hs
    exact hs ▸ .refl _
  | check l =>
    simp only [HleState.runStep, hpc] at hs
    split at hs <;> simp only [Option.some.injEq] at hs <;> subst hs
    · refine moves_setThread ?_ u
      exact .of_depth rfl id id .inl
    · refine moves_setThread ?_ u
      exact .of_depth rfl (List.mem_cons_of_mem _) id .inl
  | testRead l =>
    simp only [HleState.runStep, hpc] at hs
    split at hs <;> simp only [Option.some.injEq] at hs <;> subst hs
    · exact .refl _
    · refine moves_setThread ?_ u
      exact .of_depth rfl id id .inl
  | testSwap l =>
    -- the thread takes a lock it did not have
    have hnot : () ∉ (s.thread t).locked := (h.thread t).target l (by simp [hpc, HlePc.target?])
    simp only [HleState.runStep, hpc] at hs
    split at hs <;> simp only [Option.some.injEq] at hs <;> subst hs
    · refine h.moves_store ?_ u
      exact .of_depth rfl id id .inl
    · refine h.moves_store ?_ u
      exact .of_depth rfl (List.mem_cons_of_mem _) (List.mem_cons_of_mem _) fun _ => .inr hnot

/-- Every step other than an unlock moves the threads so. -/
theorem HleInv.moves (h : HleInv s) {a : HleAct Tid Unit} (ha : ∀ t l, a ≠ .unlock t l)
    (hs : s.step cfg a = some s') (u : Tid) : HleMoves (s.thread u) (s'.thread u) := by
  -- an attempt that fails takes no lock, and owns what it owned
  have hfailed : ∀ (th : HleThread Unit) (tries : Word), th.depth = 0 →
      HleMoves th (th.htmFailed cfg () tries) := by
    intro th tries hd
    have hd' : (th.htmFailed cfg () tries).depth = 0 := by
      unfold HleThread.htmFailed
      split <;> exact hd
    exact ⟨fun hl => .inl (by rwa [htmFailed_locked]), fun ho => by rwa [htmFailed_owned],
      fun ho => .inl (by rwa [htmFailed_owned] at ho), fun _ h' => absurd hd' h'⟩
  simp only [HleState.step] at hs
  split at hs
  · simp at hs
  cases a with
  | unlock t l => exact absurd rfl (ha t l)
  | lock t l =>
    simp only at hs
    split at hs <;> simp only [Option.some.injEq, reduceCtorEq] at hs
    subst hs
    refine moves_setThread ?_ u
    exact .of_depth rfl id id .inl
  | trylock t l =>
    simp only at hs
    split at hs
    · split at hs <;> rename_i hd <;> simp only [Option.some.injEq] at hs <;> subst hs
      · exact moves_setThread ((h.thread t).rollback_moves cfg hd) u
      · exact .refl _
    · simp at hs
  | run t => exact h.moves_runStep hs u
  | htmStart t =>
    cases hpc : (s.thread t).pc <;>
      simp only [hpc, Option.some.injEq, reduceCtorEq] at hs
    rename_i l tries
    subst hs
    have hnot := (h.thread t).target l (by simp [hpc, HlePc.target?])
    exact moves_setThread ⟨fun hl => .inl (by rwa [htmBegin_locked]),
      fun ho => by rwa [htmBegin_owned], fun ho => .inl (by rwa [htmBegin_owned] at ho),
      fun _ _ => hnot⟩ u
  | htmAbort t =>
    simp only at hs
    split at hs
    · rename_i hd
      simp only [Option.some.injEq] at hs
      subst hs
      exact moves_setThread ((h.thread t).rollback_moves cfg hd) u
    · rename_i hd
      cases hpc : (s.thread t).pc <;>
        simp only [hpc, Option.some.injEq, reduceCtorEq] at hs
      subst hs
      exact moves_setThread (hfailed _ _ (by simpa using hd)) u

omit [DecidableEq Tid] in
/-- A step after which a thread has the lock that had it not before is taken when nobody has
    it. -/
theorem HleInv.free_of_took (h' : HleInv s') {t : Tid}
    (hm : ∀ u, HleMoves (s.thread u) (s'.thread u)) (ht : () ∈ (s'.thread t).owned)
    (hno : () ∉ (s.thread t).owned) (u : Tid) : () ∉ (s.thread u).owned := by
  intro hu
  have hut := h'.unique () u t ((hm u).owned hu) ht
  exact hno (hut ▸ hu)

omit [DecidableEq Tid] in
/-- Transactions that abort together. -/
theorem HleInv.abortAll (h : HleInv s) (cfg : TmParams) (p : Tid → Prop) [DecidablePred p]
    (hp : ∀ u, p u → (s.thread u).depth ≠ 0) :
    HleInv { s with
      thread := fun u => if p u then (s.thread u).rollback cfg else s.thread u } := by
  -- what an abort gives back was only elided: the owned words stay
  have howned : ∀ u, (if p u then (s.thread u).rollback cfg else s.thread u).owned =
      (s.thread u).owned := by
    intro u
    split
    · exact rollback_owned cfg _
    · rfl
  constructor
  · intro u
    simp only
    split
    · rename_i hu
      exact ((h.thread u).rollback cfg (hp u hu)).1
    · exact h.thread u
  · simpa only [howned] using h.word
  · exact h.bit
  · simpa only [howned] using h.unique
  · intro u l hl hno
    simp only at hl hno
    split at hl
    · rename_i hu
      rw [if_pos hu] at hno
      exact absurd (((h.thread u).rollback cfg (hp u hu)).2 l hl) hno
    · rename_i hu
      rw [if_neg hu] at hno
      exact h.free u l hl hno

/-- What an unlock does. -/
theorem unlock_eq {t : Tid} (hs : s.step cfg (.unlock t ()) = some s') :
    (s.thread t).pc = .out ∧ () ∈ (s.thread t).locked ∧
      if (s.thread t).depth ≠ 0 then
        s' = s.setThread t
          { (s.thread t).htmEnd with locked := (s.thread t).locked.erase () }
      else
        s' = (s.store cfg t () 0).setThread t
          { s.thread t with
            locked := (s.thread t).locked.erase ()
            owned := (s.thread t).owned.erase () } := by
  simp only [HleState.step] at hs
  split at hs
  · simp at hs
  split at hs
  · rename_i hcan
    refine ⟨hcan.1, hcan.2, ?_⟩
    split at hs <;> rename_i hd <;> simp only [Option.some.injEq] at hs
    · rw [if_pos hd]
      exact hs.symm
    · rw [if_neg hd]
      exact hs.symm
  · simp at hs

omit [DecidableEq Tid] in
/-- Nobody has a lock whose word is 0. -/
theorem HleInv.not_owned (h : HleInv s) (hv : s.val () = 0) (u : Tid) :
    () ∉ (s.thread u).owned := fun hu => (h.word ()).mpr ⟨u, hu⟩ hv

end Moves

/-! ## The invariant -/

/-- The sections of thread `t` in a serial order. -/
def sectionsOf [DecidableEq Tid] (order : List (Tid × List (Access Addr Val))) (t : Tid) :
    List (List (Access Addr Val)) :=
  (order.filter (·.1 = t)).map (·.2)

theorem sectionsOf_append [DecidableEq Tid] (order : List (Tid × List (Access Addr Val)))
    (t u : Tid) (l : List (Access Addr Val)) :
    sectionsOf (order ++ [(t, l)]) u =
      if u = t then sectionsOf order u ++ [l] else sectionsOf order u := by
  by_cases hu : u = t
  · subst hu
    simp [sectionsOf]
  · simp [sectionsOf, hu, Ne.symm hu]

section Invariant

variable [DecidableEq Tid] [DecidableEq Addr] {d₀ : Addr → Val}

/-- The sections in `order` run one at a time from `d₀` are those the threads have completed,
    and leave the shared data. -/
structure Serial (d₀ : Addr → Val) (s : HleData Tid Addr Val)
    (order : List (Tid × List (Access Addr Val))) : Prop where
  /-- Each thread's completed sections are in its order. -/
  sections : ∀ t, sectionsOf order t = s.finished t
  /-- Every read finds the value it has returned. -/
  legal : Access.Legal d₀ (order.flatMap (·.2))
  /-- While a thread has the lock, what it has done so far comes after them. -/
  holder : ∀ t, () ∈ (s.hle.thread t).owned →
    Access.Legal (Access.after d₀ (order.flatMap (·.2))) (s.ops t) ∧
      Access.after (Access.after d₀ (order.flatMap (·.2))) (s.ops t) = s.data
  nobody : (∀ t, () ∉ (s.hle.thread t).owned) →
    Access.after d₀ (order.flatMap (·.2)) = s.data

/-- What every step keeps. -/
structure IsoInv (d₀ : Addr → Val) (s : HleData Tid Addr Val) : Prop where
  hle : HleInv s.hle
  outside : ∀ t, () ∉ (s.hle.thread t).locked → s.ops t = []
  /-- The reads of a transaction find their values in the data as it is now. -/
  legal : ∀ t, (s.hle.thread t).depth ≠ 0 → Access.Legal s.data (s.ops t)
  /-- No transaction touches what another has written. -/
  apart : ∀ t u, t ≠ u → (s.hle.thread t).depth ≠ 0 → (s.hle.thread u).depth ≠ 0 →
    ∀ x, Access.Writes (s.ops t) x → ¬ Access.Touches (s.ops u) x
  serial : ∃ order, Serial d₀ s order

namespace IsoInv

variable {cfg : TmParams} {s : HleData Tid Addr Val} {h' : HleState Tid Unit}

omit [DecidableEq Tid] [DecidableEq Addr] in
/-- What an active transaction has done is what it had done before. -/
theorem setHle_ops (t : Tid) (hd : (h'.thread t).depth ≠ 0) : (s.setHle h').ops t = s.ops t := by
  simp [HleData.setHle, hd]

theorem began (h : IsoInv d₀ s) {t : Tid} (hm : HleMoves (s.hle.thread t) (h'.thread t))
    (hd : (h'.thread t).depth ≠ 0) : (s.hle.thread t).depth ≠ 0 ∨ s.ops t = [] := by
  by_cases h0 : (s.hle.thread t).depth = 0
  · exact .inr (h.outside t (hm.began h0 hd))
  · exact .inl h0

/-- The reads of an active transaction still find their values. -/
theorem setHle_legal (h : IsoInv d₀ s) {t : Tid}
    (hm : HleMoves (s.hle.thread t) (h'.thread t)) (hd : (h'.thread t).depth ≠ 0) :
    Access.Legal s.data ((s.setHle h').ops t) := by
  rw [setHle_ops t hd]
  cases h.began hm hd with
  | inl h0 => exact h.legal t h0
  | inr hnil =>
    rw [hnil]
    trivial

theorem setHle_apart (h : IsoInv d₀ s) {t u : Tid} (htu : t ≠ u)
    (hmt : HleMoves (s.hle.thread t) (h'.thread t))
    (hmu : HleMoves (s.hle.thread u) (h'.thread u)) (ht : (h'.thread t).depth ≠ 0)
    (hu : (h'.thread u).depth ≠ 0) (x : Addr) (hx : Access.Writes ((s.setHle h').ops t) x) :
    ¬ Access.Touches ((s.setHle h').ops u) x := by
  rw [setHle_ops t ht] at hx
  rw [setHle_ops u hu]
  cases h.began hmt ht with
  | inr hnil =>
    rw [hnil] at hx
    exact absurd hx.touches (Access.not_touches_nil x)
  | inl ht0 =>
    cases h.began hmu hu with
    | inr hnil =>
      rw [hnil]
      exact Access.not_touches_nil x
    | inl hu0 => exact h.apart t u htu ht0 hu0 x hx

/-- A thread outside its section has done nothing in it. -/
theorem setHle_outside (h : IsoInv d₀ s) {t : Tid}
    (hm : HleMoves (s.hle.thread t) (h'.thread t)) (hl : () ∉ (h'.thread t).locked) :
    (s.setHle h').ops t = [] := by
  simp only [HleData.setHle]
  split
  · rfl
  · rename_i hkeep
    refine h.outside t fun hmem => ?_
    cases hm.locked hmem with
    | inl hl' => exact hl hl'
    | inr hend => exact hkeep hend

/-- A step of the lock's code other than an unlock. -/
theorem setHle (h : IsoInv d₀ s) (hinv : HleInv h')
    (hm : ∀ u, HleMoves (s.hle.thread u) (h'.thread u)) : IsoInv d₀ (s.setHle h') := by
  obtain ⟨order, hser⟩ := h.serial
  refine ⟨hinv, fun t hl => h.setHle_outside (hm t) hl, fun t hd => h.setHle_legal (hm t) hd,
    fun t u htu ht hu => h.setHle_apart htu (hm t) (hm u) ht hu, order, ?_⟩
  refine ⟨hser.sections, hser.legal, fun t ht => ?_, fun hno => ?_⟩
  · by_cases ho : () ∈ (s.hle.thread t).owned
    · -- it had the lock before, so it is in no transaction
      have hd := ((h.hle.thread t).mem_owned_iff.mp ho).2
      have hops : (s.setHle h').ops t = s.ops t := by simp [HleData.setHle, hd]
      rw [hops]
      exact hser.holder t ho
    · have hnil : s.ops t = [] := h.outside t (((hm t).took ht).resolve_left ho)
      have hops : (s.setHle h').ops t = [] := by simp [HleData.setHle, hnil]
      rw [hops]
      exact ⟨trivial, hser.nobody (HleInv.free_of_took hinv hm ht ho)⟩
  · exact hser.nobody fun t ht => hno t ((hm t).owned ht)

/-- Transactions that conflict with an access of thread `t` abort; those that go on do not. -/
theorem conflict (h : IsoInv d₀ s) (cfg : TmParams) (t : Tid)
    (hit : List (Access Addr Val) → Prop) [DecidablePred hit] :
    IsoInv d₀ (s.conflict cfg t hit) ∧
      (∀ u, u ≠ t → ((s.conflict cfg t hit).hle.thread u).depth ≠ 0 →
        ¬ hit ((s.conflict cfg t hit).ops u)) ∧
      (s.conflict cfg t hit).hle.thread t = s.hle.thread t ∧
      (s.conflict cfg t hit).ops t = s.ops t := by
  have hroll : ∀ u, (s.hle.thread u).depth ≠ 0 →
      HleMoves (s.hle.thread u) ((s.hle.thread u).rollback cfg) := fun u hd =>
    (h.hle.thread u).rollback_moves cfg hd
  refine ⟨h.setHle (h.hle.abortAll cfg _ fun u hu => hu.2.1) fun u => ?_, fun u hu hd => ?_, ?_, ?_⟩
  · simp only
    split
    · rename_i hc
      exact hroll u hc.2.1
    · exact .refl _
  · -- a transaction that goes on keeps its accesses, so it was not hit
    have hkeep : (s.conflict cfg t hit).ops u = s.ops u := setHle_ops u hd
    rw [hkeep]
    intro hhit
    simp only [HleData.conflict, HleData.setHle] at hd
    split at hd
    · rename_i hc
      exact hd ((h.hle.thread u).rollback_depth cfg hc.2.1)
    · rename_i hc
      exact hc ⟨hu, hd, hhit⟩
  · simp [HleData.conflict, HleData.setHle]
  · simp [HleData.conflict, HleData.setHle]

/-- An access of a transaction. -/
theorem push_speculative (h : IsoInv d₀ s) {t : Tid} {a : Access Addr Val}
    (hl : () ∈ (s.hle.thread t).locked) (hd : (s.hle.thread t).depth ≠ 0)
    (hlegal : Access.Legal (Access.after s.data (s.ops t)) [a])
    (hw : ∀ u, u ≠ t → (s.hle.thread u).depth ≠ 0 → ∀ x, Access.Writes [a] x →
      ¬ Access.Touches (s.ops u) x)
    (ht : ∀ u, u ≠ t → (s.hle.thread u).depth ≠ 0 → ∀ x, Access.Writes (s.ops u) x →
      ¬ Access.Touches [a] x) : IsoInv d₀ (s.push t a) := by
  obtain ⟨order, hser⟩ := h.serial
  have hops : ∀ u, u ≠ t → (s.push t a).ops u = s.ops u := fun u hu => by
    simp [HleData.push, hu]
  have hopst : (s.push t a).ops t = s.ops t ++ [a] := by simp [HleData.push]
  refine ⟨h.hle, fun u hu => ?_, fun u hu => ?_, fun u v huv hud hvd x hx => ?_, order, ?_⟩
  · have hut : u ≠ t := fun hut => hu (hut ▸ hl)
    rw [hops u hut]
    exact h.outside u hu
  · by_cases hut : u = t
    · rw [hut, hopst]
      exact Access.legal_append.mpr ⟨h.legal t hd, hlegal⟩
    · rw [hops u hut]
      exact h.legal u hu
  · by_cases hut : u = t
    · have hvt : v ≠ t := fun hvt => huv (hut.trans hvt.symm)
      rw [hut, hopst, Access.writes_append] at hx
      rw [hops v hvt]
      cases hx with
      | inl hx => exact h.apart t v (Ne.symm hvt) hd hvd x hx
      | inr hx => exact hw v hvt hvd x hx
    · rw [hops u hut] at hx
      by_cases hvt : v = t
      · rw [hvt, hopst, Access.touches_append]
        exact not_or.mpr ⟨h.apart u t hut hud hd x hx, ht u hut hud x hx⟩
      · rw [hops v hvt]
        exact h.apart u v huv hud hvd x hx
  · -- the thread is in a transaction, so it does not have the lock
    have hno : () ∉ (s.hle.thread t).owned := fun ho =>
      hd ((h.hle.thread t).mem_owned_iff.mp ho).2
    refine ⟨hser.sections, hser.legal, fun u hu => ?_, hser.nobody⟩
    have hut : u ≠ t := fun hut => hno (hut ▸ hu)
    rw [hops u hut]
    exact hser.holder u hu

/-- An access of a thread that has the lock. -/
theorem push_holder (h : IsoInv d₀ s) {t : Tid} {a : Access Addr Val}
    (ho : () ∈ (s.hle.thread t).owned) (hlegal : Access.Legal s.data [a])
    (hw : ∀ u, u ≠ t → (s.hle.thread u).depth ≠ 0 → ∀ x, Access.Writes [a] x →
      ¬ Access.Touches (s.ops u) x) :
    IsoInv d₀ { s.push t a with data := Access.after s.data [a] } := by
  obtain ⟨order, hser⟩ := h.serial
  obtain ⟨hl, hd⟩ := (h.hle.thread t).mem_owned_iff.mp ho
  have hops : ∀ u, u ≠ t → (s.push t a).ops u = s.ops u := fun u hu => by
    simp [HleData.push, hu]
  have hopst : (s.push t a).ops t = s.ops t ++ [a] := by simp [HleData.push]
  have hne : ∀ {u}, (s.hle.thread u).depth ≠ 0 → u ≠ t := fun hu hut => hu (hut ▸ hd)
  refine ⟨h.hle, fun u hu => ?_, fun u hu => ?_, fun u v huv hud hvd => ?_, order, ?_⟩
  · have hut : u ≠ t := fun hut => hu (hut ▸ hl)
    exact (hops u hut).trans (h.outside u hu)
  · have hut := hne hu
    -- the transactions have not touched the cell, so they do not see the write
    refine (hops u hut ▸ h.legal u hu).congr fun x hx => ?_
    exact Access.after_of_not_writes fun hwx => hw u hut hu x hwx (hops u hut ▸ hx)
  · intro x hx
    have hux : Access.Writes (s.ops u) x := hops u (hne hud) ▸ hx
    exact hops v (hne hvd) ▸ h.apart u v huv hud hvd x hux
  · refine ⟨hser.sections, hser.legal, fun u hu => ?_, fun hno => absurd ho (hno t)⟩
    -- there is one holder, whose section grows by the access
    have hut : u = t := h.hle.unique () u t hu ho
    obtain ⟨hlegal', hafter⟩ := hser.holder t ho
    subst hut
    have heq : ({ s.push u a with data := Access.after s.data [a] } : HleData Tid Addr Val).ops u =
        s.ops u ++ [a] := hopst
    rw [heq, Access.legal_append, Access.after_append, hafter]
    exact ⟨⟨hlegal', hlegal⟩, rfl⟩

/-- An access of the caller in its section. -/
theorem access (h : IsoInv d₀ s) {t : Tid} {x : Addr} {s' : HleData Tid Addr Val}
    (hs : s.step cfg (.read t x) = some s' ∨ ∃ v, s.step cfg (.write t x v) = some s') :
    IsoInv d₀ s' := by
  obtain hs | ⟨v, hs⟩ := hs
  · simp only [HleData.step] at hs
    split at hs
    swap
    · simp at hs
    rename_i hin
    simp only [HleData.inSection, decide_eq_true_eq] at hin
    -- a read aborts the transactions that have written the cell
    obtain ⟨hc, hnot, hth, hops⟩ := h.conflict cfg t (Access.Writes · x)
    have hdata : (s.conflict cfg t (Access.Writes · x)).data = s.data := rfl
    rw [← hth] at hin
    simp only [Option.some.injEq] at hs
    subst hs
    by_cases hd : (s.hle.thread t).depth ≠ 0
    · simp only [HleData.speculates, hd, ne_eq, not_false_eq_true, decide_true, ↓reduceIte]
      refine hc.push_speculative hin.2 (hth ▸ hd) ⟨?_, trivial⟩ (fun u _ _ y hy => ?_)
        fun u hu hud y hy hty => ?_
      · rw [hdata, hops]
      · exact absurd hy (Access.not_writes_read y x _)
      · rw [Access.touches_read] at hty
        exact hnot u hu hud (hty ▸ hy)
    · simp only [HleData.speculates, hd, decide_false, Bool.false_eq_true, ↓reduceIte]
      -- outside transactions the thread is the holder, and works on the data itself
      have ho := ((hc.hle.thread t).mem_owned_iff).mpr ⟨hin.2, by rw [hth]; exact not_not.mp hd⟩
      exact hc.push_holder (a := .read x (s.data x)) ho ⟨rfl, trivial⟩ fun u _ _ y hy =>
        absurd hy (Access.not_writes_read y x _)
  · simp only [HleData.step] at hs
    split at hs
    swap
    · simp at hs
    rename_i hin
    simp only [HleData.inSection, decide_eq_true_eq] at hin
    -- a write aborts those that have read or written it
    obtain ⟨hc, hnot, hth, -⟩ := h.conflict cfg t (Access.Touches · x)
    rw [← hth] at hin
    have hw : ∀ u, u ≠ t → ((s.conflict cfg t (Access.Touches · x)).hle.thread u).depth ≠ 0 →
        ∀ y, Access.Writes [Access.write x v] y →
          ¬ Access.Touches ((s.conflict cfg t (Access.Touches · x)).ops u) y := by
      intro u hu hud y hy
      rw [Access.writes_write] at hy
      exact hy ▸ hnot u hu hud
    by_cases hd : (s.hle.thread t).depth ≠ 0
    · simp only [HleData.speculates, hd, ne_eq, not_false_eq_true, decide_true, ↓reduceIte,
        Option.some.injEq] at hs
      subst hs
      refine hc.push_speculative hin.2 (hth ▸ hd) trivial hw fun u hu hud y hy hty => ?_
      rw [Access.touches_write] at hty
      exact hnot u hu hud (hty ▸ hy.touches)
    · simp only [HleData.speculates, hd, decide_false, Bool.false_eq_true, ↓reduceIte,
        Option.some.injEq] at hs
      subst hs
      have ho := ((hc.hle.thread t).mem_owned_iff).mpr ⟨hin.2, by rw [hth]; exact not_not.mp hd⟩
      exact hc.push_holder ho trivial hw

/-- The section of thread `t` is over, and nobody has the lock. -/
theorem complete (h : IsoInv d₀ s) {t : Tid} {d : Addr → Val} (hinv : HleInv h')
    (hm : ∀ u, u ≠ t → HleMoves (s.hle.thread u) (h'.thread u)) (hv : h'.val () = 0)
    (hlegal : ∀ u, u ≠ t → (h'.thread u).depth ≠ 0 → Access.Legal d ((s.setHle h').ops u))
    (hend : (h'.thread t).depth = 0)
    (hser : ∀ order, Serial d₀ s order →
      Access.Legal (Access.after d₀ (order.flatMap (·.2))) (s.ops t) ∧
        Access.after (Access.after d₀ (order.flatMap (·.2))) (s.ops t) = d) :
    IsoInv d₀ { s.setHle h' with
      ops := Function.update (s.setHle h').ops t []
      finished := Function.update s.finished t (s.finished t ++ [s.ops t])
      data := d } := by
  obtain ⟨order, hord⟩ := h.serial
  obtain ⟨hsec, hafter⟩ := hser order hord
  -- the word is 0 after the step, so no holder is under way
  have hno := hinv.not_owned hv
  refine ⟨hinv, fun u hu => ?_, fun u hu => ?_, fun u v huv hud hvd => ?_,
    order ++ [(t, s.ops t)], ?_⟩
  · by_cases hut : u = t
    · simp only [hut, Function.update_self]
    · simp only [Function.update_of_ne hut]
      exact h.setHle_outside (hm u hut) hu
  · have hut : u ≠ t := fun hut => hu (hut ▸ hend)
    simp only [Function.update_of_ne hut]
    exact hlegal u hut hu
  · have hut : u ≠ t := fun hut => hud (hut ▸ hend)
    have hvt : v ≠ t := fun hvt => hvd (hvt ▸ hend)
    simp only [Function.update_of_ne hut, Function.update_of_ne hvt]
    exact h.setHle_apart huv (hm u hut) (hm v hvt) hud hvd
  · have hflat : (order ++ [(t, s.ops t)]).flatMap (·.2) = order.flatMap (·.2) ++ s.ops t := by
      simp
    refine ⟨fun u => ?_, ?_, fun u hu => absurd hu (hno u), fun _ => ?_⟩
    · rw [sectionsOf_append, hord.sections]
      split <;> rename_i hut
      · simp only [hut, Function.update_self]
      · simp only [Function.update_of_ne hut]
    · -- the section comes last in the order, and its accesses are legal there
      rw [hflat]
      exact Access.legal_append.mpr ⟨hord.legal, hsec⟩
    · rw [hflat, Access.after_append]
      exact hafter

/-- An unlock: the transaction commits, or the lock is released. -/
theorem unlocked (h : IsoInv d₀ s) {t : Tid} (hs : s.hle.step cfg (.unlock t ()) = some h') :
    IsoInv d₀ (s.unlocked h' t) := by
  have hinv := h.hle.step (h.hle.ordered _) hs
  obtain ⟨hpc, hl, heq⟩ := unlock_eq hs
  have hok := h.hle.thread t
  by_cases hd : (s.hle.thread t).depth ≠ 0
  · rw [if_pos hd] at heq
    have h1 : (s.hle.thread t).depth = 1 := hok.depth_eq_one hpc hd
    have hno : () ∉ (s.hle.thread t).owned := fun ho => hd (hok.mem_owned_iff.mp ho).2
    have hv : s.hle.val () = 0 := h.hle.free t () hl hno
    have hsame : ∀ u, u ≠ t → h'.thread u = s.hle.thread u := fun u hu => by
      simp [heq, HleState.setThread, hu]
    have hend : (h'.thread t).depth = 0 := by
      simp [heq, HleState.setThread, HleThread.htmEnd, h1]
    simp only [HleData.unlocked, h1]
    refine h.complete hinv (fun u hu => by rw [hsame u hu]; exact .refl _) ?_ (fun u hu hud => ?_)
      hend fun order hord => ?_
    · rw [heq]
      exact hv
    · -- what the transaction has written, no other has touched
      rw [setHle_ops u hud]
      rw [hsame u hu] at hud
      exact (h.legal u hud).congr fun x hx => Access.after_of_not_writes fun hwx =>
        h.apart t u (Ne.symm hu) hd hud x hwx hx
    · have hafter := hord.nobody (h.hle.not_owned hv)
      rw [hafter]
      exact ⟨h.legal t hd, rfl⟩
  · rw [if_neg hd] at heq
    have h0 : (s.hle.thread t).depth = 0 := not_not.mp hd
    have ho := hok.mem_owned_iff.mpr ⟨hl, h0⟩
    have hm : ∀ u, u ≠ t → HleMoves (s.hle.thread u) (h'.thread u) := by
      intro u hu
      have hstore : h'.thread u = ((s.hle.store cfg t () 0).setThread t (s.hle.thread t)).thread u := by
        simp [heq, HleState.setThread, hu]
      rw [hstore]
      exact h.hle.moves_store (.refl _) u
    have hend : (h'.thread t).depth = 0 := by
      simp [heq, HleState.setThread, h0]
    simp only [HleData.unlocked, h0]
    refine h.complete hinv hm ?_ (fun u hu hud => h.setHle_legal (hm u hu) hud) hend
      fun order hord => hord.holder t ho
    simp [heq, HleState.setThread, HleState.store]

/-- Every step keeps the invariant. -/
theorem step (h : IsoInv d₀ s) {a : HleDataAct Tid Addr Val} {s' : HleData Tid Addr Val}
    (hs : s.step cfg a = some s') : IsoInv d₀ s' := by
  have hlock : ∀ {b : HleAct Tid Unit} {h' : HleState Tid Unit}, (∀ t l, b ≠ .unlock t l) →
      s.hle.step cfg b = some h' → IsoInv d₀ (s.setHle h') := fun hb hs' =>
    h.setHle (h.hle.step (h.hle.ordered _) hs') fun u => h.hle.moves hb hs' u
  cases a with
  | read t x => exact h.access (.inl hs)
  | write t x v => exact h.access (.inr ⟨v, hs⟩)
  | unlock t =>
    obtain ⟨h', hs', rfl⟩ := Option.map_eq_some_iff.mp hs
    exact h.unlocked hs'
  | lock t | run t | htmStart t | htmAbort t =>
    obtain ⟨h', hs', rfl⟩ := Option.map_eq_some_iff.mp hs
    exact hlock (by simp) hs'

end IsoInv

end Invariant

/-! ## Every run -/

variable [DecidableEq Tid] [DecidableEq Addr]

theorem isoInv_init {cfg : TmParams} {d : Addr → Val} {s : HleData Tid Addr Val}
    (h : (hleData Tid Addr Val cfg d).init s) : IsoInv d s := by
  obtain ⟨hh, rfl, ho, hf⟩ := h
  have hops : ∀ t, s.ops t = [] := fun t => congrFun ho t
  refine ⟨hleInv_init _ hh, fun t _ => hops t, fun t _ => ?_, fun t u _ _ _ x hx => ?_, [], ?_⟩
  · rw [hops t]
    trivial
  · rw [hops t] at hx
    exact absurd hx.touches (Access.not_touches_nil x)
  · refine ⟨fun t => ?_, trivial, fun t ht => ?_, fun _ => rfl⟩
    · rw [hf]
      rfl
    · rw [hops t]
      exact ⟨trivial, rfl⟩

/-- The critical sections of one lock are isolated. -/
structure Isolated (d : Addr → Val) (s : HleData Tid Addr Val) : Prop where
  /-- From its read of the lock word to its commit nobody has the lock of an elided section,
      and the word is 0. -/
  elided : ∀ t, s.inSection t → s.speculates t →
    s.hle.val () = 0 ∧ ∀ u, () ∉ (s.hle.thread u).owned
  /-- A section that is not elided has the lock. -/
  holds : ∀ t, s.inSection t → ¬ s.speculates t →
    s.hle.val () = 1 ∧ () ∈ (s.hle.thread t).owned
  /-- At most one thread has the lock. -/
  one : ∀ t u, () ∈ (s.hle.thread t).owned → () ∈ (s.hle.thread u).owned → t = u
  /-- The completed sections have a serial order. -/
  serial : ∃ order, Serial d s order

/-- In every run, for any number of threads, any number of tries, and with aborts anywhere,
    the sections of the lock are isolated. -/
theorem hle_isolated (cfg : TmParams) (d : Addr → Val) (s : HleData Tid Addr Val)
    (h : (hleData Tid Addr Val cfg d).Reachable System.Free s) : Isolated d s := by
  obtain ⟨tr, hrun⟩ := h
  have hinv : IsoInv d s := hrun.invariant (fun _ => isoInv_init) fun _ _ _ hi _ hs => hi.step hs
  -- a section outside transactions owns the word
  have howned : ∀ t, s.inSection t → ¬ s.speculates t → () ∈ (s.hle.thread t).owned := by
    intro t hin hd
    simp only [HleData.inSection, decide_eq_true_eq] at hin
    simp only [HleData.speculates, ne_eq, decide_eq_true_eq, not_not] at hd
    exact (hinv.hle.thread t).mem_owned_iff.mpr ⟨hin.2, hd⟩
  refine ⟨fun t hin hd => ?_, fun t hin hd => ?_, hinv.hle.unique (), hinv.serial⟩
  · simp only [HleData.inSection, decide_eq_true_eq] at hin
    simp only [HleData.speculates, ne_eq, decide_eq_true_eq] at hd
    have hno : () ∉ (s.hle.thread t).owned := fun ho =>
      hd ((hinv.hle.thread t).mem_owned_iff.mp ho).2
    have hv := hinv.hle.free t () hin.2 hno
    exact ⟨hv, hinv.hle.not_owned hv⟩
  · exact ⟨hinv.hle.val_of_owned (howned t hin hd), howned t hin hd⟩

/-- Thread 0 takes the lock after its last try and writes, thread 1 elides its section and reads
    what thread 0 has left, after an abort by the release. -/
theorem hle_isolated_elided_after_held :
    ∃ s, (hleData (Fin 2) (Fin 1) Nat { numTries := 2 } fun _ => 0).Reachable System.Free s ∧
      s.finished 0 = [[.write 0 7]] ∧ s.finished 1 = [[.read 0 7, .write 0 8]] ∧
      Isolated (fun _ => 0) s := by
  let as : List (HleDataAct (Fin 2) (Fin 1) Nat) :=
    [.lock 0, .htmAbort 0, .htmAbort 0, .lock 1, .htmStart 1, .run 0, .run 0, .run 1, .write 0 0 7,
      .unlock 0, .htmStart 1, .run 1, .read 1 0, .write 1 0 8, .unlock 1]
  let s₀ : HleData (Fin 2) (Fin 1) Nat :=
    ⟨⟨fun _ => 0, fun _ => {}, false⟩, fun _ => 0, fun _ => [], fun _ => []⟩
  have hfin : ((hleData (Fin 2) (Fin 1) Nat { numTries := 2 } fun _ => 0).exec s₀ as).map
      (fun s => (s.finished 0, s.finished 1)) = some ([[.write 0 7]], [[.read 0 7, .write 0 8]]) := by
    decide
  obtain ⟨s, hs, hl⟩ := Option.map_eq_some_iff.mp hfin
  rw [Prod.mk.injEq] at hl
  have hrun := (System.Run.init (C := System.Free)
    (M := hleData (Fin 2) (Fin 1) Nat { numTries := 2 } fun _ => 0) (s := s₀)
    ⟨rfl, rfl, rfl, rfl⟩).exec hs
  exact ⟨s, ⟨_, hrun⟩, hl.1, hl.2, hle_isolated _ _ s ⟨_, hrun⟩⟩

end TxLock.Spec
