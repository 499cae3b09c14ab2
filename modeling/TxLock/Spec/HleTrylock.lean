import TxLock.ForStd.TryLock
import TxLock.Spec.HlePairing

/-!
# Trylock of `tas_hle`

`tas_trylock_hle` is an assertion that always fails: outside a transaction it does not
return. Without it the threads that have a lock of this type for real, that is, whose swap
has set its word, still exclude each other as long as the unlocks are ordered (`HleOrdered`).

## Key results

- `hle_trylockRep`: no two threads are told to hold a lock in a run without the trylock
-/

namespace TxLock.Spec

open Native

variable {Tid Lid : Type}

/-- The thread that takes a step. -/
def HleAct.tid : HleAct Tid Lid → Tid
  | .lock t _ | .trylock t _ | .unlock t _ | .run t | .htmStart t | .htmAbort t => t

/-- A lock is held and the caller was told so while its word is the thread's own. No call of
    trylock goes on. -/
def HleThread.view (th : HleThread Lid) : TryView Lid where
  holds l := l ∈ th.owned
  told l := l ∈ th.owned
  trying := none
  sure := False

/-- What a step outside a transaction is to the callers of the lock. -/
def HleState.events (s : HleState Tid Lid) : HleAct Tid Lid → List (Lid × LockEvent)
  | .trylock t l => if (s.thread t).depth ≠ 0 then [] else [(l, .tryCall)]
  | .unlock t l => if (s.thread t).depth ≠ 0 then [] else [(l, .unlockCall), (l, .give)]
  | .run t =>
    match (s.thread t).pc with
    | .testSwap l => if s.val l ≠ 0 then [] else [(l, .take), (l, .answer 0)]
    | .out | .enterHtm _ _ | .check _ | .hang _ | .testRead _ => []
  | .lock _ _ | .htmStart _ | .htmAbort _ => []

/-- `tas_hle` as its callers see it. -/
def hleView (Tid Lid : Type) [DecidableEq Tid] [DecidableEq Lid] (cfg : TmParams) :
    LockView Tid where
  State := HleState Tid Lid
  Act := HleAct Tid Lid
  Lock := Lid
  Words := Word
  Own := Unit
  sys := tasHle Tid Lid cfg
  actor := HleAct.tid
  run := .run
  events := HleState.events
  words s := s.val
  own _ _ := ()

/-- Trylock is called in transactions only, where it aborts. -/
def HleNoTrylock (s : HleState Tid Lid) : HleAct Tid Lid → Prop
  | .trylock t _ => (s.thread t).depth ≠ 0
  | .lock _ _ | .unlock _ _ | .run _ | .htmStart _ | .htmAbort _ => True

/-- The unlocks are ordered, and trylock is called in transactions only. -/
def HleTruthful [DecidableEq Lid] (s : HleState Tid Lid) (a : HleAct Tid Lid) : Prop :=
  HleOrdered s a ∧ HleNoTrylock s a

section Step

variable [DecidableEq Tid] [DecidableEq Lid] {cfg : TmParams} {s s' : HleState Tid Lid}
  {a : HleAct Tid Lid} {t u : Tid} {l : Lid} {w : Word} {th : HleThread Lid}

omit [DecidableEq Lid] in
theorem setThread_view (hth : th.owned = (s.thread t).owned) :
    HleThread.view ((s.setThread t th).thread u) = HleThread.view (s.thread u) := by
  by_cases hu : u = t
  · subst hu
    simp [HleState.setThread, HleThread.view, hth]
  · simp [HleState.setThread, hu]

/-- A store aborts transactions, which changes no word and no owner. -/
theorem store_view (hu : u ≠ t) :
    HleThread.view (((s.store cfg t l w).setThread t th).thread u) = HleThread.view (s.thread u) := by
  simp only [HleState.setThread, HleState.store, Function.update_of_ne hu]
  split
  · simp [HleThread.view]
  · rfl

/-- A step leaves the other threads alone, but for their transactions. -/
theorem HleState.view_frame (hs : s.step cfg a = some s') (hu : u ≠ HleAct.tid a) :
    HleThread.view (s'.thread u) = HleThread.view (s.thread u) := by
  have hset : ∀ {t : Tid} (th : HleThread Lid), u ≠ t →
      HleThread.view ((s.setThread t th).thread u) = HleThread.view (s.thread u) := by
    intro t th hut
    simp [HleState.setThread, hut]
  simp only [HleState.step] at hs
  split at hs
  · simp at hs
  cases a with
  | lock t l =>
    simp only at hs
    split at hs <;> simp only [Option.some.injEq, reduceCtorEq] at hs
    exact hs ▸ hset _ hu
  | trylock t l =>
    simp only at hs
    split at hs
    · split at hs <;> simp only [Option.some.injEq] at hs <;> subst hs
      · exact hset _ hu
      · rfl
    · simp at hs
  | unlock t l =>
    simp only at hs
    split at hs
    · split at hs <;> simp only [Option.some.injEq] at hs <;> subst hs
      · exact hset _ hu
      · -- a store aborts transactions that have read the word, which own it as before
        exact store_view hu
    · simp at hs
  | run t =>
    simp only [HleState.runStep] at hs
    split at hs
    · split at hs <;> simp only [Option.some.injEq] at hs <;> subst hs <;> exact hset _ hu
    · simp only [Option.some.injEq] at hs
      exact hs ▸ rfl
    · split at hs <;> simp only [Option.some.injEq] at hs <;> subst hs
      · rfl
      · exact hset _ hu
    · split at hs <;> simp only [Option.some.injEq] at hs <;> subst hs <;> exact store_view hu
    · simp at hs
    · simp at hs
  | htmStart t =>
    simp only at hs
    split at hs <;> simp only [Option.some.injEq, reduceCtorEq] at hs
    exact hs ▸ hset _ hu
  | htmAbort t =>
    simp only at hs
    split at hs
    · simp only [Option.some.injEq] at hs
      exact hs ▸ hset _ hu
    · split at hs <;> simp only [Option.some.injEq, reduceCtorEq] at hs
      exact hs ▸ hset _ hu

/-- What a step is to the callers is what it does to the words that the thread owns. -/
theorem HleInv.lockStep {kept : Prop} (h : HleInv s) (hno : HleNoTrylock s a)
    (hs : s.step cfg a = some s') :
    LockStep 0 kept (HleThread.view (s.thread (HleAct.tid a)))
      (HleThread.view (s'.thread (HleAct.tid a))) (HleState.events s a) := by
  have hquiet : ∀ {t : Tid} {th : HleThread Lid}, th.owned = (s.thread t).owned →
      LockStep 0 kept (HleThread.view (s.thread t)) (HleThread.view ((s.setThread t th).thread t))
        [] := by
    intro t th hth
    rw [setThread_view hth]
    exact .quiet (fun _ => Iff.rfl) (fun _ => Iff.rfl) rfl rfl
  simp only [HleState.step] at hs
  split at hs
  · simp at hs
  cases a with
  | lock t l =>
    simp only at hs
    split at hs <;> simp only [Option.some.injEq, reduceCtorEq] at hs
    exact hs ▸ hquiet rfl
  | trylock t l =>
    -- outside a transaction `trylock` does not return, so only the abort is left
    have hd : (s.thread t).depth ≠ 0 := hno
    simp only [HleState.events, if_pos hd] at hs ⊢
    split at hs <;> simp only [Option.some.injEq, reduceCtorEq] at hs
    exact hs ▸ hquiet (rollback_owned ..)
  | unlock t l =>
    simp only [HleState.events] at hs ⊢
    split at hs
    · split at hs <;> rename_i hd <;> simp only [Option.some.injEq] at hs <;> subst hs
      · rw [if_pos hd]
        -- the unlock of an elided lock commits: the words the thread owns stay
        exact hquiet (htmEnd_owned _)
      · rw [if_neg hd]
        have hmem : ∀ k, k ∈ (s.thread t).owned.erase l ↔ k ∈ (s.thread t).owned ∧ k ≠ l := by
          intro k
          rw [(h.thread t).owned_nodup.mem_erase_iff, and_comm]
        -- the word is cleared, and the thread loses it to nobody
        refine .unlocks (fun k => ?_) (fun k => ?_) rfl rfl
        · simp [HleThread.view, HleState.setThread, HleAct.tid, hmem]
        · simp [HleThread.view, HleState.setThread, HleAct.tid, hmem]
    · simp at hs
  | run t =>
    simp only [HleState.runStep] at hs
    simp only [HleState.events]
    cases hpc : (s.thread t).pc with
    | out | enterHtm l tries => simp [hpc] at hs
    | check l =>
      simp only [hpc] at hs
      split at hs <;> simp only [Option.some.injEq] at hs <;> subst hs <;> exact hquiet rfl
    | hang l =>
      simp only [hpc, Option.some.injEq] at hs
      subst hs
      exact .quiet (fun _ => Iff.rfl) (fun _ => Iff.rfl) rfl rfl
    | testRead l =>
      simp only [hpc] at hs
      split at hs <;> simp only [Option.some.injEq] at hs <;> subst hs
      · exact .quiet (fun _ => Iff.rfl) (fun _ => Iff.rfl) rfl rfl
      · exact hquiet rfl
    | testSwap l =>
      simp only [hpc] at hs ⊢
      split at hs <;> rename_i hv <;> simp only [Option.some.injEq] at hs <;> subst hs
      · rw [if_pos hv]
        refine .quiet (fun k => ?_) (fun k => ?_) rfl rfl
        · simp [HleThread.view, HleState.setThread, HleAct.tid]
        · simp [HleThread.view, HleState.setThread, HleAct.tid]
      · rw [if_neg hv]
        -- the exchange has read 0: the thread owns the word from here on
        refine .locks (fun k => ?_) (fun k => ?_) rfl rfl
        · simp [HleThread.view, HleState.setThread, HleAct.tid, or_comm]
        · simp [HleThread.view, HleState.setThread, HleAct.tid, or_comm]
  | htmStart t =>
    simp only at hs
    split at hs <;> simp only [Option.some.injEq, reduceCtorEq] at hs
    exact hs ▸ hquiet (htmBegin_owned ..)
  | htmAbort t =>
    simp only at hs
    split at hs
    · simp only [Option.some.injEq] at hs
      exact hs ▸ hquiet (rollback_owned ..)
    · split at hs <;> simp only [Option.some.injEq, reduceCtorEq] at hs
      exact hs ▸ hquiet (htmFailed_owned ..)

theorem hle_inv {tr} (h : (tasHle Tid Lid cfg).Run HleTruthful tr s) : HleInv s :=
  h.invariant hleInv_init fun _ _ _ hi hc hs => hi.step hc.1 hs

/-- Without its trylock `tas_hle` tells no two threads that they hold a lock, as long as the
    unlocks are ordered. -/
theorem hle_trylockRep (cfg : TmParams) :
    TrylockRep (hleView Tid Lid cfg) HleTruthful 0
      fun (s : HleState Tid Lid) t => HleThread.view (s.thread t) where
  init s hs t l := by
    obtain rfl : s = ⟨fun _ => 0, fun _ => {}, false⟩ := hs
    exact ⟨List.not_mem_nil, List.not_mem_nil⟩
  exclusive tr s h t u l := (hle_inv h).unique l t u
  told tr s h t l := id
  enabled tr s h t ht := absurd rfl ht
  frame tr s h a s' (hs : HleState.step cfg s a = some s') u hu := by
    have hview := HleState.view_frame hs hu
    exact hview
  step tr s h a s' hc hs := (hle_inv h).lockStep hc.2 hs

end Step

end TxLock.Spec
