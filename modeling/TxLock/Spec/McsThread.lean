import Mathlib.Data.List.Find
import Mathlib.Data.List.Nodup
import TxLock.Spec.McsPool
import TxLock.Spec.McsQueue

/-!
# The threads that use MCS locks

`McsThreadOk`: the used nodes of a thread are those of the locks it has and the one it
is working on, each with the right lock in its field `lock`; the node it is filling in is
the first of its free nodes. With it every step of the code is a step of the abstract view
(`McsState.view_step`).
-/

namespace TxLock.Spec

open Native McsView

variable {Tid Lid : Type}

/-- Which node a thread works on, and whether it is still one of its free nodes. -/
inductive McsPlace (Lid : Type) where
  | out
  /-- Before the field `lock` of the node is written. -/
  | first (lk : Lid) (tryLock : Bool) (n : Nat)
  | fresh (lk : Lid) (tryLock : Bool) (n : Nat)
  | busy (lk : Lid) (n : Nat)

def McsPc.place : McsPc Tid Lid → McsPlace Lid
  | .out => .out
  | .initLockNext lk b n => .first lk b n
  | .initWait lk b n | .initSpeculate lk b n | .initCnt lk b n => .fresh lk b n
  | .swapTail lk n => .fresh lk false n
  | .casTail lk n => .fresh lk true n
  | .link lk n _ | .spinWait lk n | .spinCnt lk n _ | .readCnt lk n _ | .writeCnt lk n _
  | .readServing lk n _ | .htmBegin lk n _ | .checkSpeculate lk n _ | .checkWait lk n _
  | .speculating lk n _ | .spinWaitTm lk n _ | .assertServing lk n _ | .writeServing lk n _
  | .firstRead lk n | .firstWriteCnt lk n _ | .firstReadAgain lk n | .firstWrite lk n _
  | .readNext lk n | .clearTail lk n | .spinNext lk n | .haltFirst lk n | .haltAt lk n _ _
  | .haltNext lk n _ _ | .readSuccessor lk n | .clearWait lk n _ | .dealloc lk n => .busy lk n

/-- The lists of a pool fit the node at hand and the locks the thread has. It may try a lock
    that it has. -/
def McsPlace.Fits (pool : McsPool Lid) (held : List (Lid × Nat)) (free used : List Nat) :
    McsPlace Lid → Prop
  | .out => used.Perm (held.map Prod.snd)
  | .first lk b n => (b = false → lk ∉ held.map Prod.fst) ∧ free.head? = some n ∧
      used.Perm (held.map Prod.snd)
  | .fresh lk b n => (b = false → lk ∉ held.map Prod.fst) ∧ pool.lock n = some lk ∧
      free.head? = some n ∧ used.Perm (held.map Prod.snd)
  | .busy lk n => lk ∉ held.map Prod.fst ∧ pool.lock n = some lk ∧
      used.Perm (n :: held.map Prod.snd)

/-- The nodes of a thread. -/
structure McsThreadOk (place : McsPlace Lid) (pool : McsPool Lid) (held : List (Lid × Nat)) :
    Prop where
  nodup : (held.map Prod.fst).Nodup
  lock : ∀ h ∈ held, pool.lock h.2 = some h.1
  pool : ∃ free used, PoolRep pool free used ∧ place.Fits pool held free used

namespace McsThreadOk

variable {pool : McsPool Lid} {held : List (Lid × Nat)} {lk : Lid} {b : Bool} {n : Nat}

theorem init : McsThreadOk .out ({} : McsPool Lid) [] :=
  ⟨List.nodup_nil, by simp, [], [], PoolRep.init, .refl _⟩

/-- A node that is not used is not the node of a lock the thread has. -/
theorem not_held_of_free {place : McsPlace Lid} (h : McsThreadOk place pool held)
    (hp : place = .first lk b n ∨ place = .fresh lk b n) : n ∉ held.map Prod.snd := by
  obtain ⟨free, used, hrep, hfits⟩ := h.pool
  have hhead : free.head? = some n ∧ used.Perm (held.map Prod.snd) := by
    rcases hp with rfl | rfl
    · exact hfits.2
    · exact hfits.2.2
  exact fun hn => hrep.disjoint (List.mem_of_head? hhead.1) (hhead.2.mem_iff.mpr hn)

theorem not_held_of_busy (h : McsThreadOk (.busy lk n) pool held) : n ∉ held.map Prod.snd := by
  obtain ⟨free, used, hrep, -, -, hperm⟩ := h.pool
  have hnodup := (List.nodup_append.mp hrep.nodup).2.1
  exact (List.nodup_cons.mp (hperm.nodup_iff.mp hnodup)).1

/-- A call of `lock` takes the first free node. -/
theorem call (h : McsThreadOk .out pool held) (hlk : b = false → lk ∉ held.map Prod.fst) :
    McsThreadOk (.first lk b pool.getFreeNode.2) pool.getFreeNode.1 held := by
  obtain ⟨free, used, hrep, hperm⟩ := h.pool
  obtain ⟨rest, hrep', hlock⟩ := hrep.getFreeNode
  refine ⟨h.nodup, fun x hx => ?_, _, _, hrep', hlk, rfl, hperm⟩
  rw [hlock x.2 (hperm.mem_iff.mpr (List.mem_map_of_mem hx))]
  exact h.lock x hx

theorem setLock (h : McsThreadOk (.first lk b n) pool held) :
    McsThreadOk (.fresh lk b n) (pool.setLock n lk) held := by
  have hn := h.not_held_of_free (.inl rfl)
  obtain ⟨free, used, hrep, hlk, hhead, hperm⟩ := h.pool
  refine ⟨h.nodup, fun x hx => ?_, _, _, hrep.setLock n lk, hlk, Function.update_self .., hhead,
    hperm⟩
  have hxn : x.2 ≠ n := fun e => hn (e ▸ List.mem_map_of_mem hx)
  simp only [McsPool.setLock, Function.update_of_ne hxn]
  exact h.lock x hx

theorem giveUp (h : McsThreadOk (.fresh lk b n) pool held) : McsThreadOk .out pool held := by
  obtain ⟨free, used, hrep, -, -, -, hperm⟩ := h.pool
  exact ⟨h.nodup, h.lock, free, used, hrep, hperm⟩

theorem useNode (h : McsThreadOk (.fresh lk b n) pool held) (hlk : lk ∉ held.map Prod.fst) :
    McsThreadOk (.busy lk n) (pool.useNode n) held := by
  obtain ⟨free, used, hrep, -, hlock, hhead, hperm⟩ := h.pool
  obtain ⟨rest, rfl⟩ := List.head?_eq_some_iff.mp hhead
  exact ⟨h.nodup, h.lock, rest, n :: used, hrep.useNode, hlk, hlock, hperm.cons n⟩

theorem acquired (h : McsThreadOk (.busy lk n) pool held) :
    McsThreadOk .out pool ((lk, n) :: held) := by
  obtain ⟨free, used, hrep, hlk, hlock, hperm⟩ := h.pool
  refine ⟨List.nodup_cons.mpr ⟨hlk, h.nodup⟩, fun x hx => ?_, free, used, hrep, hperm⟩
  rcases List.mem_cons.mp hx with rfl | hx
  · exact hlock
  · exact h.lock x hx

theorem deallocNode (h : McsThreadOk (.busy lk n) pool held) :
    McsThreadOk .out (pool.deallocNode n) held := by
  obtain ⟨free, used, hrep, -, -, hperm⟩ := h.pool
  obtain ⟨a, b, rfl⟩ := List.append_of_mem (hperm.mem_iff.mpr (List.mem_cons_self ..))
  refine ⟨h.nodup, h.lock, _, _, hrep.deallocNode, ?_⟩
  have hmid : (n :: (a ++ b)).Perm (n :: held.map Prod.snd) := List.perm_middle.symm.trans hperm
  exact hmid.cons_inv

variable [DecidableEq Lid]

/-- The node of a lock the thread has is found, and only one has that lock. -/
theorem findNode (h : McsThreadOk .out pool held) (hlk : lk ∈ held.map Prod.fst) :
    ∃ n, pool.findNode lk = some n ∧ (lk, n) ∈ held ∧ ∀ x ∈ held, x.1 = lk ↔ x.2 = n := by
  obtain ⟨free, used, hrep, hperm⟩ := h.pool
  obtain ⟨⟨lk', n⟩, hn, rfl⟩ := List.mem_map.mp hlk
  have hnodup := (List.nodup_append.mp hrep.nodup).2.1
  -- nodes and locks of the list determine each other
  have hnode : ∀ x ∈ held, x.2 = n → x.1 = lk' := fun x hx hxn => by
    have hx' := h.lock x hx
    rw [hxn, h.lock _ hn] at hx'
    exact (Option.some.inj hx').symm
  have hlock : ∀ x ∈ held, x.1 = lk' → x.2 = n := fun x hx hxl =>
    congrArg Prod.snd (List.inj_on_of_nodup_map h.nodup hx hn hxl)
  refine ⟨n, ?_, hn, fun x hx => ⟨hlock x hx, hnode x hx⟩⟩
  rw [hrep.findNode_eq]
  cases hf : used.find? (fun i => pool.lock i = some lk') with
  | none =>
    have hnone := List.find?_eq_none.mp hf n
      (hperm.mem_iff.mpr (List.mem_map.mpr ⟨(lk', n), hn, rfl⟩))
    simp [h.lock _ hn] at hnone
  | some i =>
    have hi := List.find?_some hf
    obtain ⟨x, hx, rfl⟩ := List.mem_map.mp (hperm.mem_iff.mp (List.mem_of_find?_eq_some hf))
    have hxl : x.1 = lk' := by simpa [h.lock x hx] using hi
    rw [hlock x hx hxl]

/-- A call of `unlock` takes up the node of the lock. -/
theorem unlock (h : McsThreadOk .out pool held) (hn : (lk, n) ∈ held) :
    McsThreadOk (.busy lk n) pool (held.filter fun x => x.1 ≠ lk) := by
  obtain ⟨free, used, hrep, hperm⟩ := h.pool
  have hsub : ∀ x ∈ held.filter (fun x => x.1 ≠ lk), x ∈ held := fun x hx => List.mem_of_mem_filter hx
  refine ⟨h.nodup.sublist (List.filter_sublist.map _), fun x hx => h.lock x (hsub x hx), free, used,
    hrep, ?_, h.lock _ hn, ?_⟩
  · rw [List.mem_map]
    rintro ⟨x, hx, rfl⟩
    simpa using List.of_mem_filter hx
  · obtain ⟨a, b, rfl⟩ := List.append_of_mem hn
    have hnodup := h.nodup
    simp only [List.map_append, List.map_cons, List.nodup_append, List.nodup_cons] at hnodup
    obtain ⟨-, ⟨hb, -⟩, hab⟩ := hnodup
    have ha : a.filter (fun x => x.1 ≠ lk) = a := by
      refine List.filter_eq_self.mpr fun x hx => ?_
      have hne := hab x.1 (List.mem_map_of_mem hx) lk (List.mem_cons_self ..)
      simpa using hne
    have hb' : b.filter (fun x => x.1 ≠ lk) = b := by
      refine List.filter_eq_self.mpr fun x hx => ?_
      have hne : x.1 ≠ lk := fun e => hb (e ▸ List.mem_map_of_mem hx)
      simpa using hne
    rw [List.filter_append, List.filter_cons_of_neg (by simp), ha, hb']
    have hperm' : used.Perm ((a ++ (lk, n) :: b).map Prod.snd) := hperm
    rw [List.map_append, List.map_cons] at hperm'
    rw [List.map_append]
    exact hperm'.trans List.perm_middle

end McsThreadOk

/-- The thread that takes a step. -/
def McsAct.tid : McsAct Tid Lid → Tid
  | .lock t _ | .trylock t _ | .unlock t _ | .run t | .htmStart t | .htmAbort t => t

/-! ## How far the nodes of a thread are -/

theorem heldRole_eq_free {held : List (Lid × Nat)} {n : Nat} (h : n ∉ held.map Prod.snd) :
    (heldRole held n : McsRole Tid Lid) = .free := by
  have hnone : held.find? (fun x => x.2 = n) = none := by
    rw [List.find?_eq_none]
    intro x hx
    have hne : x.2 ≠ n := fun e => h (e ▸ List.mem_map_of_mem hx)
    simpa using hne
  simp only [heldRole, hnone]

theorem heldRole_cons_self (lk : Lid) (n : Nat) (held : List (Lid × Nat)) :
    (heldRole ((lk, n) :: held) n : McsRole Tid Lid) = .queued lk .holds := by
  simp [heldRole]

theorem heldRole_cons_ne {lk : Lid} {n i : Nat} {held : List (Lid × Nat)} (h : i ≠ n) :
    (heldRole ((lk, n) :: held) i : McsRole Tid Lid) = heldRole held i := by
  simp [heldRole, h.symm]

/-- The nodes of a thread that are not at hand. -/
theorem McsThread.role_ne {th : McsThread Tid Lid} {mine i : Nat}
    (h : ∀ p, McsPc.role? th.pc = some p → p.1 = mine) (hi : i ≠ mine) :
    McsThread.role th i = heldRole th.held i := by
  unfold McsThread.role
  cases hp : McsPc.role? th.pc with
  | none => rfl
  | some p =>
    obtain ⟨n, r⟩ := p
    obtain rfl : n = mine := h _ hp
    simp only [hi, if_false]

theorem McsThread.role_congr {th th' : McsThread Tid Lid} {mine i : Nat}
    (h : ∀ p, McsPc.role? th.pc = some p → p.1 = mine)
    (h' : ∀ p, McsPc.role? th'.pc = some p → p.1 = mine) (hheld : th'.held = th.held)
    (hi : i ≠ mine) : McsThread.role th' i = McsThread.role th i := by
  rw [McsThread.role_ne h' hi, McsThread.role_ne h hi, hheld]

theorem McsThread.role_self {th : McsThread Tid Lid} {mine : Nat} {r : McsRole Tid Lid}
    (h : McsPc.role? th.pc = some (mine, r)) : McsThread.role th mine = r := by
  simp only [McsThread.role, h, if_true]

theorem McsThread.role_out {th : McsThread Tid Lid} (h : McsPc.role? th.pc = none) (n : Nat) :
    McsThread.role th n = heldRole th.held n := by
  simp only [McsThread.role, h]

/-- A thread without the lock, by its list. -/
theorem heldRole_queued {held : List (Lid × Nat)} {n : Nat} {lk : Lid} {r : QueueRole Tid}
    (h : heldRole held n = .queued lk r) : (lk, n) ∈ held ∧ r = .holds := by
  unfold heldRole at h
  cases hf : held.find? (fun x => x.2 = n) with
  | none => simp [hf] at h
  | some x =>
    simp only [hf, McsRole.queued.injEq] at h
    obtain ⟨rfl, rfl⟩ := h
    have hx := List.find?_some hf
    obtain rfl : x.2 = n := by simpa using hx
    exact ⟨List.mem_of_find?_eq_some hf, rfl⟩

namespace McsState

/-- A node that is neither free nor held is the one at hand. -/
theorem role?_of_view {s : McsState Tid Lid} {t : Tid} {i : Nat} {r : McsRole Tid Lid}
    (h : (McsState.view s).role (t, i) = r) (hfree : r ≠ .free)
    (hholds : ∀ lk, r ≠ .queued lk .holds) : McsPc.role? (s.thread t).pc = some (i, r) := by
  have hrole : McsThread.role (s.thread t) i = r := h
  have hheld : heldRole (s.thread t).held i ≠ r := by
    unfold heldRole
    split
    · exact (hholds _).symm
    · exact hfree.symm
  cases hp : McsPc.role? (s.thread t).pc with
  | none => exact absurd ((McsThread.role_out hp i).symm.trans hrole) hheld
  | some p =>
    obtain ⟨n, r'⟩ := p
    by_cases hi : i = n
    · subst hi
      rw [McsThread.role_self hp] at hrole
      rw [hrole]
    · have hne : McsThread.role (s.thread t) i = heldRole (s.thread t).held i :=
        McsThread.role_ne (by simp [hp]) hi
      exact absurd (hne.symm.trans hrole) hheld

variable [DecidableEq Tid] {s s' : McsState Tid Lid} {t : Tid} {mine : Nat}

/-- A thread that moves changes the role of one node at most. -/
theorem view_setThread {th : McsThread Tid Lid} (mine : Nat)
    (h : ∀ i, i ≠ mine → McsThread.role th i = McsThread.role (s.thread t) i) :
    McsState.view (s.setThread t th) =
      (McsState.view s).setRole (t, mine) (McsThread.role th mine) := by
  have hrole : (McsState.view (s.setThread t th)).role =
      Function.update (McsState.view s).role (t, mine) (McsThread.role th mine) := by
    funext n
    obtain ⟨u, i⟩ := n
    by_cases hu : u = t
    · subst hu
      by_cases hi : i = mine
      · subst hi
        simp [McsState.view, McsState.setThread]
      · have hne : (u, i) ≠ (u, mine) := fun e => hi (Prod.mk.inj e).2
        rw [Function.update_of_ne hne]
        simp [McsState.view, McsState.setThread, h i hi]
    · have hne : (u, i) ≠ (t, mine) := fun e => hu (Prod.mk.inj e).1
      rw [Function.update_of_ne hne]
      simp [McsState.view, McsState.setThread, hu]
  show McsView.mk _ _ _ = McsView.mk _ _ _
  rw [McsView.mk.injEq]
  exact ⟨rfl, rfl, hrole⟩

/-- The thread goes on with the same node. -/
theorem view_goto {pc : McsPc Tid Lid} {r r' : McsRole Tid Lid}
    (hpc : McsPc.role? (s.thread t).pc = some (mine, r)) (hpc' : McsPc.role? pc = some (mine, r')) :
    McsState.view (s.goto t pc) = (McsState.view s).setRole (t, mine) r' := by
  unfold McsState.goto
  rw [view_setThread mine fun i hi => ?_]
  · rw [McsThread.role_self hpc']
  · exact McsThread.role_congr (by simp [hpc]) (by simp [hpc']) rfl hi

/-- The thread goes on with the same node, which is as far as before. -/
theorem view_goto_same {pc : McsPc Tid Lid} {r : McsRole Tid Lid}
    (hpc : McsPc.role? (s.thread t).pc = some (mine, r)) (hpc' : McsPc.role? pc = some (mine, r)) :
    McsState.view (s.goto t pc) = McsState.view s := by
  rw [view_goto hpc hpc']
  exact McsView.setRole_eq_self (McsThread.role_self hpc)

variable [DecidableEq Lid] {lk : Lid}

theorem view_acquired (h : ∀ p, McsPc.role? (s.thread t).pc = some p → p.1 = mine) :
    McsState.view (s.acquired t lk mine) = (McsState.view s).enter lk (t, mine) := by
  unfold McsState.acquired
  rw [view_setThread mine fun i hi => ?_]
  · rw [McsThread.role_out rfl, heldRole_cons_self]
    rfl
  · rw [McsThread.role_out rfl, heldRole_cons_ne hi]
    exact (McsThread.role_ne h hi).symm

theorem view_enqueued {pc : McsPc Tid Lid} {r : McsRole Tid Lid} {r' : QueueRole Tid}
    (hpc : McsPc.role? (s.thread t).pc = some (mine, r))
    (hpc' : McsPc.role? pc = some (mine, .queued lk r')) :
    McsState.view (s.enqueued t lk mine pc) = (McsState.view s).push lk (t, mine) r' := by
  unfold McsState.enqueued
  rw [view_setThread mine fun i hi => ?_]
  · rw [McsThread.role_self hpc']
    rfl
  · exact McsThread.role_congr (by simp [McsState.setLock, McsState.setNode, hpc])
      (by simp [hpc']) rfl hi

/-- Queued alone without `tm`, and the lock is there. -/
theorem view_enqueued_acquired {r : McsRole Tid Lid}
    (hpc : McsPc.role? (s.thread t).pc = some (mine, r)) :
    McsState.view ((s.enqueued t lk mine .out).acquired t lk mine) =
      ((McsState.view s).push lk (t, mine) .firstRead).enter lk (t, mine) := by
  have hout : ((s.enqueued t lk mine .out).thread t).pc = .out := by
    simp [McsState.enqueued, McsState.setThread]
  rw [view_acquired (by rw [hout]; simp [McsPc.role?])]
  unfold McsState.enqueued
  rw [view_setThread mine fun i hi => ?_]
  · simp only [McsView.push, McsView.enter, McsView.record, McsView.setRole, McsView.setLock,
      McsView.setNode, McsState.view, McsState.setLock, McsState.setNode, Function.update_idem]
  · exact McsThread.role_congr (by simp [McsState.setLock, McsState.setNode, hpc])
      (by simp [McsPc.role?]) rfl hi

/-- The swap of `tail`. -/
theorem view_enqueue {tm : Bool} (hpc : McsPc.role? (s.thread t).pc = some (mine, .fresh 4)) :
    McsStep tm (McsState.view s) (t, mine) (McsState.view (s.enqueue tm t lk mine)) := by
  have hrole : (McsState.view s).role (t, mine) = .fresh 4 := McsThread.role_self hpc
  have hlock : (McsState.view s).lock = s.lock := rfl
  unfold McsState.enqueue
  cases htail : (s.lock lk).tail with
  | some pred =>
    have hpush : (McsState.view s).pushRole lk = .linking pred := by
      simp only [McsView.pushRole, hlock, htail]
    rw [view_enqueued hpc rfl, ← hpush]
    exact .push hrole (by simp [hlock, htail])
  | none =>
    have hpush : (McsState.view s).pushRole lk = .firstRead := by
      simp only [McsView.pushRole, hlock, htail]
    cases tm with
    | true =>
      simp only [if_true]
      rw [view_enqueued hpc rfl, ← hpush]
      exact .push hrole fun _ => rfl
    | false =>
      simp only [Bool.false_eq_true, if_false]
      rw [view_enqueued_acquired hpc]
      exact .pushFirst hrole rfl (by rw [hlock, htail])

/-- The nodes of every thread. -/
def ThreadsOk (s : McsState Tid Lid) : Prop :=
  ∀ t, McsThreadOk (McsPc.place (s.thread t).pc) (s.thread t).pool (s.thread t).held

/-! ## The code refines the abstract view -/

/-- A step of `mcs_lock_common` is a step of the abstract view, or leaves it alone. -/
theorem view_runLock {cfg : TmParams} {tm : Bool}
    (hok : McsThreadOk (McsPc.place (s.thread t).pc) (s.thread t).pool (s.thread t).held)
    (hs : s.runLock cfg tm t = some s') :
    McsState.view s' = McsState.view s ∨
      ∃ n, McsStep tm (McsState.view s) (t, n) (McsState.view s') := by
  have hrole : ∀ {n r}, McsPc.role? (s.thread t).pc = some (n, r) →
      (McsState.view s).role (t, n) = r := fun h => McsThread.role_self h
  cases hpc : (s.thread t).pc with
  | out | htmBegin lk n c | speculating lk n c | readNext lk n | clearTail lk n | spinNext lk n
  | haltFirst lk n | haltAt lk n cur d | haltNext lk n cur d | readSuccessor lk n
  | clearWait lk n m | dealloc lk n => simp [McsState.runLock, hpc] at hs
  | initLockNext lk b n =>
    simp only [McsState.runLock, hpc, Option.some.injEq] at hs
    subst hs
    refine .inr ⟨n, ?_⟩
    rw [view_setThread n fun i hi => ?_]
    · rw [McsThread.role_self (r := .fresh 1) rfl]
      exact .initLockNext (hrole (by rw [hpc]; rfl))
    · exact McsThread.role_congr (by simp [McsState.setNode, hpc, McsPc.role?])
        (by simp [McsPc.role?]) rfl hi
  | initWait lk b n =>
    simp only [McsState.runLock, hpc, Option.some.injEq] at hs
    subst hs
    rw [view_goto (r := .fresh 1) (by simp [McsState.setNode, hpc, McsPc.role?]) rfl]
    exact .inr ⟨n, .initWait (hrole (by rw [hpc]; rfl))⟩
  | initSpeculate lk b n =>
    simp only [McsState.runLock, hpc, Option.some.injEq] at hs
    subst hs
    rw [view_goto (r := .fresh 2) (by simp [McsState.setNode, hpc, McsPc.role?]) rfl]
    exact .inr ⟨n, .initSpeculate (hrole (by rw [hpc]; rfl))⟩
  | initCnt lk b n =>
    simp only [McsState.runLock, hpc, Option.some.injEq] at hs
    subst hs
    have hrole' : McsPc.role? (if b then .casTail lk n else .swapTail lk n : McsPc Tid Lid) =
        some (n, .fresh 4) := by cases b <;> rfl
    rw [view_goto (r := .fresh 3) (by simp [McsState.setNode, hpc, McsPc.role?]) hrole']
    exact .inr ⟨n, .initCnt (hrole (by rw [hpc]; rfl))⟩
  | swapTail lk n =>
    simp only [McsState.runLock, hpc, Option.some.injEq] at hs
    subst hs
    exact .inr ⟨n, view_enqueue (by rw [hpc]; rfl)⟩
  | casTail lk n =>
    simp only [McsState.runLock, hpc] at hs
    split at hs <;> simp only [Option.some.injEq] at hs <;> subst hs
    · exact .inr ⟨n, view_enqueue (by rw [hpc]; rfl)⟩
    · -- the node goes back to the free ones
      rw [hpc] at hok
      have hfree : (heldRole (s.thread t).held n : McsRole Tid Lid) = .free :=
        heldRole_eq_free (hok.not_held_of_free (.inr rfl))
      refine .inr ⟨n, ?_⟩
      rw [view_setThread n fun i hi => ?_]
      · rw [McsThread.role_out rfl, hfree]
        exact .giveUp (hrole (by rw [hpc]; rfl))
      · exact McsThread.role_congr (by simp [hpc, McsPc.role?]) (by simp [McsPc.role?]) rfl hi
  | link lk n p =>
    simp only [McsState.runLock, hpc, Option.some.injEq] at hs
    subst hs
    have hrole' : McsPc.role? (if tm then .spinCnt lk n p else .spinWait lk n : McsPc Tid Lid) =
        some (n, .queued lk (if tm then .counting p else .waiting none)) := by cases tm <;> rfl
    rw [view_goto (r := .queued lk (.linking p)) (by simp [McsState.setNode, hpc, McsPc.role?])
      hrole']
    exact .inr ⟨n, .link (hrole (by rw [hpc]; rfl))⟩
  | spinWait lk n =>
    simp only [McsState.runLock, hpc] at hs
    split at hs <;> rename_i hwait <;> simp only [Option.some.injEq] at hs <;> subst hs
    · exact .inl rfl
    · rw [view_acquired (by simp [hpc, McsPc.role?])]
      exact .inr ⟨n, .wakeHolds (hrole (by rw [hpc]; rfl)) (eq_false_of_ne_true hwait)⟩
  | spinCnt lk n p =>
    simp only [McsState.runLock, hpc] at hs
    split at hs <;> rename_i hcnt <;> simp only [Option.some.injEq] at hs <;> subst hs
    · exact .inl rfl
    · rw [view_goto (by rw [hpc]; rfl) rfl]
      exact .inr ⟨n, .see (hrole (by rw [hpc]; rfl)) hcnt⟩
  | readCnt lk n p =>
    simp only [McsState.runLock, hpc, Option.some.injEq] at hs
    subst hs
    rw [view_goto (by rw [hpc]; rfl) rfl]
    exact .inr ⟨n, .read (hrole (by rw [hpc]; rfl))⟩
  | writeCnt lk n c =>
    simp only [McsState.runLock, hpc, Option.some.injEq] at hs
    subst hs
    rw [view_goto (r := .queued lk (.counted c))
      (by simp [McsState.giveCnt, McsState.record, McsState.setNode, McsState.setLock, hpc,
        McsPc.role?]) rfl]
    exact .inr ⟨n, .give (hrole (by rw [hpc]; rfl))⟩
  | readServing lk n c =>
    simp only [McsState.runLock, hpc] at hs
    split at hs <;> simp only [Option.some.injEq] at hs <;> subst hs <;>
      exact .inl (view_goto_same (by rw [hpc]; rfl) rfl)
  | checkSpeculate lk n c =>
    simp only [McsState.runLock, hpc] at hs
    split at hs <;> simp only [Option.some.injEq] at hs <;> subst hs <;>
      exact .inl (view_goto_same (by rw [hpc]; rfl) rfl)
  | checkWait lk n c =>
    simp only [McsState.runLock, hpc] at hs
    split at hs <;> simp only [Option.some.injEq] at hs <;> subst hs
    · left
      rw [view_setThread n fun i hi => ?_]
      · rw [McsThread.role_self (r := .queued lk (.waiting (some c))) rfl]
        exact McsView.setRole_eq_self (hrole (by rw [hpc]; rfl))
      · exact McsThread.role_congr (by simp [hpc, McsPc.role?]) (by simp [McsPc.role?]) rfl hi
    · exact .inl (view_goto_same (by rw [hpc]; rfl) rfl)
  | spinWaitTm lk n c =>
    simp only [McsState.runLock, hpc] at hs
    split at hs <;> rename_i hwait <;> simp only [Option.some.injEq] at hs <;> subst hs
    · exact .inl rfl
    · rw [view_goto (by rw [hpc]; rfl) rfl]
      exact .inr ⟨n, .wake (hrole (by rw [hpc]; rfl)) (eq_false_of_ne_true hwait)⟩
  | assertServing lk n c =>
    simp only [McsState.runLock, hpc] at hs
    split at hs <;> simp only [Option.some.injEq] at hs <;> subst hs
    · exact .inl (view_goto_same (by rw [hpc]; rfl) rfl)
    · exact .inl rfl
  | writeServing lk n c =>
    simp only [McsState.runLock, hpc, Option.some.injEq] at hs
    subst hs
    rw [view_acquired (by simp [McsState.setLock, hpc, McsPc.role?])]
    exact .inr ⟨n, .serve (hrole (by rw [hpc]; rfl))⟩
  | firstRead lk n =>
    simp only [McsState.runLock, hpc, Option.some.injEq] at hs
    subst hs
    rw [view_goto (by rw [hpc]; rfl) rfl]
    exact .inr ⟨n, .firstRead (hrole (by rw [hpc]; rfl))⟩
  | firstWriteCnt lk n c =>
    simp only [McsState.runLock, hpc, Option.some.injEq] at hs
    subst hs
    rw [view_goto (r := .queued lk (.firstGive c))
      (by simp [McsState.giveCnt, McsState.record, McsState.setNode, McsState.setLock, hpc,
        McsPc.role?]) rfl]
    exact .inr ⟨n, .firstGive (hrole (by rw [hpc]; rfl))⟩
  | firstReadAgain lk n =>
    simp only [McsState.runLock, hpc, Option.some.injEq] at hs
    subst hs
    rw [view_goto (by rw [hpc]; rfl) rfl]
    exact .inr ⟨n, .firstAgain (hrole (by rw [hpc]; rfl))⟩
  | firstWrite lk n now =>
    simp only [McsState.runLock, hpc, Option.some.injEq] at hs
    subst hs
    rw [view_acquired (by simp [McsState.setLock, hpc, McsPc.role?])]
    exact .inr ⟨n, .firstServe (hrole (by rw [hpc]; rfl))⟩

/-- A step of `mcs_unlock_common`, likewise. -/
theorem view_runUnlock {cfg : TmParams} {tm : Bool}
    (hok : McsThreadOk (McsPc.place (s.thread t).pc) (s.thread t).pool (s.thread t).held)
    (hs : s.runUnlock cfg tm t = some s') :
    McsState.view s' = McsState.view s ∨
      ∃ n, McsStep tm (McsState.view s) (t, n) (McsState.view s') := by
  have hrole : ∀ {n r}, McsPc.role? (s.thread t).pc = some (n, r) →
      (McsState.view s).role (t, n) = r := fun h => McsThread.role_self h
  -- both types pass the lock on, but only `mcs_tm` stops speculators first
  have hhand : ∀ lk n, McsPc.role? (if tm then .haltFirst lk n else .readSuccessor lk n :
      McsPc Tid Lid) = some (n, .queued lk .handing) := fun lk n => by cases tm <;> rfl
  cases hpc : (s.thread t).pc with
  | out | initLockNext lk b n | initWait lk b n | initSpeculate lk b n | initCnt lk b n
  | swapTail lk n | casTail lk n | link lk n p | spinWait lk n | spinCnt lk n p | readCnt lk n p
  | writeCnt lk n c | readServing lk n c | htmBegin lk n c | checkSpeculate lk n c
  | checkWait lk n c | speculating lk n c | spinWaitTm lk n c | assertServing lk n c
  | writeServing lk n c | firstRead lk n | firstWriteCnt lk n c | firstReadAgain lk n
  | firstWrite lk n now => simp [McsState.runUnlock, hpc] at hs
  | readNext lk n =>
    simp only [McsState.runUnlock, hpc] at hs
    split at hs <;> rename_i hnext <;> simp only [Option.some.injEq] at hs <;> subst hs
    · exact .inl (view_goto_same (by rw [hpc]; rfl) rfl)
    · rw [view_goto (by rw [hpc]; rfl) (hhand lk n)]
      have hne : (s.node (t, n)).lockNext ≠ none := by simp [hnext]
      exact .inr ⟨n, .next (.inl (hrole (by rw [hpc]; rfl))) hne⟩
  | clearTail lk n =>
    simp only [McsState.runUnlock, hpc] at hs
    split at hs <;> rename_i htail <;> simp only [Option.some.injEq] at hs <;> subst hs
    · rw [view_goto (r := .queued lk .closing) (by simp [McsState.setLock, hpc, McsPc.role?]) rfl]
      have hstep : McsStep tm (McsState.view s) (t, n) _ :=
        .clearTail (hrole (by rw [hpc]; rfl)) htail
      simp only [McsView.pop, McsView.setLock, Function.update_idem, Function.update_self] at hstep
      exact .inr ⟨n, hstep⟩
    · rw [view_goto (by rw [hpc]; rfl) rfl]
      exact .inr ⟨n, .await (hrole (by rw [hpc]; rfl)) htail⟩
  | spinNext lk n =>
    simp only [McsState.runUnlock, hpc] at hs
    split at hs <;> rename_i hnext <;> simp only [Option.some.injEq] at hs <;> subst hs
    · exact .inl rfl
    · rw [view_goto (by rw [hpc]; rfl) (hhand lk n)]
      have hne : (s.node (t, n)).lockNext ≠ none := by simp [hnext]
      exact .inr ⟨n, .next (.inr (hrole (by rw [hpc]; rfl))) hne⟩
  -- the walk reads the queue, and changes nothing the view shows
  | haltFirst lk n =>
    simp only [McsState.runUnlock, hpc, Option.some.injEq] at hs
    subst hs
    exact .inl (view_goto_same (by rw [hpc]; rfl) rfl)
  | haltNext lk n x d =>
    simp only [McsState.runUnlock, hpc, Option.some.injEq] at hs
    subst hs
    exact .inl (view_goto_same (by rw [hpc]; rfl) rfl)
  | haltAt lk n x d =>
    cases x with
    | none =>
      simp only [McsState.runUnlock, hpc, Option.some.injEq] at hs
      subst hs
      exact .inl (view_goto_same (by rw [hpc]; rfl) rfl)
    | some x =>
      simp only [McsState.runUnlock, hpc] at hs
      -- stopping a speculator is a step of its own, the distance decides about the next
      have hgoto : ∀ s₁ : McsState Tid Lid, s₁.thread = s.thread → ∀ s₂,
          (if d > cfg.maxDistance then some (s₁.goto t (.readSuccessor lk n))
            else some (s₁.goto t (.haltNext lk n x d))) = some s₂ →
          McsState.view s₂ = McsState.view s₁ := by
        intro s₁ hth s₂ hs₂
        split at hs₂ <;> simp only [Option.some.injEq] at hs₂ <;> subst hs₂ <;>
          exact view_goto_same (by rw [hth, hpc]; rfl) rfl
      by_cases hd : d ≥ cfg.minDistance
      · rw [if_pos hd] at hs
        rw [hgoto (s.setNode x { s.node x with speculate := false }) rfl s' hs]
        exact .inr ⟨n, .halt x (hrole (by rw [hpc]; rfl))⟩
      · rw [if_neg hd] at hs
        exact .inl (hgoto s rfl s' hs)
  | readSuccessor lk n =>
    simp only [McsState.runUnlock, hpc] at hs
    split at hs <;> rename_i hnext <;> simp only [Option.some.injEq] at hs <;> subst hs
    · rw [view_goto (by rw [hpc]; rfl) rfl]
      exact .inr ⟨n, .successor (hrole (by rw [hpc]; rfl)) hnext⟩
    · exact .inl rfl
  | clearWait lk n m =>
    simp only [McsState.runUnlock, hpc, Option.some.injEq] at hs
    subst hs
    rw [view_goto (r := .queued lk (.clearing m))
      (by simp [McsState.setLock, McsState.setNode, hpc, McsPc.role?]) rfl]
    exact .inr ⟨n, .hand (hrole (by rw [hpc]; rfl))⟩
  -- the node goes back to the free list of the thread
  | dealloc lk n =>
    simp only [McsState.runUnlock, hpc, Option.some.injEq] at hs
    subst hs
    rw [hpc] at hok
    have hfree : (heldRole (s.thread t).held n : McsRole Tid Lid) = .free :=
      heldRole_eq_free hok.not_held_of_busy
    refine .inr ⟨n, ?_⟩
    rw [view_setThread n fun i hi => ?_]
    · rw [McsThread.role_out rfl, hfree]
      exact .drop (hrole (by rw [hpc]; rfl))
    · exact McsThread.role_congr (by simp [McsState.setNode, hpc, McsPc.role?])
        (by simp [McsPc.role?]) rfl hi

/-- A call takes up a node, or is not for the lock's code. -/
theorem view_callLock {lk : Lid} {b : Bool} {tm : Bool}
    (hok : McsThreadOk (McsPc.place (s.thread t).pc) (s.thread t).pool (s.thread t).held)
    (hs : s.callLock t lk b = some s') :
    McsState.view s' = McsState.view s ∨
      ∃ n, McsStep tm (McsState.view s) (t, n) (McsState.view s') := by
  simp only [McsState.callLock] at hs
  split at hs
  · rename_i hpc
    split at hs <;> simp only [Option.some.injEq, reduceCtorEq] at hs
    exact .inl (hs ▸ rfl)
  · rename_i hpc
    split at hs <;> simp only [Option.some.injEq, reduceCtorEq] at hs
    rename_i hlk
    subst hs
    rw [hpc] at hok
    -- the node is one of the free ones
    have hcall := hok.call (b := b) fun hb hmem => hlk ⟨hb, hmem⟩
    have hfree : (heldRole (s.thread t).held (s.thread t).pool.getFreeNode.2 : McsRole Tid Lid) =
        .free := heldRole_eq_free (hcall.not_held_of_free (.inl rfl))
    have hrole : (McsState.view s).role (t, (s.thread t).pool.getFreeNode.2) = .free := by
      show McsThread.role (s.thread t) _ = _
      rw [McsThread.role_out (by rw [hpc]; rfl), hfree]
    right
    refine ⟨(s.thread t).pool.getFreeNode.2, ?_⟩
    rw [view_setThread (s.thread t).pool.getFreeNode.2 fun i hi => ?_]
    · rw [McsThread.role_self (r := .fresh 0) rfl]
      exact .prepare hrole
    · exact McsThread.role_congr (by simp [hpc, McsPc.role?]) (by simp [McsPc.role?]) rfl hi
  · simp at hs

/-- The call of `unlock` takes up the node of the lock. -/
theorem view_callUnlock {lk : Lid} {tm : Bool}
    (hok : McsThreadOk (McsPc.place (s.thread t).pc) (s.thread t).pool (s.thread t).held)
    (hs : s.callUnlock t lk = some s') :
    McsState.view s' = McsState.view s ∨
      ∃ n, McsStep tm (McsState.view s) (t, n) (McsState.view s') := by
  simp only [McsState.callUnlock] at hs
  split at hs
  · split at hs <;> simp only [Option.some.injEq, reduceCtorEq] at hs
    exact .inl (hs ▸ rfl)
  · rename_i hpc
    split at hs
    · rename_i hlk
      rw [hpc] at hok
      obtain ⟨n, hfind, hn, hiff⟩ := hok.findNode hlk
      simp only [hfind, Option.some.injEq] at hs
      subst hs
      have hheld : (heldRole (s.thread t).held n : McsRole Tid Lid) = .queued lk .holds := by
        unfold heldRole
        cases hf : (s.thread t).held.find? (fun x => x.2 = n) with
        | none => simpa using List.find?_eq_none.mp hf _ hn
        | some x =>
          have hx : x.2 = n := by simpa using List.find?_some hf
          simp only [(hiff x (List.mem_of_find?_eq_some hf)).mpr hx]
      have hrole : (McsState.view s).role (t, n) = .queued lk .holds := by
        show McsThread.role (s.thread t) n = _
        rw [McsThread.role_out (by rw [hpc]; rfl), hheld]
      right
      refine ⟨n, ?_⟩
      rw [view_setThread n fun i hi => ?_]
      · rw [McsThread.role_self (r := .queued lk .closing) rfl]
        exact .close hrole
      · have hold : McsThread.role (s.thread t) i = heldRole (s.thread t).held i :=
          McsThread.role_ne (by simp [hpc, McsPc.role?]) hi
        rw [McsThread.role_ne (by simp [McsPc.role?]) hi, hold]
        -- only the entry of the node itself is taken out
        unfold heldRole
        rw [List.find?_filter]
        congr 1
        refine List.find?_congr fun x hx => ?_
        by_cases hxi : x.2 = i
        · have hxl : x.1 ≠ lk := fun e => hi (((hiff x hx).mp e) ▸ hxi.symm)
          simp [hxi, hxl]
        · simp [hxi]
    · simp at hs
  · simp at hs

/-- Every step of the system is a step of the abstract view at a node of the thread that
    takes it, or leaves the view alone. -/
theorem view_step {cfg : TmParams} {tm : Bool} {a : McsAct Tid Lid}
    (hok : ThreadsOk s) (hs : s.step cfg tm a = some s') :
    McsState.view s' = McsState.view s ∨
      ∃ n, McsStep tm (McsState.view s) (McsAct.tid a, n) (McsState.view s') := by
  simp only [McsState.step] at hs
  split at hs
  · simp at hs
  cases a with
  | lock t lk | trylock t lk => exact view_callLock (hok t) hs
  | unlock t lk => exact view_callUnlock (hok t) hs
  | run t =>
    rcases Option.or_eq_some_iff.mp hs with h | ⟨-, h⟩
    · exact view_runLock (hok t) h
    · exact view_runUnlock (hok t) h
  | htmStart t =>
    simp only at hs
    split at hs <;> simp only [Option.some.injEq, reduceCtorEq] at hs
    rename_i hpc
    subst hs
    exact .inl (view_goto_same (by rw [hpc]; rfl) rfl)
  | htmAbort t =>
    simp only [McsState.abortStep] at hs
    split at hs <;> simp only [Option.some.injEq, reduceCtorEq] at hs
    all_goals
      rename_i hpc
      subst hs
      exact .inl (view_goto_same (by rw [hpc]; rfl) rfl)

/-! ## Every step keeps the nodes of the threads in order -/

omit [DecidableEq Tid] [DecidableEq Lid] in
/-- The locks a thread has are the nodes that hold. -/
theorem ThreadsOk.held_iff (h : ThreadsOk s) :
    (lk, i) ∈ (s.thread t).held ↔ (McsState.view s).role (t, i) = .queued lk .holds := by
  have hok := h t
  have hview : (McsState.view s).role (t, i) = McsThread.role (s.thread t) i := rfl
  -- the node at hand is not one of them
  have hatHand : ∀ {n r}, McsPc.role? (s.thread t).pc = some (n, r) →
      n ∉ (s.thread t).held.map Prod.snd ∧ ∀ lk, r ≠ .queued lk .holds := by
    intro n r hr
    generalize (s.thread t).pc = pc at hr hok
    cases pc <;> simp only [McsPc.role?, Option.some.injEq, Prod.mk.injEq, reduceCtorEq] at hr <;>
      obtain ⟨rfl, rfl⟩ := hr <;> refine ⟨?_, by simp⟩
    case initLockNext => exact hok.not_held_of_free (.inl rfl)
    case initWait => exact hok.not_held_of_free (.inr rfl)
    case initSpeculate => exact hok.not_held_of_free (.inr rfl)
    case initCnt => exact hok.not_held_of_free (.inr rfl)
    case swapTail => exact hok.not_held_of_free (.inr rfl)
    case casTail => exact hok.not_held_of_free (.inr rfl)
    all_goals exact McsThreadOk.not_held_of_busy hok
  have hheld : (lk, i) ∈ (s.thread t).held ↔
      (heldRole (s.thread t).held i : McsRole Tid Lid) = .queued lk .holds := by
    refine ⟨fun hi => ?_, fun hi => (heldRole_queued hi).1⟩
    unfold heldRole
    cases hf : (s.thread t).held.find? (fun x => x.2 = i) with
    | none => simpa using List.find?_eq_none.mp hf _ hi
    | some x =>
      have hx : x.2 = i := by simpa using List.find?_some hf
      have hlock := hok.lock x (List.mem_of_find?_eq_some hf)
      rw [hx, hok.lock _ hi, Option.some.injEq] at hlock
      have hlk : x.1 = lk := hlock.symm
      simp only [hlk]
  rw [hview]
  cases hp : McsPc.role? (s.thread t).pc with
  | none => rw [McsThread.role_out hp, hheld]
  | some p =>
    obtain ⟨n, r⟩ := p
    obtain ⟨hn, hr⟩ := hatHand hp
    by_cases hi : i = n
    · subst hi
      rw [McsThread.role_self hp]
      refine ⟨fun hm => absurd (List.mem_map_of_mem hm) hn, fun he => absurd he (hr lk)⟩
    · rw [McsThread.role_ne (by simp [hp]) hi, hheld]

omit [DecidableEq Tid] [DecidableEq Lid] in
/-- The lock of an empty queue is not one that a thread has. -/
theorem ThreadsOk.not_held_of_free (h : ThreadsOk s) (hinv : McsInv (McsState.view s))
    (htail : (s.lock lk).tail = none) : lk ∉ (s.thread t).held.map Prod.fst := by
  intro hlk
  obtain ⟨⟨lk, i⟩, hi, rfl⟩ := List.mem_map.mp hlk
  have hmem := ((hinv.queue lk).mem (t, i)).mpr ⟨_, h.held_iff.mp hi⟩
  have hlast : ((McsState.view s).queue lk).getLast? = none := (hinv.queue lk).tail.symm.trans htail
  rw [List.getLast?_eq_none_iff.mp hlast] at hmem
  exact List.not_mem_nil hmem

omit [DecidableEq Lid] in
theorem ThreadsOk.setThread {s₁ : McsState Tid Lid} {th : McsThread Tid Lid} (h : ThreadsOk s)
    (hsame : s₁.thread = s.thread) (hth : McsThreadOk (McsPc.place th.pc) th.pool th.held) :
    ThreadsOk (s₁.setThread t th) := by
  intro u
  by_cases hu : u = t
  · subst hu
    simp only [McsState.setThread, Function.update_self]
    exact hth
  · simp only [McsState.setThread, Function.update_of_ne hu, hsame]
    exact h u

omit [DecidableEq Lid] in
theorem ThreadsOk.goto {s₁ : McsState Tid Lid} {pc : McsPc Tid Lid} (h : ThreadsOk s)
    (hsame : s₁.thread = s.thread) (hpc : McsPc.place pc = McsPc.place (s.thread t).pc) :
    ThreadsOk (s₁.goto t pc) := by
  refine h.setThread hsame ?_
  simp only [hsame, hpc]
  exact h t

omit [DecidableEq Tid] [DecidableEq Lid] in
/-- A state whose threads are the same. -/
theorem ThreadsOk.congr {s₁ : McsState Tid Lid} (h : ThreadsOk s)
    (hsame : s₁.thread = s.thread) : ThreadsOk s₁ := fun u => by
  rw [hsame]
  exact h u

theorem ThreadsOk.acquired {s₁ : McsState Tid Lid} (h : ThreadsOk s) (hsame : s₁.thread = s.thread)
    (hpc : McsPc.place (s.thread t).pc = .busy lk mine) : ThreadsOk (s₁.acquired t lk mine) := by
  have hok := h t
  rw [hpc] at hok
  refine h.setThread (by simpa [McsState.record, McsState.setLock] using hsame) ?_
  simp only [hsame]
  exact hok.acquired

theorem ThreadsOk.enqueue {tm : Bool} (h : ThreadsOk s)
    {b : Bool} (hpc : McsPc.place (s.thread t).pc = .fresh lk b mine)
    (hlk : lk ∉ (s.thread t).held.map Prod.fst) : ThreadsOk (s.enqueue tm t lk mine) := by
  have hok := h t
  rw [hpc] at hok
  have hbusy := hok.useNode hlk
  have hqueued : ∀ pc, McsPc.place pc = .busy lk mine → ThreadsOk (s.enqueued t lk mine pc) := by
    intro pc hp
    refine h.setThread rfl ?_
    simp only [hp]
    exact hbusy
  unfold McsState.enqueue
  split
  · exact hqueued _ rfl
  · split
    · exact hqueued _ rfl
    · intro u
      by_cases hu : u = t
      · subst hu
        simp only [McsState.acquired, McsState.record, McsState.enqueued, McsState.setThread,
          McsState.setLock, McsState.setNode, Function.update_self]
        exact hbusy.acquired
      · simp only [McsState.acquired, McsState.record, McsState.enqueued, McsState.setThread,
          McsState.setLock, McsState.setNode, Function.update_of_ne hu]
        exact h u

theorem ThreadsOk.runLock {cfg : TmParams} {tm : Bool} (h : ThreadsOk s)
    (hinv : McsInv (McsState.view s)) (hs : s.runLock cfg tm t = some s') : ThreadsOk s' := by
  have hok := h t
  cases hpc : (s.thread t).pc with
  | out | htmBegin lk n c | speculating lk n c | readNext lk n | clearTail lk n | spinNext lk n
  | haltFirst lk n | haltAt lk n cur d | haltNext lk n cur d | readSuccessor lk n
  | clearWait lk n m | dealloc lk n => simp [McsState.runLock, hpc] at hs
  | initLockNext lk b n =>
    simp only [McsState.runLock, hpc, Option.some.injEq] at hs
    subst hs
    rw [hpc] at hok
    exact h.setThread rfl hok.setLock
  | initCnt lk b n =>
    simp only [McsState.runLock, hpc, Option.some.injEq] at hs
    subst hs
    exact h.goto rfl (by rw [hpc]; cases b <;> rfl)
  | swapTail lk n =>
    simp only [McsState.runLock, hpc, Option.some.injEq] at hs
    subst hs
    rw [hpc] at hok
    -- `lock` is called only for a lock that the thread does not hold
    obtain ⟨-, -, -, hlk, -⟩ := hok.pool
    exact h.enqueue (by rw [hpc]; rfl) (hlk rfl)
  | casTail lk n =>
    simp only [McsState.runLock, hpc] at hs
    split at hs <;> rename_i htail <;> simp only [Option.some.injEq] at hs <;> subst hs
    · -- the tail is free, so the thread does not hold this lock
      exact h.enqueue (by rw [hpc]; rfl) (h.not_held_of_free hinv htail)
    · rw [hpc] at hok
      -- `trylock` gives its node back
      exact h.setThread rfl hok.giveUp
  | link lk n p =>
    simp only [McsState.runLock, hpc, Option.some.injEq] at hs
    subst hs
    exact h.goto rfl (by rw [hpc]; cases tm <;> rfl)
  | initWait lk b n | initSpeculate lk b n | readCnt lk n p | writeCnt lk n c | firstRead lk n
  | firstWriteCnt lk n c | firstReadAgain lk n =>
    simp only [McsState.runLock, hpc, Option.some.injEq] at hs
    subst hs
    exact h.goto rfl (by rw [hpc]; rfl)
  | spinCnt lk n p | readServing lk n c | checkSpeculate lk n c | spinWaitTm lk n c
  | assertServing lk n c =>
    simp only [McsState.runLock, hpc] at hs
    split at hs <;> simp only [Option.some.injEq] at hs <;> subst hs <;>
      first
        | exact h.goto rfl (by rw [hpc]; rfl)
        | exact h.congr rfl
  | checkWait lk n c =>
    simp only [McsState.runLock, hpc] at hs
    split at hs <;> simp only [Option.some.injEq] at hs <;> subst hs
    · rw [hpc] at hok
      exact h.setThread rfl hok
    · exact h.goto rfl (by rw [hpc]; rfl)
  | spinWait lk n =>
    simp only [McsState.runLock, hpc] at hs
    split at hs <;> simp only [Option.some.injEq] at hs <;> subst hs
    · exact h
    · exact h.acquired rfl (by rw [hpc]; rfl)
  | writeServing lk n c | firstWrite lk n c =>
    simp only [McsState.runLock, hpc, Option.some.injEq] at hs
    subst hs
    exact h.acquired rfl (by rw [hpc]; rfl)

theorem ThreadsOk.runUnlock {cfg : TmParams} {tm : Bool} (h : ThreadsOk s)
    (hs : s.runUnlock cfg tm t = some s') : ThreadsOk s' := by
  have hok := h t
  cases hpc : (s.thread t).pc with
  | out | initLockNext lk b n | initWait lk b n | initSpeculate lk b n | initCnt lk b n
  | swapTail lk n | casTail lk n | link lk n p | spinWait lk n | spinCnt lk n p | readCnt lk n p
  | writeCnt lk n c | readServing lk n c | htmBegin lk n c | checkSpeculate lk n c
  | checkWait lk n c | speculating lk n c | spinWaitTm lk n c | assertServing lk n c
  | writeServing lk n c | firstRead lk n | firstWriteCnt lk n c | firstReadAgain lk n
  | firstWrite lk n now => simp [McsState.runUnlock, hpc] at hs
  | readNext lk n | spinNext lk n =>
    simp only [McsState.runUnlock, hpc] at hs
    split at hs <;> simp only [Option.some.injEq] at hs <;> subst hs <;>
      first
        | exact h
        | exact h.goto rfl (by rw [hpc]; rfl)
        | exact h.goto rfl (by rw [hpc]; cases tm <;> rfl)
  | clearTail lk n | readSuccessor lk n =>
    simp only [McsState.runUnlock, hpc] at hs
    split at hs <;> simp only [Option.some.injEq] at hs <;> subst hs <;>
      first
        | exact h.goto rfl (by rw [hpc]; rfl)
        | exact h.congr rfl
  | haltFirst lk n | haltNext lk n x d | clearWait lk n m =>
    simp only [McsState.runUnlock, hpc, Option.some.injEq] at hs
    subst hs
    exact h.goto rfl (by rw [hpc]; rfl)
  | haltAt lk n x d =>
    cases x with
    | none =>
      simp only [McsState.runUnlock, hpc, Option.some.injEq] at hs
      subst hs
      exact h.goto rfl (by rw [hpc]; rfl)
    | some x =>
      simp only [McsState.runUnlock, hpc] at hs
      split at hs <;> split at hs <;> simp only [Option.some.injEq] at hs <;> subst hs <;>
        exact h.goto rfl (by rw [hpc]; rfl)
  | dealloc lk n =>
    simp only [McsState.runUnlock, hpc, Option.some.injEq] at hs
    subst hs
    rw [hpc] at hok
    exact h.setThread rfl hok.deallocNode

theorem ThreadsOk.callLock {b : Bool} (h : ThreadsOk s) (hs : s.callLock t lk b = some s') :
    ThreadsOk s' := by
  have hok := h t
  simp only [McsState.callLock] at hs
  split at hs
  · split at hs <;> simp only [Option.some.injEq, reduceCtorEq] at hs
    exact hs ▸ h
  · rename_i hpc
    split at hs <;> simp only [Option.some.injEq, reduceCtorEq] at hs
    rename_i hlk
    subst hs
    rw [hpc] at hok
    exact h.setThread rfl (hok.call fun hb hmem => hlk ⟨hb, hmem⟩)
  · simp at hs

theorem ThreadsOk.step {cfg : TmParams} {tm : Bool} {a : McsAct Tid Lid} (h : ThreadsOk s)
    (hinv : McsInv (McsState.view s)) (hs : s.step cfg tm a = some s') : ThreadsOk s' := by
  simp only [McsState.step] at hs
  split at hs
  · simp at hs
  cases a with
  | lock t lk | trylock t lk => exact h.callLock hs
  | unlock t lk =>
    have hok := h t
    simp only [McsState.callUnlock] at hs
    split at hs
    · split at hs <;> simp only [Option.some.injEq, reduceCtorEq] at hs
      exact hs ▸ h
    · rename_i hpc
      rw [hpc] at hok
      split at hs
      · rename_i hlk
        -- the thread holds the lock, so `find_node` finds its node
        obtain ⟨n, hfind, hn, -⟩ := hok.findNode hlk
        simp only [hfind, Option.some.injEq] at hs
        subst hs
        exact h.setThread rfl (hok.unlock hn)
      · simp at hs
    · simp at hs
  | run t =>
    rcases Option.or_eq_some_iff.mp hs with h' | ⟨-, h'⟩
    · exact h.runLock hinv h'
    · exact h.runUnlock h'
  | htmStart t =>
    simp only at hs
    split at hs <;> simp only [Option.some.injEq, reduceCtorEq] at hs
    rename_i hpc
    subst hs
    exact h.goto rfl (by rw [hpc]; rfl)
  | htmAbort t =>
    simp only [McsState.abortStep] at hs
    split at hs <;> simp only [Option.some.injEq, reduceCtorEq] at hs
    all_goals
      rename_i hpc
      subst hs
      exact h.goto rfl (by rw [hpc]; rfl)

end McsState

/-! ## Reachable states -/

section

variable [DecidableEq Tid] [DecidableEq Lid] {cfg : TmParams} {tm : Bool}

/-- In every reachable state the nodes of the threads and the queues are in order. -/
theorem mcs_invariant {C : McsState Tid Lid → McsAct Tid Lid → Prop} {tr} {s : McsState Tid Lid}
    (h : (mcs Tid Lid cfg tm).Run C tr s) : McsState.ThreadsOk s ∧ McsInv (McsState.view s) := by
  refine System.Run.invariant (I := fun s => McsState.ThreadsOk s ∧ McsInv (McsState.view s))
    (fun s hs => ?_) (fun s a s' hi _ hs => ?_) h
  · obtain rfl : s = {} := hs
    refine ⟨fun t => McsThreadOk.init, ?_, fun n k hk => ?_⟩
    · intro lk
      -- at the start no thread has a node in a queue
      have hq : (McsState.view ({} : McsState Tid Lid)).queue lk = [] := rfl
      constructor
      · exact Nat.le_refl 0
      · rfl
      · exact List.nodup_nil
      · intro n
        rw [hq]
        refine ⟨fun hn => by simp at hn, fun ⟨r, hr⟩ => ?_⟩
        simp [McsState.view, McsThread.role, McsPc.role?, heldRole] at hr
      · intro j n r hj
        rw [hq] at hj
        simp at hj
      · intro m a hm
        simp [McsState.view] at hm
    · simp [McsState.view, McsThread.role, McsPc.role?, heldRole] at hk
  · refine ⟨hi.1.step hi.2 hs, ?_⟩
    rcases McsState.view_step hi.1 hs with hsame | ⟨n, hstep⟩
    · rw [hsame]
      exact hi.2
    · exact hi.2.step hstep

end

end TxLock.Spec
