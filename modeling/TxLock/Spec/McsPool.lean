import TxLock.ForStd.Linked
import TxLock.Native.McsPool

/-!
# The node pool keeps its lists

`PoolRep p free used`: the two lists of the pool `p` hold the nodes `free` and `used`,
and every node that was allocated is in one of them, once. One lemma for each operation
says what it does to the two lists.

## Key results

- `PoolRep.getFreeNode`, `PoolRep.useNode`, `PoolRep.deallocNode`: the operations
- `PoolRep.findNode_eq`: the search finds the first used node of the lock
-/

namespace TxLock.Spec

open Native

variable {Lid : Type}

/-- The free and the used nodes of a pool, in the order of its lists. -/
structure PoolRep (p : McsPool Lid) (free used : List Nat) : Prop where
  free_linked : Linked p.listNext p.myFreeNodes free
  used_chained : Chained p.listNext p.listPrev none p.myUsedNodes used
  perm : (free ++ used).Perm (List.range p.allocated)

namespace PoolRep

variable {p : McsPool Lid} {free used : List Nat} {n : Nat}

theorem init : PoolRep ({} : McsPool Lid) [] [] := ⟨rfl, rfl, .refl _⟩

theorem nodup (h : PoolRep p free used) : (free ++ used).Nodup :=
  h.perm.nodup_iff.mpr List.nodup_range

theorem disjoint (h : PoolRep p free used) (hf : n ∈ free) : n ∉ used := fun hu =>
  (List.nodup_append.mp h.nodup).2.2 n hf n hu rfl

theorem lt_allocated (h : PoolRep p free used) (hn : n ∈ free ++ used) : n < p.allocated :=
  List.mem_range.mp (h.perm.mem_iff.mp hn)

theorem setLock (h : PoolRep p free used) (mine : Nat) (lk : Lid) :
    PoolRep (p.setLock mine lk) free used := ⟨h.free_linked, h.used_chained, h.perm⟩

/-- The new batch is a list of its own. -/
theorem allocMoreNodes_linked (p : McsPool Lid) (i k : Nat) (hk : i + k = numNodes) (hpos : 0 < k) :
    Linked p.allocMoreNodes.listNext (some (p.allocated + i))
      (List.range' (p.allocated + i) k) := by
  induction k generalizing i with
  | zero => omega
  | succ k ih =>
    rw [List.range'_succ]
    refine ⟨rfl, ?_⟩
    have hlink : p.allocMoreNodes.listNext (p.allocated + i) =
        if k = 0 then none else some (p.allocated + i + 1) := by
      have hin : ¬ (p.allocated + i < p.allocated ∨ p.allocated + numNodes ≤ p.allocated + i) := by
        omega
      have hlast : p.allocated + i = p.allocated + (numNodes - 1) ↔ k = 0 := by
        omega
      simp only [McsPool.allocMoreNodes, hin, if_false, hlast]
    rw [hlink]
    by_cases hk0 : k = 0
    · subst hk0
      rfl
    · rw [if_neg hk0]
      exact ih (i + 1) (by omega) (by omega)

theorem allocMoreNodes (h : PoolRep p [] used) :
    PoolRep p.allocMoreNodes (List.range' p.allocated numNodes) used := by
  have hold : ∀ n ∈ used, n < p.allocated := fun n hn => h.lt_allocated (by simp [hn])
  refine ⟨?_, ?_, ?_⟩
  · have hl := allocMoreNodes_linked p 0 numNodes (by omega) (by decide)
    show Linked _ (some p.allocated) _
    simpa using hl
  · refine h.used_chained.congr (fun n hn => ?_) fun n hn => ?_
    · simp [McsPool.allocMoreNodes, hold n hn]
    · simp [McsPool.allocMoreNodes, hold n hn]
  · have hperm : used.Perm (List.range p.allocated) := by simpa using h.perm
    have hrange : List.range (p.allocated + numNodes) =
        List.range p.allocated ++ List.range' p.allocated numNodes := by
      rw [List.range_eq_range', List.range_eq_range', ← List.range'_append_1, Nat.zero_add]
    show (List.range' p.allocated numNodes ++ used).Perm (List.range (p.allocated + numNodes))
    rw [hrange]
    exact (List.perm_append_comm).trans (hperm.append_right _)

/-- The node that will be used next, and the fields `lock` of the nodes in use. -/
theorem getFreeNode (h : PoolRep p free used) :
    ∃ rest, PoolRep p.getFreeNode.1 (p.getFreeNode.2 :: rest) used ∧
      ∀ n ∈ used, p.getFreeNode.1.lock n = p.lock n := by
  unfold McsPool.getFreeNode
  split
  · rename_i mine hmine
    have hfree := h.free_linked
    rw [hmine] at hfree
    obtain ⟨rest, rfl, -⟩ := hfree.exists_cons
    exact ⟨rest, h, fun _ _ => rfl⟩
  · rename_i hnone
    obtain rfl := h.free_linked.eq_nil_iff.mpr hnone
    have halloc := h.allocMoreNodes
    rw [show numNodes = 7 + 1 from rfl, List.range'_succ] at halloc
    refine ⟨_, halloc, fun n hn => ?_⟩
    have hold : n < p.allocated := h.lt_allocated (by simp [hn])
    simp [McsPool.allocMoreNodes, hold]

theorem useNode (h : PoolRep p (n :: free) used) : PoolRep (p.useNode n) free (n :: used) := by
  have hnodup := h.nodup
  simp only [List.cons_append, List.nodup_cons, List.mem_append, not_or] at hnodup
  have hne : ∀ {l : List Nat} {c}, n ∉ l → c ∈ l → c ≠ n := by
    rintro l c hl hc rfl
    exact hl hc
  refine ⟨?_, ?_, ?_⟩
  · refine h.free_linked.2.congr fun c hc => ?_
    exact Function.update_of_ne (hne hnodup.1.1 hc) _ _
  · have hprev : (p.useNode n).listPrev n = none := by
      simp only [McsPool.useNode]
      cases p.myUsedNodes <;> simp
    refine h.used_chained.cons hnodup.1.2 (by simp [McsPool.useNode]) hprev (fun c hc => ?_)
      fun c hc => ?_
    · exact Function.update_of_ne (hne hnodup.1.2 hc) _ _
    · have hcn := hne hnodup.1.2 hc
      simp only [McsPool.useNode]
      cases p.myUsedNodes with
      | none => simp [hcn]
      | some used' =>
        by_cases hcu : c = used'
        · simp [hcu, hcu ▸ hcn]
        · have hcu' : used' ≠ c := fun he => hcu he.symm
          simp [hcn, hcu, hcu']
  · exact List.perm_middle.trans h.perm

theorem deallocNode {used' : List Nat} (h : PoolRep p free (used ++ n :: used')) :
    PoolRep (p.deallocNode n) (n :: free) (used ++ used') := by
  have hnodup := h.nodup
  have hperm : (n :: free ++ (used ++ used')).Perm (free ++ (used ++ n :: used')) := by
    rw [List.cons_append, ← List.append_assoc, ← List.append_assoc]
    exact List.perm_middle.symm
  have hne : ∀ c ∈ free ++ (used ++ used'), c ≠ n := by
    rintro c hc rfl
    have hcons := (hperm.nodup_iff.mpr hnodup)
    rw [List.cons_append, List.nodup_cons] at hcons
    exact hcons.1 hc
  have hprev := h.used_chained.prev_eq
  rw [Option.or_none] at hprev
  refine ⟨⟨rfl, ?_⟩, ?_, ?_⟩
  · -- the free nodes are not written, and the node itself is linked to them
    have hself : (p.deallocNode n).listNext n = p.myFreeNodes := by
      simp [McsPool.deallocNode]
    rw [hself]
    refine h.free_linked.congr fun c hc => ?_
    have hcn := hne c (by simp [hc])
    simp only [McsPool.deallocNode, Function.update_of_ne hcn]
    cases hp : p.listPrev n with
    | none => rfl
    | some prev =>
      apply Function.update_of_ne
      rintro rfl
      rw [hprev] at hp
      exact h.disjoint hc (by simp [List.mem_of_getLast? hp])
  · have hstart : (p.deallocNode n).myUsedNodes =
        if used = [] then p.listNext n else p.myUsedNodes := by
      simp only [McsPool.deallocNode, hprev]
      cases used using List.reverseRecOn with
      | nil => simp
      | append_singleton used c => simp
    rw [hstart]
    refine h.used_chained.remove nofun (fun c hc => ?_) fun c hc => ?_
    · have hcn := hne c (by simp only [List.mem_append] at hc ⊢; tauto)
      simp only [McsPool.deallocNode, Function.update_of_ne hcn]
      cases p.listPrev n with
      | none => simp
      | some prev =>
        by_cases hcp : c = prev
        · simp [hcp]
        · have hpc : prev ≠ c := fun he => hcp he.symm
          simp [hcp, hpc]
    · simp only [McsPool.deallocNode]
      cases p.listNext n with
      | none => simp
      | some next =>
        by_cases hcn : c = next
        · simp [hcn]
        · have hnc : next ≠ c := fun he => hcn he.symm
          simp [hcn, hnc]
  · exact hperm.trans h.perm

theorem findFrom_eq [DecidableEq Lid] {lk : Lid} {start : Option Nat} {l : List Nat} {fuel : Nat}
    (hl : Linked p.listNext start l) (hfuel : l.length ≤ fuel) :
    p.findFrom lk fuel start = l.find? (fun i => p.lock i = some lk) := by
  induction l generalizing start fuel with
  | nil =>
    rw [linked_nil] at hl
    subst hl
    cases fuel <;> rfl
  | cons i l ih =>
    obtain ⟨rfl, hl⟩ := hl
    cases fuel with
    | zero => simp at hfuel
    | succ fuel =>
      have hrest := ih hl (Nat.le_of_succ_le_succ hfuel)
      by_cases hi : p.lock i = some lk
      · simp [McsPool.findFrom, hi]
      · simp [McsPool.findFrom, hi, hrest]

/-- The search finds the first used node of the lock. -/
theorem findNode_eq [DecidableEq Lid] (h : PoolRep p free used) (lk : Lid) :
    p.findNode lk = used.find? (fun i => p.lock i = some lk) := by
  refine findFrom_eq h.used_chained.linked ?_
  have hlength := h.perm.length_eq
  rw [List.length_append, List.length_range] at hlength
  omega

end PoolRep

end TxLock.Spec
