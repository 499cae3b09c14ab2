import Mathlib.Algebra.BigOperators.Group.Finset.Basic
import Mathlib.Algebra.BigOperators.Pi
import TxLock.ForStd.Linked
import TxLock.Native.TmStats

/-!
# No thread's statistics are lost

The records from `tm_stats_head` are those of the threads that have returned from
`tl_thread_enter`, each once, so the totals of `uninit_lib_txlock` are the sums over all
threads. A record that is not pushed yet has counted nothing.

## Key results

- `StatsInv.step`: every step keeps the list
- `uninitLoop_eq`: what the loop adds up along a list
- `stats_kept`: the list and the totals in every run
-/

namespace TxLock.Spec

open Native

variable {Tid : Type}

/-- The record of a thread that has returned from `tl_thread_enter`. -/
def StatsState.Has (s : StatsState Tid) (t : Tid) (r : Nat) : Prop :=
  s.mine t = some r ∧ s.pc t = .out

/-- The list `chain` from `tm_stats_head`. -/
structure StatsInv (main : Tid) (s : StatsState Tid) (chain : List Nat) : Prop where
  linked : Linked (fun r => (s.record r).next) s.head chain
  mem_iff : ∀ r, r ∈ chain ↔ ∃ t, StatsState.Has s t r
  main : ∃ r, StatsState.Has s main r
  inj : ∀ t u r, s.mine t = some r → s.mine u = some r → t = u
  allocated : ∀ t r, s.mine t = some r → r ∈ s.allocated
  idle : ∀ t, s.mine t = none → s.pc t = .out
  /-- Nothing is counted before the record is pushed. -/
  zero : ∀ t r, s.mine t = some r → s.pc t ≠ .out → (s.record r).count = 0

namespace StatsInv

variable {main t : Tid} {s s' : StatsState Tid} {chain : List Nat} {r : Nat}

/-- A record that is not pushed is not in the list. -/
theorem not_mem (h : StatsInv main s chain) (hm : s.mine t = some r) (hp : s.pc t ≠ .out) :
    r ∉ chain := by
  intro hr
  obtain ⟨u, hu, hout⟩ := (h.mem_iff r).mp hr
  rw [h.inj t u r hm hu] at hp
  exact hp hout

/-- A record that has not been allocated is not in the list. -/
theorem not_mem_of_fresh (h : StatsInv main s chain) (hr : r ∉ s.allocated) : r ∉ chain := by
  intro hmem
  obtain ⟨u, hu, -⟩ := (h.mem_iff r).mp hmem
  exact hr (h.allocated u r hu)

/-- A write to a record outside the list leaves the list as it is. -/
theorem linked_setRecord (h : StatsInv main s chain) (hr : r ∉ chain) (x : TmStats) :
    Linked (fun i => ((s.setRecord r x).record i).next) s.head chain := by
  apply h.linked.congr
  intro i hi
  have hir : i ≠ r := fun e => hr (e ▸ hi)
  simp [StatsState.setRecord, hir]

/-- A thread counts in its own record. -/
theorem count (h : StatsInv main s chain) (hm : s.mine t = some r) (hp : s.pc t = .out)
    (f : StatField) (v : Int) :
    StatsInv main (s.setRecord r ((s.record r).add f v)) chain := by
  refine ⟨?_, h.mem_iff, h.main, h.inj, h.allocated, h.idle, ?_⟩
  · apply h.linked.congr
    intro i hi
    by_cases hir : i = r
    · subst hir
      simp [StatsState.setRecord, TmStats.add]
    · simp [StatsState.setRecord, hir]
  · intro u i hu hout
    have hir : i ≠ r := by
      rintro rfl
      rw [h.inj u t i hu hm] at hout
      exact hout hp
    simpa [StatsState.setRecord, hir] using h.zero u i hu hout

variable [DecidableEq Tid]

/-- A step of `tl_thread_enter` before the push. -/
theorem goto (h : StatsInv main s chain) (hm : s.mine t = some r) (hp : s.pc t ≠ .out)
    {pc : StatsPc} (hpc : pc ≠ .out) (x : TmStats) (hx : x.count = (s.record r).count) :
    StatsInv main ((s.setRecord r x).goto t pc) chain := by
  have hhas : ∀ u i, StatsState.Has ((s.setRecord r x).goto t pc) u i ↔ StatsState.Has s u i := by
    intro u i
    by_cases hu : u = t
    · subst hu
      refine iff_of_false (fun hc => ?_) fun hc => hp hc.2
      exact hpc (by simpa [StatsState.Has, StatsState.goto] using hc.2)
    · simp [StatsState.Has, StatsState.goto, StatsState.setRecord, hu]
  refine ⟨h.linked_setRecord (h.not_mem hm hp) x, ?_, ?_, h.inj, h.allocated, ?_, ?_⟩
  · simpa only [hhas] using h.mem_iff
  · simpa only [hhas] using h.main
  · intro u hu
    have hut : u ≠ t := by
      rintro rfl
      rw [show s.mine u = none from hu] at hm
      simp at hm
    simpa [StatsState.goto, StatsState.setRecord, hut] using h.idle u hu
  · intro u i hu hout
    by_cases hir : i = r
    · subst hir
      obtain rfl := h.inj u t i hu hm
      simpa [StatsState.goto, StatsState.setRecord, hx] using h.zero u i hm hp
    · have hut : u ≠ t := by
        rintro rfl
        exact hir (Option.some.inj (hu.symm.trans hm))
      have hout' : s.pc u ≠ .out := by
        simpa [StatsState.goto, StatsState.setRecord, hut] using hout
      simpa [StatsState.goto, StatsState.setRecord, hir] using h.zero u i hu hout'

/-- A thread gets a record that nobody has. -/
theorem enter (h : StatsInv main s chain) (hm : s.mine t = none) (hr : r ∉ s.allocated) :
    StatsInv main (({ s with
      allocated := r :: s.allocated
      mine := Function.update s.mine t (some r) }.setRecord r {}).goto t .readHead) chain := by
  have hfree := h.not_mem_of_fresh hr
  have hnobody : ∀ u, s.mine u ≠ some r := fun u hu => hr (h.allocated u r hu)
  have hmine : ∀ u, u ≠ t → Function.update s.mine t (some r) u = s.mine u :=
    fun u hu => Function.update_of_ne hu _ _
  -- the record is not in the list yet, so who has one there is as before
  have hhas : ∀ u i, StatsState.Has (({ s with
      allocated := r :: s.allocated
      mine := Function.update s.mine t (some r) }.setRecord r {}).goto t .readHead) u i ↔
      StatsState.Has s u i := by
    intro u i
    by_cases hu : u = t
    · subst hu
      refine iff_of_false (fun hc => ?_) fun hc => ?_
      · simp [StatsState.Has, StatsState.goto] at hc
      · simp [StatsState.Has, hm] at hc
    · simp [StatsState.Has, StatsState.goto, StatsState.setRecord, hu]
  -- the list, its owners and the records of the others are as before
  refine ⟨h.linked_setRecord hfree {}, ?_, ?_, ?_, ?_, ?_, ?_⟩
  · simpa only [hhas] using h.mem_iff
  · simpa only [hhas] using h.main
  · intro u v i hu hv
    by_cases hut : u = t <;> by_cases hvt : v = t
    · rw [hut, hvt]
    · subst hut
      have hi : r = i := by simpa [StatsState.goto, StatsState.setRecord] using hu
      have hv' : s.mine v = some i := by simpa [StatsState.goto, StatsState.setRecord, hvt] using hv
      exact (hnobody v (hi ▸ hv')).elim
    · subst hvt
      have hi : r = i := by simpa [StatsState.goto, StatsState.setRecord] using hv
      have hu' : s.mine u = some i := by simpa [StatsState.goto, StatsState.setRecord, hut] using hu
      exact (hnobody u (hi ▸ hu')).elim
    · apply h.inj u v i
      · simpa [StatsState.goto, StatsState.setRecord, hut] using hu
      · simpa [StatsState.goto, StatsState.setRecord, hvt] using hv
  · intro u i hu
    by_cases hut : u = t
    · subst hut
      have hi : r = i := by simpa [StatsState.goto, StatsState.setRecord] using hu
      simp [StatsState.goto, StatsState.setRecord, hi]
    · have hu' : s.mine u = some i := by simpa [StatsState.goto, StatsState.setRecord, hut] using hu
      exact List.mem_cons_of_mem _ (h.allocated u i hu')
  · intro u hu
    have hut : u ≠ t := by
      rintro rfl
      simp [StatsState.goto, StatsState.setRecord] at hu
    have hu' : s.mine u = none := by simpa [StatsState.goto, StatsState.setRecord, hut] using hu
    simpa [StatsState.goto, StatsState.setRecord, hut] using h.idle u hu'
  · intro u i hu hout
    by_cases hut : u = t
    · subst hut
      have hi : r = i := by simpa [StatsState.goto, StatsState.setRecord] using hu
      subst hi
      simp only [StatsState.goto, StatsState.setRecord, Function.update_self]
      rfl
    · have hu' : s.mine u = some i := by simpa [StatsState.goto, StatsState.setRecord, hut] using hu
      have hir : i ≠ r := fun e => hnobody u (e ▸ hu')
      have hout' : s.pc u ≠ .out := by
        simpa [StatsState.goto, StatsState.setRecord, hut] using hout
      simpa [StatsState.goto, StatsState.setRecord, hir] using h.zero u i hu' hout'

/-- The compare-and-swap finds the head that the record links to, whatever has been pushed
    in between. -/
theorem push (h : StatsInv main s chain) (hm : s.mine t = some r) (hp : s.pc t ≠ .out)
    (hhead : s.head = (s.record r).next) :
    StatsInv main ({ s with head := some r }.goto t .out) (r :: chain) := by
  -- with the push the thread has its record in the list
  have hhas : ∀ u i, StatsState.Has ({ s with head := some r }.goto t .out) u i ↔
      StatsState.Has s u i ∨ u = t ∧ i = r := by
    intro u i
    by_cases hu : u = t
    · subst hu
      simp [StatsState.Has, StatsState.goto, hm, hp, eq_comm]
    · simp [StatsState.Has, StatsState.goto, hu]
  refine ⟨⟨rfl, ?_⟩, ?_, ?_, h.inj, h.allocated, ?_, ?_⟩
  · show Linked _ (s.record r).next chain
    rw [← hhead]
    exact h.linked
  · intro i
    simp only [hhas, List.mem_cons, h.mem_iff, exists_or, exists_eq_left, or_comm]
  · obtain ⟨i, hi⟩ := h.main
    exact ⟨i, (hhas main i).mpr (.inl hi)⟩
  · intro u hu
    by_cases hut : u = t
    · subst hut
      simp [StatsState.goto]
    · simpa [StatsState.goto, hut] using h.idle u hu
  · intro u i hu hout
    have hut : u ≠ t := by
      rintro rfl
      simp [StatsState.goto] at hout
    apply h.zero u i hu
    simpa [StatsState.goto, hut] using hout

theorem step (h : StatsInv main s chain) {a : StatsAct Tid} (hs : s.step a = some s') :
    ∃ chain', StatsInv main s' chain' := by
  cases a with
  | enter t r =>
    simp only [StatsState.step] at hs
    split at hs
    · cases hs
    rename_i hout
    split at hs
    · cases hs
      exact ⟨chain, h⟩
    rename_i hm
    split at hs
    · cases hs
    rename_i hr
    cases hs
    exact ⟨chain, h.enter (by simpa using hm) hr⟩
  | run t =>
    simp only [StatsState.step] at hs
    split at hs
    · rename_i r hm hpc
      cases hs
      have hp : s.pc t ≠ .out := by simp [hpc]
      have hpc' : StatsPc.writeNext s.head ≠ .out := nofun
      have hgoto := h.goto hm hp hpc' (s.record r) rfl
      refine ⟨chain, ?_⟩
      have hsame : s.setRecord r (s.record r) = s := by simp [StatsState.setRecord]
      rwa [hsame] at hgoto
    · rename_i r head hm hpc
      cases hs
      have hp : s.pc t ≠ .out := by simp [hpc]
      have hpc' : StatsPc.cas ≠ .out := nofun
      exact ⟨chain, h.goto hm hp hpc' { s.record r with next := head } rfl⟩
    · rename_i r hm hpc
      have hp : s.pc t ≠ .out := by simp [hpc]
      split at hs
      · rename_i hhead
        cases hs
        exact ⟨r :: chain, h.push hm hp hhead⟩
      · cases hs
        -- another thread has pushed: read the head again
        have hpc' : StatsPc.readHead ≠ .out := nofun
        have hgoto := h.goto hm hp hpc' (s.record r) rfl
        have hsame : s.setRecord r (s.record r) = s := by simp [StatsState.setRecord]
        rw [hsame] at hgoto
        exact ⟨chain, hgoto⟩
    · cases hs
  | count t f v =>
    simp only [StatsState.step] at hs
    split at hs
    · rename_i r hm hpc
      cases hs
      exact ⟨chain, h.count hm hpc f v⟩
    · cases hs

theorem init (hi : (tmStats Tid main).init s) : ∃ chain, StatsInv main s chain := by
  obtain ⟨r, rfl⟩ := hi
  have hmine : ∀ t i, Function.update (fun _ => none) main (some r) t = some i ↔ t = main ∧ i = r := by
    intro t i
    by_cases ht : t = main
    · subst ht
      simp [eq_comm]
    · simp [ht]
  refine ⟨[r], ⟨rfl, rfl⟩, ?_, ⟨r, (hmine main r).mpr ⟨rfl, rfl⟩, rfl⟩, ?_, ?_, fun _ _ => rfl, ?_⟩
  · intro i
    simp [StatsState.Has, hmine]
  · intro t u i ht hu
    rw [((hmine t i).mp ht).1, ((hmine u i).mp hu).1]
  · intro t i ht
    simp [((hmine t i).mp ht).2]
  · intro t i _ hout
    exact (hout rfl).elim

end StatsInv

/-- In every run the records form a list. -/
theorem statsInv_of_run [DecidableEq Tid] {main : Tid} {tr : List (StatsState Tid × StatsAct Tid)}
    {s : StatsState Tid} (h : (tmStats Tid main).Run System.Free tr s) :
    ∃ chain, StatsInv main s chain := by
  apply h.invariant (I := fun s => ∃ chain, StatsInv main s chain)
  · intro s hi
    exact StatsInv.init hi
  · intro s a s' hinv _ hs
    obtain ⟨chain, hchain⟩ := hinv
    exact hchain.step hs

/-! ## The totals -/

/-- What the loop of `uninit_lib_txlock` adds up along a list. -/
theorem uninitLoop_eq {record : Nat → TmStats} {p : Option Nat} {chain : List Nat} {k : Nat}
    (h : Linked (fun r => (record r).next) p chain) (hk : chain.length ≤ k) (total : TmStats) :
    StatsState.uninitLoop record k p total = some { total with
      count := total.count + (chain.map fun r => (record r).count).sum
      threads := total.threads + BitVec.ofNat 32 chain.length } := by
  induction chain generalizing p k total with
  | nil =>
    obtain rfl : p = none := h
    cases k <;> simp [StatsState.uninitLoop]
  | cons r chain ih =>
    obtain ⟨rfl, h⟩ := h
    cases k with
    | zero => simp at hk
    | succ k =>
      have hk' : chain.length ≤ k := by simpa using hk
      have hcount : (fun f => total.count f + (record r).count f) =
          total.count + (record r).count := rfl
      rw [StatsState.uninitLoop, ih h hk', hcount, List.map_cons, List.sum_cons, add_assoc]
      have hlen : BitVec.ofNat 32 (r :: chain).length = 1 + BitVec.ofNat 32 chain.length := by
        rw [List.length_cons, Nat.add_comm, BitVec.ofNat_add]
        rfl
      rw [hlen, add_assoc]

/-- The counters of a thread, which has none before it has a record. -/
def StatsState.counters (s : StatsState Tid) (t : Tid) : (f : StatField) → BitVec f.width :=
  match s.mine t with
  | some r => (s.record r).count
  | none => 0

/-- The counters along the list are those of all threads. -/
theorem StatsInv.sum_eq [Fintype Tid] {main : Tid} {s : StatsState Tid} {chain : List Nat}
    (h : StatsInv main s chain) :
    (chain.map fun r => (s.record r).count).sum = ∑ t, StatsState.counters s t := by
  classical
  -- a thread that has no record in the list has counted nothing
  have hzero : ∀ t, (¬ ∃ r, StatsState.Has s t r) → StatsState.counters s t = 0 := by
    intro t hnot
    unfold StatsState.counters
    split
    · rename_i r hm
      apply h.zero t r hm
      intro hout
      exact hnot ⟨r, hm, hout⟩
    · rfl
  rw [← List.sum_toFinset _ h.linked.nodup]
  calc ∑ r ∈ chain.toFinset, (s.record r).count
      = ∑ t ∈ Finset.univ.filter (fun t => ∃ r, StatsState.Has s t r), StatsState.counters s t := by
        symm
        -- a record of the list belongs to one thread, and no thread has two
        refine Finset.sum_bij (fun t _ => (s.mine t).getD 0) ?_ ?_ ?_ ?_
        · intro t ht
          obtain ⟨r, hr⟩ := (Finset.mem_filter.mp ht).2
          rw [hr.1, List.mem_toFinset]
          exact (h.mem_iff r).mpr ⟨t, hr⟩
        · intro t ht u hu heq
          obtain ⟨r, hr⟩ := (Finset.mem_filter.mp ht).2
          obtain ⟨r', hr'⟩ := (Finset.mem_filter.mp hu).2
          rw [hr.1, hr'.1] at heq
          obtain rfl : r = r' := heq
          exact h.inj t u r hr.1 hr'.1
        · intro r hr
          obtain ⟨t, ht⟩ := (h.mem_iff r).mp (List.mem_toFinset.mp hr)
          exact ⟨t, Finset.mem_filter.mpr ⟨Finset.mem_univ t, r, ht⟩, by rw [ht.1]; rfl⟩
        · intro t ht
          obtain ⟨r, hr⟩ := (Finset.mem_filter.mp ht).2
          simp only [StatsState.counters, hr.1, Option.getD_some]
    _ = ∑ t, StatsState.counters s t := by
        apply Finset.sum_filter_of_ne
        intro t _ hne
        by_contra hnot
        exact hne (hzero t hnot)

/-- What the list of the records is, and what `uninit_lib_txlock` makes of it. -/
structure StatsLaw [Fintype Tid] [DecidableEq Tid] (main : Tid) (s : StatsState Tid)
    (chain : List Nat) : Prop where
  /-- The list ends, with `NULL`. -/
  linked : Linked (fun r => (s.record r).next) s.head chain
  main : ∃ r, s.mine main = some r ∧ chain.count r = 1
  /-- The record of a thread that has returned from `tl_thread_enter` is there once. -/
  once : ∀ t r, s.mine t = some r → s.pc t = .out → chain.count r = 1
  /-- Nothing else is there. -/
  pushed : ∀ r ∈ chain, ∃ t, s.mine t = some r ∧ s.pc t = .out
  /-- The loop ends, with the sums over all threads and the number of the records. -/
  totals : ∀ k, chain.length ≤ k → StatsState.uninit s k = some
    { count := ∑ t, StatsState.counters s t, threads := BitVec.ofNat 32 chain.length }

/-- In every run of any number of threads no record is lost, and the totals are those of all
    threads. -/
theorem stats_kept [Fintype Tid] [DecidableEq Tid] (main : Tid)
    {tr : List (StatsState Tid × StatsAct Tid)} {s : StatsState Tid}
    (h : (tmStats Tid main).Run System.Free tr s) : ∃ chain, StatsLaw main s chain := by
  obtain ⟨chain, hinv⟩ := statsInv_of_run h
  have honce : ∀ t r, StatsState.Has s t r → chain.count r = 1 := by
    intro t r hr
    exact List.count_eq_one_of_mem hinv.linked.nodup ((hinv.mem_iff r).mpr ⟨t, hr⟩)
  refine ⟨chain, hinv.linked, ?_, fun t r hm hout => honce t r ⟨hm, hout⟩, ?_, ?_⟩
  · obtain ⟨r, hr⟩ := hinv.main
    exact ⟨r, hr.1, honce main r hr⟩
  · intro r hr
    exact (hinv.mem_iff r).mp hr
  · intro k hk
    have hzero : (fun f : StatField => (0 : BitVec f.width)) = 0 := rfl
    rw [StatsState.uninit, uninitLoop_eq hinv.linked hk, ← hinv.sum_eq, hzero, zero_add, zero_add]

/-- Two threads read the same head; the second one to swap tries again. -/
theorem stats_kept_retry : ∃ s : StatsState (Fin 3), (∃ chain, StatsLaw 0 s chain) ∧
    s.head = some 2 ∧ (s.record 2).next = some 1 ∧ (s.record 1).next = some 0 := by
  have hs : ((tmStats (Fin 3) 0).exec
      ⟨some 0, fun _ => {}, [0], Function.update (fun _ => none) 0 (some 0), fun _ => .out⟩
      [.enter 1 1, .enter 2 2, .run 1, .run 2, .run 2, .run 1, .run 1, .count 1 .tries 5, .run 2,
        .enter 1 7, .run 2, .run 2, .run 2, .count 0 .locks 1]).map
      (fun s => (s.head, (s.record 2).next, (s.record 1).next)) =
      some (some 2, some 1, some 0) := by decide
  obtain ⟨s, hexec, hlinks⟩ := Option.map_eq_some_iff.mp hs
  rw [Prod.mk.injEq, Prod.mk.injEq] at hlinks
  have hrun := (System.Run.init (M := tmStats (Fin 3) 0) ⟨0, rfl⟩).exec hexec
  exact ⟨s, stats_kept 0 hrun, hlinks⟩

end TxLock.Spec
