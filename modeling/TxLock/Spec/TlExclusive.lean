import TxLock.Spec.PriorityCode
import TxLock.Spec.PthreadCode
import TxLock.Spec.TasCode

/-!
# Mutual exclusion of the code

The code of the test-and-set locks and of the locks of libpthread, run operation by operation
by any threads, never lets two of them have a lock outside transactions, however their
operations and the begins and aborts of their transactions interleave.

## Key results

- `tl_code_exclusive`: the code of five lock types excludes
-/

namespace TxLock.Spec

open Native

variable {Tid : Type} [DecidableEq Tid] {cfg : TxConfig} {s : TlState Tid}

/-- Two threads never have the same lock of type `pthread`, `pthread_tm`, `tas`, `tas_tm` or
    `tas_priority_tm`; what a thread locks in a transaction counts when it has ended. -/
theorem tl_code_exclusive {ty : LockType}
    (hty : ty ∈ [LockType.pthread, .pthreadTm, .tas, .tasTm, .tasPriorityTm])
    {tr : List (TlState Tid × TlAct Tid)} (h : (tlSystem Tid cfg ty).Run System.Free tr s)
    {t u : Tid} (hne : t ≠ u) : Disjoint (TlState.base s t) (TlState.base s u) := by
  rw [Finset.disjoint_left]
  intro l ht hu
  apply hne
  simp only [List.mem_cons, List.not_mem_nil, or_false] at hty
  rcases hty with rfl | rfl | rfl | rfl | rfl
  · exact pthread_code_exclusive false h ht hu
  · exact pthread_code_exclusive true h ht hu
  · exact tas_code_exclusive false h ht hu
  · exact tas_code_exclusive true h ht hu
  · exact priority_code_exclusive h ht hu

/-- Thread 0 has the lock 1, which thread 1 locks in a transaction. -/
theorem tl_code_exclusive_speculating : ∃ tr s,
    (tlSystem (Fin 2) { fuel := 1 } .tasTm).Run System.Free tr s ∧ 1 ∈ TlState.base s 0 ∧
      (s.tx 1).isSome = true ∧ Disjoint (TlState.base s 0) (TlState.base s 1) := by
  let s₀ : TlState (Fin 2) := ⟨fun _ => {}, fun _ => {}, fun _ => none, false⟩
  let as : List (TlAct (Fin 2)) := .call 0 .lock 1 :: List.replicate 7 (.run 0 0) ++
    .call 1 .lock 1 :: List.replicate 7 (.run 1 0) ++ [.htmBegin 1]
  have hbase : ((tlSystem (Fin 2) { fuel := 1 } .tasTm).exec s₀ as).map
      (fun s => decide (1 ∈ TlState.base s 0) && (s.tx 1).isSome) = some true := by decide
  obtain ⟨s, hs, hbase⟩ := Option.map_eq_some_iff.mp hbase
  obtain ⟨hbase, htx⟩ := (Bool.and_eq_true _ _).mp hbase
  have hrun := (System.Run.init (M := tlSystem (Fin 2) { fuel := 1 } .tasTm) rfl).exec hs
  exact ⟨_, s, hrun, of_decide_eq_true hbase, htx, tl_code_exclusive (by decide) hrun (by decide)⟩

end TxLock.Spec
