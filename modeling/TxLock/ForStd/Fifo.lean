import TxLock.ForStd.System

/-!
# First-come first-served locks

What a queue lock is for, with nothing about how it is built: the threads that
asked for the lock stand in a queue, the first of them may go in, and only it may
leave. A lock implementation that this system simulates (`System.Run.simulates`)
excludes and serves its threads in the order in which they asked.

## Key results

- `Fifo.exec_arrivals`: at every moment the threads that asked are those that went
  in, in that order, followed by those that wait
-/

namespace TxLock

/-- The threads holding or waiting for the lock, and whether the first one is in. -/
structure Fifo (ι : Type) where
  queue : List ι
  inside : Bool

/-- What happens to a first-come first-served lock. -/
inductive FifoAct (ι : Type) where
  | arrive (t : ι)
  | enter (t : ι)
  | leave (t : ι)
  deriving DecidableEq, Repr

namespace Fifo

variable {ι : Type} [DecidableEq ι]

/-- The lock nobody asked for. -/
def empty : Fifo ι := ⟨[], false⟩

/-- One step: join the queue, go in as its first member, leave as its first member. -/
def step (A : Fifo ι) : FifoAct ι → Option (Fifo ι)
  | .arrive t => if t ∈ A.queue then none else some { A with queue := A.queue ++ [t] }
  | .enter t =>
    if A.queue.head? = some t ∧ A.inside = false then some { A with inside := true } else none
  | .leave t =>
    if A.queue.head? = some t ∧ A.inside = true then some ⟨A.queue.tail, false⟩ else none

end Fifo

/-- The first-come first-served lock. -/
def fifo (ι : Type) [DecidableEq ι] : System (Fifo ι) (FifoAct ι) where
  init A := A = Fifo.empty
  step := Fifo.step

namespace Fifo

variable {ι : Type}

/-- The threads that wait, in the order of the queue. -/
def waiting (A : Fifo ι) : List ι := if A.inside then A.queue.tail else A.queue

/-- The thread that is in, if any. -/
def holder (A : Fifo ι) : Option ι := if A.inside then A.queue.head? else none

/-- The threads that asked, in order. -/
def arrivals (h : List (FifoAct ι)) : List ι :=
  h.filterMap fun | .arrive t => some t | _ => none

/-- The threads that went in, in order. -/
def enters (h : List (FifoAct ι)) : List ι :=
  h.filterMap fun | .enter t => some t | _ => none

theorem arrivals_append (h h' : List (FifoAct ι)) :
    arrivals (h ++ h') = arrivals h ++ arrivals h' := List.filterMap_append

theorem enters_append (h h' : List (FifoAct ι)) :
    enters (h ++ h') = enters h ++ enters h' := List.filterMap_append

@[simp] theorem waiting_empty : waiting (empty : Fifo ι) = [] := rfl

/-! ## Who waits and who is in -/

/-- A lock somebody is in has a first member. -/
def Valid (A : Fifo ι) : Prop := A.inside = true → A.queue ≠ []

/-- A thread waits or is in exactly if it is in the queue. -/
theorem Valid.mem_queue_iff {A : Fifo ι} (hin : A.Valid) (t : ι) :
    t ∈ A.queue ↔ t ∈ A.waiting ∨ A.holder = some t := by
  cases hi : A.inside with
  | false => simp [waiting, holder, hi]
  | true =>
    obtain ⟨u, q, hq⟩ := List.exists_cons_of_ne_nil (hin hi)
    simp [waiting, holder, hi, hq, or_comm, eq_comm]

/-- The thread that is in does not wait. -/
theorem holder_not_waiting {A : Fifo ι} (hn : A.queue.Nodup) {t : ι}
    (h : A.holder = some t) : t ∉ A.waiting := by
  simp only [holder, Option.ite_none_right_eq_some] at h
  obtain ⟨q, hq⟩ := List.head?_eq_some_iff.mp h.2
  rw [hq] at hn
  simpa [waiting, h.1, hq] using (List.nodup_cons.mp hn).1

/-- Joining the queue adds a waiting thread and nothing else. -/
theorem Valid.arrive {A : Fifo ι} (hin : A.Valid) (t : ι) :
    (⟨A.queue ++ [t], A.inside⟩ : Fifo ι).waiting = A.waiting ++ [t] ∧
      (⟨A.queue ++ [t], A.inside⟩ : Fifo ι).holder = A.holder := by
  cases hi : A.inside with
  | false => simp [waiting, holder, hi]
  | true =>
    obtain ⟨u, q, hq⟩ := List.exists_cons_of_ne_nil (hin hi)
    simp [waiting, holder, hi, hq]

variable [DecidableEq ι]

/-- One step: who waits afterwards, with who asked and who went in. -/
theorem step_waiting {A A' : Fifo ι} {a : FifoAct ι} (h : A.step a = some A')
    (hin : A.Valid) : A.waiting ++ arrivals [a] = enters [a] ++ A'.waiting ∧ A'.Valid := by
  cases a with
  | arrive t =>
    simp only [step, Option.ite_none_left_eq_some, Option.some.injEq] at h
    obtain ⟨-, rfl⟩ := h
    exact ⟨by simpa [arrivals, enters] using (hin.arrive t).1.symm, fun _ => by simp⟩
  | enter t =>
    simp only [step, Option.ite_none_right_eq_some, Option.some.injEq] at h
    obtain ⟨⟨hh, hi⟩, rfl⟩ := h
    obtain ⟨q, hq⟩ := List.head?_eq_some_iff.mp hh
    simp [waiting, Valid, hi, hq, arrivals, enters]
  | leave t =>
    simp only [step, Option.ite_none_right_eq_some, Option.some.injEq] at h
    obtain ⟨⟨hh, hi⟩, rfl⟩ := h
    simp [waiting, Valid, hi, arrivals, enters]

/-- From the empty lock on, the threads that asked are those that went in followed by
    those that wait. -/
theorem exec_arrivals {A : Fifo ι} {h : List (FifoAct ι)}
    (he : (fifo ι).exec empty h = some A) : arrivals h = enters h ++ A.waiting := by
  suffices ∀ B : Fifo ι, B.Valid → (fifo ι).exec B h = some A →
      B.waiting ++ arrivals h = enters h ++ A.waiting by
    simpa using this empty (by simp [Valid, empty]) he
  intro B hB hBA
  clear he
  induction h generalizing B with
  | nil =>
    simp only [System.exec, Option.some.injEq] at hBA
    simp [hBA, arrivals, enters]
  | cons a h ih =>
    simp only [System.exec] at hBA
    obtain ⟨B', hs, hBA'⟩ := Option.bind_eq_some_iff.mp hBA
    obtain ⟨hw, hB'⟩ := step_waiting hs hB
    calc B.waiting ++ arrivals (a :: h)
        = (B.waiting ++ arrivals [a]) ++ arrivals h := by
          rw [List.append_assoc, ← arrivals_append]; rfl
      _ = enters [a] ++ (B'.waiting ++ arrivals h) := by rw [hw, List.append_assoc]
      _ = enters [a] ++ (enters h ++ A.waiting) := by rw [ih B' hB' hBA']
      _ = enters (a :: h) ++ A.waiting := by rw [← List.append_assoc, ← enters_append]; rfl

end Fifo

end TxLock
