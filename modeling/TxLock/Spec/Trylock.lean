import TxLock.Native.Txlock
import TxLock.Spec.HleTrylock
import TxLock.Spec.McsTrylock
import TxLock.Spec.PriorityTrylock
import TxLock.Spec.PthreadTrylock
import TxLock.Spec.TasTrylock
import TxLock.Spec.TicketTrylock

/-!
# Trylock of every lock type

The ten entries of `lock_types` as their callers see them, and what a step must meet for
`tl_trylock` to be truthful. Seven entries need nothing. The trylock of `ticket_tm` must
find the lock free, that of `tas_hle` must not be called outside transactions, and the
assertion of `mcs_tm` must hold.

## Key results

- `trylock_truthful`: the law of trylock for every entry
- `trylock_lies`: without the condition `ticket_tm` and `tas_hle` break it
-/

namespace TxLock.Spec

open Native

/-- The locks of a type as their callers see them. -/
def lockView (Tid Lid : Type) [DecidableEq Tid] [DecidableEq Lid] (cfg : TmParams) :
    LockType → LockView Tid
  | .pthread => pthreadView Tid Lid cfg false
  | .pthreadTm => pthreadView Tid Lid cfg true
  | .tas => tasView Tid Lid cfg false
  | .tasTm => tasView Tid Lid cfg true
  | .tasPriorityTm => priorityView Tid Lid cfg
  | .tasHle => hleView Tid Lid cfg
  | .ticket => ticketView Tid cfg false
  | .ticketTm => ticketView Tid cfg true
  | .mcs => mcsView Tid Lid cfg false
  | .mcsTm => mcsView Tid Lid cfg true

/-- How many steps a trylock takes at most before its last one. -/
def trylockSteps : LockType → Nat
  | .pthread | .pthreadTm | .tasHle => 0
  | .tas | .tasTm | .ticket | .ticketTm => 1
  | .tasPriorityTm => 2
  | .mcs | .mcsTm => 8

section

variable {Tid Lid : Type} [DecidableEq Tid] [DecidableEq Lid]

/-- What a step must meet for trylock to be truthful. -/
def TrylockTruthful (cfg : TmParams) : (ty : LockType) → (lockView Tid Lid cfg ty).State →
    (lockView Tid Lid cfg ty).Act → Prop
  | .tasHle => HleTruthful
  | .ticket => TicketTruthful false
  | .ticketTm => TicketTruthful true
  | .mcsTm => McsServed true
  | .pthread | .pthreadTm | .tas | .tasTm | .tasPriorityTm | .mcs => System.Free

/-- In every run that meets the condition trylock tells the truth, whatever the type. -/
theorem trylock_truthful (cfg : TmParams) (ty : LockType)
    {tr : List ((lockView Tid Lid cfg ty).State × (lockView Tid Lid cfg ty).Act)}
    {s : (lockView Tid Lid cfg ty).State}
    (h : (lockView Tid Lid cfg ty).sys.Run (TrylockTruthful cfg ty) tr s) :
    (lockView Tid Lid cfg ty).TrylockLaw (trylockSteps ty) tr s := by
  cases ty with
  | pthread => exact (pthread_trylockRep cfg false).law h
  | pthreadTm => exact (pthread_trylockRep cfg true).law h
  | tas => exact (tas_trylockRep cfg false).law h
  | tasTm => exact (tas_trylockRep cfg true).law h
  | tasPriorityTm => exact (priority_trylockRep cfg).law h
  | tasHle => exact (hle_trylockRep cfg).law h
  | ticket => exact (ticket_trylockRep cfg false).law h
  | ticketTm => exact (ticket_trylockRep cfg true).law h
  | mcs =>
    -- without `tm` there is no such assertion
    have hserved : ∀ (s : McsState Tid Lid) (a : McsAct Tid Lid), System.Free s a →
        McsServed false s a := by
      intro s a _
      cases a <;> simp [McsServed]
    exact (mcs_trylockRep cfg false).law (h.mono hserved)
  | mcsTm => exact (mcs_trylockRep cfg true).law h

end

/-- No thread is at the lock, whose counters are 0. -/
def ticketStart : TicketState (Fin 2) :=
  ⟨0, 0, fun _ => .out, fun _ => 0, fun _ => false, fun _ => false⟩

theorem ticketStart_init : (ticket (Fin 2) {} true).init ticketStart :=
  ⟨rfl, fun _ => rfl, fun _ => rfl, fun _ => rfl⟩

/-- Thread 1 tries a free lock of type `ticket_tm`, and thread 0 then waits for it. -/
theorem trylock_truthful_ticketTm : ∃ tr s,
    (lockView (Fin 2) Unit {} .ticketTm).sys.Run (TrylockTruthful {} .ticketTm) tr s ∧
      TicketState.told s 1 = true ∧
      (lockView (Fin 2) Unit {} .ticketTm).TrylockLaw (trylockSteps .ticketTm) tr s := by
  let as : List (TicketAct (Fin 2)) := [.trylock 1, .run 1, .run 1, .lock 0, .run 0]
  have htold : ((ticket (Fin 2) {} true).exec ticketStart as).map
      (fun s => s.told 1) = some true := by decide
  have hsound : ∀ p ∈ (ticket (Fin 2) {} true).execTrace ticketStart as,
      TicketTrySound true p.1 p.2 := by decide
  obtain ⟨s, hs, htold⟩ := Option.map_eq_some_iff.mp htold
  have hrun := ((System.Run.init ticketStart_init).exec hs).of_forall_mem (C := TicketTruthful true)
    fun p hp => ⟨hsound p hp, TicketFits.of_card (by decide) p.1⟩
  exact ⟨_, s, hrun, htold, trylock_truthful {} .ticketTm hrun⟩

/-- Thread 1 tries a lock of type `ticket_tm` that thread 0 has, and is told that it has it.
    A thread that tries a lock of type `tas_hle` never returns. -/
theorem trylock_lies :
    (∃ tr s, (lockView (Fin 2) Unit {} .ticketTm).sys.Run System.Free tr s ∧
      ∀ n, ¬ (lockView (Fin 2) Unit {} .ticketTm).TrylockLaw n tr s) ∧
    ∃ tr s, (lockView (Fin 2) Unit {} .tasHle).sys.Run System.Free tr s ∧
      ∀ n, ¬ (lockView (Fin 2) Unit {} .tasHle).TrylockLaw n tr s := by
  constructor
  · let as : List (TicketAct (Fin 2)) := [.lock 0, .run 0, .trylock 1, .run 1, .run 1]
    have hsome : ((ticket (Fin 2) {} true).exec ticketStart as).isSome = true := by decide
    have hlog : System.events (fun s a => (TicketState.events true s a).map (TicketAct.tid a, ·))
        ((ticket (Fin 2) {} true).execTrace ticketStart as) =
        [(0, (), .take), (0, (), .answer 0), (1, (), .tryCall), (1, (), .answer 0)] := by decide
    obtain ⟨s, hs⟩ := Option.isSome_iff_exists.mp hsome
    have hrun := (System.Run.init ticketStart_init).exec hs
    refine ⟨_, s, hrun, fun n hlaw => ?_⟩
    -- both threads have been told so
    have htold : ∀ t : Fin 2, Since (fun e => e.1 = t ∧ LockEvent.Tells () e.2)
        (fun e => e.1 = t ∧ e.2 = ((), .unlockCall)) False
        (System.events (fun s a => (TicketState.events true s a).map (TicketAct.tid a, ·))
          ((ticket (Fin 2) {} true).execTrace ticketStart as)) := by
      intro t
      rw [hlog]
      have ht : t = 0 ∨ t = 1 := by omega
      rcases ht with rfl | rfl <;> simp [LockEvent.Tells]
    exact absurd (hlaw.exclusive 0 1 () (htold 0) (htold 1)) (by decide)
  · let s₀ : HleState (Fin 2) Unit := ⟨fun _ => 0, fun _ => {}, false⟩
    have hrun : (tasHle (Fin 2) Unit {}).Run System.Free [(s₀, .trylock 0 ())]
        { s₀ with aborted := true } := by
      have hinit : (tasHle (Fin 2) Unit {}).Run System.Free [] s₀ := .init rfl
      exact .step hinit trivial rfl
    refine ⟨_, _, hrun, fun n hlaw => ?_⟩
    obtain ⟨-, s', hs'⟩ := hlaw.returns [] s₀ (.trylock 0 ()) [] 0 () rfl
      ⟨rfl, List.mem_singleton_self _, by simp⟩
    exact absurd hs' (by simp [lockView, hleView, tasHle, HleState.step])

end TxLock.Spec
