import TxLock.Spec.Profile

/-!
# Transaction-mode statistics

For every lock type that speculates through `enter_htm`, at every point of a run outside the
lock functions at which no transaction is live: the attempts counted are the transactions
committed and the attempts aborted, and every abort is entered in one counter at most.

The cycles are right as long as no transaction is committed while the clock is read:
`tas_unlock_hle` counts the commit and does not add the clock at its end.

## Key results

- `enterHtm_preserves`: `enter_htm` counts what it begins and what has aborted
- `TmBalanced.kept`: every lock function leaves the counters right
- `tm_conserved_iff`: the cycles are right if and only if no commit went uncounted
- `tm_conserved`: runs whose commits are all at clock 0
-/

namespace TxLock.Spec

open TxLock.Native Prog

/-- The types that speculate through `enter_htm`. -/
def LockType.EntersHtm : LockType → Prop
  | .pthreadTm | .tasTm | .tasPriorityTm | .tasHle | .ticketTm => True
  | .pthread | .tas | .ticket | .mcs | .mcsTm => False

instance : DecidablePred LockType.EntersHtm := fun ty => by
  unfold LockType.EntersHtm
  split <;> infer_instance

/-! ## The law -/

/-- The counter an abort is entered in. -/
def abortField (status : Int) : Option StatField :=
  if statusHas status 4 then some .conflicts
  else if statusHas status 8 then some .overflows
  else if statusHas status 1 && xabortCode status == 7 then some .stops
  else none

theorem abortStats_eq (status : Int) : abortStats status =
    match abortField status with
    | some f => tmStatsAdd f 1
    | none => ret () := by
  unfold abortStats abortField
  split
  · rfl
  split
  · rfl
  split <;> rfl

/-- The counters of aborts. -/
def CountsAborts (f : StatField) : Prop := f = .conflicts ∨ f = .overflows ∨ f = .stops

theorem abortField_countsAborts {status : Int} {f : StatField} (h : abortField status = some f) :
    CountsAborts f := by
  unfold abortField at h
  split at h
  · exact .inl (Option.some.inj h).symm
  split at h
  · exact .inr (.inl (Option.some.inj h).symm)
  split at h
  · exact .inr (.inr (Option.some.inj h).symm)
  · cases h

/-- The statuses of the attempts that aborted. -/
def statuses (r : Profile) : List Int := r.ended.filterMap (·.status) ++ r.aborting.map (·.1)

/-- What the code enters for a transaction that is over. -/
def txCycles (t : TxSpan) : Int :=
  -- a commit does not add its end
  if t.status = none then -t.beginClock else t.endClock - t.beginClock

/-- The counters are right outside `enter_htm`. -/
structure TmBalanced (n : Accounts) : Prop where
  depth : n.profile.live.length = n.depth
  settled : n.profile.aborting = []
  tries : n.profile.total .tries =
    n.profile.total .commits + (statuses n.profile).length + n.depth
  commits : n.profile.total .commits = n.profile.ended.countP (·.status = none)
  counted : ∀ f : StatField, CountsAborts f →
    n.profile.total f = (statuses n.profile).countP (abortField · = some f)
  cycles : n.profile.total .tmCycles = (n.profile.ended.map txCycles).sum - n.profile.live.sum

/-- The law, for any answers. -/
def tmLaw : Law where
  Holds := TmBalanced
  Answer _ _ _ := True
  Leave _ _ _ _ := True

section

variable {cfg : TxConfig} {ty : LockType} {profileRdtsc : Bool} {o : CondOp}

/-- The operations that count transactions. -/
def LockOp.TmCounts : LockOp → Prop
  | .xbegin | .xend => True
  | .statsAdd f _ => f ≠ .cycles ∧ f ≠ .locks
  | _ => False

@[simp] theorem add_live (r : Profile) (f : StatField) (v : Int) : (r.add f v).live = r.live := rfl

@[simp] theorem add_ended (r : Profile) (f : StatField) (v : Int) : (r.add f v).ended = r.ended := rfl

@[simp] theorem add_aborting (r : Profile) (f : StatField) (v : Int) :
    (r.add f v).aborting = r.aborting := rfl

/-- A change of the profile that touches neither the record of transactions nor its counters. -/
theorem TmBalanced.frame {n : Accounts} (h : TmBalanced n) {w : Int} {r : Profile}
    (hlive : r.live = n.profile.live) (haborting : r.aborting = n.profile.aborting)
    (hover : r.ended = n.profile.ended)
    (htotal : ∀ f, f ≠ .cycles → f ≠ .locks → r.total f = n.profile.total f) :
    TmBalanced ⟨n.depth, w, r⟩ := by
  have hstatuses : statuses r = statuses n.profile := by
    unfold statuses
    rw [hover, haborting]
  have hstat : ∀ f : StatField, f ∉ [StatField.cycles, .locks] → r.total f = n.profile.total f := by
    intro f hf
    simp only [List.mem_cons, List.not_mem_nil, or_false, not_or] at hf
    exact htotal f hf.1 hf.2
  constructor
  · exact hlive ▸ h.depth
  · exact haborting.trans h.settled
  · show r.total .tries = r.total .commits + (statuses r).length + n.depth
    rw [hstat .tries (by decide), hstat .commits (by decide), hstatuses]
    exact h.tries
  · show r.total .commits = r.ended.countP _
    rw [hstat .commits (by decide), hover]
    exact h.commits
  · intro f hf
    show r.total f = (statuses r).countP _
    have hne : f ∉ [StatField.cycles, .locks] := by
      obtain rfl | rfl | rfl := hf <;> decide
    rw [hstat f hne, hstatuses]
    exact h.counted f hf
  · show r.total .tmCycles = (r.ended.map txCycles).sum - r.live.sum
    rw [hstat .tmCycles (by decide), hover, hlive]
    exact h.cycles

/-- Outside `enter_htm` no attempt waits for the clock. -/
theorem TmBalanced.readClock {n : Accounts} (h : TmBalanced n) (v : Int) :
    TmBalanced { n with profile := n.profile.readClock v } := by
  have hover : (n.profile.readClock v).ended = n.profile.ended := by
    simp [Profile.readClock, h.settled]
  exact h.frame rfl h.settled.symm hover fun _ _ _ => rfl

theorem counts_balanced {lo : LockOp} {v : Int} {n n' : Accounts} (ho : ¬ LockOp.TmCounts lo)
    (hn : tmLaw.CountsIn profileRdtsc o lo v n n') (h : TmBalanced n) : TmBalanced n' := by
  have hn := hn.2
  cases lo with
  | xbegin | xend => exact absurd trivial ho
  | statsAdd f w =>
    obtain rfl : n' = _ := hn
    refine h.frame rfl rfl rfl fun g hcycles hlocks => ?_
    have hne : g ≠ f := by
      rintro rfl
      exact ho ⟨hcycles, hlocks⟩
    show (n.profile.add f w).total g = _
    rw [add_total, if_neg hne, Int.add_zero]
  | rdtscMacro =>
    obtain ⟨-, rfl⟩ := hn
    exact h.readClock v
  | rdtsc =>
    obtain rfl : n' = _ := hn
    exact h.readClock v
  | setSpecEntry w =>
    obtain rfl : n' = _ := hn
    exact h.frame rfl rfl rfl fun _ _ _ => rfl
  | xtest | specEntry | xabort =>
    obtain ⟨-, rfl⟩ := hn
    exact h
  | assertFail => exact hn.elim
  | load | store | testAndSet | release | cas | fetchAndAdd | pthreadMutexLock
  | pthreadMutexTrylock | pthreadMutexUnlock | mallocNodes =>
    obtain rfl : n' = _ := hn
    exact h.frame rfl rfl rfl fun _ _ _ => rfl

/-! ## `enter_htm` -/

/-- `n` after the entries of `enter_htm` before the begin, with the clock at `b`. -/
def entered (r : Profile) (b : Int) : Profile :=
  ((r.add .tries 1).readClock b).add .tmCycles (-b)

/-- An attempt has begun: it is counted and live. -/
theorem TmBalanced.begun {n : Accounts} (h : TmBalanced n) (w b now : Int) :
    TmBalanced ⟨n.depth + 1, w, (entered n.profile b).begins now⟩ := by
  have hover : (entered n.profile b).ended = n.profile.ended := by
    simp [entered, Profile.readClock, h.settled]
  have hstatuses : statuses ((entered n.profile b).begins now) = statuses n.profile := by
    simp [statuses, Profile.begins, h.settled, entered, Profile.readClock]
  have hlive : ((entered n.profile b).begins now).live = b :: n.profile.live := rfl
  have htotal : ∀ f, ((entered n.profile b).begins now).total f =
      n.profile.total f + (if f = .tries then 1 else 0) + if f = .tmCycles then -b else 0 := by
    intro f
    simp [entered]
  -- one try more and one live begin more, and its clock is subtracted
  constructor
  · rw [hlive, List.length_cons, h.depth]
  · rfl
  · have htries := h.tries
    rw [htotal, htotal, hstatuses]
    simp
    omega
  · have hcommits := h.commits
    rw [htotal]
    simpa [Profile.begins, hover] using hcommits
  · intro f hf
    have hcounted := h.counted f hf
    rw [htotal, hstatuses]
    obtain rfl | rfl | rfl := hf <;> simpa using hcounted
  · have hcycles := h.cycles
    rw [htotal, hlive]
    simp only [Profile.begins, hover, List.sum_cons]
    simp
    omega

/-- An attempt has aborted, its end is entered with the clock at `e`, and `r` has the counter
    of the abort besides. -/
theorem TmBalanced.aborted {n : Accounts} (h : TmBalanced n) (w b status e : Int)
    {r : Profile} (hlive : r.live = n.profile.live) (haborting : r.aborting = [])
    (hover : r.ended = n.profile.ended ++ [⟨some status, b, e⟩])
    (htotal : ∀ f, r.total f = n.profile.total f + (if f = .tries then 1 else 0) +
      (if f = .tmCycles then e - b else 0) + if abortField status = some f then 1 else 0) :
    TmBalanced ⟨n.depth, w, r⟩ := by
  have hstatuses : statuses r = statuses n.profile ++ [status] := by
    simp [statuses, hover, haborting, h.settled]
  -- the counter of an abort is none of the others
  have hother : ∀ f, ¬ CountsAborts f → abortField status ≠ some f :=
    fun f hf hfield => hf (abortField_countsAborts hfield)
  constructor
  · exact hlive ▸ h.depth
  · exact haborting
  · have htries := h.tries
    show r.total .tries = r.total .commits + (statuses r).length + n.depth
    rw [htotal, htotal, hstatuses, if_neg (hother .tries (by simp [CountsAborts])),
      if_neg (hother .commits (by simp [CountsAborts]))]
    simp
    omega
  · have hcommits := h.commits
    show r.total .commits = r.ended.countP _
    rw [htotal, if_neg (hother .commits (by simp [CountsAborts])), hover]
    simpa using hcommits
  · intro f hf
    have hcounted := h.counted f hf
    show r.total f = (statuses r).countP _
    rw [htotal, hstatuses, List.countP_append, List.countP_singleton, hcounted]
    have htries : f ≠ .tries := by
      rintro rfl
      simp [CountsAborts] at hf
    have hcycles : f ≠ .tmCycles := by
      rintro rfl
      simp [CountsAborts] at hf
    rw [if_neg htries, if_neg hcycles]
    split <;> simp_all
  · have hcycles := h.cycles
    show r.total .tmCycles = (r.ended.map txCycles).sum - r.live.sum
    rw [htotal, if_neg (hother .tmCycles (by simp [CountsAborts])), hover, hlive]
    simp [txCycles]
    omega

/-- `entered` after an abort, with its end entered but not its counter. -/
def left (r : Profile) (b status now e : Int) : Profile :=
  (((entered r b).aborts status now).readClock e).add .tmCycles e

theorem left_over {r : Profile} (hr : r.aborting = []) (b status now e : Int) :
    (left r b status now e).ended = r.ended ++ [⟨some status, b, e⟩] := by
  simp [left, entered, Profile.readClock, Profile.aborts, Profile.add, hr]

theorem left_total (r : Profile) (b status now e : Int) (f : StatField) :
    (left r b status now e).total f =
      r.total f + (if f = .tries then 1 else 0) + if f = .tmCycles then e - b else 0 := by
  have hunfold : (left r b status now e).total f = r.total f + (if f = .tries then 1 else 0) +
      (if f = .tmCycles then -b else 0) + if f = .tmCycles then e else 0 := by
    simp [left, entered]
  rw [hunfold]
  by_cases hf : f = .tmCycles
  · subst hf
    simp
    omega
  · simp [hf]

theorem enterHtm_preserves (l : Addr) :
    Preserves (tmLaw.CountsIn profileRdtsc o) TmBalanced (enterHtm l) := by
  intro n h _ n₁ hn₁
  obtain ⟨-, rfl⟩ : _ ∧ n₁ = _ := hn₁
  intro _ n₂ hn₂
  obtain ⟨-, rfl⟩ : _ ∧ n₂ = _ := hn₂
  intro b n₃ hn₃
  obtain ⟨-, -, rfl⟩ : _ ∧ _ ∧ n₃ = _ := hn₃
  intro _ n₄ hn₄
  obtain ⟨-, rfl⟩ : _ ∧ n₄ = _ := hn₄
  intro status n₅ hn₅
  obtain ⟨-, hbegins | hfails⟩ := hn₅
  · obtain ⟨rfl, now, rfl⟩ := hbegins
    exact h.begun l b now
  · obtain ⟨hst, -, now, rfl⟩ := hfails
    simp only [ret_bind, if_neg hst]
    intro e n₆ hn₆
    obtain ⟨-, -, rfl⟩ : _ ∧ _ ∧ n₆ = _ := hn₆
    intro _ n₇ hn₇
    obtain ⟨-, rfl⟩ : _ ∧ n₇ = _ := hn₇
    -- whether the abort is counted or not, the flag is cleared then
    show Prog.stateWp _ _ ((abortStats status).bind fun _ => (emit (.setSpecEntry 0)).bind fun _ =>
      (ret 1 : LockProg Int)) (⟨n.depth, l, left n.profile b status now e⟩ : Accounts)
    rw [abortStats_eq]
    cases hfield : abortField status with
    | none =>
      intro _ n₈ hn₈
      obtain ⟨-, rfl⟩ : _ ∧ n₈ = _ := hn₈
      have hend : TmBalanced ⟨n.depth, 0, left n.profile b status now e⟩ := by
        refine h.aborted 0 b status e rfl rfl (left_over h.settled b status now e) fun f => ?_
        rw [left_total, hfield]
        simp
      exact hend
    | some g =>
      intro _ n₈ hn₈
      obtain ⟨-, rfl⟩ : _ ∧ n₈ = _ := hn₈
      intro _ n₉ hn₉
      obtain ⟨-, rfl⟩ : _ ∧ n₉ = _ := hn₉
      have hend : TmBalanced ⟨n.depth, 0, (left n.profile b status now e).add g 1⟩ := by
        refine h.aborted 0 b status e rfl rfl (left_over h.settled b status now e) fun f => ?_
        rw [add_total, left_total, hfield]
        simp only [Option.some.injEq, eq_comm]
      exact hend

/-! ## The lock functions -/

/-- Code that counts no transactions keeps the counters right. -/
theorem preserves_of_avoids {α : Type} {p : LockProg α} (hp : p.Avoids LockOp.TmCounts) :
    Preserves (tmLaw.CountsIn profileRdtsc o) TmBalanced p :=
  .of_avoids (fun _ _ _ _ ho hn h => counts_balanced ho hn h) hp

theorem tatas_uncounted (x : Loc) (v : Int) : (tatas x v).Avoids LockOp.TmCounts := by
  simp [tatas, load, LockOp.TmCounts]

theorem tatasLoop_uncounted (x : Loc) : (tatasLoop cfg x).Avoids LockOp.TmCounts := by
  apply Avoids.loop
  intro _
  simp [tatas_uncounted]

theorem tasLockTmLoop_preserves (l : Addr) :
    Preserves (tmLaw.CountsIn profileRdtsc o) TmBalanced (tasLockTmLoop cfg l) := by
  apply Preserves.loop
  intro tries
  apply Preserves.bind (preserves_of_avoids (tatas_uncounted _ _))
  intro held
  split
  · exact .ret _
  apply Preserves.bind (enterHtm_preserves l)
  intro e
  split
  · exact .ret _
  split
  · exact .bind (preserves_of_avoids (tatasLoop_uncounted _)) fun _ => .ret _
  · exact .ret _

theorem tasPriorityLockTmLoop_preserves (l : Addr) :
    Preserves (tmLaw.CountsIn profileRdtsc o) TmBalanced (tasPriorityLockTmLoop cfg l) := by
  apply Preserves.loop
  intro _
  have hrest : ∀ (all held : Int), Preserves (tmLaw.CountsIn profileRdtsc o) TmBalanced
      (if held = 0 then ret (.inr false)
      else if BitVec.ofInt 32 (readyOf all) < cfg.maxDistance - cfg.minDistance then do
        let e ← enterHtm l
        if e = 0 then return .inr true
        else
          let _ ← perform (.fetchAndAdd (.lock l .ready) 1)
          tatasLoop cfg (.lock l .val)
          let _ ← perform (.fetchAndAdd (.lock l .ready) (-1))
          return .inr false
      else ret (.inl ()) : LockProg (Unit ⊕ Bool)) := by
    intro all held
    split
    · exact .ret _
    split
    · apply Preserves.bind (enterHtm_preserves l)
      intro e
      split
      · exact .ret _
      · exact preserves_of_avoids (by simp [tatasLoop_uncounted, LockOp.TmCounts])
    · exact .ret _
  apply Preserves.bind (preserves_of_avoids (by simp [load, LockOp.TmCounts]))
  intro all
  show Preserves _ _ (if readyOf all = 0 then _ else _)
  split
  · exact .bind (preserves_of_avoids (tatas_uncounted _ _)) (hrest all)
  · exact hrest all 1

theorem ticketLockTmLoop_preserves (l : Addr) (t : Int) :
    Preserves (tmLaw.CountsIn profileRdtsc o) TmBalanced (ticketLockTmLoop cfg l t) := by
  apply Preserves.loop
  intro tries
  apply Preserves.bind (preserves_of_avoids (by simp [load, LockOp.TmCounts]))
  intro now
  split
  · exact .ret _
  apply Preserves.bind (preserves_of_avoids (by simp [load, LockOp.TmCounts]))
  intro now'
  show Preserves _ _ (if _ ∧ _ ∧ _ then _ else _)
  split
  · apply Preserves.bind (enterHtm_preserves l)
    intro e
    split
    · exact preserves_of_avoids (by simp [load, LockOp.TmCounts])
    · exact .ret _
  · exact .ret _

theorem pthreadLockTmLoop_preserves (l : Addr) :
    Preserves (tmLaw.CountsIn profileRdtsc o) TmBalanced (pthreadLockTmLoop cfg l) := by
  apply Preserves.loop
  intro tries
  apply Preserves.bind (preserves_of_avoids (by simp [LockOp.TmCounts]))
  intro busy
  split
  · exact .ret _
  apply Preserves.bind (enterHtm_preserves l)
  intro e
  split
  · exact .ret _
  split
  · exact preserves_of_avoids (by simp [LockOp.TmCounts])
  · exact .ret _

theorem tasLockHleLoop_preserves (l : Addr) :
    Preserves (tmLaw.CountsIn profileRdtsc o) TmBalanced (tasLockHleLoop cfg l) := by
  apply Preserves.loop
  intro tries
  apply Preserves.bind (enterHtm_preserves 0)
  intro e
  split
  · exact .ret _
  split
  · exact preserves_of_avoids (by simp [tmStatsAdd, tatasLoop_uncounted, LockOp.TmCounts])
  · exact .ret _

/-- `HTM_END()` and the commit counted: the begin stays entered, without an end. -/
theorem TmBalanced.ended {n : Accounts} (h : TmBalanced n) {d : Nat} (hd : n.depth = d + 1)
    (w now : Int) : TmBalanced ⟨d, w, (n.profile.ends now).add .commits 1⟩ := by
  -- a transaction is live, so there is a begin that the end belongs to
  obtain ⟨b, live, hlive⟩ : ∃ b live, n.profile.live = b :: live := by
    have hdepth := h.depth
    cases hl : n.profile.live with
    | nil =>
      rw [hl, List.length_nil] at hdepth
      omega
    | cons b live => exact ⟨b, live, rfl⟩
  have hends : n.profile.ends now =
      { n.profile with live := live, ended := n.profile.ended ++ [⟨none, b, now⟩] } := by
    simp only [Profile.ends, hlive]
  have hstatuses : statuses ((n.profile.ends now).add .commits 1) = statuses n.profile := by
    simp [statuses, hends]
  have htotal : ∀ f, ((n.profile.ends now).add .commits 1).total f =
      n.profile.total f + if f = .commits then 1 else 0 := by
    intro f
    rw [add_total, ends_total]
  -- the commit is counted, and no other counter but `tm_cycles` speaks of it
  constructor
  · have hdepth := h.depth
    rw [hlive, List.length_cons, hd] at hdepth
    show ((n.profile.ends now).add .commits 1).live.length = d
    rw [add_live, hends]
    show live.length = d
    omega
  · show ((n.profile.ends now).add .commits 1).aborting = []
    rw [add_aborting, hends]
    exact h.settled
  · have htries := h.tries
    rw [htotal, htotal, hstatuses]
    simp
    omega
  · have hcommits := h.commits
    rw [htotal]
    simp [hends, hcommits]
  · intro f hf
    have hcounted := h.counted f hf
    rw [htotal, hstatuses]
    obtain rfl | rfl | rfl := hf <;> simpa using hcounted
  · have hcycles := h.cycles
    rw [hlive, List.sum_cons] at hcycles
    rw [htotal]
    simp [hends, txCycles]
    omega

theorem tasUnlockHle_preserves (l : Addr) :
    Preserves (tmLaw.CountsIn profileRdtsc o) TmBalanced (tasUnlockHle l) := by
  apply Preserves.bind (preserves_of_avoids (by simp [LockOp.TmCounts]))
  intro active
  split
  · intro n h _ n₁ hn₁
    obtain ⟨-, d, now, hd, rfl⟩ : _ ∧ ∃ d now, _ ∧ n₁ = _ := hn₁
    intro _ n₂ hn₂
    obtain ⟨-, rfl⟩ : _ ∧ n₂ = _ := hn₂
    exact h.ended hd _ now
  · exact preserves_of_avoids (by simp [tmStatsAddRdtsc, tmStatsAdd, LockOp.TmCounts])

/-- Reads of the flag, and what is added to `cycles` and `locks`. -/
theorem subCycles_uncounted {x : Int} :
    ((tmStatsSubRdtsc .cycles).bind fun _ => (ret x : LockProg Int)).Avoids LockOp.TmCounts := by
  simp [tmStatsSubRdtsc, tmStatsAdd, LockOp.TmCounts]

/-- A lock function that tests the flag, counts the lock and runs a loop, which ends in a
    transaction or with the lock. -/
theorem lockTm_preserves {loop : LockProg Bool} {rest : LockProg Int}
    (hloop : Preserves (tmLaw.CountsIn profileRdtsc o) TmBalanced loop)
    (hrest : rest.Avoids LockOp.TmCounts) :
    Preserves (tmLaw.CountsIn profileRdtsc o) TmBalanced
      ((tmStatsAdd .locks 1).bind fun _ => loop.bind fun speculating =>
        if speculating then ret 0 else rest) := by
  apply Preserves.bind (preserves_of_avoids (by simp [tmStatsAdd, LockOp.TmCounts]))
  intro _
  apply Preserves.bind hloop
  intro speculating
  split
  · exact .ret _
  · exact preserves_of_avoids hrest

theorem lock_preserves (hty : LockType.EntersHtm ty) (m : Addr) :
    Preserves (tmLaw.CountsIn profileRdtsc o) TmBalanced (tlLock cfg ty m) := by
  cases ty with
  | pthread | tas | ticket | mcs | mcsTm => exact hty.elim
  -- the loop enters `enter_htm`, which counts; what follows it does not
  | tasHle =>
    apply Preserves.bind (tasLockHleLoop_preserves m)
    intro _
    exact preserves_of_avoids (by simp [load, LockOp.TmCounts])
  | pthreadTm =>
    apply Preserves.bind (preserves_of_avoids (by simp [LockOp.TmCounts]))
    intro spec
    split
    · exact .ret _
    · exact lockTm_preserves (pthreadLockTmLoop_preserves m) subCycles_uncounted
  | tasTm =>
    apply Preserves.bind (preserves_of_avoids (by simp [LockOp.TmCounts]))
    intro spec
    -- a thread that speculates already begins no transaction of its own
    split
    · exact lockTm_preserves (tasLockTmLoop_preserves m) subCycles_uncounted
    · exact preserves_of_avoids subCycles_uncounted
  | tasPriorityTm =>
    apply Preserves.bind (preserves_of_avoids (by simp [LockOp.TmCounts]))
    intro spec
    split
    · refine lockTm_preserves (tasPriorityLockTmLoop_preserves m) ?_
      simp [tmStatsAdd, LockOp.TmCounts]
    · exact preserves_of_avoids (by simp [tmStatsAdd, LockOp.TmCounts])
  | ticketTm =>
    apply Preserves.bind (preserves_of_avoids (by simp [LockOp.TmCounts]))
    intro spec
    split
    · exact .ret _
    apply Preserves.bind (preserves_of_avoids (by simp [tmStatsAdd, LockOp.TmCounts]))
    intro _
    apply Preserves.bind (preserves_of_avoids (by simp [LockOp.TmCounts]))
    intro myTicket
    apply Preserves.bind (ticketLockTmLoop_preserves m myTicket)
    intro speculating
    split
    · exact .ret _
    · exact preserves_of_avoids subCycles_uncounted

theorem trylock_uncounted (hty : LockType.EntersHtm ty) (m : Addr) :
    (tlTrylock cfg ty m).Avoids LockOp.TmCounts := by
  cases ty with
  | pthread | tas | ticket | mcs | mcsTm => exact hty.elim
  | tasHle => simp [tlTrylock, lockTypes, tasTrylockHle, Native.assert, LockOp.TmCounts]
  | pthreadTm =>
    simp [tlTrylock, lockTypes, pthreadTrylockTm, tmStatsAddRdtsc, tmStatsAdd, LockOp.TmCounts]
  | tasTm =>
    simp [tlTrylock, lockTypes, tasTrylockTm, tatas_uncounted, tmStatsSubRdtsc, tmStatsAdd,
      LockOp.TmCounts]
  | tasPriorityTm =>
    simp [tlTrylock, lockTypes, tasPriorityTrylockTm, tatas_uncounted, tmStatsSubRdtsc, tmStatsAdd,
      load, LockOp.TmCounts]
  | ticketTm =>
    simp [tlTrylock, lockTypes, ticketTrylockTm, ticketTrylock, tmStatsSubRdtsc, tmStatsAdd, load,
      LockOp.TmCounts]

theorem unlock_preserves (hty : LockType.EntersHtm ty) (m : Addr) :
    Preserves (tmLaw.CountsIn profileRdtsc o) TmBalanced (tlUnlock cfg ty m) := by
  cases ty with
  | pthread | tas | ticket | mcs | mcsTm => exact hty.elim
  | tasHle => exact tasUnlockHle_preserves m
  | pthreadTm =>
    apply preserves_of_avoids
    simp [tlUnlock, lockTypes, pthreadUnlockTm, tmStatsAddRdtsc, tmStatsAdd, LockOp.TmCounts]
  | tasTm =>
    apply preserves_of_avoids
    simp [tlUnlock, lockTypes, tasUnlockTm, tmStatsAddRdtsc, tmStatsAdd, LockOp.TmCounts]
  | tasPriorityTm =>
    apply preserves_of_avoids
    simp [tlUnlock, lockTypes, tasPriorityUnlockTm, tmStatsAddRdtsc, tmStatsAdd, LockOp.TmCounts]
  | ticketTm =>
    apply preserves_of_avoids
    simp [tlUnlock, lockTypes, ticketUnlockTm, load, store, tmStatsAddRdtsc, tmStatsAdd,
      LockOp.TmCounts]

theorem lockCode_preserves (hty : LockType.EntersHtm ty) {p : LockProg Int}
    (hp : lockCode cfg ty o = some p) :
    Preserves (tmLaw.CountsIn profileRdtsc o) TmBalanced p := by
  cases o with
  | enterHtm x =>
    obtain rfl := Option.some.inj hp
    exact enterHtm_preserves x
  | tlLock m =>
    obtain rfl := Option.some.inj hp
    exact lock_preserves hty m
  | tlTrylock m =>
    obtain rfl := Option.some.inj hp
    exact preserves_of_avoids (trylock_uncounted hty m)
  | tlUnlock m =>
    obtain rfl := Option.some.inj hp
    exact unlock_preserves hty m
  | _ => cases hp

/-- The record of the locks is not that of the transactions. -/
theorem TmBalanced.returns {n : Accounts} (h : TmBalanced n) (x clock : Int) :
    TmBalanced (n.returns o x clock) := by
  have hacquire : ∀ m, TmBalanced { n with profile := n.profile.acquire m clock } :=
    fun m => h.frame rfl rfl rfl fun _ _ _ => rfl
  have hrelease : ∀ m, TmBalanced { n with profile := n.profile.release m clock } := by
    intro m
    unfold Profile.release
    split
    · exact h
    · exact h.frame rfl rfl rfl fun _ _ _ => rfl
  unfold Accounts.returns Profile.returns
  split
  · exact h
  split
  · split
    · exact hacquire _
    · exact h
  · split
    · exact hacquire _
    · exact h
  · exact hrelease _
  · exact h

theorem TmBalanced.kept (hty : LockType.EntersHtm ty) : tmLaw.KeptBy profileRdtsc cfg ty := by
  intro o p n hp h _
  have hcalls : TmBalanced n.calls := h.frame rfl rfl rfl fun _ _ _ => rfl
  apply stateWp_mono _ (lockCode_preserves hty hp n.calls hcalls)
  intro x n' h' clock _
  exact h'.returns x clock

end

/-! ## The attempts that abort -/

/-- The status with which an attempt aborts in this step. -/
def abortStatus (s : ProfiledState) : ProfiledAct → Option Int
  | .act (.htmAbort status) => some status
  | .act (.run _) =>
    match s.htm.thread.code, s.htm.depth with
    | .lockFun _ _ _ _ (.op (.xabort code) _), _ + 1 => some (explicitStatus code)
    | .lockFun _ _ _ _ (.op .assertFail _), _ + 1 => some 0
    | _, _ => none
  | _ => none

/-- The aborts of a run. -/
def aborts (tr : List (ProfiledState × ProfiledAct)) : List Int :=
  tr.filterMap fun p => abortStatus p.1 p.2

section

variable {cfg : TxConfig} {ty : LockType} {profileRdtsc : Bool}

theorem statuses_ends (r : Profile) (now : Int) : statuses (r.ends now) = statuses r := by
  unfold Profile.ends
  split
  · rfl
  · simp [statuses]

theorem statuses_perform (r : Profile) (lo : LockOp) (v : Int) :
    statuses (r.perform lo v) = statuses r := by
  have hread : statuses (r.readClock v) = statuses r := by
    simp [statuses, Profile.readClock, List.filterMap_map]
  cases lo <;> first | rfl | exact hread

theorem statuses_returns (r : Profile) (o : CondOp) (x : Int) (inside : Bool) (clock : Int) :
    statuses (r.returns o x inside clock) = statuses r := by
  unfold Profile.returns
  split
  · rfl
  split
  · split <;> rfl
  · split <;> rfl
  · unfold Profile.release
    split <;> rfl
  · rfl

theorem statuses_aborts (r : Profile) (status now : Int) :
    statuses (r.aborts status now) = statuses r ++ [status] := by
  simp [statuses, Profile.aborts]

/-- An abort adds its status to those from before the outermost begin. -/
theorem statuses_observe (s : ProfiledState) (a : HtmAct) :
    statuses (s.observe cfg ty profileRdtsc a) =
      match abortStatus s (.act a) with
      | some status => statuses s.keep ++ [status]
      | none => statuses s.profile := by
  cases a with
  | call c => rfl
  | htmBegin => rfl
  | htmAbort status => exact statuses_aborts ..
  | run v =>
    cases hcode : s.htm.thread.code with
    | app => simp only [ProfiledState.observe, abortStatus, hcode]
    | call c ops p =>
      simp only [ProfiledState.observe, abortStatus, hcode]
      cases p with
      | op o k =>
        show statuses (if _ then _ else _) = _
        split <;> rfl
      | ret | halt => rfl
    | lockFun c ops o k p =>
      simp only [ProfiledState.observe, abortStatus, hcode]
      cases p with
      | ret x => exact statuses_returns ..
      | halt => rfl
      | op lo lk =>
        show statuses (s.observeOp profileRdtsc lo v) = _
        unfold ProfiledState.observeOp
        cases hd : s.htm.depth with
        | zero => cases lo <;> exact statuses_perform ..
        | succ d =>
          cases lo <;> first | exact statuses_perform .. | exact statuses_ends .. | exact statuses_aborts ..

/-- After an abort no transaction is live. -/
theorem depth_of_abort {s s' : ProfiledState} {a : ProfiledAct} {status : Int}
    (hsaved : s.htm.depth ≠ 0 → ∃ t, s.htm.saved = some t) (ha : abortStatus s a = some status)
    (hs : (profiledThread cfg ty profileRdtsc).step s a = some s') : s'.htm.depth = 0 := by
  have hroll : ∀ st, s.htm.depth ≠ 0 → (s.htm.rollback st).depth = 0 := by
    intro st hd
    obtain ⟨t, ht⟩ := hsaved hd
    simp only [HtmState.rollback, ht]
  cases a with
  | tick n => cases ha
  | act a =>
    simp only [profiledThread, ProfiledState.step] at hs
    split at hs
    swap
    · cases hs
    obtain ⟨h', hstep, rfl⟩ := Option.map_eq_some_iff.mp hs
    simp only [HtmState.step] at hstep
    split at hstep
    · cases hstep
    cases a with
    | call | htmBegin => cases ha
    | htmAbort st =>
      simp only [HtmState.abortStep] at hstep
      split at hstep
      · cases hstep
      split at hstep
      · rename_i hd
        obtain rfl := Option.some.inj hstep
        exact hroll st hd
      · rename_i hd
        split at hstep
        · obtain rfl := Option.some.inj hstep
          exact not_not.mp hd
        · cases hstep
    -- of the code of a lock only `_xabort` and a failing assertion abort
    | run v =>
      simp only [abortStatus] at ha
      split at ha
      · rename_i hcode hd
        have hne : s.htm.depth ≠ 0 := by omega
        simp only [HtmState.runStep, hcode, HtmState.lockStep, if_neg hne,
          Option.some.injEq] at hstep
        exact hstep ▸ hroll _ hne
      · rename_i hcode hd
        have hne : s.htm.depth ≠ 0 := by omega
        simp only [HtmState.runStep, hcode, HtmState.lockStep, if_neg hne,
          Option.some.injEq] at hstep
        exact hstep ▸ hroll _ hne
      · cases ha

/-- The record has the aborts of the run, and so has the record an abort goes back to. -/
structure AbortsKept (tr : List (ProfiledState × ProfiledAct)) (s : ProfiledState) : Prop where
  profile : statuses s.profile = aborts tr
  saved : s.htm.depth ≠ 0 → statuses s.saved = aborts tr

theorem AbortsKept.keep {tr : List (ProfiledState × ProfiledAct)} {s : ProfiledState}
    (h : AbortsKept tr s) : statuses s.keep = aborts tr := by
  unfold ProfiledState.keep
  split
  · exact h.profile
  · rename_i hd
    exact h.saved hd

theorem AbortsKept.step {tr : List (ProfiledState × ProfiledAct)} {s s' : ProfiledState}
    {a : ProfiledAct} (h : AbortsKept tr s)
    (hsaved : s.htm.depth ≠ 0 → ∃ t, s.htm.saved = some t)
    (hs : (profiledThread cfg ty profileRdtsc).step s a = some s') :
    AbortsKept (tr ++ [(s, a)]) s' := by
  have happend : aborts (tr ++ [(s, a)]) = aborts tr ++ (abortStatus s a).toList := by
    cases hab : abortStatus s a <;> simp [aborts, hab]
  -- an abort leaves no transaction, so while one is live none has happened
  have hdepth : s'.htm.depth ≠ 0 → abortStatus s a = none := by
    intro hd
    cases hab : abortStatus s a with
    | none => rfl
    | some status => exact absurd (depth_of_abort hsaved hab hs) hd
  cases a with
  | tick n =>
    obtain rfl := Option.some.inj hs
    have hsame : aborts (tr ++ [(s, .tick n)]) = aborts tr := by
      rw [happend]
      exact List.append_nil _
    exact ⟨hsame ▸ h.profile, hsame ▸ h.saved⟩
  | act a =>
    simp only [profiledThread, ProfiledState.step] at hs
    split at hs
    swap
    · cases hs
    obtain ⟨h', hstep, rfl⟩ := Option.map_eq_some_iff.mp hs
    constructor
    · show statuses (s.observe cfg ty profileRdtsc a) = _
      rw [statuses_observe, happend]
      cases abortStatus s (.act a) with
      | none => exact h.profile.trans (List.append_nil _).symm
      | some status => exact congrArg (· ++ [status]) h.keep
    · intro hd
      rw [happend, hdepth hd]
      exact h.keep.trans (List.append_nil _).symm

/-! ## Main results -/

/-- The statistics of transactions at a point with no live transaction. -/
structure TmConserved (tr : List (ProfiledState × ProfiledAct)) (s : ProfiledState) : Prop where
  /-- Every attempt has been committed or aborted. -/
  tries : s.profile.count .tries = s.profile.count .commits + (aborts tr).length
  /-- Every abort is entered in one counter, or in none. -/
  counted : ∀ f : StatField, CountsAborts f →
    s.profile.count f = (aborts tr).countP (abortField · = some f)
  bounded : s.profile.count .conflicts + s.profile.count .overflows + s.profile.count .stops ≤
    (aborts tr).length
  /-- The transactions that are over: those committed, and the aborts of the run. -/
  commits : s.profile.count .commits = s.profile.ended.countP (·.status = none)
  aborts : s.profile.ended.filterMap (·.status) = aborts tr
  cycles : s.profile.count .tmCycles =
    (s.profile.ended.map fun t => t.endClock - t.beginClock).sum

/-- The counters have not left their range: none counts more than the attempts. -/
structure TmInRange (r : Profile) : Prop where
  tries : r.total .tries < 2 ^ 31
  cycles : -2 ^ 63 ≤ r.total .tmCycles ∧ r.total .tmCycles < 2 ^ 63

/-- The counters of transactions hold what has been added to them: none of them counts more
    than the attempts. -/
theorem TmBalanced.count_eq {n : Accounts} (h : TmBalanced n) (hrange : TmInRange n.profile)
    {f : StatField} (hf : f ∉ [StatField.cycles, .locks]) :
    n.profile.count f = n.profile.total f := by
  have htries := h.tries
  have hcommits := h.commits
  have hroom := hrange.tries
  have hsmall : 0 ≤ n.profile.total f → n.profile.total f ≤ n.profile.total .tries →
      f.width = 32 → n.profile.count f = n.profile.total f := by
    intro hlow hhigh hwidth
    refine Spec.count_eq ?_ ?_ <;> rw [hwidth] <;> omega
  have hcounted : CountsAborts f → f.width = 32 → n.profile.count f = n.profile.total f := by
    intro hc
    have htotal := h.counted f hc
    have hle := List.countP_le_length (p := fun st => abortField st = some f) (l := statuses n.profile)
    exact hsmall (by omega) (by omega)
  cases f with
  | cycles | locks => simp at hf
  | tmCycles => exact Spec.count_eq hrange.cycles.1 hrange.cycles.2
  | tries => exact hsmall (by omega) (Int.le_refl _) rfl
  | commits => exact hsmall (by omega) (by omega) rfl
  | conflicts => exact hcounted (.inl rfl) rfl
  | overflows => exact hcounted (.inr (.inl rfl)) rfl
  | stops => exact hcounted (.inr (.inr rfl)) rfl

theorem counted_le (l : List Int) : l.countP (abortField · = some .conflicts) +
    l.countP (abortField · = some .overflows) + l.countP (abortField · = some .stops) ≤ l.length := by
  induction l with
  | nil => simp
  | cons st l ih =>
    simp only [List.countP_cons, List.length_cons]
    cases hst : abortField st with
    | none =>
      simp
      omega
    | some f =>
      cases f <;> simp <;> omega

theorem txCycles_sum (l : List TxSpan) : (l.map txCycles).sum =
    (l.map fun t => t.endClock - t.beginClock).sum -
      ((l.filter (·.status = none)).map (·.endClock)).sum := by
  induction l with
  | nil => rfl
  | cons t l ih =>
    simp only [List.map_cons, List.sum_cons, ih]
    by_cases ht : t.status = none
    · simp [txCycles, ht]
      omega
    · simp [txCycles, ht]
      omega

/-- No transaction is committed while `RDTSC()` is not 0. -/
def UnclockedCommits (profileRdtsc : Bool) (s : ProfiledState) : ProfiledAct → Prop
  | .act (.run _) =>
    match s.htm.thread.code, s.htm.depth with
    | .lockFun _ _ _ _ (.op .xend _), _ + 1 => s.rdtscMacro profileRdtsc = 0
    | _, _ => True
  | _ => True

theorem unclockedCommits_run_iff (profileRdtsc : Bool) (s : ProfiledState) (v : Int) :
    UnclockedCommits profileRdtsc s (.act (.run v)) ↔ ∀ p ∈ s.htm.thread.code.atOp,
      p.2 = .xend → s.htm.depth ≠ 0 → s.rdtscMacro profileRdtsc = 0 := by
  unfold UnclockedCommits
  cases s.htm.thread.code with
  | app | call c ops p => simp [HtmCode.atOp]
  | lockFun c ops o k p =>
    cases p with
    | ret x | halt => simp [HtmCode.atOp]
    | op lo lk => cases lo <;> cases s.htm.depth <;> simp [HtmCode.atOp]

instance (s : ProfiledState) : DecidablePred (UnclockedCommits profileRdtsc s)
  | .act (.run v) => decidable_of_iff' _ (unclockedCommits_run_iff profileRdtsc s v)
  | .act (.call _) | .act .htmBegin | .act (.htmAbort _) | .tick _ => isTrue trivial

/-- The commits on record are at clocks with `E`. -/
def CommitsAt (E : Int → Prop) (r : Profile) : Prop :=
  ∀ t ∈ r.ended, t.status = none → E t.endClock

theorem commitsAt_readClock {E : Int → Prop} {r : Profile} (h : CommitsAt E r) (v : Int) :
    CommitsAt E (r.readClock v) := by
  intro t ht hcommit
  cases List.mem_append.mp ht with
  | inl ht => exact h t ht hcommit
  | inr ht =>
    obtain ⟨b, -, rfl⟩ := List.mem_map.mp ht
    cases hcommit

theorem commitsAt_ends {E : Int → Prop} {r : Profile} (h : CommitsAt E r) {now : Int}
    (hnow : E now) : CommitsAt E (r.ends now) := by
  unfold Profile.ends
  split
  · exact h
  · intro t ht hcommit
    cases List.mem_append.mp ht with
    | inl ht => exact h t ht hcommit
    | inr ht =>
      obtain rfl := List.mem_singleton.mp ht
      exact hnow

theorem commitsAt_perform {E : Int → Prop} {r : Profile} (h : CommitsAt E r) (lo : LockOp)
    (v : Int) : CommitsAt E (r.perform lo v) := by
  cases lo <;> first | exact h | exact commitsAt_readClock h v

theorem commitsAt_returns {E : Int → Prop} {r : Profile} (h : CommitsAt E r) (o : CondOp) (x : Int)
    (inside : Bool) (clock : Int) : CommitsAt E (r.returns o x inside clock) := by
  unfold Profile.returns
  split
  · exact h
  split
  · split <;> exact h
  · split <;> exact h
  · unfold Profile.release
    split <;> exact h
  · exact h

theorem commitsAt_observe {E : Int → Prop} {s : ProfiledState} {a : HtmAct}
    (h : CommitsAt E s.profile) (hkeep : CommitsAt E s.keep)
    (hnow : ∀ v c ops o k lk, a = .run v → s.htm.thread.code = .lockFun c ops o k (.op .xend lk) →
      s.htm.depth ≠ 0 → E (s.rdtscMacro profileRdtsc)) :
    CommitsAt E (s.observe cfg ty profileRdtsc a) := by
  cases a with
  | call | htmBegin => exact h
  | htmAbort status => exact hkeep
  | run v =>
    simp only [ProfiledState.observe]
    split
    · split <;> exact h
    · exact commitsAt_returns h _ _ _ _
    · rename_i c ops o k lo lk hcode
      unfold ProfiledState.observeOp
      dsimp only
      split
      · rename_i hd
        exact commitsAt_ends h (hnow v _ _ _ _ _ rfl hcode (by omega))
      · exact hkeep
      · exact hkeep
      · exact commitsAt_perform h _ _
    · exact h

/-- In every run the commits on record are at clocks that the condition allows. -/
theorem commitsAt_run {E : Int → Prop} {C : ProfiledState → ProfiledAct → Prop}
    (hC : ∀ s v, C s (.act (.run v)) → ∀ c ops o k lk,
      s.htm.thread.code = .lockFun c ops o k (.op .xend lk) → s.htm.depth ≠ 0 →
      E (s.rdtscMacro profileRdtsc))
    {tr : List (ProfiledState × ProfiledAct)} {s : ProfiledState}
    (h : (profiledThread cfg ty profileRdtsc).Run C tr s) : CommitsAt E s.profile := by
  -- an abort brings the saved counters back, so both have to be right
  have hboth : CommitsAt E s.profile ∧ CommitsAt E s.saved := by
    apply h.invariant (I := fun s => CommitsAt E s.profile ∧ CommitsAt E s.saved)
    · intro s hs
      rw [show s = {} from hs]
      exact ⟨nofun, nofun⟩
    · intro s a s' hi hc hs
      have hkeep : CommitsAt E s.keep := by
        unfold ProfiledState.keep
        split
        · exact hi.1
        · exact hi.2
      cases a with
      | tick n =>
        obtain rfl := Option.some.inj hs
        exact hi
      | act a =>
        simp only [profiledThread, ProfiledState.step] at hs
        split at hs
        · obtain ⟨h', -, rfl⟩ := Option.map_eq_some_iff.mp hs
          refine ⟨commitsAt_observe hi.1 hkeep fun v c ops o k lk ha hcode hd => ?_, hkeep⟩
          subst ha
          exact hC s v hc c ops o k lk hcode hd
        · cases hs
  exact hboth.1

/-- At every point of a run outside the lock functions with no live transaction, the statistics
    are right if and only if no transaction was committed at a clock other than 0, as long as the
    counters are in range. -/
theorem tm_conserved_iff (hty : LockType.EntersHtm ty) {tr : List (ProfiledState × ProfiledAct)}
    {s : ProfiledState} (h : (profiledThread cfg ty profileRdtsc).Run System.Free tr s)
    (hd : s.htm.depth = 0) (hout : ¬ InLock s.htm.thread.code) (hrange : TmInRange s.profile) :
    TmConserved tr s ↔ CommitsAt (· = 0) s.profile := by
  have hmeets : ∀ s a, tmLaw.Meets s a := by
    intro s a
    unfold Law.Meets
    split
    · split
      · exact fun _ => trivial
      · trivial
      · trivial
    · trivial
  have hinit : tmLaw.Holds ⟨0, 0, {}⟩ := by
    constructor <;> first | rfl | exact fun _ _ => rfl
  have hinv : ProfileInv cfg ty profileRdtsc tmLaw s ∧ AbortsKept tr s := by
    apply h.invariant_trace (I := fun tr s =>
      ProfileInv cfg ty profileRdtsc tmLaw s ∧ AbortsKept tr s)
    · intro s hs
      have hrun : (profiledThread cfg ty profileRdtsc).Run tmLaw.Meets [] s := .init hs
      refine ⟨.run (TmBalanced.kept hty) hinit hrun, ?_⟩
      rw [show s = {} from hs]
      exact ⟨rfl, fun _ => rfl⟩
    · intro tr s a s' _ hi _ hs
      refine ⟨hi.1.step (TmBalanced.kept hty) (hmeets s a) hs, hi.2.step (fun hd => ?_) hs⟩
      obtain ⟨t, ht, -⟩ := hi.1.saved hd
      exact ⟨t, ht⟩
  have hb : TmBalanced (accounts s) := hinv.1.holds hout
  have hcount : ∀ f : StatField, f ∉ [StatField.cycles, .locks] →
      s.profile.count f = s.profile.total f := fun f hf => hb.count_eq hrange hf
  have hlive : s.profile.live = [] := List.eq_nil_of_length_eq_zero (hb.depth.trans hd)
  have hstatuses : statuses s.profile = aborts tr := hinv.2.profile
  -- a clock that has been read is never negative, so a sum of 0 means that all are 0
  have hnonneg : CommitsAt (0 ≤ ·) s.profile := by
    refine commitsAt_run (fun s v _ c ops o k lk _ _ => ?_) h
    unfold ProfiledState.rdtscMacro
    split <;> omega
  -- a committed transaction should leave no cycles, but its end is what stays in the sum
  have hends : s.profile.total .tmCycles =
      (s.profile.ended.map fun t => t.endClock - t.beginClock).sum -
      ((s.profile.ended.filter (·.status = none)).map (·.endClock)).sum := by
    have hcycles := hb.cycles
    rw [txCycles_sum, show (accounts s).profile.live = [] from hlive, List.sum_nil] at hcycles
    exact hcycles.trans (Int.sub_zero _)
  have hstatus : s.profile.ended.filterMap (·.status) = aborts tr := by
    rw [← hstatuses, statuses, show s.profile.aborting = [] from hb.settled]
    exact (List.append_nil _).symm
  -- the cycles are right exactly if the ends of the committed transactions add up to 0
  constructor
  · intro hall t ht hcommit
    have hzero : ((s.profile.ended.filter (·.status = none)).map (·.endClock)).sum = 0 := by
      have hcycles := hall.cycles
      rw [hcount _ (by decide)] at hcycles
      omega
    have hmem : t.endClock ∈ (s.profile.ended.filter (·.status = none)).map (·.endClock) :=
      List.mem_map_of_mem (List.mem_filter.mpr ⟨ht, decide_eq_true hcommit⟩)
    refine List.all_zero_of_le_zero_le_of_sum_eq_zero (fun e he => ?_) hzero hmem
    obtain ⟨q, hq, rfl⟩ := List.mem_map.mp he
    obtain ⟨hq, hcommit⟩ := List.mem_filter.mp hq
    exact hnonneg q hq (of_decide_eq_true hcommit)
  · intro hzero
    have hsum : ((s.profile.ended.filter (·.status = none)).map (·.endClock)).sum = 0 := by
      apply List.sum_eq_zero
      intro e he
      obtain ⟨q, hq, rfl⟩ := List.mem_map.mp he
      obtain ⟨hq, hcommit⟩ := List.mem_filter.mp hq
      exact hzero q hq (of_decide_eq_true hcommit)
    have htries : s.profile.total .tries =
        s.profile.total .commits + (statuses s.profile).length + s.htm.depth := hb.tries
    have hcounted : ∀ f : StatField, CountsAborts f →
        s.profile.total f = (statuses s.profile).countP (abortField · = some f) := hb.counted
    rw [hstatuses] at htries hcounted
    have hcounted : ∀ f : StatField, CountsAborts f →
        s.profile.count f = (aborts tr).countP (abortField · = some f) := by
      intro f hf
      rw [hcount f (by obtain rfl | rfl | rfl := hf <;> decide)]
      exact hcounted f hf
    constructor
    · rw [hcount _ (by decide), hcount _ (by decide)]
      omega
    · exact hcounted
    · have hle := counted_le (aborts tr)
      rw [hcounted .conflicts (.inl rfl), hcounted .overflows (.inr (.inl rfl)),
        hcounted .stops (.inr (.inr rfl))]
      omega
    · rw [hcount _ (by decide)]
      exact hb.commits
    · exact hstatus
    · rw [hcount _ (by decide)]
      omega

/-- At every point of a run outside the lock functions with no live transaction the statistics
    are right, as long as no transaction is committed while `RDTSC()` is not 0 and the counters
    are in range. -/
theorem tm_conserved (hty : LockType.EntersHtm ty) (tr : List (ProfiledState × ProfiledAct))
    (s : ProfiledState)
    (h : (profiledThread cfg ty profileRdtsc).Run (UnclockedCommits profileRdtsc) tr s)
    (hd : s.htm.depth = 0) (hout : ¬ InLock s.htm.thread.code) (hrange : TmInRange s.profile) :
    TmConserved tr s := by
  apply (tm_conserved_iff hty h.free hd hout hrange).mpr
  refine commitsAt_run (fun s v hc c ops o k lk hcode hd => ?_) h
  obtain ⟨d, hd'⟩ := Nat.exists_eq_succ_of_ne_zero hd
  simpa only [UnclockedCommits, hcode, hd'] using hc

/-- With `tas_tm`: the mutex 32 is held at clock 5, its lock begins a transaction, which aborts
    with a conflict at clock 8, and then takes the mutex. -/
def conflictAbort : List ProfiledAct :=
  [.tick 5, .act (.call (.lock 32)), .act (.run 0), .act (.run 0), .act (.run 0), .act (.run 1),
    .act (.run 0), .act (.run 0), .act (.run 5), .act (.run 0), .act .htmBegin, .act (.run 0),
    .act (.run 0), .tick 3, .act (.htmAbort 4), .act (.run 8), .act (.run 0), .act (.run 0),
    .act (.run 0), .act (.run 0), .act (.run 0), .act (.run 8), .act (.run 0), .act (.run 0),
    .act (.run 0)]

theorem tm_conserved_conflict :
    ∃ tr s, (profiledThread {fuel := 3} .tasTm true).Run (UnclockedCommits true) tr s ∧
      s.profile.ended = [⟨some 4, 5, 8⟩] ∧ TmConserved tr s := by
  have hend : ((profiledThread {fuel := 3} .tasTm true).exec {} conflictAbort).map (fun s =>
      (decide (s.htm.depth = 0), decide (InLock s.htm.thread.code), s.profile.ended,
        s.profile.total .tries, s.profile.total .tmCycles)) =
          some (true, false, [⟨some 4, 5, 8⟩], 1, 3) := by
    decide
  obtain ⟨s, hs, hok⟩ := Option.map_eq_some_iff.mp hend
  simp only [Prod.mk.injEq, decide_eq_true_iff, decide_eq_false_iff_not] at hok
  have hrun := ((System.Run.init (M := profiledThread {fuel := 3} .tasTm true)
    rfl).exec hs).of_forall_mem (C := UnclockedCommits true) (by decide)
  obtain ⟨hdepth, hout, hover, htries, hcycles⟩ := hok
  have hrange : TmInRange s.profile := by
    constructor
    · rw [htries]
      decide
    · rw [hcycles]
      decide
  exact ⟨_, s, hrun, hover, tm_conserved (show LockType.EntersHtm .tasTm from trivial) _ s hrun
    hdepth hout hrange⟩

/-- With `tas_hle`: a transaction begins at clock 5 and is committed at clock 9. -/
def committed : List ProfiledAct :=
  [.tick 5, .act (.call (.lock 32)), .act (.run 0), .act (.run 0), .act (.run 0), .act (.run 5),
    .act (.run 0), .act .htmBegin, .act (.run 0), .act (.run 0), .act (.run 0), .act (.run 0),
    .tick 4, .act (.call (.unlock 32)), .act (.run 0), .act (.run 0), .act (.run 0), .act (.run 0),
    .act (.run 0), .act (.run 0)]

/-- `tm_cycles` has the begin of the committed transaction and not its end. -/
theorem tm_conserved_committed :
    ∃ tr s, (profiledThread {fuel := 3} .tasHle true).Run System.Free tr s ∧ s.htm.depth = 0 ∧
      ¬ InLock s.htm.thread.code ∧ s.profile.count .tmCycles = -5 ∧
      s.profile.ended = [⟨none, 5, 9⟩] ∧ ¬ TmConserved tr s := by
  have hend : ((profiledThread {fuel := 3} .tasHle true).exec {} committed).map (fun s =>
      (decide (s.htm.depth = 0), decide (InLock s.htm.thread.code), s.profile.count .tmCycles,
        s.profile.ended)) = some (true, false, -5, [⟨none, 5, 9⟩]) := by
    decide
  obtain ⟨s, hs, hok⟩ := Option.map_eq_some_iff.mp hend
  simp only [Prod.mk.injEq, decide_eq_true_iff, decide_eq_false_iff_not] at hok
  obtain ⟨hdepth, hout, hcycles, hover⟩ := hok
  refine ⟨_, s, (System.Run.init rfl).exec hs, hdepth, hout, hcycles, hover, fun hall => ?_⟩
  -- the transaction took 4 cycles, the counter says -5
  have hsum := hall.cycles
  rw [hcycles, hover] at hsum
  exact absurd hsum (by decide)

end

end TxLock.Spec
