import TxLock.Spec.Profile

/-!
# Lock-mode statistics

In a run in which every lock that was acquired is released, `locks` has grown by the number of
acquisitions and `cycles` by the clock from each acquisition to its release, if every
acquisition subtracts the clock as every release adds it. These do not:

- `pthread_trylock_tm` adds the clock at the acquisition
- `tas_lock_hle` leaves it out, as `tas_unlock_hle` adds it
- `tas_priority_lock_tm` reads the clock also where `RDTSC()` is 0
- `ticket_trylock_tm` returns 0 without having the lock, and counts nothing
- the queue locks count nothing

## Key results

- `LockBalanced.acquire`, `LockBalanced.release`: what the entries have to be
- `LockBalanced.kept`: every lock function leaves the counters right
- `lock_conserved`: the counters after a balanced run
-/

namespace TxLock.Spec

open TxLock.Native Prog

/-! ## The law -/

/-- The counters are right: every lock held has its acquisition entered. -/
structure LockBalanced (profileRdtsc : Bool) (r : Profile) : Prop where
  locks : r.total .locks = r.spans.length + r.held.length
  cycles : profileRdtsc = true → r.total .cycles =
    (r.spans.map fun p => p.released - p.acquired).sum - (r.held.map Prod.snd).sum
  off : profileRdtsc = false → r.total .cycles = 0

/-- The types whose functions count nothing. -/
def LockType.Uncounted : LockType → Prop
  | .mcs | .mcsTm => True
  | _ => False

instance : DecidablePred LockType.Uncounted := fun ty => by
  unfold LockType.Uncounted
  split <;> infer_instance

/-- An acquisition at clock `c` that is entered as every other: with `tl_lock`, or else with
    `tl_trylock`. -/
def SoundAt (ty : LockType) (profileRdtsc lock : Bool) (c : Int) : Prop :=
  match ty with
  | .mcs | .mcsTm => False
  | .pthreadTm => profileRdtsc = true → lock = false → c = 0
  | .tasHle => profileRdtsc = true → c = 0
  | .tasPriorityTm => profileRdtsc = false → lock = true → c = 0
  | .pthread | .tas | .tasTm | .ticket | .ticketTm => True

instance (ty : LockType) (profileRdtsc lock : Bool) (c : Int) :
    Decidable (SoundAt ty profileRdtsc lock c) := by
  unfold SoundAt
  split <;> infer_instance

/-- The clock at an acquisition or a release. -/
def eventClock (r : Profile) (clock : Int) : Int := r.reading.getD clock

/-- Outside a transaction: `tl_lock` succeeds, and `tl_unlock` is of a lock that is held. -/
def Matched (o : CondOp) (x : Int) (r : Profile) : Prop :=
  match o with
  | .tlLock _ => x = 0
  | .tlUnlock m => (r.held.lookup m).isSome
  | _ => True

instance (o : CondOp) (x : Int) (r : Profile) : Decidable (Matched o x r) := by
  unfold Matched
  split <;> infer_instance

/-- Outside a transaction: the acquisition is entered as every other. -/
def Sound (ty : LockType) (profileRdtsc : Bool) (o : CondOp) (x c : Int) : Prop :=
  match o with
  | .tlLock _ => SoundAt ty profileRdtsc true c
  | .tlTrylock _ => x = 0 → SoundAt ty profileRdtsc false c
  | _ => True

instance (ty : LockType) (profileRdtsc : Bool) (o : CondOp) (x c : Int) :
    Decidable (Sound ty profileRdtsc o x c) := by
  unfold Sound
  split <;> infer_instance

/-- `ticket_trylock_tm` gets the lock when it tries. -/
def CasStores (ty : LockType) (o : CondOp) (lo : LockOp) (v : Int) : Prop :=
  match ty, o, lo with
  | .ticketTm, .tlTrylock _, .cas .. => v ≠ 0
  | _, _, _ => True

instance (ty : LockType) (o : CondOp) (lo : LockOp) (v : Int) :
    Decidable (CasStores ty o lo v) := by
  unfold CasStores
  split <;> infer_instance

/-- The law. What a transaction buffers matters for `tas_hle` alone, which commits. -/
def lockLaw (ty : LockType) (profileRdtsc : Bool) : Law where
  Holds n := ty = .tasHle ∨ n.depth = 0 →
    LockBalanced profileRdtsc n.profile ∧ (LockType.Uncounted ty → n.profile.held = [])
  Answer o lo v := CasStores ty o lo v
  Leave o x n clock := n.profile.speculative = false → n.depth = 0 →
    Matched o x n.profile ∧ Sound ty profileRdtsc o x (eventClock n.profile clock)

/-! ## What the operations add -/

/-- The operations that count locks. -/
def LockOp.LockCounts : LockOp → Prop
  | .statsAdd f _ => f = .cycles ∨ f = .locks
  | _ => False

/-- The code has added to `locks` and `cycles` and left the locks of the thread alone. -/
structure Charged (r : Profile) (locks cycles : Int) (r' : Profile) : Prop where
  locks : r'.total .locks = r.total .locks + locks
  cycles : r'.total .cycles = r.total .cycles + cycles
  held : r'.held = r.held
  spans : r'.spans = r.spans
  speculative : r'.speculative = r.speculative

namespace Charged

variable {profileRdtsc : Bool} {r r' : Profile} {a b : Int}

theorem refl (r : Profile) : Charged r 0 0 r :=
  ⟨(Int.add_zero _).symm, (Int.add_zero _).symm, rfl, rfl, rfl⟩

theorem add (h : Charged r a b r') (f : StatField) (w : Int) :
    Charged r (a + if f = .locks then w else 0) (b + if f = .cycles then w else 0) (r'.add f w) := by
  have hlocks := h.locks
  have hcycles := h.cycles
  refine ⟨?_, ?_, h.held, h.spans, h.speculative⟩
  · rw [add_total, hlocks, Int.add_assoc]
    simp only [eq_comm]
  · rw [add_total, hcycles, Int.add_assoc]
    simp only [eq_comm]

/-- A change of the rest of the profile. -/
theorem frame (h : Charged r a b r') {q : Profile} (hstats : q.total = r'.total)
    (hheld : q.held = r'.held) (hspans : q.spans = r'.spans)
    (hspec : q.speculative = r'.speculative) : Charged r a b q :=
  ⟨hstats ▸ h.locks, hstats ▸ h.cycles, hheld ▸ h.held, hspans ▸ h.spans, hspec ▸ h.speculative⟩

/-- An operation that does not count locks. -/
theorem charges {lo : LockOp} {v : Int} {n n' : Accounts} (ho : ¬ LockOp.LockCounts lo)
    (hn : Charges profileRdtsc lo v n n') (h : Charged r a b n.profile) :
    Charged r a b n'.profile := by
  cases lo with
  | xbegin =>
    obtain ⟨-, now, rfl⟩ | ⟨-, -, now, rfl⟩ := hn
    · exact h.frame rfl rfl rfl rfl
    · exact h.frame rfl rfl rfl rfl
  | xend =>
    obtain ⟨d, now, -, rfl⟩ := hn
    show Charged r a b (n.profile.ends now)
    unfold Profile.ends
    split
    · exact h
    · exact h.frame rfl rfl rfl rfl
  | statsAdd f w =>
    obtain rfl : n' = _ := hn
    -- a counter of transactions is neither `locks` nor `cycles`
    have hlocks : f ≠ .locks := fun hf => ho (.inr hf)
    have hcycles : f ≠ .cycles := fun hf => ho (.inl hf)
    have hadd := h.add f w
    rwa [if_neg hlocks, if_neg hcycles, Int.add_zero, Int.add_zero] at hadd
  | rdtscMacro =>
    obtain ⟨-, rfl⟩ := hn
    exact h.frame rfl rfl rfl rfl
  | xtest | specEntry | xabort =>
    obtain ⟨-, rfl⟩ := hn
    exact h
  | assertFail => exact hn.elim
  | setSpecEntry | rdtsc | load | store | testAndSet | release | cas | fetchAndAdd
  | pthreadMutexLock | pthreadMutexTrylock | pthreadMutexUnlock | mallocNodes =>
    obtain rfl : n' = _ := hn
    exact h.frame rfl rfl rfl rfl

end Charged

namespace LockBalanced

variable {profileRdtsc : Bool} {r r' : Profile}

theorem idle (h : LockBalanced profileRdtsc r) (hc : Charged r 0 0 r') :
    LockBalanced profileRdtsc r' := by
  constructor
  · rw [hc.locks, hc.spans, hc.held, h.locks, Int.add_zero]
  · intro hon
    rw [hc.cycles, hc.spans, hc.held, h.cycles hon, Int.add_zero]
  · intro hoff
    rw [hc.cycles, h.off hoff, Int.add_zero]

/-- An acquisition that counts the lock and subtracts the clock. -/
theorem acquire (h : LockBalanced profileRdtsc r) {c clock : Int} (hc : Charged r 1 (-c) r')
    (hon : profileRdtsc = true → c = eventClock r' clock) (hoff : profileRdtsc = false → c = 0)
    (m : Addr) : LockBalanced profileRdtsc (r'.acquire m clock) := by
  have hlocks := hc.locks
  have hcycles := hc.cycles
  constructor
  · show r'.total .locks = r'.spans.length + ((m, _) :: r'.held).length
    rw [hlocks, h.locks, hc.spans, hc.held, List.length_cons]
    omega
  · intro hrd
    have hsum := h.cycles hrd
    show r'.total .cycles =
      (r'.spans.map _).sum - (((m, eventClock r' clock) :: r'.held).map Prod.snd).sum
    rw [hcycles, hc.spans, hc.held, List.map_cons, List.sum_cons, ← hon hrd]
    omega
  · intro hrd
    show r'.total .cycles = 0
    rw [hcycles, h.off hrd, hoff hrd]
    rfl

/-- A release that adds the clock. -/
theorem release (h : LockBalanced profileRdtsc r) {c clock : Int} (hc : Charged r 0 c r')
    (hon : profileRdtsc = true → c = eventClock r' clock) (hoff : profileRdtsc = false → c = 0)
    {m : Addr} (hm : (r'.held.lookup m).isSome) : LockBalanced profileRdtsc (r'.release m clock) := by
  have hlocks := hc.locks
  have hcycles := hc.cycles
  obtain ⟨b, hb⟩ := Option.isSome_iff_exists.mp hm
  have hmem : (m, b) ∈ r'.held := by
    obtain ⟨l₁, l₂, hl, -⟩ := List.lookup_eq_some_iff.mp hb
    rw [hl]
    simp
  -- the acquisition is found in the list, and goes from there to the spans
  have hrel : r'.release m clock = { r' with
      held := r'.held.erase (m, b)
      spans := r'.spans ++ [⟨m, b, eventClock r' clock⟩] } := by
    simp only [Profile.release, hb]
    rfl
  have hlength := List.length_erase_of_mem hmem
  have hpos := List.length_pos_of_mem hmem
  rw [hrel]
  constructor
  · show r'.total .locks = (r'.spans ++ [_]).length + (r'.held.erase (m, b)).length
    rw [hlocks, h.locks, ← hc.spans, ← hc.held, List.length_append, List.length_singleton, hlength]
    omega
  · intro hrd
    have hsum := h.cycles hrd
    show r'.total .cycles = ((r'.spans ++ [(⟨m, b, eventClock r' clock⟩ : LockSpan)]).map _).sum -
      ((r'.held.erase (m, b)).map Prod.snd).sum
    have herase : (r'.held.map Prod.snd).sum = b + ((r'.held.erase (m, b)).map Prod.snd).sum := by
      have hperm := (List.perm_cons_erase hmem).map Prod.snd
      rw [hperm.sum_eq, List.map_cons, List.sum_cons]
    rw [← hc.spans, ← hc.held, herase] at hsum
    rw [hcycles, hsum, hon hrd, List.map_append, List.sum_append, List.map_singleton,
      List.sum_singleton]
    dsimp only
    omega
  · intro hrd
    show r'.total .cycles = 0
    rw [hcycles, h.off hrd, hoff hrd]
    rfl

end LockBalanced

/-! ## The code -/

section

variable {cfg : TxConfig} {ty : LockType} {profileRdtsc : Bool} {o : CondOp} {r : Profile}
  {a b : Int} {n : Accounts}

/-- What a call has added, with the clock `c` it read last. -/
structure Entered (profileRdtsc : Bool) (r : Profile) (locks cycles c : Int) (r' : Profile) :
    Prop where
  charged : Charged r locks cycles r'
  reading : r'.reading = some c
  off : profileRdtsc = false → c = 0

theorem charged_of_avoids {α : Type} {p : LockProg α} (hp : p.Avoids LockOp.LockCounts)
    (h : Charged r a b n.profile) :
    p.stateWp ((lockLaw ty profileRdtsc).CountsIn profileRdtsc o)
      (fun _ n' => Charged r a b n'.profile) n :=
  Preserves.of_avoids (R := fun n' => Charged r a b n'.profile)
    (fun _ _ _ _ ho hn hc => hc.charges ho hn.2) hp n h

/-- Code that counts no locks, and what comes after it. -/
theorem charged_bind {α : Type} {p : LockProg α} {f : α → LockProg Int}
    {Q : Int → Accounts → Prop} (hp : p.Avoids LockOp.LockCounts) (h : Charged r a b n.profile)
    (hf : ∀ x n', Charged r a b n'.profile →
      (f x).stateWp ((lockLaw ty profileRdtsc).CountsIn profileRdtsc o) Q n') :
    (p.bind f).stateWp ((lockLaw ty profileRdtsc).CountsIn profileRdtsc o) Q n :=
  stateWp_bind.mpr (stateWp_mono hf (charged_of_avoids hp h))

/-- `TM_STATS_ADD(my_tm_stats->locks, 1)` -/
theorem addLocks_bind {f : Unit → LockProg Int} {Q : Int → Accounts → Prop}
    (h : Charged r a b n.profile)
    (hf : ∀ n', Charged r (a + 1) b n'.profile → n'.depth = n.depth →
      (f ()).stateWp ((lockLaw ty profileRdtsc).CountsIn profileRdtsc o) Q n') :
    ((tmStatsAdd .locks 1).bind f).stateWp ((lockLaw ty profileRdtsc).CountsIn profileRdtsc o) Q n := by
  intro _ n₁ hn₁
  obtain ⟨-, rfl⟩ : _ ∧ n₁ = _ := hn₁
  have hadd := h.add .locks 1
  rw [if_pos rfl, if_neg nofun, Int.add_zero] at hadd
  exact hf _ hadd rfl

/-- The clock is subtracted, and the function returns `x`. -/
theorem subRdtsc_entered (h : Charged r a 0 n.profile) (x : Int) :
    ((tmStatsSubRdtsc .cycles).bind fun _ => ret x).stateWp
      ((lockLaw ty profileRdtsc).CountsIn profileRdtsc o)
      (fun y n' => y = x ∧ ∃ c, Entered profileRdtsc r a (-c) c n'.profile) n := by
  intro c n₁ hn₁
  obtain ⟨-, hoff, rfl⟩ : _ ∧ _ ∧ n₁ = _ := hn₁
  intro _ n₂ hn₂
  obtain ⟨-, rfl⟩ : _ ∧ n₂ = _ := hn₂
  have hread : Charged r a 0 (n.profile.readClock c) := h.frame rfl rfl rfl rfl
  have hadd := hread.add .cycles (-c)
  rw [if_neg nofun, if_pos rfl, Int.add_zero, Int.zero_add] at hadd
  exact ⟨rfl, c, hadd, rfl, hoff⟩

/-- The clock is added, and the function returns `x`. -/
theorem addRdtsc_entered (h : Charged r a 0 n.profile) (x : Int) :
    ((tmStatsAddRdtsc .cycles).bind fun _ => ret x).stateWp
      ((lockLaw ty profileRdtsc).CountsIn profileRdtsc o)
      (fun y n' => y = x ∧ ∃ c, Entered profileRdtsc r a c c n'.profile) n := by
  intro c n₁ hn₁
  obtain ⟨-, hoff, rfl⟩ : _ ∧ _ ∧ n₁ = _ := hn₁
  intro _ n₂ hn₂
  obtain ⟨-, rfl⟩ : _ ∧ n₂ = _ := hn₂
  have hread : Charged r a 0 (n.profile.readClock c) := h.frame rfl rfl rfl rfl
  have hadd := hread.add .cycles c
  rw [if_neg nofun, if_pos rfl, Int.add_zero, Int.zero_add] at hadd
  exact ⟨rfl, c, hadd, rfl, hoff⟩

/-! ### Transactions -/

theorem enterHtm_noLocks (l : Addr) : (enterHtm l).Avoids LockOp.LockCounts := by
  simp [enterHtm, tmStatsAdd, tmStatsSubRdtsc, tmStatsAddRdtsc, abortStats, LockOp.LockCounts]

theorem charges_depth {lo : LockOp} {v : Int} {n' : Accounts} (ho : ¬ (lo = .xbegin ∨ lo = .xend))
    (hn : Charges profileRdtsc lo v n n') : n'.depth = n.depth := by
  cases lo with
  | xbegin => exact absurd (.inl rfl) ho
  | xend => exact absurd (.inr rfl) ho
  | rdtscMacro | xtest | specEntry | xabort =>
    obtain ⟨-, rfl⟩ := hn
    rfl
  | assertFail => exact hn.elim
  | setSpecEntry | statsAdd | rdtsc | load | store | testAndSet | release | cas | fetchAndAdd
  | pthreadMutexLock | pthreadMutexTrylock | pthreadMutexUnlock | mallocNodes =>
    obtain rfl : n' = _ := hn
    rfl

/-- Code that begins and ends no transaction stays at its depth. -/
theorem depth_of_avoids {α : Type} {p : LockProg α}
    (hp : p.Avoids fun lo => lo = .xbegin ∨ lo = .xend) {d : Nat} (hd : n.depth = d) :
    p.stateWp ((lockLaw ty profileRdtsc).CountsIn profileRdtsc o) (fun _ n' => n'.depth = d) n :=
  Preserves.of_avoids (R := fun n' => n'.depth = d)
    (fun _ _ _ _ ho hn hd => (charges_depth ho hn.2).trans hd) hp n hd

/-- Where `enter_htm` leaves the thread: it fails only outside a transaction. -/
theorem enterHtm_depth (l : Addr) (n : Accounts) :
    (enterHtm l).stateWp ((lockLaw ty profileRdtsc).CountsIn profileRdtsc o)
      (fun e n' => (e = 0 → n'.depth = n.depth + 1) ∧ (e ≠ 0 → n.depth = 0 ∧ n'.depth = 0)) n := by
  intro _ n₁ hn₁
  obtain ⟨-, rfl⟩ : _ ∧ n₁ = _ := hn₁
  intro _ n₂ hn₂
  obtain ⟨-, rfl⟩ : _ ∧ n₂ = _ := hn₂
  intro b n₃ hn₃
  obtain ⟨-, -, rfl⟩ : _ ∧ _ ∧ n₃ = _ := hn₃
  intro _ n₄ hn₄
  obtain ⟨-, rfl⟩ : _ ∧ n₄ = _ := hn₄
  intro status n₅ hn₅
  obtain ⟨-, hbegins | hfails⟩ := hn₅
  · obtain ⟨rfl, now, rfl⟩ := hbegins
    exact ⟨fun _ => rfl, fun he => absurd rfl he⟩
  · obtain ⟨hst, hd, now, rfl⟩ := hfails
    have hd : n.depth = 0 := hd
    simp only [ret_bind, if_neg hst]
    -- after an abort 1 is returned, and only counters and the flag are written
    have hone : ∀ n', Prog.stateWp ((lockLaw ty profileRdtsc).CountsIn profileRdtsc o)
        (fun e _ => e = 1) ((tmStatsAddRdtsc .tmCycles).bind fun _ => (abortStats status).bind fun _ =>
          (emit (.setSpecEntry 0)).bind fun _ => (ret 1 : LockProg Int)) n' := by
      intro n'
      apply stateWp_bind_of_forall
      intro _ n'
      apply stateWp_bind_of_forall
      intro _ n'
      exact stateWp_bind_of_forall fun _ _ => rfl
    have hdepth : ∀ n' : Accounts, n'.depth = 0 →
        Prog.stateWp ((lockLaw ty profileRdtsc).CountsIn profileRdtsc o)
        (fun _ n' => n'.depth = 0) ((tmStatsAddRdtsc .tmCycles).bind fun _ =>
          (abortStats status).bind fun _ => (emit (.setSpecEntry 0)).bind fun _ =>
            (ret 1 : LockProg Int)) n' :=
      fun n' => depth_of_avoids (by simp [tmStatsAddRdtsc, tmStatsAdd, abortStats])
    refine stateWp_mono (fun e n' he => ?_) (stateWp_and (hone _) (hdepth _ hd))
    obtain ⟨rfl, hd'⟩ := he
    exact ⟨fun h1 => absurd h1 (by decide), fun _ => ⟨hd, hd'⟩⟩

/-- Code that returns `true` only in a transaction. -/
def Speculates (ty : LockType) (profileRdtsc : Bool) (o : CondOp) (p : LockProg Bool) : Prop :=
  ∀ n, p.stateWp ((lockLaw ty profileRdtsc).CountsIn profileRdtsc o)
    (fun speculating n' => speculating = true → n'.depth ≠ 0) n

/-- `if(enter_htm(l)==0){return 0;}` in a loop, which goes on with `rest`. -/
theorem enterHtm_speculates {σ : Type} {l : Addr} {rest : LockProg (σ ⊕ Bool)}
    (hrest : ∀ n, rest.stateWp ((lockLaw ty profileRdtsc).CountsIn profileRdtsc o)
      (Sum.elim (fun _ _ => True) fun speculating n' => speculating = true → n'.depth ≠ 0) n)
    (n : Accounts) :
    ((enterHtm l).bind fun e => if e = 0 then ret (.inr true) else rest).stateWp
      ((lockLaw ty profileRdtsc).CountsIn profileRdtsc o)
      (Sum.elim (fun _ _ => True) fun speculating n' => speculating = true → n'.depth ≠ 0) n := by
  apply stateWp_bind.mpr
  apply stateWp_mono _ (enterHtm_depth l n)
  intro e n' hn'
  split
  · rename_i he
    intro _
    rw [hn'.1 he]
    exact Nat.succ_ne_zero _
  · exact hrest n'

theorem pthreadLockTmLoop_speculates (l : Addr) :
    Speculates ty profileRdtsc o (pthreadLockTmLoop cfg l) := by
  intro n
  apply stateWp_loop (I := fun _ _ => True) _ _ trivial
  intro tries n _
  apply stateWp_bind_of_forall
  intro busy n
  split
  · exact nofun
  apply enterHtm_speculates
  intro n
  split
  · exact stateWp_bind_of_forall fun _ _ => nofun
  · trivial

theorem tasLockTmLoop_speculates (l : Addr) :
    Speculates ty profileRdtsc o (tasLockTmLoop cfg l) := by
  intro n
  apply stateWp_loop (I := fun _ _ => True) _ _ trivial
  intro tries n _
  apply stateWp_bind_of_forall
  intro held n
  split
  · exact nofun
  apply enterHtm_speculates
  intro n
  split
  · exact stateWp_bind_of_forall fun _ _ => nofun
  · trivial

theorem tasPriorityLockTmLoop_speculates (l : Addr) :
    Speculates ty profileRdtsc o (tasPriorityLockTmLoop cfg l) := by
  intro n
  apply stateWp_loop (I := fun _ _ => True) _ _ trivial
  intro _ n _
  apply stateWp_bind_of_forall
  intro all n
  -- the waiting part: only the transaction returns with the lock by speculation
  have hrest : ∀ (held : Int) (n : Accounts), Prog.stateWp
      ((lockLaw ty profileRdtsc).CountsIn profileRdtsc o)
      (Sum.elim (fun _ _ => True) fun speculating n' => speculating = true → n'.depth ≠ 0)
      (if held = 0 then ret (.inr false)
      else if BitVec.ofInt 32 (readyOf all) < cfg.maxDistance - cfg.minDistance then do
        let e ← enterHtm l
        if e = 0 then return .inr true
        else
          let _ ← perform (.fetchAndAdd (.lock l .ready) 1)
          tatasLoop cfg (.lock l .val)
          let _ ← perform (.fetchAndAdd (.lock l .ready) (-1))
          return .inr false
      else ret (.inl ()) : LockProg (Unit ⊕ Bool)) n := by
    intro held n
    split
    · exact nofun
    split
    · apply enterHtm_speculates
      intro n
      apply stateWp_bind_of_forall
      intro _ n
      apply stateWp_bind_of_forall
      intro _ n
      exact stateWp_bind_of_forall fun _ _ => nofun
    · trivial
  show Prog.stateWp _ _ (if readyOf all = 0 then _ else _) n
  split
  · exact stateWp_bind_of_forall hrest
  · exact hrest 1 n

theorem ticketLockTmLoop_speculates (l : Addr) (t : Int) :
    Speculates ty profileRdtsc o (ticketLockTmLoop cfg l t) := by
  intro n
  apply stateWp_loop (I := fun _ _ => True) _ _ trivial
  intro tries n _
  apply stateWp_bind_of_forall
  intro now n
  split
  · exact nofun
  apply stateWp_bind_of_forall
  intro now' n
  show Prog.stateWp _ _ (if _ ∧ _ ∧ _ then _ else _) n
  split
  · apply stateWp_bind.mpr
    apply stateWp_mono _ (enterHtm_depth l n)
    intro e n' hn'
    split
    · -- the abort at the turn of the thread does not return
      rename_i he
      have hne : n'.depth ≠ 0 := by
        rw [hn'.1 he]
        exact Nat.succ_ne_zero _
      have hstay : ∀ p : LockProg (Word ⊕ Bool), p.Avoids (fun lo => lo = .xbegin ∨ lo = .xend) →
          p.stateWp ((lockLaw ty profileRdtsc).CountsIn profileRdtsc o)
            (Sum.elim (fun _ _ => True) fun speculating n' => speculating = true → n'.depth ≠ 0) n' := by
        intro p hp
        refine stateWp_mono (fun x n₁ hd => ?_) (depth_of_avoids hp rfl)
        cases x with
        | inl => trivial
        | inr => exact fun _ => hd ▸ hne
      exact hstay _ (by simp [load])
    · trivial
  · trivial

/-! ### Code that counts no locks -/

theorem tatas_noLocks (x : Loc) (v : Int) : (tatas x v).Avoids LockOp.LockCounts := by
  simp [tatas, load, LockOp.LockCounts]

theorem tatasLoop_noLocks (x : Loc) : (tatasLoop cfg x).Avoids LockOp.LockCounts :=
  .loop (fun _ => by simp [tatas_noLocks]) _ _

theorem tasLockTmLoop_noLocks (l : Addr) : (tasLockTmLoop cfg l).Avoids LockOp.LockCounts :=
  .loop (fun _ => by simp [tatas_noLocks, enterHtm_noLocks, tatasLoop_noLocks]) _ _

theorem tasPriorityLockTmLoop_noLocks (l : Addr) :
    (tasPriorityLockTmLoop cfg l).Avoids LockOp.LockCounts :=
  .loop (fun _ => by
    simp [load, tatas_noLocks, enterHtm_noLocks, tatasLoop_noLocks, LockOp.LockCounts]) _ _

theorem ticketLockLoop_noLocks (l : Addr) (t : Int) :
    (ticketLockLoop cfg l t).Avoids LockOp.LockCounts :=
  .loop (fun _ => by simp [load, LockOp.LockCounts]) _ _

theorem ticketLockTmLoop_noLocks (l : Addr) (t : Int) :
    (ticketLockTmLoop cfg l t).Avoids LockOp.LockCounts :=
  .loop (fun _ => by simp [load, enterHtm_noLocks, LockOp.LockCounts]) _ _

theorem pthreadLockTmLoop_noLocks (l : Addr) :
    (pthreadLockTmLoop cfg l).Avoids LockOp.LockCounts :=
  .loop (fun _ => by simp [enterHtm_noLocks, LockOp.LockCounts]) _ _

theorem spinWhile_noLocks (x : Loc) (c : Int → Bool) :
    (spinWhile cfg x c).Avoids LockOp.LockCounts :=
  .loop (fun _ => by simp [load, LockOp.LockCounts]) _ _

theorem mcsLockCommon_noLocks (lk : Addr) (tryLock tm : Bool) :
    (mcsLockCommon cfg lk tryLock tm).Avoids LockOp.LockCounts := by
  have hinit : ∀ nodes : Addr,
      (forM (List.range 8) fun (i : Nat) => initNode (nodes + mcsNodeSize * i)).Avoids
        LockOp.LockCounts :=
    fun nodes => .forM (fun i => by simp [initNode, store, LockOp.LockCounts]) _
  simp [mcsLockCommon, mcsQueued, mcsWaitTm, getFreeNode, allocMoreNodes, useNode, load, store,
    Native.assert, spinWhile_noLocks, hinit, LockOp.LockCounts]

theorem mcsUnlockCommon_noLocks (lk : Addr) (tm : Bool) :
    (mcsUnlockCommon cfg lk tm).Avoids LockOp.LockCounts := by
  have hfind : ∀ mine, (findNode cfg lk mine).Avoids LockOp.LockCounts :=
    fun mine => .loop (fun _ => by simp [load, Native.assert, LockOp.LockCounts]) _ _
  have hhalt : ∀ first, (haltSpeculators cfg first).Avoids LockOp.LockCounts :=
    fun first => .loop (fun _ => by simp [load, store, LockOp.LockCounts]) _ _
  simp [mcsUnlockCommon, mcsHandover, deallocNode, load, store, Native.assert, hfind, hhalt,
    spinWhile_noLocks, LockOp.LockCounts]

/-- The queue locks count nothing. -/
theorem uncounted_noLocks (hty : LockType.Uncounted ty) {p : LockProg Int}
    (hp : lockCode cfg ty o = some p) : p.Avoids LockOp.LockCounts := by
  cases o with
  | enterHtm x =>
    obtain rfl := Option.some.inj hp
    exact enterHtm_noLocks x
  | tlLock m =>
    obtain rfl := Option.some.inj hp
    cases ty with
    | mcs | mcsTm => exact mcsLockCommon_noLocks ..
    | _ => exact hty.elim
  | tlTrylock m =>
    obtain rfl := Option.some.inj hp
    cases ty with
    | mcs | mcsTm => exact mcsLockCommon_noLocks ..
    | _ => exact hty.elim
  | tlUnlock m =>
    obtain rfl := Option.some.inj hp
    cases ty with
    | mcs => exact mcsUnlockCommon_noLocks ..
    | mcsTm =>
      simp [tlUnlock, lockTypes, mcsUnlockTm, mcsUnlockCommon_noLocks, LockOp.LockCounts]
    | _ => exact hty.elim
  | _ => cases hp

/-! ### Acquisitions -/

/-- The test of the flag outside a transaction. -/
theorem test_bind {k : Int → LockProg Int} {Q : Int → Accounts → Prop} (h0 : n.specEntry = 0)
    (hk : (k 0).stateWp ((lockLaw ty profileRdtsc).CountsIn profileRdtsc o) Q n) :
    (op .specEntry k).stateWp ((lockLaw ty profileRdtsc).CountsIn profileRdtsc o) Q n := by
  intro v n₁ hn₁
  obtain ⟨-, rfl, rfl⟩ := hn₁
  rw [h0]
  exact hk

/-- A lock that was counted is acquired, unless the thread speculates. -/
theorem lockTm_entered {loop : LockProg Bool} (hspec : Speculates ty profileRdtsc o loop)
    (hloop : loop.Avoids LockOp.LockCounts) (h : Charged r 1 0 n.profile) :
    (loop.bind fun speculating => if speculating then (ret 0 : LockProg Int)
      else (tmStatsSubRdtsc .cycles).bind fun _ => ret 0).stateWp
      ((lockLaw ty profileRdtsc).CountsIn profileRdtsc o)
      (fun _ n' => n'.depth = 0 → ∃ c, Entered profileRdtsc r 1 (-c) c n'.profile) n := by
  apply stateWp_bind.mpr
  refine stateWp_mono (fun speculating n' hn' => ?_)
    (stateWp_and (hspec n) (charged_of_avoids hloop h))
  split
  · rename_i hs
    exact fun hd => absurd hd (hn'.1 hs)
  · exact stateWp_mono (fun _ _ hentered _ => hentered.2) (subRdtsc_entered hn'.2 0)

/-- The types whose `tl_lock` subtracts `RDTSC()`. -/
def LockType.LockEnters : LockType → Prop
  | .pthread | .pthreadTm | .tas | .tasTm | .ticket | .ticketTm => True
  | .tasPriorityTm | .tasHle | .mcs | .mcsTm => False

theorem lock_entered (hty : LockType.LockEnters ty)
    (hflag : LockType.Prefetches ty → n.specEntry = 0) (h : Charged r 0 0 n.profile) (m : Addr) :
    (tlLock cfg ty m).stateWp ((lockLaw ty profileRdtsc).CountsIn profileRdtsc o)
      (fun _ n' => n'.depth = 0 → ∃ c, Entered profileRdtsc r 1 (-c) c n'.profile) n := by
  have hsub : ∀ n' : Accounts, Charged r 1 0 n'.profile → ∀ x : Int,
      Prog.stateWp ((lockLaw ty profileRdtsc).CountsIn profileRdtsc o)
        (fun _ n' => n'.depth = 0 → ∃ c, Entered profileRdtsc r 1 (-c) c n'.profile)
        ((tmStatsSubRdtsc .cycles).bind fun _ => (ret x : LockProg Int)) n' :=
    fun n' h' x => stateWp_mono (fun _ _ hentered _ => hentered.2) (subRdtsc_entered h' x)
  cases ty with
  | tasPriorityTm | tasHle | mcs | mcsTm => exact hty.elim
  | pthread =>
    apply addLocks_bind h
    intro n₁ h₁ _
    apply charged_bind (p := perform (.pthreadMutexLock m)) (by simp [LockOp.LockCounts]) h₁
    intro x n₂ h₂
    exact hsub n₂ h₂ x
  | tas =>
    apply addLocks_bind h
    intro n₁ h₁ _
    apply charged_bind (tatasLoop_noLocks _) h₁
    intro _ n₂ h₂
    exact hsub n₂ h₂ 0
  | ticket =>
    apply addLocks_bind h
    intro n₁ h₁ _
    apply charged_bind (p := perform _) (by simp [LockOp.LockCounts]) h₁
    intro t n₂ h₂
    apply charged_bind (ticketLockLoop_noLocks _ _) h₂
    intro _ n₃ h₃
    exact hsub n₃ h₃ 0
  | pthreadTm =>
    apply test_bind (hflag trivial)
    apply addLocks_bind h
    intro n₁ h₁ _
    exact lockTm_entered (pthreadLockTmLoop_speculates m) (pthreadLockTmLoop_noLocks m) h₁
  | tasTm =>
    apply test_bind (hflag trivial)
    apply addLocks_bind h
    intro n₁ h₁ _
    exact lockTm_entered (tasLockTmLoop_speculates m) (tasLockTmLoop_noLocks m) h₁
  | ticketTm =>
    apply test_bind (hflag trivial)
    apply addLocks_bind h
    intro n₁ h₁ _
    apply charged_bind (p := perform _) (by simp [LockOp.LockCounts]) h₁
    intro t n₂ h₂
    exact lockTm_entered (ticketLockTmLoop_speculates m t) (ticketLockTmLoop_noLocks m t) h₂

/-- `tl_trylock` of the types that enter it as `tl_lock`. -/
def LockType.TrylockEnters : LockType → Prop
  | .pthread | .tas | .tasTm | .tasPriorityTm | .ticket | .ticketTm => True
  | .pthreadTm | .tasHle | .mcs | .mcsTm => False

/-- What a trylock has added when it returns `x`. -/
def TryEntered (profileRdtsc : Bool) (r : Profile) (sign : Int) (x : Int) (n : Accounts) : Prop :=
  (x = 0 → ∃ c, Entered profileRdtsc r 1 (sign * c) c n.profile) ∧ (x ≠ 0 → Charged r 0 0 n.profile)

/-- The end of a trylock that has the lock. -/
theorem gotLock_entered (h : Charged r 0 0 n.profile) :
    ((tmStatsAdd .locks 1).bind fun _ => (tmStatsSubRdtsc .cycles).bind fun _ =>
      (ret 0 : LockProg Int)).stateWp ((lockLaw ty profileRdtsc).CountsIn profileRdtsc o)
      (TryEntered profileRdtsc r (-1)) n := by
  apply addLocks_bind h
  intro n₁ h₁ _
  refine stateWp_mono (fun x n' hentered => ?_) (subRdtsc_entered h₁ 0)
  obtain ⟨rfl, c, hc⟩ := hentered
  exact ⟨fun _ => ⟨c, by rwa [Int.neg_one_mul]⟩, fun hx => absurd rfl hx⟩

theorem trylock_entered (hty : LockType.TrylockEnters ty)
    (hflag : LockType.Prefetches ty → n.specEntry = 0) (h : Charged r 0 0 n.profile) (m : Addr) :
    (tlTrylock cfg ty m).stateWp ((lockLaw ty profileRdtsc).CountsIn profileRdtsc (.tlTrylock m))
      (TryEntered profileRdtsc r (-1)) n := by
  have hfailed : ∀ n' : Accounts, Charged r 0 0 n'.profile →
      TryEntered profileRdtsc r (-1) 1 n' :=
    fun n' h' => ⟨fun hx => absurd hx (by decide), fun _ => h'⟩
  cases ty with
  | pthreadTm | tasHle | mcs | mcsTm => exact hty.elim
  | pthread =>
    apply charged_bind (p := perform (.pthreadMutexTrylock m)) (by simp [LockOp.LockCounts]) h
    intro x n₁ h₁
    show Prog.stateWp _ _ (if x = 0 then _ else _) n₁
    split
    · rename_i hx
      subst hx
      exact gotLock_entered h₁
    · rename_i hx
      exact ⟨fun h0 => absurd h0 hx, fun _ => h₁⟩
  | tas =>
    apply charged_bind (tatas_noLocks _ _) h
    intro e n₁ h₁
    split
    · exact gotLock_entered h₁
    · exact hfailed n₁ h₁
  | tasTm =>
    apply test_bind (hflag trivial)
    apply charged_bind (tatas_noLocks _ _) h
    intro e n₁ h₁
    split
    · exact gotLock_entered h₁
    · exact hfailed n₁ h₁
  | tasPriorityTm =>
    apply test_bind (hflag trivial)
    apply charged_bind (p := load _) (by simp [load, LockOp.LockCounts]) h
    intro all n₁ h₁
    have hrest : ∀ (held : Int) n', Charged r 0 0 n'.profile →
        Prog.stateWp ((lockLaw .tasPriorityTm profileRdtsc).CountsIn profileRdtsc (.tlTrylock m))
          (TryEntered profileRdtsc r (-1)) (if held = 0 then do
            tmStatsAdd .locks 1
            tmStatsSubRdtsc .cycles
            return 0
          else ret 1 : LockProg Int) n' := by
      intro held n' h'
      split
      · exact gotLock_entered h'
      · exact hfailed n' h'
    show Prog.stateWp _ _ (if readyOf all = 0 then _ else _) n₁
    split
    · exact charged_bind (tatas_noLocks _ _) h₁ hrest
    · exact hrest 1 n₁ h₁
  | ticket =>
    apply charged_bind (p := load _) (by simp [load, LockOp.LockCounts]) h
    intro now n₁ h₁
    apply charged_bind (p := perform _) (by simp [LockOp.LockCounts]) h₁
    intro stored n₂ h₂
    split
    · exact gotLock_entered h₂
    · exact hfailed n₂ h₂
  | ticketTm =>
    apply test_bind (hflag trivial)
    apply charged_bind (p := load _) (by simp [load, LockOp.LockCounts]) h
    intro now n₁ h₁ stored n₂ hn₂
    -- the swap stores, as the condition says
    have hstored : stored ≠ 0 := hn₂.1 id
    have h₂ : Charged r 0 0 n₂.profile := h₁.charges (by simp [LockOp.LockCounts]) hn₂.2
    show Prog.stateWp _ _ (Prog.bind (if stored ≠ 0 then _ else _) _) n₂
    rw [if_pos hstored]
    exact gotLock_entered h₂

/-- `pthread_trylock_tm` adds the clock where the others subtract it. -/
theorem pthreadTrylockTm_entered (h0 : n.specEntry = 0) (h : Charged r 0 0 n.profile) (m : Addr) :
    (pthreadTrylockTm m).stateWp ((lockLaw ty profileRdtsc).CountsIn profileRdtsc o)
      (TryEntered profileRdtsc r 1) n := by
  apply test_bind h0
  apply charged_bind (p := perform (.pthreadMutexTrylock m)) (by simp [LockOp.LockCounts]) h
  intro x n₁ h₁
  show Prog.stateWp _ _ (if x = 0 then _ else _) n₁
  split
  · rename_i hx
    subst hx
    apply addLocks_bind h₁
    intro n₂ h₂ _
    refine stateWp_mono (fun x n' hentered => ?_) (addRdtsc_entered h₂ 0)
    obtain ⟨rfl, c, hc⟩ := hentered
    exact ⟨fun _ => ⟨c, by rwa [Int.one_mul]⟩, fun hx => absurd rfl hx⟩
  · rename_i hx
    exact ⟨fun h0 => absurd h0 hx, fun _ => h₁⟩

/-- `tas_priority_lock_tm` subtracts the clock in every build. -/
theorem tasPriorityLockTm_charged (h0 : n.specEntry = 0) (h : Charged r 0 0 n.profile) (m : Addr) :
    (tasPriorityLockTm cfg m).stateWp ((lockLaw ty profileRdtsc).CountsIn profileRdtsc o)
      (fun _ n' => n'.depth = 0 → ∃ c, Charged r 1 (-c) n'.profile ∧ n'.profile.reading = some c) n := by
  apply test_bind h0
  apply addLocks_bind h
  intro n₁ h₁ _
  apply stateWp_bind.mpr
  refine stateWp_mono (fun speculating n₂ hn₂ => ?_)
    (stateWp_and (tasPriorityLockTmLoop_speculates m n₁)
      (charged_of_avoids (tasPriorityLockTmLoop_noLocks m) h₁))
  split
  · rename_i hs
    exact fun hd => absurd hd (hn₂.1 hs)
  · intro c n₃ hn₃
    obtain ⟨-, rfl⟩ : _ ∧ n₃ = _ := hn₃
    intro _ n₄ hn₄
    obtain ⟨-, rfl⟩ : _ ∧ n₄ = _ := hn₄
    have hread : Charged r 1 0 (n₂.profile.readClock c) := hn₂.2.frame rfl rfl rfl rfl
    have hadd := hread.add .cycles (-c)
    rw [if_neg nofun, if_pos rfl, Int.add_zero, Int.zero_add] at hadd
    exact fun _ => ⟨c, hadd, rfl⟩

/-! ### Releases -/

/-- `tl_unlock` of every type that counts, outside a transaction. -/
theorem unlock_entered (hty : ¬ LockType.Uncounted ty) (hd : n.depth = 0)
    (hflag : LockType.Prefetches ty → n.specEntry = 0) (h : Charged r 0 0 n.profile) (m : Addr) :
    (tlUnlock cfg ty m).stateWp ((lockLaw ty profileRdtsc).CountsIn profileRdtsc o)
      (fun _ n' => ∃ c, Entered profileRdtsc r 0 c c n'.profile) n := by
  have hadd : ∀ n' : Accounts, Charged r 0 0 n'.profile → ∀ x : Int,
      Prog.stateWp ((lockLaw ty profileRdtsc).CountsIn profileRdtsc o)
        (fun _ n' => ∃ c, Entered profileRdtsc r 0 c c n'.profile)
        ((tmStatsAddRdtsc .cycles).bind fun _ => (ret x : LockProg Int)) n' :=
    fun n' h' x => stateWp_mono (fun _ _ hentered => hentered.2) (addRdtsc_entered h' x)
  cases ty with
  | mcs | mcsTm => exact absurd trivial hty
  | pthread =>
    apply charged_bind (p := perform _) (by simp [LockOp.LockCounts]) h
    intro x n₁ h₁
    exact hadd n₁ h₁ x
  | pthreadTm =>
    apply test_bind (hflag trivial)
    apply charged_bind (p := perform (.pthreadMutexUnlock m)) (by simp [LockOp.LockCounts]) h
    intro x n₁ h₁
    exact hadd n₁ h₁ 0
  | tas =>
    intro _ n₁ hn₁
    exact hadd n₁ (h.charges (by simp [LockOp.LockCounts]) hn₁.2) 0
  | tasTm =>
    apply test_bind (hflag trivial)
    intro _ n₁ hn₁
    exact hadd n₁ (h.charges (by simp [LockOp.LockCounts]) hn₁.2) 0
  | tasPriorityTm =>
    apply test_bind (hflag trivial)
    intro _ n₁ hn₁
    exact hadd n₁ (h.charges (by simp [LockOp.LockCounts]) hn₁.2) 0
  | tasHle =>
    intro active n₁ hn₁
    obtain ⟨-, rfl, rfl⟩ := hn₁
    rw [if_pos hd]
    intro _ n₂ hn₂
    exact hadd n₂ (h.charges (by simp [LockOp.LockCounts]) hn₂.2) 0
  | ticket =>
    apply charged_bind (p := load _) (by simp [load, LockOp.LockCounts]) h
    intro now n₁ h₁ _ n₂ hn₂
    exact hadd n₂ (h₁.charges (by simp [LockOp.LockCounts]) hn₂.2) 0
  | ticketTm =>
    apply test_bind (hflag trivial)
    apply charged_bind (p := load _) (by simp [load, LockOp.LockCounts]) h
    intro now n₁ h₁ _ n₂ hn₂
    exact hadd n₂ (h₁.charges (by simp [LockOp.LockCounts]) hn₂.2) 0

/-! ### Elision -/

/-- `tas_lock_hle` speculates or counts the lock, and enters no clock. -/
def HleLocked (r : Profile) (d : Nat) (n : Accounts) : Prop :=
  (n.depth ≠ 0 ∧ Charged r 0 0 n.profile) ∨ (d = 0 ∧ n.depth = 0 ∧ Charged r 1 0 n.profile)

/-- Code that leaves the locks and the transactions alone. -/
theorem hleLocked_of_avoids {α : Type} {p : LockProg α} {d : Nat}
    (hp : p.Avoids LockOp.LockCounts) (hp' : p.Avoids fun lo => lo = .xbegin ∨ lo = .xend)
    (h : HleLocked r d n) :
    p.stateWp ((lockLaw ty profileRdtsc).CountsIn profileRdtsc o) (fun _ => HleLocked r d) n := by
  cases h with
  | inl h =>
    refine stateWp_mono (fun x n' hn' => ?_)
      (stateWp_and (depth_of_avoids hp' rfl) (charged_of_avoids hp h.2))
    exact .inl ⟨hn'.1 ▸ h.1, hn'.2⟩
  | inr h =>
    refine stateWp_mono (fun x n' hn' => ?_)
      (stateWp_and (depth_of_avoids hp' h.2.1) (charged_of_avoids hp h.2.2))
    exact .inr ⟨h.1, hn'⟩

theorem tasLockHleLoop_locked (h : Charged r 0 0 n.profile) (m : Addr) :
    (tasLockHleLoop cfg m).stateWp ((lockLaw ty profileRdtsc).CountsIn profileRdtsc o)
      (fun _ => HleLocked r n.depth) n := by
  apply stateWp_loop (I := fun _ n' => n'.depth = n.depth ∧ Charged r 0 0 n'.profile) _ _ ⟨rfl, h⟩
  intro tries n₁ h₁
  apply stateWp_bind.mpr
  refine stateWp_mono (fun e n₂ hn₂ => ?_)
    (stateWp_and (enterHtm_depth 0 n₁) (charged_of_avoids (enterHtm_noLocks 0) h₁.2))
  obtain ⟨⟨hbegun, hfailed⟩, h₂⟩ := hn₂
  split
  · -- the transaction has begun: nothing is counted in it
    rename_i he
    have hne : n₂.depth ≠ 0 := by
      rw [hbegun he]
      exact Nat.succ_ne_zero _
    exact .inl ⟨hne, h₂⟩
  rename_i he
  obtain ⟨hd₁, hd₂⟩ := hfailed he
  have hd : n.depth = 0 := h₁.1 ▸ hd₁
  split
  · intro _ n₃ hn₃
    obtain ⟨-, rfl⟩ : _ ∧ n₃ = _ := hn₃
    have hadd := h₂.add .locks 1
    rw [if_pos rfl, if_neg nofun, Int.add_zero, Int.zero_add] at hadd
    -- the last try has failed, so the lock is counted and taken
    have hlocked : HleLocked r n.depth { n₂ with profile := n₂.profile.add .locks 1 } :=
      .inr ⟨hd, hd₂, hadd⟩
    show Prog.stateWp _ _ ((tatasLoop cfg (.lock m .val)).bind fun _ =>
      (ret (.inr ()) : LockProg (Word ⊕ Unit))) _
    apply stateWp_bind.mpr
    have hloop : (tatasLoop cfg (.lock m .val)).Avoids fun lo => lo = .xbegin ∨ lo = .xend :=
      (tatasLoop_noTx _).mono fun lo ho => by obtain rfl | rfl := ho <;> trivial
    exact stateWp_mono (fun _ _ hn' => hn') (hleLocked_of_avoids (tatasLoop_noLocks _) hloop hlocked)
  · exact ⟨hd₂.trans hd.symm, h₂⟩

theorem tasLockHle_locked (h : Charged r 0 0 n.profile) (m : Addr) :
    (tasLockHle cfg m).stateWp ((lockLaw ty profileRdtsc).CountsIn profileRdtsc o)
      (fun _ => HleLocked r n.depth) n := by
  apply stateWp_bind.mpr
  refine stateWp_mono (fun _ n' hn' => ?_) (tasLockHleLoop_locked h m)
  exact hleLocked_of_avoids (by simp [load, LockOp.LockCounts]) (by simp [load]) hn'

/-- `tas_unlock_hle` in a transaction ends it and counts no lock. -/
theorem tasUnlockHle_inside (hd : n.depth ≠ 0) (h : Charged r 0 0 n.profile) (m : Addr) :
    (tasUnlockHle m).stateWp ((lockLaw ty profileRdtsc).CountsIn profileRdtsc o)
      (fun _ n' => Charged r 0 0 n'.profile) n := by
  intro active n₁ hn₁
  obtain ⟨-, rfl, rfl⟩ := hn₁
  rw [if_neg hd]
  exact charged_of_avoids (by simp [tmStatsAdd, LockOp.LockCounts]) h

theorem tasUnlockHle_depth (hd : n.depth = 0) (m : Addr) :
    (tasUnlockHle m).stateWp ((lockLaw ty profileRdtsc).CountsIn profileRdtsc o)
      (fun _ n' => n'.depth = 0) n := by
  intro active n₁ hn₁
  obtain ⟨-, rfl, rfl⟩ := hn₁
  rw [if_pos hd]
  exact depth_of_avoids (by simp [tmStatsAddRdtsc, tmStatsAdd]) hd

/-! ## The law is kept -/

/-- A transaction that no code ends stays live. -/
theorem live_of_avoids {α : Type} {p : LockProg α} (hp : p.Avoids (· = .xend))
    (hd : n.depth ≠ 0) :
    p.stateWp ((lockLaw ty profileRdtsc).CountsIn profileRdtsc o) (fun _ n' => n'.depth ≠ 0) n := by
  apply Preserves.of_avoids (R := fun n' => n'.depth ≠ 0) _ hp n hd
  intro lo v n₁ n₂ ho hn hne
  by_cases hbegin : lo = .xbegin
  · subst hbegin
    obtain ⟨-, ⟨-, now, rfl⟩ | ⟨-, h0, -⟩⟩ := hn
    · exact Nat.succ_ne_zero _
    · exact absurd h0 hne
  · rw [charges_depth (fun h => h.elim hbegin ho) hn.2]
    exact hne

/-- Outside a transaction, and not in the code of one that was called there. -/
theorem returns_of_outside {r' : Profile} {x clock : Int} (hspec : r'.speculative = false) :
    r'.returns o x false clock = match o with
      | .tlLock m | .tlTrylock m => if x = 0 then r'.acquire m clock else r'
      | .tlUnlock m => r'.release m clock
      | _ => r' := by
  unfold Profile.returns
  rw [hspec]
  rfl

/-- A call that ends in a transaction, or was called in one, has no lock to record. -/
theorem returns_of_inside {r' : Profile} {x clock : Int} {inside : Bool}
    (h : r'.speculative = true ∨ inside = true) : r'.returns o x inside clock = r' := by
  have hor : (r'.speculative || inside) = true := by
    cases h with
    | inl h => simp [h]
    | inr h => simp [h]
  simp only [Profile.returns, hor, if_true]

/-- A call that counts no lock, where none was acquired or released. -/
theorem returned_idle {x : Int} (hb : LockBalanced profileRdtsc r)
    (hheld : LockType.Uncounted ty → r.held = []) (hc : Charged r 0 0 n.profile)
    (hsame : ∀ clock, (lockLaw ty profileRdtsc).Leave o x n clock →
      n.profile.returns o x (n.depth ≠ 0) clock = n.profile) :
    (lockLaw ty profileRdtsc).Returned o x n := by
  intro clock hleave _
  show LockBalanced profileRdtsc (n.profile.returns o x (n.depth ≠ 0) clock) ∧ (_ →
    (n.profile.returns o x (n.depth ≠ 0) clock).held = [])
  rw [hsame clock hleave, hc.held]
  exact ⟨hb.idle hc, hheld⟩

/-- A call that acquires a lock and counts it. -/
theorem returned_acquire {m : Addr} (ho : o = .tlLock m ∨ o = .tlTrylock m)
    (hty : ¬ LockType.Uncounted ty) (hb : LockBalanced profileRdtsc r)
    (hspec : n.profile.speculative = false) (hd : n.depth = 0)
    (hc : ∀ clock, Sound ty profileRdtsc o 0 (eventClock n.profile clock) →
      ∃ c, Charged r 1 (-c) n.profile ∧ (profileRdtsc = true → c = eventClock n.profile clock) ∧
        (profileRdtsc = false → c = 0)) :
    (lockLaw ty profileRdtsc).Returned o 0 n := by
  intro clock hleave _
  obtain ⟨c, hcharged, hon, hoff⟩ := hc clock (hleave hspec hd).2
  have hreturns : n.profile.returns o 0 (n.depth ≠ 0) clock = n.profile.acquire m clock := by
    rw [decide_eq_false (not_not.mpr hd), returns_of_outside hspec]
    obtain rfl | rfl := ho <;> rfl
  show LockBalanced profileRdtsc (n.profile.returns o 0 (n.depth ≠ 0) clock) ∧ _
  rw [hreturns]
  exact ⟨hb.acquire hcharged hon hoff m, fun h => absurd h hty⟩

/-- A call that releases a lock and enters it. -/
theorem returned_release {m : Addr} {x c : Int} (hty : ¬ LockType.Uncounted ty)
    (hb : LockBalanced profileRdtsc r) (hspec : r.speculative = false) (hd : n.depth = 0)
    (hc : Entered profileRdtsc r 0 c c n.profile) :
    (lockLaw ty profileRdtsc).Returned (.tlUnlock m) x n := by
  intro clock hleave _
  have hspec' : n.profile.speculative = false := hc.charged.speculative.trans hspec
  have hheld : (n.profile.held.lookup m).isSome := (hleave hspec' hd).1
  have hreturns : n.profile.returns (.tlUnlock m) x (n.depth ≠ 0) clock =
      n.profile.release m clock := by
    rw [decide_eq_false (not_not.mpr hd), returns_of_outside hspec']
  have hclock : c = eventClock n.profile clock := by
    simp only [eventClock, hc.reading, Option.getD_some]
  show LockBalanced profileRdtsc (n.profile.returns (.tlUnlock m) x (n.depth ≠ 0) clock) ∧ _
  rw [hreturns]
  exact ⟨hb.release hc.charged (fun _ => hclock) hc.off hheld, fun h => absurd h hty⟩

/-- The end of `tl_lock` outside a transaction. -/
theorem returned_lock {m : Addr} {x : Int} (hty : ¬ LockType.Uncounted ty) (hhle : ty ≠ .tasHle)
    (hb : LockBalanced profileRdtsc r) (hspec : r.speculative = false)
    (h : n.depth = 0 → ∃ c, Charged r 1 (-c) n.profile ∧ n.profile.reading = some c ∧
      (profileRdtsc = false → SoundAt ty profileRdtsc true c → c = 0)) :
    (lockLaw ty profileRdtsc).Returned (.tlLock m) x n := by
  intro clock hleave hor
  have hd : n.depth = 0 := hor.resolve_left hhle
  obtain ⟨c, hc, hread, hoff⟩ := h hd
  have hspec' : n.profile.speculative = false := hc.speculative.trans hspec
  obtain rfl : x = 0 := (hleave hspec' hd).1
  refine returned_acquire (.inl rfl) hty hb hspec' hd (fun clock hsound => ?_) clock hleave hor
  have hclock : eventClock n.profile clock = c := by
    simp only [eventClock, hread, Option.getD_some]
  rw [hclock] at hsound ⊢
  exact ⟨c, hc, fun _ => rfl, fun hrd => hoff hrd hsound⟩

/-- The end of `tl_trylock` outside a transaction: the clock was subtracted, or was 0. -/
theorem returned_trylock {m : Addr} {x sign : Int} (hty : ¬ LockType.Uncounted ty)
    (hhle : ty ≠ .tasHle) (hb : LockBalanced profileRdtsc r) (hspec : r.speculative = false)
    (hsign : sign = -1 ∨ sign = 1 ∧ ty = .pthreadTm) (h : TryEntered profileRdtsc r sign x n) :
    (lockLaw ty profileRdtsc).Returned (.tlTrylock m) x n := by
  intro clock hleave hor
  have hd : n.depth = 0 := hor.resolve_left hhle
  by_cases hx : x = 0
  · subst hx
    obtain ⟨c, hc⟩ := h.1 rfl
    have hspec' : n.profile.speculative = false := hc.charged.speculative.trans hspec
    refine returned_acquire (.inr rfl) hty hb hspec' hd (fun clock hsound => ?_) clock hleave hor
    have hclock : eventClock n.profile clock = c := by
      simp only [eventClock, hc.reading, Option.getD_some]
    have hcharged : Charged r 1 (-c) n.profile := by
      obtain rfl | ⟨rfl, rfl⟩ := hsign
      · have hcharged := hc.charged
        rwa [Int.neg_one_mul] at hcharged
      · -- `pthread_trylock_tm` adds the clock, which is right only if it reads 0
        have hzero : c = 0 := by
          cases hrd : profileRdtsc with
          | false => exact hc.off hrd
          | true => exact hclock ▸ hsound rfl hrd rfl
        have hcharged := hc.charged
        rw [hzero, Int.mul_zero] at hcharged
        rwa [hzero, Int.neg_zero]
    exact ⟨c, hcharged, fun _ => hclock.symm, hc.off⟩
  · have hc := h.2 hx
    have hspec' : n.profile.speculative = false := hc.speculative.trans hspec
    refine returned_idle hb (fun h => absurd h hty) hc (fun clock _ => ?_) clock hleave hor
    rw [decide_eq_false (not_not.mpr hd), returns_of_outside hspec']
    exact if_neg hx

theorem balanced_calls (h : LockBalanced profileRdtsc n.profile) :
    LockBalanced profileRdtsc n.calls.profile := ⟨h.locks, h.cycles, h.off⟩

theorem kept_uncounted (hty : LockType.Uncounted ty) (hd : n.depth = 0)
    (hb : LockBalanced profileRdtsc n.profile) (hheld : n.profile.held = []) {p : LockProg Int}
    (hp : lockCode cfg ty o = some p) :
    p.stateWp ((lockLaw ty profileRdtsc).CountsIn profileRdtsc o)
      ((lockLaw ty profileRdtsc).Returned o) n.calls := by
  refine stateWp_mono (fun x n' hc => ?_)
    (charged_of_avoids (uncounted_noLocks hty hp) (Charged.refl n.calls.profile))
  have hspec : n'.profile.speculative = false :=
    hc.speculative.trans (decide_eq_false (not_not.mpr hd))
  have hunsound : ∀ lock c, ¬ SoundAt ty profileRdtsc lock c := by
    intro lock c
    cases ty <;> first | exact id | exact hty.elim
  refine returned_idle (balanced_calls hb) (fun _ => hheld) hc fun clock hleave => ?_
  by_cases hd' : n'.depth = 0
  · have hleave := hleave hspec hd'
    rw [decide_eq_false (not_not.mpr hd'), returns_of_outside hspec]
    cases o with
    | tlLock m => exact absurd hleave.2 (hunsound _ _)
    | tlTrylock m =>
      have hx : x ≠ 0 := fun hx => hunsound _ _ (hleave.2 hx)
      exact if_neg hx
    | tlUnlock m =>
      have hsome : (n'.profile.held.lookup m).isSome := hleave.1
      rw [hc.held, show n.calls.profile.held = [] from hheld] at hsome
      cases hsome
    | _ => rfl
  · exact returns_of_inside (.inr (decide_eq_true hd'))

theorem kept_hle_inside (hd : n.depth ≠ 0) (hb : LockBalanced profileRdtsc n.profile)
    {p : LockProg Int} (hp : lockCode cfg .tasHle o = some p) :
    p.stateWp ((lockLaw .tasHle profileRdtsc).CountsIn profileRdtsc o)
      ((lockLaw .tasHle profileRdtsc).Returned o) n.calls := by
  have hspec : n.calls.profile.speculative = true := decide_eq_true hd
  have hd' : n.calls.depth ≠ 0 := hd
  -- whatever was called, no lock was counted
  have hcharged : p.stateWp ((lockLaw .tasHle profileRdtsc).CountsIn profileRdtsc o)
      (fun _ n' => Charged n.calls.profile 0 0 n'.profile) n.calls := by
    have hrefl := Charged.refl n.calls.profile
    cases o with
    | enterHtm l =>
      obtain rfl := Option.some.inj hp
      exact charged_of_avoids (enterHtm_noLocks l) hrefl
    | tlLock m =>
      obtain rfl := Option.some.inj hp
      refine stateWp_mono (fun x n' hn' => ?_) (tasLockHle_locked hrefl m)
      cases hn' with
      | inl h => exact h.2
      | inr h => exact absurd h.1 hd
    | tlTrylock m =>
      obtain rfl := Option.some.inj hp
      intro _ n₁ hn₁
      exact hn₁.2.elim
    | tlUnlock m =>
      obtain rfl := Option.some.inj hp
      exact tasUnlockHle_inside hd' hrefl m
    | _ => cases hp
  refine stateWp_mono (fun x n' hc => ?_) hcharged
  exact returned_idle (balanced_calls hb) (fun h => h.elim) hc fun clock _ =>
    returns_of_inside (.inl (hc.speculative.trans hspec))

theorem kept_outside (hty : ¬ LockType.Uncounted ty) (hd : n.depth = 0)
    (hflag : LockType.Prefetches ty → n.specEntry = 0)
    (hb : LockBalanced profileRdtsc n.profile) {p : LockProg Int}
    (hp : lockCode cfg ty o = some p) :
    p.stateWp ((lockLaw ty profileRdtsc).CountsIn profileRdtsc o)
      ((lockLaw ty profileRdtsc).Returned o) n.calls := by
  have hspec : n.calls.profile.speculative = false := decide_eq_false (not_not.mpr hd)
  have hrefl := Charged.refl n.calls.profile
  have hb' := balanced_calls hb
  have hflag : LockType.Prefetches ty → n.calls.specEntry = 0 := hflag
  have hdepth : n.calls.depth = 0 := hd
  cases o with
  | enterHtm l =>
    obtain rfl := Option.some.inj hp
    refine stateWp_mono (fun x n' hc => ?_) (charged_of_avoids (enterHtm_noLocks l) hrefl)
    refine returned_idle hb' (fun h => absurd h hty) hc fun clock _ => ?_
    unfold Profile.returns
    split <;> rfl
  | tlLock m =>
    obtain rfl := Option.some.inj hp
    have henters : LockType.LockEnters ty → ty ≠ .tasHle →
        (tlLock cfg ty m).stateWp ((lockLaw ty profileRdtsc).CountsIn profileRdtsc (.tlLock m))
          ((lockLaw ty profileRdtsc).Returned (.tlLock m)) n.calls := by
      intro henters hhle
      refine stateWp_mono (fun x n' h => ?_) (lock_entered henters hflag hrefl m)
      refine returned_lock hty hhle hb' hspec fun hd' => ?_
      obtain ⟨c, hc⟩ := h hd'
      exact ⟨c, hc.charged, hc.reading, fun hrd _ => hc.off hrd⟩
    cases ty with
    | mcs | mcsTm => exact absurd trivial hty
    | pthread | pthreadTm | tas | tasTm | ticket | ticketTm => exact henters trivial nofun
    -- its `lock` subtracts `rdtsc()` itself, also where the profile reads no clock
    | tasPriorityTm =>
      refine stateWp_mono (fun x n' h => ?_) (tasPriorityLockTm_charged (hflag trivial) hrefl m)
      refine returned_lock hty nofun hb' hspec fun hd' => ?_
      obtain ⟨c, hc, hread⟩ := h hd'
      exact ⟨c, hc, hread, fun hrd hsound => hsound hrd rfl⟩
    | tasHle =>
      refine stateWp_mono (fun x n' h => ?_) (tasLockHle_locked hrefl m)
      -- an elided acquisition returns inside the transaction, where nothing is counted
      cases h with
      | inl h =>
        exact returned_idle hb' (fun h => h.elim) h.2 fun clock _ =>
          returns_of_inside (.inr (decide_eq_true h.1))
      | inr h =>
        obtain ⟨-, hd', hc⟩ := h
        intro clock hleave hor
        have hspec' : n'.profile.speculative = false := hc.speculative.trans hspec
        obtain rfl : x = 0 := (hleave hspec' hd').1
        refine returned_acquire (.inl rfl) hty hb' hspec' hd' (fun clock hsound => ?_) clock hleave hor
        exact ⟨0, hc, fun hrd => (hsound hrd).symm, fun _ => rfl⟩
  | tlTrylock m =>
    obtain rfl := Option.some.inj hp
    have henters : LockType.TrylockEnters ty → ty ≠ .tasHle →
        (tlTrylock cfg ty m).stateWp ((lockLaw ty profileRdtsc).CountsIn profileRdtsc (.tlTrylock m))
          ((lockLaw ty profileRdtsc).Returned (.tlTrylock m)) n.calls := by
      intro henters hhle
      refine stateWp_mono (fun x n' h => ?_) (trylock_entered henters hflag hrefl m)
      exact returned_trylock hty hhle hb' hspec (.inl rfl) h
    cases ty with
    | mcs | mcsTm => exact absurd trivial hty
    | pthread | tas | tasTm | tasPriorityTm | ticket | ticketTm => exact henters trivial nofun
    | pthreadTm =>
      refine stateWp_mono (fun x n' h => ?_) (pthreadTrylockTm_entered (hflag trivial) hrefl m)
      exact returned_trylock hty nofun hb' hspec (.inr ⟨rfl, rfl⟩) h
    | tasHle =>
      -- the assertion of `trylock` fails outside a transaction
      intro _ n₁ hn₁
      exact hn₁.2.elim
  | tlUnlock m =>
    obtain rfl := Option.some.inj hp
    -- an unlock of `tas_hle` outside a transaction does not start or end one
    by_cases hhle : ty = .tasHle
    · subst hhle
      refine stateWp_mono (fun x n' h => ?_)
        (stateWp_and (unlock_entered hty hdepth hflag hrefl m) (tasUnlockHle_depth hdepth m))
      obtain ⟨⟨c, hc⟩, hd'⟩ := h
      exact returned_release hty hb' hspec hd' hc
    · refine stateWp_mono (fun x n' h => ?_) (unlock_entered hty hdepth hflag hrefl m)
      obtain ⟨c, hc⟩ := h
      intro clock hleave hor
      have hd' : n'.depth = 0 := hor.resolve_left hhle
      exact returned_release hty hb' hspec hd' hc clock hleave hor
  | _ => cases hp

/-- Every lock function leaves the counters right. -/
theorem LockBalanced.kept : (lockLaw ty profileRdtsc).KeptBy profileRdtsc cfg ty := by
  intro o p n hp hlaw hflag
  by_cases hd : n.depth = 0
  · obtain ⟨hb, hheld⟩ := hlaw (.inr hd)
    by_cases hty : LockType.Uncounted ty
    · exact kept_uncounted hty hd hb (hheld hty) hp
    · refine kept_outside hty hd (fun hpre => ?_) hb hp
      by_contra hspec
      exact (hflag hpre).mp hspec hd
  · by_cases hhle : ty = .tasHle
    · subst hhle
      exact kept_hle_inside hd (hlaw (.inl rfl)).1 hp
    · have hd' : n.calls.depth ≠ 0 := hd
      refine stateWp_mono (fun x n' hn' clock _ hor => ?_)
        (live_of_avoids (lockCode_avoids_xend hhle hp) hd')
      exact absurd (hor.resolve_left hhle) hn'

end

/-! ## Main results -/

section

variable {cfg : TxConfig} {ty : LockType} {profileRdtsc : Bool}

/-- A balanced run: outside transactions every `tl_lock` succeeds and every `tl_unlock` is of a
    lock that the thread was told it has. -/
def CallsMatched (s : ProfiledState) : ProfiledAct → Prop
  | .act (.run _) =>
    match s.htm.thread.code with
    | .lockFun _ _ o _ (.ret x) =>
      s.profile.speculative = false → s.htm.depth = 0 → Matched o x s.profile
    | _ => True
  | _ => True

theorem callsMatched_run_iff (s : ProfiledState) (v : Int) :
    CallsMatched s (.act (.run v)) ↔ ∀ p ∈ s.htm.thread.code.atRet,
      s.profile.speculative = false → s.htm.depth = 0 → Matched p.1 p.2 s.profile := by
  unfold CallsMatched
  cases s.htm.thread.code with
  | app | call c ops p => simp [HtmCode.atRet]
  | lockFun c ops o k p => cases p <;> simp [HtmCode.atRet]

instance (s : ProfiledState) : DecidablePred (CallsMatched s)
  | .act (.run v) => decidable_of_iff' _ (callsMatched_run_iff s v)
  | .act (.call _) | .act .htmBegin | .act (.htmAbort _) | .tick _ => isTrue trivial

/-- The acquisitions are entered as the releases need them. -/
def AcquiresSound (ty : LockType) (profileRdtsc : Bool) (s : ProfiledState) : ProfiledAct → Prop
  | .act (.run v) =>
    match s.htm.thread.code with
    | .lockFun _ _ o _ (.op lo _) => CasStores ty o lo v
    | .lockFun _ _ o _ (.ret x) =>
      s.profile.speculative = false → s.htm.depth = 0 →
        Sound ty profileRdtsc o x (eventClock s.profile s.clock)
    | _ => True
  | _ => True

theorem acquiresSound_run_iff (ty : LockType) (profileRdtsc : Bool) (s : ProfiledState) (v : Int) :
    AcquiresSound ty profileRdtsc s (.act (.run v)) ↔
      (∀ p ∈ s.htm.thread.code.atOp, CasStores ty p.1 p.2 v) ∧
      ∀ p ∈ s.htm.thread.code.atRet, s.profile.speculative = false → s.htm.depth = 0 →
        Sound ty profileRdtsc p.1 p.2 (eventClock s.profile s.clock) := by
  unfold AcquiresSound
  cases s.htm.thread.code with
  | app | call c ops p => simp [HtmCode.atOp, HtmCode.atRet]
  | lockFun c ops o k p => cases p <;> simp [HtmCode.atOp, HtmCode.atRet]

instance (s : ProfiledState) : DecidablePred (AcquiresSound ty profileRdtsc s)
  | .act (.run v) => decidable_of_iff' _ (acquiresSound_run_iff ty profileRdtsc s v)
  | .act (.call _) | .act .htmBegin | .act (.htmAbort _) | .tick _ => isTrue trivial

/-- The acquisitions so far and the cycles they took are in the range of the counters. -/
structure SpansFit (profileRdtsc : Bool) (r : Profile) : Prop where
  locks : r.spans.length < 2 ^ 31
  cycles : profileRdtsc = true →
    -2 ^ 63 ≤ (r.spans.map fun p => p.released - p.acquired).sum ∧
      (r.spans.map fun p => p.released - p.acquired).sum < 2 ^ 63

/-- The statistics of locks once every lock is released. -/
structure LockConserved (profileRdtsc : Bool) (s : ProfiledState) : Prop where
  locks : s.profile.count .locks = s.profile.spans.length
  cycles : profileRdtsc = true →
    s.profile.count .cycles = (s.profile.spans.map fun p => p.released - p.acquired).sum
  off : profileRdtsc = false → s.profile.count .cycles = 0

theorem lockConserved_iff {profileRdtsc : Bool} {s : ProfiledState} :
    LockConserved profileRdtsc s ↔ s.profile.count .locks = s.profile.spans.length ∧
      (profileRdtsc = true →
        s.profile.count .cycles = (s.profile.spans.map fun p => p.released - p.acquired).sum) ∧
      (profileRdtsc = false → s.profile.count .cycles = 0) :=
  ⟨fun h => ⟨h.locks, h.cycles, h.off⟩, fun h => ⟨h.1, h.2.1, h.2.2⟩⟩

instance (profileRdtsc : Bool) (s : ProfiledState) : Decidable (LockConserved profileRdtsc s) :=
  decidable_of_iff' _ lockConserved_iff

/-- After a balanced run the counters are right, if all its acquisitions are sound and the
    counters have room for them. -/
theorem lock_conserved (tr : List (ProfiledState × ProfiledAct)) (s : ProfiledState)
    (h : (profiledThread cfg ty profileRdtsc).Run
      (fun s a => CallsMatched s a ∧ AcquiresSound ty profileRdtsc s a) tr s)
    (hd : s.htm.depth = 0) (hout : ¬ InLock s.htm.thread.code) (hheld : s.profile.held = [])
    (hfit : SpansFit profileRdtsc s.profile) : LockConserved profileRdtsc s := by
  -- what the law asks of a return is what the two conditions say of it
  have hmeets : ∀ s a, CallsMatched s a ∧ AcquiresSound ty profileRdtsc s a →
      (lockLaw ty profileRdtsc).Meets s a := by
    intro s a hc
    cases a with
    | tick n => trivial
    | act a =>
      cases a with
      | call | htmBegin | htmAbort => trivial
      | run v =>
        obtain ⟨hmatched, hsound⟩ := hc
        simp only [CallsMatched, AcquiresSound, Law.Meets] at hmatched hsound ⊢
        cases hcode : s.htm.thread.code with
        | app | call => trivial
        | lockFun c ops o k p =>
          rw [hcode] at hmatched hsound
          cases p with
          | halt => trivial
          | ret x => exact fun hspec hd => ⟨hmatched hspec hd, hsound hspec hd⟩
          | op lo lk => exact fun _ => hsound
  have hinit : (lockLaw ty profileRdtsc).Holds ⟨0, 0, {}⟩ :=
    fun _ => ⟨⟨rfl, fun _ => rfl, fun _ => rfl⟩, fun _ => rfl⟩
  have hinv := ProfileInv.run LockBalanced.kept hinit (h.mono hmeets)
  obtain ⟨hb, -⟩ := hinv.holds hout (.inr hd)
  have hb : LockBalanced profileRdtsc s.profile := hb
  constructor
  · have hlocks := hb.locks
    -- nothing is held, so `locks` is the number of spans, for which there is room
    have hroom := hfit.locks
    rw [hheld, List.length_nil, Int.ofNat_zero, Int.add_zero] at hlocks
    have hlow : -2 ^ 31 ≤ s.profile.total .locks := by omega
    have hhigh : s.profile.total .locks < 2 ^ 31 := by omega
    exact (count_eq hlow hhigh).trans hlocks
  · intro hrd
    have hcycles := hb.cycles hrd
    obtain ⟨hlow, hhigh⟩ := hfit.cycles hrd
    rw [hheld, List.map_nil, List.sum_nil, Int.sub_zero] at hcycles
    rw [← hcycles] at hlow hhigh ⊢
    exact count_eq hlow hhigh
  · intro hrd
    have hcycles := hb.off hrd
    have hlow : -2 ^ 63 ≤ s.profile.total .cycles := by omega
    have hhigh : s.profile.total .cycles < 2 ^ 63 := by omega
    exact (count_eq hlow hhigh).trans hcycles

/-- A schedule with every action repeated as often as it says. -/
def actions (as : List (HtmAct × Nat)) : List ProfiledAct :=
  as.flatMap fun p => List.replicate p.2 (.act p.1)

/-- With `tas_tm` and the mutex 32 held at clock 5: a trylock fails, a lock begins a transaction,
    which aborts at clock 8, and takes the mutex there; the mutex is released at clock 12. -/
def spanned : List ProfiledAct :=
  .tick 5 :: actions [(.call (.trylock 32), 1), (.run 0, 2), (.run 1, 1), (.run 0, 2),
    (.call (.lock 32), 1), (.run 0, 3), (.run 1, 1), (.run 0, 2), (.run 5, 1), (.run 0, 1),
    (.htmBegin, 1), (.run 0, 2)] ++ .tick 3 :: actions [(.htmAbort 4, 1), (.run 8, 1), (.run 0, 5),
    (.run 8, 1), (.run 0, 3)] ++ .tick 4 :: actions [(.call (.unlock 32), 1), (.run 0, 3),
    (.run 12, 1), (.run 0, 3)]

theorem lock_conserved_spanned :
    ∃ tr s, (profiledThread {fuel := 3} .tasTm true).Run
        (fun s a => CallsMatched s a ∧ AcquiresSound .tasTm true s a) tr s ∧
      s.profile.spans = [⟨32, 8, 12⟩] ∧ s.profile.count .cycles = 4 ∧ LockConserved true s := by
  have hend : ((profiledThread {fuel := 3} .tasTm true).exec {} spanned).map (fun s =>
      decide (s.htm.depth = 0 ∧ ¬ InLock s.htm.thread.code ∧ s.profile.held = [] ∧
        s.profile.spans = [⟨32, 8, 12⟩] ∧ s.profile.count .cycles = 4)) = some true := by
    decide
  obtain ⟨s, hs, hok⟩ := Option.map_eq_some_iff.mp hend
  obtain ⟨hdepth, hout, hheld, hspans, hcycles⟩ := of_decide_eq_true hok
  have hfit : SpansFit true s.profile := by
    constructor <;> rw [hspans] <;> decide
  have hrun := (System.Run.init (M := profiledThread {fuel := 3} .tasTm true) rfl).exec hs
  have hsound := hrun.of_forall_mem
    (C := fun s a => CallsMatched s a ∧ AcquiresSound .tasTm true s a) (by decide)
  exact ⟨_, s, hsound, hspans, hcycles, lock_conserved _ s hsound hdepth hout hheld hfit⟩

/-- A balanced run after which the counters are wrong. -/
def Miscounts (ty : LockType) (profileRdtsc : Bool) : Prop :=
  ∃ tr s, (profiledThread {fuel := 3} ty profileRdtsc).Run CallsMatched tr s ∧ s.htm.depth = 0 ∧
    ¬ InLock s.htm.thread.code ∧ s.profile.held = [] ∧ ¬ LockConserved profileRdtsc s

theorem miscounts_of_exec (ty : LockType) (profileRdtsc : Bool) (as : List ProfiledAct)
    (hend : ((profiledThread {fuel := 3} ty profileRdtsc).exec {} as).map (fun s =>
      decide (s.htm.depth = 0 ∧ ¬ InLock s.htm.thread.code ∧ s.profile.held = [] ∧
        ¬ LockConserved profileRdtsc s)) = some true)
    (hmatched : ∀ p ∈ (profiledThread {fuel := 3} ty profileRdtsc).execTrace {} as,
      CallsMatched p.1 p.2) :
    Miscounts ty profileRdtsc := by
  obtain ⟨s, hs, hok⟩ := Option.map_eq_some_iff.mp hend
  have hrun := (System.Run.init (M := profiledThread {fuel := 3} ty profileRdtsc) rfl).exec hs
  exact ⟨_, s, hrun.of_forall_mem hmatched, of_decide_eq_true hok⟩

/-- `pthread_trylock_tm` takes the mutex at clock 5, and it is released at clock 9. -/
def tryAdded : List ProfiledAct :=
  .tick 5 :: actions [(.call (.trylock 32), 1), (.run 0, 4), (.run 5, 1), (.run 0, 3)] ++
    .tick 4 :: actions [(.call (.unlock 32), 1), (.run 0, 3), (.run 9, 1), (.run 0, 3)]

/-- `tas_lock_hle` runs out of tries at clock 5, and the lock is released at clock 9. -/
def hleMissed : List ProfiledAct :=
  .tick 5 :: actions [(.call (.lock 32), 1), (.run 0, 3), (.run 5, 1), (.run 0, 1),
    (.htmAbort 8, 1), (.run 5, 1), (.run 0, 5), (.run 5, 1), (.run 0, 1), (.htmAbort 8, 1),
    (.run 5, 1), (.run 0, 9)] ++
    .tick 4 :: actions [(.call (.unlock 32), 1), (.run 0, 3), (.run 9, 1), (.run 0, 3)]

/-- `tas_priority_lock_tm` takes the lock at clock 5. -/
def prioritySubtracted : List ProfiledAct :=
  .tick 5 :: actions [(.call (.lock 32), 1), (.run 0, 6), (.run 5, 1), (.run 0, 3),
    (.call (.unlock 32), 1), (.run 0, 7)]

/-- The swap of `ticket_trylock_tm` fails. -/
def ticketLost : List ProfiledAct :=
  actions [(.call (.trylock 32), 1), (.run 0, 6), (.call (.unlock 32), 1), (.run 0, 8)]

/-- A queue lock is taken, with the first batch of nodes at 1000, and released. -/
def queueTaken : List ProfiledAct :=
  actions [(.call (.lock 32), 1), (.run 0, 3), (.run 1000, 1), (.run 0, 58), (.run 1000, 1),
    (.run 0, 6), (.run 1042, 1), (.run 0, 7), (.call (.unlock 32), 1), (.run 0, 1), (.run 1000, 1),
    (.run 32, 1), (.run 0, 1), (.run 1, 1), (.run 0, 4), (.run 1042, 1), (.run 0, 4)]

/-- The types that miscount, in a build with the clock or without. -/
theorem lock_conserved_wrong : Miscounts .pthreadTm true ∧ Miscounts .tasHle true ∧
    Miscounts .tasPriorityTm false ∧ Miscounts .ticketTm false ∧ Miscounts .mcs false :=
  ⟨miscounts_of_exec .pthreadTm true tryAdded (by decide) (by decide),
    miscounts_of_exec .tasHle true hleMissed (by decide) (by decide),
    miscounts_of_exec .tasPriorityTm false prioritySubtracted (by decide) (by decide),
    miscounts_of_exec .ticketTm false ticketLost (by decide) (by decide),
    miscounts_of_exec .mcs false queueTaken (by decide) (by decide)⟩

end

end TxLock.Spec
