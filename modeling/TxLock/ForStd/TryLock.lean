import TxLock.ForStd.System

/-!
# Locks with a trylock

`LockView` is a lock implementation as its callers see it: a transition system with the
calls, the returns and the changes of the holder that its steps make. `TrylockLaw` says
that trylock tells the truth: every call returns after a bounded number of steps of its
thread, with 0 exactly when the caller has become the only holder, and no two threads
are ever told that they hold the same lock.

The holder and what a thread was told are read off the history, so a lock whose words and
whose answers disagree breaks the law.

## Key results

- `TrylockRep.law`: the law for every run, from what one step does to each thread
-/

namespace TxLock

/-- `b` at the start; each entry that is `on` switches it on, each that is `off` switches it
    off. -/
def Since {ε : Type} (on off : ε → Prop) (b : Prop) (l : List ε) : Prop :=
  l.foldl (fun b e => on e ∨ b ∧ ¬ off e) b

section Since

variable {ε : Type} {on off : ε → Prop} {b : Prop} {l l' : List ε}

@[simp] theorem since_nil : Since on off b [] ↔ b := Iff.rfl

@[simp] theorem since_cons {e : ε} :
    Since on off b (e :: l) ↔ Since on off (on e ∨ b ∧ ¬ off e) l := Iff.rfl

theorem since_append : Since on off b (l ++ l') ↔ Since on off (Since on off b l) l' := by
  simp only [Since, List.foldl_append]

/-- Entries that switch nothing. -/
theorem since_of_forall (h : ∀ e ∈ l, ¬ on e ∧ ¬ off e) : Since on off b l ↔ b := by
  induction l generalizing b with
  | nil => exact Iff.rfl
  | cons e l ih =>
    obtain ⟨hon, hoff⟩ := h e List.mem_cons_self
    rw [since_cons, ih fun e' he' => h e' (List.mem_cons_of_mem _ he')]
    simp [hon, hoff]

theorem since_congr {b' : Prop} (hb : b ↔ b') : Since on off b l ↔ Since on off b' l := by
  rw [propext hb]

/-- Entries that are renamed. -/
theorem since_map {ε' : Type} {on' off' : ε' → Prop} {f : ε' → ε} {l : List ε'}
    (hon : ∀ e, on (f e) ↔ on' e) (hoff : ∀ e, off (f e) ↔ off' e) :
    Since on off b (l.map f) ↔ Since on' off' b l := by
  induction l generalizing b with
  | nil => exact Iff.rfl
  | cons e l ih =>
    rw [List.map_cons, since_cons, since_cons, ih, hon, hoff]

end Since

/-- What a step outside transactions is to the callers of a lock. -/
inductive LockEvent where
  | tryCall
  /-- The call of lock or trylock returns. -/
  | answer (v : Int)
  | unlockCall
  /-- The thread becomes the holder of the lock. -/
  | take
  /-- The thread ceases to be the holder. -/
  | give
  deriving DecidableEq, Repr

namespace LockEvent

variable {Lock : Type}

/-- The caller is told that it holds the lock `l`. -/
def Tells (l : Lock) (e : Lock × LockEvent) : Prop := e = (l, answer 0)

end LockEvent

/-- A lock implementation as its callers see it. -/
structure LockView (Tid : Type) where
  State : Type
  Act : Type
  Lock : Type
  /-- The words of a lock. -/
  Words : Type
  /-- What a thread keeps of its own. -/
  Own : Type
  sys : System State Act
  /-- The thread that takes the step. -/
  actor : Act → Tid
  /-- The next step of the code thread `t` is in. -/
  run : Tid → Act
  /-- What the step is to the callers, in this order. -/
  events : State → Act → List (Lock × LockEvent)
  words : State → Lock → Words
  own : State → Tid → Own

namespace LockView

variable {Tid : Type} (V : LockView Tid)

/-- The events of a run, each with its thread. -/
def log (tr : List (V.State × V.Act)) : List (Tid × V.Lock × LockEvent) :=
  System.events (fun s a => (V.events s a).map (V.actor a, ·)) tr

/-- Of the events of thread `t` in the steps `tr` that are `on` or `off`, the last is `on`. -/
def Last (on off : V.Lock × LockEvent → Prop) (tr : List (V.State × V.Act)) (t : Tid) : Prop :=
  Since (fun e => e.1 = t ∧ on e.2) (fun e => e.1 = t ∧ off e.2) False (V.log tr)

/-- Thread `t` holds `l` after the steps `tr`. -/
def Holds (tr : List (V.State × V.Act)) (t : Tid) (l : V.Lock) : Prop :=
  V.Last (· = (l, .take)) (· = (l, .give)) tr t

/-- Thread `t` was told that it holds `l` and has not called unlock since. -/
def Told (tr : List (V.State × V.Act)) (t : Tid) (l : V.Lock) : Prop :=
  V.Last (LockEvent.Tells l) (· = (l, .unlockCall)) tr t

/-- The step `(s, a)` is a call of trylock for `l` by thread `t`, which has not returned
    during the steps `seg` after it. -/
structure Pending (s : V.State) (a : V.Act) (seg : List (V.State × V.Act)) (t : Tid)
    (l : V.Lock) : Prop where
  actor : V.actor a = t
  call : (l, .tryCall) ∈ V.events s a
  pending : ∀ p ∈ seg, V.actor p.2 = t → ∀ v, (l, LockEvent.answer v) ∉ V.events p.1 p.2

/-- How many of the steps are steps of thread `t`. -/
def ownSteps [DecidableEq Tid] (seg : List (V.State × V.Act)) (t : Tid) : Nat :=
  seg.countP fun p => V.actor p.2 = t

/-- The step leaves the words of all locks and what thread `t` keeps as they were. -/
def Keeps (t : Tid) (p : V.State × V.Act) : Prop :=
  ∀ s', V.sys.step p.1 p.2 = some s' → V.words s' = V.words p.1 ∧ V.own s' t = V.own p.1 t

variable {V} in
theorem Keeps.of_step {t : Tid} {s s' : V.State} {a : V.Act} (hs : V.sys.step s a = some s')
    (hwords : V.words s' = V.words s) (hown : V.own s' t = V.own s t) : V.Keeps t (s, a) := by
  intro s'' hs'
  obtain rfl : s' = s'' := Option.some.inj (hs.symm.trans hs')
  exact ⟨hwords, hown⟩

/-- Trylock tells the truth in the run that takes the steps `tr` and ends in `s`; `n` bounds
    the steps that a call takes before its last one. -/
structure TrylockLaw [DecidableEq Tid] (n : Nat) (tr : List (V.State × V.Act)) (s : V.State) :
    Prop where
  /-- A call that has not returned can go on, and has taken at most `n` steps. -/
  returns : ∀ tr₁ s₀ a seg t l, tr = tr₁ ++ [(s₀, a)] ++ seg → V.Pending s₀ a seg t l →
    V.ownSteps seg t ≤ n ∧ ∃ s', V.sys.step s (V.run t) = some s'
  /-- A call that returns now returns 0 exactly when the caller, which was not the holder when
      it called, is now the only one. -/
  truth : ∀ tr₁ s₀ a seg s₁ b t l v, tr = tr₁ ++ [(s₀, a)] ++ seg ++ [(s₁, b)] →
    V.Pending s₀ a seg t l → V.actor b = t → (l, .answer v) ∈ V.events s₁ b →
    (v = 0 ↔ ¬ V.Holds tr₁ t l ∧ ∀ u, V.Holds tr u l ↔ u = t)
  /-- A call that returns another value now has changed nothing, from its first step on. -/
  unchanged : ∀ tr₁ s₀ a seg s₁ b t l v, tr = tr₁ ++ [(s₀, a)] ++ seg ++ [(s₁, b)] →
    V.Pending s₀ a seg t l → V.actor b = t → (l, .answer v) ∈ V.events s₁ b → v ≠ 0 →
    ∀ p ∈ (s₀, a) :: seg ++ [(s₁, b)], V.actor p.2 = t → V.Keeps t p
  exclusive : ∀ t u l, V.Told tr t l → V.Told tr u l → t = u

end LockView

/-! ## What a step changes -/

/-- What a state says about one thread. -/
structure TryView (Lock : Type) where
  holds : Lock → Prop
  told : Lock → Prop
  /-- In a call of trylock, with a bound on the steps before its last one. -/
  trying : Option (Lock × Nat)
  /-- The call is going to return 0. -/
  sure : Prop

/-- What a step changes that a state says about the thread that takes it, by what the step is
    to the callers. `kept` tells that the step changes no words. -/
inductive LockStep {Lock : Type} (n : Nat) (kept : Prop) (x x' : TryView Lock) :
    List (Lock × LockEvent) → Prop where
  | quiet (hh : ∀ k, x'.holds k ↔ x.holds k) (ht : ∀ k, x'.told k ↔ x.told k)
      (hx : x.trying = none) (hx' : x'.trying = none) : LockStep n kept x x' []
  /-- Lock takes the lock and returns. -/
  | locks {l : Lock} (hh : ∀ k, x'.holds k ↔ x.holds k ∨ k = l)
      (ht : ∀ k, x'.told k ↔ x.told k ∨ k = l) (hx : x.trying = none) (hx' : x'.trying = none) :
    LockStep n kept x x' [(l, .take), (l, .answer 0)]
  | takes {l : Lock} (hh : ∀ k, x'.holds k ↔ x.holds k ∨ k = l)
      (ht : ∀ k, x'.told k ↔ x.told k) (hx : x.trying = none) (hx' : x'.trying = none) :
    LockStep n kept x x' [(l, .take)]
  | returns {l : Lock} (hh : ∀ k, x'.holds k ↔ x.holds k)
      (ht : ∀ k, x'.told k ↔ x.told k ∨ k = l) (hx : x.trying = none) (hx' : x'.trying = none) :
    LockStep n kept x x' [(l, .answer 0)]
  /-- The call of unlock gives the lock up. -/
  | unlocks {l : Lock} (hh : ∀ k, x'.holds k ↔ x.holds k ∧ k ≠ l)
      (ht : ∀ k, x'.told k ↔ x.told k ∧ k ≠ l) (hx : x.trying = none) (hx' : x'.trying = none) :
    LockStep n kept x x' [(l, .unlockCall), (l, .give)]
  | callsUnlock {l : Lock} (hh : ∀ k, x'.holds k ↔ x.holds k)
      (ht : ∀ k, x'.told k ↔ x.told k ∧ k ≠ l) (hx : x.trying = none) (hx' : x'.trying = none) :
    LockStep n kept x x' [(l, .unlockCall)]
  | gives {l : Lock} (hh : ∀ k, x'.holds k ↔ x.holds k ∧ k ≠ l)
      (ht : ∀ k, x'.told k ↔ x.told k) (hx : x.trying = none) (hx' : x'.trying = none) :
    LockStep n kept x x' [(l, .give)]
  /-- Lock finds the lock free and goes on as trylock does. -/
  | joins (hh : ∀ k, x'.holds k ↔ x.holds k) (ht : ∀ k, x'.told k ↔ x.told k)
      (hx : x.trying = none) (hx' : x'.sure) : LockStep n kept x x' []
  /-- Trylock is called. -/
  | tries {l : Lock} {m : Nat} (hh : ∀ k, x'.holds k ↔ x.holds k)
      (ht : ∀ k, x'.told k ↔ x.told k) (hx : x.trying = none) (hx' : x'.trying = some (l, m))
      (hm : m ≤ n) (hkept : kept) : LockStep n kept x x' [(l, .tryCall)]
  /-- A step of trylock, which does not return yet. -/
  | goesOn {l : Lock} {m m' : Nat} (hh : ∀ k, x'.holds k ↔ x.holds k)
      (ht : ∀ k, x'.told k ↔ x.told k) (hx : x.trying = some (l, m))
      (hx' : x'.trying = some (l, m')) (hm : m' < m) (hsure : x.sure → x'.sure)
      (hkept : kept ∨ x'.sure) : LockStep n kept x x' []
  | gets {l : Lock} {m : Nat} (hh : ∀ k, x'.holds k ↔ x.holds k ∨ k = l)
      (ht : ∀ k, x'.told k ↔ x.told k ∨ k = l) (hx : x.trying = some (l, m))
      (hfree : ¬ x.holds l) : LockStep n kept x x' [(l, .take), (l, .answer 0)]
  | fails {l : Lock} {m : Nat} {v : Int} (hh : ∀ k, x'.holds k ↔ x.holds k)
      (ht : ∀ k, x'.told k ↔ x.told k) (hx : x.trying = some (l, m)) (hv : v ≠ 0)
      (hsure : ¬ x.sure) (hkept : kept) : LockStep n kept x x' [(l, .answer v)]

namespace LockStep

variable {Lock : Type} {n : Nat} {kept : Prop} {x x' : TryView Lock} {es : List (Lock × LockEvent)}

/-- The holder changes as the events say. -/
theorem holds (h : LockStep n kept x x' es) (k : Lock) :
    x'.holds k ↔ Since (· = (k, .take)) (· = (k, .give)) (x.holds k) es := by
  cases h with
  | quiet hh | joins hh | returns hh | callsUnlock hh | tries hh | goesOn hh | fails hh => simp [hh k]
  | locks hh | takes hh | gets hh => simp [hh k, or_comm, eq_comm]
  | unlocks hh | gives hh => simp [hh k, eq_comm]

/-- What the caller is told changes as the events say. -/
theorem told (h : LockStep n kept x x' es) (k : Lock) :
    x'.told k ↔ Since (LockEvent.Tells k) (· = (k, .unlockCall)) (x.told k) es := by
  cases h with
  | quiet _ ht | joins _ ht | takes _ ht | gives _ ht | tries _ ht | goesOn _ ht =>
    simp [ht k, LockEvent.Tells]
  | fails _ ht _ hv => simp [ht k, LockEvent.Tells, hv]
  | locks _ ht | returns _ ht | gets _ ht => simp [ht k, LockEvent.Tells, or_comm, eq_comm]
  | unlocks _ ht | callsUnlock _ ht => simp [ht k, LockEvent.Tells, eq_comm]

/-- The call of trylock for `l` begins. -/
theorem of_tryCall (h : LockStep n kept x x' es) {l : Lock} (hes : (l, .tryCall) ∈ es) :
    (∃ m ≤ n, x'.trying = some (l, m)) ∧ (x'.holds l ↔ x.holds l) ∧ kept := by
  cases h with
  | @tries l' m hh ht hx hx' hm hkept =>
    obtain rfl : l = l' := by simpa using hes
    exact ⟨⟨m, hm, hx'⟩, hh l, hkept⟩
  | quiet | joins | locks | takes | returns | unlocks | callsUnlock | gives | goesOn | gets | fails =>
    simp at hes

/-- A step inside a call of trylock goes on with it, or returns. -/
theorem of_trying (h : LockStep n kept x x' es) {l : Lock} {m : Nat}
    (hx : x.trying = some (l, m)) :
    (es = [] ∧ (∃ m' < m, x'.trying = some (l, m')) ∧ (x'.holds l ↔ x.holds l) ∧
        (x.sure → x'.sure) ∧ (kept ∨ x'.sure)) ∨
      (es = [(l, .take), (l, .answer 0)] ∧ ¬ x.holds l ∧ x'.holds l) ∨
      ∃ v, v ≠ 0 ∧ es = [(l, .answer v)] ∧ (x'.holds l ↔ x.holds l) ∧ ¬ x.sure ∧ kept := by
  cases h with
  | quiet _ _ hx₀ | joins _ _ hx₀ | locks _ _ hx₀ | takes _ _ hx₀ | returns _ _ hx₀ | unlocks _ _ hx₀
  | callsUnlock _ _ hx₀ | gives _ _ hx₀ | tries _ _ hx₀ => simp [hx] at hx₀
  | goesOn hh _ hx₀ hx' hm hsure hkept =>
    rw [hx, Option.some.injEq, Prod.mk.injEq] at hx₀
    obtain ⟨rfl, rfl⟩ := hx₀
    exact .inl ⟨rfl, ⟨_, hm, hx'⟩, hh l, hsure, hkept⟩
  | gets hh _ hx₀ hfree =>
    rw [hx, Option.some.injEq, Prod.mk.injEq] at hx₀
    obtain ⟨rfl, rfl⟩ := hx₀
    exact .inr (.inl ⟨rfl, hfree, (hh l).mpr (.inr rfl)⟩)
  | @fails _ _ v hh _ hx₀ hv hsure hkept =>
    rw [hx, Option.some.injEq, Prod.mk.injEq] at hx₀
    obtain ⟨rfl, rfl⟩ := hx₀
    exact .inr (.inr ⟨v, hv, rfl, hh l, hsure, hkept⟩)

theorem mono {kept' : Prop} (h : LockStep n kept x x' es) (hk : kept → kept') :
    LockStep n kept' x x' es := by
  cases h with
  | quiet hh ht hx hx' => exact .quiet hh ht hx hx'
  | joins hh ht hx hx' => exact .joins hh ht hx hx'
  | locks hh ht hx hx' => exact .locks hh ht hx hx'
  | takes hh ht hx hx' => exact .takes hh ht hx hx'
  | returns hh ht hx hx' => exact .returns hh ht hx hx'
  | unlocks hh ht hx hx' => exact .unlocks hh ht hx hx'
  | callsUnlock hh ht hx hx' => exact .callsUnlock hh ht hx hx'
  | gives hh ht hx hx' => exact .gives hh ht hx hx'
  | tries hh ht hx hx' hm hkept => exact .tries hh ht hx hx' hm (hk hkept)
  | goesOn hh ht hx hx' hm hsure hkept => exact .goesOn hh ht hx hx' hm hsure (hkept.imp_left hk)
  | gets hh ht hx hfree => exact .gets hh ht hx hfree
  | fails hh ht hx hv hsure hkept => exact .fails hh ht hx hv hsure (hk hkept)

/-- Who has the lock `k` after the step. -/
theorem holds_cases (h : LockStep n kept x x' es) (k : Lock) :
    ((k, .take) ∈ es → x'.holds k) ∧ ((k, .give) ∈ es → ¬ x'.holds k) ∧
      ((k, .take) ∉ es → (k, .give) ∉ es → (x'.holds k ↔ x.holds k)) := by
  cases h with
  | quiet hh | joins hh | returns hh | callsUnlock hh | tries hh | goesOn hh | fails hh => simp [hh k]
  | locks hh | takes hh | gets hh => simp +contextual [hh]
  | unlocks hh | gives hh => simp +contextual [hh]

end LockStep

/-! ## Locks with a word -/

/-- The word `v` of a lock is `free` while no thread holds the lock and `taken u` while thread
    `u` does. -/
def WordOk {Tid W : Type} (free : W) (taken : Tid → W) (v : W) (holds : Tid → Prop) : Prop :=
  v = free ∧ (∀ t, ¬ holds t) ∨ ∃ u, v = taken u ∧ ∀ t, holds t ↔ t = u

/-- A step of thread `t`: `v` and `v'` are the words before and after. -/
structure WordStep {Tid Lock W : Type} (free : W) (taken : Tid → W) (n : Nat) (kept : Prop)
    (v v' : Lock → W) (t : Tid) (x x' : TryView Lock) (es : List (Lock × LockEvent)) : Prop where
  step : LockStep n kept x x' es
  take : ∀ k, (k, .take) ∈ es → v k = free ∧ v' k = taken t
  give : ∀ k, (k, .give) ∈ es → x.holds k ∧ v' k = free
  other : ∀ k, (k, .take) ∉ es → (k, .give) ∉ es → v' k = v k

namespace WordStep

variable {Tid Lock W : Type} {free : W} {taken : Tid → W} {n : Nat} {kept : Prop} {v : Lock → W}
  {t : Tid} {x x' : TryView Lock} {es : List (Lock × LockEvent)} {l : Lock}

/-- The step neither takes nor gives a lock. -/
theorem of_same (h : LockStep n kept x x' es)
    (hes : ∀ k, (k, .take) ∉ es ∧ (k, .give) ∉ es) :
    WordStep free taken n kept v v t x x' es where
  step := h
  take k hk := absurd hk (hes k).1
  give k hk := absurd hk (hes k).2
  other _ _ _ := rfl

variable [DecidableEq Lock]

/-- The step takes the lock `l`. -/
theorem of_take (h : LockStep n kept x x' ((l, .take) :: es)) (hv : v l = free)
    (hes : ∀ k, (k, .take) ∉ es ∧ (k, .give) ∉ es) :
    WordStep free taken n kept v (Function.update v l (taken t)) t x x' ((l, .take) :: es) where
  step := h
  take k hk := by
    obtain rfl : k = l := by simpa [(hes k).1] using hk
    exact ⟨hv, Function.update_self ..⟩
  give k hk := absurd hk (by simp [(hes k).2])
  other k hk _ := Function.update_of_ne (fun hkl => hk (by simp [hkl])) ..

/-- The step gives the lock `l` up, after the events `es`. -/
theorem of_give (es : List (Lock × LockEvent)) (h : LockStep n kept x x' (es ++ [(l, .give)]))
    (hl : x.holds l)
    (hes : ∀ k, (k, .take) ∉ es ∧ (k, .give) ∉ es) :
    WordStep free taken n kept v (Function.update v l free) t x x' (es ++ [(l, .give)]) where
  step := h
  take k hk := absurd hk (by simp [(hes k).1])
  give k hk := by
    obtain rfl : k = l := by simpa [(hes k).2] using hk
    exact ⟨hl, Function.update_self ..⟩
  other k _ hk := Function.update_of_ne (fun hkl => hk (by simp [hkl])) ..

end WordStep

namespace WordOk

variable {Tid W : Type} {free : W} {taken : Tid → W} {v : W} {holds : Tid → Prop}

theorem unique (h : WordOk free taken v holds) {t u : Tid} (ht : holds t) (hu : holds u) :
    t = u := by
  rcases h with ⟨-, hfree⟩ | ⟨w, -, honly⟩
  · exact absurd ht (hfree t)
  · rw [(honly t).mp ht, (honly u).mp hu]

theorem not_holds (h : WordOk free taken v holds) (htaken : ∀ u, taken u ≠ free) (hv : v = free)
    (t : Tid) : ¬ holds t := by
  rcases h with ⟨-, hfree⟩ | ⟨u, hu, -⟩
  · exact hfree t
  · exact absurd (hu.symm.trans hv) (htaken u)

theorem exists_taken (h : WordOk free taken v holds) (hv : v ≠ free) : ∃ u, v = taken u := by
  rcases h with ⟨hfree, -⟩ | ⟨u, hu, -⟩
  · exact absurd hfree hv
  · exact ⟨u, hu⟩

theorem eq_taken (h : WordOk free taken v holds) {t : Tid} (ht : holds t) : v = taken t := by
  rcases h with ⟨-, hfree⟩ | ⟨u, hu, honly⟩
  · exact absurd ht (hfree t)
  · rw [hu, (honly t).mp ht]

/-- A step of thread `t` keeps the word of every lock right. -/
theorem step {Lock : Type} {n : Nat} {kept : Prop} {v v' : Lock → W} {t : Tid}
    {es : List (Lock × LockEvent)} (view view' : Tid → TryView Lock)
    (htaken : ∀ u, taken u ≠ free) (h : ∀ k, WordOk free taken (v k) fun u => (view u).holds k)
    (hframe : ∀ u, u ≠ t → view' u = view u)
    (hs : WordStep free taken n kept v v' t (view t) (view' t) es) (k : Lock) :
    WordOk free taken (v' k) fun u => (view' u).holds k := by
  obtain ⟨htake, hgive, hother⟩ := hs.step.holds_cases k
  by_cases htk : (k, .take) ∈ es
  · -- nobody held the lock, so the thread is the only holder
    obtain ⟨hfree, ht⟩ := hs.take k htk
    refine .inr ⟨t, ht, fun u => ⟨fun hu => ?_, fun hu => ?_⟩⟩
    · have hu : (view' u).holds k := hu
      by_contra hut
      rw [hframe u hut] at hu
      exact (h k).not_holds htaken hfree u hu
    · rw [hu]
      exact htake htk
  by_cases hgk : (k, .give) ∈ es
  · obtain ⟨hx, hfree⟩ := hs.give k hgk
    refine .inl ⟨hfree, fun u hu => ?_⟩
    have hu : (view' u).holds k := hu
    by_cases hut : u = t
    · exact hgive hgk (hut ▸ hu)
    · rw [hframe u hut] at hu
      exact hut ((h k).unique hu hx)
  · have hsame : ∀ u, (view' u).holds k ↔ (view u).holds k := by
      intro u
      by_cases hut : u = t
      · rw [hut]
        exact hother htk hgk
      · rw [hframe u hut]
    simp only [hsame, hs.other k htk hgk]
    exact h k

end WordOk

/-! ## The law from the steps -/

/-- The states of the runs that meet `C` say by `view` what each thread does, and every step
    changes it as a truthful trylock does. -/
structure TrylockRep {Tid : Type} (V : LockView Tid) (C : V.State → V.Act → Prop) (n : Nat)
    (view : V.State → Tid → TryView V.Lock) : Prop where
  init : ∀ s, V.sys.init s → ∀ t l, ¬ (view s t).holds l ∧ ¬ (view s t).told l
  exclusive : ∀ tr s, V.sys.Run C tr s → ∀ t u l, (view s t).holds l → (view s u).holds l → t = u
  told : ∀ tr s, V.sys.Run C tr s → ∀ t l, (view s t).told l → (view s t).holds l
  /-- A thread in a call of trylock can go on. -/
  enabled : ∀ tr s, V.sys.Run C tr s → ∀ t, (view s t).trying ≠ none →
    ∃ s', V.sys.step s (V.run t) = some s'
  /-- A step leaves the other threads alone. -/
  frame : ∀ tr s, V.sys.Run C tr s → ∀ a s', V.sys.step s a = some s' → ∀ u, u ≠ V.actor a →
    view s' u = view s u
  step : ∀ tr s, V.sys.Run C tr s → ∀ a s', C s a → V.sys.step s a = some s' →
    LockStep n (V.Keeps (V.actor a) (s, a)) (view s (V.actor a)) (view s' (V.actor a))
      (V.events s a)

namespace TrylockRep

variable {Tid : Type} {V : LockView Tid} {C : V.State → V.Act → Prop} {n : Nat}
  {view : V.State → Tid → TryView V.Lock} {tr : List (V.State × V.Act)} {s : V.State}

/-- What a step of thread `t` or of another thread adds. -/
private theorem last_concat {on off : V.Lock × LockEvent → Prop} (a : V.Act) (t : Tid) :
    (t ≠ V.actor a → (V.Last on off (tr ++ [(s, a)]) t ↔ V.Last on off tr t)) ∧
    (t = V.actor a →
      (V.Last on off (tr ++ [(s, a)]) t ↔ Since on off (V.Last on off tr t) (V.events s a))) := by
  have hlog : V.log (tr ++ [(s, a)]) = V.log tr ++ (V.events s a).map (V.actor a, ·) := by
    rw [LockView.log, System.events_append, System.events_singleton]
    rfl
  unfold LockView.Last
  rw [hlog, since_append]
  refine ⟨fun ht => since_of_forall fun e he => ?_, fun ht => ?_⟩
  · obtain ⟨e', -, rfl⟩ := List.mem_map.mp he
    exact ⟨fun h => ht h.1.symm, fun h => ht h.1.symm⟩
  · subst ht
    exact since_map (fun e => by simp) fun e => by simp

/-- A fact about a thread that follows its events can be read off the state. -/
private theorem last_iff (h : TrylockRep V C n view) {on off : V.Lock × LockEvent → Prop}
    {f : TryView V.Lock → Prop} (hinit : ∀ s, V.sys.init s → ∀ t, ¬ f (view s t))
    (hstep : ∀ tr s, V.sys.Run C tr s → ∀ a s', C s a → V.sys.step s a = some s' →
      (f (view s' (V.actor a)) ↔ Since on off (f (view s (V.actor a))) (V.events s a)))
    (hr : V.sys.Run C tr s) (t : Tid) : V.Last on off tr t ↔ f (view s t) := by
  revert t
  refine System.Run.invariant_trace (I := fun tr s => ∀ t, V.Last on off tr t ↔ f (view s t))
    (fun s hs t => ?_) (fun tr s a s' hr ih hc hs t => ?_) hr
  · simp [LockView.Last, LockView.log, hinit s hs t]
  · by_cases ht : t = V.actor a
    · rw [(last_concat a t).2 ht, since_congr (ih t), ht, hstep tr s hr a s' hc hs]
    · rw [(last_concat a t).1 ht, ih t, h.frame tr s hr a s' hs t ht]

/-- The states say who holds a lock. -/
theorem holds_iff (h : TrylockRep V C n view) (hr : V.sys.Run C tr s) (t : Tid) (l : V.Lock) :
    V.Holds tr t l ↔ (view s t).holds l :=
  h.last_iff (f := fun x => x.holds l) (fun s hs t => (h.init s hs t l).1)
    (fun tr s hr a s' hc hs => (h.step tr s hr a s' hc hs).holds l) hr t

/-- The states say who was told to hold a lock. -/
theorem told_iff (h : TrylockRep V C n view) (hr : V.sys.Run C tr s) (t : Tid) (l : V.Lock) :
    V.Told tr t l ↔ (view s t).told l :=
  h.last_iff (f := fun x => x.told l) (fun s hs t => (h.init s hs t l).2)
    (fun tr s hr a s' hc hs => (h.step tr s hr a s' hc hs).told l) hr t

variable [DecidableEq Tid]

/-- A call of trylock that has not returned: what it has done so far. -/
private structure Going (V : LockView Tid) (n : Nat) (x : TryView V.Lock) (t : Tid) (l : V.Lock)
    (held : Prop) (seg : List (V.State × V.Act)) (steps : Nat) : Prop where
  trying : ∃ m, x.trying = some (l, m) ∧ m + steps ≤ n
  held : x.holds l ↔ held
  kept : x.sure ∨ ∀ p ∈ seg, V.actor p.2 = t → V.Keeps t p

private theorem going (h : TrylockRep V C n view) {tr₁ seg : List (V.State × V.Act)} {s₀ : V.State}
    {a₀ : V.Act} {t : Tid} {l : V.Lock} (hr : V.sys.Run C (tr₁ ++ [(s₀, a₀)] ++ seg) s)
    (hp : V.Pending s₀ a₀ seg t l) :
    Going V n (view s t) t l (V.Holds tr₁ t l) ((s₀, a₀) :: seg) (V.ownSteps seg t) := by
  obtain ⟨rfl, hcall, hpending⟩ := hp
  revert hpending
  refine System.Run.invariant_after (I := fun seg s => (∀ p ∈ seg, V.actor p.2 = V.actor a₀ →
      ∀ v, (l, LockEvent.answer v) ∉ V.events p.1 p.2) →
    Going V n (view s (V.actor a₀)) (V.actor a₀) l (V.Holds tr₁ (V.actor a₀) l) ((s₀, a₀) :: seg)
      (V.ownSteps seg (V.actor a₀))) (fun s hr _ => ?_) (fun seg s a s' hr ih hc hs hp => ?_) hr
  · obtain ⟨hr₁, hc, hs⟩ := hr.concat_inv
    obtain ⟨⟨m, hm, hx⟩, hheld, hkeep⟩ := (h.step tr₁ s₀ hr₁ a₀ s hc hs).of_tryCall hcall
    refine ⟨⟨m, hx, hm⟩, hheld.trans (h.holds_iff hr₁ _ l).symm, .inr fun p hp _ => ?_⟩
    rw [List.mem_singleton.mp hp]
    exact hkeep
  · obtain ⟨⟨m, hx, hm⟩, hheld, hkept⟩ := ih fun p hmem => hp p (List.mem_append_left _ hmem)
    have hmem : ∀ p ∈ (s₀, a₀) :: (seg ++ [(s, a)]), p ∈ (s₀, a₀) :: seg ∨ p = (s, a) := by
      intro p hp
      simpa [or_assoc] using hp
    by_cases ht : V.actor a = V.actor a₀
    · have hans := hp (s, a) (by simp) ht
      have hstep := h.step _ _ hr a s' hc hs
      rw [ht] at hstep
      -- the step is the caller's: either it goes on with the call or it returns
      rcases hstep.of_trying hx with ⟨-, ⟨m', hlt, hx'⟩, hh, hsure, hkeep⟩ | ⟨hes, -⟩ |
          ⟨v, -, hes, -⟩
      · have hone : V.ownSteps (seg ++ [(s, a)]) (V.actor a₀) = V.ownSteps seg (V.actor a₀) + 1 := by
          simp [LockView.ownSteps, ht]
        refine ⟨⟨m', hx', by omega⟩, hh.trans hheld, ?_⟩
        rcases hkeep with hkeep | hkeep
        · refine hkept.imp hsure fun hall p hp hpt => ?_
          rcases hmem p hp with hp | rfl
          · exact hall p hp hpt
          · exact hkeep
        · exact .inl hkeep
      · exact absurd (by simp [hes]) (hans 0)
      · exact absurd (by simp [hes]) (hans v)
    · rw [h.frame _ _ hr a s' hs _ (Ne.symm ht)]
      refine ⟨⟨m, hx, ?_⟩, hheld, hkept.imp_right fun hall p hp hpt => ?_⟩
      · simpa [LockView.ownSteps, ht] using hm
      · rcases hmem p hp with hp | rfl
        · exact hall p hp hpt
        · exact absurd hpt ht

/-- The last step of a call. -/
private theorem last_step (h : TrylockRep V C n view) {tr₁ seg : List (V.State × V.Act)}
    {s₀ s₁ : V.State} {a₀ b : V.Act} {t : Tid} {l : V.Lock} {v : Int}
    (hr : V.sys.Run C (tr₁ ++ [(s₀, a₀)] ++ seg ++ [(s₁, b)]) s) (hp : V.Pending s₀ a₀ seg t l)
    (hb : V.actor b = t) (hv : (l, .answer v) ∈ V.events s₁ b) :
    (v = 0 ∧ ¬ V.Holds tr₁ t l ∧ (view s t).holds l) ∨
      (v ≠ 0 ∧ ((view s t).holds l ↔ V.Holds tr₁ t l) ∧
        ∀ p ∈ (s₀, a₀) :: seg ++ [(s₁, b)], V.actor p.2 = t → V.Keeps t p) := by
  obtain ⟨hr₁, hc, hs⟩ := hr.concat_inv
  obtain ⟨⟨m, hx, -⟩, hheld, hkept⟩ := h.going hr₁ hp
  subst hb
  rcases (h.step _ _ hr₁ b s hc hs).of_trying hx with ⟨hes, -⟩ | ⟨hes, hfree, hl⟩ |
      ⟨v', hne, hes, hh, hsure, hkeep⟩
  · simp [hes] at hv
  · obtain rfl : v = 0 := by simpa [hes] using hv
    exact .inl ⟨rfl, fun hl => hfree (hheld.mpr hl), hl⟩
  · obtain rfl : v = v' := by simpa [hes] using hv
    refine .inr ⟨hne, hh.trans hheld, fun p hp hpt => ?_⟩
    rcases List.mem_append.mp hp with hp | hp
    · exact hkept.resolve_left hsure p hp hpt
    · rw [List.mem_singleton.mp hp]
      exact hkeep

/-- Every run that meets the condition has a truthful trylock. -/
theorem law (h : TrylockRep V C n view) (hr : V.sys.Run C tr s) : V.TrylockLaw n tr s where
  returns := by
    rintro tr₁ s₀ a seg t l rfl hp
    obtain ⟨⟨m, hx, hm⟩, -, -⟩ := h.going hr hp
    exact ⟨by omega, h.enabled _ s hr t (by simp [hx])⟩
  truth := by
    rintro tr₁ s₀ a seg s₁ b t l v rfl hp hb hv
    rcases h.last_step hr hp hb hv with ⟨rfl, hfree, hl⟩ | ⟨hne, hl, -⟩
    · refine iff_of_true rfl ⟨hfree, fun u => ?_⟩
      rw [h.holds_iff hr]
      constructor
      · exact fun hu => h.exclusive _ s hr u t l hu hl
      · rintro rfl
        exact hl
    · refine iff_of_false hne fun ⟨hfree, honly⟩ => hfree (hl.mp ?_)
      rw [← h.holds_iff hr]
      exact (honly t).mpr rfl
  unchanged := by
    rintro tr₁ s₀ a seg s₁ b t l v rfl hp hb hv hne
    rcases h.last_step hr hp hb hv with ⟨hzero, -⟩ | ⟨-, -, hkept⟩
    · exact absurd hzero hne
    · exact hkept
  exclusive t u l ht hu := by
    rw [h.told_iff hr] at ht hu
    exact h.exclusive _ s hr t u l (h.told _ s hr t l ht) (h.told _ s hr u l hu)

end TrylockRep

end TxLock
