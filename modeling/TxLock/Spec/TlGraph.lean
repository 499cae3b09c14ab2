import TxLock.ForStd.Refine
import TxLock.ForStd.Walk
import TxLock.Native.TlSystem

/-!
# The code of the lock functions as control graphs

A graph gives the operations that the functions of a lock type perform on the locks, and
where they begin and abort transactions. Threads that run the code go from place to place
in the graph, and a step of the code is a step in the graph or none.

## Key results

- `InGraph.step`: every step of threads that run the code is a step in the graph
- `tl_refines`, `tl_refines_map`: a system that follows the graph shows of the calls what they
  return
-/

namespace TxLock.Spec

open Native Prog

variable {Tid Pl : Type}

/-! ## What the callers see -/

/-- A call on `l` outside transactions that returns `x`. -/
def TlCall.events (c : TlCall) (l : Addr) (x : Int) : List (Addr × LockEvent) :=
  match c with
  | .lock => [(l, .answer x)]
  | .trylock => [(l, .tryCall), (l, .answer x)]
  | .unlock => [(l, .unlockCall)]

/-- The thread that takes a step. -/
def TlAct.tid : TlAct Tid → Tid
  | .call t _ _ | .run t _ | .htmBegin t | .htmAbort t _ => t

/-- The call that returns in a step, outside transactions. -/
def TlState.events (s : TlState Tid) : TlAct Tid → List (Addr × LockEvent)
  | .run t _ =>
    match (s.thread t).code, s.tx t with
    | .call c l (.ret x), none => TlCall.events c l x
    | _, _ => []
  | .call _ _ _ | .htmBegin _ | .htmAbort _ _ => []

/-- What a step returns to thread `t`. -/
def TlState.seenBy [DecidableEq Tid] (t : Tid) (s : TlState Tid) (a : TlAct Tid) :
    List (Addr × LockEvent) :=
  if TlAct.tid a = t then TlState.events s a else []

/-- The calls of thread `t` that have returned outside transactions. -/
def tlLog [DecidableEq Tid] (t : Tid) (tr : List (TlState Tid × TlAct Tid)) :
    List (Addr × LockEvent) :=
  System.events (TlState.seenBy t) tr

/-! ## Graphs -/

/-- The operations that concern only the thread: what they do to `spec_entry`. -/
def ownOp : LockOp → Option (Int → Int → Option Int)
  | .specEntry => some fun w v => if v = w then some w else none
  | .setSpecEntry x => some fun _ _ => some x
  | .statsAdd .. | .rdtscMacro | .rdtsc => some fun w _ => some w
  | .xbegin | .xend | .xtest | .xabort _ | .load _ | .store .. | .testAndSet .. | .release _
  | .cas .. | .fetchAndAdd .. | .pthreadMutexLock _ | .pthreadMutexTrylock _
  | .pthreadMutexUnlock _ | .mallocNodes | .assertFail => none

/-- The control graph of the functions of a lock type. -/
structure LockGraph (Pl : Type) where
  /-- What a call on the lock `l` does at a place. -/
  node : Addr → Pl → GraphNode LockOp Pl
  /-- Where a call starts; in a transaction when the flag is set. -/
  start : TlCall → Bool → Pl
  /-- The place is in a transaction. -/
  inTx : Pl → Bool
  /-- The place belongs to the call. -/
  fits : TlCall → Pl → Bool

/-- The operation reads a lock. -/
def ReadsLock : LockOp → Prop
  | .load (.lock _ _) => True
  | _ => False

/-- The operation changes a lock. -/
def ChangesLock : LockOp → Prop
  | .store (.lock _ _) _ | .testAndSet (.lock _ _) _ | .release (.lock _ _)
  | .cas (.lock _ _) _ _ | .fetchAndAdd (.lock _ _) _ | .pthreadMutexLock _
  | .pthreadMutexTrylock _ | .pthreadMutexUnlock _ => True
  | _ => False

namespace LockGraph

variable (G : LockGraph Pl)

/-- Where a call on `l` returns `x`; `spec_entry` tells whether in a transaction. -/
def Ends (l : Addr) (x w : Int) (pl : Pl) : Prop :=
  G.node l pl = .ret x ∧ (w ≠ 0 ↔ G.inTx pl = true)

/-- The code of the calls walks from `pl` on the lock `l`, with `spec_entry` at `w`. -/
def Goes (p : LockProg Int) (l : Addr) (w : Int) (pl : Pl) : Prop :=
  p.Walks (G.node l) ownOp (G.Ends l) w pl

/-- The code of lock type `ty` walks the graph; `tm` is set when it begins transactions. -/
structure Lawful (cfg : TxConfig) (ty : LockType) (tm : Bool) : Prop where
  goes : ∀ (c : TlCall) l, l ≠ 0 → G.Goes (c.prog cfg ty l) l 0 (G.start c false)
  goes_tx : tm = true → ∀ (c : TlCall) l w, l ≠ 0 → w ≠ 0 →
    G.Goes (c.prog cfg ty l) l w (G.start c true)
  start_inTx : ∀ c b, G.inTx (G.start c b) = b
  start_fits : ∀ c b, (b = true → tm = true) → G.fits c (G.start c b) = true
  /-- In a transaction the code only reads, and aborts. -/
  node_tx : ∀ c l pl o next, G.fits c pl = true → G.inTx pl = true → G.node l pl = .op o next →
    (ReadsLock o ∧ ∀ v, G.inTx (next v) = true ∧ G.fits c (next v) = true) ∨ ∃ n, o = .xabort n
  /-- Outside it reads and changes locks, and begins transactions. -/
  node_out : ∀ c l pl o next, G.fits c pl = true → G.inTx pl = false → G.node l pl = .op o next →
    ((ReadsLock o ∨ ChangesLock o) ∧ ∀ v, G.inTx (next v) = false ∧ G.fits c (next v) = true) ∨
      (o = .xbegin ∧ tm = true ∧
        ∀ v, G.inTx (next v) = decide (v = xbeginStarted) ∧ G.fits c (next v) = true)

end LockGraph

/-! ## Threads in a graph -/

/-- A place in a call. -/
structure GraphCode (Pl : Type) where
  call : TlCall
  lock : Addr
  place : Pl

/-- What the begin of a transaction saves. -/
structure GraphSaved (Pl : Type) extends GraphCode Pl where
  locked : Finset Addr

structure GraphThread (Pl : Type) where
  /-- `none` in the application. -/
  code : Option (GraphCode Pl) := none
  locked : Finset Addr := ∅
  saved : Option (GraphSaved Pl) := none

structure GraphState (Tid Pl : Type) where
  obj : Addr → LockObj Tid
  thread : Tid → GraphThread Pl

section

variable [DecidableEq Tid]

def GraphState.setThread (g : GraphState Tid Pl) (t : Tid) (th : GraphThread Pl) :
    GraphState Tid Pl :=
  { g with thread := Function.update g.thread t th }

@[simp] theorem GraphState.setThread_thread (g : GraphState Tid Pl) (t : Tid)
    (th : GraphThread Pl) : (g.setThread t th).thread t = th := Function.update_self ..

/-- Thread `t` goes on at `pl`, in the call it is in. -/
def GraphState.goto (g : GraphState Tid Pl) (t : Tid) (c : GraphCode Pl) (pl : Pl) :
    GraphState Tid Pl :=
  g.setThread t { g.thread t with code := some { c with place := pl } }

theorem GraphState.goto_eq {g : GraphState Tid Pl} {t : Tid} {c : GraphCode Pl}
    {locked : Finset Addr} {saved : Option (GraphSaved Pl)}
    (hth : g.thread t = ⟨some c, locked, saved⟩) (pl : Pl) :
    g.goto t c pl = g.setThread t ⟨some { c with place := pl }, locked, saved⟩ := by
  simp only [GraphState.goto, hth]

/-- What a step of the code is in the graph, and what it returns outside transactions. -/
inductive GraphStep (G : LockGraph Pl) (g : GraphState Tid Pl) :
    TlAct Tid → List (Addr × LockEvent) → GraphState Tid Pl → Prop where
  /-- An operation that concerns only the thread. -/
  | own {t : Tid} {v : Int} : GraphStep G g (.run t v) [] g
  | call {t : Tid} {c : TlCall} {l : Addr} (hcode : (g.thread t).code = none)
      (hlocked : c = .unlock → l ∈ (g.thread t).locked) :
      GraphStep G g (.call t c l) [] (g.setThread t { g.thread t with
        code := some ⟨c, l, G.start c (g.thread t).saved.isSome⟩
        locked := c.before l (g.thread t).locked })
  | ret {t : Tid} {v : Int} {c : GraphCode Pl} {x : Int} (hcode : (g.thread t).code = some c)
      (hnode : G.node c.lock c.place = .ret x) :
      GraphStep G g (.run t v)
        (if (g.thread t).saved = none then TlCall.events c.call c.lock x else [])
        (g.setThread t { g.thread t with
          code := none, locked := c.call.after c.lock x (g.thread t).locked })
  | load {t : Tid} {v : Int} {c : GraphCode Pl} {m : Addr} {f : LockField} {next : Int → Pl}
      (hcode : (g.thread t).code = some c)
      (hnode : G.node c.lock c.place = .op (.load (.lock m f)) next) :
      GraphStep G g (.run t v) [] (g.goto t c (next (f.read (g.obj m))))
  | modify {t : Tid} {w : Int} {c : GraphCode Pl} {o : LockOp} {m : Addr}
      {f : LockObj Tid → Option (Int × LockObj Tid)} {v : Int} {obj : LockObj Tid}
      {next : Int → Pl} (hcode : (g.thread t).code = some c)
      (hnode : G.node c.lock c.place = .op o next) (hsaved : (g.thread t).saved = none)
      (ho : o.modify t = some (m, f)) (hf : f (g.obj m) = some (v, obj)) :
      GraphStep G g (.run t w) []
        { g.goto t c (next v) with obj := Function.update g.obj m obj }
  | begin {t : Tid} {c : GraphCode Pl} {next : Int → Pl} (hcode : (g.thread t).code = some c)
      (hnode : G.node c.lock c.place = .op .xbegin next) (hsaved : (g.thread t).saved = none) :
      GraphStep G g (.htmBegin t) [] (g.setThread t { g.thread t with
        code := some { c with place := next xbeginStarted }
        saved := some ⟨c, (g.thread t).locked⟩ })
  /-- The begin fails. -/
  | fail {t : Tid} {c : GraphCode Pl} {next : Int → Pl} {status : Int}
      (hcode : (g.thread t).code = some c)
      (hnode : G.node c.lock c.place = .op .xbegin next) (hsaved : (g.thread t).saved = none)
      (hstatus : status ≠ xbeginStarted) :
      GraphStep G g (.htmAbort t status) [] (g.goto t c (next status))
  | abort {a : TlAct Tid} {t : Tid} {sv : GraphSaved Pl} {next : Int → Pl} {status : Int}
      (ha : TlAct.tid a = t) (hsaved : (g.thread t).saved = some sv)
      (hnode : G.node sv.lock sv.place = .op .xbegin next) (hstatus : status ≠ xbeginStarted) :
      GraphStep G g a [] (g.setThread t {
        code := some { sv.toGraphCode with place := next status }
        locked := sv.locked })

end

/-! ## Threads that run the code -/

section

variable {G : LockGraph Pl} {tm : Bool}

/-- The lock of a call is not at 0, and a thread that unlocks it does not have it any more. -/
def CallOk (c : TlCall) (l : Addr) (locked : Finset Addr) : Prop :=
  l ≠ 0 ∧ (c = .unlock → l ∉ locked)

/-- Where the code of a thread is in the graph; `inTx` tells whether in a transaction. -/
inductive CodeInGraph (G : LockGraph Pl) (w : Int) (locked : Finset Addr) (inTx : Bool) :
    TlCode → Option (GraphCode Pl) → Prop where
  | app (hw : w ≠ 0 ↔ inTx = true) : CodeInGraph G w locked inTx .app none
  | call {c : TlCall} {l : Addr} {p : LockProg Int} {pl : Pl} (hl : CallOk c l locked)
      (hgoes : G.Goes p l w pl) (hin : G.inTx pl = inTx) (hfits : G.fits c pl = true) :
      CodeInGraph G w locked inTx (.call c l p) (some ⟨c, l, pl⟩)

/-- The thread that the begin of a transaction saves. -/
inductive SavedInGraph (G : LockGraph Pl) : TlThread → GraphSaved Pl → Prop where
  | mk {c : TlCall} {l : Addr} {k : Int → LockProg Int} {w : Int} {locked : Finset Addr} {pl : Pl}
      {next : Int → Pl} (hl : CallOk c l locked) (hfits : G.fits c pl = true)
      (hnode : G.node l pl = .op .xbegin next)
      (hgoes : ∀ v, G.Goes (k v) l w (next v))
      (hnext : ∀ v, G.inTx (next v) = decide (v = xbeginStarted) ∧ G.fits c (next v) = true) :
      SavedInGraph G ⟨.call c l (.op .xbegin k), w, locked⟩ ⟨⟨c, l, pl⟩, locked⟩

/-- Where a thread is in the graph. -/
structure ThreadInGraph (G : LockGraph Pl) (tm : Bool) (th : TlThread) (tx : Option (TlTx Tid))
    (g : GraphThread Pl) : Prop where
  locked : g.locked = th.locked
  code : CodeInGraph G th.specEntry th.locked g.saved.isSome th.code g.code
  saved : g.saved = none ↔ tx = none
  tx : ∀ x sv, tx = some x → g.saved = some sv →
    tm = true ∧ (∀ l, x.writes l = none) ∧ SavedInGraph G x.saved sv

/-- Where the threads of a system are. -/
structure InGraph (G : LockGraph Pl) (tm : Bool) (g : GraphState Tid Pl) (s : TlState Tid) :
    Prop where
  gone : s.gone = false
  obj : g.obj = s.obj
  thread : ∀ t, ThreadInGraph G tm (s.thread t) (s.tx t) (g.thread t)

theorem TlCall.subset_after (c : TlCall) (l : Addr) (x : Int) (locked : Finset Addr) :
    locked ⊆ c.after l x locked := by
  unfold TlCall.after
  split
  · exact Finset.subset_insert l locked
  · exact Finset.Subset.refl _

theorem modify_of_changesLock [DecidableEq Tid] {o : LockOp} (h : ChangesLock o) (t : Tid) :
    ∃ m f, o.modify t = some (m, f) := by
  unfold ChangesLock at h
  unfold LockOp.modify
  split at h <;> first | exact ⟨_, _, rfl⟩ | exact h.elim

/-- The thread that goes on after its transaction has aborted. -/
theorem SavedInGraph.resume {th : TlThread} {sv : GraphSaved Pl} (h : SavedInGraph G th sv)
    {status : Int} (hstatus : status ≠ xbeginStarted) :
    ∃ next, G.node sv.lock sv.place = .op .xbegin next ∧
      (th.resume status).locked = sv.locked ∧
      CodeInGraph G (th.resume status).specEntry (th.resume status).locked false
        (th.resume status).code
        (some { sv.toGraphCode with place := next status }) := by
  cases h with
  | @mk c l k w locked pl next hl _ hnode hgoes hnext =>
    have hin : G.inTx (next status) = false := by rw [(hnext status).1, decide_eq_false hstatus]
    exact ⟨next, hnode, rfl, .call hl (hgoes status) hin (hnext status).2⟩

namespace ThreadInGraph

variable {th : TlThread} {tx : Option (TlTx Tid)} {g : GraphThread Pl}

theorem isSome (h : ThreadInGraph G tm th tx g) : g.saved.isSome = tx.isSome := by
  cases hg : g.saved with
  | none => rw [h.saved.mp hg]; rfl
  | some sv =>
    cases hx : tx with
    | none => rw [h.saved.mpr hx] at hg; cases hg
    | some x => rfl

/-- The thread goes on in the same transaction, or outside one. -/
theorem goOn (h : ThreadInGraph G tm th tx g) {code : TlCode} {w : Int} {locked : Finset Addr}
    {gcode : Option (GraphCode Pl)} (hcode : CodeInGraph G w locked tx.isSome code gcode) :
    ThreadInGraph G tm ⟨code, w, locked⟩ tx ⟨gcode, locked, g.saved⟩ where
  locked := rfl
  code := by rw [h.isSome]; exact hcode
  saved := h.saved
  tx := h.tx

end ThreadInGraph

end

/-! ## Steps -/

section Step

variable [DecidableEq Tid] {G : LockGraph Pl} {cfg : TxConfig} {ty : LockType} {tm : Bool}
  {g g' : GraphState Tid Pl} {s s' : TlState Tid} {t : Tid}

/-- A step that changes one thread, and perhaps locks. -/
theorem InGraph.update (h : InGraph G tm g s) {th : TlThread} {x : Option (TlTx Tid)}
    {gth : GraphThread Pl} (hgone : s'.gone = s.gone) (hobj : g'.obj = s'.obj)
    (hth : s'.thread = Function.update s.thread t th) (hx : s'.tx = Function.update s.tx t x)
    (hgth : g'.thread = Function.update g.thread t gth) (hin : ThreadInGraph G tm th x gth) :
    InGraph G tm g' s' where
  gone := hgone.trans h.gone
  obj := hobj
  thread u := by
    rw [hth, hx, hgth]
    by_cases hu : u = t
    · subst hu
      simpa only [Function.update_self] using hin
    · simpa only [Function.update_of_ne hu] using h.thread u

omit [DecidableEq Tid] in
theorem InGraph.code_of_app (h : InGraph G tm g s) (happ : (s.thread t).code = .app) :
    (g.thread t).code = none := by
  have hin := (h.thread t).code
  rw [happ] at hin
  generalize (g.thread t).code = gcode at hin
  cases hin
  rfl

omit [DecidableEq Tid] in
/-- Transactions write no lock, so every thread sees the locks as they are. -/
theorem InGraph.view (h : InGraph G tm g s) (l : Addr) : s.view t l = g.obj l := by
  rw [h.obj]
  unfold TlState.view
  cases hx : s.tx t with
  | none => rfl
  | some x =>
    cases hg : (g.thread t).saved with
    | none => rw [(h.thread t).saved.mp hg] at hx; cases hx
    | some sv =>
      have hwrites := ((h.thread t).tx x sv hx hg).2.1 l
      simp [hwrites]

/-- The thread goes on in its call, with the lock memory as it is. -/
theorem InGraph.goOn (h : InGraph G tm g s) (th : TlThread) {gcode : Option (GraphCode Pl)}
    (hcode : CodeInGraph G th.specEntry th.locked (s.tx t).isSome th.code gcode) :
    InGraph G tm (g.setThread t { g.thread t with code := gcode, locked := th.locked })
      (s.setThread t th) :=
  h.update rfl h.obj rfl (Function.update_eq_self t s.tx).symm rfl ((h.thread t).goOn hcode)

/-- An abort goes back to the begin. -/
theorem InGraph.rollback (h : InGraph G tm g s) {a : TlAct Tid} (ha : TlAct.tid a = t)
    (htx : (s.tx t).isSome = true) {status : Int} (hstatus : status ≠ xbeginStarted) :
    ∃ g', GraphStep G g a [] g' ∧ InGraph G tm g' (s.rollback t status) := by
  obtain ⟨x, hx⟩ := Option.isSome_iff_exists.mp htx
  cases hg : (g.thread t).saved with
  | none =>
    rw [(h.thread t).saved.mp hg] at hx
    cases hx
  | some sv =>
    obtain ⟨htm, -, hsv⟩ := (h.thread t).tx x sv hx hg
    obtain ⟨next, hnode, hlocked, hcode⟩ := hsv.resume hstatus
    refine ⟨_, .abort ha hg hnode hstatus, ?_⟩
    have hin : ThreadInGraph G tm (x.saved.resume status) (none : Option (TlTx Tid))
        { code := some { sv.toGraphCode with place := next status }, locked := sv.locked } :=
      ⟨hlocked.symm, hcode, iff_of_true rfl rfl, fun _ _ hnone => by cases hnone⟩
    unfold TlState.rollback
    rw [hx]
    exact h.update rfl h.obj rfl rfl rfl hin

/-- An operation of the code. -/
theorem InGraph.opStep (hG : G.Lawful cfg ty tm) (h : InGraph G tm g s) {c : TlCall} {l : Addr}
    {o : LockOp} {k : Int → LockProg Int} {v : Int}
    (hcode : (s.thread t).code = .call c l (.op o k))
    (hs : s.opStep t o (fun v => .call c l (k v)) v = some s') :
    ∃ g', GraphStep G g (.run t v) [] g' ∧ InGraph G tm g' s' := by
  have ht := h.thread t
  have hin := ht.code
  rw [hcode] at hin
  generalize hgcode : (g.thread t).code = gcode at hin
  cases hin with
  | @call _ _ _ pl hl hgoes hintx hfits =>
  unfold LockGraph.Goes at hgoes
  -- the thread goes on at the place `pl'`
  have hgoto : ∀ (code : TlCode) (pl' : Pl), CodeInGraph G (s.thread t).specEntry
      (s.thread t).locked (s.tx t).isSome code (some ⟨c, l, pl'⟩) →
      InGraph G tm (g.goto t ⟨c, l, pl⟩ pl') (s.goto t code) := by
    intro code pl' hpl'
    have hlocked := ht.locked
    have hgo := h.goOn { s.thread t with code := code } hpl'
    rw [← hlocked] at hgo
    exact hgo
  rw [ht.isSome] at hintx
  cases ho : ownOp o with
  | some f =>
    have hw := (walks_own ho).mp hgoes
    -- the graph stays where it is
    have hstay : ∀ (w' v' : Int), f (s.thread t).specEntry v' = some w' →
        InGraph G tm g (s.setThread t
          { s.thread t with code := .call c l (k v'), specEntry := w' }) := by
      intro w' v' hf
      have hcode' : CodeInGraph G w' (s.thread t).locked (s.tx t).isSome (.call c l (k v'))
          (some ⟨c, l, pl⟩) :=
        .call hl (hw v' w' hf) hintx hfits
      have hgo := h.goOn { s.thread t with code := .call c l (k v'), specEntry := w' } hcode'
      rw [← hgcode, ← ht.locked] at hgo
      have hself : g.setThread t (g.thread t) = g := by
        simp only [GraphState.setThread, Function.update_eq_self]
      rw [← hself]
      exact hgo
    refine ⟨g, .own, ?_⟩
    cases o with
    | specEntry =>
      obtain rfl := Option.some.inj ho
      obtain rfl := Option.some.inj hs
      exact hstay _ _ (by simp)
    | setSpecEntry x =>
      obtain rfl := Option.some.inj ho
      obtain rfl := Option.some.inj hs
      exact hstay _ _ rfl
    | statsAdd | rdtscMacro | rdtsc =>
      obtain rfl := Option.some.inj ho
      obtain rfl := Option.some.inj hs
      exact hstay _ _ rfl
    | _ => cases ho
  | none =>
    obtain ⟨next, hnode, hnext⟩ := (walks_node ho).mp hgoes
    -- reading a lock, in a transaction or not
    have hread : ReadsLock o →
        (∀ v, G.inTx (next v) = (s.tx t).isSome ∧ G.fits c (next v) = true) →
        ∃ g', GraphStep G g (.run t v) [] g' ∧ InGraph G tm g' s' := by
      intro hreads hafter
      unfold ReadsLock at hreads
      split at hreads
      · rename_i m f
        refine ⟨_, .load hgcode hnode, ?_⟩
        obtain rfl := Option.some.inj hs
        rw [h.view]
        exact hgoto _ _ (.call hl (hnext _) (hafter _).1 (hafter _).2)
      · exact hreads.elim
    cases htx : (s.tx t).isSome with
    | true =>
      rw [htx] at hintx
      rcases hG.node_tx c l pl o next hfits hintx hnode with ⟨hreads, hafter⟩ | ⟨n, rfl⟩
      · exact hread hreads (by rw [htx]; exact hafter)
      · simp only [TlState.opStep, htx, if_true, Option.some.injEq] at hs
        subst hs
        exact h.rollback (a := .run t v) rfl htx (explicitStatus_ne n)
    | false =>
      rw [htx] at hintx
      have hnone : s.tx t = none := by simpa using htx
      rcases hG.node_out c l pl o next hfits hintx hnode with ⟨hreads | hchanges, hafter⟩ | ⟨rfl, -⟩
      · exact hread hreads (by rw [htx]; exact hafter)
      · obtain ⟨m, f, hmod⟩ := modify_of_changesLock hchanges t
        have hs' : (f (s.view t m)).map (fun r =>
            (s.setObj t m r.2).goto t (.call c l (k r.1))) = some s' := by
          have hopStep : s.opStep t o (fun v => .call c l (k v)) v =
              (f (s.view t m)).map fun r => (s.setObj t m r.2).goto t (.call c l (k r.1)) := by
            unfold ChangesLock at hchanges
            split at hchanges <;> first | exact hchanges.elim | simp only [TlState.opStep, hmod]
          rw [← hopStep]
          exact hs
        obtain ⟨r, hr, rfl⟩ := Option.map_eq_some_iff.mp hs'
        rw [h.view] at hr
        refine ⟨_, .modify hgcode hnode (ht.saved.mpr hnone) hmod hr, ?_⟩
        have hcode' : CodeInGraph G (s.thread t).specEntry (s.thread t).locked
            (s.tx t).isSome (.call c l (k r.1)) (some ⟨c, l, next r.1⟩) :=
          .call hl (hnext _) (by rw [htx]; exact (hafter _).1) (hafter _).2
        have hth : ThreadInGraph G tm { s.thread t with code := .call c l (k r.1) } (s.tx t)
            { g.thread t with code := some ⟨c, l, next r.1⟩ } :=
          ⟨ht.locked, by rw [ht.isSome]; exact hcode', ht.saved, ht.tx⟩
        simp only [TlState.setObj, hnone, h.obj]
        exact h.update rfl rfl rfl (Function.update_eq_self t s.tx).symm rfl hth
      · simp [TlState.opStep] at hs

/-- The next step of the code. -/
theorem InGraph.runStep (hG : G.Lawful cfg ty tm) (h : InGraph G tm g s) {v : Int}
    (hs : s.runStep t v = some s') :
    ∃ g', GraphStep G g (.run t v) (TlState.events s (.run t v)) g' ∧ InGraph G tm g' s' := by
  have ht := h.thread t
  have hin := ht.code
  unfold TlState.runStep at hs
  cases hcode : (s.thread t).code with
  | app => simp [hcode] at hs
  | call c l p =>
    cases p with
    | halt => simp [hcode] at hs
    | op o k =>
      simp only [hcode] at hs
      have hev : TlState.events s (.run t v) = [] := by simp [TlState.events, hcode]
      rw [hev]
      exact h.opStep hG hcode hs
    | ret x =>
      simp only [hcode, Option.some.injEq] at hs
      subst hs
      rw [hcode] at hin
      generalize hgcode : (g.thread t).code = gcode at hin
      cases hin with
      | @call _ _ _ pl hl hgoes hintx hfits =>
        obtain ⟨hnode, hw⟩ : G.Ends l x (s.thread t).specEntry pl := hgoes
        -- the caller is told outside transactions, in which the two views agree
        have hev : TlState.events s (.run t v) =
            if (g.thread t).saved = none then TlCall.events c l x else [] := by
          cases hx : s.tx t with
          | none => simp [TlState.events, hcode, hx, ht.saved.mpr hx]
          | some y =>
            have hsaved : (g.thread t).saved ≠ none := fun hnone => by
              rw [ht.saved.mp hnone] at hx
              cases hx
            simp [TlState.events, hcode, hx, hsaved]
        rw [hev]
        refine ⟨_, .ret hgcode hnode, ?_⟩
        have hcode' : CodeInGraph G (s.thread t).specEntry (c.after l x (s.thread t).locked)
            (s.tx t).isSome .app none :=
          .app (by rw [← ht.isSome, ← hintx]; exact hw)
        have hgo := h.goOn { s.thread t with
          code := .app, locked := c.after l x (s.thread t).locked } hcode'
        rw [← ht.locked] at hgo ⊢
        exact hgo

/-- The begin instruction starts a transaction. -/
theorem InGraph.beginStep (hG : G.Lawful cfg ty tm) (h : InGraph G tm g s)
    (hs : s.beginStep t = some s') :
    ∃ g', GraphStep G g (.htmBegin t) [] g' ∧ InGraph G tm g' s' := by
  have ht := h.thread t
  have hin := ht.code
  unfold TlState.beginStep at hs
  split at hs
  · rename_i c l k hcode
    rw [hcode] at hin
    generalize hgcode : (g.thread t).code = gcode at hin
    cases hin with
    | @call _ _ _ pl hl hgoes hintx hfits =>
      unfold LockGraph.Goes at hgoes
      obtain ⟨next, hnode, hnext⟩ := (walks_node (by rfl)).mp hgoes
      rw [ht.isSome] at hintx
      cases htx : s.tx t with
      | some x =>
        -- the code begins no transaction in a transaction
        rw [htx] at hintx
        rcases hG.node_tx c l pl _ next hfits hintx hnode with ⟨hreads, -⟩ | ⟨n, hn⟩
        · exact hreads.elim
        · cases hn
      | none =>
        rw [htx] at hintx
        have hout := hG.node_out c l pl _ next hfits hintx hnode
        obtain ⟨hreads | hchanges, -⟩ | ⟨-, htm, hafter⟩ := hout
        · exact hreads.elim
        · exact hchanges.elim
        simp only [htx, Option.some.injEq] at hs
        subst hs
        refine ⟨_, .begin hgcode hnode (ht.saved.mpr htx), ?_⟩
        have hsv : SavedInGraph G (s.thread t) ⟨⟨c, l, pl⟩, (g.thread t).locked⟩ := by
          rw [ht.locked]
          have heta : s.thread t = ⟨.call c l (.op .xbegin k), (s.thread t).specEntry,
              (s.thread t).locked⟩ := by rw [← hcode]
          rw [heta]
          exact .mk hl hfits hnode hnext hafter
        have hstarted : G.inTx (next xbeginStarted) = true := by
          rw [(hafter _).1, decide_eq_true rfl]
        have hresume : (s.thread t).resume xbeginStarted =
            { s.thread t with code := .call c l (k xbeginStarted) } := by
          simp only [TlThread.resume, hcode]
        rw [hresume]
        refine h.update rfl h.obj rfl rfl rfl ⟨ht.locked, ?_, ?_, ?_⟩
        · exact .call hl (hnext _) hstarted (hafter _).2
        · simp
        · intro x sv hx hg
          cases hx
          cases hg
          exact ⟨htm, fun _ => rfl, hsv⟩
  · cases hs

/-- The begin fails, or the transaction aborts. -/
theorem InGraph.abortStep (hG : G.Lawful cfg ty tm) (h : InGraph G tm g s) {status : Int}
    (hstatus : status ≠ xbeginStarted) (hs : s.abortStep t status = some s') :
    ∃ g', GraphStep G g (.htmAbort t status) [] g' ∧ InGraph G tm g' s' := by
  have ht := h.thread t
  unfold TlState.abortStep at hs
  split at hs
  · rename_i htx
    simp only [Option.some.injEq] at hs
    subst hs
    exact h.rollback (a := .htmAbort t status) rfl htx hstatus
  · rename_i htx
    have hnone : s.tx t = none := by simpa using htx
    split at hs
    · rename_i c l k hcode
      simp only [Option.some.injEq] at hs
      subst hs
      have hin := ht.code
      rw [hcode] at hin
      generalize hgcode : (g.thread t).code = gcode at hin
      cases hin with
      | @call _ _ _ pl hl hgoes hintx hfits =>
        unfold LockGraph.Goes at hgoes
        obtain ⟨next, hnode, hnext⟩ := (walks_node (by rfl)).mp hgoes
        rw [ht.isSome, hnone] at hintx
        have hout := hG.node_out c l pl _ next hfits hintx hnode
        obtain ⟨hreads | hchanges, -⟩ | ⟨-, -, hafter⟩ := hout
        · -- the place begins a transaction, so it is no access of the lock
          exact hreads.elim
        · exact hchanges.elim
        refine ⟨_, .fail hgcode hnode (ht.saved.mpr hnone) hstatus, ?_⟩
        have hfailed : G.inTx (next status) = (s.tx t).isSome := by
          rw [(hafter _).1, decide_eq_false hstatus, hnone]
          rfl
        -- the code goes on with the status that `_xbegin` returns
        have hresume : (s.thread t).resume status =
            { s.thread t with code := .call c l (k status) } := by
          simp only [TlThread.resume, hcode]
        rw [hresume]
        have hgo := h.goOn { s.thread t with code := .call c l (k status) }
          (.call hl (hnext _) hfailed (hafter _).2)
        rw [← ht.locked] at hgo
        exact hgo
    · cases hs

/-- Every step of threads that run the code is a step in the graph. -/
theorem InGraph.step (hG : G.Lawful cfg ty tm) (h : InGraph G tm g s) {a : TlAct Tid}
    (hs : s.step cfg ty a = some s') :
    ∃ g', GraphStep G g a (TlState.events s a) g' ∧ InGraph G tm g' s' := by
  unfold TlState.step at hs
  simp only [h.gone, Bool.false_eq_true, if_false] at hs
  cases a with
  | run t v => exact h.runStep hG hs
  | htmBegin t => exact h.beginStep hG hs
  | htmAbort t status =>
    simp only [Option.ite_none_left_eq_some] at hs
    exact h.abortStep hG hs.1 hs.2
  | call t c l =>
    have ht := h.thread t
    have hin := ht.code
    simp only at hs
    split at hs
    · rename_i hcode
      simp only [Option.ite_none_left_eq_some, not_or, not_and, not_not] at hs
      obtain ⟨⟨hl, hlocked⟩, hs⟩ := hs
      obtain rfl := Option.some.inj hs
      rw [hcode] at hin
      generalize hgcode : (g.thread t).code = gcode at hin
      cases hin with
      | app hw =>
        rw [ht.isSome] at hw
        refine ⟨_, .call hgcode (by rw [ht.locked]; exact hlocked), ?_⟩
        have htm : (s.tx t).isSome = true → tm = true := by
          intro htx
          obtain ⟨x, hx⟩ := Option.isSome_iff_exists.mp htx
          obtain ⟨sv, hg⟩ := Option.isSome_iff_exists.mp (ht.isSome.trans htx)
          exact (ht.tx x sv hx hg).1
        have hgoes : G.Goes (c.prog cfg ty l) l (s.thread t).specEntry
            (G.start c (s.tx t).isSome) := by
          cases htx : (s.tx t).isSome with
          | false =>
            have hzero : (s.thread t).specEntry = 0 := by
              by_contra hne
              rw [htx] at hw
              cases hw.mp hne
            rw [hzero]
            exact hG.goes c l hl
          | true => exact hG.goes_tx (htm htx) c l _ hl (hw.mpr htx)
        -- an unlock gives the lock up
        have hcall : CallOk c l (c.before l (s.thread t).locked) := by
          refine ⟨hl, fun hc => ?_⟩
          rw [TlCall.before, if_pos hc]
          exact Finset.notMem_erase l _
        have hcode' : CodeInGraph G (s.thread t).specEntry (c.before l (s.thread t).locked)
            (s.tx t).isSome (.call c l (c.prog cfg ty l))
            (some ⟨c, l, G.start c (s.tx t).isSome⟩) :=
          .call hcall hgoes (hG.start_inTx _ _) (hG.start_fits _ _ htm)
        have hgo := h.goOn { s.thread t with
          code := .call c l (c.prog cfg ty l)
          locked := c.before l (s.thread t).locked } hcode'
        rw [← ht.isSome] at hgo
        rw [ht.locked]
        exact hgo
    · cases hs

end Step

/-! ## Runs -/

/-- The calls and the answers among events. -/
def callsOf {Lid : Type} (es : List (Lid × LockEvent)) : List (Lid × LockEvent) :=
  es.filter fun e => e.2 ≠ .take ∧ e.2 ≠ .give

/-- The calls and the answers among the events of a step that thread `t` takes. -/
def callsSeen {Lid σ α : Type} [DecidableEq Tid] (actor : α → Tid)
    (ev : σ → α → List (Lid × LockEvent)) (t : Tid) (s : σ) (a : α) : List (Lid × LockEvent) :=
  if actor a = t then callsOf (ev s a) else []

/-- The places of the threads belong to their calls, and are in transactions where the threads
    are. -/
structure GraphOk (G : LockGraph Pl) (tm : Bool) (g : GraphState Tid Pl) : Prop where
  fits : ∀ {t c}, (g.thread t).code = some c → G.fits c.call c.place = true
  call : ∀ {t c}, (g.thread t).code = some c → CallOk c.call c.lock (g.thread t).locked
  inTx : ∀ {t c}, (g.thread t).code = some c → G.inTx c.place = (g.thread t).saved.isSome
  saved : ∀ {t sv}, (g.thread t).saved = some sv →
    tm = true ∧ G.fits sv.call sv.place = true ∧ CallOk sv.call sv.lock sv.locked

theorem InGraph.ok {G : LockGraph Pl} {tm : Bool} {g : GraphState Tid Pl} {s : TlState Tid}
    (h : InGraph G tm g s) : GraphOk G tm g where
  fits {t c} hcode := by
    have hin := (h.thread t).code
    rw [hcode] at hin
    generalize (s.thread t).code = code at hin
    cases hin with
    | call _ _ _ hfits => exact hfits
  call {t c} hcode := by
    have hin := (h.thread t).code
    rw [hcode, ← (h.thread t).locked] at hin
    generalize (s.thread t).code = code at hin
    cases hin with
    | call hl _ _ _ => exact hl
  inTx {t c} hcode := by
    have hin := (h.thread t).code
    rw [hcode] at hin
    generalize (s.thread t).code = code at hin
    cases hin with
    | call _ _ hin _ => exact hin
  saved {t sv} hsaved := by
    have hsome := (h.thread t).isSome
    rw [hsaved] at hsome
    obtain ⟨x, hx⟩ := Option.isSome_iff_exists.mp hsome.symm
    obtain ⟨htm, -, hsv⟩ := (h.thread t).tx x sv hx hsaved
    cases x with
    | mk depth saved writes =>
      cases hsv with
      | mk hl hfits _ _ _ => exact ⟨htm, hfits, hl⟩

/-- The locks thread `t` had when its transaction began, or has now. -/
def TlState.base (s : TlState Tid) (t : Tid) : Finset Addr :=
  match s.tx t with
  | some x => x.saved.locked
  | none => (s.thread t).locked

/-- The locks a thread had when its transaction began, or has now. -/
def GraphThread.base (g : GraphThread Pl) : Finset Addr :=
  match g.saved with
  | some sv => sv.locked
  | none => g.locked

theorem SavedInGraph.locked {G : LockGraph Pl} {th : TlThread} {sv : GraphSaved Pl}
    (h : SavedInGraph G th sv) : sv.locked = th.locked := by
  cases h with
  | mk _ _ _ _ _ => rfl

theorem InGraph.base {G : LockGraph Pl} {tm : Bool} {g : GraphState Tid Pl} {s : TlState Tid}
    (h : InGraph G tm g s) (t : Tid) : (g.thread t).base = TlState.base s t := by
  have ht := h.thread t
  unfold GraphThread.base TlState.base
  cases hsaved : (g.thread t).saved with
  | none =>
    rw [ht.saved.mp hsaved]
    exact ht.locked
  | some sv =>
    cases htx : s.tx t with
    | none =>
      rw [ht.saved.mpr htx] at hsaved
      cases hsaved
    | some x => exact (ht.tx x sv htx hsaved).2.2.locked

/-- A step is one of its thread alone. -/
theorem GraphStep.thread_of_ne [DecidableEq Tid] {G : LockGraph Pl} {g g' : GraphState Tid Pl}
    {a : TlAct Tid} {es : List (Addr × LockEvent)} (h : GraphStep G g a es g') {u : Tid}
    (hu : u ≠ TlAct.tid a) : g'.thread u = g.thread u := by
  cases h with
  | own => rfl
  | abort ha => exact Function.update_of_ne (ha ▸ hu) _ _
  | call | ret | load | modify | begin | fail => exact Function.update_of_ne hu _ _

/-- A system that follows the graph: what it shows of the calls on the locks with `P` is what
    they return, and in each thread what it has shown of the call the thread is in. -/
theorem tl_refines [DecidableEq Tid] {G : LockGraph Pl} {cfg : TxConfig} {ty : LockType}
    {tm : Bool} (hG : G.Lawful cfg ty tm) {σ α : Type} {N : System σ α} (actor : α → Tid)
    (ev : σ → α → List (Addr × LockEvent)) {P : Addr × LockEvent → Bool}
    {R : GraphState Tid Pl → σ → Prop} (due : GraphThread Pl → List (Addr × LockEvent))
    {C : TlState Tid → TlAct Tid → Prop} {D : GraphState Tid Pl → TlAct Tid → Prop}
    (hcond : ∀ g s a, InGraph G tm g s → C s a → D g a)
    (hinit : ∃ A, N.init A ∧ R ⟨fun _ => {}, fun _ => {}⟩ A) (hdue : due {} = [])
    (hstep : ∀ g A a es g', GraphOk G tm g → R g A → D g a → GraphStep G g a es g' →
      (R g' A ∧
        es.filter P ++ due (g'.thread (TlAct.tid a)) = due (g.thread (TlAct.tid a))) ∨
      ∃ a' A', N.step A a' = some A' ∧ R g' A' ∧ actor a' = TlAct.tid a ∧
        due (g.thread (TlAct.tid a)) ++ callsOf (ev A a') =
          es.filter P ++ due (g'.thread (TlAct.tid a)))
    {tr : List (TlState Tid × TlAct Tid)} {s : TlState Tid}
    (h : (tlSystem Tid cfg ty).Run C tr s) :
    ∃ tr' A g, N.Run System.Free tr' A ∧ R g A ∧ InGraph G tm g s ∧
      ∀ t, System.events (callsSeen actor ev t) tr' =
        (tlLog t tr).filter P ++ due (g.thread t) := by
  have hrefines := h.refines_owing (N := N) (f := callsSeen actor ev)
    (e := fun u s a => (TlState.seenBy u s a).filter P)
    (R := fun A d s => ∃ g, R g A ∧ InGraph G tm g s ∧ d = fun u => due (g.thread u)) ?_ ?_
  · obtain ⟨tr', A, d, hrun, hsee, g, hR, hg, rfl⟩ := hrefines
    refine ⟨tr', A, g, hrun, hR, hg, fun t => ?_⟩
    rw [hsee t]
    simp only [System.events, tlLog, List.filter_flatMap]
  · rintro s rfl
    obtain ⟨A, hA, hR⟩ := hinit
    refine ⟨A, hA, _, hR, ⟨rfl, rfl, fun t => ?_⟩, funext fun u => hdue.symm⟩
    exact ⟨rfl, .app (by simp), iff_of_true rfl rfl, fun x sv hx => by cases hx⟩
  · rintro A _ s a s' ⟨g, hR, hg, rfl⟩ hc hs
    obtain ⟨g', hstep', hg'⟩ := hg.step hG hs
    -- the other threads see nothing of the step
    have hother : ∀ u, u ≠ TlAct.tid a →
        (TlState.seenBy u s a).filter P = [] ∧ due (g'.thread u) = due (g.thread u) := by
      intro u hu
      refine ⟨?_, by rw [hstep'.thread_of_ne hu]⟩
      simp [TlState.seenBy, Ne.symm hu]
    have hself : TlState.seenBy (TlAct.tid a) s a = TlState.events s a := if_pos rfl
    rcases hstep g A a _ g' hg.ok hR (hcond g s a hg hc) hstep' with
      ⟨hR', hsame⟩ | ⟨a', A', hA', hR', hactor, hsame⟩
    · refine .inl ⟨_, fun u => ?_, g', hR', hg', rfl⟩
      by_cases hu : u = TlAct.tid a
      · rw [hu, hself, hsame]
      · rw [(hother u hu).1, (hother u hu).2, List.nil_append]
    · refine .inr ⟨a', A', _, hA', fun u => ?_, g', hR', hg', rfl⟩
      by_cases hu : u = TlAct.tid a
      · rw [hu, hself, callsSeen, if_pos hactor, hsame]
      · have hnone : callsSeen actor ev u A a' = [] := by
          simp [callsSeen, hactor, Ne.symm hu]
        rw [(hother u hu).1, (hother u hu).2, hnone, List.append_nil, List.nil_append]

/-- A system that follows the graph by a map of the states. -/
theorem tl_refines_map [DecidableEq Tid] {G : LockGraph Pl} {cfg : TxConfig} {ty : LockType}
    {tm : Bool} (hG : G.Lawful cfg ty tm) {σ α : Type} {N : System σ α} (actor : α → Tid)
    (ev : σ → α → List (Addr × LockEvent)) (f : GraphState Tid Pl → σ)
    (due : GraphThread Pl → List (Addr × LockEvent))
    (hinit : N.init (f ⟨fun _ => {}, fun _ => {}⟩)) (hdue : due {} = [])
    (hstep : ∀ g a es g', GraphOk G tm g → GraphStep G g a es g' →
      (f g' = f g ∧ es ++ due (g'.thread (TlAct.tid a)) = due (g.thread (TlAct.tid a))) ∨
      ∃ a', N.step (f g) a' = some (f g') ∧ actor a' = TlAct.tid a ∧
        due (g.thread (TlAct.tid a)) ++ callsOf (ev (f g) a') =
          es ++ due (g'.thread (TlAct.tid a)))
    {tr : List (TlState Tid × TlAct Tid)} {s : TlState Tid}
    (h : (tlSystem Tid cfg ty).Run System.Free tr s) :
    ∃ tr' g, N.Run System.Free tr' (f g) ∧ InGraph G tm g s ∧
      ∀ t, System.events (callsSeen actor ev t) tr' = tlLog t tr ++ due (g.thread t) := by
  have hrefines := tl_refines hG (N := N) actor ev (P := fun _ => true)
    (R := fun g A => A = f g) due (D := fun _ _ => True)
    (fun _ _ _ _ _ => trivial) ⟨_, hinit, rfl⟩ hdue ?_ h
  · obtain ⟨tr', A, g, hrun, rfl, hg, hsee⟩ := hrefines
    simp only [List.filter_true] at hsee
    exact ⟨tr', g, hrun, hg, hsee⟩
  · rintro g A a es g' hok rfl - hs
    rw [List.filter_true]
    rcases hstep g a es g' hok hs with ⟨hsame, hdue⟩ | ⟨a', hs', ha', hdue⟩
    · exact .inl ⟨hsame.symm, hdue⟩
    · exact .inr ⟨a', _, hs', rfl, ha', hdue⟩

/-! ## Pieces of the code -/

section Walks

variable {G : Pl → GraphNode LockOp Pl} {w : Int} {pl : Pl}

@[simp] theorem walks_tmStatsAdd {Q : Unit → Int → Pl → Prop} {f : StatField} {v : Int} :
    (tmStatsAdd f v).Walks G ownOp Q w pl ↔ Q () w pl := by
  unfold tmStatsAdd emit
  simp only [walks_own (show ownOp (.statsAdd f v) = some fun w _ => some w from rfl),
    Option.some.injEq, forall_eq', walks_ret, forall_const]

@[simp] theorem walks_rdtsc {Q : Int → Int → Pl → Prop} :
    (perform LockOp.rdtsc).Walks G ownOp Q w pl ↔ ∀ v, Q v w pl := by
  unfold perform
  simp only [walks_own (show ownOp .rdtsc = some fun w _ => some w from rfl),
    Option.some.injEq, forall_eq', walks_ret]

@[simp] theorem walks_rdtscMacro {Q : Int → Int → Pl → Prop} :
    (perform LockOp.rdtscMacro).Walks G ownOp Q w pl ↔ ∀ v, Q v w pl := by
  unfold perform
  simp only [walks_own (show ownOp .rdtscMacro = some fun w _ => some w from rfl),
    Option.some.injEq, forall_eq', walks_ret]

@[simp] theorem walks_tmStatsAddRdtsc {Q : Unit → Int → Pl → Prop} {f : StatField} :
    (tmStatsAddRdtsc f).Walks G ownOp Q w pl ↔ Q () w pl := by
  unfold tmStatsAddRdtsc
  simp only [bind_eq, walks_bind, walks_rdtscMacro, walks_tmStatsAdd, forall_const]

@[simp] theorem walks_tmStatsSubRdtsc {Q : Unit → Int → Pl → Prop} {f : StatField} :
    (tmStatsSubRdtsc f).Walks G ownOp Q w pl ↔ Q () w pl := by
  unfold tmStatsSubRdtsc
  simp only [bind_eq, walks_bind, walks_rdtscMacro, walks_tmStatsAdd, forall_const]

@[simp] theorem walks_specEntry {Q : Int → Int → Pl → Prop} :
    (perform LockOp.specEntry).Walks G ownOp Q w pl ↔ Q w w pl := by
  unfold perform
  simp only [walks_own (show ownOp .specEntry = some fun w v => if v = w then some w else none
    from rfl), Option.ite_none_right_eq_some, Option.some.injEq, walks_ret]
  constructor
  · exact fun h => h w w ⟨rfl, rfl⟩
  · rintro h v w' ⟨rfl, rfl⟩
    exact h

@[simp] theorem walks_setSpecEntry {Q : Unit → Int → Pl → Prop} {x : Int} :
    (emit (LockOp.setSpecEntry x)).Walks G ownOp Q w pl ↔ Q () x pl := by
  unfold emit
  simp only [walks_own (show ownOp (.setSpecEntry x) = some fun _ _ => some x from rfl),
    Option.some.injEq, forall_eq', walks_ret, forall_const]

/-- An operation of the graph. -/
theorem walks_perform {Q : Int → Int → Pl → Prop} {o : LockOp} {next : Int → Pl}
    (ho : ownOp o = none) (hnode : G pl = .op o next) (hQ : ∀ v, Q v w (next v)) :
    (perform o).Walks G ownOp Q w pl :=
  (walks_node ho).mpr ⟨next, hnode, hQ⟩

/-- An operation of the graph whose answer is not used. -/
theorem walks_emit {Q : Unit → Int → Pl → Prop} {o : LockOp} {next : Int → Pl}
    (ho : ownOp o = none) (hnode : G pl = .op o next) (hQ : ∀ v, Q () w (next v)) :
    (emit o).Walks G ownOp Q w pl :=
  (walks_node ho).mpr ⟨next, hnode, hQ⟩

@[simp] theorem walks_abortStats {Q : Unit → Int → Pl → Prop} {status : Int} :
    (abortStats status).Walks G ownOp Q w pl ↔ Q () w pl := by
  unfold abortStats
  split
  · exact walks_tmStatsAdd
  · split
    · exact walks_tmStatsAdd
    · split
      · exact walks_tmStatsAdd
      · exact walks_ret

/-- `enter_htm` begins a transaction with `spec_entry` set, or returns 1 with it reset. -/
theorem walks_enterHtm {Q : Int → Int → Pl → Prop} {primitive : Addr} {next : Int → Pl}
    (hnode : G pl = .op .xbegin next) (hbegun : Q 0 primitive (next xbeginStarted))
    (hfailed : ∀ v, v ≠ xbeginStarted → Q 1 0 (next v)) :
    (enterHtm primitive).Walks G ownOp Q w pl := by
  unfold enterHtm
  simp only [bind_eq, walks_bind, walks_setSpecEntry, walks_tmStatsAdd, walks_tmStatsSubRdtsc]
  refine walks_perform rfl hnode fun v => ?_
  split
  · rename_i hv
    rw [hv]
    exact hbegun
  · rename_i hv
    simp only [walks_bind, walks_tmStatsAddRdtsc, walks_abortStats, walks_setSpecEntry]
    exact hfailed v hv

/-- `tatas` goes to `held` where it finds the lock taken and to `got` where it takes it. -/
theorem walks_tatas {Q : Int → Int → Pl → Prop} {l : Addr} (swap held got : Pl)
    (hread : G pl = .op (.load (.lock l .val)) fun v => if v ≠ 0 then held else swap)
    (hswap : G swap = .op (.testAndSet (.lock l .val) 1) fun v => if v ≠ 0 then held else got)
    (hheld : Q 1 w held) (hgot : Q 0 w got) :
    (tatas (.lock l .val) 1).Walks G ownOp Q w pl := by
  unfold tatas
  rw [bind_eq, walks_bind]
  refine walks_perform rfl hread fun v => ?_
  by_cases hv : v ≠ 0
  · simp only [if_pos hv]
    exact hheld
  · simp only [if_neg hv, bind_eq, walks_bind]
    refine walks_perform rfl hswap fun old => ?_
    by_cases hold : old ≠ 0
    · simp only [if_pos hold]
      exact hheld
    · simp only [if_neg hold]
      exact hgot

/-- The loop around `tatas` leaves it with the lock. -/
theorem walks_tatasLoop {Q : Unit → Int → Pl → Prop} {cfg : TxConfig} {l : Addr} (swap got : Pl)
    (hread : G pl = .op (.load (.lock l .val)) fun v => if v ≠ 0 then pl else swap)
    (hswap : G swap = .op (.testAndSet (.lock l .val) 1) fun v => if v ≠ 0 then pl else got)
    (hgot : Q () w got) : (tatasLoop cfg (.lock l .val)).Walks G ownOp Q w pl := by
  unfold tatasLoop
  refine walks_loop (I := fun _ w' pl' => w' = w ∧ pl' = pl) ?_ _ ⟨rfl, rfl⟩
  rintro - w' pl' ⟨rfl, rfl⟩
  rw [bind_eq, walks_bind]
  exact walks_tatas swap pl' got hread hswap ⟨rfl, rfl⟩ hgot

end Walks

end TxLock.Spec
