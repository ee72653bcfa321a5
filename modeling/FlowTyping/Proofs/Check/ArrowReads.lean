import FlowTyping.Proofs.Check.Observers
import FlowTyping.Proofs.Compare.Below

/-!
# Reads in arrow functions

An arrow function sees the variables around it: its scope is a copy of the one around, in which every
variable counts as captured and not used yet, and which has flags of its own.  Which reads are
undefined depends on neither, but for one flag.  Where the set of variables is not known around an
arrow function, it counts as known inside.
-/

namespace FlowTyping

open Analysis Evaluator List Scope

variable {cx : Context} {st : State} {exact : Exactness} {ρ : Matching} {arena : Arena}

/-! ## Evaluation in place -/

namespace Evaluator

/-- Runs the body of an arrow function in the scope `s`, once its parameters are declared there. -/
def arrowBody (ev : Evaluator) (id : NodeId) (fn : ArrowExpr) (s : Scope) : Analysis Unit := do
  let line ← lineOf id
  let s ← addParams none line fn.params s
  modifyStack fun st => st.push s
  ev.visit fn.body

/-- The body of an arrow function, evaluated where the function stands: in a copy of the scope around
it. -/
def inPlace (ev : Evaluator) (id : NodeId) (fn : ArrowExpr) : Analysis Unit := do
  let s ← forkCurrent
  ev.arrowBody id fn s

/-- A copy of the current scope, in which the set of variables counts as known. -/
def knownCopy : Analysis Scope := do
  let s ← forkCurrent
  return { s with flags := { s.flags with isDynamic := false } }

/-- The same, as if the set of variables were known around the function. -/
def inKnown (ev : Evaluator) (id : NodeId) (fn : ArrowExpr) : Analysis Unit := do
  let s ← knownCopy
  ev.arrowBody id fn s

/-- The scope of an arrow function that is not static, without its parameters. -/
def arrowScope (id : NodeId) : Analysis Scope := do
  let flags : ScopeFlags := { isArrow := true, isStrict := ← isStrict }
  let s := { ← forkCurrent with flags, function := some id }
  onStore fun σ => ((), s.vars.entries.foldl (fun σ (_, slot) => σ.update slot capturedCopy) σ)
  return s

/-- Enters an arrow function that is not static, and runs its body. -/
def inArrow (ev : Evaluator) (id : NodeId) (fn : ArrowExpr) : Analysis Unit := do
  let s ← arrowScope id
  ev.arrowBody id fn s

variable {ev : Evaluator} {id : NodeId} {fn : ArrowExpr}

lemma inferArrow_eq_inArrow (hstatic : fn.isStatic = false) :
    ev.inferArrow id fn = (do
      ev.inArrow id fn
      leaveCapturing id capturedRead) := by
  simp only [inferArrow_eq, hstatic, Bool.false_eq_true, if_false, inArrow, arrowScope, arrowBody,
    bind_assoc, pure_bind]
  rfl

lemma inKnown_eq_inPlace (h : st.stack.current.flags.isDynamic = false) :
    ev.inKnown id fn cx st = ev.inPlace id fn cx st := by
  have hflags : { st.stack.current.flags with isDynamic := false } = st.stack.current.flags := by
    rw [← h]
  show ev.arrowBody id fn { (st.stack.current.fork st.store).1 with
    flags := { st.stack.current.flags with isDynamic := false } } cx _ = _
  rw [hflags]
  rfl

end Evaluator

/-! ## Comparison -/

section Unmarked

variable {σ τ : Store}

lemma Variable.Like.capturedLeft {v w : Variable} (hmarks : ¬ exact.marks) (h : v.Like exact w) :
    (Analysis.capturedCopy v).Like exact w where
  name := h.name
  type := h.type
  line := h.line
  used hm := absurd hm hmarks
  written hm := absurd hm hmarks
  kind hm := absurd hm hmarks
  byReference hm := absurd hm hmarks
  typeChanged := h.typeChanged

lemma Store.Like.captureLeft (hmarks : ¬ exact.marks) {es fs : List (String × Slot)}
    (h : VarsLike ρ es fs) (hσ : σ.Like exact ρ τ) :
    (es.foldl (fun σ e => σ.update e.2 capturedCopy) σ).Like exact ρ τ := by
  induction h generalizing σ with
  | nil => exact hσ
  | @cons e f es fs hef _ ih =>
    refine ih (hσ.replace hef.2 (by simp) rfl ?_ (fun ha => read_update_of_ne ha ..) fun _ => rfl)
    rw [read_update_self (hσ.lt_left hef.2)]
    exact (hσ.read hef.2).capturedLeft hmarks

lemma ScopeView.Like.refl (v : ScopeView) : v.Like exact v :=
  ⟨forall₂_same.2 fun _ _ => ⟨rfl, .refl _⟩, rfl, .refl _, fun _ => rfl⟩

lemma Event.Like.refl (e : Event) : e.Like exact Eq e := by
  cases e with
  | visited v => exact .visited rfl rfl (forall₂_same.2 fun _ _ => rfl) rfl (.refl _)
  | left function view => exact .left function (.refl _)

end Unmarked

namespace Comparison

/-- Two analyses in one context of which names, types and lines are compared, and no marks. -/
def unmarked (cx : Context) : Comparison where
  __ := inContext cx (fun _ _ _ _ => trivial) (fun _ _ _ _ => trivial)
  nodes _ := True
  exact := ⟨False, False, False⟩
  events := Forall₂ (Event.Like ⟨False, False, False⟩ Eq)
  propagate := .refl _
  events_cons h _ he := .cons he h

lemma arrowScope_like (id : NodeId) :
    (unmarked cx).Sim ρ (arrowScope id) knownCopy
      (Like (unmarked cx).exact) := by
  intro ρ' hle st st' hst
  obtain ⟨ρ1, hle1, hσ, hs⟩ := hst.stack.current.fork le_rfl hst.store
  refine .some ⟨ρ1, hle1, hst.withStore hle1 (hσ.captureLeft not_false hs.vars), ?_⟩
  exact ⟨hs.vars, hs.chains, ⟨rfl, nofun, nofun, nofun, nofun, nofun⟩, nofun⟩

lemma inArrow_like (n : Nat) (id : NodeId) (fn : ArrowExpr) :
    (unmarked cx).Same ρ ((FlowTyping.evaluator n).inArrow id fn)
      ((FlowTyping.evaluator n).inKnown id fn) := by
  refine (arrowScope_like id).bind fun ρ1 _ s t hst => Sim.lineOf ?_
  refine (addParams none _ fn.params hst).bind fun ρ2 _ s t hst => ?_
  refine (modifyStack fun _ hle _ _ hk => hk.push (hst.mono hle)).bind fun ρ3 _ _ => ?_
  exact ((unmarked cx).evaluator n).visit trivial

end Comparison

/-! ## Reads -/

/-- The node that was passed, with the name that is reported there as undefined. -/
def Event.verdict? (arena : Arena) : Event → Option (NodeId × Option String)
  | .visited visit => some (visit.node, visit.undefined? arena)
  | .left .. => none

/-- What is reported at the nodes that were passed, the last one first. -/
def State.verdicts (arena : Arena) (st : State) : List (NodeId × Option String) :=
  st.events.filterMap (Event.verdict? arena)

/-- Both runs have no end, or they pass the same nodes and the same reads are reported. -/
def SameReads {α β : Type} (arena : Arena) : Option (α × State) → Option (β × State) → Prop :=
  Option.Rel fun r r' => r.2.verdicts arena = r'.2.verdicts arena

lemma Event.Like.verdict?_eq {e e' : Event} (h : e.Like exact Eq e') :
    e.verdict? arena = e'.verdict? arena := by
  cases e with
  | visited v =>
    cases e' with
    | visited w => rw [verdict?, verdict?, Visit.undefined?_eq h, show v.node = w.node from h.node_eq]
    | left => cases h
  | left =>
    cases h with
    | left => rfl

lemma filterMap_verdict?_eq {es es' : List Event} (h : Forall₂ (Event.Like exact Eq) es es') :
    es.filterMap (Event.verdict? arena) = es'.filterMap (Event.verdict? arena) := by
  induction h with
  | nil => rfl
  | cons he _ ih => rw [filterMap_cons, filterMap_cons, he.verdict?_eq, ih]

lemma propagateUsage_events (names : List String) (cx : Context) (st : State) :
    ∃ st', propagateUsage names cx st = some ((), st') ∧ st'.events = st.events := by
  show ∃ st', (if cx.options.propagateClosureUsage then
    onVars fun s σ => names.foldl (s.markUsed) σ else pure ()) cx st = _ ∧ _
  split
  · exact ⟨_, onVars_run _, rfl⟩
  · exact ⟨st, rfl, rfl⟩

lemma leaveCapturing_verdicts (id : NodeId) (readIn : Scope → Store → List String)
    (cx : Context) (st : State) : ∃ r, leaveCapturing id readIn cx st = some r ∧
      ∀ arena, r.2.verdicts arena = st.verdicts arena := by
  cases hpop : st.stack.pop? with
  | none => exact ⟨_, bind_run (leaveFunction_of_none hpop cx id), fun _ => rfl⟩
  | some popped =>
    obtain ⟨st', hrun, hevents⟩ := propagateUsage_events (readIn popped.1 st.store) cx
      (st.left id popped.1 popped.2)
    refine ⟨(some .closure, st'), ?_, fun arena => ?_⟩
    · unfold leaveCapturing
      rw [bind_run (leaveFunction_run hpop cx id)]
      exact (bind_run (m := getStore) rfl).trans (bind_run hrun)
    · rw [State.verdicts, hevents]
      rfl

/-- Whatever is bound around it and whatever its body does, the reads in an arrow function that is not
static are reported exactly as where its body is evaluated in place, as if the set of variables were
known there; so, where it is known, exactly as in place. -/
theorem reads_of_arrow (cx : Context) (n : Nat) (id : NodeId) (fn : ArrowExpr) (st : State)
    (hst : st.Placed) (hstatic : fn.isStatic = false) :
    SameReads cx.arena ((evaluator n).inferArrow id fn cx st) ((evaluator n).inKnown id fn cx st) ∧
    (st.stack.current.flags.isDynamic = false →
      SameReads cx.arena ((evaluator n).inferArrow id fn cx st)
        ((evaluator n).inPlace id fn cx st)) := by
  have hknown : SameReads cx.arena ((evaluator n).inferArrow id fn cx st)
      ((evaluator n).inKnown id fn cx st) := by
    rw [inferArrow_eq_inArrow hstatic]
    have hself : (Comparison.unmarked cx).States (.upTo st.store.size) st st :=
      hst.like_self _ (fun _ => rfl) rfl trivial (forall₂_same.2 fun e _ => .refl e)
    have hbody := Comparison.inArrow_like n id fn (le_refl _) hself
    rw [← Option.bind_fun_some ((evaluator n).inKnown id fn cx st)]
    refine rel_bind hbody ?_
    rintro ⟨⟨⟩, st₁⟩ ⟨⟨⟩, st₁'⟩ ⟨ρ, -, hst₁, -⟩
    obtain ⟨r, hr, hverdicts⟩ := leaveCapturing_verdicts id capturedRead cx st₁
    dsimp only
    rw [hr]
    exact .some ((hverdicts _).trans (filterMap_verdict?_eq hst₁.events))
  refine ⟨hknown, fun hdynamic => ?_⟩
  rwa [inKnown_eq_inPlace hdynamic] at hknown

/-- `fn() => $x`, where the read is node 3. -/
def arrowReading : ArrowExpr :=
  { params := [], body := 3 }

/-- `include 'v'; fn() => $x;`, where the first statement is node 2 and the function is node 4. -/
def includeBeforeArrow : Arena := Build.result do
  let file ← Build.expr (.string "v")
  let included ← Build.expr (.includeFile file)
  let _ ← Build.stmt (.exprStmt included none)
  let _ ← Build.expr (.var "x")
  let _ ← Build.expr (.arrow arrowReading)
  return (← get).arena

theorem reads_of_arrow_arrowReading :
    ∃ r r', (evaluator 5).inferArrow 4 arrowReading ⟨includeBeforeArrow, {}, {}⟩ (.initial {}) = some r ∧
      (evaluator 5).inPlace 4 arrowReading ⟨includeBeforeArrow, {}, {}⟩ (.initial {}) = some r' ∧
      r.2.verdicts includeBeforeArrow = [(3, some "x")] ∧
      r'.2.verdicts includeBeforeArrow = [(3, some "x")] := by
  have hrun : (((evaluator 5).inferArrow 4 arrowReading ⟨includeBeforeArrow, {}, {}⟩
      (.initial {})).map fun r => r.2.verdicts includeBeforeArrow) = some [(3, some "x")] := by
    decide +kernel
  obtain ⟨r, hr, hreads⟩ := Option.map_eq_some_iff.1 hrun
  have hsame := (reads_of_arrow ⟨includeBeforeArrow, {}, {}⟩ 5 4 arrowReading (.initial {})
    (State.wf_initial Ty.closed_true {}) rfl).2 (by decide)
  rcases rel_cases hsame with ⟨hl, -⟩ | ⟨r₁, r', hl, hr', hverdicts⟩
  · rw [hr] at hl
    cases hl
  · rw [hr, Option.some.injEq] at hl
    subst hl
    exact ⟨r, r', hr, hr', hreads, hverdicts.symm.trans hreads⟩

/-- Behind the `include` the read is reported in the arrow function, and in place it is not. -/
theorem arrow_read_behind_include :
    (((evaluator 5).checkAll [2] ⟨includeBeforeArrow, {}, {}⟩ (.initial {})).map fun r =>
      (((evaluator 5).inferArrow 4 arrowReading ⟨includeBeforeArrow, {}, {}⟩ r.2).bind fun a =>
          (a.2.verdicts includeBeforeArrow).head?,
        ((evaluator 5).inPlace 4 arrowReading ⟨includeBeforeArrow, {}, {}⟩ r.2).bind fun a =>
          (a.2.verdicts includeBeforeArrow).head?)) =
      some (some (3, some "x"), some (3, none)) := by
  decide +kernel

end FlowTyping
