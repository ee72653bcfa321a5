import FlowTyping.Proofs.Analysis.Boundaries
import FlowTyping.Proofs.Compare.Steps

/-!
# Tests, joins and functions in two analyses

What rules do besides evaluating the parts of their nodes is alike on both sides of a comparison:
they attach what a test implies, join branches, and enter and leave functions.
-/

namespace FlowTyping

open Analysis List Option Outcome Scope Variable

variable {exact : Exactness} {ρ ρ' : Matching} {s t : Scope}

/-- Where marks are asked for, the names on the left are on the right, and the same where reads
are. -/
structure NamesLike (exact : Exactness) (names names' : List String) : Prop where
  subset : exact.marks → ∀ {name}, name ∈ names → name ∈ names'
  eq : exact.marks → exact.reads → names = names'

/-- The branches end alike. -/
structure Outcome.Like (exact : Exactness) (ρ : Matching) (o o' : Outcome) : Prop where
  scope : o.scope.Like exact ρ o'.scope
  flow : o.flow = o'.flow

lemma Outcome.Like.mono {o o' : Outcome} (h : o.Like exact ρ o') (hle : ρ ≤ ρ') :
    o.Like exact ρ' o' :=
  ⟨h.scope.mono hle, h.flow⟩

section Marks

variable {σ τ : Store} {names names' : List String}

lemma Scope.used_markAll {name : String} {k : Slot} (hname : name ∈ names)
    (hslot : t.slot? name = some k) (hk : k < τ.size) :
    ((names.foldl (fun τ name => t.markUsed τ name) τ).read k).used = true := by
  induction names generalizing τ with
  | nil => cases hname
  | cons other names ih =>
    rw [foldl_cons]
    rcases mem_cons.1 hname with rfl | hmem
    · have hmarked : ((t.markUsed τ name).read k).used = true := by
        rw [markUsed, updateVar, hslot]
        rw [Store.read_update_self hk]
      rcases t.read_foldl_markUsed names (t.markUsed τ name) k with h | ⟨-, -, -, h⟩
      · rw [h, hmarked]
      · rw [h]
    · refine ih hmem ?_
      rw [markUsed, updateVar]
      split
      · simpa using hk
      · exact hk

namespace Scope.Like

lemma markAllRight (hσ : σ.Like exact ρ τ) (hexact : exact.marks → ¬ exact.reads) (t : Scope)
    (names : List String) :
    σ.Like exact ρ (names.foldl (fun τ name => t.markUsed τ name) τ) := by
  induction names generalizing τ with
  | nil => exact hσ
  | cons name names ih =>
    refine ih ?_
    unfold Scope.markUsed Scope.updateVar
    dsimp only
    split
    · exact hσ.markRight hexact _
    · exact hσ

lemma markAllLeft (h : s.Like exact ρ t) (hσ : σ.Like exact ρ τ)
    (hused : exact.marks → ∀ name ∈ names, ∀ j, t.slot? name = some j → (τ.read j).used = true) :
    (names.foldl (fun σ name => s.markUsed σ name) σ).Like exact ρ τ := by
  induction names generalizing σ with
  | nil => exact hσ
  | cons name names ih =>
    simp only [forall_mem_cons] at hused
    refine ih ?_ fun hm => (hused hm).2
    unfold Scope.markUsed Scope.updateVar
    dsimp only
    rcases rel_cases (h.slot? name) with ⟨hl, -⟩ | ⟨i, j, hl, hr, hij⟩
    · rw [hl]
      exact hσ
    · rw [hl]
      exact hσ.markLeft hij fun hm => (hused hm).1 j hr

lemma markAll (h : s.Like exact ρ t) (hσ : σ.Like exact ρ τ)
    (hnames : NamesLike exact names names') :
    (names.foldl (fun σ name => s.markUsed σ name) σ).Like exact ρ
      (names'.foldl (fun τ name => t.markUsed τ name) τ) := by
  by_cases hexact : exact.marks ∧ exact.reads
  · rw [hnames.eq hexact.1 hexact.2]
    clear hnames
    induction names' generalizing σ τ with
    | nil => exact hσ
    | cons name names' ih => exact ih (h.markUsed hσ name)
  · rw [not_and] at hexact
    refine h.markAllLeft (markAllRight hσ hexact t names') fun hm name hname j hj => ?_
    obtain ⟨i, hij⟩ : ∃ i, ρ i j := by
      rcases rel_cases (h.slot? name) with ⟨-, hr⟩ | ⟨i, j', -, hr, hij⟩
      · rw [hj] at hr
        cases hr
      · rw [hj, some.injEq] at hr
        exact ⟨i, hr ▸ hij⟩
    exact used_markAll (hnames.subset hm hname) hj (hσ.lt_right hij)

lemma readIn (h : s.Like exact ρ t) (hσ : σ.Like exact ρ τ) (fn : ClosureExpr) :
    NamesLike exact (fn.readIn s σ) (fn.readIn t τ) := by
  have hused : ∀ name, MarksLike exact ((s.var? σ name).any used)
      ((t.var? τ name).any used) := by
    intro name
    rcases rel_cases (h.var? hσ name) with ⟨hl, hr⟩ | ⟨v, w, hl, hr, hvw⟩
    · rw [hl, hr]
      exact .refl _
    · rw [hl, hr]
      exact hvw.used
  refine ⟨fun hm {name} hname => ?_,
    fun hm he => filter_congr fun name _ => (hused name hm).2 he⟩
  rw [ClosureExpr.readIn, mem_filter] at hname ⊢
  exact ⟨hname.1, (hused name hm).1 hname.2⟩

lemma capturedRead (h : s.Like exact ρ t) (hσ : σ.Like exact ρ τ) :
    NamesLike exact (s.capturedRead σ) (t.capturedRead τ) := by
  suffices hnames : exact.marks → (∀ {name}, name ∈ s.capturedRead σ → name ∈ t.capturedRead τ) ∧
      (exact.reads → s.capturedRead σ = t.capturedRead τ) from
    ⟨fun hm => (hnames hm).1, fun hm => (hnames hm).2⟩
  intro hm
  have hview := (h.view hσ).vars
  unfold Scope.capturedRead
  generalize (s.view σ).vars = vars at hview ⊢
  generalize (t.view τ).vars = vars' at hview ⊢
  induction hview with
  | nil => exact ⟨id, fun _ => rfl⟩
  | @cons e f es fs hef _ ih =>
    have hused := hef.2.used hm
    have hread : ((e.2.used && e.2.kind == .captured) = true →
          (f.2.used && f.2.kind == .captured) = true) ∧
        (exact.reads → (e.2.used && e.2.kind == .captured) = (f.2.used && f.2.kind == .captured)) := by
      rw [hef.2.kind hm]
      refine ⟨fun hboth => ?_, fun he => by rw [hused.2 he]⟩
      rw [Bool.and_eq_true] at hboth ⊢
      exact ⟨hused.1 hboth.1, hboth.2⟩
    rw [filter_cons, filter_cons]
    cases hl : (e.2.used && e.2.kind == .captured) with
    | true =>
      rw [hread.1 hl, if_pos rfl, if_pos rfl, map_cons, map_cons, hef.1]
      refine ⟨fun hname => ?_, fun he => by rw [ih.2 he]⟩
      exact (mem_cons.1 hname).elim (fun h => h ▸ mem_cons_self)
        fun h => .tail _ (ih.1 h)
    | false =>
      cases hr : (f.2.used && f.2.kind == .captured) with
      | false =>
        exact ih
      | true =>
        refine ⟨fun hname => .tail _ (ih.1 hname), fun he => ?_⟩
        have hsame := hread.2 he
        rw [hl, hr] at hsame
        cases hsame

end Scope.Like

end Marks

namespace Comparison

open Analysis

variable {C : Comparison}

/-! ## Tests -/

section Tests

variable {id : NodeId}

lemma narrowedScope (r : Reference) (type : Option Ty) (define : Bool) (line : Line) :
    C.Sim ρ (narrowedScope r type define line) (narrowedScope r type define line)
      fun ρ => Rel (Scope.Like C.exact ρ) := by
  refine Sim.ite (forkCurrent.bind fun ρ1 _ s t hst => ?_) (Sim.pure fun _ _ => .none)
  exact (onStore (hst.narrowIn r type define line)).bind fun _ _ _ _ h =>
    Sim.pure fun _ hle => .some (h.mono hle)

lemma attachNarrowing (hid : C.Tested id) (r : Reference) (result : Narrowing)
    (defines : Defines) :
    C.Self ρ (attachNarrowing id r result defines) := by
  refine Sim.ite Same.pure (Sim.lineOf ?_)
  refine (narrowedScope ..).bind fun ρ1 _ s t htrue => ?_
  refine (narrowedScope ..).bind fun ρ2 hle2 s' t' hfalse => ?_
  exact setAssertions hid ⟨rel_mono htrue fun h => h.mono hle2, hfalse⟩

lemma copyAssertions (hid : C.Tested id) {a a' : Assertions} (h : a.Like C.exact ρ a')
    {change : Assertions → Assertions}
    (hchange : ∀ {ρ a a'}, Assertions.Like C.exact ρ a a' →
      (change a).Like C.exact ρ (change a')) :
    C.Same ρ
      (Analysis.onStore a.fork >>= fun copy =>
        Analysis.modifyTable fun t => t.setAssertions id (change copy))
      (Analysis.onStore a'.fork >>= fun copy =>
        Analysis.modifyTable fun t => t.setAssertions id (change copy)) :=
  (onStore h.fork).bind fun _ _ _ _ hcopy => setAssertions hid (hchange hcopy)

lemma forwardAssertions (hid : C.Tested id) {source : NodeId} (hsource : C.nodes source) :
    C.Self ρ (forwardAssertions source id) := by
  refine getTable.bind fun ρ1 _ table table' htable => ?_
  rcases rel_cases (htable.assertions hsource) with ⟨hl, hr⟩ | ⟨a, a', hl, hr, ha⟩
  · rw [hl, hr]
    exact Same.pure
  · rw [hl, hr]
    exact copyAssertions hid ha fun h => h

lemma negate (hid : C.Tested id) {operand : NodeId} (hoperand : C.nodes operand)
    (type : Option Ty) :
    C.Self ρ (Evaluator.negate id operand type) := by
  refine getTable.bind fun ρ1 _ table table' htable => ?_
  rcases rel_cases (htable.assertions hoperand) with ⟨hl, hr⟩ | ⟨a, a', hl, hr, ha⟩
  · rw [hl, hr]
    refine Sim.read ?_
    rw [left_arena, right_arena]
    cases C.arena.reference? operand with
    | some r => exact attachNarrowing hid r _ _
    | none => exact Same.pure
  · rw [hl, hr]
    exact copyAssertions hid ha fun h => h.swapped

lemma shortScopes (b : Bool) {other other' t' f f' : Scope} (ho : other.Like C.exact ρ other')
    (ht : t.Like C.exact ρ t') (hf : f.Like C.exact ρ f') :
    C.Sim ρ (FlowTyping.shortScopes b other t f) (FlowTyping.shortScopes b other' t' f')
      fun ρ p p' => p.1.Like C.exact ρ p'.1 ∧ p.2.Like C.exact ρ p'.2 := by
  cases b with
  | true =>
    refine (forkScope ht).bind fun ρ1 hle _ _ ht => ?_
    refine (onStore ((ho.mono hle).merged (hf.mono hle))).bind fun ρ2 hle _ _ hf => ?_
    exact Sim.pure fun ρ3 hle' => ⟨ht.mono (le_trans hle hle'), hf.mono hle'⟩
  | false =>
    refine (onStore (ho.merged ht)).bind fun ρ1 hle _ _ ht => ?_
    refine (forkScope (hf.mono hle)).bind fun ρ2 hle _ _ hf => ?_
    exact Sim.pure fun ρ3 hle' => ⟨ht.mono (le_trans hle hle'), hf.mono hle'⟩

/-- What `&&` and `||` record: the scopes on either outcome, where an operand says something. -/
lemma shortCircuit (hid : C.Tested id) {narrows : Bool}
    {whenTrue whenTrue' whenFalse whenFalse' after after' : Scope}
    (htrue : whenTrue.Like C.exact ρ whenTrue') (hfalse : whenFalse.Like C.exact ρ whenFalse')
    (hafter : after.Like C.exact ρ after') :
    C.Same ρ (do
        Analysis.mergeIntoCurrent after
        if narrows then
          Analysis.modifyTable fun t => t.setAssertions id ⟨some whenTrue, some whenFalse⟩
        return some Ty.bool)
      (do
        Analysis.mergeIntoCurrent after'
        if narrows then
          Analysis.modifyTable fun t => t.setAssertions id ⟨some whenTrue', some whenFalse'⟩
        return some Ty.bool) := by
  refine (mergeIntoCurrent hafter).bind fun ρ1 hle1 _ => ?_
  refine Sim.ite ?_ Same.pure
  refine (setAssertions hid ⟨?_, ?_⟩).result
  · exact .some (htrue.mono hle1)
  · exact .some (hfalse.mono hle1)

end Tests

lemma recordInferred {id : NodeId} (hid : C.nodes id) (type : Option Ty) :
    C.Self ρ (recordInferred id type) := by
  have hvisit : ∀ ρ, C.Self ρ (Analysis.recordVisit id type >>= fun _ => pure type) := fun ρ =>
    (recordVisit hid type).result
  cases type with
  | some t =>
    exact (modifyTable fun _ _ _ _ htable => htable.setType hid t).bind fun ρ1 _ _ => hvisit ρ1
  | none => exact hvisit ρ

/-! ## Rules that keep to one scope -/

/-- The two analyses, which look at what is known of the nodes that are compared. -/
def contexts (C : Comparison) : Contexts where
  toContext := C.left
  among index options := index = C.leftIndex ∧ options = C.leftOptions ∨
    index = C.rightIndex ∧ options = C.rightOptions
  same := by
    rintro _ _ (⟨rfl, rfl⟩ | ⟨rfl, rfl⟩)
    exacts [.refl _, fun symbol => (C.index_same symbol).symm]
  narrowLooseNull_eq := by
    rintro _ _ (⟨rfl, rfl⟩ | ⟨rfl, rfl⟩)
    exacts [rfl, C.narrowLooseNull_eq.symm]
  seen := C.nodes

lemma States.agree {st st' : State} (h : C.States ρ st st') : C.contexts.Agree st st' where
  typeOf := h.stack.current.typeOf? h.store
  chain := h.stack.current.chain?
  contains := h.stack.current.contains
  types := C.types_get h.table.types
  tested := h.table.isSome
  expectsBool hid := by
    rcases rel_cases h.stack.parent? with ⟨hl, hr⟩ | ⟨p, q, hl, hr, hpq⟩
    · rw [hl, hr]
    · rw [hl, hr]
      exact C.around_expects hpq hid
  class? := h.stack.class?

lemma sequential (C : Comparison) :
    TypeJudgement.Sequential (fun _ => True) C.contexts fun _ _ m _ => ∀ ρ, C.Self ρ m where
  stable := Ty.closed_true.toStable
  declares := Context.declaresIn_true _
  mono h _ := h
  pure _ _ := Same.pure
  bind hm hf ρ := (hm ρ).bind fun ρ' _ a => hf a (Result.in_true _ a) ρ'
  reads _ _ m f _ hm hagree hf ρ ρ' hle st st' hst := by
    have hl : m C.left st = f st C.left st := hm _ _ (.inl ⟨rfl, rfl⟩) st
    have hr : m C.right st' = f st' C.right st' := hm _ _ (.inr ⟨rfl, rfl⟩) st'
    rw [hl, hr, ← hagree hst.agree]
    exact hf st st.shows_true ρ hle hst
  onScope {f} hf ρ := by
    cases hf with
    | assign name _ _ line => exact onScope fun _ _ _ _ hst => hst.assign name _ line
    | element name line =>
      refine onScope fun ρ1 _ s t hst => ?_
      simp only [hst.contains name]
      split
      · intro ρ2 hle σ τ hσ
        exact ⟨ρ2, le_refl _, (hst.mono hle).markWritten hσ name line, hst.mono hle⟩
      · exact hst.assign name _ line
    | chain key _ => exact onScopeOnly fun h => h.setChain key _
    | used name => exact onVars fun _ _ _ _ _ _ hst hσ => hst.markUsed hσ name
    | shared name => exact onVars fun _ _ _ _ _ _ hst hσ => hst.markByReference hσ name
    | dynamic => exact onScopeOnly fun h => h.markDynamic

/-! ## Joins -/

section Joins

variable {paths paths' breaks breaks' : List Scope} {dead dead' outcomes outcomes' : List Outcome}

lemma allLike_map_scope (h : Forall₂ (Outcome.Like C.exact ρ) outcomes outcomes') :
    AllLike C.exact ρ (outcomes.map scope) (outcomes'.map scope) := by
  induction h with
  | nil => exact .nil
  | cons ho _ ih => exact .cons ho.scope ih

lemma rejoin (hpaths : AllLike C.exact ρ paths paths')
    (hdead : Forall₂ (Outcome.Like C.exact ρ) dead dead') (fallback : Flow) :
    C.Same ρ (rejoin paths dead fallback) (rejoin paths' dead' fallback) := by
  refine (absorbAll (allLike_map_scope hdead)).bind fun ρ1 hle1 _ => ?_
  refine (onStore (AllLike.mono hpaths hle1).joinAll).bind fun ρ2 _ joined joined' h => ?_
  cases h with
  | some h => exact (replaceCurrent h).result
  | none =>
    have hjump : (dead.any fun o => o.flow == .jump) = dead'.any fun o => o.flow == .jump := by
      induction hdead with
      | nil => rfl
      | cons ho _ ih => rw [any_cons, any_cons, ho.flow, ih]
    rw [hjump]
    exact Same.pure

lemma rejoinAll (h : Forall₂ (Outcome.Like C.exact ρ) outcomes outcomes') :
    C.Same ρ (rejoinAll outcomes) (rejoinAll outcomes') := by
  have hlive : ∀ {o o' : Outcome}, o.Like C.exact ρ o' → o.isLive = o'.isLive := fun ho => by
    rw [isLive, isLive, ho.flow]
  have hsplit : Forall₂ (Outcome.Like C.exact ρ) (outcomes.filter isLive)
      (outcomes'.filter isLive) ∧
      Forall₂ (Outcome.Like C.exact ρ) (outcomes.filter fun o => !o.isLive)
        (outcomes'.filter fun o => !o.isLive) := by
    induction h with
    | nil => exact ⟨.nil, .nil⟩
    | @cons o o' _ _ ho _ ih =>
      simp only [filter_cons, hlive ho]
      cases o'.isLive with
      | true => exact ⟨.cons ho ih.1, ih.2⟩
      | false => exact ⟨ih.1, .cons ho ih.2⟩
  exact rejoin (allLike_map_scope hsplit.1) hsplit.2 .exit

lemma finishLoop {exit exit' : Scope} {body body' : Outcome}
    (hexit : exit.Like C.exact ρ exit') (hbody : body.Like C.exact ρ body')
    (hbreaks : AllLike C.exact ρ breaks breaks') :
    C.Same ρ (finishLoop exit body breaks) (finishLoop exit' body' breaks') := by
  have hend : Store.Sim C.exact ρ
      (fun σ => if body.isLive then exit.merge body.scope σ
        else (exit, exit.absorbUsage body.scope σ))
      (fun τ => if body'.isLive then exit'.merge body'.scope τ
        else (exit', exit'.absorbUsage body'.scope τ)) (Scope.Like C.exact) := by
    rw [show body.isLive = body'.isLive by rw [isLive, isLive, hbody.flow]]
    cases body'.isLive with
    | true => exact hexit.merge hbody.scope
    | false =>
      intro ρ1 hle σ τ hσ
      exact ⟨ρ1, le_refl _, (hexit.mono hle).absorbUsage (hbody.scope.mono hle) hσ, hexit.mono hle⟩
  refine (onStore (hend.bind fun ρ1 hle1 s t hst =>
    hst.mergeAll (AllLike.mono hbreaks hle1))).bind fun ρ2 _ s t hst => ?_
  exact replaceCurrent hst

end Joins

/-! ## Declarations -/

lemma catchType (types : List String) :
    C.Self ρ (catchType types) := by
  refine getStack.bind fun ρ1 _ k k' hk => ?_
  rw [hk.resolveClass?]
  split <;> exact Same.pure

lemma applyDoc (id expr : NodeId) (doc : Option String) :
    C.Self ρ (applyDoc id expr doc) := by
  cases doc with
  | none => exact Same.pure
  | some doc =>
    show C.Self ρ (applyVarDoc id expr doc)
    rw [applyVarDoc_eq]
    have hassigned : C.Self ρ (assignedVar expr) := by
      refine Sim.exprAt ?_
      split
      · exact .of_run (fun _ => rfl) (fun _ => rfl) fun _ _ _ _ _ => rfl
      · exact Same.pure
    refine hassigned.bind fun ρ1 _ assigned => ?_
    cases Docblock.declared? doc assigned with
    | none => exact Same.pure
    | some r =>
      refine (resolveInClass r.1).bind fun ρ2 _ t => Sim.lineOf ?_
      exact onScope fun _ _ _ _ hst => hst.overrideType r.2 t _

lemma flowAt (expr : NodeId) : C.Self ρ (flowAt expr) := by
  refine Sim.exprAt ?_
  split <;> exact Same.pure

lemma bindGlobals (line : Line) (names : List String) :
    C.Self ρ (bindGlobals line names) := by
  induction names generalizing ρ with
  | nil => exact Same.pure
  | cons name names ih =>
    refine getStack.bind fun ρ1 _ k k' hk => getStore.bind fun ρ2 hle2 σ τ hσ => ?_
    rw [(hk.root.mono hle2).typeOf? hσ name]
    exact (onScope fun _ _ _ _ hst => hst.declare name _ _ line).bind fun _ _ _ => ih

lemma declaredParamType (doc : Option String) (p : Param) :
    C.Self ρ (Analysis.declaredParamType doc p) := by
  unfold Analysis.declaredParamType
  dsimp only
  split
  · rw [map_eq_pure_bind]
    exact (resolveInClass _).result
  · exact Same.pure

lemma addParams (doc : Option String) (line : Line) (ps : List Param)
    (h : s.Like C.exact ρ t) :
    C.Sim ρ (addParams doc line ps s) (addParams doc line ps t)
      (Scope.Like C.exact) := by
  induction ps generalizing ρ s t with
  | nil => exact Sim.pure fun _ hle => h.mono hle
  | cons p ps ih =>
    refine Sim.read ((declaredParamType doc p).bind fun ρ1 hle1 type => ?_)
    refine Sim.bind (Q := Scope.Like C.exact) (onStore fun ρ2 hle2 σ τ hσ => ?_)
      fun ρ2 _ s t hst => ih hst
    obtain ⟨ρ3, hle3, hσ3, hst⟩ := (h.mono hle1).declare p.name _ .param line hle2 hσ
    refine ⟨ρ3, hle3, ?_, hst⟩
    cases p.byRef with
    | true => exact hst.markByReference hσ3 p.name
    | false => exact hσ3

lemma declareThis (this : Option (Option Ty × Line)) (h : s.Like C.exact ρ t) :
    C.Sim ρ (declareThis this s) (declareThis this t) (Scope.Like C.exact) := by
  cases this with
  | some r => exact onStore (h.declare "this" r.1 .this r.2)
  | none => exact Sim.pure fun _ hle => h.mono hle

lemma isStrict :
    C.Sim ρ isStrict isStrict fun _ b b' => C.exact.reads → b = b' := by
  refine getStack.bind fun ρ1 _ k k' hk => Sim.pure fun _ _ he => ?_
  rw [Stack.isStrict, Stack.isStrict, hk.current.flags.isStrict he, hk.root.flags.isStrict he]

lemma capture (line : Line) (uses : List ClosureUse) (h : s.Like C.exact ρ t) :
    C.Sim ρ (capture line uses s) (capture line uses t) (Scope.Like C.exact) := by
  induction uses generalizing ρ s t with
  | nil => exact Sim.pure fun _ hle => h.mono hle
  | cons use uses ih =>
    unfold capture
    split
    · refine getScope.bind fun ρ1 hle1 enclosing enclosing' henclosing => ?_
      refine (onStore (henclosing.ensure use.name line)).bind fun ρ2 hle2 r r' hr => ?_
      refine (modifyStack fun _ hle _ _ hk => hk.setCurrent (hr.2.mono hle)).bind
        fun ρ3 hle3 _ => ?_
      have hle : ρ ≤ ρ3 := le_trans hle1 (le_trans hle2 hle3)
      exact (onStore ((h.mono hle).share use.name (hle3 _ _ hr.1))).bind fun _ _ _ _ hst => ih hst
    · refine getScope.bind fun ρ1 hle1 enclosing enclosing' henclosing => ?_
      refine getStore.bind fun ρ2 hle2 σ τ hσ => ?_
      rw [(henclosing.mono hle2).typeOf? hσ use.name]
      exact (onStore ((h.mono (le_trans hle1 hle2)).declare use.name _ .captured line)).bind
        fun _ _ _ _ hst => ih hst

lemma leaveFunction {function : NodeId} (hid : C.nodes function) :
    C.Sim ρ (leaveFunction function) (leaveFunction function)
      fun ρ => Rel (Scope.Like C.exact ρ) := by
  intro ρ' hle st st' hst
  rcases rel_cases hst.stack.pop? with ⟨hl, hr⟩ | ⟨⟨s, k⟩, ⟨t, k'⟩, hl, hr, hst', hk⟩
  · rw [leaveFunction_of_none hl, leaveFunction_of_none hr]
    exact .some ⟨ρ', le_refl _, hst, .none⟩
  · rw [leaveFunction_run hl, leaveFunction_run hr]
    refine .some ⟨ρ', le_refl _, ?_, .some hst'⟩
    have hevents := C.events_cons (e := .left function _) hst.events hid
      (.left function (hst'.view hst.store))
    exact ⟨hst.store, hk, ⟨hst.table.types, hst.table.assertions, hst.table.kept⟩, hst.breaks,
      hst.depth, hevents⟩

lemma propagateUsage {names names' : List String} (h : NamesLike C.exact names names') :
    C.Same ρ (propagateUsage names) (propagateUsage names') := by
  refine Sim.read ?_
  have hoption : MarksLike C.exact C.left.options.propagateClosureUsage
      C.right.options.propagateClosureUsage := C.propagate
  cases hl : C.left.options.propagateClosureUsage <;>
    cases hr : C.right.options.propagateClosureUsage <;> rw [hl, hr] at hoption
  · exact Same.pure
  · intro ρ' hle st st' hst
    refine .some ⟨ρ', le_refl _, (hst.withStore (le_refl ρ') ?_).withStack ?_, rfl⟩
    · exact Scope.Like.markAllRight hst.store (fun hm he => nomatch (hoption hm).2 he) _ names'
    · rw [Stack.setCurrent_current]
      exact hst.stack
  · intro ρ' hle st st' hst
    refine .some ⟨ρ', le_refl _, (hst.withStore (le_refl ρ') ?_).withStack ?_, rfl⟩
    · exact hst.stack.current.markAllLeft hst.store fun hm => nomatch (hoption hm).1 rfl
    · rw [Stack.setCurrent_current]
      exact hst.stack
  · exact onVars fun _ _ _ _ _ _ hst hσ => hst.markAll hσ h

lemma leaveCapturing {id : NodeId} (hid : C.nodes id) {readIn : Scope → Store → List String}
    (hread : ∀ {ρ s t σ τ}, Scope.Like C.exact ρ s t → Store.Like C.exact ρ σ τ →
      NamesLike C.exact (readIn s σ) (readIn t τ)) :
    C.Self ρ (leaveCapturing id readIn) := by
  refine (leaveFunction hid).bind fun ρ1 _ o o' h => ?_
  cases h with
  | none => exact Same.pure
  | some h =>
    refine getStore.bind fun ρ2 hle2 σ τ hσ => ?_
    exact (propagateUsage (hread (h.mono hle2) hσ)).result

end Comparison

end FlowTyping
