import FlowTyping.Proofs.Compare.Actions

/-!
# Two analyses rule by rule

The rule of every kind of node is like itself where the evaluation of its parts is, so all levels of
evaluation are (`Comparison.evaluator`).  The nodes that are compared are closed under parts, so that
a rule never leaves them.
-/

namespace FlowTyping

open Evaluator Expr List Option Scope

/-- What is evaluated at the nodes that are compared is alike. -/
structure Comparison.Evaluates (C : Comparison) (ev : Evaluator) : Prop where
  infer : ∀ {ρ id}, C.nodes id → C.Self ρ (ev.infer id)
  check : ∀ {ρ id}, C.nodes id → C.Self ρ (ev.check id)
  assign : ∀ {ρ id} type line, C.nodes id →
    C.Self ρ (ev.assign id type line)
  writeInto : ∀ {ρ id} line, C.nodes id → C.Self ρ (ev.writeInto id line)
  compact : ∀ {ρ id}, C.nodes id → C.Self ρ (ev.compact id)

namespace Comparison.Evaluates

open Analysis

variable {C : Comparison} {ρ ρ' : Matching} {ev : Evaluator} {id condition subject value : NodeId}
  (hev : C.Evaluates ev) {body ids members : List NodeId} {s t entry entry' : Scope}
  {o o' : MatchOutcome} {arms : List MatchArm} {key : Option NodeId}
  {falling falling' : Option Scope} {cases : List SwitchCase} {catches : List CatchClause}

include hev

/-! ## Sequences -/

lemma stepwise :
    Stepwise (fun _ => True) C.contexts C.nodes C.nodes C.nodes ev fun _ _ m _ => ∀ ρ, C.Self ρ m where
  toSequential := C.sequential
  seen := id
  infer h _ := hev.infer h
  read_of_passed := id
  bindByRef h line :=
    C.sequential.bindByRef line (fun _ _ => hev.assign _ line h) fun _ => hev.infer h
  assign h _ _ _ line _ := hev.assign _ line h
  writeInto h line _ := hev.writeInto line h
  compact h _ := hev.compact h
  recordWriteAt _ h _ _ line :=
    C.sequential.recordWrite h (fun _ _ => trivial) line fun _ _ _ _ _ => Sim.exhausted

lemma visit (h : C.nodes id) : C.Self ρ (ev.visit id) :=
  hev.stepwise.visit h ρ

lemma visit? {o : Option NodeId} (h : ∀ c ∈ o.toList, C.nodes c) :
    C.Self ρ (ev.visit? o) :=
  hev.stepwise.visit? h ρ

lemma visitAll (h : ∀ c ∈ ids, C.nodes c) :
    C.Self ρ (ev.visitAll ids) :=
  hev.stepwise.visitAll h ρ

lemma checkAll (h : ∀ c ∈ ids, C.nodes c) :
    C.Self ρ (ev.checkAll ids) := by
  induction ids generalizing ρ with
  | nil => exact Same.pure
  | cons id ids ih =>
    rw [forall_mem_cons] at h
    exact (hev.check h.1).bind fun _ _ _ => (ih h.2).result

/-! ## Operators -/

lemma inferShort (hid : C.Tested id) (b : Bool) {left right : NodeId} (hl : C.nodes left)
    (hr : C.nodes right) : C.Self ρ (ev.inferShort b id left right) := by
  rw [inferShort_eq]
  refine (hev.visit hl).bind fun ρ1 _ _ => (branchScopes hl).bind fun ρ2 _ r r' h => ?_
  have hentry : (if b then r.1 else r.2).Like C.exact ρ2 (if b then r'.1 else r'.2) := by
    cases b
    exacts [h.2, h.1]
  have hother : (if b then r.2 else r.1).Like C.exact ρ2 (if b then r'.2 else r'.1) := by
    cases b
    exacts [h.1, h.2]
  refine ((hev.infer hr).inScope hentry).bind fun ρ3 hle3 a a' ha => ?_
  refine getTable.bind fun ρ4 hle4 table table' htable => ?_
  rw [htable.isSome hl, htable.isSome hr]
  have hafter := ha.2.mono hle4
  refine (shortScopes b (hother.mono (le_trans hle3 hle4)) (like_getD (htable.whenTrue? hr) hafter)
    (like_getD (htable.whenFalse? hr) hafter)).bind fun ρ5 hle5 p p' hp => ?_
  exact shortCircuit hid hp.1 hp.2 (hafter.mono hle5)

/-! ## Choices -/

lemma inferTernary {ifTrue : Option NodeId} {ifFalse : NodeId} (hc : C.nodes condition)
    (ht : ∀ c ∈ ifTrue.toList, C.nodes c) (hf : C.nodes ifFalse) :
    C.Self ρ (ev.inferTernary condition ifTrue ifFalse) := by
  refine (hev.infer hc).bind fun ρ1 _ type => (branchScopes hc).bind fun ρ2 _ r r' h => ?_
  cases ifTrue with
  | some ifTrue =>
    refine ((hev.infer (ht ifTrue (by simp))).inScope h.1).bind fun ρ3 hle3 a a' ha => ?_
    refine ((hev.infer hf).inScope (h.2.mono hle3)).bind fun ρ4 hle4 b b' hb => ?_
    refine (onStore ((ha.2.mono hle4).merged hb.2)).bind fun ρ5 _ s t hst => ?_
    refine (replaceCurrent hst).bind fun ρ6 _ _ => Sim.pure fun _ _ => ?_
    rw [ha.1, hb.1]
  | none =>
    refine ((hev.infer hf).inScope h.2).bind fun ρ3 _ a a' ha => ?_
    refine (mergeIntoCurrent ha.2).bind fun ρ4 _ _ => Sim.pure fun _ _ => ?_
    rw [ha.1]

omit hev in
lemma armStart {conditions : List NodeId} (h : ∀ c ∈ conditions, C.nodes c) :
    C.Sim ρ (Evaluator.armStart conditions) (Evaluator.armStart conditions)
      (Like C.exact) := by
  unfold Evaluator.armStart
  split
  · exact (branchScopes (h _ mem_cons_self)).bind fun _ _ _ _ hr =>
      Sim.pure fun _ hle => hr.1.mono hle
  · exact forkCurrent

/-- The arms of a match came to the same. -/
structure OutcomesLike (C : Comparison) (ρ : Matching) (o o' : MatchOutcome) : Prop where
  types : o.types = o'.types
  rejoining : AllLike C.exact ρ o.rejoining o'.rejoining
  terminated : AllLike C.exact ρ o.terminated o'.terminated

omit hev in
lemma OutcomesLike.add (h : OutcomesLike C ρ o o') (body : Option Expr) (type : Option Ty)
    (hst : s.Like C.exact ρ t) :
    OutcomesLike C ρ (o.add body type s) (o'.add body type t) := by
  unfold MatchOutcome.add
  split
  · exact ⟨h.types, h.rejoining, rel_append h.terminated (.cons hst .nil)⟩
  · exact ⟨by rw [h.types], rel_append h.rejoining (.cons hst .nil), h.terminated⟩

lemma matchArms (ho : OutcomesLike C ρ o o')
    (h : ∀ c ∈ arms.flatMap MatchArm.children, C.nodes c) :
    C.Sim ρ (ev.matchArms arms o) (ev.matchArms arms o') (OutcomesLike C) := by
  induction arms generalizing ρ o o' with
  | nil =>
    exact Sim.pure fun _ hle => ⟨ho.types, AllLike.mono ho.rejoining hle,
      AllLike.mono ho.terminated hle⟩
  | cons arm arms ih =>
    simp only [flatMap_cons, MatchArm.children, forall_mem_append,
      forall_mem_singleton] at h
    rw [matchArms_cons, matchArms_cons]
    refine (hev.visitAll h.1.1).bind fun ρ1 hle1 _ => ?_
    refine (armStart h.1.1).bind fun ρ2 hle2 s t hst => ?_
    refine ((hev.infer h.1.2).inScope hst).bind fun ρ3 hle3 r r' hr => Sim.exprAt ?_
    have hle : ρ ≤ ρ3 := le_trans hle1 (le_trans hle2 hle3)
    rw [hr.1]
    refine ih (OutcomesLike.add ⟨ho.types, ?_, ?_⟩ _ _ hr.2) h.2
    · exact AllLike.mono ho.rejoining hle
    · exact AllLike.mono ho.terminated hle

lemma inferMatch (hs : C.nodes subject) (ha : ∀ c ∈ arms.flatMap MatchArm.children, C.nodes c) :
    C.Self ρ (ev.inferMatch subject arms) := by
  refine (hev.visit hs).bind fun ρ1 _ _ => ?_
  refine (hev.matchArms ⟨rfl, .nil, .nil⟩ ha).bind fun ρ2 _ o o' ho => ?_
  have hrest : ∀ ρ', ρ2 ≤ ρ' → C.Same ρ' (do
        Analysis.absorbAll o.terminated
        return unionOfKnown o.types)
      (do
        Analysis.absorbAll o'.terminated
        return unionOfKnown o'.types) := fun ρ' hle => by
    rw [ho.types]
    exact (absorbAll (AllLike.mono ho.terminated hle)).result
  refine (onStore ho.rejoining.joinAll).bind fun ρ3 hle3 joined joined' h => ?_
  cases h with
  | some h => exact (replaceCurrent h).bind fun ρ4 hle4 _ => hrest ρ4 (le_trans hle3 hle4)
  | none => exact hrest ρ3 hle3

/-! ## Anonymous functions -/

lemma inferClosure (hid : C.nodes id) {fn : ClosureExpr} (h : ∀ c ∈ fn.body, C.nodes c) :
    C.Self ρ (ev.inferClosure id fn) := by
  rw [inferClosure_eq]
  refine Sim.lineOf (Sim.read (isStrict.bind fun ρ1 _ strict strict' hstrict => ?_))
  rw [show C.left.options.superglobals = C.right.options.superglobals from C.superglobals_eq]
  have hempty : Like C.exact ρ1
      { flags := { isClosure := true, isStatic := fn.isStatic, isStrict := strict }
        function := some id }
      { flags := { isClosure := true, isStatic := fn.isStatic, isStrict := strict' }
        function := some id } :=
    ⟨.nil, rfl, .strict { isClosure := true, isStatic := fn.isStatic } hstrict, fun _ => rfl⟩
  refine (onStore (hempty.addSuperglobals _)).bind fun ρ2 _ s t hst => ?_
  refine getScope.bind fun ρ3 hle3 enclosing enclosing' henclosing => ?_
  refine getStore.bind fun ρ4 hle4 σ τ hσ => ?_
  have hthis : (if fn.isStatic then none else enclosing.var? σ "this").map
      (fun v => (v.type, v.line)) =
      (if fn.isStatic then none else enclosing'.var? τ "this").map fun v => (v.type, v.line) := by
    split
    · rfl
    · rcases rel_cases ((henclosing.mono hle4).var? hσ "this") with ⟨hl, hr⟩ | ⟨v, w, hl, hr, hvw⟩
      · rw [hl, hr]
      · rw [hl, hr, map_some, map_some, hvw.type, hvw.line]
  dsimp only
  rw [hthis]
  refine (declareThis _ (hst.mono (le_trans hle3 hle4))).bind fun ρ5 _ s t hst => ?_
  refine (addParams none _ fn.params hst).bind fun ρ6 _ s t hst => ?_
  refine (capture _ fn.uses hst).bind fun ρ7 _ s t hst => ?_
  refine (modifyStack fun _ hle _ _ hk => hk.push (hst.mono hle)).bind fun ρ8 _ _ => ?_
  exact (hev.checkAll h).bind fun _ _ _ => leaveCapturing hid fun hst hσ => hst.readIn hσ fn

omit hev in
lemma captureCopies {es fs : List (String × Slot)} (h : VarsLike ρ es fs) {σ τ : Store}
    (hσ : σ.Like C.exact ρ τ) :
    Store.Like C.exact ρ (es.foldl (fun σ e => σ.update e.2 capturedCopy) σ)
      (fs.foldl (fun τ f => τ.update f.2 capturedCopy) τ) := by
  induction h generalizing σ τ with
  | nil => exact hσ
  | cons hef _ ih => exact ih (hσ.update hef.2 fun hv => hv.capturedCopy)

lemma inferArrow (hid : C.nodes id) {fn : ArrowExpr} (h : C.nodes fn.body) :
    C.Self ρ (ev.inferArrow id fn) := by
  refine Sim.lineOf (isStrict.bind fun ρ1 _ strict strict' hstrict => ?_)
  refine forkCurrent.bind fun ρ2 _ s t hst => ?_
  have hflagged : Like C.exact ρ2
      { s with
        flags := { isArrow := true, isStatic := fn.isStatic, isStrict := strict }
        function := some id }
      { t with
        flags := { isArrow := true, isStatic := fn.isStatic, isStrict := strict' }
        function := some id } :=
    ⟨hst.vars, hst.chains, .strict { isArrow := true, isStatic := fn.isStatic } hstrict, fun _ => rfl⟩
  have hstart : ∀ {s t : Scope}, s.Like C.exact ρ2 t →
      (if fn.isStatic then s.remove "this" else s).Like C.exact ρ2
        (if fn.isStatic then t.remove "this" else t) := fun hst => by
    split
    · exact hst.remove "this"
    · exact hst
  replace hstart := hstart hflagged
  refine Same.bind (onStore fun ρ3 hle3 σ τ hσ => ?_) fun ρ3 hle3 _ => ?_
  · exact ⟨ρ3, le_refl _, captureCopies (hstart.mono hle3).vars hσ, rfl⟩
  refine (addParams none _ fn.params (hstart.mono hle3)).bind fun ρ4 _ s t hst => ?_
  refine (modifyStack fun _ hle _ _ hk => hk.push (hst.mono hle)).bind fun ρ5 _ _ => ?_
  exact (hev.visit h).bind fun _ _ _ => leaveCapturing hid fun hst hσ => hst.capturedRead hσ

lemma inferExpr (hid : C.Tested id) {e : Expr} (h : ∀ c ∈ e.children, C.nodes c) :
    C.Self ρ (ev.inferExpr id e) := by
  by_cases hkeeps : e.keepsScope = true
  · have hattach (ref : Reference) (result : Narrowing) (defines : Defines) (ρ : Matching) :=
      attachNarrowing (ρ := ρ) hid ref result defines
    refine hev.stepwise.inferExpr (C.sequential.concludes hid.1 fun ref result _ _ => hattach ref result)
      (Ty.closed_true.nodeDeclaresIn _) hkeeps h (forall_args h) (forall_places h) (ρ := ρ)
  · cases e with
    | closure fn => exact hev.inferClosure hid.1 h
    | arrow fn => exact hev.inferArrow hid.1 (forall_mem_singleton.1 h)
    | ternary condition ifTrue ifFalse =>
      simp only [children, forall_mem_append, forall_mem_cons] at h
      exact hev.inferTernary h.1.1 h.1.2 h.2.1
    | matchExpr subject arms =>
      have h := forall_mem_cons.1 h
      exact hev.inferMatch h.1 h.2
    | binary op left right =>
      have hl : C.nodes left := h left (by simp [children])
      have hr : C.nodes right := h right (by simp [children])
      cases op with
      | boolAnd | logicalAnd => exact hev.inferShort hid true hl hr
      | boolOr | logicalOr => exact hev.inferShort hid false hl hr
      | _ => exact absurd rfl hkeeps
    | suppress expr =>
      have h := forall_mem_singleton.1 h
      exact (hev.infer h).bind fun _ _ _ => (forwardAssertions hid h).result
    | unary op operand =>
      have hoperand := forall_mem_singleton.1 h
      cases op with
      | not => exact (hev.infer hoperand).bind fun _ _ type => (negate hid hoperand type).result
      | _ => exact absurd rfl hkeeps
    | cast kind expr =>
      have hexpr := forall_mem_singleton.1 h
      cases kind with
      | bool => exact (hev.visit hexpr).bind fun _ _ _ => (forwardAssertions hid hexpr).result
      | _ => exact absurd rfl hkeeps
    | _ => exact absurd rfl hkeeps

lemma inferNode (hid : C.nodes id) : C.Self ρ (ev.inferNode id) := by
  have hinside : ∀ ρ, C.Self ρ (ev.inferInside id) := fun ρ => by
    refine Sim.exprAt ?_
    cases he : C.arena.expr? id with
    | some e =>
      have htested : C.Tested id := ⟨hid, by rw [he]; rfl⟩
      exact (hev.inferExpr htested (C.nodes_expr hid he)).bind fun _ _ type =>
        recordInferred hid type
    | none => exact recordInferred hid none
  rw [inferNode_eq]
  refine Sim.ite Same.pure (getState.bind fun ρ1 _ st st' hst => Sim.read ?_)
  rw [hst.depth, show C.left.options.maxDepth = C.right.options.maxDepth from C.maxDepth_eq]
  refine Sim.ite Same.pure ?_
  have henter : C.Self ρ1
      (modify fun st => { st with depth := st.depth + 1, stack := st.stack.pushNode id }) :=
    modifyState fun _ _ _ _ hst =>
      { hst with depth := by rw [hst.depth], stack := hst.stack.pushNode (C.around_self hid) }
  refine henter.bind fun ρ2 _ _ => (hinside ρ2).bind fun ρ3 _ type => ?_
  refine Same.bind (modifyState fun _ _ _ _ hst => ?_) fun _ _ _ => Same.pure
  exact { hst with depth := by rw [hst.depth], stack := hst.stack.popNode }

/-! ## Statements -/

lemma checkIn (hst : s.Like C.exact ρ t) {stmts : List NodeId} (h : ∀ c ∈ stmts, C.nodes c) :
    C.Sim ρ (ev.checkIn s stmts) (ev.checkIn t stmts) (Outcome.Like C.exact) :=
  ((hev.checkAll h).inScope hst).bind fun _ _ _ _ hr =>
    Sim.pure fun _ hle => ⟨hr.2.mono hle, hr.1⟩

lemma checkElseIfs {branches : List ElseIf} (hst : s.Like C.exact ρ t)
    (h : ∀ c ∈ branches.flatMap ElseIf.children, C.nodes c) :
    C.Sim ρ (ev.checkElseIfs branches s) (ev.checkElseIfs branches t)
      fun ρ r r' => Forall₂ (Outcome.Like C.exact ρ) r.1 r'.1 ∧ r.2.Like C.exact ρ r'.2 := by
  induction branches generalizing ρ s t with
  | nil => exact Sim.pure fun _ hle => ⟨.nil, hst.mono hle⟩
  | cons branch branches ih =>
    simp only [flatMap_cons, ElseIf.children, forall_mem_append,
      forall_mem_cons] at h
    have htest := (hev.visit (ρ := ρ) h.1.1).bind fun _ _ _ => branchScopes h.1.1
    refine (htest.inScope hst).bind fun ρ1 _ r r' hr => ?_
    refine (hev.checkIn hr.1.1 h.1.2).bind fun ρ2 hle2 o o' ho => ?_
    refine (ih (hr.1.2.mono hle2) h.2).bind fun ρ3 hle3 a a' ha => ?_
    exact Sim.pure fun _ hle => ⟨.cons (ho.mono (le_trans hle3 hle))
      (ha.1.imp fun _ _ ho => ho.mono hle), ha.2.mono hle⟩

lemma ifOutcomes {thenBranch : List NodeId} {elseIfs : List ElseIf}
    {elseBranch : Option (List NodeId)} (hc : C.nodes condition) (ht : ∀ c ∈ thenBranch, C.nodes c)
    (hi : ∀ c ∈ elseIfs.flatMap ElseIf.children, C.nodes c)
    (he : ∀ c ∈ elseBranch.getD [], C.nodes c) :
    C.Sim ρ (ev.ifOutcomes condition thenBranch elseIfs elseBranch)
      (ev.ifOutcomes condition thenBranch elseIfs elseBranch)
      fun ρ => Forall₂ (Outcome.Like C.exact ρ) := by
  refine (hev.visit hc).bind fun ρ1 _ _ => (branchScopes hc).bind fun ρ2 _ r r' hr => ?_
  refine (hev.checkIn hr.1 ht).bind fun ρ3 hle3 first first' hfirst => ?_
  refine (hev.checkElseIfs (hr.2.mono hle3) hi).bind fun ρ4 hle4 m m' hm => ?_
  have hall : ∀ ρ', ρ4 ≤ ρ' → ∀ last last', Outcome.Like C.exact ρ' last last' →
      Forall₂ (Outcome.Like C.exact ρ') (first :: m.1 ++ [last])
        (first' :: m'.1 ++ [last']) := fun ρ' hle last last' hlast =>
    .cons (hfirst.mono (le_trans hle4 hle))
      (rel_append (hm.1.imp fun _ _ ho => ho.mono hle) (.cons hlast .nil))
  cases elseBranch with
  | some body =>
    exact (hev.checkIn hm.2 he).bind fun ρ5 hle5 last last' hlast =>
      Sim.pure fun ρ6 hle6 => hall ρ6 (le_trans hle5 hle6) _ _ (hlast.mono hle6)
  | none => exact Sim.pure fun ρ5 hle5 => hall ρ5 hle5 _ _ ⟨hm.2.mono hle5, rfl⟩

lemma checkWhile (hc : C.nodes condition) (hb : ∀ c ∈ body, C.nodes c) :
    C.Self ρ (ev.checkWhile condition body) := by
  refine (hev.visit hc).bind fun ρ1 _ _ => (branchScopes hc).bind fun ρ2 _ r r' hr => ?_
  refine enterLoop.bind fun ρ3 hle3 _ => ?_
  refine (hev.checkIn (hr.1.mono hle3) hb).bind fun ρ4 hle4 o o' ho => ?_
  refine leaveLoop.bind fun ρ5 hle5 breaks breaks' hbreaks => ?_
  have hexit := hr.2.mono (le_trans hle3 (le_trans hle4 hle5))
  exact (finishLoop hexit (ho.mono hle5) hbreaks).result

lemma checkDoWhile (hb : ∀ c ∈ body, C.nodes c) (hc : C.nodes condition) :
    C.Self ρ (ev.checkDoWhile body condition) := by
  rw [checkDoWhile_eq]
  have hbody : ∀ ρ, C.Self ρ (ev.doWhileBody body condition) :=
    fun ρ => (hev.checkAll hb).bind fun _ _ _ => (hev.visit hc).result
  refine enterLoop.bind fun ρ1 _ _ => (hbody ρ1).bind fun ρ2 _ flow => ?_
  refine leaveLoop.bind fun ρ3 _ breaks breaks' hbreaks => ?_
  have hempty : breaks.isEmpty = breaks'.isEmpty := by
    cases hbreaks with
    | nil => rfl
    | cons _ _ => rfl
  unfold leaveDoWhile
  rw [hempty]
  refine Sim.ite Same.pure ((branchScopes hc).bind fun ρ4 hle4 r r' hr => ?_)
  refine (onStore (hr.2.mergeAll (AllLike.mono hbreaks hle4))).bind fun ρ5 _ s t hst => ?_
  exact (replaceCurrent hst).result

omit hev in
lemma forScopes {condition : List NodeId} (h : ∀ c ∈ condition, C.nodes c) :
    C.Sim ρ (Evaluator.forScopes condition) (Evaluator.forScopes condition)
      fun ρ r r' => r.1.Like C.exact ρ r'.1 ∧ r.2.Like C.exact ρ r'.2 := by
  unfold Evaluator.forScopes
  split
  · next last hlast => exact branchScopes (h last (mem_of_getLast? hlast))
  · exact forkCurrent.bind fun _ _ _ _ h1 => forkCurrent.bind fun _ hle2 _ _ h2 =>
      Sim.pure fun _ hle => ⟨h1.mono (le_trans hle2 hle), h2.mono hle⟩

lemma checkFor {init condition step : List NodeId} (hi : ∀ c ∈ init, C.nodes c)
    (hc : ∀ c ∈ condition, C.nodes c) (hs : ∀ c ∈ step, C.nodes c) (hb : ∀ c ∈ body, C.nodes c) :
    C.Self ρ (ev.checkFor init condition step body) := by
  rw [checkFor_eq]
  have hbody : ∀ ρ, C.Self ρ (ev.forBody step body) := fun ρ =>
    (hev.checkAll hb).bind fun _ _ _ => (hev.visitAll hs).result
  refine (hev.visitAll hi).bind fun ρ1 _ _ => (hev.visitAll hc).bind fun ρ2 _ _ => ?_
  refine (forScopes hc).bind fun ρ3 _ r r' hr => enterLoop.bind fun ρ4 hle4 _ => ?_
  refine ((hbody ρ4).inScope (hr.1.mono hle4)).bind fun ρ5 hle5 a a' ha => ?_
  refine leaveLoop.bind fun ρ6 hle6 breaks breaks' hbreaks => ?_
  have hexit := hr.2.mono (le_trans hle4 (le_trans hle5 hle6))
  exact (finishLoop hexit ⟨ha.2.mono hle6, ha.1⟩ hbreaks).result

omit hev in
lemma markIterated (subject : NodeId) (byRef : Bool) (line : Line) :
    C.Self ρ (markIterated subject byRef line) := by
  refine Sim.ite (Sim.varNameAt ?_) Same.pure
  cases C.arena.varName? subject with
  | some name => exact onVars fun _ _ _ _ _ _ hst hσ => hst.markWritten hσ name line
  | none => exact Same.pure

lemma bindIteration (byRef : Bool) (line : Line) (hk : ∀ c ∈ key.toList, C.nodes c)
    (hv : C.nodes value) :
    C.Self ρ (ev.bindIteration key value byRef line) := by
  have hvalue : ∀ ρ, C.Self ρ (do
        ev.assign value none line
        if byRef then Analysis.markReferenceAt value) := fun ρ =>
    (hev.assign _ _ hv).bind fun _ _ _ => Sim.ite (C.sequential.markReferenceAt _ _) Same.pure
  cases key with
  | some key => exact (hev.assign _ _ (hk key (by simp))).bind fun ρ' _ _ => hvalue ρ'
  | none => exact hvalue ρ

lemma foreachBody (h : ∀ c ∈ body, C.nodes c) :
    C.Sim ρ (ev.foreachBody body) (ev.foreachBody body)
      fun ρ r r' => r.1 = r'.1 ∧ AllLike C.exact ρ r.2 r'.2 :=
  enterLoop.bind fun _ _ _ => (hev.checkAll h).bind fun _ _ _ => leaveLoop.bind
    fun _ _ _ _ hbreaks => Sim.pure fun _ hle => ⟨rfl, AllLike.mono hbreaks hle⟩

lemma checkForeach (id : NodeId) (byRef : Bool) (hs : C.nodes subject)
    (hk : ∀ c ∈ key.toList, C.nodes c) (hv : C.nodes value) (hb : ∀ c ∈ body, C.nodes c) :
    C.Self ρ (ev.checkForeach id subject key value byRef body) := by
  rw [checkForeach_eq]
  refine Sim.lineOf ((hev.visit hs).bind fun ρ1 _ _ => ?_)
  refine (markIterated ..).bind fun ρ2 _ _ => ?_
  refine forkCurrent.bind fun ρ3 _ exit exit' hexit => ?_
  refine forkCurrent.bind fun ρ4 hle4 s t hst => ?_
  have hloop := (hev.bindIteration (ρ := ρ4) byRef (C.arena.line id) hk hv).bind
    fun _ _ _ => hev.foreachBody hb
  refine (hloop.inScope hst).bind fun ρ5 hle5 r r' hr => ?_
  have hexit := hexit.mono (le_trans hle4 hle5)
  exact (finishLoop hexit ⟨hr.2, hr.1.1⟩ hr.1.2).result

omit hev in
lemma caseStart (h : Rel (Like C.exact ρ) falling falling') :
    C.Sim ρ (caseStart falling) (caseStart falling') (Like C.exact) := by
  cases h with
  | none => exact forkCurrent
  | some h =>
    exact getScope.bind fun _ hle _ _ hcurrent => onStore ((h.mono hle).merge hcurrent)

lemma checkCases (hfalling : Rel (Like C.exact ρ) falling falling')
    (h : ∀ c ∈ cases.flatMap SwitchCase.children, C.nodes c) :
    C.Sim ρ (ev.checkCases cases falling) (ev.checkCases cases falling')
      fun ρ r r' => Rel (Like C.exact ρ) r.1 r'.1 ∧
        Forall₂ (Outcome.Like C.exact ρ) r.2 r'.2 := by
  induction cases generalizing ρ falling falling' with
  | nil => exact Sim.pure fun _ hle => ⟨rel_mono hfalling fun hst => hst.mono hle, .nil⟩
  | cons case cases ih =>
    simp only [flatMap_cons, SwitchCase.children, forall_mem_append] at h
    rw [checkCases_cons, checkCases_cons]
    refine (hev.visit? h.1.1).bind fun ρ1 hle1 _ => ?_
    refine (caseStart (rel_mono hfalling fun hst => hst.mono hle1)).bind fun ρ2 _ s t hst => ?_
    refine (hev.checkIn hst h.1.2).bind fun ρ3 _ o o' ho => ?_
    unfold casesBehind
    rw [show o.isLive = o'.isLive by rw [Outcome.isLive, Outcome.isLive, ho.flow]]
    refine Sim.ite (ih (.some ho.scope) h.2) ((ih .none h.2).bind fun ρ4 hle4 r r' hr => ?_)
    rw [ho.flow]
    refine Sim.pure fun ρ5 hle5 => ⟨rel_mono hr.1 fun hst => hst.mono hle5, ?_⟩
    have hdead := hr.2.imp fun _ _ ho => Outcome.Like.mono ho hle5
    split
    · exact .cons (ho.mono (le_trans hle4 hle5)) hdead
    · exact hdead

lemma checkSwitch (hs : C.nodes subject)
    (hc : ∀ c ∈ cases.flatMap SwitchCase.children, C.nodes c) :
    C.Self ρ (ev.checkSwitch subject cases) := by
  refine (hev.visit hs).bind fun ρ1 _ _ => enterLoop.bind fun ρ2 _ _ => ?_
  refine (hev.checkCases .none hc).bind fun ρ3 _ r r' hr => ?_
  refine leaveLoop.bind fun ρ4 hle4 breaks breaks' hbreaks => ?_
  have hfalling : AllLike C.exact ρ4 r.1.toList r'.1.toList := by
    rcases rel_cases hr.1 with ⟨hl, hr⟩ | ⟨s, t, hl, hr, hst⟩
    · rw [hl, hr]
      exact .nil
    · rw [hl, hr]
      exact .cons (hst.mono hle4) .nil
  have hpaths := rel_append hbreaks hfalling
  have hdead := hr.2.imp fun _ _ ho => Outcome.Like.mono ho hle4
  refine Sim.ite ?_ (forkCurrent.bind fun ρ5 hle5 s t hst => ?_)
  · exact rejoin (rel_append hpaths .nil) hdead .exit
  · refine rejoin ?_ (hdead.imp fun _ _ ho => Outcome.Like.mono ho hle5) .exit
    exact rel_append (AllLike.mono hpaths hle5) (.cons hst .nil)

omit hev in
lemma catchStart (h : entry.Like C.exact ρ entry') (line : Line) (clause : CatchClause) :
    C.Sim ρ (catchStart entry line clause) (catchStart entry' line clause)
      (Like C.exact) := by
  refine (forkScope h).bind fun ρ1 _ s t hst => ?_
  split
  · exact (catchType _).bind fun _ hle _ => onStore ((hst.mono hle).declare _ _ _ line)
  · exact Sim.pure fun _ hle => hst.mono hle

lemma checkCatches (hentry : entry.Like C.exact ρ entry') (line : Line)
    {clauses : List CatchClause} (h : ∀ c ∈ clauses.flatMap CatchClause.body, C.nodes c) :
    C.Sim ρ (ev.checkCatches entry line clauses) (ev.checkCatches entry' line clauses)
      fun ρ => Forall₂ (Outcome.Like C.exact ρ) := by
  induction clauses generalizing ρ with
  | nil => exact Sim.pure fun _ _ => .nil
  | cons clause clauses ih =>
    rw [flatMap_cons, forall_mem_append] at h
    rw [checkCatches_cons, checkCatches_cons]
    refine (catchStart hentry line clause).bind fun ρ1 hle1 s t hst => ?_
    refine (hev.checkIn hst h.1).bind fun ρ2 hle2 o o' ho => ?_
    refine (ih (hentry.mono (le_trans hle1 hle2)) h.2).bind fun ρ3 hle3 os os' hos => ?_
    exact Sim.pure fun _ hle => .cons (ho.mono (le_trans hle3 hle))
      (hos.imp fun _ _ ho => ho.mono hle)

lemma tryOutcomes (id : NodeId) (hb : ∀ c ∈ body, C.nodes c)
    (hc : ∀ c ∈ catches.flatMap CatchClause.body, C.nodes c) :
    C.Sim ρ (ev.tryOutcomes id body catches) (ev.tryOutcomes id body catches)
      fun ρ => Forall₂ (Outcome.Like C.exact ρ) := by
  refine Sim.lineOf (forkCurrent.bind fun ρ1 _ entry entry' hentry => ?_)
  refine (forkScope hentry).bind fun ρ2 hle2 s t hst => ?_
  refine (hev.checkIn hst hb).bind fun ρ3 hle3 first first' hfirst => ?_
  have hentry := hentry.mono (le_trans hle2 hle3)
  refine (onStore (hentry.merged hfirst.scope)).bind fun ρ4 hle4 s t hst => ?_
  refine (hev.checkCatches hst _ hc).bind fun ρ5 hle5 os os' hos => ?_
  exact Sim.pure fun _ hle => .cons (hfirst.mono (le_trans hle4 (le_trans hle5 hle)))
    (hos.imp fun _ _ ho => ho.mono hle)

lemma checkTry (id : NodeId) {finallyBody : Option (List NodeId)} (hb : ∀ c ∈ body, C.nodes c)
    (hc : ∀ c ∈ catches.flatMap CatchClause.body, C.nodes c)
    (hf : ∀ c ∈ finallyBody.getD [], C.nodes c) :
    C.Self ρ (ev.checkTry id body catches finallyBody) := by
  rw [checkTry_eq]
  refine (hev.tryOutcomes id hb hc).bind fun ρ1 _ os os' hos => ?_
  refine (rejoinAll hos).bind fun ρ2 _ flow => ?_
  cases finallyBody with
  | some stmts => exact (hev.checkAll hf).result
  | none => exact Same.pure

lemma unsetAll {targets : List NodeId} (h : ∀ c ∈ targets, C.nodes c) :
    C.Self ρ (ev.unsetAll targets) := by
  induction targets generalizing ρ with
  | nil => exact Same.pure
  | cons target targets ih =>
    rw [forall_mem_cons] at h
    refine Same.bind ?_ fun _ _ _ => ih h.2
    refine Sim.exprAt ?_
    split
    · exact onScopeOnly fun hst => hst.remove _
    · next he =>
      have hobject := (forall_mem_cons.1 (C.nodes_expr h.1 he)).1
      exact (hev.visit hobject).bind fun ρ' _ _ => C.sequential.assignChain target .none ρ'
    · exact hev.visit h.1

lemma bindStatics (line : Line) {vars : List StaticVar}
    (h : ∀ c ∈ vars.filterMap StaticVar.default, C.nodes c) :
    C.Self ρ (ev.bindStatics line vars) := by
  induction vars generalizing ρ with
  | nil => exact Same.pure
  | cons v vs ih =>
    have hdeclare : ∀ ρ (type : Option Ty),
        C.Self ρ (Analysis.onScope fun s σ => s.declare σ v.name type .static line) := fun ρ type =>
      onScope fun _ _ _ _ hst => hst.declare v.name type .static line
    unfold bindStatics
    split
    · next hdefault =>
      rw [filterMap_cons_some hdefault, forall_mem_cons] at h
      exact (hev.infer h.1).bind fun ρ1 _ type => (hdeclare ρ1 type).bind fun _ _ _ => ih h.2
    · next hdefault =>
      rw [filterMap_cons_none hdefault] at h
      exact Same.pure.bind fun ρ1 _ type => (hdeclare ρ1 type).bind fun _ _ _ => ih h

lemma checkMembers (h : ∀ c ∈ members, C.nodes c) :
    C.Self ρ (ev.checkMembers members) := by
  induction members generalizing ρ with
  | nil => exact Same.pure
  | cons member members ih =>
    rw [forall_mem_cons] at h
    exact (hev.check h.1).bind fun _ _ _ => ih h.2

lemma checkFunction (hid : C.nodes id) (params : List Param) (doc : Option String)
    (this : Option Ty) (isStatic : Bool) (h : ∀ c ∈ body, C.nodes c) :
    C.Self ρ (ev.checkFunction id params body doc this isStatic) := by
  rw [checkFunction_eq]
  refine Sim.lineOf (Sim.read (getStack.bind fun ρ1 _ k k' hk => ?_))
  rw [show C.left.options.superglobals = C.right.options.superglobals from C.superglobals_eq]
  have hempty : Like C.exact ρ1
      { flags := { isStatic, isStrict := k.isStrict }, function := some id }
      { flags := { isStatic, isStrict := k'.isStrict }, function := some id } :=
    ⟨.nil, rfl, .strict { isStatic } hk.root.flags.isStrict, fun _ => rfl⟩
  refine (onStore (hempty.addSuperglobals _)).bind fun ρ2 _ s t hst => ?_
  refine (declareThis _ hst).bind fun ρ3 _ s t hst => ?_
  refine (addParams doc _ params hst).bind fun ρ4 _ s t hst => ?_
  refine getState.bind fun ρ5 hle5 st st' hstates => ?_
  refine Same.bind (modifyState fun ρ' hle _ _ hst' => ?_) fun ρ6 hle6 _ => ?_
  · exact { hst' with breaks := .nil, stack := hst'.stack.push (hst.mono (le_trans hle5 hle)) }
  refine (hev.checkAll h).bind fun ρ7 hle7 _ => (leaveFunction hid).bind fun ρ8 hle8 _ _ _ => ?_
  refine modifyState fun ρ' hle _ _ hst' => { hst' with breaks := ?_ }
  have hle : ρ5 ≤ ρ' := le_trans hle6 (le_trans hle7 (le_trans hle8 hle))
  exact hstates.breaks.imp fun _ _ hframe => AllLike.mono hframe hle

lemma classDecl (c : ClassContext) (h : ∀ c ∈ members, C.nodes c) :
    C.Self ρ (do
        Analysis.modifyStack fun st => st.pushClass c
        ev.checkMembers members
        Analysis.modifyStack Stack.popClass
        return Flow.normal) :=
  (modifyStack fun _ _ _ _ hk => hk.pushClass c).bind fun _ _ _ =>
    (hev.checkMembers h).bind fun _ _ _ =>
    (modifyStack fun _ _ _ _ hk => hk.popClass).result

omit hev in
lemma thisType (isStatic : Bool) :
    C.Self ρ (thisType isStatic) := by
  refine Sim.ite Same.pure (getStack.bind fun _ _ k k' hk => ?_)
  rw [hk.class?]
  exact Same.pure

lemma checkStmt (hid : C.nodes id) {stmt : Stmt} (h : ∀ c ∈ stmt.allParts, C.nodes c) :
    C.Self ρ (ev.checkStmt id stmt) := by
  cases stmt with
  | sourceFile _ stmts => exact hev.checkAll h
  | block stmts => exact hev.checkAll h
  | exprStmt expr doc =>
    show C.Self ρ (ev.checkExprStmt id expr doc)
    rw [checkExprStmt_eq]
    exact (hev.visit (forall_mem_singleton.1 h)).bind fun _ _ _ =>
      (applyDoc id expr doc).bind fun _ _ _ => flowAt expr
  | echoStmt exprs => exact (hev.visitAll h).result
  | returnStmt expr => exact (hev.visit? h).result
  | ifStmt condition thenBranch elseIfs elseBranch =>
    show C.Self ρ (ev.checkIf condition thenBranch elseIfs elseBranch)
    rw [checkIf_eq]
    simp only [Stmt.allParts, Stmt.children, forall_mem_append, forall_mem_cons] at h
    exact (hev.ifOutcomes h.1.1.1 h.1.1.2 h.1.2 h.2).bind fun _ _ _ _ hos => rejoinAll hos
  | whileStmt condition body =>
    have h := forall_mem_cons.1 h
    exact hev.checkWhile h.1 h.2
  | doWhileStmt body condition =>
    have h := forall_mem_cons.1 h
    exact hev.checkDoWhile h.2 h.1
  | forStmt init condition step body =>
    simp only [Stmt.allParts, forall_mem_append] at h
    exact hev.checkFor h.1.1 h.1.2 h.2.1 h.2.2
  | foreachStmt subject key value byRef body =>
    simp only [Stmt.allParts, forall_mem_append, forall_mem_cons] at h
    exact hev.checkForeach id byRef h.1.1 h.1.2 h.2.1 h.2.2
  | switchStmt subject cases =>
    have h := forall_mem_cons.1 h
    exact hev.checkSwitch h.1 h.2
  | tryStmt body catches finallyBody =>
    simp only [Stmt.allParts, Stmt.children, forall_mem_append] at h
    exact hev.checkTry id h.1.1 h.1.2 h.2
  | breakStmt | continueStmt =>
    exact forkCurrent.bind fun _ _ _ _ hst => (recordBreak hst).result
  | globalStmt names => exact Sim.lineOf ((bindGlobals ..).result)
  | staticStmt vars => exact Sim.lineOf ((hev.bindStatics _ h).result)
  | unsetStmt vars => exact (hev.unsetAll h).result
  | declareStmt strictTypes =>
    refine Sim.ite ((onScopeOnly fun hst => ?_).result) Same.pure
    exact ⟨hst.vars, hst.chains, { hst.flags with isStrict := fun _ => rfl }, hst.function⟩
  | function fn => exact (hev.checkFunction hid _ _ _ _ h).result
  | classDecl cls => exact hev.classDecl _ h
  | method fn =>
    unfold Evaluator.checkStmt
    dsimp only
    split
    · next body hbody =>
      have h : ∀ c ∈ body, C.nodes c := by
        simpa only [Stmt.allParts, hbody, getD_some] using h
      exact (thisType _).bind fun _ _ this =>
        (hev.checkFunction hid _ _ this _ h).result
    · exact Same.pure
  | property _ | classConst | enumCase | traitUse _ => exact Same.pure

lemma checkNode (hid : C.nodes id) : C.Self ρ (ev.checkNode id) := by
  refine Sim.read ?_
  rw [left_arena, right_arena]
  cases hstmt : C.arena.stmt? id with
  | none => exact (hev.visit hid).result
  | some stmt =>
    refine (modifyStack fun _ _ _ _ hk => hk.pushNode (C.around_self hid)).bind fun ρ1 _ _ => ?_
    refine (hev.checkStmt hid (C.nodes_stmt hid hstmt)).bind fun ρ2 _ flow => ?_
    refine (recordVisit hid none).bind fun ρ3 _ _ => ?_
    exact (modifyStack fun _ _ _ _ hk => hk.popNode).result

/-! ## Levels of evaluation -/

lemma step : C.Evaluates ev.step where
  infer h := hev.inferNode h
  check h := hev.checkNode h
  assign _ line h := hev.stepwise.assignTo
    (fun he _ hm => hm (C.nodes_expr h he) (forall_looseParts (C.nodes_expr h he)))
    (fun _ => hev.infer h) (fun _ _ => trivial) line (fun _ _ _ => trivial) _
  writeInto line h := hev.stepwise.writeIntoBase
    (fun he _ hm => hm (C.nodes_expr h he) (forall_looseParts (C.nodes_expr h he)))
    (fun _ => hev.infer h) line _
  compact h := hev.stepwise.compactArg (fun _ he c hc =>
    C.nodes_expr h he c (mem_children_of_item hc)) _

end Comparison.Evaluates

lemma Comparison.evaluator (C : Comparison) (budget : Nat) :
    C.Evaluates (FlowTyping.evaluator budget) := by
  induction budget with
  | zero =>
    exact ⟨fun _ => Sim.exhausted, fun _ => Sim.exhausted, fun _ _ _ => Sim.exhausted,
      fun _ _ => Sim.exhausted, fun _ => Sim.exhausted⟩
  | succ n ih => exact ih.step

end FlowTyping
