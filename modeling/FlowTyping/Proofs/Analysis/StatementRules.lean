import FlowTyping.Proofs.Analysis.Traversal

/-!
# Rules of statements, and the rule of every node

Branches, loops and handlers run in scopes that the rule takes into hand; all of them are joined into
the current scope or dropped at the end of the statement.

**Nodes.**  `Traverser`: the judgement holds of what is evaluated at nodes of some kind.  It then holds
of the rule of every expression and every statement (`Traverser.inferExpr`, `Traverser.checkStmt`).
-/

namespace FlowTyping

open Analysis Evaluator List Option Outcome Scope Stmt Ty

variable {ids : List NodeId} {key : Option NodeId} {value id : NodeId} {P : Ty → Prop}
  {cx : Context} {G I : ScopeJudgement} {ev : Evaluator} {read : NodeId → Prop} {e : Expr}

lemma Analysis.varTag?_of_declared? {doc : String} {assigned : Option String} {r : Ty × String}
    (h : Docblock.declared? doc assigned = some r) :
    (Docblock.varTag? doc).map Prod.fst = some r.1 := by
  cases assigned with
  | some name =>
    obtain ⟨t, ht, rfl⟩ := map_eq_some_iff.1 h
    unfold Docblock.varTypeFor? at ht
    split at ht
    · next htag =>
      split at ht
      · cases ht
        rw [htag]
        rfl
      · cases ht
    · next htag =>
      cases ht
      rw [htag]
      rfl
    · cases ht
  | none =>
    obtain ⟨tag, htag, h⟩ := bind_eq_some_iff.1 h
    obtain ⟨_, _, rfl⟩ := map_eq_some_iff.1 h
    rw [htag]
    rfl

namespace ScopeJudgement.Holding

variable (hG : G.Holding P cx) (hI : I.Holding P cx) (henc : G.Encloses P I)
  {body thenBranch : List NodeId} {condition : NodeId} {cases : List SwitchCase}
  {doc : Option String} {elseIfs : List ElseIf} {elseBranch : Option (List NodeId)}
  {catches : List CatchClause}

include hG

/-! ## Branches -/

lemma checkAll (h : ∀ c ∈ ids, G.typed [c] (ev.check c) .any) :
    G.Runs ev ids := by
  induction ids with
  | nil => exact hG.pure trivial (.refl _)
  | cons id ids ih =>
    rw [forall_mem_cons] at h
    exact hG.bind h.1 fun _ _ => hG.result (ih h.2) fun _ _ => trivial

lemma checkIn {stmts : List NodeId} (h : G.Runs ev stmts) (s : Scope) :
    G stmts [s] (ev.checkIn s stmts) (fun o => [o.scope]) .any :=
  hG.andThen (hG.inScope h) fun (_, _) _ => hG.pure trivial (.refl _)

/-- Every branch leaves the scope at its end in hand, and the scope where all conditions failed comes
first. -/
lemma checkElseIfs {branches : List ElseIf} (remaining : Scope)
    (h : ∀ b ∈ branches, G.Infers ev b.condition ∧ G.Runs ev b.body) :
    G (branches.flatMap ElseIf.children) [remaining] (ev.checkElseIfs branches remaining)
      (fun r => r.2 :: r.1.map scope) .any := by
  induction branches generalizing remaining with
  | nil => exact hG.pure trivial (.refl _)
  | cons branch branches ih =>
    rw [forall_mem_cons] at h
    rw [flatMap_cons, ElseIf.children, cons_append]
    have htest := hG.andThen (hG.visit h.1.1) fun _ _ => hG.branchScopes branch.condition
    refine hG.bind (hG.subperm (hG.inScope htest) (.refl _) fun _ =>
      (sublist_cons_self ..).subperm) fun ((taken, skipped), _) _ => ?_
    refine hG.bind (hG.frame (hG.checkIn h.1.2 taken) [skipped]) fun outcome _ => ?_
    refine hG.andThen (hG.subperm (hG.frame (ih skipped h.2) [outcome.scope])
      (Perm.swap ..).subperm fun _ => .refl _) fun (outcomes, remaining) _ => ?_
    exact hG.pure trivial ((perm_append_singleton ..).symm.cons remaining).subperm

lemma ifOutcomes (hc : G.Infers ev condition) (ht : G.Runs ev thenBranch)
    (hi : ∀ b ∈ elseIfs, G.Infers ev b.condition ∧ G.Runs ev b.body)
    (he : G.Runs ev (elseBranch.getD [])) :
    G (condition :: thenBranch ++ elseIfs.flatMap ElseIf.children ++ elseBranch.getD []) []
      (ev.ifOutcomes condition thenBranch elseIfs elseBranch) (fun os => os.map scope)
      .any := by
  rw [cons_append, cons_append, append_assoc]
  refine hG.bind (hG.visit hc) fun _ _ => ?_
  refine hG.first (hG.branchScopes condition) fun (thenScope, remaining) _ => ?_
  refine hG.bind (hG.frame (hG.checkIn ht thenScope) [remaining]) fun first _ => ?_
  refine hG.bind (hG.subperm (hG.frame (hG.checkElseIfs remaining hi) [first.scope])
    (Perm.swap ..).subperm fun _ => .refl _) fun (middle, remaining) _ => ?_
  have hlast (last : Outcome) : G [] (last.scope :: (middle.map scope ++ [first.scope]))
      (Pure.pure (first :: middle ++ [last])) (fun os => os.map scope) .any := by
    refine hG.pure trivial ?_
    simp only [map_cons, map_append, map_nil, cons_append]
    refine Perm.subperm ((perm_append_singleton ..).symm.trans ?_)
    rw [append_assoc]
    exact perm_middle
  cases elseBranch with
  | none => exact hlast ⟨remaining, .normal⟩
  | some body => exact hG.andThen (hG.frame (hG.checkIn he remaining) _) fun last _ => hlast last

lemma checkIf (hc : G.Infers ev condition) (ht : G.Runs ev thenBranch)
    (hi : ∀ b ∈ elseIfs, G.Infers ev b.condition ∧ G.Runs ev b.body)
    (he : G.Runs ev (elseBranch.getD [])) :
    G.typed (condition :: thenBranch ++ elseIfs.flatMap ElseIf.children ++ elseBranch.getD [])
      (ev.checkIf condition thenBranch elseIfs elseBranch) .any := by
  rw [checkIf_eq]
  exact hG.andThen (hG.ifOutcomes hc ht hi he) fun outcomes _ => hG.rejoinAll outcomes

lemma catchType {types : List String} (htypes : ∀ name ∈ types, Name.MeansIn P name) :
    G.typed [] (catchType types) .type := by
  refine hG.seeing (fun _ => rfl) fun st hst => ?_
  have hclasses : ∀ cls ∈ types.filterMap st.stack.resolveClass?, P (.named cls) := fun cls hcls =>
    let ⟨name, hname, hresolved⟩ := mem_filterMap.1 hcls
    htypes name hname st.stack hst.classes cls hresolved
  split
  · exact hG.pure .none (.refl _)
  · refine hG.pure (.some (hG.stable.unionOf _ fun t ht => ?_)) (.refl _)
    obtain ⟨cls, hcls, rfl⟩ := mem_map.1 ht
    exact hG.stable.dropSeparator cls (hclasses cls hcls)

lemma catchStart (entry : Scope) (line : Line) {clause : CatchClause}
    (hclause : ∀ name ∈ clause.types, Name.MeansIn P name) :
    G [] [entry] (catchStart entry line clause) (fun s => [s, entry]) .any := by
  refine hG.first (hG.forkScope (.head _)) fun s _ => ?_
  split
  · exact hG.next (hG.catchType hclause) fun type htype => hG.declare _ htype .ordinary line
  · exact hG.pure trivial (.refl _)

lemma checkCatches (entry : Scope) (line : Line) {clauses : List CatchClause}
    (hclauses : ∀ name ∈ clauses.flatMap CatchClause.types, Name.MeansIn P name)
    (h : ∀ clause ∈ clauses, G.Runs ev clause.body) :
    G (clauses.flatMap CatchClause.body) [entry] (ev.checkCatches entry line clauses)
      (fun os => entry :: os.map scope) .any := by
  induction clauses with
  | nil => exact hG.pure trivial (.refl _)
  | cons clause clauses ih =>
    rw [flatMap_cons, forall_mem_append] at hclauses
    rw [forall_mem_cons] at h
    rw [checkCatches_cons]
    refine hG.first (hG.catchStart entry line hclauses.1) fun s _ => ?_
    refine hG.bind (hG.frame (hG.checkIn h.1 s) [entry]) fun outcome _ => ?_
    refine hG.andThen (hG.subperm (hG.frame (ih hclauses.2 h.2) [outcome.scope])
      (Perm.swap ..).subperm fun _ => .refl _) fun outcomes _ => hG.pure trivial ?_
    exact (Perm.cons _ (perm_append_singleton ..).symm).subperm

lemma tryOutcomes (id : NodeId)
    (hcatches : ∀ name ∈ catches.flatMap CatchClause.types, Name.MeansIn P name)
    (hb : G.Runs ev body) (hc : ∀ clause ∈ catches, G.Runs ev clause.body) :
    G (body ++ catches.flatMap CatchClause.body) [] (ev.tryOutcomes id body catches)
      (fun os => os.map scope) .any := by
  refine hG.looking (fun _ => rfl) (hG.first hG.forkCurrent fun entry _ => ?_)
  refine hG.first (hG.forkScope (.head _)) fun start _ => ?_
  refine hG.bind (hG.frame (hG.checkIn hb start) [entry]) fun first _ => ?_
  refine hG.first (hG.merged (s := entry) (t := first.scope) (by simp) (by simp)) fun catchEntry _ => ?_
  refine hG.andThen (hG.frame (hG.checkCatches catchEntry _ hcatches hc) _) fun others _ => ?_
  refine hG.pure trivial ?_
  refine (perm_append_singleton ..).symm.subperm.trans (Sublist.subperm ?_)
  exact .cons _ ((Sublist.refl _).append ((nil_sublist _).cons_cons _))

lemma checkTry (id : NodeId) {finallyBody : Option (List NodeId)}
    (hcatches : ∀ name ∈ catches.flatMap CatchClause.types, Name.MeansIn P name)
    (hb : G.Runs ev body) (hc : ∀ clause ∈ catches, G.Runs ev clause.body)
    (hf : G.Runs ev (finallyBody.getD [])) :
    G.typed (body ++ catches.flatMap CatchClause.body ++ finallyBody.getD [])
      (ev.checkTry id body catches finallyBody) .any := by
  rw [checkTry_eq]
  refine hG.bind (hG.tryOutcomes id hcatches hb hc) fun outcomes _ => ?_
  refine hG.first (hG.rejoinAll outcomes) fun _ _ => ?_
  cases finallyBody with
  | none => exact hG.pure trivial (.refl _)
  | some stmts => exact hG.result hf fun _ _ => trivial

lemma caseStart (falling : Option Scope) :
    G [] falling.toList (caseStart falling) (fun s => [s]) .any := by
  cases falling with
  | none => exact hG.forkCurrent
  | some previous =>
    exact hG.onHeldWith (fun s => s) fun _ _ ht hs _ hσ =>
      change_merge hG.stable.join hs ht hσ le_rfl

lemma checkCases (falling : Option Scope)
    (h : ∀ case ∈ cases, (∀ c ∈ case.test.toList, G.Infers ev c) ∧ G.Runs ev case.body) :
    G (cases.flatMap SwitchCase.children) falling.toList (ev.checkCases cases falling)
      (fun r => r.1.toList ++ r.2.map scope) .any := by
  induction cases generalizing falling with
  | nil => exact hG.pure trivial (by simp [Subperm.refl])
  | cons case cases ih =>
    rw [forall_mem_cons] at h
    rw [flatMap_cons, SwitchCase.children, append_assoc, checkCases_cons]
    have htest : G.typed case.test.toList (ev.visit? case.test) .any := by
      cases htest : case.test with
      | none => exact hG.pure trivial (.refl _)
      | some test => exact hG.visit (h.1.1 test (by rw [htest]; exact mem_cons_self))
    refine hG.next htest fun _ _ => hG.first (hG.caseStart falling) fun start _ => ?_
    refine hG.bind (hG.checkIn h.1.2 start) fun outcome _ => ?_
    unfold casesBehind
    split
    · exact ih (some outcome.scope) h.2
    · refine hG.andThen (hG.frame (ih none h.2) [outcome.scope]) fun r _ => hG.pure trivial ?_
      -- A branch that jumps is in the record of the switch already.
      split
      · simpa using (perm_middle.trans (perm_append_singleton ..).symm).subperm
      · simpa [← append_assoc] using (sublist_append_left ..).subperm

/-! ## Loops -/

lemma finishLoop (exit : Scope) (body : Outcome) (breaks : List Scope) :
    G [] (breaks ++ [body.scope, exit]) (do
      Analysis.finishLoop exit body breaks
      return Flow.normal) (fun _ => []) .any := by
  have hjoin : G [] (exit :: body.scope :: breaks) (Analysis.finishLoop exit body breaks)
      (fun _ => body.scope :: breaks) .any := by
    refine hG.first (hG.onHeld fun σ hs hl hσ => ?_) fun joined _ =>
      hG.frame (hG.replaceCurrent joined) (body.scope :: breaks)
    have hbreaks : ∀ t ∈ breaks, t.Wf P σ := fun t ht => hl t (.tail _ ht)
    have hmerge := change_merge hG.stable.join hs (hl body.scope mem_cons_self) hσ
      le_rfl
    have habsorb := change_absorbUsage (n := σ.size) hs hσ body.scope
    dsimp only
    split
    · exact hmerge.trans (change_mergeAll hG.stable.join hmerge.wf
        (fun t ht => (hbreaks t ht).mono hmerge.size_le) hmerge.types hmerge.size_le)
    · exact habsorb.trans (change_mergeAll hG.stable.join habsorb.wf
        (fun t ht => (hbreaks t ht).mono habsorb.size_le) habsorb.types habsorb.size_le)
  have hcomm : ([body.scope, exit] ++ breaks).Perm (breaks ++ [body.scope, exit]) :=
    perm_append_comm
  exact hG.subperm (hG.result hjoin fun _ _ => trivial) ((Perm.swap ..).trans hcomm).subperm
    fun _ => .refl _

lemma leaveDoWhile (condition : NodeId) (flow : Flow) (breaks : List Scope) :
    G [] breaks (Evaluator.leaveDoWhile condition flow breaks) (fun _ => []) .any := by
  unfold Evaluator.leaveDoWhile
  split
  · exact hG.pure trivial nil_subperm
  · refine hG.first (hG.frame (hG.branchScopes condition) breaks) fun r _ => ?_
    refine hG.first (hG.subperm (hG.mergeAll r.2 breaks) (sublist_cons_self ..).subperm
      fun _ => .refl _) fun joined _ => ?_
    exact hG.result (hG.replaceCurrent joined) fun _ _ => trivial

lemma forScopes (condition : List NodeId) :
    G [] [] (Evaluator.forScopes condition) (fun r => [r.1, r.2]) .any := by
  unfold Evaluator.forScopes
  split
  · exact hG.branchScopes _
  · exact hG.first hG.forkCurrent fun start _ => hG.first (hG.frame hG.forkCurrent [start])
      fun _ _ => hG.pure trivial (Perm.swap ..).subperm

lemma markIterated (subject : NodeId) (byRef : Bool) (line : Line) :
    G.typed [] (Evaluator.markIterated subject byRef line) .any := by
  unfold Evaluator.markIterated
  split
  · refine hG.looking (fun _ => rfl) ?_
    split
    · exact hG.onVars fun s σ hs hσ => change_markWritten hs hσ _ line
    · exact hG.pure trivial (.refl _)
  · exact hG.pure trivial (.refl _)

section Enclosed

variable {subject : NodeId}

include henc

lemma checkForeach (id : NodeId) (byRef : Bool) (hs : G.Infers ev subject)
    (hbind : ∀ line, G.typed (key.toList ++ [value]) (ev.bindIteration key value byRef line) .any)
    (hbody : I.Runs ev body) :
    G.typed (subject :: key.toList ++ value :: body)
      (ev.checkForeach id subject key value byRef body) .any := by
  rw [checkForeach_eq, append_cons, cons_append, cons_append]
  refine hG.looking (fun _ => rfl) (hG.bind (hG.visit hs) fun _ _ => ?_)
  refine hG.first (hG.markIterated ..) fun _ _ => hG.first hG.forkCurrent fun exit _ => ?_
  have hround : G body [] (ev.foreachBody body) (fun r => r.2) .any :=
    henc.loop hbody fun _ breaks _ => hG.pure trivial (by simp [Subperm.refl])
  refine hG.first (hG.frame hG.forkCurrent [exit]) fun iteration _ => ?_
  refine hG.andThen (hG.frame (hG.inScope (hG.bind (hbind _) fun _ _ => hround)) [exit]) fun r _ => ?_
  exact hG.subperm (hG.finishLoop exit ⟨r.2, r.1.1⟩ r.1.2) perm_middle.subperm fun _ => .refl _

lemma switchPaths (hs : G.Infers ev subject)
    (hcases : I (cases.flatMap SwitchCase.children) [] (ev.checkCases cases none)
      (fun r => r.1.toList ++ r.2.map scope) .any) :
    G (subject :: cases.flatMap SwitchCase.children) [] (ev.switchPaths subject cases)
      (fun r => r.1 ++ r.2.map scope) .any := by
  refine hG.bind (hG.visit hs) fun _ _ => henc.loop hcases fun (falling, dead) breaks _ => ?_
  have hrest (skipped : List Scope) :
      G [] (skipped ++ (breaks ++ (falling.toList ++ dead.map scope)))
        (Pure.pure (breaks ++ falling.toList ++ skipped, dead)) (fun r => r.1 ++ r.2.map scope)
        .any := by
    refine hG.pure trivial (Perm.subperm ?_)
    have hcomm : (breaks ++ falling.toList ++ skipped).Perm
        (skipped ++ (breaks ++ falling.toList)) := perm_append_comm
    simpa only [append_assoc] using hcomm.append_right (dead.map scope)
  dsimp only
  split
  · exact hrest []
  · exact hG.first (hG.frame hG.forkCurrent _) fun skipped _ => hrest [skipped]

lemma checkSwitch (hs : G.Infers ev subject)
    (hcases : I (cases.flatMap SwitchCase.children) [] (ev.checkCases cases none)
      (fun r => r.1.toList ++ r.2.map scope) .any) :
    G.typed (subject :: cases.flatMap SwitchCase.children) (ev.checkSwitch subject cases) .any := by
  rw [checkSwitch_eq]
  refine hG.andThen (hG.switchPaths henc hs hcases) fun (paths, dead) _ => ?_
  exact hG.subperm (hG.rejoin paths dead .exit) (sublist_append_left ..).subperm fun _ => .refl _

lemma checkFunction (function : NodeId) {params : List Param}
    (hps : ∀ t ∈ params.filterMap (Param.declared? doc), t.ResolvesIn P) {this : Option Ty}
    (hthis : KnownIn P this) (isStatic : Bool) (h : I.Runs ev body) :
    G.typed body (ev.checkFunction function params body doc this isStatic) .any := by
  rw [checkFunction_eq]
  refine hG.looking (fun _ => rfl) (hG.looking (fun _ => rfl) (hG.seeing (fun _ => rfl) fun _ _ => ?_))
  refine hG.first (hG.addSuperglobals _ _ rfl rfl) fun s _ => ?_
  refine hG.first (hG.declareThis (fun r hr => ?_) s) fun s _ =>
    hG.first (hG.addParams _ hps s) fun s _ => henc.function s function h
  obtain ⟨t, rfl, rfl⟩ := map_eq_some_iff.1 hr
  exact hthis

include hI

lemma checkWhile (hc : G.Infers ev condition)
    (hbody : I.Runs ev body) : G.typed (condition :: body) (ev.checkWhile condition body) .any := by
  refine hG.bind (hG.visit hc) fun _ _ => hG.first (hG.branchScopes condition) fun (start, exit) _ => ?_
  exact henc.loop (hI.frame (hI.checkIn hbody start) [exit]) fun outcome breaks _ =>
    hG.finishLoop exit outcome breaks

lemma checkDoWhile (hbody : I.Runs ev body) (hc : I.Infers ev condition) :
    G.typed (condition :: body) (ev.checkDoWhile body condition) .any := by
  rw [checkDoWhile_eq]
  have hround : I.typed (body ++ [condition]) (ev.doWhileBody body condition) .any :=
    hI.bind hbody fun _ _ => hI.result (hI.visit hc) fun _ _ => trivial
  refine henc.loop (hI.mono hround (perm_append_singleton condition body).subperm (.refl _)
    fun _ => .refl _) fun flow breaks _ => ?_
  rw [show breaks ++ [] = breaks from append_nil _]
  exact hG.leaveDoWhile condition flow breaks

lemma checkFor {init condition step : List NodeId} (hi : G.typed init (ev.visitAll init) .any)
    (hc : G.typed condition (ev.visitAll condition) .any)
    (hs : I.typed step (ev.visitAll step) .any) (hbody : I.Runs ev body) :
    G.typed (init ++ condition ++ (step ++ body)) (ev.checkFor init condition step body) .any := by
  rw [checkFor_eq, append_assoc]
  have hround : I.typed (body ++ step) (ev.forBody step body) .any :=
    hI.bind hbody fun _ _ => hI.result hs fun _ _ => trivial
  refine hG.bind hi fun _ _ => hG.bind hc fun _ _ => hG.first (hG.forScopes condition) fun scopes _ => ?_
  have hinside := hI.inScope (s := scopes.1) (hI.mono hround perm_append_comm.subperm
    (.refl _) fun _ => .refl _)
  exact henc.loop (hI.frame hinside [scopes.2]) fun r breaks _ =>
    hG.finishLoop scopes.2 ⟨r.2, r.1⟩ breaks

end Enclosed

/-! ## Other statements -/

lemma applyDoc (id expr : NodeId)
    (hdoc : ∀ t ∈ ((doc.bind Docblock.varTag?).map Prod.fst).toList, t.ResolvesIn P) :
    G.typed [] (applyDoc id expr doc) .any := by
  cases doc with
  | none => exact hG.pure trivial (.refl _)
  | some doc =>
    rw [applyDoc, applyVarDoc_eq]
    have hassigned : G.typed [] (assignedVar expr) .any := by
      refine hG.looking (fun _ => rfl) ?_
      split
      · exact hG.reads (f := fun _ => Pure.pure _) (fun _ => rfl) fun _ _ =>
          hG.pure trivial (.refl _)
      · exact hG.pure trivial (.refl _)
    refine hG.first hassigned fun assigned _ => ?_
    cases hdeclared : Docblock.declared? doc assigned with
    | none => exact hG.pure trivial (.refl _)
    | some declared =>
      have hresolves := hdoc declared.1 (mem_toList.2 (varTag?_of_declared? hdeclared))
      refine hG.first (hG.resolveInClass hresolves) fun t ht => hG.looking (fun _ => rfl) ?_
      exact hG.onScope fun s σ hs _ hσ =>
        change_overrideType hs hσ le_rfl declared.2 ht _

lemma checkExprStmt (id : NodeId) {expr : NodeId}
    (hdoc : ∀ t ∈ ((doc.bind Docblock.varTag?).map Prod.fst).toList, t.ResolvesIn P)
    (h : G.Infers ev expr) : G.typed [expr] (ev.checkExprStmt id expr doc) .any := by
  rw [checkExprStmt_eq]
  refine hG.andThen (hG.visit h) fun _ _ => hG.first (hG.applyDoc id expr hdoc) fun _ _ => ?_
  refine hG.looking (fun _ => rfl) ?_
  split <;> exact hG.pure trivial (.refl _)

lemma bindGlobals (line : Line) (names : List String) :
    G.typed [] (bindGlobals line names) .any := by
  induction names with
  | nil => exact hG.pure trivial (.refl _)
  | cons name names ih =>
    refine hG.seeing (fun _ => rfl) fun _ _ => hG.seeing (fun _ => rfl) fun _ hst => ?_
    exact hG.first (hG.onScope fun _ _ hs _ hσ => change_declare hs hσ le_rfl name
      (hst.store.typeOf? _ name) .global line) fun _ _ => ih

lemma bindStatics (line : Line) {vars : List StaticVar}
    (h : ∀ c ∈ vars.filterMap StaticVar.default, G.Infers ev c) :
    G.typed (vars.filterMap StaticVar.default) (ev.bindStatics line vars) .any := by
  induction vars with
  | nil => exact hG.pure trivial (.refl _)
  | cons v vs ih =>
    have hdeclare {type : Option Ty} (ht : KnownIn P type) : G.typed []
        (Analysis.onScope fun s σ => s.declare σ v.name type .static line) .any :=
      hG.onScope fun _ _ hs _ hσ => change_declare hs hσ le_rfl v.name ht .static line
    rw [Evaluator.bindStatics]
    cases hdefault : v.default with
    | some default =>
      rw [filterMap_cons_some hdefault] at h ⊢
      rw [forall_mem_cons] at h
      exact hG.bind h.1 fun _ ht => hG.first (hdeclare ht) fun _ _ => ih h.2
    | none =>
      rw [filterMap_cons_none hdefault] at h ⊢
      have hnull : G.typed [] (Pure.pure (some null)) .type :=
        hG.pure (.some (hG.stable.primitive .null)) (.refl _)
      exact hG.first hnull fun _ ht => hG.first (hdeclare ht) fun _ _ => ih h

lemma checkMembers {members : List NodeId} (h : ∀ c ∈ members, G.typed [c] (ev.check c) .any) :
    G.typed members (ev.checkMembers members) .any := by
  induction members with
  | nil => exact hG.pure trivial (.refl _)
  | cons member members ih =>
    rw [forall_mem_cons] at h
    exact hG.bind h.1 fun _ _ => ih h.2

lemma checkDeclare (strictTypes : Option Bool) :
    G.typed [] (Evaluator.checkDeclare strictTypes) .any := by
  unfold Evaluator.checkDeclare
  split
  · refine hG.result (hG.onScope fun s σ hs _ hσ => ?_) fun _ _ => trivial
    exact change_of_vars hs hσ rfl hs.chains
  · exact hG.pure trivial (.refl _)

lemma thisType (isStatic : Bool) : G.typed [] (Evaluator.thisType isStatic) .type := by
  unfold Evaluator.thisType
  split
  · exact hG.pure .none (.refl _)
  · refine hG.seeing (fun _ => rfl) fun st hst => hG.pure (fun t ht => ?_) (.refl _)
    obtain ⟨c, hc, rfl⟩ := map_eq_some_iff.1 ht
    exact hG.stable.dropSeparator c.name (hst.classes c (mem_of_head? hc)).name

/-- The rule of every kind of expression. -/
lemma inferExpr {passed written : NodeId → Prop} (hcx : cx.DeclaresIn P)
    (h : Stepwise P (.of cx) read passed written ev G.typed) (id : NodeId)
    (he : (NodeData.expr e).DeclaresIn P) (hread : ∀ c ∈ e.children, read c)
    (hargs : ∀ c ∈ e.args, passed c) (hplaces : ∀ c ∈ e.places, written c)
    (hbody : ∀ fn, e = .closure fn → G.Runs ev fn.body) :
    G.typed e.children (ev.inferExpr id e) .type := by
  have hbool : KnownIn P (some .bool) := .some (hG.stable.primitive .bool)
  by_cases hkeeps : e.keepsScope = true
  · exact h.inferExpr (hG.concludes hcx id) he hkeeps hread hargs hplaces
  · cases e with
    | closure fn => exact hG.inferClosure id he.types (hbody fn rfl)
    | arrow fn => exact hG.inferArrow id he.types (h.infer (forall_mem_singleton.1 hread))
    | ternary condition ifTrue ifFalse =>
      simp only [Expr.children, forall_mem_append, forall_mem_cons] at hread
      exact hG.inferTernary (h.infer hread.1.1) (fun c hc => h.infer (hread.1.2 c hc)) (h.infer hread.2.1)
    | matchExpr subject arms =>
      have hread := forall_mem_cons.1 hread
      exact hG.inferMatch (h.infer hread.1) fun c hc => h.infer (hread.2 c hc)
    | binary op left right =>
      have hleft := h.infer (hread left (by simp [Expr.children]))
      have hright := h.infer (hread right (by simp [Expr.children]))
      cases op with
      | boolAnd | logicalAnd => exact hG.inferShort true id hleft hright
      | boolOr | logicalOr => exact hG.inferShort false id hleft hright
      | _ => exact absurd rfl hkeeps
    | suppress expr =>
      exact hG.andThen (h.infer (forall_mem_singleton.1 hread)) fun _ ht =>
        hG.result (hG.forwardAssertions ..) fun _ _ => ht
    | unary op operand =>
      cases op with
      | not =>
        exact hG.andThen (h.infer (forall_mem_singleton.1 hread)) fun _ ht =>
          hG.result (hG.negate _ _ ht) fun _ _ => hbool
      | _ => exact absurd rfl hkeeps
    | cast kind expr =>
      cases kind with
      | bool =>
        exact hG.andThen (h.visit (forall_mem_singleton.1 hread)) fun _ _ =>
          hG.result (hG.forwardAssertions ..) fun _ _ => hbool
      | _ => exact absurd rfl hkeeps
    | _ => exact absurd rfl hkeeps

end ScopeJudgement.Holding

/-! ## Nodes -/

/-- The judgement holds of what is evaluated at the nodes `read`, and of what is run or written at
those that are `ok`. -/
structure Traverser (P : Ty → Prop) (cx : Context) (read ok : NodeId → Prop) (ev : Evaluator)
    (G : ScopeJudgement) : Prop extends G.Holding P cx where
  declares : cx.DeclaresIn P
  read_of_ok : ∀ {id}, ok id → read id
  see : ∀ {id}, read id → G.Infers ev id
  assign : ∀ {id}, ok id → ∀ {type}, KnownIn P type → ∀ line,
    G.typed [id] (ev.assign id type line) .any
  writeInto : ∀ {id}, ok id → ∀ line, G.typed [id] (ev.writeInto id line) .any
  compact : ∀ {id}, ok id → G.typed [] (ev.compact id) .any
  recordWriteAt : ∀ {id}, ok id → ∀ {type}, KnownIn P type → ∀ line,
    G.typed [] (recordWrite id type line) .any
  check : ∀ {id}, ok id → G.typed [id] (ev.check id) .any
  parts : ∀ {id} {m : Analysis Unit} {e}, ok id → cx.arena.expr? id = some e →
    ((∀ c ∈ e.children, G.Infers ev c) → G.typed e.children m .any) → G.typed [id] m .any

namespace Traverser

variable {ok : NodeId → Prop} (h : Traverser P cx read ok ev G)

include h

lemma sequential : G.typed.Sequential P (.of cx) :=
  h.typed h.declares

lemma infer (hid : ok id) : G.Infers ev id :=
  h.see (h.read_of_ok hid)

lemma stepwise : Stepwise P (.of cx) read ok ok ev G.typed where
  toSequential := h.sequential
  seen _ := trivial
  infer := h.see
  read_of_passed := h.read_of_ok
  bindByRef hid line := h.sequential.bindByRef line (fun _ => h.assign hid .none line) (h.infer hid)
  assign hid _ _ := h.assign hid
  writeInto := h.writeInto
  compact := h.compact
  recordWriteAt hid _ := h.recordWriteAt hid

lemma visit (hid : ok id) : G.typed [id] (ev.visit id) .any :=
  h.stepwise.visit (h.read_of_ok hid)

lemma visitAll (hids : ∀ c ∈ ids, ok c) :
    G.typed ids (ev.visitAll ids) .any :=
  h.stepwise.visitAll fun c hc => h.read_of_ok (hids c hc)

lemma checkAll (hids : ∀ c ∈ ids, ok c) : G.Runs ev ids :=
  h.toHolding.checkAll fun c hc => h.check (hids c hc)

lemma inferExpr (id : NodeId) (he : (NodeData.expr e).DeclaresIn P)
    (hread : ∀ c ∈ e.children, read c) (hargs : ∀ c ∈ e.args, ok c) (hplaces : ∀ c ∈ e.places, ok c) :
    G.typed e.children (ev.inferExpr id e) .type := by
  refine h.toHolding.inferExpr h.declares h.stepwise id he hread hargs hplaces ?_
  rintro fn rfl
  exact h.checkAll hplaces

lemma bindIteration (byRef : Bool) (line : Line) (hk : ∀ c ∈ key.toList, ok c) (hv : ok value) :
    G.typed (key.toList ++ [value]) (ev.bindIteration key value byRef line) .any := by
  have hkey : KnownIn P (some (join .int .string)) :=
    .some (h.stable.join _ _ (h.stable.primitive .int) (h.stable.primitive .string))
  have hvalue : G.typed [value] (do
      ev.assign value none line
      if byRef then markReferenceAt value) .any := by
    refine h.andThen (h.assign hv .none _) fun _ _ => ?_
    split
    · exact h.sequential.markReferenceAt _
    · exact h.pure trivial (.refl _)
  cases key with
  | some key => exact h.bind (h.assign (forall_mem_singleton.1 hk) hkey _) fun _ _ => hvalue
  | none => exact hvalue

lemma unset {target : NodeId} (ht : ok target) : G.typed [target] (ev.unset target) .any := by
  refine h.looking (fun _ => rfl) ?_
  split
  · exact h.sequential.skip (h.onScope fun _ _ hs _ hσ => change_remove hs hσ _)
  · next object name _ he =>
    refine h.parts ht he fun hchildren => ?_
    have hobject := h.andThen (h.toHolding.visit (forall_mem_cons.1 hchildren).1) fun _ _ =>
      h.sequential.assignChain target .none
    exact h.sequential.mono hobject (sublist_append_left [object] _).subperm
  · exact h.visit ht

lemma unsetAll {targets : List NodeId} (ht : ∀ c ∈ targets, ok c) :
    G.typed targets (ev.unsetAll targets) .any := by
  induction targets with
  | nil => exact h.pure trivial (.refl _)
  | cons target targets ih =>
    rw [forall_mem_cons] at ht
    exact h.bind (h.unset ht.1) fun _ _ => ih ht.2

/-- The rule of every kind of statement, where the judgement inside loops and declared functions may
be another one. -/
lemma checkStmt {readIn okIn : NodeId → Prop} (hin : Traverser P cx readIn okIn ev I)
    (henc : G.Encloses P I) (id : NodeId) {stmt : Stmt} (hstmt : (NodeData.stmt stmt).DeclaresIn P)
    (hok : ∀ c ∈ stmt.children, ok c) (hall : ∀ c ∈ stmt.allParts, okIn c)
    (hjump : stmt.isJump → G.typed [] checkJump .any) :
    G.typed stmt.allParts (ev.checkStmt id stmt) .any := by
  have hnormal {α : Type} {nodes : List NodeId} {m : Analysis α} (hm : G.typed nodes m .any) :
      G.typed nodes (m >>= fun _ => Pure.pure Flow.normal) .any := h.result hm fun _ _ => trivial
  cases stmt with
  | sourceFile _ stmts | block stmts => exact h.checkAll hok
  | exprStmt expr doc =>
    exact h.checkExprStmt id hstmt.types (h.infer (forall_mem_singleton.1 hok))
  | echoStmt exprs => exact hnormal (h.visitAll hok)
  | returnStmt expr => exact h.result (h.stepwise.visit? fun c hc => h.read_of_ok (hok c hc)) fun _ _ => trivial
  | ifStmt condition thenBranch elseIfs elseBranch =>
    simp only [children, forall_mem_append, forall_mem_cons,
      forall_mem_flatMap, ElseIf.children] at hok
    exact h.checkIf (h.infer hok.1.1.1) (h.checkAll hok.1.1.2)
      (fun b hb => ⟨h.infer (hok.1.2 b hb).1, h.checkAll (hok.1.2 b hb).2⟩) (h.checkAll hok.2)
  | whileStmt condition body =>
    exact h.checkWhile hin.toHolding henc (h.infer (forall_mem_singleton.1 hok))
      (hin.checkAll (forall_mem_cons.1 hall).2)
  | doWhileStmt body condition =>
    have hall := forall_mem_cons.1 hall
    exact h.checkDoWhile hin.toHolding henc (hin.checkAll hall.2) (hin.infer hall.1)
  | forStmt init condition step body =>
    have hok := forall_mem_append.1 hok
    simp only [allParts, forall_mem_append] at hall
    exact h.checkFor hin.toHolding henc (h.visitAll hok.1) (h.visitAll hok.2)
      (hin.visitAll hall.2.1) (hin.checkAll hall.2.2)
  | foreachStmt subject key value byRef body =>
    simp only [children, forall_mem_append, forall_mem_cons] at hok
    simp only [allParts, forall_mem_append, forall_mem_cons] at hall
    exact h.checkForeach henc id byRef (h.infer hok.1.1)
      (fun line => h.bindIteration byRef line hok.1.2 hok.2.1) (hin.checkAll hall.2.2)
  | switchStmt subject cases =>
    have hall := (forall_mem_cons.1 hall).2
    simp only [forall_mem_flatMap, SwitchCase.children, forall_mem_append] at hall
    exact h.checkSwitch henc (h.infer (forall_mem_singleton.1 hok)) (hin.checkCases none fun case hc =>
      ⟨fun c hmem => hin.infer ((hall case hc).1 c hmem), hin.checkAll (hall case hc).2⟩)
  | tryStmt body catches finallyBody =>
    simp only [children, forall_mem_append, forall_mem_flatMap] at hok
    exact h.checkTry id hstmt.names (h.checkAll hok.1.1)
      (fun clause hc => h.checkAll (hok.1.2 clause hc)) (h.checkAll hok.2)
  | breakStmt | continueStmt => exact hjump rfl
  | globalStmt names => exact h.looking (fun _ => rfl) (hnormal (h.bindGlobals ..))
  | staticStmt vars =>
    exact h.looking (fun _ => rfl) (hnormal (h.bindStatics _ fun c hc => h.infer (hok c hc)))
  | unsetStmt vars => exact hnormal (h.unsetAll hok)
  | declareStmt strictTypes => exact h.checkDeclare strictTypes
  | function fn =>
    exact hnormal (h.checkFunction henc id hstmt.types .none _ (hin.checkAll hall))
  | classDecl cls =>
    exact h.inClass (hstmt.classes _ (.head _))
      (h.checkMembers fun c hc => h.check (hok c hc))
  | method fn =>
    unfold Evaluator.checkStmt
    simp only [allParts] at hall ⊢
    cases hbody : fn.body with
    | some body =>
      rw [hbody] at hall
      exact h.first (h.thisType _) fun _ hthis =>
        hnormal (h.checkFunction henc id hstmt.types hthis _ (hin.checkAll hall))
    | none => exact h.pure trivial (.refl _)
  | property _ | classConst _ _ | enumCase _ _ | traitUse _ => exact h.pure trivial (.refl _)

end Traverser

end FlowTyping
