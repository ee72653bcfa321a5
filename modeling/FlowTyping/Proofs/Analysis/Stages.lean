import FlowTyping.Analysis.Engine
import FlowTyping.Proofs.Scope.Paths

/-!
# Stages of the rules

A rule runs in stages: it makes the scopes that it needs, runs parts of the tree in them, and ends
by joining or leaving them.  The stages that the arguments about a rule speak of have names here,
and an equation for each rule gives its stages in order.
-/

namespace FlowTyping

open Scope List

/-- The type that a comment declares, with the variable it is for: the one that the statement
assigns, or else the one that the comment names. -/
def Docblock.declared? (doc : String) : Option String → Option (Ty × String)
  | some name => (Docblock.varTypeFor? doc name).map fun t => (t, name)
  | none => (Docblock.varTag? doc).bind fun r => r.2.map fun name => (r.1, name)

/-- The variables that a closure has by value and has read in its scope `s`. -/
def ClosureExpr.readIn (fn : ClosureExpr) (s : Scope) (σ : Store) : List String :=
  ((fn.uses.filter fun use => !use.byRef).map ClosureUse.name).filter fun name =>
    (s.var? σ name).any Variable.used

/-- The captured variables that an arrow function has read in its scope `s`. -/
def Scope.capturedRead (s : Scope) (σ : Store) : List String :=
  ((s.view σ).vars.filter fun e => e.2.used && e.2.kind == .captured).map Prod.fst

namespace Analysis

/-! ## Comments -/

/-- The variable that the assignment at `expr` is to. -/
def assignedVar (expr : NodeId) : Analysis (Option String) := do
  match ← exprAt expr with
  | some (.assign target _) => varNameAt target
  | _ => return none

/-- Gives a variable its declared type. -/
def applyDeclared (id : NodeId) : Option (Ty × String) → Analysis Unit
  | some (t, name) => do
    let t ← resolveInClass t
    let line ← lineOf id
    onScope fun s σ => s.overrideType σ name t line
  | none => return

lemma applyVarDoc_eq (id expr : NodeId) (doc : String) :
    applyVarDoc id expr doc = (do
      let assigned ← assignedVar expr
      applyDeclared id (Docblock.declared? doc assigned)) := by
  simp only [applyVarDoc, assignedVar, bind_assoc]
  refine bind_congr (m := Analysis) fun e => ?_
  cases e with
  | none => rfl
  | some e => cases e <;> rfl

/-- Applies the comment of a statement, where it has one. -/
def applyDoc (id expr : NodeId) : Option String → Analysis Unit
  | some doc => applyVarDoc id expr doc
  | none => return

/-- How a statement that is the expression `expr` ends. -/
def flowAt (expr : NodeId) : Analysis Flow := do
  match ← exprAt expr with
  | some (.exit _) | some (.throwExpr _) => return .exit
  | _ => return .normal

/-! ## Functions -/

/-- Brings `$this` into the scope of a function, where it has one, with its type and its line. -/
def declareThis (this : Option (Option Ty × Line)) (s : Scope) : Analysis Scope :=
  match this with
  | some r => onStore fun σ => s.declare σ "this" r.1 .this r.2
  | none => return s

/-- Leaves the scope of a closure or an arrow function, and marks in the enclosing scope what was
read of it. -/
def leaveCapturing (id : NodeId) (readIn : Scope → Store → List String) : Analysis (Option Ty) := do
  match ← leaveFunction id with
  | none => return some .closure
  | some s =>
    let store ← getStore
    propagateUsage (readIn s store)
    return some .closure

/-- Enters the type of a node into the table, and the node into the record. -/
def recordInferred (id : NodeId) (type : Option Ty) : Analysis (Option Ty) := do
  match type with
  | some t => modifyTable fun table => table.setType id t
  | none => pure ()
  recordVisit id type
  return type

end Analysis

namespace Evaluator

open Analysis

variable (ev : Evaluator)

/-- Runs the body of a closure whose scope `s` has no parameters yet. -/
def closureBody (id : NodeId) (fn : ClosureExpr) (line : Line) (s : Scope) :
    Analysis (Option Ty) := do
  let s ← addParams none line fn.params s
  let s ← capture line fn.uses s
  modifyStack fun st => st.push s
  let _ ← ev.checkAll fn.body
  leaveCapturing id fn.readIn

lemma inferClosure_eq (id : NodeId) (fn : ClosureExpr) :
    ev.inferClosure id fn = (do
      let line ← lineOf id
      let extra := (← read).options.superglobals
      let flags : ScopeFlags :=
        { isClosure := true, isStatic := fn.isStatic, isStrict := ← isStrict }
      let s ← onStore (addSuperglobals extra { flags, function := some id })
      let enclosing ← getScope
      let store ← getStore
      let this := if fn.isStatic then none else enclosing.var? store "this"
      let s ← declareThis (this.map fun v => (v.type, v.line)) s
      ev.closureBody id fn line s) := by
  refine bind_congr (m := Analysis) fun line => bind_congr (m := Analysis) fun cx => ?_
  refine bind_congr (m := Analysis) fun strict => bind_congr (m := Analysis) fun s => ?_
  refine bind_congr (m := Analysis) fun enclosing => bind_congr (m := Analysis) fun store => ?_
  generalize (if fn.isStatic then none else enclosing.var? store "this") = this
  cases this <;> rfl

lemma inferArrow_eq (id : NodeId) (fn : ArrowExpr) :
    ev.inferArrow id fn = (do
      let line ← lineOf id
      let flags : ScopeFlags :=
        { isArrow := true, isStatic := fn.isStatic, isStrict := ← isStrict }
      let s := { ← forkCurrent with flags, function := some id }
      let s := if fn.isStatic then s.remove "this" else s
      onStore fun σ =>
        ((), s.vars.entries.foldl (fun σ (_, slot) => σ.update slot capturedCopy) σ)
      let s ← addParams none line fn.params s
      modifyStack fun st => st.push s
      ev.visit fn.body
      leaveCapturing id capturedRead) := rfl

/-- Runs the body of a declared function whose scope `s` has no parameters yet.  The loops around
the function are not its own. -/
def functionBody (function : NodeId) (params : List Param) (body : List NodeId)
    (doc : Option String) (line : Line) (s : Scope) : Analysis Unit := do
  let s ← addParams doc line params s
  let breaks := (← get).breaks
  modify fun st => { st with breaks := [], stack := st.stack.push s }
  let _ ← ev.checkAll body
  let _ ← leaveFunction function
  modify fun st => { st with breaks }

lemma checkFunction_eq (function : NodeId) (params : List Param) (body : List NodeId)
    (doc : Option String) (this : Option Ty) (isStatic : Bool) :
    ev.checkFunction function params body doc this isStatic = (do
      let line ← lineOf function
      let extra := (← read).options.superglobals
      let flags : ScopeFlags := { isStatic, isStrict := (← getStack).isStrict }
      let s ← onStore (addSuperglobals extra { flags, function := some function })
      let s ← declareThis (this.map fun t => (some t, line)) s
      ev.functionBody function params body doc line s) := by
  cases this <;> rfl

/-! ## Statements -/

lemma checkExprStmt_eq (id expr : NodeId) (doc : Option String) :
    ev.checkExprStmt id expr doc = (do
      ev.visit expr
      applyDoc id expr doc
      flowAt expr) := by
  cases doc <;> rfl

/-! ## Matches -/

/-- The scope in which an arm with these conditions starts. -/
def armStart : List NodeId → Analysis Scope
  | [condition] => do return (← branchScopes condition).1
  | _ => forkCurrent

/-- What is known of a match behind an arm with this body, type and scope at the end. -/
def MatchOutcome.add (outcome : MatchOutcome) (body : Option Expr) (type : Option Ty)
    (after : Scope) : MatchOutcome :=
  match body with
  | some (.throwExpr _) => { outcome with terminated := outcome.terminated ++ [after] }
  | _ =>
    { outcome with
      types := outcome.types ++ [type]
      rejoining := outcome.rejoining ++ [after] }

lemma MatchOutcome.mem_types_add {outcome : MatchOutcome} {body : Option Expr}
    {type t : Option Ty} {after : Scope} (h : t ∈ (outcome.add body type after).types) :
    t ∈ outcome.types ∨ t = type := by
  unfold add at h
  split at h
  · exact .inl h
  · exact (mem_append.1 h).imp id mem_singleton.1

lemma MatchOutcome.perm_add (outcome : MatchOutcome) (body : Option Expr) (type : Option Ty)
    (after : Scope) :
    ((outcome.add body type after).rejoining ++ (outcome.add body type after).terminated).Perm
      (after :: (outcome.rejoining ++ outcome.terminated)) := by
  unfold add
  split
  · rw [← append_assoc]
    exact perm_append_singleton ..
  · rw [append_assoc]
    exact perm_middle

lemma matchArms_cons (arm : MatchArm) (arms : List MatchArm) (outcome : MatchOutcome) :
    ev.matchArms (arm :: arms) outcome = (do
      ev.visitAll (arm.conditions.getD [])
      let start ← armStart (arm.conditions.getD [])
      let r ← inScope start (ev.infer arm.body)
      let body ← exprAt arm.body
      ev.matchArms arms (outcome.add body r.1 r.2)) := by
  refine bind_congr (m := Analysis) fun _ => ?_
  generalize arm.conditions.getD [] = conditions
  rcases conditions with _ | ⟨condition, _ | ⟨second, others⟩⟩
  all_goals
    simp only [armStart, bind_assoc, pure_bind]
    refine bind_congr (m := Analysis) fun start => bind_congr (m := Analysis) fun r => ?_
    refine bind_congr (m := Analysis) fun body => ?_
    cases body with
    | none => rfl
    | some e => cases e <;> rfl

/-! ## Branches -/

/-- The outcomes of the branches of an `if`. -/
def ifOutcomes (condition : NodeId) (thenBranch : List NodeId)
    (elseIfs : List ElseIf) (elseBranch : Option (List NodeId)) : Analysis (List Outcome) := do
  ev.visit condition
  let (thenScope, remaining) ← branchScopes condition
  let first ← ev.checkIn thenScope thenBranch
  let (middle, remaining) ← ev.checkElseIfs elseIfs remaining
  let last ← match elseBranch with
    | some body => ev.checkIn remaining body
    | none => pure ⟨remaining, .normal⟩
  return first :: middle ++ [last]

lemma checkIf_eq (condition : NodeId) (thenBranch : List NodeId)
    (elseIfs : List ElseIf) (elseBranch : Option (List NodeId)) :
    ev.checkIf condition thenBranch elseIfs elseBranch =
      ev.ifOutcomes condition thenBranch elseIfs elseBranch >>= rejoinAll := by
  cases elseBranch <;> simp only [checkIf, ifOutcomes, bind_assoc, pure_bind]

/-- The scopes on the paths that leave a switch at its end, and the outcomes of the cases that
return, throw or exit. -/
def switchPaths (subject : NodeId) (cases : List SwitchCase) :
    Analysis (List Scope × List Outcome) := do
  ev.visit subject
  enterLoop
  let (falling, dead) ← ev.checkCases cases none
  let breaks ← leaveLoop
  let hasDefault := cases.any fun case => case.test.isNone
  let skipped ← if hasDefault then pure [] else do pure [← forkCurrent]
  return (breaks ++ falling.toList ++ skipped, dead)

lemma checkSwitch_eq (subject : NodeId) (cases : List SwitchCase) :
    ev.checkSwitch subject cases =
      ev.switchPaths subject cases >>= fun (paths, dead) => rejoin paths dead .exit := by
  simp only [checkSwitch, switchPaths, bind_assoc, pure_bind]
  split <;> simp only [bind_assoc, pure_bind]

/-- The scope in which a handler starts. -/
def catchStart (entry : Scope) (line : Line) (clause : CatchClause) : Analysis Scope := do
  let s ← forkScope entry
  match clause.var with
  | some name =>
    let type ← catchType clause.types
    onStore fun σ => s.declare σ name type .ordinary line
  | none => return s

lemma checkCatches_cons (entry : Scope) (line : Line) (clause : CatchClause)
    (clauses : List CatchClause) :
    ev.checkCatches entry line (clause :: clauses) = (do
      let s ← catchStart entry line clause
      let outcome ← ev.checkIn s clause.body
      let outcomes ← ev.checkCatches entry line clauses
      return outcome :: outcomes) := by
  rw [checkCatches]
  unfold catchStart
  cases clause.var <;> simp only [bind_assoc, pure_bind]

/-- The outcomes of the body and the handlers of a `try`. -/
def tryOutcomes (id : NodeId) (body : List NodeId) (catches : List CatchClause) :
    Analysis (List Outcome) := do
  let line ← lineOf id
  let entry ← forkCurrent
  let first ← ev.checkIn (← forkScope entry) body
  let catchEntry ← onStore (merged entry first.scope)
  let others ← ev.checkCatches catchEntry line catches
  return first :: others

lemma checkTry_eq (id : NodeId) (body : List NodeId)
    (catches : List CatchClause) (finallyBody : Option (List NodeId)) :
    ev.checkTry id body catches finallyBody = (do
      let flow ← rejoinAll (← ev.tryOutcomes id body catches)
      match finallyBody with
      | some stmts =>
        let finallyFlow ← ev.checkAll stmts
        return if finallyFlow.fallsThrough then flow else finallyFlow
      | none => return flow) := by
  cases finallyBody <;> simp only [checkTry, tryOutcomes, bind_assoc, pure_bind]

/-! ## Loops -/

/-- Runs the body of a `for` and its steps. -/
def forBody (step body : List NodeId) : Analysis Flow := do
  let flow ← ev.checkAll body
  ev.visitAll step
  return flow

/-- The scopes in which the body of a `for` starts, and which is left where it does not run. -/
def forScopes (condition : List NodeId) : Analysis (Scope × Scope) :=
  match condition.getLast? with
  | some last => branchScopes last
  | none => do
    let start ← forkCurrent
    let exit ← forkCurrent
    return (start, exit)

/-- The loop of a `for`, and what is left behind it. -/
def forLoop (step body : List NodeId) (scopes : Scope × Scope) : Analysis Flow := do
  enterLoop
  let r ← inScope scopes.1 (ev.forBody step body)
  finishLoop scopes.2 ⟨r.2, r.1⟩ (← leaveLoop)
  return .normal

lemma checkFor_eq (init condition step body : List NodeId) :
    ev.checkFor init condition step body = (do
      ev.visitAll init
      ev.visitAll condition
      ev.forLoop step body (← forScopes condition)) := by
  unfold checkFor forScopes
  refine bind_congr (m := Analysis) fun _ => bind_congr (m := Analysis) fun _ => ?_
  cases condition.getLast? <;> rfl

/-- Marks the variable that a `foreach` goes through as written, where it may change it. -/
def markIterated (subject : NodeId) (byRef : Bool) (line : Line) : Analysis Unit := do
  if byRef then
    match ← varNameAt subject with
    | some name => onVars fun s σ => s.markWritten σ name line
    | none => return

/-- Gives the variables of a `foreach` their values. -/
def bindIteration (key : Option NodeId) (value : NodeId) (byRef : Bool) (line : Line) :
    Analysis Unit := do
  match key with
  | some key => ev.assign key (some (Ty.join .int .string)) line
  | none => pure ()
  ev.assign value none line
  if byRef then markReferenceAt value

/-- Runs the body of a `foreach`, with the scopes that leave the loop early. -/
def foreachBody (body : List NodeId) : Analysis (Flow × List Scope) := do
  enterLoop
  let flow ← ev.checkAll body
  return (flow, ← leaveLoop)

/-- The loop of a `foreach`, and what is left behind it. -/
def foreachLoop (key : Option NodeId) (value : NodeId) (byRef : Bool) (body : List NodeId)
    (line : Line) : Analysis Flow := do
  let exit ← forkCurrent
  let iteration ← forkCurrent
  let r ← inScope iteration (do
    ev.bindIteration key value byRef line
    ev.foreachBody body)
  finishLoop exit ⟨r.2, r.1.1⟩ r.1.2
  return .normal

lemma checkForeach_eq (id subject : NodeId) (key : Option NodeId) (value : NodeId) (byRef : Bool)
    (body : List NodeId) :
    ev.checkForeach id subject key value byRef body = (do
      let line ← lineOf id
      ev.visit subject
      markIterated subject byRef line
      ev.foreachLoop key value byRef body line) := by
  refine bind_congr (m := Analysis) fun line => bind_congr (m := Analysis) fun _ => ?_
  cases byRef with
  | false => cases key <;> simp only [foreachLoop, bindIteration, bind_assoc] <;> rfl
  | true =>
    simp only [markIterated, reduceIte, bind_assoc]
    refine bind_congr (m := Analysis) fun name => ?_
    cases name <;> cases key <;> simp only [foreachLoop, bindIteration, bind_assoc] <;> rfl

/-- Runs the body of a `do`-`while` and evaluates its condition. -/
def doWhileBody (body : List NodeId) (condition : NodeId) : Analysis Flow := do
  let flow ← ev.checkAll body
  ev.visit condition
  return flow

/-- What is left behind a `do`-`while`: the scopes that left it early, and the one in which its
condition failed. -/
def leaveDoWhile (condition : NodeId) (flow : Flow) (breaks : List Scope) : Analysis Flow := do
  if flow == .exit && breaks.isEmpty then return .exit
  let r ← branchScopes condition
  let joined ← onStore (r.2.mergeAll breaks)
  replaceCurrent joined
  return .normal

lemma checkDoWhile_eq (body : List NodeId) (condition : NodeId) :
    ev.checkDoWhile body condition = (do
      enterLoop
      let flow ← ev.doWhileBody body condition
      let breaks ← leaveLoop
      leaveDoWhile condition flow breaks) := by
  simp only [checkDoWhile, doWhileBody, bind_assoc, pure_bind]
  rfl

/-! ## Cases -/

/-- The scope in which a case starts: it joins the case before it, where that falls through. -/
def caseStart : Option Scope → Analysis Scope
  | some previous => do
    let current ← getScope
    onStore (previous.merge current)
  | none => forkCurrent

/-- The cases behind one that ended like this. -/
def casesBehind (cases : List SwitchCase) (outcome : Outcome) :
    Analysis (Option Scope × List Outcome) := do
  if outcome.isLive then ev.checkCases cases (some outcome.scope)
  else
    let r ← ev.checkCases cases none
    return (r.1, if outcome.flow == .exit then outcome :: r.2 else r.2)

lemma checkCases_cons (case : SwitchCase) (cases : List SwitchCase) (falling : Option Scope) :
    ev.checkCases (case :: cases) falling = (do
      ev.visit? case.test
      let start ← caseStart falling
      let outcome ← ev.checkIn start case.body
      ev.casesBehind cases outcome) := by
  cases falling with
  | none => rfl
  | some previous =>
    rfl

/-! ## Nodes -/

/-- What the evaluation of an expression does between entering and leaving its node. -/
def inferInside (id : NodeId) : Analysis (Option Ty) := do
  let type ← match ← exprAt id with
    | some e => ev.inferExpr id e
    | none => pure none
  recordInferred id type

lemma inferNode_eq (id : NodeId) :
    ev.inferNode id = (do
      if id == NodeId.absent then return none
      if (← get).depth ≥ (← read).options.maxDepth.toNat then return none
      modify fun st => { st with depth := st.depth + 1, stack := st.stack.pushNode id }
      let type ← ev.inferInside id
      modify fun st => { st with depth := st.depth - 1, stack := st.stack.popNode }
      return type) := by
  unfold inferNode inferInside recordInferred
  simp only [bind_assoc, pure_bind]
  refine ite_congr rfl (fun _ => rfl) fun _ => ?_
  refine bind_congr (m := Analysis) fun st => bind_congr (m := Analysis) fun cx => ?_
  refine ite_congr rfl (fun _ => rfl) fun _ => ?_
  refine bind_congr (m := Analysis) fun _ => bind_congr (m := Analysis) fun e => ?_
  cases e with
  | none => simp only [bind_assoc, pure_bind]
  | some e =>
    simp only [bind_assoc]
    refine bind_congr (m := Analysis) fun type => ?_
    cases type <;> simp only [bind_assoc, pure_bind]

end Evaluator

section ShortCircuit

open Analysis

/-! ## Short circuits -/

/-- `&&` where `b` holds, `||` where it does not: the right side runs where the left one came out as
`b`. -/
def Evaluator.inferShort (ev : Evaluator) (b : Bool) (id left right : NodeId) :
    Analysis (Option Ty) :=
  if b then ev.inferAnd id left right else ev.inferOr id left right

/-- The scopes of the two outcomes: a copy of the one in which both sides came out as `b`, and the
join of the others.  The scope for the outcome that holds is made first. -/
def shortScopes (b : Bool) (other whenTrue whenFalse : Scope) : Analysis (Scope × Scope) :=
  if b then do
    let whenTrue ← forkScope whenTrue
    let whenFalse ← onStore (merged other whenFalse)
    return (whenTrue, whenFalse)
  else do
    let whenTrue ← onStore (merged other whenTrue)
    let whenFalse ← forkScope whenFalse
    return (whenTrue, whenFalse)

lemma Evaluator.inferShort_eq (ev : Evaluator) (b : Bool) (id left right : NodeId) :
    ev.inferShort b id left right = (do
      ev.visit left
      let branches ← branchScopes left
      let (_, after) ← inScope (if b then branches.1 else branches.2) (ev.infer right)
      let table ← getTable
      let (whenTrue, whenFalse) ← shortScopes b (if b then branches.2 else branches.1)
        ((table.whenTrue? right).getD after) ((table.whenFalse? right).getD after)
      mergeIntoCurrent after
      if (table.assertions.get? left).isSome || (table.assertions.get? right).isSome then
        modifyTable fun t => t.setAssertions id ⟨some whenTrue, some whenFalse⟩
      return some .bool) := by
  cases b <;> rfl

end ShortCircuit

end FlowTyping
