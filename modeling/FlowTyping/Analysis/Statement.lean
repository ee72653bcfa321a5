import FlowTyping.Analysis.Assignment
import FlowTyping.Analysis.Function

/-!
# Statements

Branches run in forks of the current scope, and the scopes of those that fall through are joined
behind them.  A branch that ends in `return`, `throw` or `exit` does not rejoin, which is what makes
`if ($x === null) { return; }` narrow `$x` for the code behind it.
-/

namespace FlowTyping

/-- The scope at the end of a branch, and how control leaves it. -/
structure Outcome where
  scope : Scope
  flow : Flow

def Outcome.isLive (o : Outcome) : Bool :=
  o.flow.fallsThrough

namespace Analysis

/-- Replaces the current scope by the join of `paths`, and takes over the reads of the `dead`
branches.  The result is the flow behind the branches: `fallback` where nothing falls through and
no branch jumps. -/
def rejoin (paths : List Scope) (dead : List Outcome) (fallback : Flow) : Analysis Flow := do
  absorbAll (dead.map Outcome.scope)
  match ← onStore (Scope.joinAll paths) with
  | some joined =>
    replaceCurrent joined
    return .normal
  | none => return if dead.any fun o => o.flow == .jump then .jump else fallback

def rejoinAll (outcomes : List Outcome) : Analysis Flow :=
  let live := outcomes.filter Outcome.isLive
  let dead := outcomes.filter fun o => !o.isLive
  rejoin (live.map Outcome.scope) dead .exit

/-- The scope behind a loop: where the condition failed, at the end of the body, or at a place that
leaves the body early. -/
def finishLoop (exit : Scope) (body : Outcome) (breaks : List Scope) : Analysis Unit := do
  let joined ← onStore fun σ =>
    let (joined, σ) :=
      if body.isLive then exit.merge body.scope σ else (exit, exit.absorbUsage body.scope σ)
    breaks.foldl (fun (joined, σ) s => joined.merge s σ) (joined, σ)
  replaceCurrent joined

/-- The type of the variable that a handler binds. -/
def catchType (types : List String) : Analysis (Option Ty) := do
  let stack ← getStack
  match types.filterMap stack.resolveClass? with
  | [] => return none
  | classes => return some (Ty.unionOf (classes.map Ty.ofClass))

/-- Applies the type that a comment declares for the variable assigned at `expr`, or for the variable
that the comment names. -/
def applyVarDoc (id expr : NodeId) (doc : String) : Analysis Unit := do
  let assigned ← match ← exprAt expr with
    | some (.assign target _) => varNameAt target
    | _ => pure none
  let declared := match assigned with
    | some name => (Docblock.varTypeFor? doc name).map fun t => (t, name)
    | none => (Docblock.varTag? doc).bind fun (t, name) => name.map fun n => (t, n)
  match declared with
  | some (t, name) =>
    let t ← resolveInClass t
    let line ← lineOf id
    onScope fun s σ => s.overrideType σ name t line
  | none => return

/-- Brings variables of the file scope into the current one. -/
def bindGlobals (line : Line) : List String → Analysis Unit
  | [] => pure ()
  | name :: names => do
    let type := (← getStack).root.typeOf? (← getStore) name
    onScope fun s σ => s.declare σ name type .global line
    bindGlobals line names

end Analysis

namespace Evaluator

open Analysis

variable (ev : Evaluator)

def checkIn (s : Scope) (stmts : List NodeId) : Analysis Outcome := do
  let (flow, after) ← inScope s (ev.checkAll stmts)
  return ⟨after, flow⟩

/-- Runs the `elseif` branches from the scope where every earlier condition failed.  Returns their
outcomes and the scope where all conditions failed. -/
def checkElseIfs : List ElseIf → Scope → Analysis (List Outcome × Scope)
  | [], remaining => pure ([], remaining)
  | branch :: branches, remaining => do
    let ((taken, skipped), _) ← inScope remaining do
      ev.visit branch.condition
      branchScopes branch.condition
    let outcome ← ev.checkIn taken branch.body
    let (outcomes, remaining) ← checkElseIfs branches skipped
    return (outcome :: outcomes, remaining)

def checkIf (condition : NodeId) (thenBranch : List NodeId) (elseIfs : List ElseIf)
    (elseBranch : Option (List NodeId)) : Analysis Flow := do
  ev.visit condition
  let (thenScope, remaining) ← branchScopes condition
  let first ← ev.checkIn thenScope thenBranch
  let (middle, remaining) ← ev.checkElseIfs elseIfs remaining
  let last ← match elseBranch with
    | some body => ev.checkIn remaining body
    | none => pure ⟨remaining, .normal⟩
  rejoinAll (first :: middle ++ [last])

def checkWhile (condition : NodeId) (body : List NodeId) : Analysis Flow := do
  ev.visit condition
  let (bodyScope, exit) ← branchScopes condition
  enterLoop
  let outcome ← ev.checkIn bodyScope body
  finishLoop exit outcome (← leaveLoop)
  return .normal

/-- `do { … } while (c)`: the body runs at least once, in the current scope. -/
def checkDoWhile (body : List NodeId) (condition : NodeId) : Analysis Flow := do
  enterLoop
  let flow ← ev.checkAll body
  ev.visit condition
  let breaks ← leaveLoop
  if flow == .exit && breaks.isEmpty then return .exit
  let (_, exit) ← branchScopes condition
  let joined ← onStore fun σ => breaks.foldl (fun (joined, σ) s => joined.merge s σ) (exit, σ)
  replaceCurrent joined
  return .normal

/-- `for (…; …; …) { … }`: of the conditions the last one decides. -/
def checkFor (init condition step body : List NodeId) : Analysis Flow := do
  ev.visitAll init
  ev.visitAll condition
  let (bodyScope, exit) ← match condition.getLast? with
    | some last => branchScopes last
    | none => do
      let bodyScope ← forkCurrent
      let exit ← forkCurrent
      pure (bodyScope, exit)
  enterLoop
  let (flow, after) ← inScope bodyScope do
    let flow ← ev.checkAll body
    ev.visitAll step
    return flow
  finishLoop exit ⟨after, flow⟩ (← leaveLoop)
  return .normal

/-- `foreach (… as …) { … }`: no iteration at all leaves the scope as it is. -/
def checkForeach (id subject : NodeId) (key : Option NodeId) (value : NodeId) (byRef : Bool)
    (body : List NodeId) : Analysis Flow := do
  let line ← lineOf id
  ev.visit subject
  if byRef then
    match ← varNameAt subject with
    | some name => onVars fun s σ => s.markWritten σ name line
    | none => pure ()
  let exit ← forkCurrent
  let iteration ← forkCurrent
  let ((flow, breaks), after) ← inScope iteration do
    match key with
    | some key => ev.assign key (some (Ty.join .int .string)) line
    | none => pure ()
    ev.assign value none line
    if byRef then markReferenceAt value
    enterLoop
    let flow ← ev.checkAll body
    return (flow, ← leaveLoop)
  finishLoop exit ⟨after, flow⟩ breaks
  return .normal

/-- Runs the cases of a switch.  `falling` is the scope at the end of the case before, where that
falls through.  Returns the scope at the end of the last case, where that falls through, and the
branches that return, throw or exit. -/
def checkCases : List SwitchCase → (falling : Option Scope) →
    Analysis (Option Scope × List Outcome)
  | [], falling => pure (falling, [])
  | case :: cases, falling => do
    ev.visit? case.test
    let start ← match falling with
      | some previous => do
        let current ← getScope
        onStore (previous.merge current)
      | none => forkCurrent
    let outcome ← ev.checkIn start case.body
    if outcome.isLive then checkCases cases (some outcome.scope)
    else
      let (falling, dead) ← checkCases cases none
      return (falling, if outcome.flow == .exit then outcome :: dead else dead)

/-- `switch`: a case falls into the next one until a `break`. -/
def checkSwitch (subject : NodeId) (cases : List SwitchCase) : Analysis Flow := do
  ev.visit subject
  enterLoop
  let (falling, dead) ← ev.checkCases cases none
  let breaks ← leaveLoop
  let hasDefault := cases.any fun case => case.test.isNone
  let skipped ← if hasDefault then pure [] else do pure [← forkCurrent]
  rejoin (breaks ++ falling.toList ++ skipped) dead .exit

/-- Runs the handlers of a `try`, each from a copy of `entry`. -/
def checkCatches (entry : Scope) (line : Line) : List CatchClause → Analysis (List Outcome)
  | [] => pure []
  | clause :: clauses => do
    let s ← forkScope entry
    let s ← match clause.var with
      | some name => do
        let type ← catchType clause.types
        onStore fun σ => s.declare σ name type .ordinary line
      | none => pure s
    let outcome ← ev.checkIn s clause.body
    let outcomes ← checkCatches entry line clauses
    return outcome :: outcomes

/-- `try`: an exception may be thrown anywhere in the body. -/
def checkTry (id : NodeId) (body : List NodeId) (catches : List CatchClause)
    (finallyBody : Option (List NodeId)) : Analysis Flow := do
  let line ← lineOf id
  let entry ← forkCurrent
  let first ← ev.checkIn (← forkScope entry) body
  let catchEntry ← onStore (Scope.merged entry first.scope)
  let others ← ev.checkCatches catchEntry line catches
  let flow ← rejoinAll (first :: others)
  match finallyBody with
  | some stmts =>
    let finallyFlow ← ev.checkAll stmts
    return if finallyFlow.fallsThrough then flow else finallyFlow
  | none => return flow

def unset (target : NodeId) : Analysis Unit := do
  match ← exprAt target with
  | some (.var name) => onScope fun s σ => (s.remove name, σ)
  | some (.prop object _ _) =>
    ev.visit object
    assignChain target none
  | _ => ev.visit target

def unsetAll : List NodeId → Analysis Unit
  | [] => pure ()
  | target :: targets => do
    ev.unset target
    unsetAll targets

/-- Static variables start with their defaults, or with null. -/
def bindStatics (line : Line) : List StaticVar → Analysis Unit
  | [] => pure ()
  | v :: vs => do
    let type ← match v.default with
      | some default => ev.infer default
      | none => pure (some Ty.null)
    onScope fun s σ => s.declare σ v.name type .static line
    bindStatics line vs

def checkMembers : List NodeId → Analysis Unit
  | [] => pure ()
  | member :: members => do
    let _ ← ev.check member
    checkMembers members

def checkExprStmt (id expr : NodeId) (doc : Option String) : Analysis Flow := do
  ev.visit expr
  match doc with
  | some doc => applyVarDoc id expr doc
  | none => pure ()
  match ← exprAt expr with
  | some (.exit _) | some (.throwExpr _) => return .exit
  | _ => return .normal

def checkJump : Analysis Flow := do
  recordBreak (← forkCurrent)
  return .jump

def checkDeclare (strictTypes : Option Bool) : Analysis Flow := do
  if strictTypes == some true then
    onScope fun s σ => ({ s with flags := { s.flags with isStrict := true } }, σ)
  return .normal

def thisType (isStatic : Bool) : Analysis (Option Ty) := do
  if isStatic then return none
  return (← getStack).class?.map fun c => Ty.ofClass c.name

def checkStmt (id : NodeId) : Stmt → Analysis Flow
  | .sourceFile _ stmts | .block stmts => ev.checkAll stmts
  | .exprStmt expr doc => ev.checkExprStmt id expr doc
  | .echoStmt exprs => do
    ev.visitAll exprs
    return .normal
  | .returnStmt expr => do
    ev.visit? expr
    return .exit
  | .ifStmt condition thenBranch elseIfs elseBranch =>
    ev.checkIf condition thenBranch elseIfs elseBranch
  | .whileStmt condition body => ev.checkWhile condition body
  | .doWhileStmt body condition => ev.checkDoWhile body condition
  | .forStmt init condition step body => ev.checkFor init condition step body
  | .foreachStmt subject key value byRef body => ev.checkForeach id subject key value byRef body
  | .switchStmt subject cases => ev.checkSwitch subject cases
  | .tryStmt body catches finallyBody => ev.checkTry id body catches finallyBody
  | .breakStmt | .continueStmt => checkJump
  | .globalStmt names => do
    bindGlobals (← lineOf id) names
    return .normal
  | .staticStmt vars => do
    ev.bindStatics (← lineOf id) vars
    return .normal
  | .unsetStmt vars => do
    ev.unsetAll vars
    return .normal
  | .declareStmt strictTypes => checkDeclare strictTypes
  | .function fn => do
    ev.checkFunction id fn.params fn.body fn.docComment none false
    return .normal
  | .classDecl cls => do
    modifyStack fun st => st.pushClass ⟨cls.name, cls.extendedClass⟩
    ev.checkMembers cls.members
    modifyStack Stack.popClass
    return .normal
  | .method fn => do
    match fn.body with
    | some body =>
      ev.checkFunction id fn.params body fn.docComment (← thisType fn.isStatic) fn.isStatic
    | none => pure ()
    return .normal
  | .property _ | .classConst .. | .enumCase .. | .traitUse _ => return .normal

end Evaluator

end FlowTyping
