import FlowTyping.Analysis.Narrowing

/-!
# Literals, conditionals and casts

* `Evaluator.inferTernary`, `Evaluator.inferMatch`: expressions that choose between others.
* `Evaluator.inferArray`, `Evaluator.inferCast`, `Evaluator.inferInclude`: the remaining kinds.
-/

namespace FlowTyping

namespace Evaluator

open Analysis

variable (ev : Evaluator)

/-- Evaluates the items of an array literal; an item by reference is bound without being read. -/
def arrayItems : List ArrayItem → Analysis Unit
  | [] => pure ()
  | item :: items => do
    ev.visit? item.key
    match ← varNameAt item.value with
    | some name =>
      if item.byRef then
        let line ← lineOf item.value
        onScope fun s σ => s.assign σ name none line
        onVars fun s σ => s.markByReference σ name
      else ev.visit item.value
    | none => ev.visit item.value
    arrayItems items

def inferArray (items : List ArrayItem) : Analysis (Option Ty) := do
  ev.arrayItems items
  return some .array

/-- `c ? a : b`, or `c ?: b`, which gives `c` itself where it holds. -/
def inferTernary (condition : NodeId) (ifTrue : Option NodeId) (ifFalse : NodeId) :
    Analysis (Option Ty) := do
  let conditionType ← ev.infer condition
  let (trueScope, falseScope) ← branchScopes condition
  match ifTrue with
  | some ifTrue =>
    let (trueType, trueAfter) ← inScope trueScope (ev.infer ifTrue)
    let (falseType, falseAfter) ← inScope falseScope (ev.infer ifFalse)
    replaceCurrent (← onStore (Scope.merged trueAfter falseAfter))
    return Ty.join? (trueType.map .stripNull) falseType
  | none =>
    let (falseType, falseAfter) ← inScope falseScope (ev.infer ifFalse)
    mergeIntoCurrent falseAfter
    return Ty.join? (conditionType.map .stripNull) falseType

/-- What the arms of a match come to. -/
structure MatchOutcome where
  types : List (Option Ty) := []
  rejoining : List Scope := []
  terminated : List Scope := []

/-- Evaluates the arms of a match in order.  A single condition narrows its arm, as in
`match (true)`. -/
def matchArms : List MatchArm → MatchOutcome → Analysis MatchOutcome
  | [], outcome => pure outcome
  | arm :: arms, outcome => do
    let conditions := arm.conditions.getD []
    ev.visitAll conditions
    let armScope ← match conditions with
      | [condition] => do pure (← branchScopes condition).1
      | _ => forkCurrent
    let (type, after) ← inScope armScope (ev.infer arm.body)
    match ← exprAt arm.body with
    | some (.throwExpr _) =>
      matchArms arms { outcome with terminated := outcome.terminated ++ [after] }
    | _ =>
      matchArms arms
        { outcome with
          types := outcome.types ++ [type]
          rejoining := outcome.rejoining ++ [after] }

/-- The union of the types; none where there is none or one is unknown. -/
def unionOfKnown (types : List (Option Ty)) : Option Ty := do
  match ← types.mapM id with
  | [] => none
  | known => some (Ty.unionOf known)

def inferMatch (subject : NodeId) (arms : List MatchArm) : Analysis (Option Ty) := do
  ev.visit subject
  let outcome ← ev.matchArms arms {}
  match ← onStore (Scope.joinAll outcome.rejoining) with
  | some joined => replaceCurrent joined
  | none => pure ()
  absorbAll outcome.terminated
  return unionOfKnown outcome.types

/-- A cast; a cast to a truth value implies what its operand implies. -/
def inferCast (id : NodeId) (kind : CastKind) (expr : NodeId) : Analysis (Option Ty) := do
  ev.visit expr
  match kind with
  | .int => return some .int
  | .float => return some .float
  | .string => return some .string
  | .array => return some .array
  | .object => return some .object
  | .unset => return some .null
  | .bool =>
    forwardAssertions expr id
    return some .bool

def inferSuppress (id expr : NodeId) : Analysis (Option Ty) := do
  let type ← ev.infer expr
  forwardAssertions expr id
  return type

def inferInclude (expr : NodeId) : Analysis (Option Ty) := do
  ev.visit expr
  onScope fun s σ => (s.markDynamic, σ)
  return some .mixed

end Evaluator

end FlowTyping
