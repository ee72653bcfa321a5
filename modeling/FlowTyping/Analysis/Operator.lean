import FlowTyping.Analysis.Narrowing

/-!
# Operators

* `Ty.ofBinary`: the type of a binary operation from the types of its operands.
* `Evaluator.inferBinary`, `Evaluator.inferUnary`: operators, with the scopes that `&&`, `||` and
  `!` imply.
-/

namespace FlowTyping

namespace Ty

/-- Whether a type is known to be a given built-in type. -/
def isKnown (kind : Primitive) : Option Ty → Bool
  | some (.primitive k) => k == kind
  | _ => false

def isUnknown : Option Ty → Bool
  | some t => t.isMixed
  | none => true

def ofArithmetic (isSum : Bool) (left right : Option Ty) : Ty :=
  if isSum && (isKnown .array left || isKnown .array right) then array
  else if isKnown .float left || isKnown .float right then float
  else if isKnown .int left && isKnown .int right then int
  else if isUnknown left || isUnknown right then mixed
  else join int float

def ofBinary (op : BinaryOp) (left right : Option Ty) : Option Ty :=
  match op with
  | .coalesce => join? (left.map stripNull) right
  | .spaceship | .shiftLeft | .shiftRight | .mod => some int
  | .bitAnd | .bitOr | .bitXor =>
    some (if isKnown .int left && isKnown .int right then int else join int string)
  | .concat => some string
  | .add => some (ofArithmetic true left right)
  | .sub | .mul | .pow => some (ofArithmetic false left right)
  | .div => some (join int float)
  | .boolAnd | .boolOr | .logicalAnd | .logicalOr | .logicalXor | .equal | .notEqual
  | .identical | .notIdentical | .smaller | .smallerOrEqual | .greater | .greaterOrEqual =>
    some bool

def ofSigned (operand : Option Ty) : Ty :=
  if isKnown .int operand then int
  else if isKnown .float operand then float
  else join int float

/-- The type of a value after it is counted up or down by one. -/
def ofStep (increment : Bool) (t : Ty) : Ty :=
  match t with
  | .primitive .int => int
  | .primitive .float => float
  | .primitive .null => if increment then int else null
  | .primitive .string => unionOf [string, int, float]
  | _ => join int float

end Ty

namespace Evaluator

open Analysis

variable (ev : Evaluator)

/-- `a && b`: `b` runs where `a` held.  The whole holds where both held, and fails where either
failed. -/
def inferAnd (id left right : NodeId) : Analysis (Option Ty) := do
  ev.visit left
  let (leftTrue, leftFalse) ← branchScopes left
  let (_, after) ← inScope leftTrue (ev.infer right)
  let table ← getTable
  let narrows := (table.assertions.get? left).isSome || (table.assertions.get? right).isSome
  let whenTrue ← forkScope ((table.whenTrue? right).getD after)
  let whenFalse ← onStore (Scope.merged leftFalse ((table.whenFalse? right).getD after))
  mergeIntoCurrent after
  if narrows then modifyTable fun t => t.setAssertions id ⟨some whenTrue, some whenFalse⟩
  return some .bool

/-- `a || b`: `b` runs where `a` failed.  The whole holds where either held, and fails where both
failed. -/
def inferOr (id left right : NodeId) : Analysis (Option Ty) := do
  ev.visit left
  let (leftTrue, leftFalse) ← branchScopes left
  let (_, after) ← inScope leftFalse (ev.infer right)
  let table ← getTable
  let narrows := (table.assertions.get? left).isSome || (table.assertions.get? right).isSome
  let whenTrue ← onStore (Scope.merged leftTrue ((table.whenTrue? right).getD after))
  let whenFalse ← forkScope ((table.whenFalse? right).getD after)
  mergeIntoCurrent after
  if narrows then modifyTable fun t => t.setAssertions id ⟨some whenTrue, some whenFalse⟩
  return some .bool

def inferBinary (id : NodeId) (op : BinaryOp) (left right : NodeId) : Analysis (Option Ty) :=
  match op with
  | .boolAnd | .logicalAnd => ev.inferAnd id left right
  | .boolOr | .logicalOr => ev.inferOr id left right
  | op => do
    let leftType ← ev.infer left
    let rightType ← ev.infer right
    narrowNullComparison id op left right
    return Ty.ofBinary op leftType rightType

/-- `!e`: what `e` implies, with the outcomes exchanged. -/
def negate (id operand : NodeId) (type : Option Ty) : Analysis Unit := do
  match (← getTable).assertions.get? operand with
  | some a =>
    let copy ← onStore a.fork
    modifyTable fun t => t.setAssertions id copy.swapped
  | none =>
    match (← read).arena.reference? operand with
    | some r => attachNarrowing id r (Ty.narrow type .truthy).swapped .neither
    | none => return

def inferUnary (id : NodeId) (op : UnaryOp) (operand : NodeId) : Analysis (Option Ty) := do
  let type ← ev.infer operand
  match op with
  | .not =>
    negate id operand type
    return some .bool
  | .minus | .plus => return some (Ty.ofSigned type)
  | .bitNot => return some .int

end Evaluator

end FlowTyping
