import FlowTyping.Analysis.Evaluator
import FlowTyping.Symbol.Collect
import FlowTyping.Ty.Narrow

/-!
# Narrowing by conditions

A test on a variable or a property chain says something about its type on either outcome.  The
scopes that hold on the two outcomes are attached to the test, and branches start from them.
-/

namespace FlowTyping

/-- Something whose type can be narrowed. -/
inductive Reference where
  | var (name : String)
  | chain (key : String)
  deriving DecidableEq, Repr

/-- Properties in the longest chain that is followed. -/
def maxChain : Nat := 8

namespace Arena

/-- The names in a property chain, outermost object first; at most `budget` properties. -/
def chainNames? (arena : Arena) : (budget : Nat) → NodeId → Option (List String)
  | budget, id =>
    match arena.expr? id with
    | some (.var name) => some [name]
    | some (.prop object (.identifier property) false) =>
      match budget with
      | 0 => none
      | budget + 1 => (chainNames? arena budget object).map (· ++ [property])
    | _ => none

def reference? (arena : Arena) (id : NodeId) : Option Reference :=
  match arena.expr? id with
  | some (.var name) => some (.var name)
  | some (.prop _ (.identifier _) false) =>
    (arena.chainNames? maxChain id).map fun names => .chain ("->".intercalate names)
  | _ => none

/-- The key of the property chain that a node is. -/
def chainKey? (arena : Arena) (id : NodeId) : Option String :=
  match arena.reference? id with
  | some (.chain key) => some key
  | _ => none

end Arena

/-- The built-in type that a predicate function tests for. -/
def testedPrimitive? (function : String) : Option Primitive :=
  match Name.key function with
  | "is_int" | "is_integer" | "is_long" => some .int
  | "is_float" | "is_double" => some .float
  | "is_string" => some .string
  | "is_bool" => some .bool
  | "is_array" => some .array
  | "is_null" => some .null
  | "is_object" => some .object
  | "is_callable" => some .callable
  | _ => none

/-- Which outcome of a test proves that the variable is bound. -/
inductive Defines where
  | neither
  | whenTrue
  | whenFalse
  deriving DecidableEq, Repr

/-- Narrows a reference in a scope; `define` says that the reference is bound. -/
def Reference.narrowIn (r : Reference) (type : Option Ty) (define : Bool) (line : Line)
    (s : Scope) (σ : Store) : Scope × Store :=
  match r, type with
  | .var name, some t => if define || s.contains name then s.narrow σ name t line else (s, σ)
  | .var name, none =>
    if define then
      let (_, s, σ) := s.ensure σ name line
      (s, σ)
    else (s, σ)
  | .chain key, some t => (s.setChain key (some t), σ)
  | .chain _, none => (s, σ)

namespace Analysis

/-- The scope on one outcome of a test; none where the test says nothing. -/
def narrowedScope (r : Reference) (type : Option Ty) (define : Bool) (line : Line) :
    Analysis (Option Scope) := do
  if type.isSome || define then
    let fork ← forkCurrent
    some <$> onStore (r.narrowIn type define line fork)
  else return none

/-- Attaches to `node` the scopes on either outcome of a test. -/
def attachNarrowing (node : NodeId) (r : Reference) (result : Narrowing) (defines : Defines) :
    Analysis Unit := do
  if result.isEmpty && defines == .neither then return
  let line ← lineOf node
  let whenTrue ← narrowedScope r result.whenTrue (defines == .whenTrue) line
  let whenFalse ← narrowedScope r result.whenFalse (defines == .whenFalse) line
  modifyTable fun t => t.setAssertions node ⟨whenTrue, whenFalse⟩

/-- The current type of a reference that was evaluated at `target`. -/
def referenceType (r : Reference) (target : NodeId) : Analysis (Option Ty) := do
  let scope ← getScope
  match r with
  | .var name => return scope.typeOf? (← getStore) name
  | .chain key => return (scope.chain? key).or ((← getTable).types.get? target)

/-- Narrows the reference at `target`, if it is one, and attaches the result to `node`. -/
def narrowReference (node target : NodeId) (guard : Guard) (defines : Defines) :
    Analysis Unit := do
  match (← read).arena.reference? target with
  | some r =>
    let current ← referenceType r target
    attachNarrowing node r (Ty.narrow current guard) defines
  | none => return

/-- Whether the node around `id` looks at its truth value. -/
def parentExpectsBool (id : NodeId) : Analysis Bool := do
  let arena := (← read).arena
  match (← getStack).parent?.bind arena.get? with
  | some ⟨_, .stmt (.ifStmt condition _ elseIfs _)⟩ =>
    return condition == id || elseIfs.any fun branch => branch.condition == id
  | some ⟨_, .stmt (.whileStmt condition _)⟩ => return condition == id
  | some ⟨_, .stmt (.doWhileStmt _ condition)⟩ => return condition == id
  | some ⟨_, .stmt (.forStmt _ condition _ _)⟩ => return condition.contains id
  | some ⟨_, .expr (.binary op _ _)⟩ => return op.isShortCircuit || op == .logicalXor
  | some ⟨_, .expr (.unary .not _)⟩ => return true
  | some ⟨_, .expr (.ternary condition _ _)⟩ => return condition == id
  | some ⟨_, .expr (.cast .bool _)⟩ => return true
  | _ => return false

/-- A reference that is itself a condition is not null where the condition holds. -/
def narrowTruthiness (id : NodeId) (type : Option Ty) : Analysis Unit := do
  if (← parentExpectsBool id) && ((← getTable).assertions.get? id).isNone then
    match (← read).arena.reference? id with
    | some r => attachNarrowing id r (Ty.narrow type .truthy) .neither
    | none => return

/-- The test that a comparison with null is, and whether it is negated. -/
def nullGuard? : BinaryOp → Option (Guard × Bool)
  | .identical => some (.isNull, false)
  | .notIdentical => some (.isNull, true)
  | .equal => some (.looseNull, false)
  | .notEqual => some (.looseNull, true)
  | _ => none

def comparedWithNull? (arena : Arena) (left right : NodeId) : Option NodeId :=
  if arena.isNullConst right then some left
  else if arena.isNullConst left then some right
  else none

def narrowNullComparison (node : NodeId) (op : BinaryOp) (left right : NodeId) :
    Analysis Unit := do
  let cx ← read
  match comparedWithNull? cx.arena left right, nullGuard? op with
  | some target, some (guard, negated) =>
    if guard == .looseNull && !cx.options.narrowLooseNull then return
    match cx.arena.reference? target with
    | some r =>
      let current ← referenceType r target
      let result := Ty.narrow current guard
      attachNarrowing node r (if negated then result.swapped else result) .neither
    | none => return
  | _, _ => return

/-- Narrows the only argument of a predicate such as `is_int`. -/
def narrowPredicate (node : NodeId) (function : String) (args : List NodeId) :
    Analysis Unit := do
  match testedPrimitive? function, args with
  | some kind, [target] => narrowReference node target (.primitive kind) .neither
  | _, _ => return

/-- Gives a condition the scopes of the condition it stands for. -/
def forwardAssertions (source target : NodeId) : Analysis Unit := do
  match (← getTable).assertions.get? source with
  | some a =>
    let copy ← onStore a.fork
    modifyTable fun t => t.setAssertions target copy
  | none => return

end Analysis

namespace Evaluator

open Analysis

variable (ev : Evaluator)

def inferInstanceOf (id expr : NodeId) (cls : ClassRef) : Analysis (Option Ty) := do
  ev.visit expr
  match cls with
  | .named name =>
    match ← resolveClass name with
    | some className => narrowReference id expr (.instanceOf className) .neither
    | none => pure ()
  | .dynamic clsExpr => ev.visit clsExpr
  return some .bool

/-- `isset(…)`; only the form with one variable narrows. -/
def inferIsSet (id : NodeId) (vars : List NodeId) : Analysis (Option Ty) := do
  ev.visitAll vars
  match vars with
  | [target] => narrowReference id target .isSet .whenTrue
  | _ => pure ()
  return some .bool

def inferEmpty (id expr : NodeId) : Analysis (Option Ty) := do
  ev.visit expr
  narrowReference id expr .empty .whenFalse
  return some .bool

end Evaluator

end FlowTyping
