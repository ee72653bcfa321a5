import FlowTyping.Analysis.Call
import FlowTyping.Analysis.Conditional
import FlowTyping.Analysis.Statement

/-!
# The engine

The rules of all kinds of nodes, tied together into one evaluator.

* `Evaluator.step`: one level of evaluation, given the level below.
* `evaluator`: the evaluator with a budget of nested nodes.

References between nodes may form cycles, so evaluation has a budget of nested steps.  Expressions
are cut off at a depth anyway; between two expressions on a path there is one step for each node and
role at most, unless statements or targets are nested in a cycle.  `SourceUnit.budget` is therefore
enough wherever evaluation comes to an end at all.
-/

namespace FlowTyping

namespace Evaluator

open Analysis

variable (ev : Evaluator)

def inferExpr (id : NodeId) : Expr → Analysis (Option Ty)
  | .var name => inferVar id name
  | .dynamicVar name => ev.inferDynamicVar name
  | .int _ => return some .int
  | .float _ => return some .float
  | .string _ => return some .string
  | .interpolated parts => do
    ev.visitAll parts
    return some .string
  | .const name => return (← read).constantType? name
  | .classConst cls name => ev.inferClassConst cls name
  | .array items => ev.inferArray items
  | .binary op left right => ev.inferBinary id op left right
  | .unary op operand => ev.inferUnary id op operand
  | .incDec op target => ev.inferIncDec id op target
  | .assign target value => ev.inferAssign id target value
  | .assignRef target value => ev.inferAssignRef id target value
  | .compoundAssign op target value => ev.inferCompoundAssign id op target value
  | .list items => ev.inferList items
  | .prop object name nullsafe => ev.inferProp id object name nullsafe
  | .staticProp cls name => ev.inferStaticProp cls name
  | .dim base index => ev.inferDim base index
  | .call callee args => ev.inferCall id callee args
  | .methodCall object name args nullsafe => ev.inferMethodCall id object name args nullsafe
  | .staticCall cls name args => ev.inferStaticCall id cls name args
  | .new cls args => ev.inferNew id cls args
  | .closure fn => ev.inferClosure id fn
  | .arrow fn => ev.inferArrow id fn
  | .ternary condition ifTrue ifFalse => ev.inferTernary condition ifTrue ifFalse
  | .matchExpr subject arms => ev.inferMatch subject arms
  | .instanceOf expr cls => ev.inferInstanceOf id expr cls
  | .isSet vars => ev.inferIsSet id vars
  | .empty expr => ev.inferEmpty id expr
  | .cast kind expr => ev.inferCast id kind expr
  | .clone expr => ev.infer expr
  | .print expr => do
    ev.visit expr
    return some .int
  | .exit expr => do
    ev.visit? expr
    return none
  | .suppress expr => ev.inferSuppress id expr
  | .includeFile expr => ev.inferInclude expr
  | .throwExpr expr => do
    ev.visit expr
    return none

/-- Evaluates an expression: nothing is known of a reference to no node, of a statement, and of an
expression that is nested too deep. -/
def inferNode (id : NodeId) : Analysis (Option Ty) := do
  if id == NodeId.absent then return none
  if (← get).depth ≥ (← read).options.maxDepth.toNat then return none
  modify fun st => { st with depth := st.depth + 1, stack := st.stack.pushNode id }
  let type ← match ← exprAt id with
    | some e => ev.inferExpr id e
    | none => pure none
  match type with
  | some t => modifyTable fun table => table.setType id t
  | none => pure ()
  recordVisit id type
  modify fun st => { st with depth := st.depth - 1, stack := st.stack.popNode }
  return type

/-- Checks a statement; an expression in the place of a statement is evaluated. -/
def checkNode (id : NodeId) : Analysis Flow := do
  match (← read).arena.stmt? id with
  | none =>
    ev.visit id
    return .normal
  | some stmt =>
    modifyStack fun st => st.pushNode id
    let flow ← ev.checkStmt id stmt
    recordVisit id none
    modifyStack Stack.popNode
    return flow

def step : Evaluator where
  infer := ev.inferNode
  check := ev.checkNode
  assign := ev.assignTo
  writeInto := ev.writeIntoBase
  compact := ev.compactArg

end Evaluator

def evaluator (budget : Nat) : Evaluator where
  infer id := match budget with
    | 0 => Analysis.exhausted
    | n + 1 => (evaluator n).inferNode id
  check id := match budget with
    | 0 => Analysis.exhausted
    | n + 1 => (evaluator n).checkNode id
  assign id type line := match budget with
    | 0 => Analysis.exhausted
    | n + 1 => (evaluator n).assignTo id type line
  writeInto id line := match budget with
    | 0 => Analysis.exhausted
    | n + 1 => (evaluator n).writeIntoBase id line
  compact id := match budget with
    | 0 => Analysis.exhausted
    | n + 1 => (evaluator n).compactArg id

def Evaluator.checkFile (ev : Evaluator) (root : NodeId) : Analysis Unit := do
  match (← read).arena.stmt? root with
  | some (.sourceFile _ stmts) =>
    Analysis.modifyStack fun st => st.pushNode root
    let _ ← ev.checkAll stmts
    Analysis.modifyStack Stack.popNode
  | some _ =>
    let _ ← ev.check root
  | none => return

def State.initial (options : Options) : State :=
  let flags : ScopeFlags := { isGlobal := true, isStrict := options.strictTypes }
  let (root, store) := Scope.addSuperglobals options.superglobals { flags } {}
  { store, stack := { root } }

/-- A budget of nested steps that evaluation stays within wherever it comes to an end. -/
def SourceUnit.budget (unit : SourceUnit) (options : Options) : Nat :=
  (options.maxDepth.toNat + 1) * (2 * unit.arena.size + 4)

/-- Analyses a file with a given budget; none when the budget is used up. -/
def SourceUnit.analyzeUpTo (unit : SourceUnit) (index : Index) (options : Options)
    (budget : Nat) : Option State :=
  (((evaluator budget).checkFile unit.root).run ⟨unit.arena, index, options⟩).run
    (State.initial options) |>.map Prod.snd

/-- Analyses a file; none when its nodes are nested in a cycle that has no end. -/
def SourceUnit.analyze (unit : SourceUnit) (index : Index) (options : Options) : Option State :=
  unit.analyzeUpTo index options (unit.budget options)

end FlowTyping
