import FlowTyping.Analysis.State
import FlowTyping.Diagnostic

/-!
# Checks of variables

Checks look at what an analysis passed and report what is wrong with it.  They cannot influence the
analysis.

* `Check`: the checks by name, and what each finds.
-/

namespace FlowTyping

/-- How the value of an operand is looked at by the expression around it. -/
inductive Look where
  | existence
  /-- As a part of what is looked at by the next expression around. -/
  | asBase
  | value
  deriving DecidableEq, Repr

/-- How `child` is looked at by `parent`: `isset`, `empty` and the left side of `??` test existence,
and an element or property is looked at as its base is. -/
def Arena.look (arena : Arena) (child parent : NodeId) : Look :=
  match arena.expr? parent with
  | some (.isSet _) | some (.empty _) => .existence
  | some (.binary .coalesce left _) => if left == child then .existence else .value
  | some (.compoundAssign .coalesce target _) => if target == child then .existence else .value
  | some (.dim base _) => if base == child then .asBase else .value
  | some (.prop object _ _) => if object == child then .asBase else .value
  | _ => .value

/-- Whether only the existence of a node is tested; `ancestors` are the nodes around it, innermost
first. -/
def Arena.isExistenceTest (arena : Arena) (node : NodeId) : (ancestors : List NodeId) → Bool
  | [] => false
  | parent :: ancestors =>
    match arena.look node parent with
    | .existence => true
    | .asBase => isExistenceTest arena parent ancestors
    | .value => false

/-- The name of the variable that a visit reads although it is not in scope.  Where the set of
variables is not known, and for `$this` inside a class, nothing can be said. -/
def Visit.undefined? (arena : Arena) (visit : Visit) : Option String := do
  let name ← arena.varName? visit.node
  guard (!visit.scope.contains name && !visit.scope.flags.isDynamic)
  guard (!(name == "this" && visit.cls.isSome))
  guard (!arena.isExistenceTest visit.node visit.ancestors)
  return name

/-- The variables of a function that are written and never read.  A name that starts with an
underscore says that this is intended. -/
def ScopeView.reportedUnused (view : ScopeView) : List Variable :=
  if view.flags.isGlobal || view.flags.isDynamic then []
  else view.unusedVars.filter fun v => !Name.startsWith "_" v.name

inductive Check where
  | undefinedVariable
  | unusedVariable
  deriving DecidableEq, Repr

namespace Check

def all : List Check :=
  [undefinedVariable, unusedVariable]

def id : Check → String
  | undefinedVariable => "undefined.variable"
  | unusedVariable => "unused.variable"

def findings (unit : SourceUnit) : Check → Event → List Diagnostic
  | undefinedVariable, .visited visit =>
    (visit.undefined? unit.arena).toList.map fun name =>
      .ofCode unit.file (unit.arena.line visit.node) Message.undefinedVariable.code [name]
  | unusedVariable, .left _ view =>
    view.reportedUnused.map fun v =>
      .ofCode unit.file v.line Message.unusedVariable.code [v.name]
  | _, _ => []

end Check

def Options.enabledChecks (options : Options) : List Check :=
  Check.all.filter fun check => options.isEnabled check.id

end FlowTyping
