import FlowTyping.Analysis.Operator

/-!
# Assignments

* `Evaluator.assignTo`: stores a type into a target; the parts of the target that are reads are
  evaluated.
-/

namespace FlowTyping

namespace Arena

/-- The container at the bottom of nested element accesses; none where they are nested in a cycle.
A chain of accesses that repeats no node is shorter than the budget. -/
def containerUpTo (arena : Arena) : Nat → NodeId → Option NodeId
  | 0, _ => none
  | n + 1, id =>
    match arena.expr? id with
    | some (.dim base _) => containerUpTo arena n base
    | _ => some id

def container? (arena : Arena) (id : NodeId) : Option NodeId :=
  arena.containerUpTo (arena.size + 1) id

end Arena

namespace Analysis

/-- Assigns a variable of the current scope; `$this` cannot be assigned. -/
def assignVar (name : String) (type : Option Ty) (line : Line) : Analysis Unit := do
  if name != "this" then onScope fun s σ => s.assign σ name type line

/-- Records the type of a property chain, if the node is one. -/
def assignChain (target : NodeId) (type : Option Ty) : Analysis Unit := do
  match (← read).arena.chainKey? target with
  | some key => onScope fun s σ => (s.setChain key type, σ)
  | none => return

/-- Records that the variable at a node, if it is one, may be written through another name. -/
def markReferenceAt (id : NodeId) : Analysis Unit := do
  match ← varNameAt id with
  | some name => onVars fun s σ => s.markByReference σ name
  | none => return

/-- A write to an element of a variable; a variable that is not bound becomes an array. -/
def writeElement (name : String) (line : Line) : Analysis Unit :=
  onScope fun s σ =>
    if s.contains name then (s, s.markWritten σ name line)
    else s.assign σ name (some .array) line

/-- Records a write to a target whose parts were evaluated before. -/
def recordWrite (target : NodeId) (type : Option Ty) (line : Line) : Analysis Unit := do
  match ← exprAt target with
  | some (.var name) => assignVar name type line
  | some (.prop ..) => assignChain target type
  | some (.dim base _) =>
    match (← read).arena.container? base with
    | some id =>
      match ← varNameAt id with
      | some name => writeElement name line
      | none => return
    | none => exhausted
  | _ => return

end Analysis

namespace Evaluator

open Analysis

variable (ev : Evaluator)

def visitMember : MemberName → Analysis Unit
  | .dynamic name => ev.visit name
  | .identifier _ => pure ()

/-- Stores into the targets of a destructuring; nothing is known of the values. -/
def destructure (line : Line) : List ArrayItem → Analysis Unit
  | [] => pure ()
  | item :: items => do
    ev.visit? item.key
    ev.assign item.value none line
    if item.byRef then markReferenceAt item.value
    destructure line items

def assignTo (target : NodeId) (type : Option Ty) (line : Line) : Analysis Unit := do
  match ← exprAt target with
  | none => return
  | some (.var name) => assignVar name type line
  | some (.list items) => ev.destructure line (items.filterMap id)
  | some (.array items) => ev.destructure line items
  | some (.prop object name _) =>
    ev.visit object
    ev.visitMember name
    assignChain target type
  | some (.staticProp (.dynamic cls) _) => ev.visit cls
  | some (.staticProp (.named _) _) => return
  | some (.dim base index) =>
    ev.visit? index
    ev.writeInto base line
  | some (.dynamicVar name) =>
    ev.visit name
    onScope fun s σ => (s.markDynamic, σ)
  | some _ => ev.visit target

def writeIntoBase (base : NodeId) (line : Line) : Analysis Unit := do
  match ← exprAt base with
  | some (.var name) => writeElement name line
  | some (.dim outer index) =>
    ev.visit? index
    ev.writeInto outer line
  | some (.prop object name _) =>
    ev.visit object
    ev.visitMember name
  | some (.staticProp ..) => return
  | _ => ev.visit base

def inferAssign (id target value : NodeId) : Analysis (Option Ty) := do
  let type ← ev.infer value
  let line ← lineOf id
  ev.assign target type line
  if ← parentExpectsBool id then
    match (← read).arena.reference? target with
    | some r => attachNarrowing id r (Ty.narrow type .truthy) .neither
    | none => pure ()
  return type

/-- `$x = &$y`: either may be written through the other, so both lose their types. -/
def inferAssignRef (id target value : NodeId) : Analysis (Option Ty) := do
  let line ← lineOf id
  match ← varNameAt value with
  | some name =>
    onScope fun s σ => s.assign σ name none line
    markReferenceAt value
  | none => ev.visit value
  ev.assign target none line
  markReferenceAt target
  return none

def inferCompoundAssign (id : NodeId) (op : BinaryOp) (target value : NodeId) :
    Analysis (Option Ty) := do
  let scope ← getScope
  let unbound := (← varNameAt target).any fun name => !scope.contains name
  let current ← ev.infer target
  let valueType ← ev.infer value
  let type := if op == .coalesce && unbound then valueType else Ty.ofBinary op current valueType
  recordWrite target type (← lineOf id)
  return type

def inferIncDec (id : NodeId) (op : IncDecOp) (target : NodeId) : Analysis (Option Ty) := do
  let current ← ev.infer target
  let updated := current.map (Ty.ofStep (op == .preInc || op == .postInc))
  recordWrite target updated (← lineOf id)
  return if op == .preInc || op == .preDec then updated else current

/-- Evaluates the parts of a destructuring list that is not assigned to. -/
def visitItems : List ArrayItem → Analysis Unit
  | [] => pure ()
  | item :: items => do
    ev.visit? item.key
    ev.visit item.value
    visitItems items

/-- A destructuring list that is not assigned to. -/
def inferList (items : List (Option ArrayItem)) : Analysis (Option Ty) := do
  ev.visitItems (items.filterMap id)
  return none

end Evaluator

end FlowTyping
