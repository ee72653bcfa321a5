import FlowTyping.Analysis.Engine
import FlowTyping.Check.Variable
import FlowTyping.Symbol.Builtin
import FlowTyping.Ty.Printer

/-!
# The report on a file
-/

namespace FlowTyping

def State.history (st : State) : List Event :=
  st.events.reverse

def State.diagnostics (st : State) (unit : SourceUnit) (checks : List Check) : List Diagnostic :=
  st.history.flatMap fun event => checks.flatMap fun check => check.findings unit event

structure InferredType where
  line : Line
  node : NodeId
  kind : String
  text : String
  deriving DecidableEq, Repr

structure FileReport where
  file : String
  diagnostics : List Diagnostic
  types : List InferredType
  deriving DecidableEq, Repr

def FileReport.hasErrors (r : FileReport) : Bool :=
  r.diagnostics.any fun d => d.category == .error

/-- The order of lines, and of codes on one line. -/
def Diagnostic.precedes (a b : Diagnostic) : Bool :=
  a.line < b.line || (a.line == b.line && a.code ≤ b.code)

/-- The order of lines, and of nodes on one line. -/
def InferredType.precedes (a b : InferredType) : Bool :=
  a.line < b.line || (a.line == b.line && a.node ≤ b.node)

def NodeTable.inferredTypes (table : NodeTable) (arena : Arena) : List InferredType :=
  let rows := table.types.toList.map fun (id, t) =>
    { line := arena.line id, node := id, text := t.render
      kind := ((arena.get? id).map Node.kindName).getD "" }
  rows.mergeSort InferredType.precedes

/-- The report on a file; none when the analysis has no end. -/
def SourceUnit.report (unit : SourceUnit) (index : Index) (options : Options) :
    Option FileReport := do
  let st ← unit.analyze index options
  return {
    file := unit.file
    diagnostics := (st.diagnostics unit options.enabledChecks).mergeSort Diagnostic.precedes
    types := st.table.inferredTypes unit.arena }

/-- The declarations of files, added to an index. -/
def Index.addUnits (index : Index) (units : List SourceUnit) : Option Index :=
  units.foldlM Index.addUnit index

/-- The reports on files that see each other's declarations. -/
def checkUnits (units : List SourceUnit) (options : Options) : Option (List FileReport) := do
  let index ← Index.builtin.addUnits units
  units.mapM fun unit => unit.report index options

end FlowTyping
