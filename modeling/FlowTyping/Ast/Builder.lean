import FlowTyping.Ast.Node

/-!
# Building trees

A builder adds nodes to an arena.  Every node takes the builder's current line, and refers only to
nodes that were added before it, so a tree built this way is well founded.

* `Builder`, `Build`: the arena under construction and the actions on it.
* Short forms of common nodes, such as `Expr.callNamed` and `Stmt.simpleIf`.
-/

namespace FlowTyping

structure Builder where
  arena : Arena := {}
  line : Line := 1
  deriving Inhabited

abbrev Build := StateM Builder

namespace Build

def atLine (line : Line) : Build Unit :=
  modify fun b => { b with line }

def add (data : NodeData) : Build NodeId := do
  let b ← get
  set { b with arena := ⟨b.arena.nodes.push ⟨b.line, data⟩⟩ }
  return UInt32.ofNat b.arena.size

def expr (e : Expr) : Build NodeId :=
  add (.expr e)

def stmt (s : Stmt) : Build NodeId :=
  add (.stmt s)

def assignStmt (name : String) (value : NodeId) : Build NodeId := do
  let target ← expr (.var name)
  let assign ← expr (.assign target value)
  stmt (.exprStmt assign none)

/-- Adds the root with its statements, and closes the file. -/
def finish (file : String) (stmts : List NodeId) : Build SourceUnit := do
  let root ← stmt (.sourceFile file stmts)
  return ⟨file, (← get).arena, root⟩

/-- The result of the actions from an empty arena on. -/
def result {α : Type} (actions : Build α) : α :=
  (Id.run (StateT.run actions {})).1

end Build

namespace Expr

def boolConst (b : Bool) : Expr :=
  .const (if b then "true" else "false")

def nullConst : Expr :=
  .const "null"

def arrayOf (values : List NodeId) : Expr :=
  .array (values.map fun value => { value })

def listOf (targets : List NodeId) : Expr :=
  .list (targets.map fun value => some { value })

/-- A call of a named function with positional arguments. -/
def callNamed (name : String) (args : List NodeId) : Expr :=
  .call (.named name) (args.map fun value => { value })

/-- A call of a named method with positional arguments. -/
def callMethod (object : NodeId) (name : String) (args : List NodeId) (nullsafe : Bool) : Expr :=
  .methodCall object (.identifier name) (args.map fun value => { value }) nullsafe

/-- A call of a named static method with positional arguments. -/
def callStatic (cls name : String) (args : List NodeId) : Expr :=
  .staticCall (.named cls) (.identifier name) (args.map fun value => { value })

/-- A new object of a named class with positional arguments. -/
def newNamed (cls : String) (args : List NodeId) : Expr :=
  .new (.named cls) (args.map fun value => { value })

end Expr

namespace Stmt

def simpleIf (condition : NodeId) (thenBranch : List NodeId)
    (elseBranch : Option (List NodeId)) : Stmt :=
  .ifStmt condition thenBranch [] elseBranch

end Stmt

end FlowTyping
