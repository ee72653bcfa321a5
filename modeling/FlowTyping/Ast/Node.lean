import FlowTyping.Ast.Operator
import FlowTyping.Number.Decimal
import FlowTyping.Ty.Declared

/-!
# Syntax trees

A source file is an arena of nodes that refer to each other by index.  Nothing is assumed of the
references: an index may lie outside the arena, point to a statement where an expression is
expected, or lead back to its own node.

* `Expr`, `Stmt`: expressions and statements.
-/

namespace FlowTyping

abbrev NodeId := UInt32

def NodeId.absent : NodeId := 4294967295

/-- A line of source code; zero where it is not known. -/
abbrev Line := UInt32

structure Param where
  name : String
  typeHint : Option Hint := none
  default : Option NodeId := none
  byRef : Bool := false
  variadic : Bool := false
  /-- The visibility of the property that the parameter also declares. -/
  promoted : Option Visibility := none

/-- A variable that a closure captures. -/
structure ClosureUse where
  name : String
  byRef : Bool

structure Arg where
  value : NodeId
  unpack : Bool := false
  name : Option String := none

/-- An item of an array literal or of a destructuring list. -/
structure ArrayItem where
  key : Option NodeId := none
  value : NodeId
  byRef : Bool := false
  unpack : Bool := false

/-- An arm of a match; `conditions` is none for the default arm. -/
structure MatchArm where
  conditions : Option (List NodeId)
  body : NodeId

/-- A class written by name or computed. -/
inductive ClassRef where
  | named (name : String)
  | dynamic (expr : NodeId)

/-- A function written by name or computed. -/
inductive Callee where
  | named (name : String)
  | dynamic (expr : NodeId)

/-- A member written by name or computed. -/
inductive MemberName where
  | identifier (name : String)
  | dynamic (expr : NodeId)

def MemberName.identifier? : MemberName → Option String
  | .identifier name => some name
  | .dynamic _ => none

/-- An anonymous function with a body of statements. -/
structure ClosureExpr where
  params : List Param
  uses : List ClosureUse
  body : List NodeId
  returnType : Option Hint := none
  byRef : Bool := false
  isStatic : Bool := false

/-- An anonymous function with a single expression as body. -/
structure ArrowExpr where
  params : List Param
  body : NodeId
  returnType : Option Hint := none
  isStatic : Bool := false

inductive Expr where
  | var (name : String)
  | dynamicVar (name : NodeId)
  | int (value : Int64)
  | float (value : Decimal)
  | string (value : String)
  | interpolated (parts : List NodeId)
  | const (name : String)
  | classConst (cls : ClassRef) (name : String)
  | array (items : List ArrayItem)
  | binary (op : BinaryOp) (left right : NodeId)
  | unary (op : UnaryOp) (operand : NodeId)
  | incDec (op : IncDecOp) (target : NodeId)
  | assign (target value : NodeId)
  | assignRef (target value : NodeId)
  | compoundAssign (op : BinaryOp) (target value : NodeId)
  | list (items : List (Option ArrayItem))
  | prop (object : NodeId) (name : MemberName) (nullsafe : Bool)
  | staticProp (cls : ClassRef) (name : String)
  | dim (base : NodeId) (index : Option NodeId)
  | call (callee : Callee) (args : List Arg)
  | methodCall (object : NodeId) (name : MemberName) (args : List Arg) (nullsafe : Bool)
  | staticCall (cls : ClassRef) (name : MemberName) (args : List Arg)
  | new (cls : ClassRef) (args : List Arg)
  | closure (fn : ClosureExpr)
  | arrow (fn : ArrowExpr)
  | ternary (condition : NodeId) (ifTrue : Option NodeId) (ifFalse : NodeId)
  | matchExpr (subject : NodeId) (arms : List MatchArm)
  | instanceOf (expr : NodeId) (cls : ClassRef)
  | isSet (vars : List NodeId)
  | empty (expr : NodeId)
  | cast (kind : CastKind) (expr : NodeId)
  | clone (expr : NodeId)
  | print (expr : NodeId)
  | exit (expr : Option NodeId)
  | suppress (expr : NodeId)
  | includeFile (expr : NodeId)
  | throwExpr (expr : NodeId)
  deriving Inhabited

structure ElseIf where
  condition : NodeId
  body : List NodeId

/-- A case of a switch; `test` is none for the default case. -/
structure SwitchCase where
  test : Option NodeId
  body : List NodeId

structure CatchClause where
  types : List String
  var : Option String
  body : List NodeId

/-- A variable that keeps its value between calls. -/
structure StaticVar where
  name : String
  default : Option NodeId

structure FunctionStmt where
  name : String
  params : List Param
  returnType : Option Hint := none
  body : List NodeId
  byRef : Bool := false
  docComment : Option String := none

/-- A declared class, interface, trait or enumeration. -/
structure ClassStmt where
  name : String
  kind : ClassKind := .plain
  extendedClass : Option String := none
  implemented : List String := []
  members : List NodeId
  isAbstract : Bool := false
  isFinal : Bool := false
  isReadonly : Bool := false

/-- A method of a class; `body` is none for an abstract one. -/
structure MethodStmt where
  name : String
  params : List Param
  returnType : Option Hint := none
  body : Option (List NodeId)
  visibility : Visibility := .isPublic
  isStatic : Bool := false
  isAbstract : Bool := false
  docComment : Option String := none

structure PropertyStmt where
  name : String
  typeHint : Option Hint := none
  default : Option NodeId := none
  visibility : Visibility := .isPublic
  isStatic : Bool := false
  isReadonly : Bool := false
  docComment : Option String := none

inductive Stmt where
  | sourceFile (name : String) (stmts : List NodeId)
  | exprStmt (expr : NodeId) (docComment : Option String)
  | echoStmt (exprs : List NodeId)
  | returnStmt (expr : Option NodeId)
  | ifStmt (condition : NodeId) (thenBranch : List NodeId) (elseIfs : List ElseIf)
      (elseBranch : Option (List NodeId))
  | whileStmt (condition : NodeId) (body : List NodeId)
  | doWhileStmt (body : List NodeId) (condition : NodeId)
  | forStmt (init condition step body : List NodeId)
  | foreachStmt (subject : NodeId) (key : Option NodeId) (value : NodeId) (byRef : Bool)
      (body : List NodeId)
  | switchStmt (subject : NodeId) (cases : List SwitchCase)
  | tryStmt (body : List NodeId) (catches : List CatchClause) (finallyBody : Option (List NodeId))
  | breakStmt
  | continueStmt
  | globalStmt (names : List String)
  | staticStmt (vars : List StaticVar)
  | unsetStmt (vars : List NodeId)
  | declareStmt (strictTypes : Option Bool)
  | block (stmts : List NodeId)
  | function (fn : FunctionStmt)
  | classDecl (cls : ClassStmt)
  | method (fn : MethodStmt)
  | property (prop : PropertyStmt)
  | classConst (name : String) (value : NodeId)
  | enumCase (name : String) (value : Option NodeId)
  | traitUse (traits : List String)
  deriving Inhabited

/-- Whether nothing after the statement in its list can run. -/
def Stmt.isTerminal : Stmt → Bool
  | .returnStmt _ | .breakStmt | .continueStmt => true
  | _ => false

/-- What a node is: an expression or a statement. -/
inductive NodeData where
  | stmt (s : Stmt)
  | expr (e : Expr)
  deriving Inhabited

/-- A node and the line it stands on. -/
structure Node where
  line : Line
  data : NodeData
  deriving Inhabited

def Expr.kindName : Expr → String
  | .var .. => "Variable"
  | .dynamicVar .. => "DynamicVariable"
  | .int .. => "Int"
  | .float .. => "Float"
  | .string .. => "String"
  | .interpolated .. => "InterpolatedString"
  | .const .. => "ConstFetch"
  | .classConst .. => "ClassConstFetch"
  | .array .. => "Array"
  | .binary .. => "Binary"
  | .unary .. => "Unary"
  | .incDec .. => "IncDec"
  | .assign .. => "Assign"
  | .assignRef .. => "AssignRef"
  | .compoundAssign .. => "CompoundAssign"
  | .list .. => "List"
  | .prop .. => "PropertyFetch"
  | .staticProp .. => "StaticPropertyFetch"
  | .dim .. => "ArrayDimFetch"
  | .call .. => "FuncCall"
  | .methodCall .. => "MethodCall"
  | .staticCall .. => "StaticCall"
  | .new .. => "New"
  | .closure .. => "Closure"
  | .arrow .. => "ArrowFunction"
  | .ternary .. => "Ternary"
  | .matchExpr .. => "Match"
  | .instanceOf .. => "Instanceof"
  | .isSet .. => "Isset"
  | .empty .. => "Empty"
  | .cast .. => "Cast"
  | .clone .. => "Clone"
  | .print .. => "Print"
  | .exit .. => "Exit"
  | .suppress .. => "ErrorSuppress"
  | .includeFile .. => "Include"
  | .throwExpr .. => "Throw"

def Stmt.kindName : Stmt → String
  | .sourceFile .. => "SourceFile"
  | .exprStmt .. => "ExpressionStmt"
  | .echoStmt .. => "Echo"
  | .returnStmt .. => "Return"
  | .ifStmt .. => "If"
  | .whileStmt .. => "While"
  | .doWhileStmt .. => "DoWhile"
  | .forStmt .. => "For"
  | .foreachStmt .. => "Foreach"
  | .switchStmt .. => "Switch"
  | .tryStmt .. => "Try"
  | .breakStmt => "Break"
  | .continueStmt => "Continue"
  | .globalStmt .. => "Global"
  | .staticStmt .. => "StaticVar"
  | .unsetStmt .. => "Unset"
  | .declareStmt .. => "Declare"
  | .block .. => "Block"
  | .function .. => "Function"
  | .classDecl .. => "Class"
  | .method .. => "Method"
  | .property .. => "Property"
  | .classConst .. => "ClassConst"
  | .enumCase .. => "EnumCase"
  | .traitUse .. => "TraitUse"

def Node.kindName (node : Node) : String :=
  match node.data with
  | .stmt s => s.kindName
  | .expr e => e.kindName

/-- The nodes of a file. -/
structure Arena where
  nodes : Array Node := #[]
  deriving Inhabited

namespace Arena

def size (arena : Arena) : Nat :=
  arena.nodes.size

def get? (arena : Arena) (id : NodeId) : Option Node :=
  if id == NodeId.absent then none else arena.nodes[id.toNat]?

/-- The expression with a given index; none for a statement. -/
def expr? (arena : Arena) (id : NodeId) : Option Expr :=
  match arena.get? id with
  | some ⟨_, .expr e⟩ => some e
  | _ => none

/-- The statement with a given index; none for an expression. -/
def stmt? (arena : Arena) (id : NodeId) : Option Stmt :=
  match arena.get? id with
  | some ⟨_, .stmt s⟩ => some s
  | _ => none

/-- The line of a node; zero where there is no node. -/
def line (arena : Arena) (id : NodeId) : Line :=
  match arena.get? id with
  | some node => node.line
  | none => 0

def varName? (arena : Arena) (id : NodeId) : Option String :=
  match arena.expr? id with
  | some (.var name) => some name
  | _ => none

end Arena

/-- A source file: its name, its nodes, and the node that holds its statements. -/
structure SourceUnit where
  file : String
  arena : Arena
  root : NodeId
  deriving Inhabited

end FlowTyping
