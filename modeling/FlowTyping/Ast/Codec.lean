import FlowTyping.Ast.Node
import FlowTyping.Json.Basic

/-!
# Dumps of syntax trees

A source file reaches the analysis as a JSON dump of its arena.  A record is an object with one
field for each of its parts, or an array of all its parts in order; a choice is an object whose only
field names the alternative, or a plain string where the alternative has no parts.

* `SourceUnit.ofJson?`: reads a dump.  A part that may be missing may also be `null`; any other
  part must be there, once, with a value of its type.  Fields without a meaning are passed over.
* `SourceUnit.toJson`: writes a dump, with every field.
-/

namespace FlowTyping

/-- How the parts of an expression or a statement may be written. -/
inductive PartLayout where
  | named
  /-- As fields, or as an array of all parts in order. -/
  | ordered
  deriving DecidableEq, Repr, Inhabited

namespace Json

/-- The value of a field that occurs at most once; the inner option is none where it is missing. -/
def field? (fields : List (String × Json)) (name : String) : Option (Option Json) :=
  match valuesOf name fields with
  | [] => some none
  | [value] => some (some value)
  | _ => none

def required {α : Type} (fields : List (String × Json)) (name : String)
    (read : Json → Option α) : Option α := do
  read (← (← field? fields name))

/-- The value of a part that may be missing or `null`. -/
def optional {α : Type} (fields : List (String × Json)) (name : String)
    (read : Json → Option α) : Option (Option α) := do
  match ← field? fields name with
  | none | some .null => return none
  | some value => return some (← read value)

/-- The parts of a record with the given names.  An array holds all of them, in their order. -/
def record? (names : List String) : Json → Option (List (String × Json))
  | .obj fields => some fields
  | .arr items => if items.length == names.length then some (names.zip items) else none
  | _ => none

/-- The parts of an alternative with the given names. -/
def parts? (layout : PartLayout) (names : List String) (value : Json) :
    Option (List (String × Json)) :=
  match layout with
  | .named => value.fields?
  | .ordered => value.record? names

def listOf? {α : Type} (read : Json → Option α) : Json → Option (List α)
  | .arr items => items.mapM read
  | _ => none

def nullOr? {α : Type} (read : Json → Option α) : Json → Option (Option α)
  | .null => some none
  | value => (read value).map some

def plainTag? : Json → Option String
  | .str tag => some tag
  | .obj [(tag, .null)] => some tag
  | _ => none

def word? {α : Type} (ofTag? : String → Option α) (value : Json) : Option α := do
  ofTag? (← plainTag? value)

/-- A part that may be missing, as it is written. -/
def ofOption {α : Type} (write : α → Json) : Option α → Json
  | none => .null
  | some a => write a

def ofList {α : Type} (write : α → Json) (as : List α) : Json :=
  .arr (as.map write)

/-- A reference to a node, a line, or another number of 32 bits. -/
def ofUInt32 (n : UInt32) : Json :=
  .int n.toNat

def ofIds (ids : List NodeId) : Json :=
  ofList ofUInt32 ids

def ids? : Json → Option (List NodeId) :=
  listOf? uint32?

def strings? : Json → Option (List String) :=
  listOf? str?

end Json

open Json

namespace Hint

mutual
def ofJson? : Json → Option Hint
  | .obj [("Named", .str name)] => some (.named name)
  | .obj [("Nullable", inner)] => (ofJson? inner).map .nullable
  | .obj [("Union", .arr items)] => (ofJsonItems? items).map .union
  | .obj [("Intersection", .arr items)] => (ofJsonItems? items).map .inter
  | _ => none
def ofJsonItems? : List Json → Option (List Hint)
  | [] => some []
  | item :: items =>
    match ofJson? item, ofJsonItems? items with
    | some h, some hs => some (h :: hs)
    | _, _ => none
end

mutual
def toJson : Hint → Json
  | .named name => .obj [("Named", .str name)]
  | .nullable inner => .obj [("Nullable", inner.toJson)]
  | .union members => .obj [("Union", .arr (toJsonItems members))]
  | .inter members => .obj [("Intersection", .arr (toJsonItems members))]
def toJsonItems : List Hint → List Json
  | [] => []
  | h :: hs => h.toJson :: toJsonItems hs
end

end Hint

def Param.toJson (p : Param) : Json :=
  .obj [("name", .str p.name), ("type_hint", ofOption Hint.toJson p.typeHint),
    ("default", ofOption ofUInt32 p.default), ("by_ref", .bool p.byRef),
    ("variadic", .bool p.variadic), ("promoted", ofOption (fun v => .str v.tag) p.promoted)]

def Param.ofJson? (value : Json) : Option Param := do
  let fields ← value.record? ["name", "type_hint", "default", "by_ref", "variadic", "promoted"]
  return { name := ← required fields "name" str?
           typeHint := ← optional fields "type_hint" Hint.ofJson?
           default := ← optional fields "default" uint32?
           byRef := ← required fields "by_ref" bool?
           variadic := ← required fields "variadic" bool?
           promoted := ← optional fields "promoted" (word? Visibility.ofTag?) }

def ClosureUse.toJson (u : ClosureUse) : Json :=
  .obj [("name", .str u.name), ("by_ref", .bool u.byRef)]

def ClosureUse.ofJson? (value : Json) : Option ClosureUse := do
  let fields ← value.record? ["name", "by_ref"]
  return { name := ← required fields "name" str?, byRef := ← required fields "by_ref" bool? }

def Arg.toJson (a : Arg) : Json :=
  .obj [("value", ofUInt32 a.value), ("unpack", .bool a.unpack), ("name", ofOption .str a.name)]

def Arg.ofJson? (value : Json) : Option Arg := do
  let fields ← value.record? ["value", "unpack", "name"]
  return { value := ← required fields "value" uint32?
           unpack := ← required fields "unpack" bool?
           name := ← optional fields "name" str? }

def ArrayItem.toJson (i : ArrayItem) : Json :=
  .obj [("key", ofOption ofUInt32 i.key), ("value", ofUInt32 i.value), ("by_ref", .bool i.byRef),
    ("unpack", .bool i.unpack)]

def ArrayItem.ofJson? (value : Json) : Option ArrayItem := do
  let fields ← value.record? ["key", "value", "by_ref", "unpack"]
  return { key := ← optional fields "key" uint32?
           value := ← required fields "value" uint32?
           byRef := ← required fields "by_ref" bool?
           unpack := ← required fields "unpack" bool? }

def MatchArm.toJson (a : MatchArm) : Json :=
  .obj [("conditions", ofOption ofIds a.conditions), ("body", ofUInt32 a.body)]

def MatchArm.ofJson? (value : Json) : Option MatchArm := do
  let fields ← value.record? ["conditions", "body"]
  return { conditions := ← optional fields "conditions" ids?
           body := ← required fields "body" uint32? }

def ClassRef.toJson : ClassRef → Json
  | .named name => .obj [("Named", .str name)]
  | .dynamic expr => .obj [("Dynamic", ofUInt32 expr)]

def ClassRef.ofJson? : Json → Option ClassRef
  | .obj [("Named", .str name)] => some (.named name)
  | .obj [("Dynamic", expr)] => (uint32? expr).map .dynamic
  | _ => none

def Callee.toJson : Callee → Json
  | .named name => .obj [("Named", .str name)]
  | .dynamic expr => .obj [("Dynamic", ofUInt32 expr)]

def Callee.ofJson? : Json → Option Callee
  | .obj [("Named", .str name)] => some (.named name)
  | .obj [("Dynamic", expr)] => (uint32? expr).map .dynamic
  | _ => none

def MemberName.toJson : MemberName → Json
  | .identifier name => .obj [("Identifier", .str name)]
  | .dynamic expr => .obj [("Dynamic", ofUInt32 expr)]

def MemberName.ofJson? : Json → Option MemberName
  | .obj [("Identifier", .str name)] => some (.identifier name)
  | .obj [("Dynamic", expr)] => (uint32? expr).map .dynamic
  | _ => none

/-- The name of an expression's alternative in a dump, and its parts. -/
def Expr.parts : Expr → String × List (String × Json)
  | .var name => ("Variable", [("name", .str name)])
  | .dynamicVar name => ("DynamicVariable", [("name", ofUInt32 name)])
  | .int value => ("Int", [("value", .int value.toInt)])
  | .float value => ("Float", [("value", .decimal value)])
  | .string value => ("String", [("value", .str value)])
  | .interpolated parts => ("InterpolatedString", [("parts", ofIds parts)])
  | .const name => ("ConstFetch", [("name", .str name)])
  | .classConst cls name => ("ClassConstFetch", [("class", cls.toJson), ("name", .str name)])
  | .array items => ("Array", [("items", ofList ArrayItem.toJson items)])
  | .binary op left right =>
    ("Binary", [("op", .str op.tag), ("left", ofUInt32 left), ("right", ofUInt32 right)])
  | .unary op operand => ("Unary", [("op", .str op.tag), ("operand", ofUInt32 operand)])
  | .incDec op target => ("IncDec", [("op", .str op.tag), ("target", ofUInt32 target)])
  | .assign target value => ("Assign", [("target", ofUInt32 target), ("value", ofUInt32 value)])
  | .assignRef target value =>
    ("AssignRef", [("target", ofUInt32 target), ("value", ofUInt32 value)])
  | .compoundAssign op target value =>
    ("CompoundAssign",
      [("op", .str op.tag), ("target", ofUInt32 target), ("value", ofUInt32 value)])
  | .list items => ("List", [("items", ofList (ofOption ArrayItem.toJson) items)])
  | .prop object name nullsafe =>
    ("PropertyFetch",
      [("object", ofUInt32 object), ("name", name.toJson), ("nullsafe", .bool nullsafe)])
  | .staticProp cls name => ("StaticPropertyFetch", [("class", cls.toJson), ("name", .str name)])
  | .dim base index =>
    ("ArrayDimFetch", [("array", ofUInt32 base), ("dim", ofOption ofUInt32 index)])
  | .call callee args =>
    ("FuncCall", [("callee", callee.toJson), ("args", ofList Arg.toJson args)])
  | .methodCall object name args nullsafe =>
    ("MethodCall",
      [("object", ofUInt32 object), ("name", name.toJson), ("args", ofList Arg.toJson args),
       ("nullsafe", .bool nullsafe)])
  | .staticCall cls name args =>
    ("StaticCall",
      [("class", cls.toJson), ("name", name.toJson), ("args", ofList Arg.toJson args)])
  | .new cls args => ("New", [("class", cls.toJson), ("args", ofList Arg.toJson args)])
  | .closure fn =>
    ("Closure",
      [("params", ofList Param.toJson fn.params), ("uses", ofList ClosureUse.toJson fn.uses),
       ("body", ofIds fn.body), ("return_type", ofOption Hint.toJson fn.returnType),
       ("by_ref", .bool fn.byRef), ("is_static", .bool fn.isStatic)])
  | .arrow fn =>
    ("ArrowFunction",
      [("params", ofList Param.toJson fn.params), ("body", ofUInt32 fn.body),
       ("return_type", ofOption Hint.toJson fn.returnType), ("is_static", .bool fn.isStatic)])
  | .ternary condition ifTrue ifFalse =>
    ("Ternary",
      [("condition", ofUInt32 condition), ("if_true", ofOption ofUInt32 ifTrue),
       ("if_false", ofUInt32 ifFalse)])
  | .matchExpr subject arms =>
    ("Match", [("subject", ofUInt32 subject), ("arms", ofList MatchArm.toJson arms)])
  | .instanceOf expr cls => ("Instanceof", [("expr", ofUInt32 expr), ("class", cls.toJson)])
  | .isSet vars => ("Isset", [("vars", ofIds vars)])
  | .empty expr => ("Empty", [("expr", ofUInt32 expr)])
  | .cast kind expr => ("Cast", [("kind", .str kind.tag), ("expr", ofUInt32 expr)])
  | .clone expr => ("Clone", [("expr", ofUInt32 expr)])
  | .print expr => ("Print", [("expr", ofUInt32 expr)])
  | .exit expr => ("Exit", [("expr", ofOption ofUInt32 expr)])
  | .suppress expr => ("ErrorSuppress", [("expr", ofUInt32 expr)])
  | .includeFile expr => ("Include", [("expr", ofUInt32 expr)])
  | .throwExpr expr => ("Throw", [("expr", ofUInt32 expr)])

/-- The names of the parts of an expression, in their order. -/
def Expr.partNames : String → List String
  | "Variable" => ["name"]
  | "DynamicVariable" => ["name"]
  | "Int" => ["value"]
  | "Float" => ["value"]
  | "String" => ["value"]
  | "InterpolatedString" => ["parts"]
  | "ConstFetch" => ["name"]
  | "ClassConstFetch" => ["class", "name"]
  | "Array" => ["items"]
  | "Binary" => ["op", "left", "right"]
  | "Unary" => ["op", "operand"]
  | "IncDec" => ["op", "target"]
  | "Assign" => ["target", "value"]
  | "AssignRef" => ["target", "value"]
  | "CompoundAssign" => ["op", "target", "value"]
  | "List" => ["items"]
  | "PropertyFetch" => ["object", "name", "nullsafe"]
  | "StaticPropertyFetch" => ["class", "name"]
  | "ArrayDimFetch" => ["array", "dim"]
  | "FuncCall" => ["callee", "args"]
  | "MethodCall" => ["object", "name", "args", "nullsafe"]
  | "StaticCall" => ["class", "name", "args"]
  | "New" => ["class", "args"]
  | "Closure" => ["params", "uses", "body", "return_type", "by_ref", "is_static"]
  | "ArrowFunction" => ["params", "body", "return_type", "is_static"]
  | "Ternary" => ["condition", "if_true", "if_false"]
  | "Match" => ["subject", "arms"]
  | "Instanceof" => ["expr", "class"]
  | "Isset" => ["vars"]
  | "Empty" => ["expr"]
  | "Cast" => ["kind", "expr"]
  | "Clone" => ["expr"]
  | "Print" => ["expr"]
  | "Exit" => ["expr"]
  | "ErrorSuppress" => ["expr"]
  | "Include" => ["expr"]
  | "Throw" => ["expr"]
  | _ => []

/-- The parts are written in the order of their names. -/
theorem Expr.map_fst_parts (e : Expr) : e.parts.2.map Prod.fst = partNames e.parts.1 := by
  cases e <;> rfl

def Expr.toJson (e : Expr) : Json :=
  let (tag, fields) := e.parts
  .obj [(tag, .obj fields)]

/-- The expression with the given alternative and parts. -/
def Expr.ofParts? (tag : String) (fields : List (String × Json)) : Option Expr := do
  let id (name : String) := required fields name uint32?
  let id? (name : String) := optional fields name uint32?
  let text (name : String) := required fields name str?
  let flag (name : String) := required fields name bool?
  let cls := required fields "class" ClassRef.ofJson?
  let member := required fields "name" MemberName.ofJson?
  let args := required fields "args" (listOf? Arg.ofJson?)
  let params := required fields "params" (listOf? Param.ofJson?)
  let returnType := optional fields "return_type" Hint.ofJson?
  match tag with
  | "Variable" => return .var (← text "name")
  | "DynamicVariable" => return .dynamicVar (← id "name")
  | "Int" => return .int (← required fields "value" int64?)
  | "Float" => return .float (← required fields "value" decimal?)
  | "String" => return .string (← text "value")
  | "InterpolatedString" => return .interpolated (← required fields "parts" ids?)
  | "ConstFetch" => return .const (← text "name")
  | "ClassConstFetch" => return .classConst (← cls) (← text "name")
  | "Array" => return .array (← required fields "items" (listOf? ArrayItem.ofJson?))
  | "Binary" =>
    return .binary (← required fields "op" (word? BinaryOp.ofTag?)) (← id "left") (← id "right")
  | "Unary" => return .unary (← required fields "op" (word? UnaryOp.ofTag?)) (← id "operand")
  | "IncDec" => return .incDec (← required fields "op" (word? IncDecOp.ofTag?)) (← id "target")
  | "Assign" => return .assign (← id "target") (← id "value")
  | "AssignRef" => return .assignRef (← id "target") (← id "value")
  | "CompoundAssign" =>
    return .compoundAssign (← required fields "op" (word? BinaryOp.ofTag?)) (← id "target")
      (← id "value")
  | "List" => return .list (← required fields "items" (listOf? (nullOr? ArrayItem.ofJson?)))
  | "PropertyFetch" => return .prop (← id "object") (← member) (← flag "nullsafe")
  | "StaticPropertyFetch" => return .staticProp (← cls) (← text "name")
  | "ArrayDimFetch" => return .dim (← id "array") (← id? "dim")
  | "FuncCall" => return .call (← required fields "callee" Callee.ofJson?) (← args)
  | "MethodCall" =>
    return .methodCall (← id "object") (← member) (← args) (← flag "nullsafe")
  | "StaticCall" => return .staticCall (← cls) (← member) (← args)
  | "New" => return .new (← cls) (← args)
  | "Closure" =>
    return .closure
      { params := ← params
        uses := ← required fields "uses" (listOf? ClosureUse.ofJson?)
        body := ← required fields "body" ids?
        returnType := ← returnType
        byRef := ← flag "by_ref"
        isStatic := ← flag "is_static" }
  | "ArrowFunction" =>
    return .arrow
      { params := ← params
        body := ← id "body"
        returnType := ← returnType
        isStatic := ← flag "is_static" }
  | "Ternary" => return .ternary (← id "condition") (← id? "if_true") (← id "if_false")
  | "Match" =>
    return .matchExpr (← id "subject") (← required fields "arms" (listOf? MatchArm.ofJson?))
  | "Instanceof" => return .instanceOf (← id "expr") (← cls)
  | "Isset" => return .isSet (← required fields "vars" ids?)
  | "Empty" => return .empty (← id "expr")
  | "Cast" => return .cast (← required fields "kind" (word? CastKind.ofTag?)) (← id "expr")
  | "Clone" => return .clone (← id "expr")
  | "Print" => return .print (← id "expr")
  | "Exit" => return .exit (← id? "expr")
  | "ErrorSuppress" => return .suppress (← id "expr")
  | "Include" => return .includeFile (← id "expr")
  | "Throw" => return .throwExpr (← id "expr")
  | _ => none

def Expr.ofJson? (layout : PartLayout) : Json → Option Expr
  | .obj [(tag, value)] => do Expr.ofParts? tag (← value.parts? layout (Expr.partNames tag))
  | _ => none

def ElseIf.toJson (b : ElseIf) : Json :=
  .obj [("condition", ofUInt32 b.condition), ("body", ofIds b.body)]

def ElseIf.ofJson? (value : Json) : Option ElseIf := do
  let fields ← value.record? ["condition", "body"]
  return { condition := ← required fields "condition" uint32?
           body := ← required fields "body" ids? }

def SwitchCase.toJson (c : SwitchCase) : Json :=
  .obj [("test", ofOption ofUInt32 c.test), ("body", ofIds c.body)]

def SwitchCase.ofJson? (value : Json) : Option SwitchCase := do
  let fields ← value.record? ["test", "body"]
  return { test := ← optional fields "test" uint32?, body := ← required fields "body" ids? }

def CatchClause.toJson (c : CatchClause) : Json :=
  .obj [("types", ofList .str c.types), ("var", ofOption .str c.var), ("body", ofIds c.body)]

def CatchClause.ofJson? (value : Json) : Option CatchClause := do
  let fields ← value.record? ["types", "var", "body"]
  return { types := ← required fields "types" strings?
           var := ← optional fields "var" str?
           body := ← required fields "body" ids? }

def StaticVar.toJson (v : StaticVar) : Json :=
  .obj [("name", .str v.name), ("default", ofOption ofUInt32 v.default)]

def StaticVar.ofJson? (value : Json) : Option StaticVar := do
  let fields ← value.record? ["name", "default"]
  return { name := ← required fields "name" str?
           default := ← optional fields "default" uint32? }

/-- The name of a statement's alternative in a dump, and its parts; none where it has no parts. -/
def Stmt.parts : Stmt → String × Option (List (String × Json))
  | .sourceFile name stmts => ("SourceFile", some [("name", .str name), ("stmts", ofIds stmts)])
  | .exprStmt expr doc =>
    ("Expression", some [("expr", ofUInt32 expr), ("doc_comment", ofOption .str doc)])
  | .echoStmt exprs => ("Echo", some [("exprs", ofIds exprs)])
  | .returnStmt expr => ("Return", some [("expr", ofOption ofUInt32 expr)])
  | .ifStmt condition thenBranch elseIfs elseBranch =>
    ("If", some
      [("condition", ofUInt32 condition), ("then_branch", ofIds thenBranch),
       ("else_ifs", ofList ElseIf.toJson elseIfs), ("else_branch", ofOption ofIds elseBranch)])
  | .whileStmt condition body =>
    ("While", some [("condition", ofUInt32 condition), ("body", ofIds body)])
  | .doWhileStmt body condition =>
    ("DoWhile", some [("body", ofIds body), ("condition", ofUInt32 condition)])
  | .forStmt init condition step body =>
    ("For", some
      [("init", ofIds init), ("condition", ofIds condition), ("step", ofIds step),
       ("body", ofIds body)])
  | .foreachStmt subject key value byRef body =>
    ("Foreach", some
      [("subject", ofUInt32 subject), ("key", ofOption ofUInt32 key), ("value", ofUInt32 value),
       ("by_ref", .bool byRef), ("body", ofIds body)])
  | .switchStmt subject cases =>
    ("Switch", some [("subject", ofUInt32 subject), ("cases", ofList SwitchCase.toJson cases)])
  | .tryStmt body catches finallyBody =>
    ("Try", some
      [("body", ofIds body), ("catches", ofList CatchClause.toJson catches),
       ("finally", ofOption ofIds finallyBody)])
  | .breakStmt => ("Break", none)
  | .continueStmt => ("Continue", none)
  | .globalStmt names => ("Global", some [("names", ofList .str names)])
  | .staticStmt vars => ("StaticVar", some [("vars", ofList StaticVar.toJson vars)])
  | .unsetStmt vars => ("Unset", some [("vars", ofIds vars)])
  | .declareStmt strictTypes => ("Declare", some [("strict_types", ofOption .bool strictTypes)])
  | .block stmts => ("Block", some [("stmts", ofIds stmts)])
  | .function fn =>
    ("Function", some
      [("name", .str fn.name), ("params", ofList Param.toJson fn.params),
       ("return_type", ofOption Hint.toJson fn.returnType), ("body", ofIds fn.body),
       ("by_ref", .bool fn.byRef), ("doc_comment", ofOption .str fn.docComment)])
  | .classDecl cls =>
    ("Class", some
      [("name", .str cls.name), ("kind", .str cls.kind.tag),
       ("extends", ofOption .str cls.extendedClass), ("implements", ofList .str cls.implemented),
       ("members", ofIds cls.members), ("is_abstract", .bool cls.isAbstract),
       ("is_final", .bool cls.isFinal), ("is_readonly", .bool cls.isReadonly)])
  | .method fn =>
    ("Method", some
      [("name", .str fn.name), ("params", ofList Param.toJson fn.params),
       ("return_type", ofOption Hint.toJson fn.returnType), ("body", ofOption ofIds fn.body),
       ("visibility", .str fn.visibility.tag), ("is_static", .bool fn.isStatic),
       ("is_abstract", .bool fn.isAbstract), ("doc_comment", ofOption .str fn.docComment)])
  | .property prop =>
    ("Property", some
      [("name", .str prop.name), ("type_hint", ofOption Hint.toJson prop.typeHint),
       ("default", ofOption ofUInt32 prop.default), ("visibility", .str prop.visibility.tag),
       ("is_static", .bool prop.isStatic), ("is_readonly", .bool prop.isReadonly),
       ("doc_comment", ofOption .str prop.docComment)])
  | .classConst name value => ("ClassConst", some [("name", .str name), ("value", ofUInt32 value)])
  | .enumCase name value =>
    ("EnumCase", some [("name", .str name), ("value", ofOption ofUInt32 value)])
  | .traitUse traits => ("TraitUse", some [("traits", ofList .str traits)])

/-- The names of the parts of a statement, in their order. -/
def Stmt.partNames : String → List String
  | "SourceFile" => ["name", "stmts"]
  | "Expression" => ["expr", "doc_comment"]
  | "Echo" => ["exprs"]
  | "Return" => ["expr"]
  | "If" => ["condition", "then_branch", "else_ifs", "else_branch"]
  | "While" => ["condition", "body"]
  | "DoWhile" => ["body", "condition"]
  | "For" => ["init", "condition", "step", "body"]
  | "Foreach" => ["subject", "key", "value", "by_ref", "body"]
  | "Switch" => ["subject", "cases"]
  | "Try" => ["body", "catches", "finally"]
  | "Global" => ["names"]
  | "StaticVar" => ["vars"]
  | "Unset" => ["vars"]
  | "Declare" => ["strict_types"]
  | "Block" => ["stmts"]
  | "Function" => ["name", "params", "return_type", "body", "by_ref", "doc_comment"]
  | "Class" =>
    ["name", "kind", "extends", "implements", "members", "is_abstract", "is_final", "is_readonly"]
  | "Method" =>
    ["name", "params", "return_type", "body", "visibility", "is_static", "is_abstract",
     "doc_comment"]
  | "Property" =>
    ["name", "type_hint", "default", "visibility", "is_static", "is_readonly", "doc_comment"]
  | "ClassConst" => ["name", "value"]
  | "EnumCase" => ["name", "value"]
  | "TraitUse" => ["traits"]
  | _ => []

/-- The parts are written in the order of their names. -/
theorem Stmt.map_fst_parts (s : Stmt) : (s.parts.2.getD []).map Prod.fst = partNames s.parts.1 := by
  cases s <;> rfl

def Stmt.toJson (s : Stmt) : Json :=
  match s.parts with
  | (tag, some fields) => .obj [(tag, .obj fields)]
  | (tag, none) => .str tag

/-- The statement with the given alternative and parts. -/
def Stmt.ofParts? (tag : String) (fields : List (String × Json)) : Option Stmt := do
  let id (name : String) := required fields name uint32?
  let id? (name : String) := optional fields name uint32?
  let nodes (name : String) := required fields name ids?
  let text (name : String) := required fields name str?
  let flag (name : String) := required fields name bool?
  let doc := optional fields "doc_comment" str?
  let params := required fields "params" (listOf? Param.ofJson?)
  let returnType := optional fields "return_type" Hint.ofJson?
  let visibility := required fields "visibility" (word? Visibility.ofTag?)
  match tag with
  | "SourceFile" => return .sourceFile (← text "name") (← nodes "stmts")
  | "Expression" => return .exprStmt (← id "expr") (← doc)
  | "Echo" => return .echoStmt (← nodes "exprs")
  | "Return" => return .returnStmt (← id? "expr")
  | "If" =>
    return .ifStmt (← id "condition") (← nodes "then_branch")
      (← required fields "else_ifs" (listOf? ElseIf.ofJson?))
      (← optional fields "else_branch" ids?)
  | "While" => return .whileStmt (← id "condition") (← nodes "body")
  | "DoWhile" => return .doWhileStmt (← nodes "body") (← id "condition")
  | "For" => return .forStmt (← nodes "init") (← nodes "condition") (← nodes "step") (← nodes "body")
  | "Foreach" =>
    return .foreachStmt (← id "subject") (← id? "key") (← id "value") (← flag "by_ref")
      (← nodes "body")
  | "Switch" =>
    return .switchStmt (← id "subject") (← required fields "cases" (listOf? SwitchCase.ofJson?))
  | "Try" =>
    return .tryStmt (← nodes "body") (← required fields "catches" (listOf? CatchClause.ofJson?))
      (← optional fields "finally" ids?)
  | "Global" => return .globalStmt (← required fields "names" strings?)
  | "StaticVar" => return .staticStmt (← required fields "vars" (listOf? StaticVar.ofJson?))
  | "Unset" => return .unsetStmt (← nodes "vars")
  | "Declare" => return .declareStmt (← optional fields "strict_types" bool?)
  | "Block" => return .block (← nodes "stmts")
  | "Function" =>
    return .function
      { name := ← text "name"
        params := ← params
        returnType := ← returnType
        body := ← nodes "body"
        byRef := ← flag "by_ref"
        docComment := ← doc }
  | "Class" =>
    return .classDecl
      { name := ← text "name"
        kind := ← required fields "kind" (word? ClassKind.ofTag?)
        extendedClass := ← optional fields "extends" str?
        implemented := ← required fields "implements" strings?
        members := ← nodes "members"
        isAbstract := ← flag "is_abstract"
        isFinal := ← flag "is_final"
        isReadonly := ← flag "is_readonly" }
  | "Method" =>
    return .method
      { name := ← text "name"
        params := ← params
        returnType := ← returnType
        body := ← optional fields "body" ids?
        visibility := ← visibility
        isStatic := ← flag "is_static"
        isAbstract := ← flag "is_abstract"
        docComment := ← doc }
  | "Property" =>
    return .property
      { name := ← text "name"
        typeHint := ← optional fields "type_hint" Hint.ofJson?
        default := ← id? "default"
        visibility := ← visibility
        isStatic := ← flag "is_static"
        isReadonly := ← flag "is_readonly"
        docComment := ← doc }
  | "ClassConst" => return .classConst (← text "name") (← id "value")
  | "EnumCase" => return .enumCase (← text "name") (← id? "value")
  | "TraitUse" => return .traitUse (← required fields "traits" strings?)
  | _ => none

/-- The statement without parts that a word names. -/
def Stmt.ofTag? : String → Option Stmt
  | "Break" => some .breakStmt
  | "Continue" => some .continueStmt
  | _ => none

def Stmt.ofJson? (layout : PartLayout) : Json → Option Stmt
  | .str tag | .obj [(tag, .null)] => Stmt.ofTag? tag
  | .obj [(tag, value)] => do Stmt.ofParts? tag (← value.parts? layout (Stmt.partNames tag))
  | _ => none

def Node.toJson (node : Node) : Json :=
  .obj [("line", ofUInt32 node.line),
    ("data", match node.data with
      | .stmt s => .obj [("Stmt", s.toJson)]
      | .expr e => .obj [("Expr", e.toJson)])]

def NodeData.ofJson? (layout : PartLayout) : Json → Option NodeData
  | .obj [("Stmt", s)] => (Stmt.ofJson? layout s).map .stmt
  | .obj [("Expr", e)] => (Expr.ofJson? layout e).map .expr
  | _ => none

def Node.ofJson? (layout : PartLayout) (value : Json) : Option Node := do
  let fields ← value.record? ["line", "data"]
  return { line := ← required fields "line" uint32?
           data := ← required fields "data" (NodeData.ofJson? layout) }

def Arena.toJson (arena : Arena) : Json :=
  .obj [("nodes", ofList Node.toJson arena.nodes.toList)]

def Arena.ofJson? (layout : PartLayout) (value : Json) : Option Arena := do
  let fields ← value.record? ["nodes"]
  return ⟨(← required fields "nodes" (listOf? (Node.ofJson? layout))).toArray⟩

def SourceUnit.toJson (unit : SourceUnit) : Json :=
  .obj [("file", .str unit.file), ("arena", unit.arena.toJson), ("root", ofUInt32 unit.root)]

def SourceUnit.ofJson? (layout : PartLayout) (value : Json) : Option SourceUnit := do
  let fields ← value.record? ["file", "arena", "root"]
  return { file := ← required fields "file" str?
           arena := ← required fields "arena" (Arena.ofJson? layout)
           root := ← required fields "root" uint32? }

end FlowTyping
