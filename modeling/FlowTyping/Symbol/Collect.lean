import FlowTyping.Symbol.Docblock
import FlowTyping.Symbol.Index

/-!
# Collecting declarations

The declarations of a source file, found without looking into function bodies: functions, classes
and `define` calls at the top level, in blocks and in the branches of conditions.

* `Index.addUnit`: the index with the declarations of a file.

Blocks and initializers may be nested in a cycle, which no reader of the file would survive.  Each
reader therefore has a budget of nested nodes and returns none when it is used up; a path through
the arena that repeats no node stays below one more than the number of nodes.
-/

namespace FlowTyping

namespace Arena

def isNullConst (arena : Arena) (id : NodeId) : Bool :=
  match arena.expr? id with
  | some (.const name) => Name.sameWord name "null"
  | _ => false

/-- The type of a constant by its name: a truth value or null. -/
def keywordType? (name : String) : Option Ty :=
  match Name.foldCase name with
  | "true" | "false" => some .bool
  | "null" => some .null
  | _ => none

/-- The type of a constant initializer, with a budget of nested signs. -/
def literalTypeUpTo (arena : Arena) : Nat → NodeId → Option (Option Ty)
  | 0, _ => none
  | n + 1, id =>
    match arena.expr? id with
    | some (.int _) => some (some .int)
    | some (.float _) => some (some .float)
    | some (.string _) | some (.interpolated _) => some (some .string)
    | some (.array _) => some (some .array)
    | some (.const name) => some (keywordType? name)
    | some (.unary .minus operand) | some (.unary .plus operand) =>
      literalTypeUpTo arena n operand
    | _ => some none

/-- The type of a constant initializer.  The outer option is none when signs are nested in a
cycle. -/
def literalType (arena : Arena) (id : NodeId) : Option (Option Ty) :=
  arena.literalTypeUpTo (arena.size + 1) id

end Arena

/-- A part of a file whose declarations are collected. -/
structure DeclaredIn where
  arena : Arena
  file : String

namespace DeclaredIn

variable (cx : DeclaredIn)

def origin (id : NodeId) : Origin :=
  .source cx.file (cx.arena.line id)

/-- The declaration of a parameter; a hint wins over the comment. -/
def param (doc : Option String) (p : Param) : ParamInfo :=
  let declared := (p.typeHint.map Ty.ofHint).or (doc.bind fun d => Docblock.paramType? d p.name)
  let info : ParamInfo := { name := p.name }
  let info := ((info.withType? declared).withByRef p.byRef).withVariadic p.variadic
  match p.default with
  | some default =>
    if cx.arena.isNullConst default then info.withNullDefault else info.withDefault
  | none => info

/-- The declaration of a function; a hint wins over the comment. -/
def signature (name : String) (params : List Param) (returnType : Option Hint)
    (doc : Option String) (node : NodeId) : Signature :=
  let info : Signature :=
    { name
      returnType := (returnType.map Ty.ofHint).or (doc.bind Docblock.returnType?)
      deprecated := doc.any Docblock.isDeprecated
      origin := cx.origin node }
  info.withParams (params.map (cx.param doc))

/-- The property that a parameter of a constructor also declares. -/
def promoted? (isReadonly : Bool) (member : NodeId) (p : Param) : Option PropertyInfo :=
  p.promoted.map fun visibility =>
    { name := p.name, type := p.typeHint.map Ty.ofHint, visibility, isReadonly
      origin := cx.origin member }

def addMember (cls : ClassStmt) (info : ClassInfo) (member : NodeId) : Option ClassInfo :=
  match cx.arena.stmt? member with
  | some (.method fn) =>
    let method :=
      { cx.signature fn.name fn.params fn.returnType fn.docComment member with
        visibility := fn.visibility
        isStatic := fn.isStatic
        isAbstract := fn.isAbstract || fn.body.isNone }
    let promoted := fn.params.filterMap (cx.promoted? cls.isReadonly member)
    some ((promoted.foldl ClassInfo.addProperty info).addMethod method)
  | some (.property prop) =>
    let declared := (prop.typeHint.map Ty.ofHint).or
      (prop.docComment.bind fun d => (Docblock.varTag? d).map Prod.fst)
    some (info.addProperty
      { name := prop.name, type := declared, visibility := prop.visibility
        isStatic := prop.isStatic, isReadonly := prop.isReadonly || cls.isReadonly
        origin := cx.origin member })
  | some (.classConst name value) =>
    (cx.arena.literalType value).map fun type => info.addConstant { name, type }
  | some (.enumCase name _) =>
    some (if cls.kind == .enum then
        info.addConstant { name, type := some (Ty.ofClass cls.name) }
      else info)
  | some (.traitUse traits) => some { info with traits := info.traits ++ traits }
  | _ => some info

def classInfo (cls : ClassStmt) (node : NodeId) : Option ClassInfo :=
  cls.members.foldlM (cx.addMember cls)
    { name := cls.name, kind := cls.kind, parent := cls.extendedClass
      interfaces := cls.implemented, isAbstract := cls.isAbstract, isReadonly := cls.isReadonly
      origin := cx.origin node }

def defined (expr : NodeId) : Option (List Declaration) :=
  match cx.arena.expr? expr with
  | some (.call (.named callee) (name :: value :: _)) =>
    if Name.key callee == "define" then
      match cx.arena.expr? name.value with
      | some (.string name) =>
        (cx.arena.literalType value.value).map fun type => [.constant { name, type }]
      | _ => some []
    else some []
  | _ => some []

/-- The declarations of a statement, with a budget of nested statements. -/
def collectUpTo : Nat → NodeId → Option (List Declaration)
  | 0, _ => none
  | n + 1, id =>
    let all (stmts : List NodeId) : Option (List Declaration) :=
      (stmts.mapM (collectUpTo n)).map List.flatten
    match cx.arena.stmt? id with
    | some (.sourceFile _ stmts) | some (.block stmts) => all stmts
    | some (.ifStmt _ thenBranch elseIfs elseBranch) =>
      all (thenBranch ++ elseIfs.flatMap ElseIf.body ++ elseBranch.getD [])
    | some (.function fn) =>
      some [.function (cx.signature fn.name fn.params fn.returnType fn.docComment id)]
    | some (.classDecl cls) => (cx.classInfo cls id).map fun info => [.cls info]
    | some (.exprStmt expr _) => cx.defined expr
    | _ => some []

end DeclaredIn

/-- What a file declares, in order; none when its statements are nested in a cycle. -/
def SourceUnit.declarations (unit : SourceUnit) : Option (List Declaration) :=
  DeclaredIn.collectUpTo ⟨unit.arena, unit.file⟩ (unit.arena.size + 1) unit.root

def Index.addUnit (index : Index) (unit : SourceUnit) : Option Index :=
  unit.declarations.map index.addAll

end FlowTyping
