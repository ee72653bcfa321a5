import FlowTyping.Ast.Codec
import FlowTyping.Scope.View
import FlowTyping.Ty.Printer

/-!
# Scopes as JSON

Scopes are written for inspection: a variable is a row of its name, type, marks, line and kind.
-/

namespace FlowTyping

open Json

namespace VarKind

def tag : VarKind → String
  | ordinary => "Local"
  | param => "Param"
  | global => "Global"
  | static => "Static"
  | captured => "Captured"
  | superglobal => "Superglobal"
  | this => "This"

def ofTag? (tag : String) : Option VarKind :=
  [ordinary, param, global, static, captured, superglobal, this].find? fun kind => kind.tag == tag

end VarKind

namespace Variable

/-- A letter for each mark that is set: used, written, changed type, by reference. -/
def marks (v : Variable) : String :=
  (if v.used then "u" else "") ++ (if v.written then "w" else "") ++
    (if v.typeChanged then "c" else "") ++ (if v.byReference then "r" else "")

def toJson (v : Variable) : Json :=
  .arr [.str v.name, ofOption (fun t => .str t.render) v.type, .str v.marks, ofUInt32 v.line,
    .str v.kind.tag]

end Variable

namespace ScopeFlags

def names (f : ScopeFlags) : List String :=
  [(f.isGlobal, "GLOBAL"), (f.isStatic, "STATIC"), (f.isStrict, "STRICT"),
    (f.isClosure, "CLOSURE"), (f.isArrow, "ARROW"), (f.isDynamic, "DYNAMIC")].filterMap
    fun (set, name) => if set then some name else none

def add? (f : ScopeFlags) : String → Option ScopeFlags
  | "GLOBAL" => some { f with isGlobal := true }
  | "STATIC" => some { f with isStatic := true }
  | "STRICT" => some { f with isStrict := true }
  | "CLOSURE" => some { f with isClosure := true }
  | "ARROW" => some { f with isArrow := true }
  | "DYNAMIC" => some { f with isDynamic := true }
  | _ => none

end ScopeFlags

/-- Writes a scope, with the types of those property chains that are listed.  Superglobals that the
code does not touch are left out. -/
def ScopeView.toJson (chains : List String) (view : ScopeView) : Json :=
  let touched := view.vars.filter fun (_, v) => v.kind != .superglobal || v.used || v.written
  let rows := touched.map fun (name, v) =>
    if name == v.name then v.toJson else .obj [("key", .str name), ("var", v.toJson)]
  let known := chains.filterMap fun chain =>
    (view.chains.get? chain).map fun t => Json.arr [.str chain, .str t.render]
  .obj [("flags", ofList .str view.flags.names), ("function", ofOption ofUInt32 view.function),
    ("vars", .arr rows), ("chains", .arr known)]

end FlowTyping
