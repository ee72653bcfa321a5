import FlowTyping.Symbol.Basic
import FlowTyping.Ty.Codec

/-!
# Declarations as JSON
-/

namespace FlowTyping

open Json

def Origin.toJson : Origin → Json
  | .builtin => .str "Builtin"
  | .source file line => .obj [("Ast", .obj [("file", .str file), ("line", ofUInt32 line)])]

def ParamInfo.toJson (p : ParamInfo) : Json :=
  .obj [("name", .str p.name), ("declared_type", ofOption Ty.toJson p.type),
    ("optional", .bool p.optional), ("by_ref", .bool p.byRef), ("nullable", .bool p.nullable),
    ("variadic", .bool p.variadic)]

def Signature.toJson (f : Signature) : Json :=
  .obj [("name", .str f.name), ("params", ofList ParamInfo.toJson f.params),
    ("return_type", ofOption Ty.toJson f.returnType), ("variadic", .bool f.variadic),
    ("deprecated", .bool f.deprecated), ("access", .str f.visibility.tag),
    ("is_static", .bool f.isStatic), ("is_abstract", .bool f.isAbstract),
    ("source", f.origin.toJson)]

def PropertyInfo.toJson (p : PropertyInfo) : Json :=
  .obj [("name", .str p.name), ("declared_type", ofOption Ty.toJson p.type),
    ("access", .str p.visibility.tag), ("is_static", .bool p.isStatic),
    ("is_readonly", .bool p.isReadonly), ("source", p.origin.toJson)]

def ConstantInfo.toJson (c : ConstantInfo) : Json :=
  .obj [("name", .str c.name), ("ty", ofOption Ty.toJson c.type)]

def Dict.toJson {α : Type} (write : α → Json) (members : Dict α) : Json :=
  .obj (members.entries.map fun (name, member) => (name, write member))

def ClassInfo.toJson (c : ClassInfo) : Json :=
  .obj [("name", .str c.name), ("kind", .str c.kind.tag), ("parent", ofOption .str c.parent),
    ("interfaces", ofList .str c.interfaces), ("traits", ofList .str c.traits),
    ("methods", c.methods.toJson Signature.toJson),
    ("properties", c.properties.toJson PropertyInfo.toJson),
    ("constants", c.constants.toJson ConstantInfo.toJson), ("is_abstract", .bool c.isAbstract),
    ("is_readonly", .bool c.isReadonly), ("source", c.origin.toJson)]

end FlowTyping
