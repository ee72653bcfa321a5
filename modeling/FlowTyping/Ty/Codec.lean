import FlowTyping.Ast.Codec

/-!
# Types as JSON

A type is written as the tree it is, so that reading gives the very same tree back.

* `Ty.toJson`, `Ty.ofJson?`: writing and reading.
-/

namespace FlowTyping

namespace Primitive

def tag : Primitive → String
  | .int => "Int"
  | .float => "Float"
  | .string => "String"
  | .bool => "Bool"
  | .array => "Array"
  | .object => "Object"
  | .callable => "Callable"
  | .closure => "Closure"
  | .null => "Null"
  | .void => "Void"
  | .mixed => "Mixed"

def ofTag? (tag : String) : Option Primitive :=
  all.find? fun kind => kind.tag == tag

end Primitive

namespace Ty

mutual
def toJson : Ty → Json
  | .named name => .obj [("Named", .str name)]
  | .primitive kind => .obj [("Primitive", .str kind.tag)]
  | .nullable inner => .obj [("Nullable", inner.toJson)]
  | .union members => .obj [("Union", .arr (toJsonItems members))]
  | .inter members => .obj [("Intersection", .arr (toJsonItems members))]
def toJsonItems : List Ty → List Json
  | [] => []
  | t :: ts => t.toJson :: toJsonItems ts
end

mutual
def ofJson? : Json → Option Ty
  | .obj [("Named", .str name)] => some (.named name)
  | .obj [("Primitive", kind)] => (Json.word? Primitive.ofTag? kind).map .primitive
  | .obj [("Nullable", inner)] => (ofJson? inner).map .nullable
  | .obj [("Union", .arr items)] => (ofJsonItems? items).map .union
  | .obj [("Intersection", .arr items)] => (ofJsonItems? items).map .inter
  | _ => none
def ofJsonItems? : List Json → Option (List Ty)
  | [] => some []
  | item :: items =>
    match ofJson? item, ofJsonItems? items with
    | some t, some ts => some (t :: ts)
    | _, _ => none
end

end Ty

end FlowTyping
