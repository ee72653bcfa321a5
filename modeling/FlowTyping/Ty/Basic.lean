import FlowTyping.Name

/-!
# Types

What the analysis knows about a value: a class, a built-in type, or a combination of those.

* `Primitive`: the built-in types, each with the keyword that declares it.
-/

namespace FlowTyping

inductive Primitive where
  | int
  | float
  | string
  | bool
  | array
  | object
  | callable
  | closure
  | null
  | void
  | mixed
  deriving DecidableEq, Repr, Inhabited

namespace Primitive

/-- Every built-in type, in the order in which they are listed to the user. -/
def all : List Primitive :=
  [.int, .float, .string, .bool, .array, .object, .callable, .closure, .null, .void, .mixed]

def keyword : Primitive → String
  | .int => "int"
  | .float => "float"
  | .string => "string"
  | .bool => "bool"
  | .array => "array"
  | .object => "object"
  | .callable => "callable"
  | .closure => "Closure"
  | .null => "null"
  | .void => "void"
  | .mixed => "mixed"

/-- The built-in type that a name declares, under any of its spellings. -/
def ofName? (name : String) : Option Primitive :=
  match Name.key name with
  | "int" | "integer" => some .int
  | "float" | "double" => some .float
  | "string" => some .string
  | "bool" | "boolean" => some .bool
  | "array" => some .array
  | "object" => some .object
  | "callable" => some .callable
  | "closure" => some .closure
  | "null" => some .null
  | "void" => some .void
  | "mixed" => some .mixed
  | _ => none

end Primitive

/-- Type trees. -/
inductive Ty where
  | named (name : String)
  | primitive (kind : Primitive)
  | nullable (inner : Ty)
  | union (members : List Ty)
  | inter (members : List Ty)
  deriving Repr, Inhabited

namespace Ty

/-- The class written `name`; one namespace separator in front is dropped. -/
def ofClass (name : String) : Ty :=
  .named (Name.dropSeparator name)

abbrev int : Ty := .primitive .int
abbrev float : Ty := .primitive .float
abbrev string : Ty := .primitive .string
abbrev bool : Ty := .primitive .bool
abbrev array : Ty := .primitive .array
abbrev object : Ty := .primitive .object
abbrev callable : Ty := .primitive .callable
abbrev closure : Ty := .primitive .closure
abbrev null : Ty := .primitive .null
abbrev void : Ty := .primitive .void
abbrev mixed : Ty := .primitive .mixed

def isMixed : Ty → Bool
  | .primitive .mixed => true
  | _ => false

/-- Whether this is the type of the null value alone. -/
def isNull : Ty → Bool
  | .primitive .null => true
  | _ => false

def isUnion : Ty → Bool
  | .union _ => true
  | _ => false

/-- Whether the tree is written with an operator between members, and so needs brackets inside
another such tree. -/
def isCompound : Ty → Bool
  | .union _ | .inter _ => true
  | _ => false

def className? : Ty → Option String
  | .named name => some name
  | _ => none

/-- The options of a union; any other type is its own only option. -/
def members : Ty → List Ty
  | .union members => members
  | other => [other]

/-- The name by which an option is left out of a union: a class name or a keyword. -/
def optionName? : Ty → Option String
  | .named name => some name
  | .primitive kind => some kind.keyword
  | _ => none

mutual
def containsNull : Ty → Bool
  | .primitive .null | .nullable _ => true
  | .union members => anyContainsNull members
  | _ => false
/-- Whether the null value is an option of some member. -/
def anyContainsNull : List Ty → Bool
  | [] => false
  | t :: ts => t.containsNull || anyContainsNull ts
end

/-- Whether a class name stands for a class by its place in the code. -/
def isRelativeName (name : String) : Bool :=
  Name.sameWord name "self" || Name.sameWord name "static" || Name.sameWord name "parent" ||
    name == "$this"

mutual
/-- Whether some class in the tree is named by its place in the code. -/
def hasRelative : Ty → Bool
  | .named name => isRelativeName name
  | .primitive _ => false
  | .nullable inner => inner.hasRelative
  | .union members => anyHasRelative members
  | .inter members => anyHasRelative members
/-- Whether some tree of the list names a class by its place in the code. -/
def anyHasRelative : List Ty → Bool
  | [] => false
  | t :: ts => t.hasRelative || anyHasRelative ts
end

mutual
def depth : Ty → Nat
  | .named _ | .primitive _ => 0
  | .nullable inner => inner.depth + 1
  | .union members => depthOfAll members + 1
  | .inter members => depthOfAll members + 1
def depthOfAll : List Ty → Nat
  | [] => 0
  | t :: ts => max t.depth (depthOfAll ts)
end

end Ty

end FlowTyping
