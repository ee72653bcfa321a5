import FlowTyping.Symbol.Basic

/-!
# The symbol index

All declarations of a program, by name.  Classes and functions are found without regard to case and
leading separators, constants without regard to leading separators.  A later declaration of a name
replaces an earlier one.

* `Index`, `Index.add`: the index and how it grows.
* `Index.class?`, `Index.function?`, `Index.constant?`: the declaration of a name.
-/

namespace FlowTyping

/-- A declaration at the top level of a program. -/
inductive Declaration where
  | cls (info : ClassInfo)
  | function (info : Signature)
  | constant (info : ConstantInfo)

structure Index where
  classes : Dict ClassInfo := {}
  functions : Dict Signature := {}
  constants : Dict ConstantInfo := {}
  deriving Inhabited

namespace Index

def addClass (index : Index) (info : ClassInfo) : Index :=
  { index with classes := index.classes.insert (Name.key info.name) info }

def addFunction (index : Index) (info : Signature) : Index :=
  { index with functions := index.functions.insert (Name.key info.name) info }

def addConstant (index : Index) (info : ConstantInfo) : Index :=
  { index with constants := index.constants.insert (Name.unqualified info.name) info }

def add (index : Index) : Declaration → Index
  | .cls info => index.addClass info
  | .function info => index.addFunction info
  | .constant info => index.addConstant info

def addAll (index : Index) (declarations : List Declaration) : Index :=
  declarations.foldl add index

def class? (index : Index) (name : String) : Option ClassInfo :=
  index.classes.get? (Name.key name)

def function? (index : Index) (name : String) : Option Signature :=
  index.functions.get? (Name.key name)

def constant? (index : Index) (name : String) : Option ConstantInfo :=
  index.constants.get? (Name.unqualified name)

/-- A walk up a class hierarchy looks at this many names at most. -/
def maxHierarchy : Nat := 256

/-- The declarations of the queued names and of what they are built on, breadth first.  A name in
`seen` is passed over; `budget` more names may be looked at. -/
def walk (index : Index) : (budget : Nat) → (seen queue : List String) → List ClassInfo
  | 0, _, _ => []
  | budget + 1, seen, queue =>
    match queue.dropWhile fun name => seen.contains (Name.foldCase name) with
    | [] => []
    | name :: rest =>
      let seen := Name.foldCase name :: seen
      match index.class? name with
      | none => walk index budget seen rest
      | some info => info :: walk index budget seen (rest ++ info.bases)

/-- The class called `name` and what it is built on: traits, parent and interfaces of each class,
breadth first. -/
def hierarchy (index : Index) (name : String) : List ClassInfo :=
  walk index maxHierarchy [] [name]

def method? (index : Index) (cls name : String) : Option Signature :=
  (index.hierarchy cls).findSome? fun info => info.ownMethod? name

def property? (index : Index) (cls name : String) : Option PropertyInfo :=
  (index.hierarchy cls).findSome? fun info => info.properties.get? name

def classConstant? (index : Index) (cls name : String) : Option ConstantInfo :=
  (index.hierarchy cls).findSome? fun info => info.constants.get? name

/-- Whether `cls` is `ancestor` or is built on it. -/
def isSubclass (index : Index) (cls ancestor : String) : Bool :=
  (index.hierarchy cls).any fun info => Name.sameWord info.name (Name.unqualified ancestor)

end Index

end FlowTyping
