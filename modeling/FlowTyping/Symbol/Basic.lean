import FlowTyping.Ast.Node
import FlowTyping.Dict

/-!
# Declarations

What is known of the functions, classes and constants of a program from their declarations alone.

* `Signature`: a function or method.
-/

namespace FlowTyping

/-- Where a declaration stands. -/
inductive Origin where
  | builtin
  | source (file : String) (line : Line)
  deriving DecidableEq, Repr, Inhabited

structure ParamInfo where
  name : String
  type : Option Ty := none
  optional : Bool := false
  byRef : Bool := false
  nullable : Bool := false
  variadic : Bool := false
  deriving Inhabited

namespace ParamInfo

/-- Declares the type of the parameter, if it is given. -/
def withType? (p : ParamInfo) : Option Ty → ParamInfo
  | some t => { p with type := some t, nullable := t.containsNull }
  | none => p

/-- Marks a parameter that is passed by reference. -/
def withByRef (p : ParamInfo) (byRef : Bool) : ParamInfo :=
  { p with byRef := p.byRef || byRef }

/-- Marks a parameter that takes all remaining arguments. -/
def withVariadic (p : ParamInfo) (variadic : Bool) : ParamInfo :=
  { p with variadic := p.variadic || variadic, optional := p.optional || variadic }

def withDefault (p : ParamInfo) : ParamInfo :=
  { p with optional := true }

/-- Marks a parameter whose default value is null, which its type then admits. -/
def withNullDefault (p : ParamInfo) : ParamInfo :=
  { p with optional := true, nullable := true, type := p.type.map fun t => t.join .null }

end ParamInfo

structure Signature where
  name : String
  params : List ParamInfo := []
  returnType : Option Ty := none
  variadic : Bool := false
  deprecated : Bool := false
  visibility : Visibility := .isPublic
  isStatic : Bool := false
  isAbstract : Bool := false
  origin : Origin := .builtin
  deriving Inhabited

namespace Signature

/-- Declares the parameters; the function is variadic when one of them is. -/
def withParams (f : Signature) (params : List ParamInfo) : Signature :=
  { f with params, variadic := params.any (·.variadic) }

/-- The parameter of the argument at a position; a variadic last parameter takes every argument
beyond it. -/
def paramAt? (f : Signature) (position : Nat) : Option ParamInfo :=
  match f.params[position]? with
  | some p => some p
  | none => f.params.getLast?.filter (·.variadic)

def paramNamed? (f : Signature) (name : String) : Option ParamInfo :=
  f.params.find? fun p => p.name == name

/-- The number of parameters that need an argument. -/
def requiredCount (f : Signature) : Nat :=
  f.params.countP fun p => !p.optional

end Signature

structure PropertyInfo where
  name : String
  type : Option Ty := none
  visibility : Visibility := .isPublic
  isStatic : Bool := false
  isReadonly : Bool := false
  origin : Origin := .builtin
  deriving Inhabited

structure ConstantInfo where
  name : String
  type : Option Ty := none
  deriving Inhabited

/-- A declared class, interface, trait or enumeration. -/
structure ClassInfo where
  name : String
  kind : ClassKind := .plain
  parent : Option String := none
  interfaces : List String := []
  traits : List String := []
  methods : Dict Signature := {}
  properties : Dict PropertyInfo := {}
  constants : Dict ConstantInfo := {}
  isAbstract : Bool := false
  isReadonly : Bool := false
  origin : Origin := .builtin
  deriving Inhabited

namespace ClassInfo

/-- Adds a method; one of the same name is replaced. -/
def addMethod (c : ClassInfo) (method : Signature) : ClassInfo :=
  { c with methods := c.methods.insert (Name.foldCase method.name) method }

/-- Adds a property; one of the same name is replaced. -/
def addProperty (c : ClassInfo) (property : PropertyInfo) : ClassInfo :=
  { c with properties := c.properties.insert property.name property }

/-- Adds a constant; one of the same name is replaced. -/
def addConstant (c : ClassInfo) (constant : ConstantInfo) : ClassInfo :=
  { c with constants := c.constants.insert constant.name constant }

def ownMethod? (c : ClassInfo) (name : String) : Option Signature :=
  c.methods.get? (Name.foldCase name)

/-- The classes that a class is built on, in the order in which members are searched. -/
def bases (c : ClassInfo) : List String :=
  c.traits ++ c.parent.toList ++ c.interfaces

def isEnum (c : ClassInfo) : Bool :=
  c.kind == .enum

def isInterface (c : ClassInfo) : Bool :=
  c.kind == .interface

end ClassInfo

end FlowTyping
