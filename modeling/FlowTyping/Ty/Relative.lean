import FlowTyping.Ty.Union

/-!
# Relative class names

A declaration may name a class by its place: `self` and `static` are the enclosing class, `parent`
the class it extends.  Outside its declaration such a type is read with the names filled in.
-/

namespace FlowTyping.Ty

mutual
/-- The tree with the class names that `f` knows replaced, in normal form again. -/
def mapNames (f : String → Option Ty) : Ty → Ty
  | .named name => (f name).getD (.named name)
  | .primitive kind => .primitive kind
  | .nullable inner => join (inner.mapNames f) null
  | .union members => unionOf (mapNamesAll f members)
  | .inter members => .inter (mapNamesAll f members)
/-- The trees of the list with the class names that `f` knows replaced. -/
def mapNamesAll (f : String → Option Ty) : List Ty → List Ty
  | [] => []
  | t :: ts => t.mapNames f :: mapNamesAll f ts
end

/-- The class, or objects of any class where there is none. -/
def ofClass? : Option String → Ty
  | some name => ofClass name
  | none => object

/-- The type inside `this`, a class that extends `parent`. -/
def resolveRelative (t : Ty) (this parent : Option String) : Ty :=
  if t.hasRelative then
    t.mapNames fun name =>
      if Name.sameWord name "parent" then some (ofClass? parent)
      else if isRelativeName name then some (ofClass? this)
      else none
  else t

/-- The type of a member found on an instance of `receiver`. -/
def rebindSelf (t : Ty) (receiver : String) : Ty :=
  if t.hasRelative then
    t.mapNames fun name =>
      if Name.sameWord name "self" || Name.sameWord name "static" || name == "$this" then
        some (ofClass receiver)
      else none
  else t

end FlowTyping.Ty
