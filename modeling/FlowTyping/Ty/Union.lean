import FlowTyping.Ty.Basic

/-!
# Unions and equality of types

A union is a set of options.  Two trees are the same type when they agree up to the spelling of
class names and the order of members; unions are built flat and without repeated options.

* `Ty.unionOf`, `Ty.join`, `Ty.join?`: unions in normal form.

Equality of a nullable type and a union is decided on the normal form of the nullable type, and the
normal form is built with equality of the options.  The options lie below the root, so equality is
defined level by level (`eqvUpTo`) and `eqv` looks as deep as its arguments go.
-/

namespace FlowTyping.Ty

/-- A union with more options than this is widened to `mixed`. -/
def maxOptions : Nat := 64

mutual
/-- The options of a type, in order, with unions and nullable types opened. -/
def leaves : Ty → List Ty
  | .nullable inner => inner.leaves ++ [null]
  | .union members => leavesOfAll members
  | other => [other]
def leavesOfAll : List Ty → List Ty
  | [] => []
  | t :: ts => t.leaves ++ leavesOfAll ts
end

def addOption (eq : Ty → Ty → Bool) (options : List Ty) (t : Ty) : List Ty :=
  if options.any (eq · t) then options else options ++ [t]

/-- The first of each group of equal options, in order. -/
def distinct (eq : Ty → Ty → Bool) (options : List Ty) : List Ty :=
  options.foldl (addOption eq) []

/-- The type with the given distinct options: one option stands for itself, none or too many say
nothing. -/
def ofOptions : List Ty → Ty
  | [] => mixed
  | [t] => t
  | options => if options.length > maxOptions then mixed else .union options

/-- The union of `types` in normal form, with equality of options given by `eq`. -/
def unionWith (eq : Ty → Ty → Bool) (types : List Ty) : Ty :=
  let options := leavesOfAll types
  if options.any isMixed then mixed else ofOptions (distinct eq options)

/-- Equally many members, and each of the first list is found in the second. -/
def sameMembers (eq : Ty → Ty → Bool) (xs ys : List Ty) : Bool :=
  xs.length == ys.length && xs.all fun x => ys.any fun y => eq y x

/-- Equality of types that are less than the given number of levels deep. -/
def eqvUpTo : Nat → Ty → Ty → Bool
  | 0, _, _ => false
  | n + 1, a, b =>
    match a, b with
    | .named x, .named y => Name.same x y
    | .primitive p, .primitive q => p == q
    | .nullable s, .nullable t => eqvUpTo n s t
    | .union xs, .union ys => sameMembers (eqvUpTo n) xs ys
    | .inter xs, .inter ys => sameMembers (eqvUpTo n) xs ys
    | .nullable s, .union ys =>
      sameMembers (eqvUpTo n) (unionWith (eqvUpTo n) [s, null]).members ys
    | .union xs, .nullable t =>
      sameMembers (eqvUpTo n) (unionWith (eqvUpTo n) [t, null]).members xs
    | _, _ => false

/-- Equality of types: class names up to case and leading separators, members in any order, `?T`
as `T|null`. -/
def eqv (a b : Ty) : Bool :=
  eqvUpTo (max a.depth b.depth + 1) a b

instance : BEq Ty := ⟨eqv⟩

/-- The union of `types`: flat, without repeated options, and `mixed` when it says nothing. -/
def unionOf (types : List Ty) : Ty :=
  unionWith eqv types

def join (a b : Ty) : Ty :=
  unionOf [a, b]

/-- The union of two types that may be unknown; one unknown side leaves nothing known. -/
def join? (a b : Option Ty) : Option Ty := do
  return join (← a) (← b)

def normalize : Ty → Ty
  | .union members => unionOf [.union members]
  | .nullable inner => unionOf [.nullable inner]
  | other => other

/-- The type without its null option; the null type alone stays. -/
def stripNull : Ty → Ty
  | .nullable inner => inner.stripNull
  | .union members =>
    match members.filter fun m => !m.isNull with
    | [] => null
    | kept => unionOf kept
  | other => other

def isOptionCalled (name : String) (t : Ty) : Bool :=
  match t.optionName? with
  | some n => Name.same n name
  | none => false

/-- The type without the options called `name`, unless none would remain. -/
def without (t : Ty) (name : String) : Ty :=
  match t.normalize with
  | .union members =>
    let kept := members.filter fun m => !m.isOptionCalled name
    if kept.isEmpty || kept.length == members.length then .union members else unionOf kept
  | other => other

/-- Whether `t` is the built-in type that `name` declares. -/
def isPrimitiveCalled (t : Ty) (name : String) : Bool :=
  match t, Primitive.ofName? name with
  | .primitive kind, some wanted => kind == wanted
  | _, _ => false

end FlowTyping.Ty
