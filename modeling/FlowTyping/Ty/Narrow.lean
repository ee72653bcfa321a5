import FlowTyping.Ty.Union

/-!
# Narrowing

A test on a value splits its type in two: what it can still be where the test held, and what it can
still be where it failed.
-/

namespace FlowTyping

/-- A test on the type of a value. -/
inductive Guard where
  | isNull
  | looseNull
  | instanceOf (className : String)
  | primitive (kind : Primitive)
  | truthy
  | isSet
  | empty
  deriving DecidableEq, Repr

/-- What a test says about a value on either outcome. -/
structure Narrowing where
  whenTrue : Option Ty := none
  whenFalse : Option Ty := none

namespace Narrowing

def swapped (r : Narrowing) : Narrowing :=
  ⟨r.whenFalse, r.whenTrue⟩

def isEmpty (r : Narrowing) : Bool :=
  r.whenTrue.isNone && r.whenFalse.isNone

end Narrowing

/-- Both sides of a test on a value of type `current`. -/
def Ty.narrow (current : Option Ty) : Guard → Narrowing
  | .isNull | .primitive .null => ⟨some .null, current.map .stripNull⟩
  | .looseNull => ⟨none, current.map .stripNull⟩
  | .instanceOf className => ⟨some (.ofClass className), current.map (·.without className)⟩
  | .primitive kind => ⟨some (.primitive kind), current.map (·.without kind.keyword)⟩
  | .truthy => ⟨current.map .stripNull, none⟩
  | .isSet => ⟨current.map .stripNull, some .null⟩
  | .empty => ⟨none, current.map .stripNull⟩

end FlowTyping
