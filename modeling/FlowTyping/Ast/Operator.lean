/-!
# Operators and modifiers

The closed vocabularies of the tree: operators, casts, visibilities, kinds of classes.  Each word
has the spelling under which dumps carry it (`tag`), and the spelling reads back (`ofTag?`).
-/

namespace FlowTyping

inductive BinaryOp where
  | add | sub | mul | div | mod | pow | concat
  | bitAnd | bitOr | bitXor | shiftLeft | shiftRight
  | boolAnd | boolOr | logicalAnd | logicalOr | logicalXor
  | equal | notEqual | identical | notIdentical
  | smaller | smallerOrEqual | greater | greaterOrEqual | spaceship
  | coalesce
  deriving DecidableEq, Repr, Inhabited

namespace BinaryOp

def tag : BinaryOp → String
  | add => "Add" | sub => "Sub" | mul => "Mul" | div => "Div" | mod => "Mod" | pow => "Pow"
  | concat => "Concat" | bitAnd => "BitAnd" | bitOr => "BitOr" | bitXor => "BitXor"
  | shiftLeft => "ShiftLeft" | shiftRight => "ShiftRight"
  | boolAnd => "BoolAnd" | boolOr => "BoolOr"
  | logicalAnd => "LogicalAnd" | logicalOr => "LogicalOr" | logicalXor => "LogicalXor"
  | equal => "Equal" | notEqual => "NotEqual"
  | identical => "Identical" | notIdentical => "NotIdentical"
  | smaller => "Smaller" | smallerOrEqual => "SmallerOrEqual"
  | greater => "Greater" | greaterOrEqual => "GreaterOrEqual"
  | spaceship => "Spaceship" | coalesce => "Coalesce"

def all : List BinaryOp :=
  [add, sub, mul, div, mod, pow, concat, bitAnd, bitOr, bitXor, shiftLeft, shiftRight,
   boolAnd, boolOr, logicalAnd, logicalOr, logicalXor, equal, notEqual, identical, notIdentical,
   smaller, smallerOrEqual, greater, greaterOrEqual, spaceship, coalesce]

def ofTag? (s : String) : Option BinaryOp :=
  all.find? fun op => op.tag == s

theorem ofTag?_tag (op : BinaryOp) : ofTag? op.tag = some op := by
  cases op <;> decide

/-- The operator as it is written in source code. -/
def sigil : BinaryOp → String
  | add => "+" | sub => "-" | mul => "*" | div => "/" | mod => "%" | pow => "**"
  | concat => "." | bitAnd => "&" | bitOr => "|" | bitXor => "^"
  | shiftLeft => "<<" | shiftRight => ">>"
  | boolAnd => "&&" | boolOr => "||"
  | logicalAnd => "and" | logicalOr => "or" | logicalXor => "xor"
  | equal => "==" | notEqual => "!=" | identical => "===" | notIdentical => "!=="
  | smaller => "<" | smallerOrEqual => "<=" | greater => ">" | greaterOrEqual => ">="
  | spaceship => "<=>" | coalesce => "??"

/-- Whether the right operand is evaluated only on one outcome of the left one. -/
def isShortCircuit : BinaryOp → Bool
  | boolAnd | boolOr | logicalAnd | logicalOr => true
  | _ => false

end BinaryOp

inductive UnaryOp where
  | not | minus | plus | bitNot
  deriving DecidableEq, Repr, Inhabited

namespace UnaryOp

def tag : UnaryOp → String
  | not => "Not" | minus => "Minus" | plus => "Plus" | bitNot => "BitNot"

def ofTag? (s : String) : Option UnaryOp :=
  [not, minus, plus, bitNot].find? fun op => op.tag == s

theorem ofTag?_tag (op : UnaryOp) : ofTag? op.tag = some op := by
  cases op <;> decide

end UnaryOp

/-- Increment and decrement, before or after the value is read. -/
inductive IncDecOp where
  | preInc | preDec | postInc | postDec
  deriving DecidableEq, Repr, Inhabited

namespace IncDecOp

def tag : IncDecOp → String
  | preInc => "PreInc" | preDec => "PreDec" | postInc => "PostInc" | postDec => "PostDec"

def ofTag? (s : String) : Option IncDecOp :=
  [preInc, preDec, postInc, postDec].find? fun op => op.tag == s

theorem ofTag?_tag (op : IncDecOp) : ofTag? op.tag = some op := by
  cases op <;> decide

end IncDecOp

inductive CastKind where
  | int | float | string | bool | array | object | unset
  deriving DecidableEq, Repr, Inhabited

namespace CastKind

def tag : CastKind → String
  | int => "Int" | float => "Float" | string => "String" | bool => "Bool" | array => "Array"
  | object => "Object" | unset => "Unset"

def ofTag? (s : String) : Option CastKind :=
  [int, float, string, bool, array, object, unset].find? fun kind => kind.tag == s

theorem ofTag?_tag (kind : CastKind) : ofTag? kind.tag = some kind := by
  cases kind <;> decide

end CastKind

/-- Who may use a member of a class. -/
inductive Visibility where
  | isPublic | isProtected | isPrivate
  deriving DecidableEq, Repr, Inhabited

namespace Visibility

def tag : Visibility → String
  | isPublic => "Public" | isProtected => "Protected" | isPrivate => "Private"

def ofTag? (s : String) : Option Visibility :=
  [isPublic, isProtected, isPrivate].find? fun v => v.tag == s

theorem ofTag?_tag (v : Visibility) : ofTag? v.tag = some v := by
  cases v <;> decide

end Visibility

inductive ClassKind where
  | plain | interface | trait | enum
  deriving DecidableEq, Repr, Inhabited

namespace ClassKind

def tag : ClassKind → String
  | plain => "Class" | interface => "Interface" | trait => "Trait" | enum => "Enum"

def ofTag? (s : String) : Option ClassKind :=
  [plain, interface, trait, enum].find? fun kind => kind.tag == s

theorem ofTag?_tag (kind : ClassKind) : ofTag? kind.tag = some kind := by
  cases kind <;> decide

end ClassKind

end FlowTyping
