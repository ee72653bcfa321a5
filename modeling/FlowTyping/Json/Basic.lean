import FlowTyping.Number.Double

/-!
# JSON values

The value behind a JSON text.  Fields keep the order and the repetitions of the text, because a
repeated field is a fault only where the field has a meaning.

* `Json`: values.
-/

namespace FlowTyping

inductive Json where
  | null
  | bool (b : Bool)
  /-- A whole number of 64 bits, written without point and exponent. -/
  | int (n : Int)
  /-- Any other number, as the shortest decimal for its value in double precision. -/
  | decimal (d : Decimal)
  | str (s : String)
  | arr (items : List Json)
  | obj (fields : List (String × Json))
  /-- A text that fits the grammar and denotes no value: a number beyond double precision, a string
  or a name of a field with half of a surrogate pair, or an array or object that is nested too
  deep.  It does no harm where it is passed over. -/
  | unreadable
  deriving Repr, Inhabited

namespace Json

def isNull : Json → Bool
  | .null => true
  | _ => false

def str? : Json → Option String
  | .str s => some s
  | _ => none

def bool? : Json → Option Bool
  | .bool b => some b
  | _ => none

def int? : Json → Option Int
  | .int n => some n
  | _ => none

/-- The whole number, if it fits in 32 bits without sign. -/
def uint32? : Json → Option UInt32
  | .int n => if 0 ≤ n && n < 4294967296 then some (UInt32.ofNat n.toNat) else none
  | _ => none

/-- The whole number, if it fits in 64 bits with sign. -/
def int64? : Json → Option Int64
  | .int n => if -9223372036854775808 ≤ n && n < 9223372036854775808 then some (Int64.ofInt n) else none
  | _ => none

/-- The number, whole or not, in double precision. -/
def decimal? : Json → Option Decimal
  | .int n => (Double.ofRatio? n.natAbs 1).map fun x => x.shortest.withSign (n < 0)
  | .decimal d => some d
  | _ => none

def items? : Json → Option (List Json)
  | .arr items => some items
  | _ => none

def fields? : Json → Option (List (String × Json))
  | .obj fields => some fields
  | _ => none

/-- The values of the fields called `name`, in order. -/
def valuesOf (name : String) (fields : List (String × Json)) : List Json :=
  fields.filterMap fun (key, value) => if key == name then some value else none

def lookup (name : String) : Json → Option Json
  | .obj fields => (valuesOf name fields).getLast?
  | _ => none

end Json

end FlowTyping
