/-!
# Decimal numbers
-/

namespace FlowTyping

/-- The number `digits * 10 ^ exponent`, with its sign. -/
structure Decimal where
  negative : Bool
  digits : Nat
  exponent : Int
  deriving DecidableEq, Repr, Inhabited

namespace Decimal

def zero : Decimal :=
  ⟨false, 0, 0⟩

def digitCount (n : Nat) : Nat :=
  (Nat.toDigits 10 n).length

/-- The number `digits * 10 ^ exponent` with up to `fuel` trailing zeros of the digits moved into
the exponent. -/
def dropZeros : Nat → Nat → Int → Decimal
  | 0, digits, exponent => ⟨false, digits, exponent⟩
  | fuel + 1, digits, exponent =>
    if digits % 10 == 0 then dropZeros fuel (digits / 10) (exponent + 1)
    else ⟨false, digits, exponent⟩

/-- The number `digits * 10 ^ exponent`, written with the fewest digits. -/
def ofDigits (digits : Nat) (exponent : Int) : Decimal :=
  if digits == 0 then zero else dropZeros (digitCount digits) digits exponent

def withSign (d : Decimal) (negative : Bool) : Decimal :=
  { d with negative }

end Decimal

end FlowTyping
