import FlowTyping.Number.Decimal

/-!
# Numbers of double precision

A number read from a text is a number of double precision: 53 binary digits, none of them below
`2 ^ -1074`.  Every such number is a whole multiple of `2 ^ -1074`, so it is kept as a whole number
of these units, and rounding happens in exact arithmetic.

Main statement: `roundDiv` is off by half a unit at most.
-/

namespace FlowTyping

/-- The quotient as a whole number, rounded to the nearest; a half goes to the even neighbour. -/
def roundDiv (num den : Nat) : Nat :=
  let quotient := num / den
  let twice := 2 * (num % den)
  if twice < den || (twice == den && quotient % 2 == 0) then quotient else quotient + 1

theorem roundDiv_close (num den : Nat) (h : 0 < den) :
    2 * (roundDiv num den * den) ≤ 2 * num + den ∧
      2 * num ≤ 2 * (roundDiv num den * den) + den := by
  have hdiv := Nat.div_add_mod num den
  have hmod := Nat.mod_lt num h
  have hcomm : num / den * den = den * (num / den) := Nat.mul_comm _ _
  have hsucc : (num / den + 1) * den = num / den * den + den := Nat.succ_mul _ _
  unfold roundDiv
  simp only
  split
  · rename_i hround
    have : 2 * (num % den) ≤ den := by
      simp only [Bool.or_eq_true, Bool.and_eq_true, decide_eq_true_eq, beq_iff_eq] at hround
      omega
    omega
  · rename_i hround
    have : den ≤ 2 * (num % den) := by
      simp only [Bool.or_eq_true, Bool.and_eq_true, decide_eq_true_eq, beq_iff_eq] at hround
      omega
    omega

/-- A number of double precision without its sign, in units of `2 ^ -1074`. -/
structure Double where
  units : Nat
  deriving DecidableEq, Repr, Inhabited

namespace Double

def one : Nat :=
  Nat.pow 2 1074

/-- The nearest number to `num / den`.  The last of the 53 binary digits decides what it is rounded
to, and what is rounded to `2 ^ 1024` or more is no number. -/
def ofRatio? (num den : Nat) : Option Double :=
  let step := Nat.pow 2 (Nat.log2 (num * one / den) - 52)
  let units := roundDiv (num * one) (den * step) * step
  if units < Nat.pow 2 1024 * one then some ⟨units⟩ else none

def tenPower? (exponent : Nat) : Option Double :=
  ofRatio? (Nat.pow 10 exponent) 1

/-- The product of a number with a power of ten, rounded. -/
def timesTenPower? (x : Double) (exponent : Nat) : Option Double := do
  let power ← tenPower? exponent
  ofRatio? (x.units * power.units) (one * one)

/-- The quotient of a number by a power of ten, rounded. -/
def overTenPower? (x : Double) (exponent : Nat) : Option Double := do
  let power ← tenPower? exponent
  ofRatio? x.units power.units

/-- The largest exponent of a power of ten that is a number. -/
def maxTenPower : Nat :=
  308

/-- The number that digits and an exponent stand for.  It is rounded at every step: the digits, the
power of ten, and the product or quotient of the two.  A quotient by a power of ten that is no
number is taken in two steps, and is zero where those are not enough. -/
def ofScientific? (digits : Nat) (exponent : Int) : Option Double := do
  let size := exponent.natAbs
  let x ← ofRatio? digits 1
  if digits == 0 then return x
  else if 0 ≤ exponent then
    if size ≤ maxTenPower then x.timesTenPower? size else none
  else if size ≤ maxTenPower then x.overTenPower? size
  else if size ≤ 2 * maxTenPower then
    (← x.overTenPower? maxTenPower).overTenPower? (size - maxTenPower)
  else return ⟨0⟩

/-- The number `digits * 10 ^ exponent` as a fraction. -/
def fraction (digits : Nat) (exponent : Int) : Nat × Nat :=
  (digits * Nat.pow 10 exponent.toNat, Nat.pow 10 (-exponent).toNat)

/-- The number of digits in front of the point; for a number below one, the number of zeros right
behind the point, taken negative. -/
def magnitude (x : Double) : Int :=
  if one ≤ x.units then Decimal.digitCount (x.units / one)
  else 1 - (Decimal.digitCount (one / x.units) : Int)

/-- The multiple of `10 ^ exponent` that rounds back to the number, if there is one; the nearest is
tried first, then the one below and the one above. -/
def wholeAt? (x : Double) (exponent : Int) : Option Nat :=
  let num := x.units * Nat.pow 10 (-exponent).toNat
  let den := one * Nat.pow 10 exponent.toNat
  let quotient := num / den
  [roundDiv num den, quotient, quotient + 1].find? fun digits =>
    let (n, d) := fraction digits exponent
    ofRatio? n d == some x

/-- The decimal number with the fewest digits that rounds back to the number.  Seventeen digits are
always enough. -/
def shortest (x : Double) : Decimal :=
  if x.units == 0 then .zero
  else
    let found := (List.range 17).findSome? fun (count : Nat) =>
      let exponent := x.magnitude - (count + 1)
      (x.wholeAt? exponent).map fun (digits : Nat) => Decimal.ofDigits digits exponent
    found.getD .zero

end Double

end FlowTyping
