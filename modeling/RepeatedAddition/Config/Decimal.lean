import RepeatedAddition.Text.Basic

/-!
# Decimal numbers

A decimal number is a sign, a whole coefficient and a power of ten by which it is scaled.  The same
value can be written with different coefficients: `1.5` and `1.50` are equal and keep their own
text.

Arithmetic keeps at most a given number of digits, a half being rounded away from zero, and
exponents have their limits.

* `Decimal.sum`, `Decimal.product`, `Decimal.quotient`: arithmetic, which fails beyond the limits.
* `Decimal.order`: the order of the values.
* `Decimal.text`: plain notation, or scientific notation where the number is scaled up or very
  small.
-/

namespace RepeatedAddition

namespace Config

/-- The number `± coefficient * 10 ^ exponent`.  A zero keeps its sign. -/
structure Decimal where
  negative : Bool
  coefficient : Nat
  exponent : Int
  deriving DecidableEq, Repr

namespace Decimal

/-! ## Whole numbers -/

/-- The decimal of a natural number. -/
def ofNat (n : Nat) : Decimal := ⟨false, n, 0⟩

/-- The decimal of a whole number. -/
def ofInt (n : Int) : Decimal := ⟨n < 0, n.natAbs, 0⟩

/-- Whether the value is zero. -/
def isZero (d : Decimal) : Bool := d.coefficient = 0

/-- The number with the other sign; a zero is left without one. -/
def negated (d : Decimal) : Decimal := { d with negative := !d.negative && !d.isZero }

/-! ## Digits -/

/-- Raises an estimate, at most `limit` times, until the power of ten with that exponent exceeds the
number. -/
def raiseWidth (n : Nat) : Nat → Nat → Nat
  | 0, guess => guess
  | limit + 1, guess => if Nat.pow 10 guess ≤ n then raiseWidth n limit (guess + 1) else guess

/-- The number of decimal digits.  The number of binary digits, times the logarithm of two, is at
most three below. -/
def width (n : Nat) : Nat := raiseWidth n 4 (max 1 (Nat.log2 n * 30103 / 100000 - 1))

/-- The exponent of the first digit. -/
def adjusted (d : Decimal) : Int := d.exponent + width d.coefficient - 1

/-- The digits of a coefficient, scaled down by a power of ten and rounded, a half away from
zero. -/
def roundedDown (coefficient places : Nat) : Nat :=
  let divisor := Nat.pow 10 places
  let quotient := coefficient / divisor
  if divisor ≤ 2 * (coefficient % divisor) then quotient + 1 else quotient

/-- The number with at most `digits` digits. -/
def rounded (digits : Nat) (d : Decimal) : Decimal :=
  let excess := width d.coefficient - digits
  if excess = 0 then d
  else
    let coefficient := roundedDown d.coefficient excess
    if digits < width coefficient then ⟨d.negative, coefficient / 10, d.exponent + excess + 1⟩
    else ⟨d.negative, coefficient, d.exponent + excess⟩

/-- The largest exponent, also of the first digit, and the negative of the smallest one. -/
def largestExponent : Int := 100000

/-- Whether an exponent is within the limits. -/
def isExponent (e : Int) : Bool := -largestExponent ≤ e && e ≤ largestExponent

/-- Whether a number is within the limits. -/
def isWithin (d : Decimal) : Bool := isExponent d.exponent && isExponent d.adjusted

/-! ## Order -/

/-- The value, as a whole number of units of a power of ten that is not larger than its own. -/
def units (d : Decimal) (exponent : Int) : Int :=
  let magnitude : Int := (d.coefficient * Nat.pow 10 (d.exponent - exponent).toNat : Nat)
  if d.negative then -magnitude else magnitude

/-- The order of two values. -/
def order (a b : Decimal) : Ordering :=
  let exponent := min a.exponent b.exponent
  compare (a.units exponent) (b.units exponent)

/-- The largest whole number that is not above the value. -/
def floor (d : Decimal) : Int :=
  if 0 ≤ d.exponent then d.units 0 else
    Int.fdiv (d.units d.exponent) (Nat.pow 10 (-d.exponent).toNat : Nat)

/-- The smallest whole number that is not below the value. -/
def ceiling (d : Decimal) : Int := -({ d with negative := !d.negative } : Decimal).floor

/-! ## Arithmetic -/

/-- Why arithmetic has no result. -/
inductive Fault where
  | outOfRange
  | addOutOfRange
  | divisionByZero
  | divisionUndefined
  deriving DecidableEq, Repr

/-- What is said of a fault. -/
def Fault.message : Fault → String
  | .outOfRange => "exponent out of range"
  | .addOutOfRange => "add: exponent out of range"
  | .divisionByZero => "division by zero"
  | .divisionUndefined => "division undefined"

/-- The number with at most `digits` digits, if it is within the limits before and after. -/
def settled (digits : Nat) (d : Decimal) : Except Fault Decimal :=
  let r := d.rounded digits
  if r.isWithin then .ok r else .error .outOfRange

/-- The sum.  Where two numbers of different signs cancel each other the zero has no sign. -/
def sum (digits : Nat) (a b : Decimal) : Except Fault Decimal :=
  if largestExponent < (a.exponent - b.exponent).natAbs then .error .addOutOfRange
  else
    let exponent := min a.exponent b.exponent
    let total := a.units exponent + b.units exponent
    let negative := if total = 0 then a.negative && b.negative else total < 0
    settled digits ⟨negative, total.natAbs, exponent⟩

/-- The difference. -/
def difference (digits : Nat) (a b : Decimal) : Except Fault Decimal :=
  sum digits a { b with negative := !b.negative }

/-- The product.  It is negative when the signs differ, also where it is zero. -/
def product (digits : Nat) (a b : Decimal) : Except Fault Decimal :=
  let d : Decimal :=
    ⟨a.negative != b.negative, a.coefficient * b.coefficient, a.exponent + b.exponent⟩
  if d.isWithin then settled digits d else .error .outOfRange

/-- Takes zeros off the end of a coefficient, at most `limit` of them. -/
def reduced : Nat → Decimal → Decimal
  | 0, d => d
  | limit + 1, d =>
    if d.coefficient % 10 = 0 && !d.isZero then
      reduced limit { d with coefficient := d.coefficient / 10, exponent := d.exponent + 1 }
    else d

/-- The number without zeros at the end, except that a number with a fraction keeps one digit of
it. -/
def tidied (digits : Nat) (d : Decimal) : Decimal :=
  let r := if d.isZero then { d with exponent := 0 } else reduced digits d
  if d.exponent < 0 && 0 ≤ r.exponent then
    { r with coefficient := r.coefficient * 10, exponent := r.exponent - 1 }
  else r

/-- The quotient. -/
def quotient (digits : Nat) (a b : Decimal) : Except Fault Decimal :=
  let negative := a.negative != b.negative
  if b.isZero then .error (if a.isZero then .divisionUndefined else .divisionByZero)
  else if a.isZero then
    let d : Decimal := ⟨negative, 0, a.exponent - b.exponent⟩
    if d.isWithin then .ok (d.tidied digits) else .error .outOfRange
  else
    -- one digit more than are kept, so that only the remainder can be left out of the rounding
    let shift : Int := digits + 1 + width b.coefficient - width a.coefficient
    let dividend := a.coefficient * Nat.pow 10 shift.toNat
    let divisor := b.coefficient * Nat.pow 10 (-shift).toNat
    let quotient := dividend / divisor * 10 + if dividend % divisor = 0 then 0 else 1
    match settled digits ⟨negative, quotient, a.exponent - b.exponent - shift - 1⟩ with
    | .ok d => .ok (d.tidied digits)
    | .error fault => .error fault

/-! ## Text -/

/-- Plain notation, for an exponent that is not positive. -/
def plainText (d : Decimal) : Text :=
  let digits := Text.decimal d.coefficient
  let behind := (-d.exponent).toNat
  if behind = 0 then digits
  else if digits.length ≤ behind then
    Text.lit "0." ++ List.replicate (behind - digits.length) 48 ++ digits
  else digits.take (digits.length - behind) ++ Text.lit "." ++ digits.drop (digits.length - behind)

/-- Scientific notation: one digit before the point. -/
def scientificText (d : Decimal) : Text :=
  let digits := Text.decimal d.coefficient
  digits.take 1 ++ (if digits.length = 1 then [] else Text.lit "." ++ digits.drop 1) ++ Text.lit "E"
    ++ (if d.adjusted < 0 then Text.lit "-" else Text.lit "+") ++ Text.decimal d.adjusted.natAbs

/-- The text of a number: plain unless it is scaled up, or its first digit stands more than six
places behind the point. -/
def text (d : Decimal) : Text :=
  (if d.negative then Text.lit "-" else [])
    ++ if d.exponent ≤ 0 && -6 ≤ d.adjusted then d.plainText else d.scientificText

end Decimal

end Config

end RepeatedAddition
