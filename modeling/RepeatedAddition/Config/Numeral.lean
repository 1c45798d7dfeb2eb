import RepeatedAddition.Config.Atom

/-!
# Numerals

A numeral starts with a digit, or with a point before one, and goes as far as it can.

* Whole numbers: decimal without leading zeros, or hexadecimal, binary and octal after `0x`, `0b`
  and `0o`.
* Underscores may stand between digits, one at a time.
* A point or an exponent makes a number fractional, whatever its value.
* A multiplier (`K`, `M`, `G`, `T`, `P`, each for a power of 1000, or of 1024 with an `i`) makes a
  number whole again, and must leave nothing behind the point.

How far a numeral goes and what it is worth are different questions: `Numeral.extent` answers the
first, and notes what is wrong with the digits on the way; `Numeral.read` answers the second for the
characters of a numeral.
-/

namespace RepeatedAddition

namespace Config

namespace Numeral

/-- The value of a digit up to base 16; an underscore counts as a zero so that it continues a run of
digits. -/
def digitValue? (c : Char) : Option Nat :=
  if c.isDigit then some (c.toNat - 48)
  else if c = '_' then some 0
  else if 'a' ≤ c && c ≤ 'f' then some (c.toNat - 87)
  else if 'A' ≤ c && c ≤ 'F' then some (c.toNat - 55)
  else none

/-- Whether a character continues a run of digits in a base. -/
def continues (base : Nat) (c : Char) : Bool := (digitValue? c).any (· < base)

/-- The run of digits at the head, and what follows. -/
def run (base : Nat) (cs : List Char) : List Char × List Char := cs.span (continues base)

/-- The value of a run of digits. -/
def value (base : Nat) (digits : List Char) : Nat :=
  (digits.filter (· != '_')).foldl (fun total c => total * base + (digitValue? c).getD 0) 0

/-- The number of digits of a run, underscores left out. -/
def places (digits : List Char) : Nat := (digits.filter (· != '_')).length

/-- What is wrong with a numeral, and at which of its characters. -/
structure Fault where
  place : Nat
  message : String

/-- How many characters a numeral takes, whether it is fractional, and what is wrong with it. -/
structure Extent where
  width : Nat
  fractional : Bool
  faults : List Fault

/-- The faults of a run of digits that starts at a place: underscores that follow another one or end
the run. -/
def misplaced : Nat → List Char → List Fault
  | _, [] => []
  | place, ['_'] => [⟨place, "illegal '_' in number"⟩]
  | place, '_' :: '_' :: rest =>
    ⟨place + 1, "illegal '_' in number"⟩ :: misplaced (place + 1) ('_' :: rest)
  | place, _ :: rest => misplaced (place + 1) rest

/-- The extent of a whole number in a base other than ten, behind its two leading characters. -/
def basedExtent (base : Nat) (message : String) (rest : List Char) : Extent :=
  let digits := (run base rest).1
  ⟨2 + digits.length, false, if digits.isEmpty then [⟨0, message⟩] else misplaced 2 digits⟩

/-- Whether a character is a multiplier. -/
def isMultiplier (c : Char) : Bool := ['K', 'M', 'G', 'T', 'P'].contains c

/-- The extent of what follows the digits and the point of a number: a multiplier or an exponent. -/
def scaleExtent (width : Nat) (fractional : Bool) (rest : List Char) : Extent :=
  match rest with
  | c :: after =>
    if isMultiplier c then ⟨width + (if after.head? = some 'i' then 2 else 1), false, []⟩
    else if c = 'e' || c = 'E' then
      let signs := if after.head? = some '-' || after.head? = some '+' then 1 else 0
      let digits := (run 10 (after.drop signs)).1
      let start := width + 1 + signs
      ⟨start + digits.length, true, misplaced start digits⟩
    else ⟨width, fractional, []⟩
  | [] => ⟨width, fractional, []⟩

/-- The extent of a number whose digits before the point have been taken. -/
def decimalExtent (whole rest : List Char) : Extent :=
  if rest.head? = some '.' then
    let (behind, after) := run 10 (rest.drop 1)
    let scale := scaleExtent (whole.length + 1 + behind.length) true after
    { scale with faults := misplaced (whole.length + 1) behind ++ scale.faults }
  else scaleExtent whole.length false rest

/-- The extent of a number behind a leading zero: only a fraction may go on with more digits. -/
def zeroExtent (rest : List Char) : Extent :=
  let (digits, after) := if rest.head?.any Char.isDigit then run 10 rest else ([], rest)
  let extent :=
    if ['.', 'e', 'E'].any fun c => after.head? = some c then decimalExtent ('0' :: digits) after
    else ⟨1 + digits.length, false, if digits.isEmpty then [] else [⟨0, "illegal integer number"⟩]⟩
  { extent with faults := misplaced 1 digits ++ extent.faults }

/-- The extent of the numeral at the head. -/
def extent (cs : List Char) : Extent :=
  match cs with
  | '0' :: 'x' :: rest | '0' :: 'X' :: rest => basedExtent 16 "illegal hexadecimal number" rest
  | '0' :: 'b' :: rest => basedExtent 2 "illegal binary number" rest
  | '0' :: 'o' :: rest => basedExtent 8 "illegal octal number" rest
  | '0' :: rest => zeroExtent rest
  | cs =>
    let (whole, rest) := run 10 cs
    let extent := decimalExtent whole rest
    { extent with faults := misplaced 0 whole ++ extent.faults }

/-- The power of a multiplier by thousands. -/
def multiplierPower (c : Char) : Nat :=
  match c with
  | 'K' => 1
  | 'M' => 2
  | 'G' => 3
  | 'T' => 4
  | _ => 5

/-- The number of digits that a multiplication by a multiplier keeps. -/
def multiplierDigits : Nat := 24

/-- A whole number, if the decimal is one. -/
def whole? (d : Decimal) : Option Atom :=
  if 0 ≤ d.exponent then some (.int ⟨d.negative, d.coefficient * Nat.pow 10 d.exponent.toNat, 0⟩)
  else
    let divisor := Nat.pow 10 (-d.exponent).toNat
    if d.coefficient % divisor = 0 then
      some (.int ⟨d.negative, d.coefficient / divisor, 0⟩) else none

/-- A decimal times a multiplier. -/
def multiplied (d : Decimal) (multiplier : Char) (binary : Bool) : Except Text Atom :=
  let factor := Nat.pow (if binary then 1024 else 1000) (multiplierPower multiplier)
  match (Decimal.product multiplierDigits d (.ofNat factor)).toOption.bind whole? with
  | some a => .ok a
  | none => .error (Text.lit "number cannot be represented as int")

/-- A coefficient with exponents.  Where they are out of range the coefficient stands alone. -/
def scaled (coefficient : Nat) (exponents : List Int) : Decimal :=
  let d : Decimal := ⟨false, coefficient, exponents.foldl (· + ·) 0⟩
  if exponents.all Decimal.isExponent && Decimal.isExponent d.adjusted then d else
    .ofNat coefficient

/-- The largest exponent that can be counted. -/
def countableExponent : Nat := Nat.pow 2 31 - 1

/-- A coefficient with an exponent that is written behind it, as the characters of a whole
numeral. -/
def withExponent (numeral : List Char) (coefficient : Nat) (behind : Int) (exponent : List Char) :
    Except Text Atom :=
  let negative := exponent.head? = some '-'
  let digits := if negative || exponent.head? = some '+' then exponent.drop 1 else exponent
  if digits.isEmpty then
    .error (Text.lit "illegal exponent " ++ Quoted.text (Utf8.encode numeral))
  else
    let n := value 10 digits
    if n > countableExponent + (if negative then 1 else 0) then .ok .noNumber
    else .ok (.float (scaled coefficient [if negative then -(n : Int) else n, -behind]))

/-- The number that the characters of a decimal numeral denote. -/
def readDecimal (cs : List Char) : Except Text Atom :=
  let (whole, rest) := run 10 cs
  let hasPoint := rest.head? = some '.'
  let (behind, rest) := if hasPoint then run 10 (rest.drop 1) else ([], rest)
  let coefficient := value 10 (whole ++ behind)
  match rest with
  | c :: after =>
    if isMultiplier c then
      multiplied (scaled coefficient [-(places behind : Int)]) c (after.head? = some 'i')
    else withExponent cs coefficient (places behind) after
  | [] =>
    if hasPoint then .ok (.float (scaled coefficient [-(places behind : Int)])) else
      .ok (.int (.ofNat coefficient))

/-- The number that the characters of a numeral denote, or why they denote none. -/
def read (cs : List Char) : Except Text Atom :=
  match cs with
  | '0' :: 'x' :: digits | '0' :: 'X' :: digits => .ok (.int (.ofNat (value 16 digits)))
  | '0' :: 'b' :: digits => .ok (.int (.ofNat (value 2 digits)))
  | '0' :: 'o' :: digits => .ok (.int (.ofNat (value 8 digits)))
  | cs => readDecimal cs

end Numeral

end Config

end RepeatedAddition
