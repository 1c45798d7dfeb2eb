import RepeatedAddition.Text.Quoted

/-!
# Operands

An operand is a word in decimal notation: ASCII digits only, at least one, leading zeros allowed.
The digits are taken from the left into a 64-bit accumulator, and the first thing wrong decides the
fault: a byte that is no digit, or a digit that would take the accumulator past `2 ^ 64 - 1`.

* `Operand.read`: the word of a text, or its fault.
* `Operand.parse`: the same for a named operand, with the fault as an error that quotes the text.
-/

namespace RepeatedAddition

namespace Operand

/-- What can be wrong with the text of an operand. -/
inductive Fault where
  | badSyntax
  | outOfRange
  deriving DecidableEq, Repr

/-- The least accumulator that has no tenfold among the words. -/
def cutoff : UInt64 := 1844674407370955162

/-- Takes one digit into the accumulator.  Below the cutoff the tenfold is exact, and the sum has
wrapped exactly when it is smaller than the tenfold. -/
def push (total : UInt64) (b : UInt8) : Except Fault UInt64 :=
  if !Text.isDigit b then .error .badSyntax
  else if total ≥ cutoff then .error .outOfRange
  else
    let tenfold := total * 10
    let sum := tenfold + UInt64.ofNat (Text.digitValue b)
    if sum < tenfold then .error .outOfRange else .ok sum

/-- Takes all bytes of a text into the accumulator, from the left. -/
def pushAll : UInt64 → Text → Except Fault UInt64
  | total, [] => .ok total
  | total, b :: rest =>
    match push total b with
    | .ok next => pushAll next rest
    | .error fault => .error fault

/-- The word that a text denotes. -/
def read : Text → Except Fault UInt64
  | [] => .error .badSyntax
  | t => pushAll 0 t

/-- A rejected operand. -/
structure Error where
  name : Text
  value : Text
  fault : Fault
  deriving DecidableEq, Repr

/-- What is said of a fault. -/
def Fault.message : Fault → Text
  | .badSyntax => Text.lit "invalid syntax"
  | .outOfRange => Text.lit "value out of range"

/-- What is said of a rejected operand. -/
def Error.message (e : Error) : Text :=
  Text.lit "invalid " ++ e.name ++ Text.lit " " ++ Quoted.text e.value
    ++ Text.lit ": strconv.ParseUint: parsing " ++ Quoted.text e.value ++ Text.lit ": " ++
    e.fault.message

/-- The word of a named operand. -/
def parse (name value : Text) : Except Error UInt64 :=
  match read value with
  | .ok v => .ok v
  | .error fault => .error ⟨name, value, fault⟩

end Operand

end RepeatedAddition
