import RepeatedAddition.Config.Decimal
import RepeatedAddition.Config.Quotation

/-!
# Atoms

An atom is a concrete value without parts: `null`, a truth value, a whole number, a fractional
number, a string or a byte string.  Whole and fractional numbers are different kinds, even where
their values agree: `1` and `1.0` are different atoms.  Numbers of one kind agree when their values
do, however they are written: `1.5` is `1.50`.

* `Atom.kind`, `Kind`: the kinds of values, those with parts included.
* `Atom.agrees`: whether two atoms are the same value.
* `Atom.order?`: the order of numbers, strings and byte strings.
* `Arithmetic.apply`: sums, differences, products and quotients, with 34 digits.
-/

namespace RepeatedAddition

namespace Config

/-- The kinds of values. -/
inductive Kind where
  | null
  | bool
  | int
  | float
  | string
  | bytes
  | list
  | struct
  deriving DecidableEq, Repr

namespace Kind

/-- All kinds. -/
def all : List Kind := [.null, .bool, .int, .float, .string, .bytes, .list, .struct]

/-- The name of a kind. -/
def name : Kind → String
  | .null => "null"
  | .bool => "bool"
  | .int => "int"
  | .float => "float"
  | .string => "string"
  | .bytes => "bytes"
  | .list => "list"
  | .struct => "struct"

/-- The kinds that two sets have in common. -/
def common (ks ls : List Kind) : List Kind := ks.filter fun k => ls.contains k

/-- The text of a set of kinds: numbers have a name of their own. -/
def setText (ks : List Kind) : Text :=
  let named := if ks.contains .int && ks.contains .float then
      "number" :: (ks.filter fun k => k != .int && k != .float).map name
    else ks.map name
  match named with
  | [n] => Text.lit n
  | ns => Text.lit "(" ++ Text.joined (Text.lit "|") (ns.map Text.lit) ++ Text.lit ")"

end Kind

/-- A concrete value without parts.  A fractional number whose exponent cannot be counted is no
number. -/
inductive Atom where
  | null
  | bool (b : Bool)
  | int (d : Decimal)
  | float (d : Decimal)
  | noNumber
  | string (s : String)
  | bytes (t : Text)
  deriving DecidableEq, Repr

namespace Atom

/-- The kind of an atom. -/
def kind : Atom → Kind
  | .null => .null
  | .bool _ => .bool
  | .int _ => .int
  | .float _ | .noNumber => .float
  | .string _ => .string
  | .bytes _ => .bytes

/-- The text of an atom. -/
def text : Atom → Text
  | .null => Text.lit "null"
  | .bool true => Text.lit "true"
  | .bool false => Text.lit "false"
  | .int d | .float d => d.text
  | .noNumber => Text.lit "NaN"
  | .string s => Quotation.string s
  | .bytes t => Quotation.bytes t

/-- The number that an atom is. -/
def number? : Atom → Option Decimal
  | .int d | .float d => some d
  | _ => none

/-- Whether two atoms are the same value. -/
def agrees : Atom → Atom → Bool
  | .int a, .int b | .float a, .float b => a.order b == .eq
  | a, b => a = b

/-- The order of two atoms, where there is one. -/
def order? : Atom → Atom → Option Ordering
  | .string a, .string b => some (compareOfLessAndEq (Text.lit a) (Text.lit b))
  | .bytes a, .bytes b => some (compareOfLessAndEq a b)
  | a, b => do return (← a.number?).order (← b.number?)

/-- The number with a minus sign before it. -/
def negated? : Atom → Option Atom
  | .int d => some (.int d.negated)
  | .float d => some (.float d.negated)
  | .noNumber => some .noNumber
  | _ => none

end Atom

/-- An operation on atoms. -/
inductive Arithmetic where
  | add
  | subtract
  | multiply
  | divide
  deriving DecidableEq, Repr

namespace Arithmetic

/-- The sign of an operation. -/
def sign : Arithmetic → String
  | .add => "+"
  | .subtract => "-"
  | .multiply => "*"
  | .divide => "/"

/-- Why an operation has no result. -/
inductive Fault where
  | failed (cause : Decimal.Fault)
  | negativeCount
  | countTooLarge
  | invalidOperands
  deriving DecidableEq, Repr

/-- The number of digits that arithmetic keeps. -/
def digits : Nat := 34

/-- The result of an operation on numbers. -/
def onNumbers : Arithmetic → Decimal → Decimal → Except Decimal.Fault Decimal
  | .add => Decimal.sum digits
  | .subtract => Decimal.difference digits
  | .multiply => Decimal.product digits
  | .divide => Decimal.quotient digits

/-- A list taken as many times as a whole number says, which must not be negative and must fit in a
word. -/
def repeated {α : Type} (xs : List α) (count : Decimal) : Except Fault (List α) :=
  if count.negative && !count.isZero then .error .negativeCount
  else if count.units 0 ≥ (Nat.pow 2 64 : Nat) then .error .countTooLarge
  else if xs.isEmpty then .ok []
  else .ok (List.replicate (count.units 0).toNat xs).flatten

/-- A number as the result of an operation on given kinds: whole numbers give whole numbers, except
that a division always gives a fractional one. -/
def resultOf (op : Arithmetic) (left right : Kind) (d : Decimal) : Atom :=
  if left = .int && right = .int && op != .divide then .int d else .float d

/-- The result of an operation.  Strings and byte strings can be joined, and repeated as often as a
whole number says. -/
def apply (op : Arithmetic) (a b : Atom) : Except Fault Atom :=
  match op, a, b with
  | .add, .string s, .string t => .ok (.string (s ++ t))
  | .add, .bytes s, .bytes t => .ok (.bytes (s ++ t))
  | .multiply, .string s, .int n | .multiply, .int n, .string s =>
    (repeated s.toList n).map fun cs => .string (String.ofList cs)
  | .multiply, .bytes s, .int n | .multiply, .int n, .bytes s => (repeated s n).map .bytes
  | op, a, b =>
    match a.number?, b.number? with
    | some m, some n =>
      match op.onNumbers m n with
      | .ok d => .ok (op.resultOf a.kind b.kind d)
      | .error cause => .error (.failed cause)
    | _, _ =>
      if (a = .noNumber && b.kind ∈ [.int, .float]) ||
          (b = .noNumber && a.kind ∈ [.int, .float]) then
        .ok .noNumber
      else .error .invalidOperands

end Arithmetic

/-- Limits that a value may be held to. -/
inductive Bound where
  | less
  | atMost
  | greater
  | atLeast
  | differs
  deriving DecidableEq, Repr

namespace Bound

/-- The sign of a limit. -/
def sign : Bound → String
  | .less => "<"
  | .atMost => "<="
  | .greater => ">"
  | .atLeast => ">="
  | .differs => "!="

/-- Whether a value keeps a limit. -/
def admits (bound : Bound) (limit value : Atom) : Bool :=
  match bound with
  | .differs => match value.number?, limit.number? with
    | some a, some b => a.order b != .eq
    | _, _ => value != limit
  | .less => value.order? limit == some .lt
  | .atMost => (value.order? limit).any (·.isLE)
  | .greater => value.order? limit == some .gt
  | .atLeast => (value.order? limit).any (·.isGE)

/-- The kinds of values that a limit speaks of: a limit by a number speaks of all numbers, and what
is only not `null` may be anything else. -/
def kinds (bound : Bound) (limit : Kind) : List Kind :=
  match limit with
  | .int | .float => [.int, .float]
  | .null => if bound = .differs then Kind.all.filter (· != .null) else [.null]
  | k => [k]

end Bound

end Config

end RepeatedAddition
