import RepeatedAddition.Config.Problem
import RepeatedAddition.Config.Label
import RepeatedAddition.Config.Atom

/-!
# Expressions

A source is a struct: a list of declarations.  A declaration is a field, an expression that is
embedded, or the mark of an open struct.  Expressions are literals, structs and lists, names,
limits, arithmetic, and the two operations of the language: `meet` asks for both of two expressions,
`either` for one of them, and the mark of a preference says which one it should be.

Names are bound lexically, by the innermost struct around them that declares a field of that name.
A name that nothing binds may be predeclared (`Predeclared`), and is unknown otherwise.

* `Expr`, `Decl`: expressions and declarations.
* `Expr.alternatives`: the alternatives of a choice.  A choice in parentheses is one alternative.
* `Decl.names`: the names that declarations bind.
* `Expr.text`: the text of an expression in a message.
-/

namespace RepeatedAddition

namespace Config

/-- A prefix sign of a number. -/
inductive Sign where
  | plus
  | minus
  deriving DecidableEq, Repr

namespace Sign

/-- The text of a sign. -/
def text : Sign → String
  | .plus => "+"
  | .minus => "-"

end Sign

/-- What follows the items of a list: nothing, or any number of items that meet a constraint if
there is one. -/
inductive Tail (α : Type) where
  | closed
  | any
  | each (constraint : α)
  deriving Repr

mutual

/-- An expression with its places.  A literal that denotes nothing is faulty. -/
inductive Expr where
  | literal (place : Position) (atom : Atom)
  | faulty (place : Position) (message : Text)
  | top (place : Position)
  | bottom (place : Position)
  | name (place : Position) (name : String)
  | select (place : Position) (base : Expr) (label : Label)
  | group (place : Position) (inner : Expr)
  | signed (place : Position) (sign : Sign) (operand : Expr)
  | arithmetic (op : Arithmetic) (left right : Expr)
  | limit (place : Position) (bound : Bound) (operand : Expr)
  | meet (left right : Expr)
  | either (left right : Expr)
  | preferred (place : Position) (operand : Expr)
  | struct (place : Position) (decls : List Decl)
  | list (place : Position) (items : List Expr) (tail : Tail Expr)

/-- A declaration of a struct.  An optional field constrains the field without making it present; a
label that is no identifier binds no name; a label that denotes nothing is faulty. -/
inductive Decl where
  | field (label : Label) (bindable optional : Bool) (value : Expr)
  | embedded (value : Expr)
  | faulty (place : Position) (message : Text)
  | ellipsis

end

namespace Expr

/-- The place where an expression starts. -/
def place : Expr → Position
  | .literal p _ | .faulty p _ | .top p | .bottom p | .name p _ | .signed p _ _ | .limit p _ _
  | .group p _ | .preferred p _ | .struct p _ | .list p _ _ | .select p _ _ => p
  | .meet l _ | .either l _ | .arithmetic _ l _ => place l

/-- An expression without the parentheses around it. -/
def ungrouped : Expr → Expr
  | .group _ e => ungrouped e
  | e => e

/-- The alternatives of an expression inside a choice, each with the remark whether it is preferred.
A preference holds for all alternatives that it stands before. -/
def alternatives (marked : Bool) : Expr → List (Bool × Expr)
  | .either l r => alternatives marked l ++ alternatives marked r
  | .preferred _ e => alternatives true e
  | e => [(marked, e)]

end Expr

namespace Decl

/-- The name that a declaration binds: a label written as an identifier. -/
def name? : Decl → Option String
  | .field (.regular n) true _ _ | .field (.hidden n) true _ _ | .field (.definition n) true _ _ =>
    some n
  | _ => none

/-- The names that declarations bind. -/
def names (ds : List Decl) : List String := ds.filterMap name?

end Decl

/-- A predeclared type: a name, the kinds of its values, and limits for numbers. -/
structure Predeclared where
  name : String
  kinds : List Kind
  least : Option Decimal := none
  greatest : Option Decimal := none

namespace Predeclared

/-- The whole numbers in a range. -/
def whole (name : String) (least greatest : Option Int) : Predeclared :=
  ⟨name, [.int], least.map Decimal.ofInt, greatest.map Decimal.ofInt⟩

/-- The whole numbers of a number of bits without a sign. -/
def unsigned (name : String) (bits : Nat) : Predeclared :=
  whole name (some 0) (some (Nat.pow 2 bits - 1 : Nat))

/-- The whole numbers of a number of bits, one of them for the sign. -/
def signed (name : String) (bits : Nat) : Predeclared :=
  whole name (some (-(Nat.pow 2 (bits - 1) : Nat))) (some (Nat.pow 2 (bits - 1) - 1 : Nat))

/-- The numbers between a number and its negative. -/
def symmetric (name : String) (coefficient : Nat) (exponent : Int) : Predeclared :=
  ⟨name, [.int, .float], some ⟨true, coefficient, exponent⟩, some ⟨false, coefficient, exponent⟩⟩

/-- All predeclared types. -/
def all : List Predeclared := [
  ⟨"bool", [.bool], none, none⟩,
  ⟨"bytes", [.bytes], none, none⟩,
  ⟨"float", [.float], none, none⟩,
  ⟨"int", [.int], none, none⟩,
  ⟨"number", [.int, .float], none, none⟩,
  ⟨"string", [.string], none, none⟩,
  whole "uint" (some 0) none,
  unsigned "uint8" 8,
  unsigned "uint16" 16,
  unsigned "uint32" 32,
  unsigned "uint64" 64,
  unsigned "uint128" 128,
  signed "int8" 8,
  signed "int16" 16,
  signed "int32" 32,
  signed "int64" 64,
  signed "int128" 128,
  whole "rune" (some 0) (some 0x10FFFF),
  symmetric "float32" 340282346638528859811704183484516925440 0,
  symmetric "float64" 1797693134862315708145274237317043567981 269]

/-- The predeclared type of a name. -/
def find? (name : String) : Option Predeclared := all.find? fun p => p.name == name

/-- Whether the type has limits, and so is a constraint of several parts. -/
def isRange (p : Predeclared) : Bool := p.least.isSome || p.greatest.isSome

/-- The text of a type: its parts, where it has several. -/
def text (p : Predeclared) : Text :=
  if p.isRange then
    Text.joined (Text.lit " & ") (
      (if p.kinds = [.int] then [Text.lit "int"] else [])
        ++ (p.least.map fun d => Text.lit ">=" ++ d.text).toList
        ++ (p.greatest.map fun d => Text.lit "<=" ++ d.text).toList)
  else Text.lit p.name

end Predeclared

mutual

/-- The text of an expression. -/
def Expr.text : Expr → Text
  | .literal _ a => a.text
  | .faulty _ _ => Text.lit "_|_"
  | .top _ => Text.lit "_"
  | .bottom _ => Text.lit "_|_"
  | .name _ n => match Predeclared.find? n with
    | some p => p.text
    | none => Text.lit n
  | .select _ e l => Expr.text e ++ Text.lit "." ++ l.text
  | .group _ e => Expr.text e
  | .signed _ sign e => Text.lit sign.text ++ Expr.text e
  | .arithmetic op l r => Expr.text l ++ Text.lit (" " ++ op.sign ++ " ") ++ Expr.text r
  | .limit _ b e => Text.lit b.sign ++ Expr.text e
  | .meet l r => Expr.text l ++ Text.lit " & " ++ Expr.text r
  | .either l r => Expr.text l ++ Text.lit "|" ++ Expr.text r
  | .preferred _ e => Text.lit "*" ++ Expr.text e
  | .struct _ ds => Text.lit "\x7b" ++ textOfDecls ds ++ Text.lit "\x7d"
  | .list _ es tail =>
    Text.lit "[" ++ textOfItems es ++ textOfTail (!es.isEmpty) tail ++ Text.lit "]"

/-- The text of declarations. -/
def textOfDecls : List Decl → Text
  | [] => []
  | [d] => textOfDecl d
  | d :: ds => textOfDecl d ++ Text.lit "," ++ textOfDecls ds

/-- The text of a declaration. -/
def textOfDecl : Decl → Text
  | .field l _ optional e =>
    l.text ++ (if optional then Text.lit "?" else []) ++ Text.lit ":" ++ Expr.text e
  | .embedded e => Expr.text e
  | .faulty _ _ => Text.lit "_|_"
  | .ellipsis => Text.lit "..."

/-- The text of the items of a list. -/
def textOfItems : List Expr → Text
  | [] => []
  | [e] => Expr.text e
  | e :: es => Expr.text e ++ Text.lit "," ++ textOfItems es

/-- The text of the tail of a list, which may stand behind items. -/
def textOfTail (behind : Bool) : Tail Expr → Text
  | .closed => []
  | .any => (if behind then Text.lit "," else []) ++ Text.lit "..."
  | .each e => (if behind then Text.lit "," else []) ++ Text.lit "..." ++ Expr.text e

end

end Config

end RepeatedAddition
