import RepeatedAddition.Config.Language
import RepeatedAddition.Config.Source
import RepeatedAddition.Config.Wellformed
import RepeatedAddition.Config.Schema
import RepeatedAddition.Config.Evaluation

/-!
# Settings

The language of layers as it is read and evaluated here: the content of a layer is its expression,
the expressions of several layers are only put side by side, and they are evaluated together once
there are no more.  From the value, settings are taken one by one.

* `compile`: the expression of a layer.
* `validate`: the value of layers, with all data determined.
* `Conversion`, `decode`: how numbers are taken, and the settings that a value describes.
* `evaluating`, `load`: the language, and the settings of files and snippets.
-/

namespace RepeatedAddition

namespace Config

/-- Reads a layer and evaluates it by itself. -/
def compile (layer text : Text) : Except (List Problem) Expr :=
  match Source.read layer text with
  | .error ps => .error ps
  | .ok e =>
    match e.faults [] [] false with
    | [] => match unify [e] with
      | .failed ps _ => .error ps
      | _ => .ok e
    | ps => .error ps

/-- The value of layers, with all data determined. -/
def validate (layers : List Expr) : Except (List Problem) Value :=
  match unify layers with
  | .failed _ ps => .error ps
  | v => match v.gaps [] with
    | [] => .ok v
    | ps => .error ps

/-- What is taken from a value for a setting, or why it cannot be. -/
abbrev Decoded (α : Type) := Except (List Problem) α

/-- The failure to take a value for a setting. -/
def undecodable {α : Type} (message : String) : Decoded α :=
  .error [⟨[], Text.lit message, none, []⟩]

/-- Two settings, or all that stands in their way. -/
def Decoded.and {α β : Type} (a : Decoded α) (b : Decoded β) : Decoded (α × β) :=
  match a, b with
  | .ok x, .ok y => .ok (x, y)
  | .error ps, .error qs => .error (ps ++ qs)
  | .error ps, .ok _ => .error ps
  | .ok _, .error qs => .error qs

/-- All settings of a list, or all that stands in their way. -/
def Decoded.all {α : Type} : List (Decoded α) → Decoded (List α)
  | [] => .ok []
  | a :: as => (a.and (Decoded.all as)).map fun (x, xs) => x :: xs

/-- The member of a value under a regular label. -/
def member (v : Value) (label : String) : Option Value := v.get? (.regular label)

/-- How whole numbers are taken for words, and for signed numbers of 64 bits. -/
structure Conversion where
  word (d : Decimal) : Decoded UInt64
  integer (d : Decimal) : Decoded Int

/-- The conversion by coefficients: what does not fit is refused, and the scale is not looked at. -/
def byCoefficient : Conversion where
  word d :=
    if d.negative then undecodable "value was rounded up"
    else if Nat.pow 2 64 ≤ d.coefficient then undecodable "value was rounded down"
    else .ok (UInt64.ofNat d.coefficient)
  integer d :=
    if Nat.pow 2 63 ≤ d.coefficient then
      undecodable (if d.negative then "value was rounded up" else "value was rounded down")
    else .ok (if d.negative then -(d.coefficient : Int) else d.coefficient)

/-- A word. -/
def decodeWord (v : Option Value) (conversion : Conversion := byCoefficient) : Decoded UInt64 :=
  match v with
  | some (.atom (.int d) _) => conversion.word d
  | _ => undecodable "cannot use value as a word"

/-- A signed number of 64 bits. -/
def decodeInteger (v : Option Value) (conversion : Conversion := byCoefficient) : Decoded Int :=
  match v with
  | some (.atom (.int d) _) => conversion.integer d
  | _ => undecodable "cannot use value as an integer"

/-- A text. -/
def decodeText : Option Value → Decoded Text
  | some (.atom (.string s) _) => .ok (Text.lit s)
  | _ => undecodable "cannot use value as a text"

/-- A case. -/
def decodeCase (v : Value) (conversion : Conversion := byCoefficient) : Decoded Case :=
  let operands :=
    (decodeWord (member v "x") conversion).and (decodeWord (member v "y") conversion)
  match member v "expected" with
  | none => operands.map fun (x, y) => ⟨x, y, none⟩
  | some e =>
    (operands.and (decodeWord (some e) conversion)).map fun ((x, y), e) => ⟨x, y, some e⟩

/-- Cases, in order. -/
def decodeCases (v : Option Value) (conversion : Conversion := byCoefficient) :
    Decoded (List Case) :=
  match v with
  | some (.list items) => Decoded.all (items.map (decodeCase · conversion))
  | _ => undecodable "cannot use value as a list of cases"

/-- The settings that a value describes. -/
def decode (v : Value) (conversion : Conversion := byCoefficient) : Decoded Settings :=
  let limits :=
    (decodeText (member v "method")).and (decodeWord (member v "maxDepth") conversion)
  let scalars := limits.and
    ((decodeInteger (member v "concurrency") conversion).and (decodeText (member v "format")))
  (scalars.and (decodeCases (member v "cases") conversion)).map
    fun (((method, maxDepth), (concurrency, format)), cases) =>
      ⟨method, maxDepth, concurrency, format, cases⟩

/-- The language of layers. -/
def evaluating : Language where
  Content := List Expr
  Data := Value
  schema := [Schema.source]
  compile name text := (compile name text).map ([·])
  unify := (· ++ ·)
  validate := validate
  decode v := decode v

/-- The settings of files and snippets. -/
def load (files : Files) (paths snippets : List Text) : Except LoadError Settings :=
  evaluating.load files paths snippets

end Config

end RepeatedAddition
