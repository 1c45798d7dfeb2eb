import RepeatedAddition.Config.Expr
import RepeatedAddition.Case

/-!
# The schema

The schema is the first of all sources: it says which settings there are, what they may be, and what
they are when nothing else is said.

| setting       | allowed                        | otherwise                |
|---------------|--------------------------------|--------------------------|
| `method`      | `iterative` or `recursive`     | `recursive`              |
| `maxDepth`    | a word                         | 100000                   |
| `concurrency` | a whole number, at least 1     | 4                        |
| `format`      | `markdown` or `json`           | `markdown`               |
| `cases`       | any list of `#Case`            | `Schema.defaultCases`    |

A `#Case` has the words `x` and `y` and may have a word `expected`.  The schema counts as a source
with places of its own, which messages point at.
-/

namespace RepeatedAddition

namespace Config

namespace Schema

/-- The name under which the schema appears in messages. -/
def sourceName : Text := Text.lit "schema.cue"

/-- A place in the schema. -/
def place (line column : Nat) : Position := ⟨sourceName, line, column⟩

/-- A string at a place. -/
def string (line column : Nat) (s : String) : Expr := .literal (place line column) (.string s)

/-- A whole number at a place. -/
def number (line column n : Nat) : Expr := .literal (place line column) (.int (.ofNat n))

/-- A name at a place. -/
def name (line column : Nat) (n : String) : Expr := .name (place line column) n

/-- A setting. -/
def setting (label : String) (value : Expr) : Decl :=
  .field (Label.ofIdentifier label) true false value

/-- A setting that may be left out. -/
def optionalSetting (label : String) (value : Expr) : Decl :=
  .field (Label.ofIdentifier label) true true value

/-- The cases to compare when no others are given: small ones, zeros, a large multiplier, and two
whose product wraps. -/
def defaultCases : List Case := [
  ⟨10, 5, some 50⟩,
  ⟨5, 0, some 0⟩,
  ⟨0, 7, some 0⟩,
  ⟨12345, 1, some 12345⟩,
  ⟨3, 1000, some 3000⟩,
  ⟨9223372036854775808, 2, some 0⟩,
  ⟨18446744073709551615, 3, some 18446744073709551613⟩]

/-- A case on a line of its own: the places follow from the lengths of the numbers. -/
def caseExpr (line : Nat) (c : Case) : Expr :=
  let width (w : UInt64) : Nat := (Text.decimal w.toNat).length
  let yColumn := 6 + width c.x + 5
  .struct (place line 2) (
    [setting "x" (number line 6 c.x.toNat), setting "y" (number line yColumn c.y.toNat)]
      ++ (c.expected.map fun e =>
        setting "expected" (number line (yColumn + width c.y + 12) e.toNat)).toList)

/-- What a case is. -/
def caseDefinition : Expr :=
  .struct (place 3 8) [
    setting "x" (name 4 13 "uint64"),
    setting "y" (name 5 13 "uint64"),
    optionalSetting "expected" (name 6 13 "uint64")]

/-- The choice between alternatives, of which the last, behind a mark at a place, is preferred. -/
def choice (first : Expr) (others : List Expr) (mark : Position) (preferred : Expr) : Expr :=
  .either (others.foldl .either first) (.preferred mark preferred)

/-- The methods to choose from. -/
def methodChoice : Expr :=
  choice (string 9 14 "iterative") [string 9 28 "recursive"] (place 9 42) (string 9 43 "recursive")

/-- The depth limits to choose from. -/
def maxDepthChoice : Expr := choice (name 10 14 "uint64") [] (place 10 23) (number 10 24 100000)

/-- The numbers of workers to choose from. -/
def concurrencyChoice : Expr :=
  choice (.meet (name 11 14 "int") (.limit (place 11 20) .atLeast (number 11 22 1))) []
    (place 11 26) (number 11 27 4)

/-- The formats to choose from. -/
def formatChoice : Expr :=
  choice (string 12 14 "markdown") [string 12 27 "json"] (place 12 36) (string 12 37 "markdown")

/-- The lists of cases to choose from. -/
def casesChoice : Expr :=
  choice (.list (place 14 8) [] (.each (name 14 12 "#Case"))) [] (place 14 21)
    (.list (place 14 22) (defaultCases.zipIdx.map fun (c, i) => caseExpr (15 + i) c) .closed)

/-- The schema as a source. -/
def source : Expr :=
  .struct (place 3 1) [
    setting "#Case" caseDefinition,
    setting "method" methodChoice,
    setting "maxDepth" maxDepthChoice,
    setting "concurrency" concurrencyChoice,
    setting "format" formatChoice,
    setting "cases" casesChoice]

end Schema

end Config

end RepeatedAddition
