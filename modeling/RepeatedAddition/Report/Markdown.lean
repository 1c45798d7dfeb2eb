import RepeatedAddition.Report.Basic

/-!
# Reports in markdown

A report in markdown has a title, the description of the run, a summary table with the totals, a
table with one row for each outcome, and a section that explains each mismatch.
-/

namespace RepeatedAddition

namespace Report

/-- An optional word in a cell of a table. -/
def optionalCell : Option UInt64 → Text
  | none => Text.lit "-"
  | some w => Text.decimal w.toNat

/-- The status of an outcome in a cell, with a note on a product that wrapped. -/
def statusCell (o : Outcome) : Text :=
  o.status.label ++ if o.wrapped then Text.lit " (wrapped)" else []

/-- A row of a table. -/
def tableRow (cells : List Text) : Text :=
  Text.lit "| " ++ Text.joined (Text.lit " | ") cells ++ Text.lit " |\n"

/-- The row of an outcome. -/
def outcomeRow (o : Outcome) : Text :=
  tableRow [Text.decimal o.x.toNat, Text.decimal o.y.toNat, optionalCell o.iterative,
    optionalCell o.recursive, optionalCell o.expected, statusCell o]

/-- The row of the totals. -/
def totalsRow (t : Totals) : Text :=
  tableRow [Text.decimal t.cases, Text.decimal t.ok, Text.decimal t.mismatches,
    Text.decimal t.skipped, Text.decimal t.wrapped]

/-- The description of the run, one fact a line. -/
def descriptionLines (m : Metadata) : Text :=
  let methods := m.methods.getD []
  (if methods.isEmpty then []
    else Text.lit "Methods: " ++ Text.joined (Text.lit ", ") methods ++ Text.lit "  \n")
    ++ Text.lit "Max recursion depth: " ++ Text.decimal m.maxDepth.toNat ++ Text.lit "  \n"
    ++ (if m.duration.isEmpty then [] else Text.lit "Duration: " ++ m.duration ++ Text.lit "  \n")

/-- The explanation of a mismatch. -/
def mismatchSection (o : Outcome) : Text :=
  Text.lit "### " ++ Text.decimal o.x.toNat ++ Text.lit " × " ++ Text.decimal o.y.toNat ++
    Text.lit "\n\n" ++ o.reason ++ Text.lit "\n\n"

/-- The explanations of all mismatches, or the remark that there are none. -/
def mismatchesPart (os : List Outcome) : Text :=
  if os.isEmpty then Text.lit "No mismatches found.\n"
  else Text.lit "## Mismatches\n\n" ++ os.flatMap mismatchSection

/-- A report in markdown. -/
def markdown (r : Report) : Text :=
  Text.lit "# Multiplication Comparison Report\n\n"
    ++ descriptionLines r.metadata
    ++ Text.lit "\n## Summary\n\n"
    ++ Text.lit "| Cases | OK | Mismatches | Skipped | Wrapped |\n"
    ++ Text.lit "|------:|---:|-----------:|--------:|--------:|\n"
    ++ totalsRow r.totals
    ++ Text.lit "\n## Cases\n\n"
    ++ Text.lit "| x | y | iterative | recursive | expected | status |\n"
    ++ Text.lit "|--:|--:|----------:|----------:|---------:|--------|\n"
    ++ r.outcomes.flatMap outcomeRow
    ++ Text.lit "\n"
    ++ mismatchesPart r.mismatches

end Report

end RepeatedAddition
