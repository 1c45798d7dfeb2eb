import RepeatedAddition.Report.Markdown
import RepeatedAddition.Json

/-!
# Reports as documents

A report as JSON keeps everything: absent products and an empty reason are left out, so that an
absent product and a product of zero stay apart, and a report without outcomes has `null` for them.
The only thing that can go wrong is a start outside of what RFC 3339 can say, and then nothing is
written.

* `Report.document?`: the report as a JSON tree.
* `Report.json`: its text, with a final newline.
* `Report.write`: a report in the format of a given name.
-/

namespace RepeatedAddition

namespace Report

/-- A list of texts as a document, unknown being `null`. -/
def methodsDocument : Option (List Text) → Json
  | none => .null
  | some ms => .array (ms.map Json.ofText)

/-- The description of a run, given the text of its start. -/
def metadataDocument (m : Metadata) (startedAt : Text) : Json :=
  .object [
    (Text.lit "methods", methodsDocument m.methods),
    (Text.lit "maxDepth", Json.ofWord m.maxDepth),
    (Text.lit "concurrency", .number m.concurrency),
    (Text.lit "startedAt", .string startedAt),
    (Text.lit "duration", .string m.duration)]

/-- An outcome as a document. -/
def outcomeDocument (o : Outcome) : Json :=
  .object (
    [(Text.lit "x", Json.ofWord o.x), (Text.lit "y", Json.ofWord o.y)]
      ++ Json.wordMember? "expected" o.expected
      ++ Json.wordMember? "iterative" o.iterative
      ++ Json.wordMember? "recursive" o.recursive
      ++ [(Text.lit "wrapped", .bool o.wrapped), (Text.lit "status", .string o.status.label)]
      ++ if o.reason.isEmpty then [] else [(Text.lit "reason", .string o.reason)])

/-- Outcomes as a document, none being `null`. -/
def outcomesDocument (os : List Outcome) : Json :=
  if os.isEmpty then .null else .array (os.map outcomeDocument)

/-- Totals as a document. -/
def totalsDocument (t : Totals) : Json :=
  .object [
    (Text.lit "cases", .number t.cases),
    (Text.lit "ok", .number t.ok),
    (Text.lit "mismatches", .number t.mismatches),
    (Text.lit "skipped", .number t.skipped),
    (Text.lit "wrapped", .number t.wrapped)]

/-- A report as a document, given the text of its start. -/
def documentAt (r : Report) (startedAt : Text) : Json :=
  .object [
    (Text.lit "metadata", metadataDocument r.metadata startedAt),
    (Text.lit "outcomes", outcomesDocument r.outcomes),
    (Text.lit "totals", totalsDocument r.totals)]

/-- A report as a document. -/
def document? (r : Report) : Except Timestamp.Fault Json :=
  r.metadata.startedAt.text.map r.documentAt

/-- A report as JSON text. -/
def json (r : Report) : Except Timestamp.Fault Text :=
  r.document?.map fun document => document.text ++ Text.lit "\n"

/-- Why a report was not written. -/
inductive WriteError where
  | unknownFormat (name : Text)
  | timestamp (fault : Timestamp.Fault)
  deriving DecidableEq, Repr

/-- What is said of a report that was not written. -/
def WriteError.message : WriteError → Text
  | .unknownFormat name => Text.lit "unknown format " ++ Quoted.text name
  | .timestamp fault => fault.message

/-- A report in the format of the given name. -/
def write (r : Report) (format : Text) : Except WriteError Text :=
  if format = Text.lit "json" then r.json.mapError .timestamp
  else if format = Text.lit "markdown" then .ok r.markdown
  else .error (.unknownFormat format)

end Report

end RepeatedAddition
