import RepeatedAddition.Main
import RepeatedAddition.Proofs.Product
import RepeatedAddition.Proofs.Schedule
import RepeatedAddition.Proofs.Report
import RepeatedAddition.Proofs.ScheduleResult
import RepeatedAddition.Proofs.Completion
import RepeatedAddition.Proofs.Carries
import RepeatedAddition.Proofs.Decimal
import RepeatedAddition.Proofs.Operand
import RepeatedAddition.Proofs.Multiplication
import RepeatedAddition.Proofs.Case
import RepeatedAddition.Proofs.Verdict
import RepeatedAddition.Proofs.Delimited
import RepeatedAddition.Proofs.Markdown
import RepeatedAddition.Proofs.Utf8
import RepeatedAddition.Proofs.JsonGrammar
import RepeatedAddition.Proofs.JsonLayout
import RepeatedAddition.Proofs.ReportReading
import RepeatedAddition.Proofs.Constraint
import RepeatedAddition.Proofs.Evaluation
import RepeatedAddition.Proofs.Settings
import RepeatedAddition.Proofs.LayerOrder
import RepeatedAddition.Proofs.Agreement
import RepeatedAddition.Proofs.PlainNode
import RepeatedAddition.Proofs.Choice
import RepeatedAddition.Proofs.Record
import RepeatedAddition.Proofs.CaseRow
import RepeatedAddition.Proofs.CaseList
import RepeatedAddition.Proofs.PlainLayer
import RepeatedAddition.Proofs.TokenLayout
import RepeatedAddition.Proofs.SourceReading
import RepeatedAddition.Proofs.LoneLayer
import RepeatedAddition.Proofs.CaseSnippet
import RepeatedAddition.Proofs.Listener
import RepeatedAddition.Proofs.DepthLimit
import RepeatedAddition.Proofs.LiteralLayer
import RepeatedAddition.Proofs.LiteralSettings
import RepeatedAddition.Proofs.OperandNotation
import RepeatedAddition.Proofs.ReportHistory
import RepeatedAddition.Proofs.DecimalFraction
import RepeatedAddition.Proofs.DurationReading
import RepeatedAddition.Proofs.Calendar
import RepeatedAddition.Proofs.TimestampReading
import RepeatedAddition.Proofs.LayerFailure
import RepeatedAddition.Proofs.ArgumentOrder
import RepeatedAddition.Proofs.MarkdownLines
import RepeatedAddition.Proofs.ProgressDisplay
import RepeatedAddition.Proofs.QuotedReading
import RepeatedAddition.Proofs.Refusal
import RepeatedAddition.Proofs.FailureContext
import RepeatedAddition.Proofs.Loading
import RepeatedAddition.Proofs.WrittenAtom
import RepeatedAddition.Proofs.ReadLiteral
import RepeatedAddition.Proofs.Marked
import RepeatedAddition.Proofs.AdmittedSettings
