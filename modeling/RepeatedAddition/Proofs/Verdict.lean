import RepeatedAddition.CommandLine.Request
import RepeatedAddition.Proofs.Case
import RepeatedAddition.Proofs.Report

/-!
# The verdict of a comparison

Whoever runs a comparison reads its verdict off the way it ends.  Between the operands of a case and
that end stand both methods, the depth limit, the judgement of each case, the running totals, the
choice of a format and the order of writing and failing; the verdict is said here without any of
them, by the number of bad cases and by the format.

* `Timestamp.text_eq_ok`: a start between the years 0 and 9999 has a text.
* `mismatches_report`: the total of mismatches is the number of bad cases.
* `reportEffect_of_write`, `reportEffect_of_unknown`: what is printed of a report.
* `CompareRequest.verdict_of_comparison`: the verdict.
-/

namespace RepeatedAddition

/-- A result that is there is the result. -/
theorem eq_ok_of_toOption {ε α : Type} {x : Except ε α} {a : α} (h : x.toOption = some a) :
    x = .ok a := by
  cases x with
  | error e => cases h
  | ok v => exact congrArg Except.ok (Option.some.inj h)

/-- A time in the years 0 to 9999, in a zone less than a day away, has a text. -/
theorem Timestamp.text_eq_ok {t : Timestamp} (hyear : 0 ≤ t.date.year ∧ t.date.year ≤ 9999)
    (hzone : t.offset.natAbs < 86400) : t.text = .ok t.layout := by
  have hminutes : t.offsetMinutes.natAbs = t.offset.natAbs / 60 := Int.natAbs_tdiv t.offset 60
  rw [Timestamp.text, if_neg (by omega), if_neg (by omega)]

namespace CommandLine

/-- The formats in which a report can be written. -/
def KnownFormat (format : Text) : Prop := format = Text.lit "json" ∨ format = Text.lit "markdown"

/-- The number of bad cases. -/
def badCases (settings : Settings) : Nat := settings.cases.countP fun c => c.Bad settings.maxDepth

theorem badCases_eq_zero_iff {settings : Settings} :
    badCases settings = 0 ↔ ∀ c ∈ settings.cases, ¬ c.Bad settings.maxDepth := by
  rw [badCases, List.countP_eq_zero]
  simp only [decide_eq_true_eq]

/-! ## The totals -/

/-- **The total of mismatches is the number of bad cases.** -/
theorem mismatches_report (settings : Settings) (clock : Clock) :
    ((comparisonOf settings).report clock (comparisonOf settings).outcomes).totals.mismatches =
      badCases settings := by
  rw [Comparison.totals_report]
  change (settings.cases.map (Case.outcome settings.maxDepth)).countP _ = _
  rw [List.countP_map]
  apply List.countP_congr
  intro c _
  simp only [Function.comp_apply, decide_eq_true_eq]
  exact Case.status_eq_mismatch_iff

theorem cases_report (settings : Settings) (clock : Clock) :
    ((comparisonOf settings).report clock (comparisonOf settings).outcomes).totals.cases =
      settings.cases.length := by
  rw [Comparison.totals_report]
  exact List.length_map _

/-! ## Writing -/

/-- A report is written in every known format; as a document it needs the text of its start. -/
theorem exists_write_of_known {report : Report} {format : Text} (h : KnownFormat format)
    (htext : format = Text.lit "json" →
      report.metadata.startedAt.text = .ok report.metadata.startedAt.layout) :
    ∃ text, report.write format = .ok text := by
  rcases h with rfl | rfl
  · rw [Report.write, if_pos rfl, Report.json, Report.document?, htext rfl]
    exact ⟨_, rfl⟩
  · rw [Report.write, if_neg (by decide), if_pos rfl]
    exact ⟨_, rfl⟩

theorem write_of_unknown {report : Report} {format : Text} (h : ¬ KnownFormat format) :
    report.write format = .error (.unknownFormat format) := by
  rw [Report.write, if_neg fun hjson => h (Or.inl hjson),
    if_neg fun hmarkdown => h (Or.inr hmarkdown)]

theorem reportEffect_of_write {report : Report} {format text : Text}
    (h : report.write format = .ok text) :
    reportEffect report format =
      { output := text
        failure? :=
          if report.totals.mismatches = 0 then none
          else some (.mismatch report.totals.mismatches report.totals.cases) } := by
  rw [reportEffect, h]

theorem reportEffect_of_unknown {report : Report} {format : Text} (h : ¬ KnownFormat format) :
    reportEffect report format = .failed (.unwritten (.unknownFormat format)) := by
  rw [reportEffect, write_of_unknown h]

/-! ## The verdict -/

namespace CompareRequest

variable {r : CompareRequest} {s : Surroundings} {clock : Clock} {settings : Settings}

/-- The report of all cases. -/
def fullReport (settings : Settings) (clock : Clock) : Report :=
  (comparisonOf settings).report clock (comparisonOf settings).outcomes

/-- Without an interruption, what is printed and how it ends is that of the report of all cases. -/
theorem execute_of_never (clock : Clock) (hload : r.load s.files = .ok settings)
    (hnever : s.interrupt = .never) :
    (r.execute s clock).output =
        (reportEffect (fullReport settings clock) (given r.format settings.format)).output ∧
      (r.execute s clock).failure? =
        (reportEffect (fullReport settings clock) (given r.format settings.format)).failure? := by
  rw [execute, hload, hnever]
  exact ⟨rfl, rfl⟩

/-- The report of all cases can be written in every known format. -/
theorem exists_write_fullReport (settings : Settings)
    (hyear : 0 ≤ clock.start.date.year ∧ clock.start.date.year ≤ 9999) {format : Text}
    (hzone : format = Text.lit "json" → clock.start.offset.natAbs < 86400)
    (hknown : KnownFormat format) :
    ∃ text, (fullReport settings clock).write format = .ok text := by
  apply exists_write_of_known hknown
  intro hjson
  rw [fullReport, Comparison.metadata_report]
  exact Timestamp.text_eq_ok hyear (hzone hjson)

/-- **The verdict of a comparison.**  It ends well exactly if the format is known and no case is
bad.  In a known format the whole report is printed, also if there are bad cases, and then the
failure says how many of how many.  In an unknown format nothing is printed, and the failure is
about the format, whatever the cases are.

The clock is in the years 0 to 9999.  A JSON report holds its start in the notation of RFC 3339,
which has no zone a day or more away, so there the clock is also in a zone that the notation has;
the other formats ask for no zone. -/
theorem verdict_of_comparison (r : CompareRequest) (s : Surroundings) (clock : Clock)
    (settings : Settings) (hload : r.load s.files = .ok settings) (hnever : s.interrupt = .never)
    (hyear : 0 ≤ clock.start.date.year ∧ clock.start.date.year ≤ 9999)
    (hzone : given r.format settings.format = Text.lit "json" → clock.start.offset.natAbs < 86400) :
    ((r.execute s clock).failure? = none ↔
      KnownFormat (given r.format settings.format) ∧
        ∀ c ∈ settings.cases, ¬ c.Bad settings.maxDepth) ∧
    (KnownFormat (given r.format settings.format) →
      ∃ report, ((comparisonOf settings).run clock s.interrupt).2 = .ok report ∧
        report.write (given r.format settings.format) = .ok (r.execute s clock).output) ∧
    (∀ k, KnownFormat (given r.format settings.format) → badCases settings = k → 0 < k →
      ∃ f, (r.execute s clock).failure? = some f ∧ f = .mismatch k settings.cases.length ∧
        f.message = Text.decimal k ++ Text.lit " of " ++ Text.decimal settings.cases.length ++
          Text.lit " cases: multipliers disagree") ∧
    (¬ KnownFormat (given r.format settings.format) →
      (r.execute s clock).failure? =
        some (.unwritten (.unknownFormat (given r.format settings.format))) ∧
      (r.execute s clock).output = []) := by
  obtain ⟨houtput, hfailure⟩ := execute_of_never clock hload hnever
  have hcount : (fullReport settings clock).totals.mismatches = badCases settings :=
    mismatches_report settings clock
  have htotal : (fullReport settings clock).totals.cases = settings.cases.length :=
    cases_report settings clock
  rw [houtput, hfailure]
  by_cases hknown : KnownFormat (given r.format settings.format)
  · obtain ⟨text, htext⟩ := exists_write_fullReport settings hyear hzone hknown
    rw [reportEffect_of_write htext, hcount, htotal]
    refine ⟨?_, fun _ => ⟨fullReport settings clock, ?_, htext⟩, ?_,
      fun hunknown => absurd hknown hunknown⟩
    · rw [← badCases_eq_zero_iff]
      by_cases hzero : badCases settings = 0
      · exact ⟨fun _ => ⟨hknown, hzero⟩, fun _ => if_pos hzero⟩
      · refine ⟨fun hnone => ?_, fun hnone => absurd hnone.2 hzero⟩
        exact absurd ((if_neg hzero).symm.trans hnone) (by simp)
    · rw [hnever]
      rfl
    · rintro k - rfl hpos
      exact ⟨_, if_neg (Nat.ne_of_gt hpos), rfl, rfl⟩
  · rw [reportEffect_of_unknown hknown]
    refine ⟨⟨fun hnone => ?_, fun hall => absurd hall.1 hknown⟩, fun h => absurd h hknown,
      fun _ h => absurd h hknown, fun _ => ⟨rfl, rfl⟩⟩
    exact absurd hnone (by simp [Effect.failed])

/-- One case, `3 × 4` with `13` expected, to be reported as JSON. -/
def wrongExpectation : CompareRequest :=
  { format := Text.lit "json", snippets := [Text.lit "cases: [\x7bx: 3, y: 4, expected: 13\x7d]"] }

/-- The settings of `wrongExpectation`, where there are no files. -/
def wrongSettings : Settings :=
  ⟨Text.lit "recursive", 100000, 4, Text.lit "markdown", [⟨3, 4, some 13⟩]⟩

/-- The wrong expectation is a mismatch, one of one. -/
theorem verdict_of_wrongExpectation :
    wrongExpectation.load (fun _ => .error .notFound) = .ok wrongSettings ∧
    (wrongExpectation.execute ⟨fun _ => .error .notFound, false, .never⟩ ⟨.zero, 0⟩).failure? =
      some (.mismatch 1 1) := by
  have hload : wrongExpectation.load (fun _ => .error .notFound) = .ok wrongSettings :=
    eq_ok_of_toOption (by decide +kernel)
  have hverdict :=
    verdict_of_comparison wrongExpectation ⟨fun _ => .error .notFound, false, .never⟩ ⟨.zero, 0⟩
    wrongSettings hload rfl (by decide) (fun _ => by decide)
  obtain ⟨f, hf, rfl, -⟩ := hverdict.2.2.1 1 (Or.inl rfl) (by decide) (by decide)
  exact ⟨hload, hf⟩

/-- One case, `3 × 4` with nothing expected, to be reported as JSON. -/
def nothingExpected : CompareRequest :=
  { format := Text.lit "json", snippets := [Text.lit "cases: [\x7bx: 3, y: 4\x7d]"] }

/-- The settings of `nothingExpected`, where there are no files. -/
def nothingExpectedSettings : Settings :=
  ⟨Text.lit "recursive", 100000, 4, Text.lit "markdown", [⟨3, 4, none⟩]⟩

/-- The beginning of 1970 in a zone a day away. -/
def dayAway : Clock := ⟨.ofParts 0 0 86400, 0⟩

/-- Without the condition on the zone there is no such verdict: the format is known, the year is one
of four digits and no case is bad, yet the comparison fails and prints nothing. -/
theorem no_verdict_a_day_away :
    nothingExpected.load (fun _ => .error .notFound) = .ok nothingExpectedSettings ∧
    (0 ≤ dayAway.start.date.year ∧ dayAway.start.date.year ≤ 9999) ∧
    KnownFormat (given nothingExpected.format nothingExpectedSettings.format) ∧
    (∀ c ∈ nothingExpectedSettings.cases, ¬ c.Bad nothingExpectedSettings.maxDepth) ∧
    (nothingExpected.execute ⟨fun _ => .error .notFound, false, .never⟩ dayAway).failure? ≠ none ∧
    (nothingExpected.execute ⟨fun _ => .error .notFound, false, .never⟩ dayAway).output = [] := by
  have hload : nothingExpected.load (fun _ => .error .notFound) = .ok nothingExpectedSettings :=
    eq_ok_of_toOption (by decide +kernel)
  obtain ⟨houtput, hfailure⟩ := execute_of_never (s := ⟨fun _ => .error .notFound, false, .never⟩)
    dayAway hload rfl
  refine ⟨hload, by decide, Or.inl rfl, List.forall_mem_singleton.mpr (by decide), ?_, ?_⟩
  · rw [hfailure]
    decide +kernel
  · rw [houtput]
    decide +kernel

end CompareRequest

end CommandLine

end RepeatedAddition
