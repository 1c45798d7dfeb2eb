import RepeatedAddition.Comparison

/-!
# Reports and their totals

A report grows by one outcome at a time, and its totals are counted along.  Whatever the report was
before, adding outcomes puts them behind those that are there, and adds to each total the number of
outcomes that it is about.

* `Totals.foldl_count`: the totals after any list of outcomes.
* `Report.outcomes_addAll`, `Report.totals_addAll`, `Report.metadata_addAll`: a report after any
  list of outcomes.
* `Comparison.outcomes_report`, `Comparison.totals_report`: the report of a run.
-/

namespace RepeatedAddition

/-- **The totals count.**  Each is raised by the number of outcomes that it is about. -/
theorem Totals.foldl_count (t : Totals) (os : List Outcome) :
    os.foldl Totals.count t =
      { cases := t.cases + os.length
        ok := t.ok + os.countP fun o => o.status = .ok
        mismatches := t.mismatches + os.countP fun o => o.status = .mismatch
        skipped := t.skipped + os.countP fun o => o.status = .skipped
        wrapped := t.wrapped + os.countP Outcome.wrapped } := by
  induction os generalizing t with
  | nil => rfl
  | cons o os ih =>
    rw [List.foldl_cons, ih]
    simp only [Totals.count, List.length_cons, List.countP_cons, decide_eq_true_eq, Totals.mk.injEq]
    refine ⟨?_, ?_, ?_, ?_, ?_⟩ <;> omega

namespace Report

theorem outcomes_addAll (r : Report) (os : List Outcome) :
    (r.addAll os).outcomes = r.outcomes ++ os := by
  induction os generalizing r with
  | nil => exact (List.append_nil _).symm
  | cons o os ih =>
    have hadd : (r.addAll (o :: os)).outcomes = (r.add o).outcomes ++ os := ih (r.add o)
    rw [hadd, add, List.append_assoc, List.singleton_append]

theorem totals_addAll (r : Report) (os : List Outcome) :
    (r.addAll os).totals = os.foldl Totals.count r.totals := by
  induction os generalizing r with
  | nil => rfl
  | cons o os ih => exact ih (r.add o)

theorem metadata_addAll (r : Report) (os : List Outcome) : (r.addAll os).metadata = r.metadata := by
  induction os generalizing r with
  | nil => rfl
  | cons o os ih => exact ih (r.add o)

end Report

namespace Comparison

theorem outcomes_report (c : Comparison) (clock : Clock) (os : List Outcome) :
    (c.report clock os).outcomes = os := by
  rw [report, Report.outcomes_addAll]
  rfl

theorem metadata_report (c : Comparison) (clock : Clock) (os : List Outcome) :
    (c.report clock os).metadata = c.metadata clock := by
  rw [report, Report.metadata_addAll]
  rfl

theorem totals_report (c : Comparison) (clock : Clock) (os : List Outcome) :
    (c.report clock os).totals =
      { cases := os.length
        ok := os.countP fun o => o.status = .ok
        mismatches := os.countP fun o => o.status = .mismatch
        skipped := os.countP fun o => o.status = .skipped
        wrapped := os.countP Outcome.wrapped } := by
  rw [report, Report.totals_addAll, Totals.foldl_count]
  simp [Report.describe, Report.empty]

end Comparison

end RepeatedAddition
