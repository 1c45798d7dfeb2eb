import Mathlib.Data.List.Forall2
import RepeatedAddition.Proofs.Case
import RepeatedAddition.Proofs.ScheduleResult

/-!
# The depth limit as a guard

A comparison under a higher limit multiplies all that it multiplies under a lower one, with the same
outcomes, and may multiply some cases that were skipped.  So only skipped cases change, and each of
them comes to be counted as something else or stays as it is.  Whether a product wraps does not
depend on the limit.

* `Case.outcome_eq_of_le`, `Case.skipped_of_le`: what a case makes of a higher limit.
* `Report.Loosened`: what a report makes of it.
* `report_loosened_of_le`: two runs of the same cases, under any schedules.
-/

namespace RepeatedAddition

namespace Case

variable {limit limit' : UInt64} {k : Case}

/-- **A case that is multiplied has the same outcome under every higher limit.** -/
theorem outcome_eq_of_le (h : limit ≤ limit') (hrun : (k.outcome limit).status ≠ .skipped) :
    k.outcome limit' = k.outcome limit := by
  have hle : k.y ≤ limit := UInt64.not_lt.mp fun hlt =>
    hrun ((k.judged_outcome limit).skipped_iff.mpr hlt)
  rw [outcome_of_le hle, outcome_of_le (UInt64.le_trans hle h)]

/-- A case that is skipped is skipped under every lower limit. -/
theorem skipped_of_le (h : limit ≤ limit') (hskip : (k.outcome limit').status = .skipped) :
    (k.outcome limit).status = .skipped := by
  have hlt : limit' < k.y := (k.judged_outcome limit').skipped_iff.mp hskip
  exact (k.judged_outcome limit).skipped_iff.mpr (UInt64.lt_of_le_of_lt h hlt)

/-- Any other status stays under every higher limit. -/
theorem status_of_le (h : limit ≤ limit') {status : Status} (hne : status ≠ .skipped)
    (hstatus : (k.outcome limit).status = status) : (k.outcome limit').status = status := by
  rw [outcome_eq_of_le h (hstatus ▸ hne), hstatus]

theorem wrapped_outcome (limit : UInt64) (k : Case) :
    (k.outcome limit).wrapped = wraps k.x k.y := by
  rw [Bool.eq_iff_iff]
  exact (k.judged_outcome limit).wrapped_iff.trans (wraps_iff k.x k.y).symm

end Case

/-- What a report may become under a higher limit. -/
structure Report.Loosened (r r' : Report) : Prop where
  outcomes : List.Forall₂
    (fun o o' => (o.status ≠ .skipped → o' = o) ∧ (o'.status = .skipped → o.status = .skipped))
    r.outcomes r'.outcomes
  cases_eq : r'.totals.cases = r.totals.cases
  wrapped_eq : r'.totals.wrapped = r.totals.wrapped
  skipped_le : r'.totals.skipped ≤ r.totals.skipped
  ok_le : r.totals.ok ≤ r'.totals.ok
  mismatches_le : r.totals.mismatches ≤ r'.totals.mismatches

namespace Comparison

/-- Counting outcomes is counting cases. -/
theorem countP_outcomes (c : Comparison) (p : Outcome → Bool) :
    c.outcomes.countP p = c.cases.countP fun k => p (k.outcome c.maxDepth) := by
  rw [outcomes, List.countP_map]
  rfl

/-- **Only skipped cases change under a higher limit.** -/
theorem loosened_report (c c' : Comparison) (hcases : c'.cases = c.cases)
    (h : c.maxDepth ≤ c'.maxDepth) (clock clock' : Clock) :
    (c.report clock c.outcomes).Loosened (c'.report clock' c'.outcomes) := by
  have hstatus {status : Status} (hne : status ≠ .skipped) :
      c.outcomes.countP (fun o => o.status = status) ≤ c'.outcomes.countP fun o =>
        o.status = status := by
    rw [countP_outcomes, countP_outcomes, hcases]
    refine List.countP_mono_left fun k _ hk => ?_
    exact decide_eq_true (Case.status_of_le h hne (of_decide_eq_true hk))
  refine ⟨?_, ?_, ?_, ?_, ?_, ?_⟩
  · rw [outcomes_report, outcomes_report, outcomes, outcomes, hcases, List.forall₂_map_left_iff,
      List.forall₂_map_right_iff]
    exact List.forall₂_same.mpr fun k _ => ⟨Case.outcome_eq_of_le h, Case.skipped_of_le h⟩
  · simp only [totals_report, outcomes, List.length_map, hcases]
  · simp only [totals_report, countP_outcomes, Case.wrapped_outcome, hcases]
  · simp only [totals_report, countP_outcomes, hcases]
    refine List.countP_mono_left fun k _ hk => ?_
    exact decide_eq_true (Case.skipped_of_le h (of_decide_eq_true hk))
  · simp only [totals_report]
    exact hstatus Status.ok_ne_skipped
  · simp only [totals_report]
    exact hstatus Status.skipped_ne_mismatch.symm

end Comparison

namespace Schedule

/-- A run whose context is not done returns its report. -/
theorem Reachable.returned_eq_report {c : Comparison} {clock : Clock} {s : State}
    (hs : Reachable c clock s) (hnone : s.context = none) {r : Except Interruption Report}
    (hr : s.position = .returned r) :
    r = .ok (c.report clock c.outcomes) := by
  cases r with
  | error why => exact absurd (hnone.symm.trans (hs.inv.concluded_at hr)) (by simp)
  | ok report => rw [show report = c.report clock c.outcomes from hs.inv.concluded_at hr]

/-- **The limit is only a guard.**  Two runs of the same cases that nobody cancels, under any
schedules, with any numbers of workers, and one under a higher limit than the other: both return
reports, and under the higher limit only skipped cases change.  A run without mismatches has none
under a lower limit.  The runs of one case after another return such reports. -/
theorem report_loosened_of_le (cases : List Case) (limit limit' : UInt64) (h : limit ≤ limit')
    (concurrency concurrency' : Int) (clock clock' : Clock) :
    (∀ s s' r r',
      Reachable ⟨limit, concurrency, cases⟩ clock s → s.context = none → s.position = .returned r →
      Reachable ⟨limit', concurrency', cases⟩ clock' s' → s'.context = none →
        s'.position = .returned r' →
      ∃ report report', r = .ok report ∧ r' = .ok report' ∧ report.Loosened report' ∧
        (report'.totals.mismatches = 0 → report.totals.mismatches = 0)) ∧
    ∃ report report',
      ((Comparison.mk limit concurrency cases).run clock .never).2 = .ok report ∧
      ((Comparison.mk limit' concurrency' cases).run clock' .never).2 = .ok report' ∧
      report.Loosened report' := by
  have hloosened :=
    Comparison.loosened_report ⟨limit, concurrency, cases⟩ ⟨limit', concurrency',
      cases⟩ rfl h clock clock'
  refine ⟨fun s s' r r' hs hnone hr hs' hnone' hr' => ?_, _, _, rfl, rfl, hloosened⟩
  refine ⟨_, _, hs.returned_eq_report hnone hr, hs'.returned_eq_report hnone' hr', hloosened,
    fun hzero => ?_⟩
  exact Nat.le_zero.mp (hzero ▸ hloosened.mismatches_le)

/-- Of two cases one is skipped under the lower limit, and is a mismatch under the higher one. -/
theorem report_loosened_of_five_le_six :
    (5 : UInt64) ≤ 6 ∧ ∃ report report',
      ((Comparison.mk 5 1 [⟨3, 4, none⟩, ⟨2, 6, some 13⟩]).run ⟨.zero, 0⟩ .never).2 = .ok report ∧
      ((Comparison.mk 6 8 [⟨3, 4, none⟩, ⟨2, 6, some 13⟩]).run ⟨.zero, 0⟩ .never).2 = .ok report' ∧
      report.Loosened report' ∧ report.totals = ⟨2, 1, 0, 1, 0⟩ ∧
      report'.totals = ⟨2, 1, 1, 0, 0⟩ := by
  obtain ⟨-, report, report', hr, hr', hloosened⟩ :=
    report_loosened_of_le [⟨3, 4, none⟩, ⟨2, 6, some 13⟩] 5 6 (by decide) 1 8 ⟨.zero, 0⟩ ⟨.zero, 0⟩
  refine ⟨by decide, report, report', hr, hr', hloosened, ?_, ?_⟩
  · cases hr
    decide +kernel
  · cases hr'
    decide +kernel

end Schedule
end RepeatedAddition
