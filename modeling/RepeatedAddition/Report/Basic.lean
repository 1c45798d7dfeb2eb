import RepeatedAddition.Case
import RepeatedAddition.Timestamp

/-!
# Reports

A report is a list of outcomes in the order in which they were added, with running totals and a
description of the run they come from.

* `Report.empty`, `Report.add`: a report grows by one outcome at a time, and the totals with it.
* `Report.mismatches`: the outcomes that disagree, in order.
-/

namespace RepeatedAddition

/-- How a run was configured, when it started and how long it took.  The methods may be unknown. -/
structure Metadata where
  methods : Option (List Text) := none
  maxDepth : UInt64 := 0
  concurrency : Int := 0
  startedAt : Timestamp := .zero
  duration : Text := []
  deriving DecidableEq, Repr

/-- Numbers of outcomes: all, by status, and those whose product wrapped. -/
structure Totals where
  cases : Nat := 0
  ok : Nat := 0
  mismatches : Nat := 0
  skipped : Nat := 0
  wrapped : Nat := 0
  deriving DecidableEq, Repr

/-- The totals with one more outcome counted. -/
def Totals.count (t : Totals) (o : Outcome) : Totals :=
  { cases := t.cases + 1
    ok := t.ok + if o.status = .ok then 1 else 0
    mismatches := t.mismatches + if o.status = .mismatch then 1 else 0
    skipped := t.skipped + if o.status = .skipped then 1 else 0
    wrapped := t.wrapped + if o.wrapped then 1 else 0 }

/-- Outcomes with their totals and the description of their run. -/
structure Report where
  metadata : Metadata := {}
  outcomes : List Outcome := []
  totals : Totals := {}
  deriving DecidableEq, Repr

namespace Report

/-- The report without outcomes. -/
def empty : Report := {}

/-- The report with one more outcome at the end. -/
def add (r : Report) (o : Outcome) : Report :=
  { r with outcomes := r.outcomes ++ [o], totals := r.totals.count o }

/-- The report with outcomes added in order. -/
def addAll (r : Report) (os : List Outcome) : Report := os.foldl add r

/-- The report with another description of its run. -/
def describe (r : Report) (m : Metadata) : Report := { r with metadata := m }

/-- The outcomes that disagree. -/
def mismatches (r : Report) : List Outcome := r.outcomes.filter fun o => o.status = .mismatch

end Report

end RepeatedAddition
