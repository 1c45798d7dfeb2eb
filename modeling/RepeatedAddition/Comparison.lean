import RepeatedAddition.Report.Document

/-!
# Comparison runs

A run takes the cases one after another, evaluates each and reports progress, and ends with a report
of all outcomes in the order of the cases.  It can be interrupted: before it starts, or by whoever
listens to the progress.  An interrupted run gives no report, even when every case has been
evaluated by then.

The number of workers changes neither the outcomes nor their order, so it only shows in the
description of the run, where it is at least one.

* `Interruption`: why and when a run is interrupted.
* `Comparison.run`: the events of a run, and its report or the interruption.
-/

namespace RepeatedAddition

/-- Why a run ended early. -/
inductive Interruption where
  | canceled
  | deadlineExceeded
  deriving DecidableEq, Repr

/-- What is said of a run that ended early. -/
def Interruption.message : Interruption → Text
  | .canceled => Text.lit "context canceled"
  | .deadlineExceeded => Text.lit "context deadline exceeded"

/-- When a run is interrupted, if at all. -/
inductive Interrupt where
  | never
  | beforeStart (why : Interruption)
  | atEvent (number : Nat)
  deriving DecidableEq, Repr

/-- The readings of the clock at the start and at the end of a run: the start, and the nanoseconds
that passed. -/
structure Clock where
  start : Timestamp
  elapsed : Int
  deriving DecidableEq, Repr

/-- Progress: the outcome of one of `total` cases. -/
structure Event where
  index : Nat
  total : Nat
  outcome : Outcome
  deriving DecidableEq, Repr

/-- A comparison: its depth limit, the number of workers that it asks for, and its cases. -/
structure Comparison where
  maxDepth : UInt64
  concurrency : Int
  cases : List Case
  deriving DecidableEq, Repr

namespace Comparison

/-- The number of workers: what is asked for, but at least one. -/
def workers (c : Comparison) : Int := if c.concurrency < 1 then 1 else c.concurrency

/-- The outcomes of all cases, in order. -/
def outcomes (c : Comparison) : List Outcome := c.cases.map (Case.outcome c.maxDepth)

/-- The events of a run that nothing interrupts. -/
def events (c : Comparison) : List Event :=
  c.outcomes.zipIdx.map fun (outcome, index) => ⟨index, c.cases.length, outcome⟩

/-- The description of a run. -/
def metadata (c : Comparison) (clock : Clock) : Metadata :=
  { methods := some Method.names
    maxDepth := c.maxDepth
    concurrency := c.workers
    startedAt := clock.start
    duration := Duration.text ((clock.start.later clock.elapsed).since clock.start) }

/-- The report of a run that came to its end with these outcomes. -/
def report (c : Comparison) (clock : Clock) (outcomes : List Outcome) : Report :=
  (Report.empty.describe (c.metadata clock)).addAll outcomes

/-- The work of a run: the events that it emits, and its outcomes unless it is interrupted.  An
event that interrupts the run is its last, and nothing is evaluated behind it. -/
def evaluate (c : Comparison) : Interrupt → List Event × Except Interruption (List Outcome)
  | .never => (c.events, .ok c.outcomes)
  | .beforeStart why => ([], .error why)
  | .atEvent number =>
    if 1 ≤ number ∧ number ≤ c.cases.length then (c.events.take number, .error .canceled)
    else (c.events, .ok c.outcomes)

/-- A run: the events that it emits, and its report unless it is interrupted. -/
def run (c : Comparison) (clock : Clock) (interrupt : Interrupt) :
    List Event × Except Interruption Report :=
  let (events, outcomes) := c.evaluate interrupt
  (events, outcomes.map (c.report clock))

end Comparison

end RepeatedAddition
