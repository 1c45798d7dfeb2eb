import Mathlib.Algebra.GroupWithZero.Nat
import Mathlib.Logic.Relation
import RepeatedAddition.Comparison

/-!
# Comparison runs in workers

`Comparison.run` takes the cases one after another.  A run in workers takes them in any order that
the workers happen to be in, and its context may become done while some of them are at work.  This
module says what such a run can do, one step at a time; the order of the steps is left open, so a
theorem about all sequences of steps is a theorem about all interleavings.

## The parties

The *loop* goes over the cases.  Before each it looks at the context of the group, and unless that
is done it waits for a free slot and starts a worker.  Behind the last case, or once the context of
the group is done, it waits for the workers that it has started.  Then there are two more things
that can stop it: the first error of a worker, and a last look at the context.

A *worker* looks at the context of the group, evaluates its case, puts the outcome in its place,
reports progress and leaves.  If the context of the group is done by the time it looks, it fails
with the reason instead, and the group notes the first failure.

The *context* is done at any moment, and for good.

## Two contexts

The context of the group is done when the context is, but also when a worker has failed, and what
the loop and the workers look at is the context of the group.  `State` keeps the two apart.  That a
failed worker never makes a difference is a theorem and not part of the model.

## Places of outcomes

The places of the outcomes are there from the start, with blank outcomes in them.  A run that came
to its report too early would report the blanks.
-/

namespace RepeatedAddition
namespace Schedule

/-! ## States -/

/-- Where a worker stands. -/
inductive Worker where
  | checking
  | evaluating
  | storing (outcome : Outcome)
  | reporting (outcome : Outcome)
  | failing (why : Interruption)
  | leaving
  | ended
  deriving DecidableEq, Repr

/-- Where the loop stands: before the look at the context for a case, before the start of a worker
for it, behind all cases, before the last look at the context, or at the end. -/
inductive Position where
  | checking (next : Nat)
  | starting (next : Nat)
  | waiting
  | lastCheck
  | returned (result : Except Interruption Report)

/-- A moment of a run: the loop, the workers in the order of their cases, the places of the
outcomes, the events so far, why the context and that of the group are done, and the first failure
of a worker. -/
structure State where
  position : Position
  workers : List Worker
  stored : List Outcome
  events : List Event
  context : Option Interruption
  group : Option Interruption
  firstError : Option Interruption

/-- What stands in the place of an outcome before there is one. -/
def blank : Outcome := { x := 0, y := 0, status := ⟨[]⟩ }

/-- The start of a run. -/
def initial (c : Comparison) : State :=
  { position := .checking 0
    workers := []
    stored := List.replicate c.cases.length blank
    events := []
    context := none
    group := none
    firstError := none }

namespace State

/-- The number of slots in use. -/
def busy (s : State) : Nat := s.workers.countP fun w => w ≠ .ended

/-- All workers have given back their slots. -/
def Idle (s : State) : Prop := ∀ w ∈ s.workers, w = .ended

/-- The state with the loop somewhere else. -/
def standing (s : State) (p : Position) : State := { s with position := p }

/-- The state with one worker somewhere else. -/
def moved (s : State) (i : Nat) (w : Worker) : State := { s with workers := s.workers.set i w }

/-- The state with one more worker. -/
def started (s : State) : State := { s with workers := s.workers ++ [.checking] }

/-- The state once the context is done, and with it that of the group. -/
def interrupted (s : State) (why : Interruption) : State :=
  { s with context := some why, group := s.group.or (some why) }

/-- The state once the group knows of a failure: it keeps the first, and its context is done. -/
def noted (s : State) (why : Interruption) : State :=
  { s with firstError := s.firstError.or (some why), group := s.group.or (some .canceled) }

/-- The run has not come to its end. -/
def Running (s : State) : Prop := ∀ r, s.position ≠ .returned r

end State

/-! ## Steps -/

/-- One step of the loop or of a worker. -/
inductive Advance (c : Comparison) (clock : Clock) : State → State → Prop where
  | proceed {s : State} {i : Nat} (hs : s.position = .checking i) (hi : i < c.cases.length)
      (hg : s.group = none) : Advance c clock s (s.standing (.starting i))
  | breakOff {s : State} {i : Nat} {why : Interruption} (hs : s.position = .checking i)
      (hi : i < c.cases.length) (hg : s.group = some why) : Advance c clock s (s.standing .waiting)
  | exhausted {s : State} {i : Nat} (hs : s.position = .checking i) (hi : c.cases.length ≤ i) :
      Advance c clock s (s.standing .waiting)
  | start {s : State} {i : Nat} (hs : s.position = .starting i)
      (hfree : (s.busy : Int) < c.workers) :
      Advance c clock s (s.started.standing (.checking (i + 1)))
  | pass {s : State} {i : Nat} (hw : s.workers[i]? = some .checking) (hg : s.group = none) :
      Advance c clock s (s.moved i .evaluating)
  | refuse {s : State} {i : Nat} {why : Interruption} (hw : s.workers[i]? = some .checking)
      (hg : s.group = some why) : Advance c clock s (s.moved i (.failing why))
  | evaluate {s : State} {i : Nat} {k : Case} (hw : s.workers[i]? = some .evaluating)
      (hk : c.cases[i]? = some k) : Advance c clock s (s.moved i (.storing (k.outcome c.maxDepth)))
  | store {s : State} {i : Nat} {o : Outcome} (hw : s.workers[i]? = some (.storing o)) :
      Advance c clock s { s.moved i (.reporting o) with stored := s.stored.set i o }
  | report {s : State} {i : Nat} {o : Outcome} (hw : s.workers[i]? = some (.reporting o)) :
      Advance c clock s
        { s.moved i .leaving with events := s.events ++ [⟨i, c.cases.length, o⟩] }
  | fail {s : State} {i : Nat} {why : Interruption} (hw : s.workers[i]? = some (.failing why)) :
      Advance c clock s ((s.noted why).moved i .leaving)
  | leave {s : State} {i : Nat} (hw : s.workers[i]? = some .leaving) :
      Advance c clock s (s.moved i .ended)
  | joinFailed {s : State} {why : Interruption} (hs : s.position = .waiting) (hidle : s.Idle)
      (he : s.firstError = some why) : Advance c clock s (s.standing (.returned (.error why)))
  | join {s : State} (hs : s.position = .waiting) (hidle : s.Idle) (he : s.firstError = none) :
      Advance c clock s (s.standing .lastCheck)
  | interrupted {s : State} {why : Interruption} (hs : s.position = .lastCheck)
      (hc : s.context = some why) : Advance c clock s (s.standing (.returned (.error why)))
  | complete {s : State} (hs : s.position = .lastCheck) (hc : s.context = none) :
      Advance c clock s (s.standing (.returned (.ok (c.report clock s.stored))))

/-- One step of a run: of the loop, of a worker, or of what is around them. -/
inductive Step (c : Comparison) (clock : Clock) : State → State → Prop where
  | advance {s s' : State} (h : Advance c clock s s') : Step c clock s s'
  | interrupt {s : State} (why : Interruption) (h : s.context = none) :
      Step c clock s (s.interrupted why)

/-- Any number of steps. -/
abbrev Steps (c : Comparison) (clock : Clock) : State → State → Prop :=
  Relation.ReflTransGen (Step c clock)

/-- The states that a run can come to. -/
def Reachable (c : Comparison) (clock : Clock) (s : State) : Prop := Steps c clock (initial c) s

variable {c : Comparison} {clock : Clock} {s s' : State}

theorem Reachable.step (hs : Reachable c clock s) (h : Step c clock s s') : Reachable c clock s' :=
  Relation.ReflTransGen.tail hs h

theorem Reachable.steps (hs : Reachable c clock s) (h : Steps c clock s s') :
    Reachable c clock s' :=
  Relation.ReflTransGen.trans hs h

/-- **What holds at the start and is kept by every step holds throughout.** -/
theorem Reachable.induction {P : State → Prop} (h0 : P (initial c))
    (hstep : ∀ s s', P s → Step c clock s s' → P s') (hs : Reachable c clock s) : P s := by
  induction hs with
  | refl => exact h0
  | tail _ hlast ih => exact hstep _ _ ih hlast

/-! ## The context -/

/-- The run itself does not touch the context. -/
theorem Advance.context_eq (h : Advance c clock s s') : s'.context = s.context := by
  cases h <;> rfl

/-- A context that is done stays done, for the same reason. -/
theorem Step.context_eq_some {why : Interruption} (h : Step c clock s s')
    (hc : s.context = some why) : s'.context = some why := by
  cases h with
  | advance h => rw [h.context_eq, hc]
  | interrupt why' hnone => exact absurd (hnone.symm.trans hc) (by simp)

theorem Steps.context_eq_some {why : Interruption} (h : Steps c clock s s')
    (hc : s.context = some why) : s'.context = some why := by
  induction h with
  | refl => exact hc
  | tail _ hlast ih => exact hlast.context_eq_some ih

/-! ## Slots -/

theorem one_le_workers (c : Comparison) : 1 ≤ c.workers := by
  rw [Comparison.workers]
  split <;> omega

/-- A slot is free, or some worker has not ended. -/
theorem State.exists_of_busy_pos (h : 0 < s.busy) :
    ∃ (i : Nat) (w : Worker), s.workers[i]? = some w ∧ w ≠ .ended := by
  obtain ⟨w, hw, hne⟩ := List.countP_pos_iff.mp h
  obtain ⟨i, hi⟩ := List.mem_iff_getElem?.mp hw
  exact ⟨i, w, hi, by simpa using hne⟩

theorem State.busy_eq_zero (h : s.Idle) : s.busy = 0 := by
  rw [State.busy, List.countP_eq_zero]
  intro w hw
  simp [h w hw]

/-! ## What is left to do

Every step takes something off what is left: the loop has fewer cases before it, or a worker is
further, or the context is done. -/

/-- The steps that a worker has before it, at most. -/
def Worker.rank : Worker → Nat
  | .checking => 5
  | .evaluating => 4
  | .storing _ => 3
  | .reporting _ => 2
  | .failing _ => 2
  | .leaving => 1
  | .ended => 0

/-- The steps that the loop and the workers that it will start have before them, at most, for `n`
cases. -/
def Position.rank (n : Nat) : Position → Nat
  | .checking i => 7 * (n - i) + 3
  | .starting i => 7 * (n - (i + 1)) + 9
  | .waiting => 2
  | .lastCheck => 1
  | .returned _ => 0

/-- The steps that the context has before it. -/
def contextRank : Option Interruption → Nat
  | none => 1
  | some _ => 0

/-- The steps that a run has before it, at most. -/
def State.rank (c : Comparison) (s : State) : Nat :=
  s.position.rank c.cases.length + (s.workers.map Worker.rank).sum + contextRank s.context

/-- Moving a worker changes what is left by what it takes off that worker. -/
theorem sum_rank_set {ws : List Worker} {i : Nat} {w : Worker} (w' : Worker) (h : ws[i]? = some w) :
    ((ws.set i w').map Worker.rank).sum + w.rank = (ws.map Worker.rank).sum + w'.rank := by
  induction ws generalizing i with
  | nil => simp at h
  | cons v vs ih =>
    cases i with
    | zero =>
      obtain rfl : v = w := by simpa using h
      simp only [List.set_cons_zero, List.map_cons, List.sum_cons]
      omega
    | succ i =>
      have hrest := ih (i := i) (by simpa using h)
      simp only [List.set_cons_succ, List.map_cons, List.sum_cons]
      omega

theorem State.rank_standing (p : Position) :
    (s.standing p).rank c + s.position.rank c.cases.length = s.rank c + p.rank c.cases.length := by
  simp only [State.rank, State.standing]
  omega

theorem State.rank_started : s.started.rank c = s.rank c + 5 := by
  simp only [State.rank, State.started, List.map_append, List.sum_append, List.map_cons,
    List.map_nil, List.sum_cons, List.sum_nil, Worker.rank]
  omega

theorem State.rank_standing_lt {p : Position}
    (h : p.rank c.cases.length < s.position.rank c.cases.length) :
    (s.standing p).rank c < s.rank c := by
  have hsum := State.rank_standing (c := c) (s := s) p
  omega

theorem State.rank_moved_lt {i : Nat} {w w' : Worker} (hw : s.workers[i]? = some w)
    (h : w'.rank < w.rank) : (s.moved i w').rank c < s.rank c := by
  have hsum := sum_rank_set w' hw
  simp only [State.rank, State.moved]
  omega

/-- Every step of the run leaves less to do. -/
theorem Advance.rank_lt (h : Advance c clock s s') : s'.rank c < s.rank c := by
  cases h with
  | proceed hs _ _ | breakOff hs _ _ | exhausted hs _ | joinFailed hs _ _ | join hs _ _
  | interrupted hs _
  | complete hs _ =>
    apply State.rank_standing_lt
    rw [hs]
    simp only [Position.rank]
    omega
  | @start i hs _ =>
    have hp : s.position.rank c.cases.length = 7 * (c.cases.length - (i + 1)) + 9 := by
      rw [hs, Position.rank]
    have hsum := State.rank_standing (c := c) (s := s.started) (.checking (i + 1))
    rw [State.rank_started, show s.started.position = s.position from rfl, hp,
      Position.rank] at hsum
    omega
  | pass hw _ => exact State.rank_moved_lt hw (by decide)
  | refuse hw _ | evaluate hw _ => exact State.rank_moved_lt hw (by simp only [Worker.rank]; omega)
  | store hw | report hw | fail hw =>
    -- the shared part of the state does not count, so the move alone decides
    exact State.rank_moved_lt (c := c) hw (by simp only [Worker.rank]; omega)
  | leave hw => exact State.rank_moved_lt hw (by decide)

/-- So does an interruption, of which there is no more than one. -/
theorem Step.rank_lt (h : Step c clock s s') : s'.rank c < s.rank c := by
  cases h with
  | advance h => exact h.rank_lt
  | interrupt why hnone =>
    simp only [State.rank, State.interrupted, contextRank, hnone]
    omega

/-- **No run goes on for ever**, whatever the order of its steps. -/
theorem wellFounded_step (c : Comparison) (clock : Clock) :
    WellFounded fun s' s => Step c clock s s' :=
  Subrelation.wf Step.rank_lt (measure (State.rank c)).wf

end Schedule
end RepeatedAddition
