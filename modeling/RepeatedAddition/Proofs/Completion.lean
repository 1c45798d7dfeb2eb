import Mathlib.Data.List.Chain
import Mathlib.Order.WellFounded
import RepeatedAddition.Proofs.ScheduleResult

/-!
# Every run in workers comes to its end

`Schedule.Step` leaves the order of the steps open.  Two things could keep a run from returning.  It
could be stuck: the loop waits for a slot that nobody gives back, or for a worker that never ends.
Or it could go on for ever.

Neither happens.  There is at least one slot, so a loop that waits for one waits for a worker, and a
worker that has not ended can go on by itself, whether the context is done or not.  And every step
takes something off what is left to do, so a schedule for `n` cases has at most `7 * n + 4` steps:
two of the loop and five of a worker for each case, three of the loop behind them, and one in which
the context becomes done.

* `Reachable.advance_iff`: a run can go on by itself exactly until it has returned.
* `IsSchedule.length_le`: no schedule is longer than its cases allow.
* `every_schedule_returns`: a schedule that cannot be continued has come to a return.
-/

namespace RepeatedAddition
namespace Schedule

variable {c : Comparison} {clock : Clock} {s s' : State}

/-- The number of slots is the number of workers that is asked for, or one. -/
theorem workers_eq_max (c : Comparison) : c.workers = max 1 c.concurrency := by
  rw [Comparison.workers]
  split <;> omega

/-! ## What is over -/

/-- The loop stands behind its wait. -/
def Position.IsBehindWait : Position → Prop
  | .lastCheck => True
  | .returned _ => True
  | _ => False

/-- Behind the wait of the loop no worker is at work. -/
def State.Settled (s : State) : Prop := s.position.IsBehindWait → s.Idle

theorem State.Settled.moved (h : s.Settled) {i : Nat} {w : Worker} (hw : s.workers[i]? = some w)
    (hne : w ≠ .ended) (w' : Worker) : (s.moved i w').Settled := by
  intro hbehind
  exact absurd (h hbehind w (List.mem_of_getElem? hw)) hne

theorem Advance.settled (ha : Advance c clock s s') (h : s.Settled) : s'.Settled := by
  cases ha with
  | proceed | breakOff | exhausted | start => exact fun hbehind => hbehind.elim
  | pass hw _ | refuse hw _ | evaluate hw _ | leave hw => exact h.moved hw (by simp) _
  | store hw | report hw | fail hw =>
    -- what these change beside the worker is not asked for
    exact fun hbehind => absurd (h hbehind _ (List.mem_of_getElem? hw)) (by simp)
  | joinFailed _ hidle _ | join _ hidle _ => exact fun _ => hidle
  | interrupted hs _ | complete hs _ => exact fun _ => h (by rw [hs]; trivial)

theorem Reachable.settled (hs : Reachable c clock s) : s.Settled := by
  refine hs.induction (fun hbehind => hbehind.elim) fun t t' ht hstep => ?_
  cases hstep with
  | advance ha => exact ha.settled ht
  | interrupt => exact ht

/-- A run that has returned does nothing more. -/
theorem Reachable.not_advance (hs : Reachable c clock s) {r : Except Interruption Report}
    (hr : s.position = .returned r) : ¬Advance c clock s s' := by
  have hidle : s.Idle := hs.settled (by rw [hr]; trivial)
  have hended {i : Nat} {w : Worker} (hw : s.workers[i]? = some w) : w = .ended :=
    hidle w (List.mem_of_getElem? hw)
  intro ha
  cases ha with
  | proceed hp | breakOff hp | exhausted hp | start hp | joinFailed hp | join hp | interrupted hp
  | complete hp =>
    rw [hr] at hp
    cases hp
  | pass hw | refuse hw | evaluate hw | store hw | report hw | fail hw | leave hw => cases hended hw

/-- **A run can go on by itself exactly until it has returned.** -/
theorem Reachable.advance_iff (hs : Reachable c clock s) :
    (∃ s', Advance c clock s s') ↔ s.Running := by
  constructor
  · rintro ⟨s', ha⟩ r hr
    exact hs.not_advance hr ha
  · exact hs.inv.exists_advance

/-! ## Schedules -/

/-- The states that a run comes through from its start on, each by one step. -/
def IsSchedule (c : Comparison) (clock : Clock) (states : List State) : Prop :=
  List.IsChain (Step c clock) (initial c :: states)

/-- The state to which a schedule leads. -/
def final (c : Comparison) (states : List State) : State := states.getLastD (initial c)

/-- A chain of steps takes one off what is left for each of them. -/
theorem length_le_rank {states : List State} (h : List.IsChain (Step c clock) (s :: states)) :
    states.length ≤ s.rank c := by
  induction states generalizing s with
  | nil => exact Nat.zero_le _
  | cons t states ih =>
    obtain ⟨hstep, hrest⟩ := List.isChain_cons_cons.mp h
    exact Nat.lt_of_le_of_lt (ih hrest) hstep.rank_lt

theorem rank_initial (c : Comparison) : (initial c).rank c = 7 * c.cases.length + 4 := by
  simp [State.rank, initial, Position.rank, contextRank]

theorem IsSchedule.length_le {states : List State} (h : IsSchedule c clock states) :
    states.length ≤ 7 * c.cases.length + 4 :=
  rank_initial c ▸ length_le_rank h

theorem steps_of_isChain {states : List State} (h : List.IsChain (Step c clock) (s :: states)) :
    Steps c clock s (states.getLastD s) := by
  induction states generalizing s with
  | nil => exact .refl
  | cons t states ih =>
    obtain ⟨hstep, hrest⟩ := List.isChain_cons_cons.mp h
    rw [List.getLastD_cons]
    exact .head hstep (ih hrest)

theorem IsSchedule.reachable {states : List State} (h : IsSchedule c clock states) :
    Reachable c clock (final c states) :=
  steps_of_isChain h

/-- **Every schedule is finite, and one that cannot be continued has come to a return.**  There are
as many slots as are asked for, or one.  A run that has not returned can go on without any change of
its context, and one that has returned does nothing more.  No sequence of steps is longer than its
cases allow, so none goes on for ever, and where the loop and the workers have nothing more to do,
the run has returned. -/
theorem every_schedule_returns (c : Comparison) (clock : Clock) :
    c.workers = max 1 c.concurrency ∧
    (∀ s, Reachable c clock s → ((∃ s', Advance c clock s s') ↔ s.Running)) ∧
    (∀ states, IsSchedule c clock states → states.length ≤ 7 * c.cases.length + 4) ∧
    (∀ run : ℕ → State, ∃ n, ¬Step c clock (run n) (run (n + 1))) ∧
    ∀ states, IsSchedule c clock states → (∀ s', ¬Advance c clock (final c states) s') →
      ∃ r, (final c states).position = .returned r := by
  refine ⟨workers_eq_max c, fun s hs => hs.advance_iff, fun states h => h.length_le, fun run => ?_,
    fun states h hstuck => ?_⟩
  · have hwf : IsWellFounded State fun s' s => Step c clock s s' := ⟨wellFounded_step c clock⟩
    exact WellFounded.not_rel_apply_succ (r := fun s' s => Step c clock s s') run
  · have hreturned : ¬(final c states).Running := fun hrunning =>
      (h.reachable.advance_iff.mpr hrunning).elim hstuck
    simpa [State.Running] using hreturned

end Schedule
end RepeatedAddition
