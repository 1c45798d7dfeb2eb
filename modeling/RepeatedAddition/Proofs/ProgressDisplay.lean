import Mathlib.Data.List.Perm.Subperm
import RepeatedAddition.CommandLine.Request
import RepeatedAddition.Proofs.Case
import RepeatedAddition.Proofs.Delimited
import RepeatedAddition.Proofs.Progress

/-!
# Progress on a terminal

On a terminal, whoever runs a comparison sees its progress.  The workers report in any order, and
all of them count with one counter: the number that is shown with an outcome is that of the report,
and has nothing to do with the index of its case.  A line break is shown with the report whose
number is that of all cases.

`Watched` are the steps of a run together with what they show.  A report counts and is shown in one
step, so nothing of another report comes between.

* `Display.tell`: what one report does to the terminal.
* `WatchedSteps.display_eq`: the counter is the number of reports, and what is shown is
  `CommandLine.progress` of them.
* `progress_eq`: what is shown of as many reports as there are cases, or fewer.
* `display_under_every_schedule`: what is shown under every schedule.
-/

namespace RepeatedAddition
namespace Schedule

open CommandLine (progress progressLine comparisonOf CompareRequest Surroundings)

variable {c : Comparison} {clock : Clock} {s s' : State}

/-! ## What is shown -/

/-- The terminal: the number of reports so far, and what has been shown. -/
structure Display where
  count : Nat := 0
  text : Text := []
  deriving DecidableEq, Repr

/-- One report: it is counted, and shown under its number. -/
def Display.tell (d : Display) (e : Event) : Display :=
  ⟨d.count + 1, d.text ++ progressLine (d.count + 1) e⟩

/-- One step of a run and what it shows: nothing, or the event that it emits. -/
inductive Watched (c : Comparison) (clock : Clock) : State × Display → State × Display → Prop where
  | silent {s s' : State} {d : Display} (h : Step c clock s s') (hevents : s'.events = s.events) :
      Watched c clock (s, d) (s', d)
  | told {s s' : State} {d : Display} {e : Event} (h : Step c clock s s') (hevents : s'.events =
      s.events ++ [e]) :
      Watched c clock (s, d) (s', d.tell e)

/-- Any number of steps and what they show. -/
abbrev WatchedSteps (c : Comparison) (clock : Clock) : State × Display → State × Display → Prop :=
  Relation.ReflTransGen (Watched c clock)

/-- One more report is shown behind the others. -/
theorem progress_concat (events : List Event) (e : Event) :
    progress (events ++ [e]) = progress events ++ progressLine (events.length + 1) e := by
  rw [progress, List.zipIdx_append, List.flatMap_append, Nat.add_comm 1]
  simp [progress]

/-- **The counter is the number of reports**, and what is shown is the progress in their order. -/
theorem WatchedSteps.display_eq {d : Display} (h : WatchedSteps c clock (initial c, {}) (s, d)) :
    Reachable c clock s ∧ d = ⟨s.events.length, progress s.events⟩ := by
  suffices hrun : ∀ t : State × Display, WatchedSteps c clock (initial c, {}) t →
      Reachable c clock t.1 ∧ t.2 = ⟨t.1.events.length, progress t.1.events⟩ from hrun (s, d) h
  intro t ht
  induction ht with
  | refl => exact ⟨.refl, rfl⟩
  | tail _ hlast ih =>
    obtain ⟨hs, hd⟩ := ih
    cases hlast with
    | silent hstep hevents =>
      refine ⟨hs.step hstep, ?_⟩
      rw [hevents]
      exact hd
    | @told s s' d e hstep hevents =>
      refine ⟨hs.step hstep, ?_⟩
      obtain rfl : d = ⟨s.events.length, progress s.events⟩ := hd
      rw [hevents, List.length_append, progress_concat]
      rfl

/-- Every run can be watched. -/
theorem Reachable.exists_watched (hs : Reachable c clock s) :
    ∃ d, WatchedSteps c clock (initial c, {}) (s, d) := by
  have hrun : Reachable c clock s ∧ ∃ d, WatchedSteps c clock (initial c, {}) (s, d) := by
    refine Reachable.induction (P := fun t => Reachable c clock t ∧ ∃ d,
      WatchedSteps c clock (initial c, {}) (t, d)) ⟨.refl, {}, .refl⟩ ?_ hs
    rintro t t' ⟨ht, d, hd⟩ hstep
    refine ⟨ht.step hstep, ?_⟩
    rcases hstep.events_cases ht.inv with hsame | ⟨e, hevents, -, -⟩
    · exact ⟨d, hd.tail (.silent hstep hsame)⟩
    · exact ⟨d.tell e, hd.tail (.told hstep hevents)⟩
  exact hrun.2

/-! ## Chunks and the line break -/

/-- One outcome as it is shown, under its number, of a number of cases. -/
def progressChunk (number total : Nat) (o : Outcome) : Text :=
  Text.lit "\r[" ++ Text.decimal number ++ Text.lit "/" ++ Text.decimal total ++ Text.lit "] "
    ++ Text.decimal o.x.toNat ++ Text.lit " × " ++ Text.decimal o.y.toNat ++ Text.lit ": " ++
    o.status.label

/-- Outcomes as they are shown, under numbers from one on. -/
def progressChunks (total : Nat) (os : List Outcome) : Text :=
  (os.zipIdx 1).flatMap fun p => progressChunk p.2 total p.1

theorem progressLine_eq (number : Nat) (e : Event) :
    progressLine number e =
      progressChunk number e.total e.outcome ++
        if number = e.total then Text.lit "\n" else [] := rfl

theorem progressChunks_concat (total : Nat) (os : List Outcome) (o : Outcome) :
    progressChunks total (os ++ [o]) = progressChunks total os ++
      progressChunk (os.length + 1) total o := by
  rw [progressChunks, List.zipIdx_append, List.flatMap_append, Nat.add_comm 1]
  simp [progressChunks]

/-- **The line break stands behind the last of all outcomes and nowhere else.** -/
theorem progress_eq {total : Nat} {events : List Event} (htotal : ∀ e ∈ events, e.total = total)
    (hlength : events.length ≤ total) :
    progress events = progressChunks total (events.map Event.outcome) ++
      if events.length = total ∧ 0 < total then Text.lit "\n" else [] := by
  induction events using List.reverseRecOn with
  | nil =>
    have hempty : ¬(([] : List Event).length = total ∧ 0 < total) := by
      rw [List.length_nil]
      omega
    rw [if_neg hempty]
    rfl
  | append_singleton events e ih =>
    obtain ⟨hrest, hlast⟩ := List.forall_mem_append.mp htotal
    obtain rfl : e.total = total := hlast e (List.mem_singleton_self e)
    rw [List.length_append, List.length_singleton] at hlength ⊢
    -- the counter has not come to the number of all cases before the last report
    rw [progress_concat, ih hrest (by omega), if_neg (by omega), List.append_nil, progressLine_eq,
      List.map_append, List.map_singleton, progressChunks_concat, List.length_map,
      List.append_assoc]
    by_cases hall : events.length + 1 = e.total
    · rw [if_pos hall, if_pos ⟨hall, by omega⟩]
    · rw [if_neg hall, if_neg fun h => hall h.1]

theorem newline_notMem_progressChunk (number total : Nat) (limit : UInt64) (k : Case) :
    10 ∉ progressChunk number total (k.outcome limit) := by
  have hdecimal (n : Nat) : 10 ∉ Text.decimal n := Text.notMem_decimal (by decide) n
  have hlabel : 10 ∉ (k.outcome limit).status.label := by
    rcases Case.status_outcome limit k with h | h | h <;> rw [h] <;> decide
  simp only [progressChunk, List.mem_append, not_or]
  exact ⟨⟨⟨⟨⟨⟨⟨⟨⟨by decide, hdecimal _⟩, by decide⟩, hdecimal _⟩, by decide⟩,
    hdecimal _⟩, by decide⟩, hdecimal _⟩, by decide⟩, hlabel⟩

/-- A run has no more events than cases. -/
theorem Told.length_events_le (h : Told c s) : s.events.length ≤ c.cases.length := by
  have hsubset : s.events.map Event.index ⊆ List.range c.cases.length := by
    intro i hi
    obtain ⟨e, he, rfl⟩ := List.mem_map.mp hi
    obtain ⟨hlt, -⟩ := List.getElem?_eq_some_iff.mp (h.outcome e he).2.1
    rw [length_outcomes] at hlt
    exact List.mem_range.mpr hlt
  have hle := (h.distinct.subperm hsubset).length_le
  rwa [List.length_map, List.length_range] at hle

/-- No chunk has a line break in it. -/
theorem Told.newline_notMem_progressChunks (h : Told c s) (total : Nat) :
    10 ∉ progressChunks total (s.events.map Event.outcome) := by
  intro hmem
  obtain ⟨⟨o, number⟩, ho, hmem⟩ := List.mem_flatMap.mp hmem
  obtain ⟨e, he, rfl⟩ := List.mem_map.mp (List.fst_mem_of_mem_zipIdx ho)
  obtain ⟨k, -, hk⟩ := h.exists_case he
  rw [hk] at hmem
  exact newline_notMem_progressChunk number total c.maxDepth k hmem

/-! ## Under every schedule -/

/-- **What is shown under every schedule.**  Every run can be watched.  Whatever the order of its
steps, what is shown of it are the outcomes of different cases, under the numbers from one on, and
then a line break exactly if these are all cases and there are any; nothing else that is shown has a
line break in it.  A run that has come to its report has shown all cases.  What is shown is what the
command prints beside its output on a terminal. -/
theorem display_under_every_schedule (settings : Settings) (clock : Clock) :
    (∀ s, Reachable (comparisonOf settings) clock s →
      ∃ d, WatchedSteps (comparisonOf settings) clock
        (initial (comparisonOf settings), {}) (s, d)) ∧
    (∀ s d, WatchedSteps (comparisonOf settings) clock
        (initial (comparisonOf settings), {}) (s, d) →
      d.text = progressChunks settings.cases.length (s.events.map Event.outcome) ++
        (if s.events.length = settings.cases.length ∧ 0 < settings.cases.length then Text.lit "\n"
          else []) ∧
      10 ∉ progressChunks settings.cases.length (s.events.map Event.outcome) ∧
      (s.events.map Event.index).Nodup ∧
      (∀ e ∈ s.events, ∃ k, settings.cases[e.index]? = some k ∧
        e.outcome = k.outcome settings.maxDepth) ∧
      (∀ report, s.position = .returned (.ok report) → s.events.length = settings.cases.length) ∧
      ∀ (r : CompareRequest) result, s.position = .returned result →
        (r.conclude settings true (s.events, result.map Report.outcomes) clock).diagnostics =
          d.text) ∧
    ∀ (r : CompareRequest) (surroundings : Surroundings), r.load surroundings.files = .ok settings →
      surroundings.terminal = true →
      ∃ s d, WatchedSteps (comparisonOf settings) clock
          (initial (comparisonOf settings), {}) (s, d) ∧
        (r.execute surroundings clock).diagnostics = d.text := by
  refine ⟨fun s hs => hs.exists_watched, fun s d hd => ?_, fun r surroundings hload hterminal => ?_⟩
  · obtain ⟨hs, rfl⟩ := WatchedSteps.display_eq hd
    have htold := hs.told
    exact ⟨progress_eq (fun e he => (htold.outcome e he).1) htold.length_events_le,
      htold.newline_notMem_progressChunks _, htold.distinct, fun e he => htold.exists_case he,
      fun report hr => htold.length_events (htold.whole report hr), fun r result _ => rfl⟩
  · obtain ⟨s, hs, -, hevents⟩ := run_reachable (comparisonOf settings) clock surroundings.interrupt
    obtain ⟨d, hd⟩ := hs.exists_watched
    refine ⟨s, d, hd, ?_⟩
    rw [(WatchedSteps.display_eq hd).2, hevents, CompareRequest.execute, hload]
    simp only [CompareRequest.conclude, hterminal, if_true]
    rfl

end Schedule
end RepeatedAddition
