import Mathlib.Data.List.Nodup
import RepeatedAddition.Proofs.Completion

/-!
# Progress of a run in workers

Workers report in the order in which they happen to come to it, so of the events that a run has
emitted so far only this can be said: which they are, not how they are ordered.  `Told` says it for
every state of a run.

* An event is the report of a worker that is past its report, so no worker reports twice and no two
  events are about the same case.
* A worker reports what it has put in its place just before.
* A worker that is past its report has reported, unless some worker has failed.  A failure goes with
  a context that is done, so a run that comes to its report has all the events.

How many workers are at work at a time is a matter of the slots: a worker is started only into a
free one, and gives it back at its end.

* `Advance.busy_le`: there are never more workers at work than slots.
* `Reachable.told`: what the events of a run say.
* `progress_under_every_schedule`: no event is lost, repeated or about the wrong case.
-/

namespace RepeatedAddition
namespace Schedule

variable {c : Comparison} {clock : Clock} {s s' : State}

/-! ## Slots -/

theorem State.getElem?_moved {i : Nat} {w : Worker} (hw : s.workers[i]? = some w) (w' : Worker)
    (j : Nat) :
    (s.moved i w').workers[j]? = if i = j then some w' else s.workers[j]? := by
  obtain ⟨hi, -⟩ := List.getElem?_eq_some_iff.mp hw
  rw [State.moved, List.getElem?_set, if_pos hi]

/-- A worker that has not ended takes up its slot wherever it moves. -/
theorem State.busy_moved_le {i : Nat} {w : Worker} (hw : s.workers[i]? = some w) (hne : w ≠ .ended)
    (w' : Worker) :
    (s.moved i w').busy ≤ s.busy := by
  obtain ⟨hi, hget⟩ := List.getElem?_eq_some_iff.mp hw
  have hpos : 0 < s.busy := List.countP_pos_iff.mpr ⟨w, List.mem_of_getElem? hw, by simpa using hne⟩
  have hset : (s.moved i w').busy = s.busy - 1 + if w' ≠ .ended then 1 else 0 := by
    simp only [State.busy, State.moved, List.countP_set hi, hget]
    simp [hne]
  rw [hset]
  split <;> omega

theorem State.busy_started : s.started.busy = s.busy + 1 := by
  simp [State.busy, State.started]

/-- **There are never more workers at work than slots.** -/
theorem Advance.busy_le (ha : Advance c clock s s') (h : (s.busy : Int) ≤ c.workers) :
    (s'.busy : Int) ≤ c.workers := by
  have hmoved {i : Nat} {w : Worker} (hw : s.workers[i]? = some w) (hne : w ≠ .ended)
      (w' : Worker) : ((s.moved i w').busy : Int) ≤ c.workers :=
    le_trans (Int.ofNat_le.mpr (State.busy_moved_le hw hne w')) h
  cases ha with
  | proceed | breakOff | exhausted | joinFailed | join | interrupted | complete => exact h
  | start _ hfree =>
    change (s.started.busy : Int) ≤ c.workers
    rw [State.busy_started]
    omega
  | pass hw _ | refuse hw _ | evaluate hw _ | store hw | report hw | fail hw | leave hw =>
    exact hmoved hw (by simp) _

theorem Reachable.busy_le (hs : Reachable c clock s) : (s.busy : Int) ≤ c.workers := by
  refine Reachable.induction (P := fun t => (t.busy : Int) ≤ c.workers) ?_
    (fun t t' ht hstep => ?_) hs
  · have hone := one_le_workers c
    change (0 : Int) ≤ c.workers
    omega
  · cases hstep with
    | advance ha => exact ha.busy_le ht
    | interrupt => exact ht

/-! ## What the events say -/

/-- A worker is past its report, or has failed. -/
def Worker.IsPast : Worker → Prop
  | .leaving => True
  | .ended => True
  | _ => False

/-- What the events of a run say of it. -/
structure Told (c : Comparison) (s : State) : Prop where
  distinct : (s.events.map Event.index).Nodup
  outcome : ∀ e ∈ s.events,
    e.total = c.cases.length ∧ c.outcomes[e.index]? = some e.outcome ∧
    s.stored[e.index]? = some e.outcome
  past : ∀ e ∈ s.events, ∃ w, s.workers[e.index]? = some w ∧ w.IsPast
  reported : s.firstError = none → ∀ i w, s.workers[i]? = some w → w.IsPast →
    ∃ e ∈ s.events, e.index = i
  whole : ∀ r, s.position = .returned (.ok r) → ∀ i < c.cases.length, ∃ e ∈ s.events, e.index = i

theorem told_initial : Told c (initial c) := by
  constructor <;> simp [initial]

/-- The loop tells nothing.  When it comes to a report, all must have been told. -/
theorem Told.standing (h : Told c s) {p : Position}
    (hwhole : ∀ r, p = .returned (.ok r) → ∀ i < c.cases.length, ∃ e ∈ s.events, e.index = i) :
    Told c (s.standing p) :=
  ⟨h.distinct, h.outcome, h.past, h.reported, hwhole⟩

theorem Told.started (h : Told c s) : Told c s.started := by
  refine ⟨h.distinct, h.outcome, fun e he => ?_, fun hnone i w hw hpast => ?_, h.whole⟩
  · obtain ⟨w, hw, hpast⟩ := h.past e he
    obtain ⟨hi, -⟩ := List.getElem?_eq_some_iff.mp hw
    exact ⟨w, (List.getElem?_append_left hi).trans hw, hpast⟩
  · have hw' : (s.workers ++ [Worker.checking])[i]? = some w := hw
    by_cases hi : i < s.workers.length
    · rw [List.getElem?_append_left hi] at hw'
      exact h.reported hnone i w hw' hpast
    · -- the new worker has its report before it
      rw [List.getElem?_append_right (by omega)] at hw'
      obtain rfl : w = .checking := List.mem_singleton.mp (List.mem_of_getElem? hw')
      exact hpast.elim

/-- A worker moves without a report: what is past stays past, and what becomes past has been
reported. -/
theorem Told.moved (h : Told c s) {i : Nat} {w w' : Worker} (hw : s.workers[i]? = some w)
    (hpast : w.IsPast → w'.IsPast)
    (hreported : s.firstError = none → w'.IsPast → ∃ e ∈ s.events, e.index = i) :
    Told c (s.moved i w') := by
  refine ⟨h.distinct, h.outcome, fun e he => ?_, fun hnone j v hv hv' => ?_, h.whole⟩
  · obtain ⟨v, hv, hv'⟩ := h.past e he
    rw [State.getElem?_moved hw]
    split
    · next hi =>
      rw [← hi, hw] at hv
      exact ⟨w', rfl, hpast (Option.some.inj hv ▸ hv')⟩
    · exact ⟨v, hv, hv'⟩
  · rw [State.getElem?_moved hw] at hv
    split at hv
    · next hi =>
      subst hi
      exact hreported hnone (Option.some.inj hv ▸ hv')
    · exact h.reported hnone j v hv hv'

/-- No event is about a worker that has its report before it. -/
theorem Told.index_ne (h : Told c s) {i : Nat} {w : Worker} (hw : s.workers[i]? = some w)
    (hpast : ¬w.IsPast) :
    ∀ e ∈ s.events, e.index ≠ i := by
  rintro e he rfl
  obtain ⟨v, hv, hv'⟩ := h.past e he
  exact hpast (Option.some.inj (hw.symm.trans hv) ▸ hv')

/-- What a worker puts in its place before its report is no outcome that an event has told. -/
theorem Told.stored (h : Told c s) {i : Nat} {w : Worker} (hw : s.workers[i]? = some w)
    (hpast : ¬w.IsPast) (o : Outcome) :
    Told c { s with stored := s.stored.set i o } := by
  refine ⟨h.distinct, fun e he => ?_, h.past, h.reported, h.whole⟩
  obtain ⟨htotal, hout, hstored⟩ := h.outcome e he
  exact ⟨htotal, hout, (List.getElem?_set_ne (h.index_ne hw hpast e he).symm).trans hstored⟩

/-- A worker that reports what it has put in its place is past its report. -/
theorem Told.report (h : Told c s) {i : Nat} {o : Outcome}
    (hw : s.workers[i]? = some (.reporting o)) (hout : c.outcomes[i]? = some o)
    (hstored : s.stored[i]? = some o) :
    Told c { s.moved i .leaving with events := s.events ++ [⟨i, c.cases.length, o⟩] } := by
  have hnew := h.index_ne hw id
  refine ⟨?_, fun e he => ?_, fun e he => ?_, fun hnone j v hv hv' => ?_, fun r hr j hj => ?_⟩
  · simp only [List.map_append, List.map_cons, List.map_nil]
    refine List.nodup_append.mpr ⟨h.distinct, List.nodup_singleton i, fun j hj k hk => ?_⟩
    obtain ⟨e, he, rfl⟩ := List.mem_map.mp hj
    rw [List.mem_singleton.mp hk]
    exact hnew e he
  · rcases List.mem_append.mp he with he | he
    · exact h.outcome e he
    · obtain rfl := List.mem_singleton.mp he
      exact ⟨rfl, hout, hstored⟩
  · change ∃ w, (s.moved i .leaving).workers[e.index]? = some w ∧ w.IsPast
    rw [State.getElem?_moved hw]
    rcases List.mem_append.mp he with he | he
    · rw [if_neg (hnew e he).symm]
      exact h.past e he
    · obtain rfl := List.mem_singleton.mp he
      exact ⟨.leaving, if_pos rfl, trivial⟩
  · change (s.moved i .leaving).workers[j]? = some v at hv
    rw [State.getElem?_moved hw] at hv
    split at hv
    · next hi => exact ⟨_, List.mem_append_right _ (List.mem_singleton_self _), hi⟩
    · obtain ⟨e, he, hindex⟩ := h.reported hnone j v hv hv'
      exact ⟨e, List.mem_append_left _ he, hindex⟩
  · obtain ⟨e, he, hindex⟩ := h.whole r hr j hj
    exact ⟨e, List.mem_append_left _ he, hindex⟩

/-- **Behind the wait all is told,** under a context that is not done. -/
theorem Told.whole_of_lastCheck (h : Told c s) (hinv : Inv c clock s) (hp : s.position = .lastCheck)
    (hnone : s.context = none) : ∀ i < c.cases.length, ∃ e ∈ s.events, e.index = i := by
  intro i hi
  obtain ⟨hidle, hfirst⟩ := hinv.concluded_at hp
  have hlen : s.workers.length = c.cases.length := (hinv.manned_at hp).2 hnone
  obtain ⟨w, hw⟩ : ∃ w, s.workers[i]? = some w := ⟨_, List.getElem?_eq_getElem (hlen ▸ hi)⟩
  obtain rfl : w = .ended := hidle w (List.mem_of_getElem? hw)
  exact h.reported hfirst i _ hw trivial

theorem Advance.told (ha : Advance c clock s s') (hinv : Inv c clock s) (h : Told c s) :
    Told c s' := by
  cases ha with
  | proceed | breakOff | exhausted | joinFailed | join | interrupted => exact h.standing (by simp)
  | start => exact h.started.standing (by simp)
  | pass hw _ | refuse hw _ | evaluate hw _ =>
    exact h.moved hw (fun hpast => hpast.elim) fun _ hpast => hpast.elim
  | store hw =>
    exact (h.stored hw id _).moved hw (fun hpast => hpast.elim) fun _ hpast => hpast.elim
  | report hw =>
    obtain ⟨hout, hstored⟩ := hinv.sound _ _ hw
    exact h.report hw hout hstored
  | @fail i why hw =>
    have hnoted : Told c (s.noted why) := by
      refine ⟨h.distinct, h.outcome, h.past, fun hnone => ?_, h.whole⟩
      exact absurd hnone (by simp [State.noted])
    exact hnoted.moved hw (fun hpast => hpast.elim) fun hnone =>
      absurd hnone (by simp [State.noted])
  | leave hw => exact h.moved hw (fun _ => trivial) fun hnone _ => h.reported hnone _ _ hw trivial
  | complete hs hc => exact h.standing fun _ _ => h.whole_of_lastCheck hinv hs hc

theorem Reachable.told (hs : Reachable c clock s) : Told c s := by
  refine (Reachable.induction (P := fun t => Inv c clock t ∧ Told c t) ⟨inv_initial,
    told_initial⟩ ?_ hs).2
  rintro t t' ⟨hinv, htold⟩ hstep
  refine ⟨hstep.inv hinv, ?_⟩
  cases hstep with
  | advance ha => exact ha.told hinv htold
  | interrupt => exact ⟨htold.distinct, htold.outcome, htold.past, htold.reported, htold.whole⟩

/-! ## No event is lost -/

/-- A step emits nothing, or what a worker has put in its place before. -/
theorem Step.events_cases (hinv : Inv c clock s) (hstep : Step c clock s s') :
    s'.events = s.events ∨
      ∃ e, s'.events = s.events ++ [e] ∧ s.stored[e.index]? = some e.outcome ∧
        s.workers[e.index]? = some (.reporting e.outcome) := by
  cases hstep with
  | interrupt => exact Or.inl rfl
  | advance ha =>
    cases ha with
    | report hw => exact Or.inr ⟨_, rfl, (hinv.sound _ _ hw).2, hw⟩
    | proceed | breakOff | exhausted | start | pass | refuse | evaluate | store | fail | leave
    | joinFailed | join
    | interrupted | complete => exact Or.inl rfl

/-- When all is told, there are as many events as cases. -/
theorem Told.length_events (h : Told c s)
    (hwhole : ∀ i < c.cases.length, ∃ e ∈ s.events, e.index = i) :
    s.events.length = c.cases.length := by
  have hperm : (s.events.map Event.index).Perm (List.range c.cases.length) := by
    refine (List.perm_ext_iff_of_nodup h.distinct List.nodup_range).mpr fun i => ?_
    rw [List.mem_map, List.mem_range]
    refine ⟨?_, hwhole i⟩
    rintro ⟨e, he, rfl⟩
    obtain ⟨hi, -⟩ := List.getElem?_eq_some_iff.mp (h.outcome e he).2.1
    rwa [length_outcomes] at hi
  have hlength := hperm.length_eq
  rwa [List.length_map, List.length_range] at hlength

/-- Events about the same case are the same. -/
theorem Told.eq_of_index_eq (h : Told c s) {e e' : Event} (he : e ∈ s.events) (he' : e' ∈ s.events)
    (hindex : e.index = e'.index) : e = e' :=
  List.inj_on_of_nodup_map h.distinct he he' hindex

/-- An event tells the outcome of its case. -/
theorem Told.exists_case (h : Told c s) {e : Event} (he : e ∈ s.events) :
    ∃ k, c.cases[e.index]? = some k ∧ e.outcome = k.outcome c.maxDepth := by
  have hout := (h.outcome e he).2.1
  rw [Comparison.outcomes, List.getElem?_map] at hout
  obtain ⟨k, hk, ho⟩ := Option.map_eq_some_iff.mp hout
  exact ⟨k, hk, ho.symm⟩

/-- **Progress under every schedule.**  In every state that a run can come to, no two events are
about the same case, and each has the number of all cases and the outcome of its case, which is in
its place.  No more workers are at work than there are slots.  An event is emitted when its outcome
is in its place already.  A run that has come to its report has emitted just one event for each
case, with the outcome that the report has for it. -/
theorem progress_under_every_schedule (c : Comparison) (clock : Clock) :
    (∀ s, Reachable c clock s →
      (s.events.map Event.index).Nodup ∧
      (∀ e ∈ s.events, e.total = c.cases.length ∧
        (∃ k, c.cases[e.index]? = some k ∧ e.outcome = k.outcome c.maxDepth) ∧
        s.stored[e.index]? = some e.outcome) ∧
      (s.busy : Int) ≤ max 1 c.concurrency) ∧
    (∀ s s', Reachable c clock s → Step c clock s s' →
      s'.events = s.events ∨ ∃ e, s'.events = s.events ++ [e] ∧
      s.stored[e.index]? = some e.outcome) ∧
    ∀ s report, Reachable c clock s → s.position = .returned (.ok report) →
      s.events.length = c.cases.length ∧
      (∀ i < c.cases.length, ∃! e, e ∈ s.events ∧ e.index = i) ∧
      ∀ e ∈ s.events, report.outcomes[e.index]? = some e.outcome := by
  refine ⟨fun s hs => ⟨hs.told.distinct, fun e he => ?_, ?_⟩, fun s s' hs hstep => ?_,
    fun s report hs hr => ?_⟩
  · obtain ⟨htotal, -, hstored⟩ := hs.told.outcome e he
    exact ⟨htotal, hs.told.exists_case he, hstored⟩
  · rw [← workers_eq_max]
    exact hs.busy_le
  · rcases hstep.events_cases hs.inv with hsame | ⟨e, hevents, hstored, -⟩
    · exact Or.inl hsame
    · exact Or.inr ⟨e, hevents, hstored⟩
  · have hwhole := hs.told.whole report hr
    refine ⟨hs.told.length_events hwhole, fun i hi => ?_, fun e he => ?_⟩
    · obtain ⟨e, he, hindex⟩ := hwhole i hi
      refine ⟨e, ⟨he, hindex⟩, fun e' he' => ?_⟩
      exact hs.told.eq_of_index_eq he'.1 he (he'.2.trans hindex.symm)
    · obtain rfl := hs.inv.concluded_at hr
      rw [Comparison.outcomes_report]
      exact (hs.told.outcome e he).2.1

end Schedule
end RepeatedAddition
