import RepeatedAddition.Proofs.Progress

/-!
# A listener that cancels

Whoever listens to the progress of a run is called with each event, and may cancel the context in
one of the calls.  `Heard` are the steps of a run whose listener cancels in the call with a given
number.  The call is part of the worker that reports, so while it lasts that worker cannot go on;
the loop and all other workers can.

With one slot a call leaves little to the others.  The worker that calls has the slot, so no other
worker is at work and none is started before the call is over.  But the loop may have had its look
at the context already, and wait for the slot: then one more worker is started behind the call.  Its
own look at the context is what keeps it from its case.

* `Serial`: what holds throughout such a run with one slot.
* `HeardSteps.returned_eq_run`: such a run returns what `Comparison.run` does.
* `canceled_in_call`: which events there are, and what is returned.
-/

namespace RepeatedAddition
namespace Schedule

variable {c : Comparison} {clock : Clock} {s s' : State} {number : Nat}

/-! ## The steps -/

/-- The listener is in the call with this number, has been told this event, and has not cancelled
yet. -/
def State.InCall (s : State) (number : Nat) (e : Event) : Prop :=
  s.context = none ∧ 1 ≤ number ∧ s.events[number - 1]? = some e

/-- One step of a run whose listener cancels in the call with this number.  The worker that makes
the call does nothing before the listener has cancelled. -/
inductive Heard (c : Comparison) (clock : Clock) (number : Nat) : State → State → Prop where
  | advance {s s' : State} (h : Advance c clock s s')
      (hcall : ∀ e, s.InCall number e → s'.workers[e.index]? = s.workers[e.index]?) :
        Heard c clock number s s'
  | cancel {s : State} {e : Event} (h : s.InCall number e) :
      Heard c clock number s (s.interrupted .canceled)

/-- Any number of steps of a run whose listener cancels. -/
abbrev HeardSteps (c : Comparison) (clock : Clock) (number : Nat) : State → State → Prop :=
  Relation.ReflTransGen (Heard c clock number)

theorem Heard.step (h : Heard c clock number s s') : Step c clock s s' := by
  cases h with
  | advance h _ => exact .advance h
  | cancel h => exact .interrupt .canceled h.1

theorem HeardSteps.reachable (hs : HeardSteps c clock number (initial c) s) : Reachable c clock s :=
  hs.lift id fun _ _ h => h.step

/-! ## One slot -/

/-- A worker is between its look at the context and the end of its report. -/
def Worker.IsAtWork : Worker → Prop
  | .evaluating => True
  | .storing _ => True
  | .reporting _ => True
  | _ => False

/-- What holds throughout a run with one slot whose listener cancels in the call with this number.
Only the last worker may be at work, and the events come in the order of the cases.  In the call the
last worker is the one that makes it.  Behind the call the context is done, and no worker is at work
or will be. -/
structure Serial (c : Comparison) (number : Nat) (s : State) : Prop where
  ended : ∀ i w, s.workers[i]? = some w → i + 1 < s.workers.length → w = .ended
  inOrder : s.events = c.events.take s.events.length
  atMost : s.events.length ≤ number
  calling : s.context = none → s.events.length = number → s.workers[number - 1]? = some .leaving
  done : ∀ why, s.context = some why →
    why = .canceled ∧ s.events.length = number ∧
      ∀ (i : Nat) (w : Worker), s.workers[i]? = some w → ¬w.IsAtWork

theorem serial_initial (hone : 1 ≤ number) : Serial c number (initial c) where
  ended := by simp [initial]
  inOrder := rfl
  atMost := Nat.zero_le _
  calling := by
    intro _ hzero
    have hlength : (initial c).events.length = 0 := rfl
    omega
  done := by simp [initial]

/-- The loop has no part in it. -/
theorem Serial.standing (h : Serial c number s) (p : Position) : Serial c number (s.standing p) :=
  ⟨h.ended, h.inOrder, h.atMost, h.calling, h.done⟩

/-- Only the last worker has not ended. -/
theorem Serial.length_le (h : Serial c number s) {i : Nat} {w : Worker}
    (hw : s.workers[i]? = some w) (hne : w ≠ .ended) : s.workers.length ≤ i + 1 :=
  Nat.not_lt.mp fun hi => hne (h.ended i w hw hi)

theorem Serial.eq_of_ne_ended (h : Serial c number s) {i j : Nat} {v w : Worker}
    (hv : s.workers[i]? = some v) (hw : s.workers[j]? = some w) (hv' : v ≠ .ended)
    (hw' : w ≠ .ended) : i = j := by
  have hi := h.length_le hv hv'
  have hj := h.length_le hw hw'
  obtain ⟨hi', -⟩ := List.getElem?_eq_some_iff.mp hv
  obtain ⟨hj', -⟩ := List.getElem?_eq_some_iff.mp hw
  omega

/-- A worker at work means that the context is not done. -/
theorem Serial.context_eq_none (h : Serial c number s) {i : Nat} {w : Worker}
    (hw : s.workers[i]? = some w) (hwork : w.IsAtWork) : s.context = none := by
  cases hc : s.context with
  | none => rfl
  | some why => exact absurd hwork ((h.done why hc).2.2 i w hw)

theorem State.idle_of_busy_eq_zero (h : s.busy = 0) : s.Idle := by
  intro w hw
  simpa using List.countP_eq_zero.mp h w hw

/-- A worker is started when all before it have ended. -/
theorem Serial.started (h : Serial c number s) (hidle : s.Idle) : Serial c number s.started := by
  have hbefore {i : Nat} {w : Worker} (hw : s.started.workers[i]? = some w) :
      w = .ended ∨ w = .checking := by
    rcases List.mem_append.mp (List.mem_of_getElem? hw) with hmem | hmem
    · exact Or.inl (hidle w hmem)
    · exact Or.inr (List.mem_singleton.mp hmem)
  refine ⟨fun i w hw hi => ?_, h.inOrder, h.atMost, fun hnone hnumber => ?_, fun why hc => ?_⟩
  · have hi' : i < s.workers.length := by
      rw [State.started, List.length_append, List.length_singleton] at hi
      omega
    have hw' : (s.workers ++ [Worker.checking])[i]? = some w := hw
    rw [List.getElem?_append_left hi'] at hw'
    exact hidle w (List.mem_of_getElem? hw')
  · have hcalling := h.calling hnone hnumber
    exact absurd (hidle _ (List.mem_of_getElem? hcalling)) (by simp)
  · obtain ⟨hwhy, hnumber, -⟩ := h.done why hc
    refine ⟨hwhy, hnumber, fun i w hw hwork => ?_⟩
    rcases hbefore hw with rfl | rfl <;> exact hwork

/-- A worker moves without a report.  It does not do so in its call, and does not come to work when
the context is done. -/
theorem Serial.moved (h : Serial c number s) {i : Nat} {w w' : Worker} (hw : s.workers[i]? = some w)
    (hne : w ≠ .ended) (hcall : s.context = none → s.events.length = number → w ≠ .leaving)
    (hwork : s.context ≠ none → ¬w'.IsAtWork) : Serial c number (s.moved i w') := by
  refine ⟨fun j v hv hj => ?_, h.inOrder, h.atMost, fun hnone hnumber => ?_, fun why hc => ?_⟩
  · rw [State.moved, List.length_set] at hj
    have hlast := h.length_le hw hne
    rw [State.getElem?_moved hw, if_neg (by omega)] at hv
    exact h.ended j v hv hj
  · have hcalling := h.calling hnone hnumber
    obtain rfl := h.eq_of_ne_ended hw hcalling hne (by simp)
    exact absurd (Option.some.inj (hw.symm.trans hcalling)) (hcall hnone hnumber)
  · obtain ⟨hwhy, hnumber, hidle⟩ := h.done why hc
    refine ⟨hwhy, hnumber, fun j v hv => ?_⟩
    rw [State.getElem?_moved hw] at hv
    split at hv
    · obtain rfl := Option.some.inj hv
      exact hwork (by rw [show s.context = some why from hc]; simp)
    · exact hidle j v hv

/-! ## The order of the events -/

theorem length_events (c : Comparison) : c.events.length = c.cases.length := by
  rw [Comparison.events, List.length_map, List.length_zipIdx, length_outcomes]

/-- The events so far are those of the first cases. -/
theorem Serial.getElem?_events (h : Serial c number s) {i : Nat} (hi : i < s.events.length) :
    s.events[i]? = c.events[i]? := by
  rw [h.inOrder, List.getElem?_take_of_lt hi]

theorem Serial.length_events_le (h : Serial c number s) : s.events.length ≤ c.cases.length := by
  have hlength := congrArg List.length h.inOrder
  rw [List.length_take, length_events] at hlength
  omega

/-- The event at a place is about the case at that place. -/
theorem Serial.index_eq (h : Serial c number s) {i : Nat} {e : Event} (he : s.events[i]? = some e) :
    e.index = i := by
  obtain ⟨hi, -⟩ := List.getElem?_eq_some_iff.mp he
  have hlt : i < c.outcomes.length := by
    rw [length_outcomes]
    exact Nat.lt_of_lt_of_le hi h.length_events_le
  rw [h.getElem?_events hi, Schedule.getElem?_events (List.getElem?_eq_getElem hlt)] at he
  exact (congrArg Event.index (Option.some.inj he)).symm

/-- The workers that are past their reports are those of the first cases, while the context is not
done. -/
theorem Serial.isPast_iff (h : Serial c number s) (hinv : Inv c clock s) (htold : Told c s)
    (hnone : s.context = none) {i : Nat} {w : Worker} (hw : s.workers[i]? = some w) :
    w.IsPast ↔ i < s.events.length := by
  have hfirst : s.firstError = none := by
    cases hf : s.firstError with
    | none => rfl
    | some why => exact absurd (hnone.symm.trans (hinv.firstError_context why hf)) (by simp)
  constructor
  · intro hpast
    obtain ⟨e, he, hindex⟩ := htold.reported hfirst i w hw hpast
    obtain ⟨j, hj⟩ := List.mem_iff_getElem?.mp he
    rw [← hindex, h.index_eq hj]
    exact (List.getElem?_eq_some_iff.mp hj).1
  · intro hi
    have he : s.events[i]? = some s.events[i] := List.getElem?_eq_getElem hi
    obtain ⟨v, hv, hpast⟩ := htold.past _ (List.mem_of_getElem? he)
    rw [h.index_eq he, hw] at hv
    exact Option.some.inj hv ▸ hpast

/-- **The next report is that of the next case.** -/
theorem Serial.reporting_index (h : Serial c number s) (hinv : Inv c clock s) (htold : Told c s)
    {i : Nat} {o : Outcome} (hw : s.workers[i]? = some (.reporting o)) : i = s.events.length := by
  have hnone := h.context_eq_none hw trivial
  have hnot : ¬i < s.events.length := fun hi => (h.isPast_iff hinv htold hnone hw).mpr hi
  -- the worker before it has ended, so it has reported
  have hle : i ≤ s.events.length := by
    cases i with
    | zero => exact Nat.zero_le _
    | succ j =>
      obtain ⟨hlt, -⟩ := List.getElem?_eq_some_iff.mp hw
      have hj : s.workers[j]? = some s.workers[j] :=
        List.getElem?_eq_getElem (Nat.lt_of_succ_lt hlt)
      have hended := h.ended j _ hj hlt
      exact (h.isPast_iff hinv htold hnone hj).mp (by rw [hended]; trivial)
  omega

/-- A report is the next event, and there has been no call yet in which the listener cancels. -/
theorem Serial.report (h : Serial c number s) (hinv : Inv c clock s) (htold : Told c s) {i : Nat}
    {o : Outcome} (hw : s.workers[i]? = some (.reporting o)) :
    Serial c number { s.moved i .leaving with events := s.events ++ [⟨i, c.cases.length, o⟩] } := by
  have hnone := h.context_eq_none hw trivial
  have hi := h.reporting_index hinv htold hw
  have hout : c.outcomes[i]? = some o := (hinv.sound i _ hw).1
  have hlt : s.events.length < number := by
    refine Nat.lt_of_le_of_ne h.atMost fun hnumber => ?_
    have hcalling := h.calling hnone hnumber
    obtain rfl := h.eq_of_ne_ended hw hcalling (by simp) (by simp)
    exact absurd (hw.symm.trans hcalling) (by simp)
  have hlength (e : Event) : (s.events ++ [e]).length = i + 1 := by
    rw [List.length_append, List.length_singleton, hi]
  refine ⟨fun j v hv hj => ?_, ?_, ?_, fun _ hnumber => ?_, fun why hc => ?_⟩
  · change j + 1 < (s.workers.set i .leaving).length at hj
    change (s.moved i .leaving).workers[j]? = some v at hv
    rw [List.length_set] at hj
    have hlast := h.length_le hw (by simp)
    rw [State.getElem?_moved hw, if_neg (by omega)] at hv
    exact h.ended j v hv hj
  · change s.events ++ _ = c.events.take (s.events ++ _).length
    rw [hlength, List.take_add_one, Schedule.getElem?_events hout, hi, ← h.inOrder]
    rfl
  · change (s.events ++ _).length ≤ number
    rw [hlength]
    omega
  · change (s.events ++ _).length = number at hnumber
    rw [hlength] at hnumber
    change (s.moved i .leaving).workers[number - 1]? = some .leaving
    rw [State.getElem?_moved hw, if_pos (by omega)]
  · exact absurd (hnone.symm.trans hc) (by simp)

/-! ## All steps -/

/-- In its call a worker is leaving, and stays so. -/
theorem Serial.inCall (h : Serial c number s) {e : Event} (hcall : s.InCall number e) :
    s.events.length = number ∧ e.index = number - 1 ∧ s.workers[number - 1]? = some .leaving := by
  obtain ⟨hnone, hone, he⟩ := hcall
  obtain ⟨hlt, -⟩ := List.getElem?_eq_some_iff.mp he
  have hnumber : s.events.length = number := Nat.le_antisymm h.atMost (by omega)
  exact ⟨hnumber, h.index_eq he, h.calling hnone hnumber⟩

theorem State.exists_inCall (hone : 1 ≤ number) (hnone : s.context = none)
    (hnumber : s.events.length = number) :
    ∃ e, s.InCall number e :=
  ⟨_, hnone, hone, List.getElem?_eq_getElem (by omega)⟩

/-- When the listener cancels, only the worker that calls has not ended. -/
theorem Serial.canceled (h : Serial c number s) {e : Event} (hcall : s.InCall number e) :
    Serial c number (s.interrupted .canceled) := by
  obtain ⟨hnumber, -, hleaving⟩ := h.inCall hcall
  refine ⟨h.ended, h.inOrder, h.atMost, fun hnone => absurd hnone (by simp [State.interrupted]),
    fun why hc => ?_⟩
  refine ⟨(Option.some.inj hc).symm, hnumber, fun i w hw hwork => ?_⟩
  have hne : w ≠ .ended := by
    rintro rfl
    exact hwork
  obtain rfl := h.eq_of_ne_ended hw hleaving hne (by simp)
  obtain rfl : w = .leaving := Option.some.inj (hw.symm.trans hleaving)
  exact hwork

theorem Advance.serial (ha : Advance c clock s s') (hserial : c.workers = 1) (hone : 1 ≤ number)
    (hcall : ∀ e, s.InCall number e → s'.workers[e.index]? = s.workers[e.index]?)
    (hinv : Inv c clock s) (htold : Told c s) (h : Serial c number s) : Serial c number s' := by
  cases ha with
  | proceed | breakOff | exhausted | joinFailed | join | interrupted | complete =>
    exact h.standing _
  | start _ hfree => exact (h.started (State.idle_of_busy_eq_zero (by omega))).standing _
  | pass hw hg =>
    refine h.moved hw (by simp) (by simp) fun hdone => ?_
    exact absurd (hinv.group_eq.symm.trans hg) hdone
  | refuse hw _ => exact h.moved hw (by simp) (by simp) fun _ => id
  | evaluate hw _ =>
    exact h.moved hw (by simp) (by simp) fun hdone => absurd (h.context_eq_none hw trivial) hdone
  | @store i o hw =>
    have hmoved : Serial c number (s.moved i (.reporting o)) :=
      h.moved hw (by simp) (by simp) fun hdone => absurd (h.context_eq_none hw trivial) hdone
    exact ⟨hmoved.ended, hmoved.inOrder, hmoved.atMost, hmoved.calling, hmoved.done⟩
  | report hw => exact h.report hinv htold hw
  | @fail i why hw =>
    have hmoved : Serial c number (s.moved i .leaving) := h.moved hw (by simp) (by simp) fun _ => id
    exact ⟨hmoved.ended, hmoved.inOrder, hmoved.atMost, hmoved.calling, hmoved.done⟩
  | @leave i hw =>
    refine h.moved hw (by simp) (fun hnone hnumber => ?_) fun _ => id
    -- the worker that leaves would be the one that calls
    obtain ⟨e, he⟩ := State.exists_inCall hone hnone hnumber
    obtain ⟨-, hindex, hleaving⟩ := h.inCall he
    obtain rfl := h.eq_of_ne_ended hw hleaving (by simp) (by simp)
    have hsame := hcall e he
    rw [hindex, State.getElem?_moved hw, if_pos rfl, hw] at hsame
    exact absurd hsame (by simp)

theorem HeardSteps.serial (hserial : c.workers = 1) (hone : 1 ≤ number)
    (hs : HeardSteps c clock number (initial c) s) :
    Serial c number s := by
  induction hs with
  | refl => exact serial_initial hone
  | tail hbefore hlast ih =>
    have hreach := HeardSteps.reachable hbefore
    cases hlast with
    | advance ha hcall => exact ha.serial hserial hone hcall hreach.inv hreach.told ih
    | cancel hcall => exact ih.canceled hcall

/-! ## What is returned -/

/-- Nobody is in a call when the run has returned. -/
theorem Serial.not_inCall (h : Serial c number s) (hs : Reachable c clock s)
    {r : Except Interruption Report} (hr : s.position = .returned r) (e : Event) :
    ¬s.InCall number e := by
  intro hcall
  have hidle : s.Idle := hs.settled (by rw [hr]; trivial)
  obtain ⟨-, -, hleaving⟩ := h.inCall hcall
  exact absurd (hidle _ (List.mem_of_getElem? hleaving)) (by simp)

/-- A report is returned under a context that is not done, and stays so. -/
theorem HeardSteps.context_eq_none (hserial : c.workers = 1) (hone : 1 ≤ number)
    (hs : HeardSteps c clock number (initial c) s) {report : Report}
    (hr : s.position = .returned (.ok report)) :
    s.context = none := by
  induction hs with
  | refl => exact absurd hr (by simp [initial])
  | @tail t t' hbefore hlast ih =>
    have hreach := HeardSteps.reachable hbefore
    cases hlast with
    | advance ha hcall =>
      rw [ha.context_eq]
      exact ((Step.advance ha).context_eq_none_of_report hr).elim ih id
    | cancel hcall =>
      exact absurd hcall ((HeardSteps.serial hserial hone hbefore).not_inCall hreach hr _)

theorem run_atEvent_of_le (hone : 1 ≤ number) (hn : number ≤ c.cases.length) :
    c.run clock (.atEvent number) = (c.events.take number, .error .canceled) := by
  simp only [Comparison.run, Comparison.evaluate, if_pos (And.intro hone hn)]
  rfl

theorem run_atEvent_of_lt (hn : c.cases.length < number) :
    c.run clock (.atEvent number) = (c.events, .ok (c.report clock c.outcomes)) := by
  simp only [Comparison.run, Comparison.evaluate,
    if_neg (show ¬(1 ≤ number ∧ number ≤ c.cases.length) by omega)]
  rfl

/-- **A run with one slot whose listener cancels returns what the run of one case after another
does,** with the same events. -/
theorem HeardSteps.returned_eq_run (hserial : c.workers = 1) (hone : 1 ≤ number)
    (hs : HeardSteps c clock number (initial c) s) {r : Except Interruption Report}
    (hr : s.position = .returned r) :
    (s.events, r) = c.run clock (.atEvent number) := by
  have h := HeardSteps.serial hserial hone hs
  have hreach := HeardSteps.reachable hs
  cases r with
  | error why =>
    have hcontext : s.context = some why := hreach.inv.concluded_at hr
    obtain ⟨rfl, hnumber, -⟩ := h.done why hcontext
    rw [run_atEvent_of_le hone (hnumber ▸ h.length_events_le), ← hnumber, ← h.inOrder]
  | ok report =>
    have hnone := HeardSteps.context_eq_none hserial hone hs hr
    have hlength := hreach.told.length_events (hreach.told.whole report hr)
    have hlt : c.cases.length < number := by
      refine Nat.lt_of_le_of_ne (hlength ▸ h.atMost) fun hnumber => ?_
      obtain ⟨e, he⟩ := State.exists_inCall hone hnone (hlength.trans hnumber)
      exact h.not_inCall hreach hr e he
    obtain rfl : report = c.report clock c.outcomes := hreach.inv.concluded_at hr
    have hevents : s.events = c.events := by
      rw [h.inOrder, hlength, ← length_events, List.take_length]
    rw [run_atEvent_of_lt hlt, hevents]

/-- A run with one slot that nobody cancels is one whose listener waits for more events than there
are cases. -/
theorem heardSteps_of_advances (hserial : c.workers = 1)
    (hs : Relation.ReflTransGen (Advance c clock) (initial c) s) :
    HeardSteps c clock (c.cases.length + 1) (initial c) s := by
  induction hs with
  | refl => exact .refl
  | tail _ hlast ih =>
    refine ih.tail (.advance hlast fun e he => ?_)
    have h := HeardSteps.serial hserial (Nat.le_add_left 1 _) ih
    have hnumber := (h.inCall he).1
    have hle := h.length_events_le
    omega

/-! ## A run comes to its return -/

/-- A run whose listener cancels can go on exactly until it has returned. -/
theorem HeardSteps.heard_iff (hserial : c.workers = 1) (hone : 1 ≤ number)
    (hs : HeardSteps c clock number (initial c) s) :
    (∃ s', Heard c clock number s s') ↔ s.Running := by
  have hreach := HeardSteps.reachable hs
  constructor
  · rintro ⟨s', hheard⟩ r hr
    cases hheard with
    | advance ha _ => exact hreach.not_advance hr ha
    | cancel hcall => exact (HeardSteps.serial hserial hone hs).not_inCall hreach hr _ hcall
  · intro hrun
    by_cases hcall : ∃ e, s.InCall number e
    · obtain ⟨e, he⟩ := hcall
      exact ⟨_, .cancel he⟩
    · obtain ⟨s', ha⟩ := hreach.inv.exists_advance hrun
      exact ⟨s', .advance ha fun e he => absurd ⟨e, he⟩ hcall⟩

theorem wellFounded_heard (c : Comparison) (clock : Clock) (number : Nat) :
    WellFounded fun s' s => Heard c clock number s s' :=
  Subrelation.wf (fun h => Heard.step h) (wellFounded_step c clock)

theorem HeardSteps.exists_returned (hserial : c.workers = 1) (hone : 1 ≤ number)
    (hs : HeardSteps c clock number (initial c) s) :
    ∃ s' r, HeardSteps c clock number s s' ∧ s'.position = .returned r := by
  induction s using (wellFounded_heard c clock number).induction with
  | _ s ih =>
    by_cases hrun : s.Running
    · obtain ⟨t, ht⟩ := (HeardSteps.heard_iff hserial hone hs).mpr hrun
      obtain ⟨s', r, hsteps, hr⟩ := ih t ht (hs.tail ht)
      exact ⟨s', r, .head ht hsteps, hr⟩
    · obtain ⟨r, hr⟩ : ∃ r, s.position = .returned r := by simpa [State.Running] using hrun
      exact ⟨s, r, .refl, hr⟩

/-- **A listener that cancels in its call with a given number,** under one slot and any schedule.  A
run returns what the run of one case after another does.  If there are as many cases as calls, it
returns that it was cancelled, also when the call was for the last case, and the calls up to that
one were for the first cases, in their order.  If there are fewer, it returns the report of a run
that nobody cancels, and the calls are the same.  A run can go on until it has returned, and does
not go on for ever. -/
theorem canceled_in_call (c : Comparison) (clock : Clock) (number : Nat) (hone : 1 ≤ number)
    (hserial : c.concurrency ≤ 1) :
    (∀ s r, HeardSteps c clock number (initial c) s → s.position = .returned r →
      (s.events, r) = c.run clock (.atEvent number) ∧
      (number ≤ c.cases.length → r = .error .canceled ∧ s.events.length = number ∧
        ∀ i < number, ∃ k, c.cases[i]? = some k ∧
          s.events[i]? = some ⟨i, c.cases.length, k.outcome c.maxDepth⟩) ∧
      (c.cases.length < number → ∃ report, r = .ok report ∧
        ∀ clock' t r', Relation.ReflTransGen (Advance c clock') (initial c) t →
          t.position = .returned r' →
          ∃ report', r' = .ok report' ∧ report.outcomes = report'.outcomes ∧
          report.totals = report'.totals ∧
            s.events = t.events)) ∧
    (∀ s, HeardSteps c clock number (initial c) s →
      ((∃ s', Heard c clock number s s') ↔ s.Running) ∧
      ∃ s' r, HeardSteps c clock number s s' ∧ s'.position = .returned r) ∧
    WellFounded fun s' s => Heard c clock number s s' := by
  have hworkers : c.workers = 1 := by
    rw [workers_eq_max]
    omega
  refine ⟨fun s r hs hr => ?_, fun s hs => ?_, wellFounded_heard c clock number⟩
  on_goal 2 =>
    exact ⟨HeardSteps.heard_iff hworkers hone hs, HeardSteps.exists_returned hworkers hone hs⟩
  have hrun := HeardSteps.returned_eq_run hworkers hone hs hr
  refine ⟨hrun, fun hn => ?_, fun hn => ?_⟩
  · rw [run_atEvent_of_le hone hn] at hrun
    obtain ⟨hevents, rfl⟩ := Prod.mk.inj hrun
    refine ⟨rfl, ?_, fun i hi => ?_⟩
    · rw [hevents, List.length_take, length_events]
      omega
    · have hk : c.cases[i]? = some c.cases[i] := List.getElem?_eq_getElem (by omega)
      refine ⟨_, hk, ?_⟩
      rw [hevents, List.getElem?_take_of_lt hi, getElem?_events (getElem?_outcomes hk)]
  · rw [run_atEvent_of_lt hn] at hrun
    obtain ⟨hevents, rfl⟩ := Prod.mk.inj hrun
    refine ⟨_, rfl, fun clock' t r' ht hr' => ?_⟩
    have hfree :=
      HeardSteps.returned_eq_run hworkers (Nat.le_add_left 1 _)
        (heardSteps_of_advances hworkers ht) hr'
    rw [run_atEvent_of_lt (Nat.lt_succ_self _)] at hfree
    obtain ⟨hevents', rfl⟩ := Prod.mk.inj hfree
    refine ⟨_, rfl, ?_, ?_, hevents.trans hevents'.symm⟩
    · rw [Comparison.outcomes_report, Comparison.outcomes_report]
    · rw [Comparison.totals_report, Comparison.totals_report]

/-- A listener that cancels in its call for the last of two cases. -/
theorem canceled_in_last_call :
    1 ≤ 2 ∧ (Comparison.mk 1 0 [⟨3, 1, none⟩, ⟨3, 2, none⟩]).concurrency ≤ 1 ∧
      ∃ s, HeardSteps ⟨1, 0, [⟨3, 1, none⟩, ⟨3, 2, none⟩]⟩ ⟨.zero, 0⟩ 2
          (initial ⟨1, 0, [⟨3, 1, none⟩, ⟨3, 2, none⟩]⟩) s ∧
        s.position = .returned (.error .canceled) ∧ s.events.length = 2 := by
  obtain ⟨hreturned, hprogress, -⟩ :=
    canceled_in_call ⟨1, 0, [⟨3, 1, none⟩, ⟨3, 2, none⟩]⟩ ⟨.zero, 0⟩ 2 (by decide) (by decide)
  obtain ⟨-, s, r, hs, hr⟩ := hprogress _ .refl
  obtain ⟨rfl, hlength, -⟩ := (hreturned s r hs hr).2.1 (by decide)
  exact ⟨by decide, by decide, s, hs, hr, hlength⟩

end Schedule
end RepeatedAddition
