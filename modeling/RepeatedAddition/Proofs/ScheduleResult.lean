import RepeatedAddition.Proofs.Report
import RepeatedAddition.Proofs.Schedule

/-!
# What a run in workers returns

A run in workers returns the report of the cases one by one, whatever the number of slots and
whatever the order of its steps, or else the reason why its context is done.

## The invariant

`Inv` holds in every state that a run can come to.

* The context of the group is the context: a worker fails only when the context of the group is
  done, so when a failure is noted the context is done already, and for the reason that the worker
  gives.
* A worker that has left has put its outcome in its place, unless some worker has failed
  (`State.Sound`).
* Behind the loop there is a worker for every case, unless the context is done (`Manned`).

The last two are the two ways in which a place could stay blank.  Both go with a context that is
done, and the last look at the context comes after both; so what is reported is never blank.

## Main results

* `Inv.stored_eq`: behind the wait, under a context that is not done, all outcomes are in their
  places.
* `exists_advance`: a run that has not returned can go on by itself.
* `run_reachable`: the run that takes the cases one after another is one of the schedules.
* `returned_under_every_schedule`: what a run returns.
-/

namespace RepeatedAddition
namespace Schedule

variable {c : Comparison} {clock : Clock} {s s' : State}

/-- What a worker in its place `i` has done so far.  A worker that leaves has put its outcome in its
place, or some worker has failed. -/
def State.Sound (c : Comparison) (s : State) (i : Nat) : Worker → Prop
  | .checking => True
  | .evaluating => True
  | .storing o => c.outcomes[i]? = some o
  | .reporting o => c.outcomes[i]? = some o ∧ s.stored[i]? = some o
  | .failing why => s.context = some why
  | .leaving => s.stored[i]? = c.outcomes[i]? ∨ s.firstError.isSome
  | .ended => s.stored[i]? = c.outcomes[i]? ∨ s.firstError.isSome

/-- How many workers there are for a number of cases.  Behind the loop there is one for each, unless
the context is done. -/
def Manned (cases workers : Nat) (context : Option Interruption) : Position → Prop
  | .checking i => workers = i ∧ i ≤ cases
  | .starting i => workers = i ∧ i < cases
  | _ => workers ≤ cases ∧ (context = none → workers = cases)

/-- What the loop knows from the end of its wait on. -/
def State.Concluded (c : Comparison) (clock : Clock) (s : State) : Position → Prop
  | .lastCheck => s.Idle ∧ s.firstError = none
  | .returned (.error why) => s.context = some why
  | .returned (.ok r) => r = c.report clock c.outcomes
  | _ => True

/-- What holds throughout a run. -/
structure Inv (c : Comparison) (clock : Clock) (s : State) : Prop where
  group_eq : s.group = s.context
  firstError_context : ∀ why, s.firstError = some why → s.context = some why
  length_stored : s.stored.length = c.cases.length
  sound : ∀ i w, s.workers[i]? = some w → s.Sound c i w
  manned : Manned c.cases.length s.workers.length s.context s.position
  concluded : s.Concluded c clock s.position

theorem inv_initial : Inv c clock (initial c) where
  group_eq := rfl
  firstError_context := by simp [initial]
  length_stored := List.length_replicate
  sound := by simp [initial]
  manned := ⟨rfl, Nat.zero_le _⟩
  concluded := trivial

theorem Inv.manned_at (h : Inv c clock s) {p : Position} (hp : s.position = p) :
    Manned c.cases.length s.workers.length s.context p := hp ▸ h.manned

theorem Inv.concluded_at (h : Inv c clock s) {p : Position} (hp : s.position = p) :
    s.Concluded c clock p := hp ▸ h.concluded

/-- While a worker is at work, the loop has not come to the end of its wait. -/
theorem Inv.position_ne_lastCheck (h : Inv c clock s) {i : Nat} {w : Worker}
    (hw : s.workers[i]? = some w) (hne : w ≠ .ended) : s.position ≠ .lastCheck := by
  intro hlast
  obtain ⟨hidle, -⟩ := h.concluded_at hlast
  exact hne (hidle w (List.mem_of_getElem? hw))

theorem Inv.length_workers_le (h : Inv c clock s) : s.workers.length ≤ c.cases.length := by
  cases hp : s.position with
  | checking i =>
    obtain ⟨hlen, hle⟩ := h.manned_at hp
    omega
  | starting i =>
    obtain ⟨hlen, hlt⟩ := h.manned_at hp
    omega
  | waiting | lastCheck | returned r => exact (h.manned_at hp).1

/-! ## Steps of the loop -/

theorem Inv.standing (h : Inv c clock s) {p : Position}
    (hm : Manned c.cases.length s.workers.length s.context p) (hc : s.Concluded c clock p) :
    Inv c clock (s.standing p) where
  group_eq := h.group_eq
  firstError_context := h.firstError_context
  length_stored := h.length_stored
  sound := h.sound
  manned := hm
  concluded := hc

theorem Inv.started (h : Inv c clock s) {i : Nat} (hs : s.position = .starting i) :
    Inv c clock (s.started.standing (.checking (i + 1))) := by
  have hm := h.manned_at hs
  refine ⟨h.group_eq, h.firstError_context, h.length_stored, fun j w hw => ?_, ⟨?_, hm.2⟩, trivial⟩
  · have hw' : (s.workers ++ [Worker.checking])[j]? = some w := hw
    by_cases hj : j < s.workers.length
    · rw [List.getElem?_append_left hj] at hw'
      exact h.sound j w hw'
    · -- the new worker has done nothing yet
      rw [List.getElem?_append_right (by omega)] at hw'
      obtain rfl : w = .checking := List.mem_singleton.mp (List.mem_of_getElem? hw')
      trivial
  · rw [← hm.1]
    exact List.length_append

/-- The end of the loop over the cases, before all have a worker only if the context is done. -/
theorem Inv.manned_waiting (h : Inv c clock s) {i : Nat} (hs : s.position = .checking i)
    (hi : s.context = none → c.cases.length ≤ i) :
    Manned c.cases.length s.workers.length s.context .waiting := by
  obtain ⟨hlen, hle⟩ := h.manned_at hs
  exact ⟨h.length_workers_le, fun hnone => hlen.trans (Nat.le_antisymm hle (hi hnone))⟩

/-! ## Steps of a worker -/

theorem Inv.moved (h : Inv c clock s) {i : Nat} {w w' : Worker} (hw : s.workers[i]? = some w)
    (hne : w ≠ .ended) (hsound : s.Sound c i w') : Inv c clock (s.moved i w') where
  group_eq := h.group_eq
  firstError_context := h.firstError_context
  length_stored := h.length_stored
  sound := by
    intro j v hv
    have hv' : (s.workers.set i w')[j]? = some v := hv
    by_cases hj : i = j
    · subst hj
      obtain ⟨hi, -⟩ := List.getElem?_eq_some_iff.mp hw
      rw [List.getElem?_set_self hi] at hv'
      obtain rfl : w' = v := Option.some.inj hv'
      exact hsound
    · rw [List.getElem?_set_ne hj] at hv'
      exact h.sound j v hv'
  manned := by
    have hl : (s.moved i w').workers.length = s.workers.length := List.length_set
    rw [hl]
    exact h.manned
  concluded := by
    change (s.moved i w').Concluded c clock s.position
    cases hp : s.position with
    | checking | starting | waiting => trivial
    | lastCheck => exact absurd hp (h.position_ne_lastCheck hw hne)
    | returned r =>
      have hc := h.concluded_at hp
      cases r <;> exact hc

/-- A worker may put its outcome in its own place. -/
theorem Inv.stored (h : Inv c clock s) {i : Nat} {o : Outcome}
    (hw : s.workers[i]? = some (.storing o)) :
    Inv c clock { s with stored := s.stored.set i o } where
  group_eq := h.group_eq
  firstError_context := h.firstError_context
  length_stored := List.length_set.trans h.length_stored
  sound := by
    intro j w hj
    have hs := h.sound j w hj
    by_cases hij : i = j
    · subst hij
      obtain rfl : .storing o = w := Option.some.inj (hw.symm.trans hj)
      exact hs
    · have hsame : (s.stored.set i o)[j]? = s.stored[j]? := List.getElem?_set_ne hij
      cases w with
      | checking | evaluating => trivial
      | storing | failing => exact hs
      | reporting => exact ⟨hs.1, hsame.trans hs.2⟩
      | leaving | ended => exact hs.imp_left hsame.trans
  manned := h.manned
  concluded := h.concluded

/-- A failure is noted only when the context is done for the reason that it gives. -/
theorem Inv.noted (h : Inv c clock s) {i : Nat} {why : Interruption}
    (hw : s.workers[i]? = some (.failing why)) : Inv c clock (s.noted why) := by
  have hcontext : s.context = some why := h.sound i _ hw
  have hgroup : s.group = some why := h.group_eq.trans hcontext
  have hfirst : (s.firstError.or (some why)).isSome := by cases s.firstError <;> rfl
  refine ⟨?_, fun why' he => ?_, h.length_stored, fun j w hj => ?_, h.manned, ?_⟩
  · change s.group.or _ = s.context
    rw [hgroup, hcontext]
    rfl
  · have he' : s.firstError.or (some why) = some why' := he
    cases hf : s.firstError with
    | none =>
      rw [hf] at he'
      exact hcontext.trans he'
    | some why'' =>
      rw [hf] at he'
      exact (h.firstError_context why'' hf).trans he'
  · have hs := h.sound j w hj
    cases w with
    | checking | evaluating => trivial
    | storing | reporting | failing => exact hs
    | leaving | ended => exact Or.inr hfirst
  · change (s.noted why).Concluded c clock s.position
    cases hp : s.position with
    | checking | starting | waiting => trivial
    | lastCheck => exact absurd hp (h.position_ne_lastCheck hw (by simp))
    | returned r =>
      have hc := h.concluded_at hp
      cases r <;> exact hc

/-! ## All steps -/

/-- The context may become done at any moment. -/
theorem Inv.interrupted (h : Inv c clock s) (why : Interruption) (hnone : s.context = none) :
    Inv c clock (s.interrupted why) := by
  have hfirst : s.firstError = none := by
    cases hf : s.firstError with
    | none => rfl
    | some why' => exact absurd (hnone.symm.trans (h.firstError_context why' hf)) (by simp)
  refine ⟨?_, fun why' he => ?_, h.length_stored, fun j w hj => ?_, ?_, ?_⟩
  · change s.group.or (some why) = some why
    rw [h.group_eq, hnone]
    rfl
  · exact absurd (hfirst.symm.trans he) (by simp)
  · have hs := h.sound j w hj
    cases w with
    | checking | evaluating => trivial
    | storing | reporting | leaving | ended => exact hs
    | failing why' => exact absurd (hnone.symm.trans hs) (by simp)
  · change Manned _ _ _ s.position
    cases hp : s.position with
    | checking | starting => exact h.manned_at hp
    | waiting | lastCheck | returned =>
      exact ⟨(h.manned_at hp).1, fun hsome => absurd hsome (by simp [State.interrupted])⟩
  · change (s.interrupted why).Concluded c clock s.position
    cases hp : s.position with
    | checking | starting | waiting => trivial
    | lastCheck => exact h.concluded_at hp
    | returned r =>
      have hc := h.concluded_at hp
      cases r with
      | error why' => exact absurd (hnone.symm.trans hc) (by simp)
      | ok r => exact hc

/-- **Nothing is blank at the last look.**  Behind the wait, under a context that is not done, all
outcomes are in their places. -/
theorem Inv.stored_eq (h : Inv c clock s) (hp : s.position = .lastCheck)
    (hnone : s.context = none) :
    s.stored = c.outcomes := by
  obtain ⟨hidle, hfirst⟩ := h.concluded_at hp
  have hlen : s.workers.length = c.cases.length := (h.manned_at hp).2 hnone
  have hout : c.outcomes.length = c.cases.length := List.length_map ..
  apply List.ext_getElem?
  intro i
  by_cases hi : i < c.cases.length
  · obtain ⟨w, hw⟩ : ∃ w, s.workers[i]? = some w := ⟨_, List.getElem?_eq_getElem (hlen ▸ hi)⟩
    obtain rfl : w = .ended := hidle w (List.mem_of_getElem? hw)
    rcases h.sound i _ hw with hstored | hfailed
    · exact hstored
    · rw [hfirst] at hfailed
      exact absurd hfailed (by simp)
  · rw [List.getElem?_eq_none (by rw [h.length_stored]; omega), List.getElem?_eq_none (by omega)]

theorem Advance.inv (ha : Advance c clock s s') (h : Inv c clock s) : Inv c clock s' := by
  cases ha with
  | proceed hs hi _ => exact h.standing ⟨(h.manned_at hs).1, hi⟩ trivial
  | breakOff hs _ hg =>
    refine h.standing (h.manned_waiting hs fun hnone => ?_) trivial
    exact absurd (hg.symm.trans (h.group_eq.trans hnone)) (by simp)
  | exhausted hs hi => exact h.standing (h.manned_waiting hs fun _ => hi) trivial
  | start hs _ => exact h.started hs
  | pass hw _ => exact h.moved hw (by simp) trivial
  | refuse hw hg => exact h.moved hw (by simp) (h.group_eq.symm.trans hg)
  | @evaluate i k hw hk =>
    refine h.moved hw (by simp) ?_
    change (c.cases.map _)[i]? = _
    rw [List.getElem?_map, hk]
    rfl
  | @store i o hw =>
    have ho : c.outcomes[i]? = some o := h.sound i _ hw
    have hi : i < s.stored.length := by
      rw [h.length_stored]
      exact Nat.lt_of_lt_of_le (List.getElem?_eq_some_iff.mp hw).1 h.length_workers_le
    exact (h.stored hw).moved hw (by simp) ⟨ho, List.getElem?_set_self hi⟩
  | @report i o hw =>
    obtain ⟨ho, hstored⟩ : c.outcomes[i]? = some o ∧ s.stored[i]? = some o := h.sound i _ hw
    have hleft : s.Sound c i .leaving := Or.inl (hstored.trans ho.symm)
    have hmoved := h.moved hw (by simp) hleft
    exact ⟨hmoved.group_eq, hmoved.firstError_context, hmoved.length_stored, hmoved.sound,
      hmoved.manned, hmoved.concluded⟩
  | @fail i why hw =>
    have hleft : (s.noted why).Sound c i .leaving := by
      refine Or.inr ?_
      change (s.firstError.or (some why)).isSome
      cases s.firstError <;> rfl
    exact (h.noted hw).moved hw (by simp) hleft
  | @leave i hw =>
    have hleft : s.Sound c i .leaving := h.sound i _ hw
    exact h.moved hw (by simp) hleft
  -- The wait, the last look and the return ask the same of the number of workers.
  | joinFailed hs _ he =>
    have hm := h.manned_at hs
    exact h.standing hm (h.firstError_context _ he)
  | join hs hidle he =>
    have hm := h.manned_at hs
    exact h.standing hm ⟨hidle, he⟩
  | interrupted hs hc =>
    have hm := h.manned_at hs
    exact h.standing hm hc
  | complete hs hc =>
    have hm := h.manned_at hs
    refine h.standing hm ?_
    change c.report clock s.stored = _
    rw [h.stored_eq hs hc]

theorem Step.inv (hstep : Step c clock s s') (h : Inv c clock s) : Inv c clock s' := by
  cases hstep with
  | advance ha => exact ha.inv h
  | interrupt why hnone => exact h.interrupted why hnone

theorem Reachable.inv (hs : Reachable c clock s) : Inv c clock s :=
  hs.induction inv_initial fun _ _ h hstep => hstep.inv h

/-! ## A run can always go on -/

/-- A worker that has not ended can go on. -/
theorem Inv.exists_advance_worker (h : Inv c clock s) {i : Nat} {w : Worker}
    (hw : s.workers[i]? = some w) (hne : w ≠ .ended) : ∃ s', Advance c clock s s' := by
  cases w with
  | checking =>
    cases hg : s.group with
    | none => exact ⟨_, .pass hw hg⟩
    | some why => exact ⟨_, .refuse hw hg⟩
  | evaluating =>
    have hi : i < c.cases.length :=
      Nat.lt_of_lt_of_le (List.getElem?_eq_some_iff.mp hw).1 h.length_workers_le
    exact ⟨_, .evaluate hw (List.getElem?_eq_getElem hi)⟩
  | storing o => exact ⟨_, .store hw⟩
  | reporting o => exact ⟨_, .report hw⟩
  | failing why => exact ⟨_, .fail hw⟩
  | leaving => exact ⟨_, .leave hw⟩
  | ended => exact absurd rfl hne

/-- A run that has not returned can go on by itself. -/
theorem Inv.exists_advance (h : Inv c clock s) (hrun : s.Running) : ∃ s', Advance c clock s s' := by
  cases hp : s.position with
  | checking i =>
    by_cases hi : i < c.cases.length
    · cases hg : s.group with
      | none => exact ⟨_, .proceed hp hi hg⟩
      | some why => exact ⟨_, .breakOff hp hi hg⟩
    · exact ⟨_, .exhausted hp (by omega)⟩
  | starting i =>
    by_cases hfree : (s.busy : Int) < c.workers
    · exact ⟨_, .start hp hfree⟩
    · -- all slots are in use, and there is at least one slot
      have hone := one_le_workers c
      obtain ⟨j, w, hw, hne⟩ := State.exists_of_busy_pos (s := s) (by omega)
      exact h.exists_advance_worker hw hne
  | waiting =>
    by_cases hidle : s.Idle
    · cases he : s.firstError with
      | none => exact ⟨_, .join hp hidle he⟩
      | some why => exact ⟨_, .joinFailed hp hidle he⟩
    · obtain ⟨w, hw, hne⟩ : ∃ w ∈ s.workers, w ≠ .ended := by simpa [State.Idle] using hidle
      obtain ⟨j, hj⟩ := List.mem_iff_getElem?.mp hw
      exact h.exists_advance_worker hj hne
  | lastCheck =>
    cases hc : s.context with
    | none => exact ⟨_, .complete hp hc⟩
    | some why => exact ⟨_, .interrupted hp hc⟩
  | returned r => exact absurd hp (hrun r)

/-- From every state the run can come to its end while the context stays as it is. -/
theorem Inv.exists_returned (h : Inv c clock s) :
    ∃ s' r, Steps c clock s s' ∧ s'.context = s.context ∧ s'.position = .returned r := by
  -- each step leaves less to do, so the induction is on what is left
  induction hn : s.rank c using Nat.strongRecOn generalizing s with
  | ind n ih =>
    by_cases hrun : s.Running
    · obtain ⟨t, ht⟩ := h.exists_advance hrun
      obtain ⟨s', r, hsteps, hcontext, hr⟩ := ih (t.rank c) (hn ▸ ht.rank_lt) (ht.inv h) rfl
      exact ⟨s', r, .head (.advance ht) hsteps, hcontext.trans ht.context_eq, hr⟩
    · obtain ⟨r, hr⟩ : ∃ r, s.position = .returned r := by simpa [State.Running] using hrun
      exact ⟨s, r, .refl, rfl, hr⟩

/-- A report was there before a step, or the step is the last look at a context that is not done. -/
theorem Step.context_eq_none_of_report {report : Report} (h : Step c clock s s')
    (hr : s'.position = .returned (.ok report)) :
    s.position = .returned (.ok report) ∨ s.context = none := by
  cases h with
  | interrupt why hnone => exact Or.inr hnone
  | advance h =>
    cases h with
    | complete _ hc => exact Or.inr hc
    | proceed | breakOff | exhausted | start | joinFailed | join | interrupted =>
      exact absurd hr (by simp [State.standing])
    | pass | refuse | evaluate | store | report | fail | leave => exact Or.inl hr

/-- Once the context is done, a run that has not returned comes to no report. -/
theorem Steps.returned_eq_error {why : Interruption} {r : Except Interruption Report}
    (hsteps : Steps c clock s s') (h : Inv c clock s) (hrun : s.Running) (hc : s.context = some why)
    (hr : s'.position = .returned r) : r = .error why := by
  suffices hkeep : Inv c clock s' ∧ ∀ r, s'.position = .returned r →
      r = .error why from hkeep.2 r hr
  clear hr
  induction hsteps with
  | refl => exact ⟨h, fun r hr => absurd hr (hrun r)⟩
  | @tail t t' hbefore hlast ih =>
    obtain ⟨ht, hreturned⟩ := ih
    have htc : t.context = some why := Steps.context_eq_some hbefore hc
    have ht' := hlast.inv ht
    refine ⟨ht', fun r hr => ?_⟩
    cases r with
    | error why' =>
      have hcontext : t'.context = some why' := ht'.concluded_at hr
      have hsame : some why' = some why := hcontext.symm.trans (hlast.context_eq_some htc)
      rw [Option.some.inj hsame]
    | ok report =>
      rcases hlast.context_eq_none_of_report hr with hbefore' | hnone
      · exact hreturned _ hbefore'
      · exact absurd (hnone.symm.trans htc) (by simp)

/-! ## One case after another

`Comparison.run` is the schedule in which a worker has ended before the next one starts. -/

/-- The first `i` cases are done, each by a worker that has ended, and nothing else is. -/
def sequential (c : Comparison) (i : Nat) : State :=
  { position := .checking i
    workers := List.replicate i .ended
    stored := c.outcomes.take i ++ List.replicate (c.cases.length - i) blank
    events := c.events.take i
    context := none
    group := none
    firstError := none }

/-- The first `i` workers have ended, and the next one has been started. -/
def attended (i : Nat) (w : Worker) (stored : List Outcome) (events : List Event) : State :=
  { position := .checking (i + 1)
    workers := List.replicate i .ended ++ [w]
    stored := stored
    events := events
    context := none
    group := none
    firstError := none }

theorem getElem?_attended (i : Nat) (w : Worker) (os : List Outcome) (es : List Event) :
    (attended i w os es).workers[i]? = some w := by
  simp [attended]

theorem moved_attended (i : Nat) (w w' : Worker) (os : List Outcome) (es : List Event) :
    (attended i w os es).moved i w' = attended i w' os es := by
  simp [attended, State.moved, List.set_append_right]

theorem sequential_zero (c : Comparison) : sequential c 0 = initial c := by
  simp [sequential, initial]

theorem getElem?_outcomes {i : Nat} {k : Case} (hk : c.cases[i]? = some k) :
    c.outcomes[i]? = some (k.outcome c.maxDepth) := by
  rw [Comparison.outcomes, List.getElem?_map, hk]
  rfl

theorem getElem?_events {i : Nat} {o : Outcome} (ho : c.outcomes[i]? = some o) :
    c.events[i]? = some ⟨i, c.cases.length, o⟩ := by
  simp [Comparison.events, List.getElem?_zipIdx, ho]

theorem length_outcomes (c : Comparison) : c.outcomes.length = c.cases.length := List.length_map ..

/-- The next outcome comes into its place. -/
theorem set_stored {i : Nat} {o : Outcome} (ho : c.outcomes[i]? = some o) :
    (c.outcomes.take i ++ List.replicate (c.cases.length - i) blank).set i o =
      c.outcomes.take (i + 1) ++ List.replicate (c.cases.length - (i + 1)) blank := by
  obtain ⟨hi, -⟩ := List.getElem?_eq_some_iff.mp ho
  have hn := length_outcomes c
  have htake : (c.outcomes.take i).length = i := List.length_take_of_le (by omega)
  have hrest : c.cases.length - i = (c.cases.length - (i + 1)) + 1 := by omega
  rw [List.set_append_right i o (by omega), htake, Nat.sub_self, hrest, List.replicate_succ,
    List.set_cons_zero, List.take_add_one, ho, List.append_assoc]
  rfl

theorem Advance.step_of_eq {t : State} (h : Advance c clock s t) (ht : t = s') :
    Step c clock s s' :=
  .advance (ht ▸ h)

/-- A worker that is alone evaluates its case, puts the outcome in its place and reports it. -/
theorem steps_worker {i : Nat} {k : Case} (hk : c.cases[i]? = some k) (os : List Outcome)
    (es : List Event) :
    Steps c clock (attended i .checking os es)
      (attended i .leaving (os.set i (k.outcome c.maxDepth))
        (es ++ [⟨i, c.cases.length, k.outcome c.maxDepth⟩])) := by
  have hpass : Step c clock (attended i .checking os es) (attended i .evaluating os es) :=
    Advance.step_of_eq (.pass (getElem?_attended ..) rfl) (moved_attended ..)
  have hevaluate : Step c clock (attended i .evaluating os es)
      (attended i (.storing (k.outcome c.maxDepth)) os es) :=
    Advance.step_of_eq (.evaluate (getElem?_attended ..) hk) (moved_attended ..)
  have hstore : Step c clock (attended i (.storing (k.outcome c.maxDepth)) os es)
      (attended i (.reporting (k.outcome c.maxDepth)) (os.set i (k.outcome c.maxDepth)) es) := by
    refine Advance.step_of_eq (.store (getElem?_attended ..)) ?_
    rw [moved_attended]
    rfl
  refine .head hpass (.head hevaluate (.head hstore (.single ?_)))
  refine Advance.step_of_eq (.report (getElem?_attended ..)) ?_
  rw [moved_attended]
  rfl

/-- The next case is evaluated and reported, and its worker is about to leave. -/
theorem steps_attended {i : Nat} (hi : i < c.cases.length) :
    Steps c clock (sequential c i)
      (attended i .leaving (c.outcomes.take (i + 1) ++
        List.replicate (c.cases.length - (i + 1)) blank)
        (c.events.take (i + 1))) := by
  obtain ⟨k, hk⟩ : ∃ k, c.cases[i]? = some k := ⟨_, List.getElem?_eq_getElem hi⟩
  have ho := getElem?_outcomes hk
  have hevents : c.events.take i ++ [⟨i, c.cases.length, k.outcome c.maxDepth⟩] =
      c.events.take (i + 1) := by
    rw [List.take_add_one, getElem?_events ho]
    rfl
  have hidle : ((sequential c i).standing (.starting i)).Idle := fun w hw =>
    (List.mem_replicate.mp hw).2
  have hfree : (((sequential c i).standing (.starting i)).busy : Int) < c.workers := by
    have hbusy := State.busy_eq_zero hidle
    have hone := one_le_workers c
    omega
  rw [← set_stored ho, ← hevents]
  refine .head (.advance (.proceed rfl hi rfl)) ?_
  exact .head (.advance (.start rfl hfree)) (steps_worker hk _ _)

/-- The next case is done. -/
theorem steps_sequential_succ {i : Nat} (hi : i < c.cases.length) :
    Steps c clock (sequential c i) (sequential c (i + 1)) := by
  refine (steps_attended hi).tail (Advance.step_of_eq (.leave (getElem?_attended ..)) ?_)
  rw [moved_attended]
  simp [attended, sequential, List.replicate_succ']

theorem reachable_sequential {i : Nat} (hi : i ≤ c.cases.length) :
    Reachable c clock (sequential c i) := by
  induction i with
  | zero =>
    rw [sequential_zero]
    exact .refl
  | succ i ih => exact (ih (by omega)).steps (steps_sequential_succ (by omega))

/-- With no more workers at work, a run whose context is done comes to the reason for it. -/
theorem steps_interrupted {i : Nat} {why : Interruption} (hs : s.position = .checking i)
    (hidle : s.Idle) (he : s.firstError = none) (hc : s.context = some why) (hg : s.group.isSome) :
    Steps c clock s (s.standing (.returned (.error why))) := by
  obtain ⟨why', hg⟩ := Option.isSome_iff_exists.mp hg
  have hwait : Step c clock s (s.standing .waiting) := by
    by_cases hi : i < c.cases.length
    · exact .advance (.breakOff hs hi hg)
    · exact .advance (.exhausted hs (by omega))
  refine .head hwait ?_
  refine .head (.advance (.join rfl hidle he)) ?_
  exact .single (.advance (.interrupted rfl hc))

/-- Without an interruption the run comes to its report. -/
theorem reachable_report (c : Comparison) (clock : Clock) :
    ∃ s, Reachable c clock s ∧ s.position = .returned (.ok (c.report clock c.outcomes)) ∧
      s.events = c.events := by
  have hn := length_outcomes c
  have hstored : (sequential c c.cases.length).stored = c.outcomes := by
    simp [sequential, List.take_of_length_le, hn]
  have hevents : (sequential c c.cases.length).events = c.events := by
    simp [sequential, Comparison.events, List.take_of_length_le, hn]
  have hidle : (sequential c c.cases.length).Idle := fun w hw => (List.mem_replicate.mp hw).2
  have hsteps : Steps c clock (sequential c c.cases.length) _ :=
    .head (.advance (.exhausted rfl (Nat.le_refl _)))
      (.head (.advance (.join rfl hidle rfl)) (.single (.advance (.complete rfl rfl))))
  refine ⟨_, (reachable_sequential (Nat.le_refl _)).steps hsteps, ?_, hevents⟩
  change Position.returned (.ok (c.report clock (sequential c c.cases.length).stored)) = _
  rw [hstored]

/-- An event may make the context done: the run comes to the reason for it, with no further
event. -/
theorem reachable_interrupted {number : Nat} (h1 : 1 ≤ number) (hn : number ≤ c.cases.length)
    (why : Interruption) :
    ∃ s, Reachable c clock s ∧ s.position = .returned (.error why) ∧
      s.events = c.events.take number := by
  obtain ⟨i, rfl⟩ : ∃ i, number = i + 1 := ⟨number - 1, by omega⟩
  have hreported : Reachable c clock _ :=
    (reachable_sequential (Nat.le_of_succ_le hn)).steps (steps_attended hn)
  generalize c.outcomes.take (i + 1) ++ List.replicate (c.cases.length - (i + 1)) blank =
    os at hreported
  have hdone := hreported.step (.interrupt why rfl)
  have hleft :=
    hdone.step (.advance (.leave (getElem?_attended i .leaving os (c.events.take (i + 1)))))
  have hidle :
      (((attended i .leaving os (c.events.take (i + 1))).interrupted why).moved i .ended).Idle := by
    -- the worker that reported is the last, and has ended by now
    intro w hw
    have hset :
        (((attended i .leaving os (c.events.take (i + 1))).interrupted why).moved i
          .ended).workers = List.replicate (i + 1) .ended := by
      simp [attended, State.interrupted, State.moved, List.set_append_right, List.replicate_succ']
    rw [hset] at hw
    exact (List.mem_replicate.mp hw).2
  exact ⟨_, hleft.steps (steps_interrupted rfl hidle rfl rfl rfl), rfl, rfl⟩

/-- **The run that takes the cases one after another is one of the schedules,** whatever interrupts
it. -/
theorem run_reachable (c : Comparison) (clock : Clock) (interrupt : Interrupt) :
    ∃ s, Reachable c clock s ∧ s.position = .returned (c.run clock interrupt).2 ∧
      s.events = (c.run clock interrupt).1 := by
  cases interrupt with
  | never => exact reachable_report c clock
  | beforeStart why =>
    have hdone : Reachable c clock ((initial c).interrupted why) := .single (.interrupt why rfl)
    exact ⟨_, hdone.steps (steps_interrupted rfl
      (by simp [State.Idle, State.interrupted, initial]) rfl rfl rfl), rfl, rfl⟩
  | atEvent number =>
    by_cases h : 1 ≤ number ∧ number ≤ c.cases.length
    · have hrun : c.run clock (.atEvent number) = (c.events.take number, .error .canceled) := by
        simp only [Comparison.run, Comparison.evaluate, if_pos h]
        rfl
      rw [hrun]
      exact reachable_interrupted h.1 h.2 .canceled
    · have hrun : c.run clock (.atEvent number) = (c.events, .ok (c.report clock c.outcomes)) := by
        simp only [Comparison.run, Comparison.evaluate, if_neg h]
        rfl
      rw [hrun]
      exact reachable_report c clock

/-! ## What a run returns -/

/-- **What a run returns, under every schedule.**  A report has the outcomes of the cases one by
one, in their order, and is no report only if the context is done, for the reason that is returned.
So the outcomes do not depend on the number of slots.  Once the context is done, a run that has not
returned comes to that reason and to nothing else.  No schedule goes on for ever, and from every
state a run can return without any change of the context, so a run that is left to itself returns.
The run that takes the cases one after another is among the schedules. -/
theorem returned_under_every_schedule (c : Comparison) (clock : Clock) :
    (∀ s r, Reachable c clock s → s.position = .returned r →
      (∀ report, r = .ok report →
        report = c.report clock c.outcomes ∧
        report.outcomes = c.cases.map (Case.outcome c.maxDepth)) ∧
      (∀ why, r = .error why → s.context = some why) ∧
      (s.context = none → ∃ report, r = .ok report)) ∧
    (∀ c' clock' s s' report report', c'.maxDepth = c.maxDepth → c'.cases = c.cases →
      Reachable c clock s → s.position = .returned (.ok report) →
      Reachable c' clock' s' → s'.position = .returned (.ok report') →
      report'.outcomes = report.outcomes) ∧
    (∀ s why, Reachable c clock s → s.Running → s.context = some why →
      ∀ s' r, Steps c clock s s' → s'.position = .returned r → r = .error why) ∧
    (∀ s, Reachable c clock s →
      ∃ s' r, Steps c clock s s' ∧ s'.context = s.context ∧ s'.position = .returned r) ∧
    (WellFounded fun s' s => Step c clock s s') ∧
    ∀ interrupt, ∃ s, Reachable c clock s ∧ s.position = .returned (c.run clock interrupt).2 ∧
      s.events = (c.run clock interrupt).1 := by
  refine ⟨fun s r hs hr => ⟨?_, ?_, ?_⟩, ?_, fun s why hs hrun hc s' r hsteps hr => ?_,
    fun s hs => ?_, wellFounded_step c clock, run_reachable c clock⟩
  · rintro report rfl
    obtain rfl := hs.inv.concluded_at hr
    exact ⟨rfl, c.outcomes_report clock c.outcomes⟩
  · rintro why rfl
    exact hs.inv.concluded_at hr
  · intro hnone
    cases r with
    | error why => exact absurd (hnone.symm.trans (hs.inv.concluded_at hr)) (by simp)
    | ok report => exact ⟨report, rfl⟩
  · intro c' clock' s s' report report' hdepth hcases hs hr hs' hr'
    rw [hs.inv.concluded_at hr, hs'.inv.concluded_at hr', Comparison.outcomes_report,
      Comparison.outcomes_report, Comparison.outcomes, Comparison.outcomes, hdepth, hcases]
  · exact Steps.returned_eq_error hsteps hs.inv hrun hc hr
  · exact hs.inv.exists_returned

end Schedule
end RepeatedAddition
