import Mathlib.Data.List.Induction
import RepeatedAddition.Report.Document
import RepeatedAddition.Proofs.Case

/-!
# The history of a report

Whoever holds a report can describe its run anew, add an outcome, ask for the mismatches, and have
it written.  The totals are counted along with each outcome that is added, while the mismatches are
looked up in the list of outcomes each time that they are asked for.  So two accounts of one thing
are kept, and different parts of a written report are taken from one or the other.

That the two agree is an invariant of every sequence of operations, whatever the labels of the
outcomes are: a report accepts any label, and counts only three of them.

* `Report.Operation`, `Report.perform`: what can be done with a report, and what comes of it.
* `Report.Accounted`: the outcomes are those that were added, and the totals are their numbers.
* `Report.Accounted.perform`, `Report.accounted_after`: one operation keeps the account, and so do
  all.
* `Report.sublist_mismatches_iff`: the mismatches are the largest part of the outcomes that has
  nothing else.
* `Report.accounted_after_every_operation`: the account after any operations, and what the next one
  can change.
-/

namespace RepeatedAddition

/-! ## Labels that are counted -/

/-- The status is one of the three that have a total. -/
def Status.Known (s : Status) : Prop := s = .ok ∨ s = .mismatch ∨ s = .skipped

instance (s : Status) : Decidable s.Known :=
  inferInstanceAs (Decidable (s = .ok ∨ s = .mismatch ∨ s = .skipped))

/-- No outcome is counted in two of the three totals. -/
theorem countP_known (os : List Outcome) :
    (os.countP fun o => o.status.Known) =
      (os.countP fun o => o.status = .ok) + (os.countP fun o => o.status = .mismatch)
        + os.countP fun o => o.status = .skipped := by
  induction os with
  | nil => rfl
  | cons o os ih =>
    have hone : (if o.status.Known then 1 else 0) = (if o.status = .ok then 1 else 0)
        + (if o.status = .mismatch then 1 else 0) + if o.status = .skipped then 1 else 0 := by
      by_cases hok : o.status = .ok
      · simp [Status.Known, hok, Status.ok_ne_mismatch, Status.ok_ne_skipped]
      · by_cases hmismatch : o.status = .mismatch
        · simp [Status.Known, hmismatch, Status.ok_ne_mismatch.symm,
            Status.skipped_ne_mismatch.symm]
        · simp [Status.Known, hok, hmismatch]
    simp only [List.countP_cons, decide_eq_true_eq]
    omega

namespace Report

open scoped List

/-! ## Operations -/

/-- What can be done with a report.  Two operations change it, the others ask for something. -/
inductive Operation where
  | describe (m : Metadata)
  | add (o : Outcome)
  | mismatches
  | markdown
  | json
  | write (format : Text)

/-- What an operation answers. -/
inductive Answer where
  | done
  | outcomes (os : List Outcome)
  | written (t : Text)
  | refused (e : WriteError)

/-- The answer to whoever wanted a report written. -/
def Answer.ofWriting : Except WriteError Text → Answer
  | .ok t => .written t
  | .error e => .refused e

/-- The report after an operation, with the answer. -/
def perform (r : Report) : Operation → Report × Answer
  | .describe m => (r.describe m, .done)
  | .add o => (r.add o, .done)
  | .mismatches => (r, .outcomes r.mismatches)
  | .markdown => (r, .written r.markdown)
  | .json => (r, .ofWriting (r.json.mapError .timestamp))
  | .write format => (r, .ofWriting (r.write format))

/-- The report after operations, from the one without outcomes. -/
def after (ops : List Operation) : Report := ops.foldl (fun r op => (r.perform op).1) empty

/-- The outcomes that an operation adds: one or none. -/
def Operation.added : Operation → List Outcome
  | .add o => [o]
  | _ => []

/-- The outcomes that operations add, in order. -/
def added (ops : List Operation) : List Outcome := ops.flatMap Operation.added

theorem after_concat (ops : List Operation) (op : Operation) :
    after (ops ++ [op]) = ((after ops).perform op).1 := by
  rw [after, List.foldl_append]
  rfl

theorem added_concat (ops : List Operation) (op : Operation) :
    added (ops ++ [op]) = added ops ++ op.added := by
  rw [added, List.flatMap_append, List.flatMap_singleton]
  rfl

/-! ## The account -/

/-- The report has the given outcomes, and its totals are their numbers. -/
structure Accounted (os : List Outcome) (r : Report) : Prop where
  outcomes : r.outcomes = os
  cases : r.totals.cases = os.length
  ok : r.totals.ok = os.countP fun o => o.status = .ok
  mismatches : r.totals.mismatches = os.countP fun o => o.status = .mismatch
  skipped : r.totals.skipped = os.countP fun o => o.status = .skipped
  wrapped : r.totals.wrapped = os.countP Outcome.wrapped

variable {os : List Outcome} {r : Report}

theorem accounted_empty : Accounted [] empty where
  outcomes := rfl
  cases := rfl
  ok := rfl
  mismatches := rfl
  skipped := rfl
  wrapped := rfl

/-- A count over one outcome more. -/
theorem countP_concat (p : Outcome → Bool) (os : List Outcome) (o : Outcome) :
    (os ++ [o]).countP p = os.countP p + if p o then 1 else 0 := by
  rw [List.countP_append, List.countP_singleton]

theorem Accounted.add (h : Accounted os r) (o : Outcome) : Accounted (os ++ [o]) (r.add o) where
  outcomes := by rw [Report.add, h.outcomes]
  cases := by rw [Report.add, Totals.count, h.cases, List.length_append, List.length_singleton]
  ok := by simp only [Report.add, Totals.count, h.ok, countP_concat, decide_eq_true_eq]
  mismatches := by
    simp only [Report.add, Totals.count, h.mismatches, countP_concat, decide_eq_true_eq]
  skipped := by simp only [Report.add, Totals.count, h.skipped, countP_concat, decide_eq_true_eq]
  wrapped := by simp only [Report.add, Totals.count, h.wrapped, countP_concat]

theorem Accounted.describe (h : Accounted os r) (m : Metadata) : Accounted os (r.describe m) where
  outcomes := h.outcomes
  cases := h.cases
  ok := h.ok
  mismatches := h.mismatches
  skipped := h.skipped
  wrapped := h.wrapped

/-- **One operation keeps the account**, with the outcomes that it adds. -/
theorem Accounted.perform (h : Accounted os r) (op : Operation) :
    Accounted (os ++ op.added) (r.perform op).1 := by
  cases op with
  | add o => exact h.add o
  | describe m =>
    show Accounted (os ++ []) (r.describe m)
    rw [List.append_nil]
    exact h.describe m
  | mismatches | markdown | json | write =>
    show Accounted (os ++ []) r
    rw [List.append_nil]
    exact h

/-- **Every sequence of operations keeps the account.** -/
theorem accounted_after (ops : List Operation) : Accounted (added ops) (after ops) := by
  -- operations come at the end, so the induction is from there
  induction ops using List.reverseRecOn with
  | nil => exact accounted_empty
  | append_singleton ops op ih =>
    rw [added_concat, after_concat]
    exact ih.perform op

/-- The three totals make up the number of cases, but for outcomes with another label. -/
theorem Accounted.sum_totals (h : Accounted os r) :
    r.totals.ok + r.totals.mismatches + r.totals.skipped = os.countP fun o => o.status.Known := by
  rw [h.ok, h.mismatches, h.skipped, countP_known]

/-! ## Mismatches -/

theorem status_of_mem_mismatches {o : Outcome} (h : o ∈ r.mismatches) : o.status = .mismatch :=
  of_decide_eq_true (List.mem_filter.mp h).2

/-- **The mismatches are the largest part of the outcomes that has nothing but mismatches.** -/
theorem sublist_mismatches_iff {l : List Outcome} :
    l <+ r.mismatches ↔ l <+ r.outcomes ∧ ∀ o ∈ l, o.status = .mismatch := by
  constructor
  · intro hl
    exact ⟨hl.trans List.filter_sublist, fun o ho => status_of_mem_mismatches (hl.subset ho)⟩
  · rintro ⟨hl, hall⟩
    have hfilter : l.filter (fun o => o.status = .mismatch) = l :=
      List.filter_eq_self.mpr fun o ho => decide_eq_true (hall o ho)
    rw [← hfilter]
    exact hl.filter _

theorem Accounted.length_mismatches (h : Accounted os r) :
    r.mismatches.length = r.totals.mismatches := by
  rw [h.mismatches, Report.mismatches, h.outcomes, List.countP_eq_length_filter]

/-! ## What an operation changes -/

theorem metadata_perform {op : Operation} (h : ∀ m, op ≠ .describe m) :
    (r.perform op).1.metadata = r.metadata := by
  cases op with
  | describe m => exact absurd rfl (h m)
  | add | mismatches | markdown | json | write => rfl

/-- Adding an outcome changes the outcomes and the totals, and nothing else does. -/
theorem unchanged_iff (r : Report) (op : Operation) :
    ((r.perform op).1.outcomes = r.outcomes ∧ (r.perform op).1.totals = r.totals) ↔
      ∀ o, op ≠ .add o := by
  cases op with
  | add o =>
    refine ⟨fun hsame => ?_, fun hother => absurd rfl (hother o)⟩
    have hcases : r.totals.cases + 1 = r.totals.cases := congrArg Totals.cases hsame.2
    omega
  | describe | mismatches | markdown | json | write =>
    refine ⟨fun _ o hadd => ?_, fun _ => ⟨rfl, rfl⟩⟩
    cases hadd

/-- **A report is accounted for after every operation.**  Whatever was done with it, from the one
without outcomes on: it has the outcomes that were added, in order, and its totals are their numbers
by status, with the number of those that wrapped.  Asked for its mismatches, it gives the largest
part of the outcomes that has nothing else, as many as the totals say.  The three totals by status
sum up to at most the number of cases, and to no less exactly if all labels are among the three.
The next operation changes outcomes and totals exactly if it adds an outcome, and the description
only if it is a new one. -/
theorem accounted_after_every_operation (ops : List Operation) :
    Accounted (added ops) (after ops) ∧
    (∃ os, ((after ops).perform .mismatches).2 = .outcomes os ∧
      (∀ l, l <+ os ↔ l <+ added ops ∧ ∀ o ∈ l, o.status = .mismatch) ∧
      os.length = (after ops).totals.mismatches) ∧
    (after ops).totals.ok + (after ops).totals.mismatches + (after ops).totals.skipped ≤
      (after ops).totals.cases ∧
    ((after ops).totals.ok + (after ops).totals.mismatches + (after ops).totals.skipped =
      (after ops).totals.cases ↔
      ∀ o ∈ added ops, o.status = .ok ∨ o.status = .mismatch ∨ o.status = .skipped) ∧
    ∀ op,
      ((after (ops ++ [op])).outcomes = (after ops).outcomes ∧ (after (ops ++ [op])).totals =
        (after ops).totals ↔
        ∀ o, op ≠ .add o) ∧
      ((∀ m, op ≠ .describe m) → (after (ops ++ [op])).metadata = (after ops).metadata) := by
  have haccount := accounted_after ops
  refine ⟨haccount, ⟨_, rfl, fun l => ?_, haccount.length_mismatches⟩, ?_, ?_,
    fun op => ⟨?_, fun hop => ?_⟩⟩
  · rw [sublist_mismatches_iff, haccount.outcomes]
  · rw [haccount.sum_totals, haccount.cases]
    exact List.countP_le_length
  · rw [haccount.sum_totals, haccount.cases, List.countP_eq_length]
    simp only [decide_eq_true_eq]
    rfl
  · rw [after_concat]
    exact unchanged_iff (after ops) op
  · rw [after_concat]
    exact metadata_perform hop

end Report

end RepeatedAddition
