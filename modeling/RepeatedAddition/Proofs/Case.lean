import RepeatedAddition.Case
import RepeatedAddition.Proofs.Product

/-!
# How a case is judged

The two methods never disagree, so of the judgement of a case there remain the depth limit and the
expected product.

* `Case.outcome_of_lt`, `Case.outcome_of_le`: the outcome of a case over the limit and of any other.
* `Case.Bad`: the multiplier is within the limit, and the product is not the one that is expected.
* `Case.status_eq_mismatch_iff`: exactly the bad cases are mismatches.
* `Case.status_outcome`, `Case.operands_outcome`: the statuses there are, and what an outcome keeps
  of its case.
* `Case.Judged`: what an outcome has to say of its case.  The outcome says it, and no other does.
-/

namespace RepeatedAddition

/-! ## The judgement of a product against itself -/

theorem Status.ok_ne_mismatch : Status.ok ≠ .mismatch := by decide

theorem Status.skipped_ne_mismatch : Status.skipped ≠ .mismatch := by decide

theorem Status.ok_ne_skipped : Status.ok ≠ .skipped := by decide

/-- What is said of a product that is not the expected one. -/
def mismatchReason (expected product : UInt64) : Text :=
  Text.lit "expected " ++ Text.decimal expected.toNat ++ Text.lit ", got " ++
    Text.decimal product.toNat

theorem judge_none (p : UInt64) : judge none p p = (.ok, []) := by
  unfold judge
  exact if_neg fun h => h rfl

theorem judge_some_self (p : UInt64) : judge (some p) p p = (.ok, []) := by
  unfold judge
  rw [if_neg fun h => h rfl]
  exact if_neg fun h => h rfl

theorem judge_some_of_ne {e p : UInt64} (h : e ≠ p) :
    judge (some e) p p = (.mismatch, mismatchReason e p) := by
  unfold judge
  rw [if_neg fun h => h rfl]
  exact if_pos h

/-! ## Outcomes -/

namespace Case

variable {limit : UInt64} {c : Case}

/-- A case over the limit is skipped. -/
theorem evaluate_of_lt (h : limit < c.y) :
    c.evaluate limit =
      ({ x := c.x, y := c.y, expected := c.expected, wrapped := wraps c.x c.y
         status := .skipped, reason := (DepthExceeded.mk c.y limit).message }, none) := by
  rw [evaluate, recursiveWithin_eq, if_neg (UInt64.not_le.mpr h)]
  rfl

/-- A case within the limit is multiplied both ways, with one result. -/
theorem evaluate_of_le (h : c.y ≤ limit) :
    c.evaluate limit =
      ({ x := c.x, y := c.y, expected := c.expected, iterative := some (c.x * c.y)
         recursive := some (c.x * c.y), wrapped := wraps c.x c.y
         status := (judge c.expected (c.x * c.y) (c.x * c.y)).1
         reason := (judge c.expected (c.x * c.y) (c.x * c.y)).2 }, none) := by
  rw [evaluate, recursiveWithin_eq, if_pos h, iterative_eq_mul]
  rfl

/-- **Every case has an outcome**: a multiplier over the limit is the only fault of a product. -/
theorem evaluate_snd (limit : UInt64) (c : Case) : (c.evaluate limit).2 = none := by
  by_cases h : c.y ≤ limit
  · rw [evaluate_of_le h]
  · rw [evaluate_of_lt (UInt64.not_le.mp h)]

theorem outcome_of_lt (h : limit < c.y) :
    c.outcome limit =
      { x := c.x, y := c.y, expected := c.expected, wrapped := wraps c.x c.y
        status := .skipped, reason := (DepthExceeded.mk c.y limit).message } := by
  rw [outcome, evaluate_of_lt h]

theorem outcome_of_le (h : c.y ≤ limit) :
    c.outcome limit =
      { x := c.x, y := c.y, expected := c.expected, iterative := some (c.x * c.y)
        recursive := some (c.x * c.y), wrapped := wraps c.x c.y
        status := (judge c.expected (c.x * c.y) (c.x * c.y)).1
        reason := (judge c.expected (c.x * c.y) (c.x * c.y)).2 } := by
  rw [outcome, evaluate_of_le h]

/-- A case whose multiplier is within the limit is `ok`, or a mismatch with its expected product. -/
theorem outcome_of_le_cases (h : c.y ≤ limit) :
    ((∀ e ∈ c.expected, e = c.x * c.y) ∧
      c.outcome limit =
        { x := c.x, y := c.y, expected := c.expected, iterative := some (c.x * c.y)
          recursive := some (c.x * c.y), wrapped := wraps c.x c.y, status := .ok }) ∨
    ∃ e, c.expected = some e ∧ e ≠ c.x * c.y ∧
      c.outcome limit =
        { x := c.x, y := c.y, expected := c.expected, iterative := some (c.x * c.y)
          recursive := some (c.x * c.y), wrapped := wraps c.x c.y, status := .mismatch
          reason := mismatchReason e (c.x * c.y) } := by
  rw [outcome_of_le h]
  cases c.expected with
  | none =>
    rw [judge_none]
    exact Or.inl ⟨fun e he => absurd he (Option.not_mem_none e), rfl⟩
  | some e =>
    by_cases hsame : e = c.x * c.y
    · rw [← hsame, judge_some_self]
      exact Or.inl ⟨fun e' he' => (Option.some.inj he').symm, rfl⟩
    · rw [judge_some_of_ne hsame]
      exact Or.inr ⟨e, rfl, hsame, rfl⟩

/-- The multiplier is within the limit, and the product is not the one that is expected. -/
def Bad (limit : UInt64) (c : Case) : Prop :=
  c.y ≤ limit ∧ ∃ e ∈ c.expected, e.toNat ≠ c.x.toNat * c.y.toNat % 2 ^ 64

instance (limit : UInt64) (c : Case) : Decidable (c.Bad limit) :=
  inferInstanceAs (Decidable (c.y ≤ limit ∧ ∃ e ∈ c.expected,
    e.toNat ≠ c.x.toNat * c.y.toNat % 2 ^ 64))

/-- **A case is a mismatch exactly if it is bad.** -/
theorem status_eq_mismatch_iff : (c.outcome limit).status = .mismatch ↔ c.Bad limit := by
  by_cases h : c.y ≤ limit
  · simp only [Bad, h, true_and, ← UInt64.toNat_mul, ne_eq, UInt64.toNat_inj]
    obtain ⟨hmet, ho⟩ | ⟨e, he, hne, ho⟩ := outcome_of_le_cases h
    · rw [ho]
      refine ⟨fun hstatus => absurd hstatus Status.ok_ne_mismatch, ?_⟩
      rintro ⟨e, he, hne⟩
      exact absurd (hmet e he) hne
    · rw [ho]
      exact ⟨fun _ => ⟨e, he, hne⟩, fun _ => rfl⟩
  · rw [outcome_of_lt (UInt64.not_le.mp h)]
    exact ⟨fun hstatus => absurd hstatus Status.skipped_ne_mismatch, fun hbad => absurd hbad.1 h⟩

/-- The status of an outcome is one of three. -/
theorem status_outcome (limit : UInt64) (c : Case) :
    (c.outcome limit).status = .ok ∨ (c.outcome limit).status = .mismatch ∨
      (c.outcome limit).status = .skipped := by
  by_cases h : c.y ≤ limit
  · obtain ⟨-, ho⟩ | ⟨e, -, -, ho⟩ := outcome_of_le_cases h <;> rw [ho]
    · exact Or.inl rfl
    · exact Or.inr (Or.inl rfl)
  · rw [outcome_of_lt (UInt64.not_le.mp h)]
    exact Or.inr (Or.inr rfl)

/-- What a case says is kept by its outcome. -/
theorem operands_outcome (limit : UInt64) (c : Case) :
    (c.outcome limit).x = c.x ∧ (c.outcome limit).y = c.y ∧
      (c.outcome limit).expected = c.expected := by
  by_cases h : c.y ≤ limit
  · rw [outcome_of_le h]
    exact ⟨rfl, rfl, rfl⟩
  · rw [outcome_of_lt (UInt64.not_le.mp h)]
    exact ⟨rfl, rfl, rfl⟩

/-! ## What an outcome says -/

/-- What the outcome of a case under a limit has to say, field by field. -/
structure Judged (limit : UInt64) (c : Case) (o : Outcome) : Prop where
  kept : o.x = c.x ∧ o.y = c.y ∧ o.expected = c.expected
  wrapped_iff : o.wrapped = true ↔ 2 ^ 64 ≤ c.x.toNat * c.y.toNat
  status_cases : o.status = .ok ∨ o.status = .mismatch ∨ o.status = .skipped
  skipped_iff : o.status = .skipped ↔ limit < c.y
  mismatch_iff : o.status = .mismatch ↔ c.Bad limit
  absent : limit < c.y → o.iterative = none ∧ o.recursive = none
  present : c.y ≤ limit →
    ∃ p, o.iterative = some p ∧ o.recursive = some p ∧ p.toNat = c.x.toNat * c.y.toNat % 2 ^ 64
  reason_eq_nil_iff : o.reason = [] ↔ o.status = .ok
  mismatch_reason : o.status = .mismatch →
    ∃ e ∈ c.expected, ∃ p ∈ o.iterative,
      o.reason = Text.lit "expected " ++ Text.decimal e.toNat ++ Text.lit ", got " ++
      Text.decimal p.toNat
  skipped_reason : o.status = .skipped →
    o.reason = Text.lit "multiplier " ++ Text.decimal c.y.toNat ++ Text.lit " over limit "
      ++ Text.decimal limit.toNat ++ Text.lit ": recursion depth exceeded"

theorem mismatchReason_ne_nil (e p : UInt64) : mismatchReason e p ≠ [] := by
  simp [mismatchReason, show Text.lit "expected " ≠ [] by decide]

theorem message_ne_nil (e : DepthExceeded) : e.message ≠ [] := by
  simp [DepthExceeded.message, show Text.lit "multiplier " ≠ [] by decide]

/-- The outcome of a case says what it has to say. -/
theorem judged_outcome (limit : UInt64) (c : Case) : c.Judged limit (c.outcome limit) := by
  have hkept := operands_outcome limit c
  have hstatus := status_outcome limit c
  have hmismatch : (c.outcome limit).status = .mismatch ↔ c.Bad limit := status_eq_mismatch_iff
  by_cases h : c.y ≤ limit
  · have hnot : ¬limit < c.y := UInt64.not_lt.mpr h
    have hproduct : (c.x * c.y).toNat = c.x.toNat * c.y.toNat % 2 ^ 64 := UInt64.toNat_mul ..
    obtain ⟨-, ho⟩ | ⟨e, he, -, ho⟩ := outcome_of_le_cases h
    · rw [ho] at hkept hstatus hmismatch ⊢
      exact
        { kept := hkept, status_cases := hstatus, mismatch_iff := hmismatch
          wrapped_iff := wraps_iff c.x c.y
          skipped_iff := iff_of_false Status.ok_ne_skipped hnot
          absent := fun hlt => absurd hlt hnot
          present := fun _ => ⟨c.x * c.y, rfl, rfl, hproduct⟩
          reason_eq_nil_iff := iff_of_true rfl rfl
          mismatch_reason := fun hs => absurd hs Status.ok_ne_mismatch
          skipped_reason := fun hs => absurd hs Status.ok_ne_skipped }
    · rw [ho] at hkept hstatus hmismatch ⊢
      exact
        { kept := hkept, status_cases := hstatus, mismatch_iff := hmismatch
          wrapped_iff := wraps_iff c.x c.y
          skipped_iff := iff_of_false Status.skipped_ne_mismatch.symm hnot
          absent := fun hlt => absurd hlt hnot
          present := fun _ => ⟨c.x * c.y, rfl, rfl, hproduct⟩
          reason_eq_nil_iff := iff_of_false (mismatchReason_ne_nil e _) Status.ok_ne_mismatch.symm
          mismatch_reason := fun _ => ⟨e, he, c.x * c.y, rfl, rfl⟩
          skipped_reason := fun hs => absurd hs Status.skipped_ne_mismatch.symm }
  · have hlt : limit < c.y := UInt64.not_le.mp h
    rw [outcome_of_lt hlt] at hkept hstatus hmismatch ⊢
    exact
      { kept := hkept, status_cases := hstatus, mismatch_iff := hmismatch
        wrapped_iff := wraps_iff c.x c.y
        skipped_iff := iff_of_true rfl hlt
        absent := fun _ => ⟨rfl, rfl⟩
        present := fun hle => absurd hle h
        reason_eq_nil_iff := iff_of_false (message_ne_nil _) Status.ok_ne_skipped.symm
        mismatch_reason := fun hs => absurd hs Status.skipped_ne_mismatch
        skipped_reason := fun _ => rfl }

/-- An outcome that says all this leaves nothing open. -/
theorem Judged.unique {o o' : Outcome} (ho : c.Judged limit o) (ho' : c.Judged limit o') :
    o = o' := by
  have hwrapped : o.wrapped = o'.wrapped :=
    Bool.eq_iff_iff.mpr (ho.wrapped_iff.trans ho'.wrapped_iff.symm)
  have hproducts : o.iterative = o'.iterative ∧ o.recursive = o'.recursive := by
    by_cases h : c.y ≤ limit
    · obtain ⟨p, hi, hr, hp⟩ := ho.present h
      obtain ⟨p', hi', hr', hp'⟩ := ho'.present h
      obtain rfl : p = p' := UInt64.toNat_inj.mp (hp.trans hp'.symm)
      exact ⟨hi.trans hi'.symm, hr.trans hr'.symm⟩
    · obtain ⟨hi, hr⟩ := ho.absent (UInt64.not_le.mp h)
      obtain ⟨hi', hr'⟩ := ho'.absent (UInt64.not_le.mp h)
      exact ⟨hi.trans hi'.symm, hr.trans hr'.symm⟩
  have hjudgement : o.status = o'.status ∧ o.reason = o'.reason := by
    rcases ho.status_cases with hs | hs | hs
    · have hs' : o'.status = .ok := by
        rcases ho'.status_cases with hs' | hs' | hs'
        · exact hs'
        · have := ho.mismatch_iff.mpr (ho'.mismatch_iff.mp hs')
          exact absurd (hs.symm.trans this) Status.ok_ne_mismatch
        · have := ho.skipped_iff.mpr (ho'.skipped_iff.mp hs')
          exact absurd (hs.symm.trans this) Status.ok_ne_skipped
      exact ⟨hs.trans hs'.symm,
        (ho.reason_eq_nil_iff.mpr hs).trans (ho'.reason_eq_nil_iff.mpr hs').symm⟩
    · have hs' : o'.status = .mismatch := ho'.mismatch_iff.mpr (ho.mismatch_iff.mp hs)
      obtain ⟨e, he, p, hp, hreason⟩ := ho.mismatch_reason hs
      obtain ⟨e', he', p', hp', hreason'⟩ := ho'.mismatch_reason hs'
      obtain rfl : e = e' := Option.mem_unique he he'
      obtain rfl : p = p' := Option.mem_unique (hproducts.1 ▸ hp) hp'
      exact ⟨hs.trans hs'.symm, hreason.trans hreason'.symm⟩
    · have hs' : o'.status = .skipped := ho'.skipped_iff.mpr (ho.skipped_iff.mp hs)
      exact ⟨hs.trans hs'.symm, (ho.skipped_reason hs).trans (ho'.skipped_reason hs').symm⟩
  obtain ⟨hx, hy, hexpected⟩ := ho.kept
  obtain ⟨hx', hy', hexpected'⟩ := ho'.kept
  cases o
  cases o'
  simp_all

/-- No outcome speaks of two products that differ. -/
theorem Judged.not_prefix_reason {o : Outcome} (ho : c.Judged limit o) :
    ¬Text.lit "iterative gave " <+: o.reason := by
  rintro ⟨t, ht⟩
  have hhead : o.reason.head? = some 105 := by
    rw [← ht]
    rfl
  rcases ho.status_cases with hs | hs | hs
  · rw [ho.reason_eq_nil_iff.mpr hs] at hhead
    cases hhead
  · obtain ⟨e, -, p, -, hreason⟩ := ho.mismatch_reason hs
    rw [hreason] at hhead
    cases hhead
  · rw [ho.skipped_reason hs] at hhead
    cases hhead

end Case

/-- **The outcome of a case is the one that its operands, its expected product and the limit ask
for.**  Its evaluation has no fault, and nothing else has to be known to judge a case: the two
methods give one product, and the only thing that can keep a case from being multiplied is a
multiplier over the limit, for which it is skipped. -/
theorem outcome_eq_iff_judged (limit : UInt64) (c : Case) :
    c.evaluate limit = (c.outcome limit, none) ∧
    (∀ o, o = c.outcome limit ↔ c.Judged limit o) ∧
    (∀ e, recursiveWithin limit c.x c.y = .error e ↔ limit < c.y ∧ e = ⟨c.y, limit⟩) ∧
    recursive c.x c.y = iterative c.x c.y ∧
    ¬Text.lit "iterative gave " <+: (c.outcome limit).reason := by
  have hjudged := c.judged_outcome limit
  refine ⟨Prod.ext rfl (Case.evaluate_snd limit c),
    fun o => ⟨fun h => h ▸ hjudged, fun h => h.unique hjudged⟩, fun e => ?_, ?_,
    hjudged.not_prefix_reason⟩
  · rw [recursiveWithin_eq]
    by_cases h : c.y ≤ limit
    · simp [h, UInt64.not_lt.mpr h]
    · simp [h, UInt64.not_le.mp h, eq_comm]
  · rw [recursive_eq_mul, iterative_eq_mul]

end RepeatedAddition
