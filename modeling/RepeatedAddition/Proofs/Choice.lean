import RepeatedAddition.Proofs.PlainNode

/-!
# Choices with one preference

A setting of the schema is a choice: some alternatives without a mark, of which one may say less
than an atom, and one that is preferred.  What is said of the setting elsewhere is tried together
with each of the alternatives.  If the preferred one is among those that hold, it wins; if it is
not, the others are left, and of these only one can hold.

* `Alternatives`: a choice in this form.
* `value_of_choice`: what becomes of such a choice, given what each alternative comes to.
* `Chosen`: the atom that is chosen, given what is said of the setting: the preferred one wherever
  that meets what is said, and what is determined otherwise.
* `settles_evaluate`: a setting comes to the atom that is chosen.
-/

namespace RepeatedAddition
namespace Config

/-! ## Choices with one preference -/

namespace Branch

/-- A combination that is preferred, among others that are passed over, is left as the only
preferred one, or else one of the others that comes to the same. -/
theorem filter_insert_preferred {b : Branch} (hb : b.standing = .preferred) {bs : List Branch}
    (hbs : ∀ c ∈ bs, c.standing = .passedOver) :
    ∃ c, (b.insert bs).filter (·.standing = .preferred) = [c] ∧
      (c.outcome = b.outcome ∨ ∃ d ∈ bs, d.agrees b = true ∧ c.outcome = d.outcome) := by
  induction bs with
  | nil => exact ⟨b, by simp [insert, hb], Or.inl rfl⟩
  | cons d bs ih =>
    have hd : d.standing = .passedOver := hbs d List.mem_cons_self
    have hrest : ∀ c ∈ bs, c.standing = .passedOver := fun c hc => hbs c (List.mem_cons_of_mem d hc)
    rw [insert]
    split
    · next hagrees =>
      have hnone : bs.filter (·.standing = .preferred) = [] := by
        refine List.filter_eq_nil_iff.mpr fun c hc => ?_
        simp [hrest c hc]
      refine ⟨{ d with standing := .preferred }, ?_, Or.inr ⟨d, List.mem_cons_self, hagrees, rfl⟩⟩
      rw [List.filter_cons_of_pos (by simp), hnone]
    · obtain ⟨c, hc, hfrom⟩ := ih hrest
      refine ⟨c, ?_, hfrom.imp_right ?_⟩
      · rw [List.filter_cons_of_neg (by simp [hd]), hc]
      · rintro ⟨d', hd', h⟩
        exact ⟨d', List.mem_cons_of_mem d hd', h⟩

theorem standing_of_mem_insert {b : Branch} (hb : b.standing = .passedOver) {bs : List Branch}
    (hbs : ∀ c ∈ bs, c.standing = .passedOver) : ∀ c ∈ b.insert bs, c.standing = .passedOver := by
  induction bs with
  | nil => exact List.forall_mem_singleton.mpr hb
  | cons d bs ih =>
    have hd : d.standing = .passedOver := hbs d List.mem_cons_self
    have hrest : ∀ c ∈ bs, c.standing = .passedOver := fun c hc => hbs c (List.mem_cons_of_mem d hc)
    rw [insert]
    split
    · rw [if_neg (by simp [hb])]
      exact hbs
    · exact List.forall_mem_cons.mpr ⟨hd, ih hrest⟩

theorem standing_of_mem_foldl {bs init : List Branch} (hbs : ∀ c ∈ bs, c.standing = .passedOver)
    (hinit : ∀ c ∈ init, c.standing = .passedOver) :
    ∀ c ∈ bs.foldl (fun cs b => b.insert cs) init, c.standing = .passedOver := by
  induction bs generalizing init with
  | nil => exact hinit
  | cons b bs ih =>
    exact ih (fun c hc => hbs c (List.mem_cons_of_mem b hc))
      (standing_of_mem_insert (hbs b List.mem_cons_self) hinit)

end Branch

namespace Trial

/-- A trial of an alternative that has a standing and comes to an outcome, on top of facts that no
choice was made for. -/
structure Tries (t : Trial) (standing : Standing) (o : Outcome) : Prop where
  wasPreferred : t.wasPreferred = false
  latest : t.latest = standing
  result : o.value.isFailed = true ∧ (∃ ps, t.result = .error ps) ∨
    o.value.isFailed = false ∧
      ∃ b : Branch, t.result = .ok [b] ∧ b.outcome = o ∧ b.standing = .neutral ∧ b.latest = standing

variable {t : Trial} {standing : Standing} {o : Outcome}

theorem Tries.succeeded_eq (h : t.Tries standing o) : t.succeeded = !o.value.isFailed := by
  rcases h.result with ⟨hfailed, ps, hps⟩ | ⟨hfailed, b, hb, -⟩
  · rw [succeeded, hps, hfailed]
    rfl
  · rw [succeeded, hb, hfailed]
    rfl

/-- What a trial that has succeeded leaves: one combination, that stands as the alternative does if
that counts. -/
theorem Tries.settled_eq (h : t.Tries standing o) (ho : o.value.isFailed = false) (now : Bool) :
    ∃ b : Branch, t.settled false now = [b] ∧ b.outcome = o ∧ b.standing = standing.onlyIf now := by
  rcases h.result with ⟨hfailed, -⟩ | ⟨-, b, hb, hout, hstanding, hlatest⟩
  · rw [hfailed] at ho
    cases ho
  · refine ⟨{ b with standing := (b.standing.onlyIf false).and (b.latest.onlyIf now) },
      ?_, hout, ?_⟩
    · rw [settled, branches, hb]
    · rw [hlatest]
      cases standing <;> cases now <;> rfl

/-- The combinations that are left of trials, each of which leaves at most one. -/
theorem survivors_eq {trials : List Trial} {now : Bool}
    (h : ∀ t ∈ trials, ∃ standing o, t.Tries standing o)
    (hnow : ((trials.filter succeeded).any fun t => t.latest = .preferred) = now) :
    survivors trials =
      ((trials.filter succeeded).flatMap fun t => t.settled false now).foldl
        (fun bs b => b.insert bs) [] := by
  have hbefore : ((trials.filter succeeded).any fun t => t.wasPreferred) = false := by
    refine List.any_eq_false.mpr fun t ht => ?_
    obtain ⟨standing, o, htries⟩ := h t (List.mem_of_mem_filter ht)
    rw [htries.wasPreferred]
    exact Bool.false_ne_true
  have hlengths : (((trials.filter succeeded).map fun t => t.settled false now).any fun bs =>
      1 < bs.length && bs.any (·.standing != .neutral)) = false := by
    refine List.any_eq_false.mpr fun bs hbs => ?_
    obtain ⟨t, ht, rfl⟩ := List.mem_map.mp hbs
    obtain ⟨hmem, hsucceeded⟩ := List.mem_filter.mp ht
    obtain ⟨standing, o, htries⟩ := h t hmem
    rw [htries.succeeded_eq, Bool.not_eq_true'] at hsucceeded
    obtain ⟨b, hb, -⟩ := htries.settled_eq hsucceeded now
    rw [hb]
    simp
  unfold survivors
  dsimp only
  rw [hbefore, hnow, hlengths, List.flatMap]
  rfl

/-- If a preferred alternative succeeds where all others are passed over, just one combination is
preferred: its own, or that of another alternative that comes to the same. -/
theorem exists_preferred {others : List Trial} {IsOutcome : Outcome → Prop} {t : Trial}
    {o : Outcome} (hothers : ∀ t ∈ others, ∃ o', IsOutcome o' ∧ t.Tries .passedOver o')
    (ht : t.Tries .preferred o) (ho : o.value.isFailed = false) :
    ∃ c, (survivors (others ++ [t])).filter (·.standing = .preferred) = [c] ∧
      (c.outcome = o ∨ IsOutcome c.outcome ∧ c.outcome.value.isFailed = false ∧
        c.outcome.value.agrees o.value = true) := by
  have hsucceeded : t.succeeded = true := by rw [ht.succeeded_eq, ho]; rfl
  have hleft : (others ++ [t]).filter succeeded = others.filter succeeded ++ [t] := by
    rw [List.filter_append, List.filter_cons_of_pos hsucceeded, List.filter_nil]
  have htrials : ∀ t' ∈ others ++ [t], ∃ standing o, t'.Tries standing o := by
    intro t' ht'
    rcases List.mem_append.mp ht' with hmem | hmem
    · obtain ⟨o', -, ho'⟩ := hothers t' hmem
      exact ⟨_, o', ho'⟩
    · exact ⟨_, _, List.mem_singleton.mp hmem ▸ ht⟩
  have hnow : (((others ++ [t]).filter succeeded).any fun t => t.latest = .preferred) = true := by
    rw [hleft, List.any_append, List.any_cons, decide_eq_true ht.latest, Bool.true_or, Bool.or_true]
  -- what the other alternatives leave is passed over
  have hpassed : ∀ b ∈ (others.filter succeeded).flatMap fun t => t.settled false true,
      b.standing = .passedOver ∧ IsOutcome b.outcome ∧ b.outcome.value.isFailed = false := by
    intro b hb
    obtain ⟨t', ht', hmem⟩ := List.mem_flatMap.mp hb
    obtain ⟨hmem', hsucceeded'⟩ := List.mem_filter.mp ht'
    obtain ⟨o', his, ho'⟩ := hothers t' hmem'
    rw [ho'.succeeded_eq, Bool.not_eq_true'] at hsucceeded'
    obtain ⟨b', hb', hout, hstanding⟩ := ho'.settled_eq hsucceeded' true
    obtain rfl := List.mem_singleton.mp (hb' ▸ hmem)
    exact ⟨hstanding, hout ▸ his, hout ▸ hsucceeded'⟩
  obtain ⟨b, hb, hout, hstanding⟩ := ht.settled_eq ho true
  rw [survivors_eq htrials hnow, hleft, List.flatMap_append, List.foldl_append,
    List.flatMap_singleton, hb]
  obtain ⟨c, hc, hfrom⟩ := Branch.filter_insert_preferred hstanding
    (Branch.standing_of_mem_foldl (fun b hb => (hpassed b hb).1) (List.forall_mem_nil _))
  refine ⟨c, hc, hfrom.imp (fun h => h.trans hout) ?_⟩
  rintro ⟨d, hd, hagrees, hcd⟩
  obtain ⟨d', hd', hsame⟩ := Branch.same_of_mem_foldl hd
  rw [List.nil_append] at hd'
  obtain ⟨-, his, hsucceeded'⟩ := hpassed d' hd'
  have hcd' : c.outcome = d'.outcome := hcd.trans hsame.outcome
  rw [Branch.agrees, ← hcd, hout] at hagrees
  exact ⟨hcd' ▸ his, hcd' ▸ hsucceeded', (Bool.and_eq_true_iff.mp hagrees).2⟩

/-- If the preferred alternative fails, and at most one other succeeds, that one is left. -/
theorem survivors_of_failed {others : List Trial} {t : Trial} {o : Outcome}
    (hothers : ∀ t ∈ others, ∃ o', t.Tries .passedOver o') (ht : t.Tries .preferred o)
    (ho : o.value.isFailed = true) :
    survivors (others ++ [t]) =
      ((others.filter succeeded).flatMap fun t => t.settled false false).foldl
        (fun bs b => b.insert bs) [] := by
  have hsucceeded : t.succeeded = false := by rw [ht.succeeded_eq, ho]; rfl
  have hleft : (others ++ [t]).filter succeeded = others.filter succeeded := by
    rw [List.filter_append, List.filter_cons_of_neg (by simp [hsucceeded]), List.filter_nil,
      List.append_nil]
  have htrials : ∀ t' ∈ others ++ [t], ∃ standing o, t'.Tries standing o := by
    intro t' ht'
    rcases List.mem_append.mp ht' with hmem | hmem
    · exact ⟨_, hothers t' hmem⟩
    · exact ⟨_, _, List.mem_singleton.mp hmem ▸ ht⟩
  have hnow : (((others ++ [t]).filter succeeded).any fun t => t.latest = .preferred) = false := by
    rw [hleft]
    refine List.any_eq_false.mpr fun t' ht' => ?_
    obtain ⟨o', ho'⟩ := hothers t' (List.mem_of_mem_filter ht')
    simp [ho'.latest]
  rw [survivors_eq htrials hnow, hleft]

end Trial

/-- The alternatives of a choice between two things: the preferred one, stated last with its mark,
one other, and maybe the preferred one again without a mark. -/
structure Alternatives where
  before : List Conjunct := []
  other : Conjunct
  after : List Conjunct := []
  preferred : Conjunct

namespace Alternatives

/-- The alternatives without a mark. -/
def unmarked (as : Alternatives) : List Conjunct := as.before ++ as.other :: as.after

/-- The alternatives as a choice. -/
def choice (as : Alternatives) : Choice :=
  ⟨as.unmarked.map (Prod.mk false) ++ [(true, as.preferred)]⟩

/-- All alternatives. -/
def all (as : Alternatives) : List Conjunct := as.unmarked ++ [as.preferred]

/-- The alternatives that say what is preferred. -/
def same (as : Alternatives) : List Conjunct := as.before ++ as.after ++ [as.preferred]

theorem mem_all_of_same {as : Alternatives} {c : Conjunct} (h : c ∈ as.same) : c ∈ as.all := by
  simp only [same, all, unmarked, List.mem_append, List.mem_cons] at h ⊢
  tauto

theorem other_mem_all (as : Alternatives) : as.other ∈ as.all := by simp [all, unmarked]

theorem preferred_mem_same (as : Alternatives) : as.preferred ∈ as.same := by simp [same]

end Alternatives

section Rounds

variable {known : Option Node} {path : List Text} {address : Address}

/-- The node of facts before any choice is made. -/
def bareBranch (facts : List Fact) (o : Outcome) : Branch :=
  ⟨[], { facts := facts }, .neutral, .neutral, o⟩

/-- Trying an alternative without choices of its own: its facts are added to those that are
there. -/
theorem tries_attempt {n index : Nat} {facts more : List Fact} {o : Outcome} {standing : Standing}
    {c : Conjunct} (hmore : expand n known path address [index] [] [c] = { facts := more }) :
    (attempt (n + 1) known path address (bareBranch facts o) index standing c).Tries standing
      (meet n known path address [index] { facts := facts ++ more }) := by
  have hexpand : expand n known path address ((bareBranch facts o).chosen ++ [index])
      (bareBranch facts o).expansion.uses [c] = { facts := more } := hmore
  rw [attempt]
  dsimp only
  rw [hexpand]
  have hfacts :
      ({ (bareBranch facts o).expansion.append { facts := more } with choices := [], uses := [] } :
        Expansion) = { facts := facts ++ more } := rfl
  rw [hfacts]
  dsimp only
  refine ⟨rfl, rfl, ?_⟩
  cases hfailed : (meet n known path address [index] { facts := facts ++ more }).value.isFailed with
  | true => exact Or.inl ⟨rfl, _, if_pos hfailed⟩
  | false =>
    exact Or.inr ⟨rfl, _, if_neg fun h => Bool.false_ne_true (hfailed.symm.trans h), rfl, rfl, rfl⟩

/-- The trials of a choice that is made first. -/
def trialsOf (n : Nat) (known : Option Node) (path : List Text) (address : Address) (base : Branch)
    (choice : Choice) :
    List Trial :=
  choice.alternatives.zipIdx.map fun ((mark, c), i) =>
    attempt n known path address base i (.ofMark (choice.alternatives.any Prod.fst) mark) c

theorem choose_nil (n : Nat) (plain : List Problem) (bs : List Branch) :
    choose n known path address plain bs [] = (.ok bs, []) := by
  cases n <;> rw [choose]

/-- Making a single choice leaves the combinations that survive it. -/
theorem choose_single (n : Nat) (plain : List Problem) (base : Branch) (choice : Choice) :
    (Trial.survivors (trialsOf n known path address base choice) = [] ∧
      ∃ ps, (choose (n + 1) known path address plain [base] [choice]).1 = .error ps) ∨
    (Trial.survivors (trialsOf n known path address base choice) ≠ [] ∧
      (choose (n + 1) known path address plain [base] [choice]).1 =
        .ok (Trial.survivors (trialsOf n known path address base choice))) := by
  rw [choose]
  simp only [List.flatMap_singleton]
  rw [← trialsOf]
  cases hleft : Trial.survivors (trialsOf n known path address base choice) with
  | nil => exact Or.inl ⟨rfl, _, rfl⟩
  | cons b bs =>
    dsimp only
    rw [choose_nil]
    exact Or.inr ⟨List.cons_ne_nil _ _, rfl⟩

/-- What the combinations that choices leave come to: the only one, the only preferred one, or
something ambiguous. -/
def decided : Except (List Problem) (List Branch) → Value × List Nat
  | .error ps => (.failed ps ps, [])
  | .ok [b] => (b.outcome.value, b.chosen)
  | .ok bs =>
    match bs.filter (·.standing = .preferred) with
    | [b] => (b.outcome.value, b.chosen)
    | [] => (.ambiguous (bs.map (·.outcome.value)), [])
    | preferred => (.ambiguous (preferred.map (·.outcome.value)), [])

/-- The value of a node with one choice, as far as the combinations that are left determine it. -/
theorem value_evaluate_of_choice {n : Nat} {cs : List Conjunct} {facts : List Fact}
    {choice : Choice}
    (hwhole : expand (n + 1) known path address [] [] cs =
      { facts := facts, choices := [choice] }) :
    ∃ o, (Trial.survivors (trialsOf n known path address (bareBranch facts o) choice) = [] →
        (evaluate (n + 2) known path address cs).value.isFailed = true) ∧
      ∀ b, Trial.survivors (trialsOf n known path address (bareBranch facts o) choice) = [b] ∨
          (Trial.survivors (trialsOf n known path address (bareBranch facts o) choice)).filter
            (·.standing = .preferred) = [b] →
        (evaluate (n + 2) known path address cs).value = b.outcome.value := by
  refine ⟨meet (n + 1) known path address [] { facts := facts, choices := [choice] }, ?_⟩
  set o := meet (n + 1) known path address [] { facts := facts, choices := [choice] } with ho
  have hvalue : (evaluate (n + 2) known path address cs).value =
      (decided (choose (n + 1) known path address o.value.brief [bareBranch facts o]
        [choice]).1).1 := by
    rw [evaluate]
    dsimp only
    rw [hwhole]
    rfl
  rw [hvalue]
  rcases choose_single n o.value.brief (bareBranch facts o) choice
    with ⟨hnone, ps, hps⟩ | ⟨hsome, hleft⟩
  · rw [hps, hnone]
    exact ⟨fun _ => rfl, fun b hb => by simp at hb⟩
  · rw [hleft]
    refine ⟨fun hnone => absurd hnone hsome, ?_⟩
    cases hsurvivors :
      Trial.survivors (trialsOf n known path address (bareBranch facts o) choice) with
    | nil => exact absurd hsurvivors hsome
    | cons b bs =>
      intro c hc
      cases bs with
      | nil =>
        have hbc : b = c := by
          rcases hc with hc | hc
          · exact (List.cons.inj hc).1
          · exact (List.mem_singleton.mp
              (List.mem_of_mem_filter (hc ▸ List.mem_singleton_self c))).symm
        rw [hbc, decided]
      | cons b' bs =>
        have hpreferred := hc.resolve_left (by simp)
        dsimp only [decided]
        rw [hpreferred]

/-- What a choice comes to, with its alternatives numbered and only the last preferred, if `outcome`
is what each alternative comes to by itself.  A preferred alternative that holds decides, up to
another one that comes to the same.  If it fails, and all others but one do, then that one
decides. -/
theorem value_of_choice {n : Nat} {cs : List Conjunct} {facts : List Fact} {as : Alternatives}
    (hwhole : expand (n + 2) known path address [] [] cs =
      { facts := facts, choices := [as.choice] })
    (outcome : Nat → Conjunct → Outcome)
    (htries : ∀ o standing, ∀ c ∈ as.all, ∀ i,
      (attempt (n + 1) known path address (bareBranch facts o) i standing c).Tries standing
      (outcome i c)) :
    ((outcome as.unmarked.length as.preferred).value.isFailed = false →
      ∃ o, (evaluate (n + 3) known path address cs).value = o.value ∧
        (o = outcome as.unmarked.length as.preferred ∨
          ∃ i, ∃ c ∈ as.unmarked, o = outcome i c ∧ o.value.isFailed = false ∧
            o.value.agrees (outcome as.unmarked.length as.preferred).value = true)) ∧
    ((outcome as.unmarked.length as.preferred).value.isFailed = true →
      (∀ i, ∀ c ∈ as.before ++ as.after, (outcome i c).value.isFailed = true) →
      (evaluate (n + 3) known path address cs).value = (outcome as.before.length as.other).value ∨
        (evaluate (n + 3) known path address cs).value.isFailed = true ∧
          (outcome as.before.length as.other).value.isFailed = true) := by
  obtain ⟨o, hnone, hvalue⟩ := value_evaluate_of_choice hwhole
  set trial : Conjunct × Nat → Trial := fun (c, i) =>
    attempt (n + 1) known path address (bareBranch facts o) i .passedOver c with htrial
  set last :=
    attempt (n + 1) known path address (bareBranch facts o) as.unmarked.length .preferred
      as.preferred with hlast
  have htrials : trialsOf (n + 1) known path address (bareBranch facts o) as.choice =
      as.unmarked.zipIdx.map trial ++ [last] := by
    have hmarked : as.choice.alternatives.any Prod.fst = true := by simp [Alternatives.choice]
    rw [trialsOf, hmarked, Alternatives.choice, List.zipIdx_append, List.map_append,
      List.zipIdx_map, List.map_map]
    simp [htrial, hlast, Standing.ofMark, Function.comp_def]
  rw [htrials] at hnone hvalue
  have hlastTries : last.Tries .preferred (outcome as.unmarked.length as.preferred) :=
    htries o _ _ (Alternatives.mem_all_of_same as.preferred_mem_same) _
  have hothersTries (IsOutcome : Outcome → Prop) (h : ∀ i, ∀ c ∈ as.unmarked,
      IsOutcome (outcome i c)) : ∀ t ∈ as.unmarked.zipIdx.map trial, ∃ o', IsOutcome o' ∧
        t.Tries .passedOver o' := by
    intro t ht
    obtain ⟨⟨c, i⟩, hmem, rfl⟩ := List.mem_map.mp ht
    have hc : c ∈ as.unmarked := (List.mem_zipIdx' hmem).2 ▸ List.getElem_mem _
    exact ⟨_, h i c hc, htries o _ c (List.mem_append_left _ hc) i⟩
  refine ⟨fun hpreferred => ?_, fun hfailed hothers => ?_⟩
  · obtain ⟨b, hb, hfrom⟩ := Trial.exists_preferred
      (hothersTries (fun o => ∃ i, ∃ c ∈ as.unmarked, o = outcome i c) fun i c hc =>
        ⟨i, c, hc, rfl⟩)
      hlastTries hpreferred
    refine ⟨b.outcome, hvalue b (Or.inr hb), hfrom.imp_right ?_⟩
    rintro ⟨⟨i, c, hc, hbo⟩, hsucceeded, hagrees⟩
    exact ⟨i, c, hc, hbo, hsucceeded, hagrees⟩
  · have hotherTries :
        (trial (as.other, as.before.length)).Tries .passedOver
        (outcome as.before.length as.other) :=
      htries o _ _ as.other_mem_all _
    -- of the alternatives without a mark only the one can be left
    have hdropped (others : List Conjunct) (start : Nat) (h : ∀ c ∈ others, c ∈ as.before ++
        as.after) : ((others.zipIdx start).map trial).filter Trial.succeeded = [] := by
      refine List.filter_eq_nil_iff.mpr fun t ht => ?_
      obtain ⟨⟨c, i⟩, hmem, rfl⟩ := List.mem_map.mp ht
      obtain ⟨-, -, hget⟩ := List.mem_zipIdx hmem
      have hc : c ∈ as.before ++ as.after := h c (hget ▸ List.getElem_mem _)
      have hall : c ∈ as.all := Alternatives.mem_all_of_same (List.mem_append_left _ hc)
      rw [(htries o .passedOver c hall i).succeeded_eq, hothers i c hc]
      exact Bool.false_ne_true
    have hleft : (as.unmarked.zipIdx.map trial).filter Trial.succeeded =
        [trial (as.other, as.before.length)].filter Trial.succeeded := by
      rw [Alternatives.unmarked, List.zipIdx_append, List.map_append, List.filter_append,
        hdropped as.before _ fun c hc =>
          List.mem_append_left _ hc, List.zipIdx_cons, List.map_cons, List.filter_cons,
        hdropped as.after _ fun c hc =>
          List.mem_append_right _ hc, List.nil_append, List.filter_cons, List.filter_nil,
        Nat.zero_add]
    have hsurvivors := Trial.survivors_of_failed (fun t ht =>
      (hothersTries (fun _ => True) (fun _ _ _ => trivial) t ht).imp fun _ h =>
        h.2) hlastTries hfailed
    rw [hleft] at hsurvivors
    cases hcase : (outcome as.before.length as.other).value.isFailed with
    | true =>
      rw [List.filter_cons_of_neg
        (by rw [hotherTries.succeeded_eq, hcase]; exact Bool.false_ne_true)] at hsurvivors
      exact Or.inr ⟨hnone hsurvivors, rfl⟩
    | false =>
      rw [List.filter_cons_of_pos (by rw [hotherTries.succeeded_eq, hcase]; rfl), List.filter_nil,
        List.flatMap_singleton] at hsurvivors
      obtain ⟨b, hb, hout, -⟩ := hotherTries.settled_eq hcase false
      rw [hb] at hsurvivors
      exact Or.inl ((hvalue b (Or.inl hsurvivors)).trans (congrArg Outcome.value hout))

end Rounds

/-! ## Settings -/

/-- What demands on top of a choice determine: the preferred atom if it meets them, and otherwise
what they determine together with those of the other alternative. -/
def Chosen (other : Set Demand) (preferred : Atom) (said : Set Demand) (a : Atom) : Prop :=
  (∀ d ∈ said, d.MetBy preferred) ∧ a = preferred ∨ ¬(∀ d ∈ said, d.MetBy preferred) ∧
    Determined (said ∪ other) a

/-- A value is the atom that a condition determines, or there is none and the value has failed or is
left open. -/
def Settles (v : Value) (IsIt : Atom → Prop) : Prop :=
  (∃ a p, v = .atom a p ∧ IsIt a) ∨ (¬∃ a, IsIt a) ∧
    (v.isFailed = true ∨ ∃ t ks ps, v = .vague t ks ps)

theorem Resolves.settles {v : Value} {demands : Set Demand} (h : Resolves v demands) :
    Settles v (Determined demands) :=
  h.imp_right fun ⟨hnone, hv⟩ => ⟨hnone, hv.imp_right fun hv => hv.2⟩

/-- Demands of which one is an atom are met, or their value has failed. -/
theorem Resolves.isFailed {v : Value} {demands : Set Demand} (h : Resolves v demands) {a : Atom}
    (ha : Demand.atom a ∈ demands) (hnone : ¬∃ a, Determined demands a) : v.isFailed = true := by
  rcases h with ⟨b, p, -, hb⟩ | ⟨-, hfailed | ⟨hopen, -⟩⟩
  · exact absurd ⟨b, hb⟩ hnone
  · exact hfailed
  · exact absurd ha (hopen a)

theorem demandsOf_append (fs gs : List Fact) :
    demandsOf ((fs ++ gs).filterMap Fact.constraint?) =
      demandsOf (fs.filterMap Fact.constraint?) ∪ demandsOf (gs.filterMap Fact.constraint?) := by
  ext x
  simp only [Set.mem_union, Expansion.mem_demandsOf, List.mem_append, or_and_right, exists_or]

theorem saidBy_singleton (c : Conjunct) : saidBy [c] = {d | d ∈ c.expr.demands} := by
  ext x
  simp [saidBy]

section Rounds

variable {path : List Text} {address : Address}

/-- A choice on top of conjuncts leaves their facts as they are. -/
theorem expand_of_choice (known : Option Node) {e : Expr} {context : Context} {choice : Choice}
  {cs : List Conjunct}
    (hparts : e.parts path (address ++ [.branch []]) context = { choices := [choice] })
    (htasks : ∀ t ∈ (direct path (address ++ [.branch []]) cs).tasks, t.fact?.isSome = true)
    (hchoices : (direct path (address ++ [.branch []]) cs).choices = [])
    (hclosures : (direct path (address ++ [.branch []]) cs).closures = [])
    {n : Nat} (hn : (direct path (address ++ [.branch []]) cs).tasks.length + 5 ≤ n) :
    expand n known path address [] [] (⟨e, context⟩ :: cs) =
      { facts := (direct path (address ++ [.branch []]) cs).settled, choices := [choice] } := by
  have hdirect : direct path (address ++ [.branch []]) (⟨e, context⟩ :: cs) =
      { direct path (address ++ [.branch []]) cs with
        choices := [choice]
        uses := (direct path (address ++ [.branch []]) cs).uses } := by
    rw [direct_cons, Conjunct.parts, hparts]
    simp [Expansion.append, hchoices]
  rw [expand_of_facts known address [] hdirect htasks hn]
  simp [Expansion.settled, hclosures]

/-- **A setting comes to what its restrictions determine on top of its choice.**  The alternatives
are restrictions, and all but one are the literal that is preferred. -/
theorem settles_evaluate (known : Option Node) {e : Expr} {context : Context} {as : Alternatives}
  {cs : List Conjunct}
    {d : Atom} (hparts : e.parts path (address ++ [.branch []]) context =
      { choices := [as.choice] })
    (halternatives : ∀ c ∈ as.all, c.isPlain = true) (hkind : d.kind ≠ .float)
    (hsame : ∀ c ∈ as.same, c.expr.demands = [.atom d]) (hplain : ∀ c ∈ cs,
      c.isPlain = true) {n : Nat}
    (hn : sizeOfConjuncts cs + 8 ≤ n) (hsize : ∀ c ∈ as.all, c.expr.size + 8 ≤ n) :
    Settles (evaluate n known path address (⟨e, context⟩ :: cs)).value
      (Chosen {x | x ∈ as.other.expr.demands} d (saidBy cs)) := by
  obtain ⟨k, rfl⟩ := Nat.exists_eq_add_of_le' (show 3 ≤ n by omega)
  obtain ⟨hasks, hlength⟩ := asks_direct path (address ++ [.branch []]) hplain
  have hwhole :=
    expand_of_choice known hparts hasks.tasks hasks.choices hasks.closures (n := k + 2) (by omega)
  set facts := (direct path (address ++ [.branch []]) cs).settled with hfacts
  -- what an alternative comes to on top of the facts
  set outcome : Nat → Conjunct → Outcome := fun i c => meet k known path address [i]
    { facts := facts ++ (direct path (address ++ [.branch [i]]) [c]).settled } with houtcome
  have hone (c : Conjunct) (hc : c ∈ as.all) (i : Nat) :
      (direct path (address ++ [.branch [i]]) [c]).Asks (saidBy [c]) ∧
        (direct path (address ++ [.branch [i]]) [c]).tasks.length ≤ c.expr.size :=
    asks_direct path _ (List.forall_mem_singleton.mpr (halternatives c hc))
  have htries (o : Outcome) (standing : Standing) (c : Conjunct) (hc : c ∈ as.all) (i : Nat) :
      (attempt (k + 1) known path address (bareBranch facts o) i standing c).Tries standing
      (outcome i c) := by
    obtain ⟨hc', hlength'⟩ := hone c hc i
    apply tries_attempt
    rw [expand_of_facts known address [] rfl hc'.tasks (by have := hsize c hc; omega), hc'.choices,
      hc'.closures]
  have hresolves (c : Conjunct) (hc : c ∈ as.all) (i : Nat) :
      Resolves (outcome i c).value (saidBy cs ∪ {x | x ∈ c.expr.demands}) := by
    obtain ⟨hc', -⟩ := hone c hc i
    obtain ⟨m, rfl⟩ := Nat.exists_eq_add_of_le' (show 1 ≤ k by omega)
    rw [← saidBy_singleton]
    refine resolves_meet (fun f hf => ?_) ?_ (fun x hx => ?_) m [i]
    · exact (List.mem_append.mp hf).elim (hasks.facts f) (hc'.facts f)
    · rw [demandsOf_append, hasks.demands, hc'.demands]
    · exact hx.elim (isPlain_of_mem_saidBy hplain x)
        (isPlain_of_mem_saidBy (List.forall_mem_singleton.mpr (halternatives c hc)) x)
  have hliteral (c : Conjunct) (hc : c ∈ as.same) :
      {x | x ∈ c.expr.demands} = ({.atom d} : Set Demand) := by
    ext x
    simp [hsame c hc]
  obtain ⟨hgood, hbad⟩ := value_of_choice hwhole outcome htries
  have hplainAt (c : Conjunct) (hc : c ∈ as.all) :
      ∀ x ∈ saidBy cs ∪ {x | x ∈ c.expr.demands}, x.IsPlain := fun x hx =>
    hx.elim (isPlain_of_mem_saidBy hplain x) (Expr.isPlain_of_mem_demands _ (halternatives c hc) x)
  have hpreferred : as.preferred ∈ as.all := Alternatives.mem_all_of_same as.preferred_mem_same
  by_cases hmet : ∀ x ∈ saidBy cs, x.MetBy d
  · -- the preferred alternative holds
    have hdPlain : d.isPlain = true :=
      hplainAt as.preferred hpreferred (.atom d)
        (by rw [hliteral _ as.preferred_mem_same]; exact Or.inr rfl)
    have heq {c : Conjunct} (hc : c ∈ as.all) {b : Atom} (hagrees : d.agrees b = true)
        (hb : Determined (saidBy cs ∪ {x | x ∈ c.expr.demands}) b) : b = d :=
      (Atom.eq_of_agrees hdPlain (hplainAt c hc _ hb.1) hkind hagrees).symm
    have hresolved := hresolves as.preferred hpreferred as.unmarked.length
    rw [hliteral _ as.preferred_mem_same] at hresolved
    obtain ⟨a, p, hatom, ha⟩ := hresolved.resolve_right fun h =>
      h.1 (exists_determined_iff.mpr hmet)
    have hda : d.agrees a = true := ha.2 (.atom d) (Or.inr rfl)
    obtain ⟨o, ho, hfrom⟩ := hgood (by rw [hatom]; rfl)
    rw [ho]
    rcases hfrom with rfl | ⟨i, c, hc, rfl, hsucceeded, hagrees⟩
    · exact Or.inl ⟨a, p, hatom,
        Or.inl ⟨hmet, heq hpreferred hda (by rw [hliteral _ as.preferred_mem_same]; exact ha)⟩⟩
    · -- another alternative came to the same
      rw [hatom] at hagrees
      rcases hresolves c (List.mem_append_left _ hc) i with ⟨b, q, hb, hdet⟩ | ⟨-,
        hv | ⟨-, t, ks, ps, hv⟩⟩
      · rw [hb] at hagrees
        have hdb : d.agrees b = true := Atom.agrees_trans hda (Atom.agrees_symm hagrees)
        exact Or.inl ⟨b, q, hb, Or.inl ⟨hmet, heq (List.mem_append_left _ hc) hdb hdet⟩⟩
      · rw [hv] at hsucceeded
        cases hsucceeded
      · rw [hv] at hagrees
        cases hagrees
  · -- all alternatives but the one ask for the same literal, and fail
    have hfailed (c : Conjunct) (hc : c ∈ as.same) (i : Nat) :
        (outcome i c).value.isFailed = true := by
      have hresolved := hresolves c (Alternatives.mem_all_of_same hc) i
      rw [hliteral c hc] at hresolved
      exact hresolved.isFailed (Or.inr rfl) fun h => hmet (exists_determined_iff.mp h)
    have hchosen (a : Atom) : Chosen {x | x ∈ as.other.expr.demands} d (saidBy cs) a ↔
        Determined (saidBy cs ∪ {x | x ∈ as.other.expr.demands}) a :=
      ⟨fun h => h.elim (fun h => absurd h.1 hmet) fun h => h.2, fun h => Or.inr ⟨hmet, h⟩⟩
    simp only [Settles, hchosen]
    have hother := hresolves as.other as.other_mem_all as.before.length
    rcases hbad (hfailed _ as.preferred_mem_same _) fun i c hc =>
      hfailed c (List.mem_append_left _ hc) i with
      hv | ⟨hv, hv'⟩
    · rw [hv]
      exact hother.settles
    · refine Or.inr ⟨?_, Or.inl hv⟩
      rcases hother with ⟨b, p, hb, -⟩ | ⟨hopen, -⟩
      · rw [hb] at hv'
        cases hv'
      · exact hopen

end Rounds

end Config
end RepeatedAddition
