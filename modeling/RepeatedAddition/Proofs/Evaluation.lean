import RepeatedAddition.Config.Evaluation
import RepeatedAddition.Proofs.Constraint

/-!
# Evaluation keeps every conjunct

Names, tasks and choices stand between the conjuncts of a node and its value, and a round knows only
what the round before has found.  Still, no conjunct gets lost on the way: if the value is an atom,
it is one that each conjunct admits, and a member of a struct is evaluated from all that the structs
of its node say of it.

What an expression admits (`Expr.Admits`) is said by the expression alone.  A name that is bound, an
operation and a limit by anything but a literal are not looked into, so a statement about an atom
says nothing about them.  A failure is met by no atom, nor is a task that there was no room for;
therefore neither needs a hypothesis.

The proofs follow the three steps of a round.  `admits_of_expand` is about expansion,
`admits_of_meet` about facts, and `choicesMade` about choices: every combination that is left is an
attempt on top of one that was left before.

* `admits_of_evaluate`: an atom is one that all conjuncts of its node admit.
* `member_of_evaluate`: the conjuncts of a member.
-/

namespace RepeatedAddition
namespace Config

/-! ## What expressions ask for -/

/-- An atom keeps a limit by an operand, if that is a literal. -/
def Expr.KeptBy (a : Atom) (bound : Bound) : Expr → Prop
  | .literal _ l => (Demand.limit bound l).Admits a
  | _ => True

/-- An atom is one that an expression admits, inside or outside of a choice.  Only what the
expression says by itself counts: what a bound name stands for, or what an operation gives, is not
looked into. -/
def Expr.Admits (context : Context) (a : Atom) (inChoice : Bool) : Expr → Prop
  | .literal _ b => b.agrees a = true
  | .bottom _ => False
  | .name _ n =>
    context.scopeOf? n = none → ∀ t, Predeclared.find? n = some t → (Demand.type t).Admits a
  | .limit _ bound operand => operand.KeptBy a bound
  | .group _ e => e.Admits context a false
  | .meet l r => l.Admits context a false ∧ r.Admits context a false
  | .either l r => l.Admits context a true ∨ r.Admits context a true
  | .preferred _ e => inChoice = true → e.Admits context a true
  | _ => True

/-- An atom is one that a conjunct admits. -/
def Conjunct.Admits (a : Atom) (c : Conjunct) : Prop := c.expr.Admits c.context a false

/-- An atom is one that an alternative of a choice admits. -/
def Choice.Admits (a : Atom) (choice : Choice) : Prop :=
  ∃ alternative ∈ choice.alternatives, alternative.2.Admits a

/-- An atom meets a fact.  A failure is met by none, nor is an operand that is missing. -/
structure Fact.Admits (a : Atom) (f : Fact) : Prop where
  constraint : ∀ c ∈ f.constraint?, c.demand.Admits a
  problems : f.problems = []
  gap : f.gap? = none

/-- An atom meets what can be said of a task before it is done: a limit by a literal. -/
def Conjunct.TaskAdmits (a : Atom) (task : Conjunct) : Prop :=
  match task.expr with
  | .limit _ bound operand => operand.KeptBy a bound
  | _ => True

/-- An atom meets everything that a node comes apart into. -/
structure Expansion.Admits (a : Atom) (e : Expansion) : Prop where
  facts : ∀ f ∈ e.facts, f.Admits a
  tasks : ∀ t ∈ e.tasks, t.TaskAdmits a
  choices : ∀ c ∈ e.choices, c.Admits a

variable {a : Atom}

theorem Fact.not_admits_failure {ps : List Problem} (h : ps ≠ []) : ¬(Fact.failure ps).Admits a :=
  fun hadmits => h hadmits.problems

theorem endless_ne_nil (path : List Text) : endless path ≠ [] := List.cons_ne_nil _ _

namespace Expansion

theorem admits_append {d e : Expansion} : (d.append e).Admits a ↔ d.Admits a ∧ e.Admits a := by
  constructor
  · intro h
    refine ⟨⟨fun f hf => ?_, fun t ht => ?_, fun c hc => ?_⟩,
      ⟨fun f hf => ?_, fun t ht => ?_, fun c hc => ?_⟩⟩
    · exact h.facts f (List.mem_append_left _ hf)
    · exact h.tasks t (List.mem_append_left _ ht)
    · exact h.choices c (List.mem_append_left _ hc)
    · exact h.facts f (List.mem_append_right _ hf)
    · exact h.tasks t (List.mem_append_right _ ht)
    · exact h.choices c (List.mem_append_right _ hc)
  · rintro ⟨hd, he⟩
    refine ⟨fun f hf => ?_, fun t ht => ?_, fun c hc => ?_⟩
    · exact (List.mem_append.mp hf).elim (hd.facts f) (he.facts f)
    · exact (List.mem_append.mp ht).elim (hd.tasks t) (he.tasks t)
    · exact (List.mem_append.mp hc).elim (hd.choices c) (he.choices c)

theorem admits_concat {es : List Expansion} (h : (concat es).Admits a) : ∀ e ∈ es, e.Admits a := by
  induction es with
  | nil => exact fun _ => nofun
  | cons e es ih =>
    have hparts := admits_append.mp h
    exact List.forall_mem_cons.mpr ⟨hparts.1, ih hparts.2⟩

end Expansion

/-! ## Expressions come apart -/

theorem Expr.admits_of_alternative {context : Context} {marked : Bool} (e : Expr)
    (h : ∃ p ∈ e.alternatives marked, p.2.Admits context a false) : e.Admits context a true := by
  match e with
  | .either l r =>
    obtain ⟨p, hp, hadmits⟩ := h
    rcases List.mem_append.mp hp with hl | hr
    · exact Or.inl (admits_of_alternative l ⟨p, hl, hadmits⟩)
    · exact Or.inr (admits_of_alternative r ⟨p, hr, hadmits⟩)
  | .preferred _ e => exact fun _ => admits_of_alternative e h
  | .literal .. | .faulty .. | .top .. | .bottom .. | .name .. | .select .. | .group .. | .signed ..
  | .arithmetic ..
  | .limit .. | .meet .. | .struct .. | .list .. =>
    obtain ⟨p, hp, hadmits⟩ := h
    obtain rfl := List.mem_singleton.mp hp
    exact hadmits
termination_by structural e

theorem Expr.admits_of_parts {path : List Text} {address : Address} {context : Context} (e : Expr)
    (h : (e.parts path address context).Admits a) : e.Admits context a false := by
  match e with
  | .literal p b => exact (h.facts _ List.mem_cons_self).constraint _ rfl
  | .bottom p =>
    exact absurd (h.facts _ List.mem_cons_self) (Fact.not_admits_failure (List.cons_ne_nil _ _))
  | .name p n =>
    intro hscope t ht
    rw [Expr.parts, hscope, ht] at h
    exact (h.facts _ List.mem_cons_self).constraint _ rfl
  | .limit p bound operand => exact h.tasks _ List.mem_cons_self
  | .group _ e => exact admits_of_parts e h
  | .meet l r =>
    have hparts := Expansion.admits_append.mp h
    exact ⟨admits_of_parts l hparts.1, admits_of_parts r hparts.2⟩
  | .either l r =>
    obtain ⟨alternative, hmem, hadmits⟩ := h.choices _ List.mem_cons_self
    obtain ⟨p, hp, rfl⟩ := List.mem_map.mp hmem
    rcases List.mem_append.mp hp with hl | hr
    · exact Or.inl (Expr.admits_of_alternative l ⟨p, hl, hadmits⟩)
    · exact Or.inr (Expr.admits_of_alternative r ⟨p, hr, hadmits⟩)
  | .preferred _ e => exact nofun
  | .faulty .. | .top .. | .select .. | .signed .. | .arithmetic .. | .struct .. | .list .. =>
    trivial
termination_by structural e

/-- **An atom that meets all that a conjunct comes apart into is one that the conjunct admits.** -/
theorem Conjunct.admits_of_parts {path : List Text} {address : Address} {c : Conjunct}
    (h : (c.parts path address).Admits a) : c.Admits a :=
  Expr.admits_of_parts c.expr h

/-! ## Tasks are done -/

section Rounds

variable {known : Option Node} {path : List Text} {address here : Address}

theorem runTasks_nil (n : Nat) (done : Expansion) :
    runTasks n known path address here [] done = done := by
  cases n <;> rw [runTasks]

theorem Blend.of_atom (l : Atom) (p : Position) (route : List Position) :
    Blend.of [⟨.atom l, p, route⟩] =
      { kinds := [l.kind]
        narrowing := some ⟨.atom l, p, route⟩
        atom := some (l, ⟨.atom l, p, route⟩) } := by
  have hkinds : Kind.common Kind.all [l.kind] = [l.kind] := by cases l <;> rfl
  simp only [Blend.of, List.foldl, Blend.add, Constraint.kinds, hkinds, Option.isSome_none,
    Bool.and_false]
  rfl

theorem value_meet_literal (n : Nat) (chosen : List Nat) (l : Atom) (p : Position)
    (route : List Position) :
    (meet (n + 1) known path address chosen { facts := [.constraint ⟨.atom l, p, route⟩] }).value =
      .atom l p := by
  simp only [meet, List.filterMap, Fact.body?, Fact.sequence?, Fact.constraint?, Blend.of_atom]
  rfl

/-- The value of a literal is the literal. -/
theorem value_evaluate_literal (n : Nat) (p : Position) (l : Atom) (context : Context) :
    (evaluate (n + 2) known path address [⟨.literal p l, context⟩]).value = .atom l p := by
  have hexpand : expand (n + 1) known path address [] [] [⟨.literal p l, context⟩] =
      { facts := [.constraint ⟨.atom l, p, context.route⟩] } := by
    rw [expand]
    exact runTasks_nil n _
  rw [evaluate, hexpand]
  exact value_meet_literal n [] l p context.route

/-- What follows from a limit by a literal is that limit, or nothing can meet it. -/
theorem keptBy_of_limit {n : Nat} {p : Position} {bound : Bound} {operand : Expr}
    {context : Context}
    (h : (Operation.limit path context p bound operand
      (operandValue n known path address ⟨operand, context⟩)).Admits a) :
    operand.KeptBy a bound := by
  cases operand with
  | literal q l =>
    intro x d hx hd
    match n with
    | 0 => exact absurd h.gap nofun
    | 1 => exact absurd h (Fact.not_admits_failure (endless_ne_nil path))
    | 2 => exact absurd h (Fact.not_admits_failure (endless_ne_nil path))
    | n + 3 =>
      have hvalue : operandValue (n + 3) known path address ⟨.literal q l, context⟩ = .atom l q :=
        value_evaluate_literal n q l _
      rw [hvalue] at h
      rcases Atom.number?_eq_some_iff.mp hd with rfl | rfl
      · exact h.constraint _ rfl x d hx rfl
      · exact h.constraint _ rfl x d hx rfl
  | _ => trivial

theorem taskAdmits_of_taskParts {n : Nat} {task : Conjunct}
    (h : ∀ f ∈ (taskParts n known path address here task).facts, f.Admits a) :
    task.TaskAdmits a := by
  obtain ⟨e, context⟩ := task
  match n with
  | 0 => exact absurd (h _ List.mem_cons_self) (Fact.not_admits_failure (endless_ne_nil path))
  | n + 1 =>
    cases e with
    | limit p bound operand => exact keptBy_of_limit (h _ List.mem_cons_self)
    | _ => trivial

/-- A limit names no node. -/
theorem taskAdmits_of_use {task : Conjunct} {use : Use} (h : useOf? known task = some use) :
    task.TaskAdmits a := by
  obtain ⟨e, context⟩ := task
  cases e with
  | limit p bound operand => cases h
  | _ => trivial

/-- **All tasks are done.**  Facts and choices are only added, and what meets the facts in the end
meets the tasks. -/
theorem runTasks_spec (known : Option Node) (path : List Text) (address here : Address) (n : Nat)
    (tasks : List Conjunct) (done : Expansion) :
    done.facts ⊆ (runTasks n known path address here tasks done).facts ∧
    done.choices ⊆ (runTasks n known path address here tasks done).choices ∧
    ((∀ f ∈ (runTasks n known path address here tasks done).facts, f.Admits a) → ∀ t ∈ tasks,
      t.TaskAdmits a) := by
  induction n generalizing tasks done with
  | zero =>
    cases tasks with
    | nil =>
      rw [runTasks_nil]
      exact ⟨fun _ h => h, fun _ h => h, fun _ => nofun⟩
    | cons t tasks =>
      rw [runTasks]
      refine ⟨List.subset_append_left _ _, List.subset_append_left _ _, fun h => ?_⟩
      exact absurd (h _ (List.mem_append_right _ List.mem_cons_self))
        (Fact.not_admits_failure (endless_ne_nil path))
  | succ n ih =>
    cases tasks with
    | nil =>
      rw [runTasks_nil]
      exact ⟨fun _ h => h, fun _ h => h, fun _ => nofun⟩
    | cons t tasks =>
      rw [runTasks]
      dsimp only
      split
      · next hused =>
        -- a use that was made before; a limit is none, so nothing is lost
        obtain ⟨hfacts, hchoices, htasks⟩ := ih tasks done
        refine ⟨hfacts, hchoices, fun h => List.forall_mem_cons.mpr ⟨?_, htasks h⟩⟩
        cases huse : useOf? known t with
        | none =>
          rw [huse] at hused
          cases hused
        | some use => exact taskAdmits_of_use huse
      · obtain ⟨hfacts, hchoices, htasks⟩ :=
          ih (tasks ++ (taskParts n known path address here t).tasks) (done.append
            { taskParts n known path address here t with
              tasks := [], uses := (useOf? known t).toList })
        refine ⟨fun f hf => hfacts (List.mem_append_left _ hf),
          fun c hc => hchoices (List.mem_append_left _ hc), fun h =>
            List.forall_mem_cons.mpr ⟨?_, fun t' ht' => htasks h t' (List.mem_append_left _ ht')⟩⟩
        exact taskAdmits_of_taskParts fun f hf => h f (hfacts (List.mem_append_right _ hf))

theorem concat_facts (es : List Expansion) :
    (Expansion.concat es).facts = es.flatMap (·.facts) := by
  induction es with
  | nil => rfl
  | cons e es ih => rw [List.flatMap_cons, ← ih]; rfl

/-- The facts that conjuncts come apart into at once are among those that they come apart into in
the end. -/
theorem subset_expand (n : Nat) (chosen : List Nat) (uses : List Use) (conjuncts : List Conjunct)
    {f : Fact} {c : Conjunct} (hc : c ∈ conjuncts)
    (hf : f ∈ (c.parts path (address ++ [.branch chosen])).facts) :
    f ∈ (expand (n + 1) known path address chosen uses conjuncts).facts := by
  rw [expand]
  apply (runTasks_spec (a := .null) known path address _ n _ _).1
  change f ∈ (Expansion.concat _).facts
  rw [concat_facts]
  exact List.mem_flatMap.mpr ⟨_, List.mem_map_of_mem hc, hf⟩

/-- **An atom that meets what conjuncts come apart into is one that all of them admit.** -/
theorem admits_of_expand {n : Nat} {chosen : List Nat} {uses : List Use} {conjuncts : List Conjunct}
    (hfacts : ∀ f ∈ (expand n known path address chosen uses conjuncts).facts, f.Admits a)
    (hchoices : ∀ c ∈ (expand n known path address chosen uses conjuncts).choices, c.Admits a) :
    ∀ c ∈ conjuncts, c.Admits a := by
  cases n with
  | zero =>
    exact absurd (hfacts _ List.mem_cons_self) (Fact.not_admits_failure (endless_ne_nil path))
  | succ n =>
    rw [expand] at hfacts hchoices
    obtain ⟨hsubset, hsubset', htasks⟩ :=
      runTasks_spec (a := a) known path address (address ++ [.branch chosen]) n
      (Expansion.concat (conjuncts.map (Conjunct.parts path (address ++ [.branch chosen])))).tasks
      { Expansion.concat (conjuncts.map (Conjunct.parts path (address ++ [.branch chosen]))) with
        tasks := [], uses := uses }
    have hdirect :
        (Expansion.concat (conjuncts.map
          (Conjunct.parts path (address ++ [.branch chosen])))).Admits a :=
      ⟨fun f hf => hfacts f (hsubset hf), htasks hfacts, fun c hc => hchoices c (hsubset' hc)⟩
    intro c hc
    exact Conjunct.admits_of_parts (Expansion.admits_concat hdirect _ (List.mem_map_of_mem hc))

/-! ## Facts meet -/

/-- A value that has not failed is the plain one, and its node has no problems of its own. -/
theorem eq_of_getD_failedValue? {own : List Problem} {members : List (Label × Node)}
    {plain v : Value} (h : (failedValue? own members).getD plain = v) (hv : v.isFailed = false) :
    own = [] ∧ v = plain := by
  unfold failedValue? at h
  dsimp only at h
  split at h
  · next hempty =>
    obtain rfl := h
    exact ⟨List.isEmpty_iff.mp (Bool.and_eq_true_iff.mp hempty).1, rfl⟩
  · obtain rfl := h
    cases hv

/-- The conjuncts that the structs of a branch give a label. -/
def Expansion.conjunctsOf (e : Expansion) (here : Address) (label : Label) : List Conjunct :=
  ((e.facts.filterMap Fact.body?).map (Body.closedBy e.closures)).flatMap fun b =>
    b.conjunctsOf here label

/-- **What the facts of a branch come to, if they do not fail.**  Nothing is wrong with them, and
each member is evaluated from the conjuncts that the structs give it. -/
theorem value_meet {n : Nat} {chosen : List Nat} {e : Expansion} {v : Value}
    (h : (meet n known path address chosen e).value = v) (hv : v.isFailed = false) :
    (Blend.of (e.facts.filterMap Fact.constraint?)).kinds ≠ [] ∧
    (Blend.of (e.facts.filterMap Fact.constraint?)).problems path = [] ∧
    (∀ f ∈ e.facts, f.problems = []) ∧
    ∃ fields items, v =
      plainValue e.facts (Blend.of (e.facts.filterMap Fact.constraint?)) fields items ∧
      ∀ m ∈ fields, m.2.value.isFailed = true ∨
        ∃ k path' address', m.2 =
          evaluate k known path' address' (e.conjunctsOf (address ++ [.branch chosen]) m.1) := by
  cases n with
  | zero =>
    obtain rfl := h
    cases hv
  | succ n =>
    rw [meet] at h
    dsimp only at h
    split at h
    · obtain rfl := h
      cases hv
    · next hkinds =>
      obtain ⟨hown, rfl⟩ := eq_of_getD_failedValue? h hv
      simp only [List.append_eq_nil_iff, List.flatMap_eq_nil_iff] at hown
      refine ⟨by simpa using hkinds, hown.1.2, hown.1.1.1, _, _, rfl, fun m hm => ?_⟩
      obtain ⟨label, -, rfl⟩ := List.mem_map.mp hm
      dsimp only
      split
      · exact Or.inr ⟨n, _, _, rfl⟩
      · exact Or.inl rfl

/-- **An atom that the facts of a branch come to meets all of them.** -/
theorem admits_of_meet {n : Nat} {chosen : List Nat} {e : Expansion} {p : Position}
    (h : (meet n known path address chosen e).value = .atom a p) : ∀ f ∈ e.facts, f.Admits a := by
  obtain ⟨hkinds, hblend, hproblems, fields, items, hplain, -⟩ := value_meet h rfl
  unfold plainValue at hplain
  dsimp only at hplain
  split at hplain
  · next x place hgaps hmapped =>
    obtain ⟨rfl, -⟩ := Value.atom.inj hplain
    obtain ⟨⟨y, c⟩, hatom, hxy⟩ := Option.map_eq_some_iff.mp hmapped
    obtain ⟨rfl, -⟩ := Prod.mk.inj hxy
    have hadmits := Blend.admits_of_determined hkinds hblend hatom
    intro f hf
    exact ⟨fun c hc => hadmits c (List.mem_filterMap.mpr ⟨f, hf, hc⟩), hproblems f hf,
      List.filterMap_eq_nil_iff.mp hgaps f hf⟩
  · split at hplain
    · cases hplain
    · split at hplain <;> cases hplain
  · cases hplain

/-! ## Choices are made -/

namespace Branch

/-- Two combinations differ at most in how they stand. -/
structure Same (b c : Branch) : Prop where
  chosen : b.chosen = c.chosen
  expansion : b.expansion = c.expansion
  outcome : b.outcome = c.outcome

theorem Same.refl (b : Branch) : b.Same b := ⟨rfl, rfl, rfl⟩

theorem Same.trans {b c d : Branch} (h : b.Same c) (h' : c.Same d) : b.Same d :=
  ⟨h.chosen.trans h'.chosen, h.expansion.trans h'.expansion, h.outcome.trans h'.outcome⟩

theorem same_of_mem_insert {b c : Branch} {bs : List Branch} (h : c ∈ b.insert bs) :
    c.Same b ∨ ∃ d ∈ bs, c.Same d := by
  induction bs with
  | nil => exact Or.inl (List.mem_singleton.mp h ▸ Same.refl b)
  | cons d bs ih =>
    rw [insert] at h
    split at h
    · rcases List.mem_cons.mp h with rfl | h
      · refine Or.inr ⟨d, List.mem_cons_self, ?_⟩
        split <;> exact ⟨rfl, rfl, rfl⟩
      · exact Or.inr ⟨c, List.mem_cons_of_mem d h, Same.refl c⟩
    · rcases List.mem_cons.mp h with rfl | h
      · exact Or.inr ⟨c, List.mem_cons_self, Same.refl c⟩
      · rcases ih h with hb | ⟨d', hd', hsame⟩
        · exact Or.inl hb
        · exact Or.inr ⟨d', List.mem_cons_of_mem d hd', hsame⟩

theorem same_of_mem_foldl {c : Branch} {bs init : List Branch}
    (h : c ∈ bs.foldl (fun cs b => b.insert cs) init) :
    ∃ d ∈ init ++ bs, c.Same d := by
  induction bs generalizing init with
  | nil => exact ⟨c, List.mem_append_left _ h, Same.refl c⟩
  | cons b bs ih =>
    obtain ⟨d, hd, hsame⟩ := ih h
    rcases List.mem_append.mp hd with hd | hd
    · rcases same_of_mem_insert hd with hb | ⟨d', hd', hsame'⟩
      · exact ⟨b, List.mem_append_right _ List.mem_cons_self, hsame.trans hb⟩
      · exact ⟨d', List.mem_append_left _ hd', hsame.trans hsame'⟩
    · exact ⟨d, List.mem_append_right _ (List.mem_cons_of_mem b hd), hsame⟩

end Branch

namespace Trial

theorem same_of_mem_settled {t : Trial} {before now : Bool} {c : Branch}
    (h : c ∈ t.settled before now) :
    ∃ d ∈ t.branches, c.Same d := by
  unfold settled at h
  split at h
  · next b hb =>
    obtain rfl := List.mem_singleton.mp h
    exact ⟨b, hb ▸ List.mem_cons_self, ⟨rfl, rfl, rfl⟩⟩
  · obtain ⟨d, hd, rfl⟩ := List.mem_map.mp h
    exact ⟨d, hd, ⟨rfl, rfl, rfl⟩⟩

/-- **A combination that is left was found by one of the trials.** -/
theorem same_of_mem_survivors {trials : List Trial} {c : Branch} (h : c ∈ survivors trials) :
    ∃ t ∈ trials, ∃ d ∈ t.branches, c.Same d := by
  unfold survivors at h
  dsimp only at h
  have hfound : ∃ d ∈ ((trials.filter succeeded).map fun t => t.settled
      ((trials.filter succeeded).any (·.wasPreferred))
      ((trials.filter succeeded).any (·.latest = .preferred))).flatten, c.Same d := by
    split at h
    · obtain ⟨b, hb, rfl⟩ := List.mem_map.mp h
      obtain ⟨d, hd, hsame⟩ := Branch.same_of_mem_foldl hb
      refine ⟨d, hd, Branch.Same.trans ?_ hsame⟩
      split <;> exact ⟨rfl, rfl, rfl⟩
    · exact Branch.same_of_mem_foldl h
  obtain ⟨d, hd, hsame⟩ := hfound
  obtain ⟨ds, hds, hd⟩ := List.mem_flatten.mp hd
  obtain ⟨t, ht, rfl⟩ := List.mem_map.mp hds
  obtain ⟨d', hd', hsame'⟩ := same_of_mem_settled hd
  exact ⟨t, (List.mem_filter.mp ht).1, d', hd', hsame.trans hsame'⟩

end Trial

namespace Branch

/-- A combination comes to what its facts come to. -/
def Grown (known : Option Node) (path : List Text) (address : Address) (b : Branch) : Prop :=
  ∃ n choices, b.outcome =
    meet n known path address b.chosen { b.expansion with choices := choices }

/-- A combination was chosen on top of another one. -/
def Above (b base : Branch) : Prop := base.expansion.facts ⊆ b.expansion.facts

/-- An atom meets the facts of a combination. -/
def Admits (a : Atom) (b : Branch) : Prop := ∀ f ∈ b.expansion.facts, f.Admits a

theorem Admits.of_above {b base : Branch} (h : b.Admits a) (habove : b.Above base) :
    base.Admits a :=
  fun f hf => h f (habove hf)

theorem Above.of_same {b c base : Branch} (h : c.Above base) (hsame : b.Same c) : b.Above base := by
  intro f hf
  rw [hsame.expansion]
  exact h hf

theorem Grown.of_same {b c : Branch} (h : c.Grown known path address) (hsame : b.Same c) :
    b.Grown known path address := by
  obtain ⟨n, choices, houtcome⟩ := h
  exact ⟨n, choices, by rw [hsame.outcome, houtcome, hsame.chosen, hsame.expansion]⟩

end Branch

/-- The combinations that are left of choices: each was chosen on top of one that was there, comes
to what its facts come to, and what meets its facts is admitted by an alternative of every
choice. -/
def ChoicesMade (known : Option Node) (path : List Text) (address : Address) (n : Nat) : Prop :=
  ∀ plain branches choices left, (choose n known path address plain branches choices).1 = .ok left →
    (∀ base ∈ branches, base.Grown known path address) →
    ∀ b ∈ left, b.Grown known path address ∧ ∃ base ∈ branches, b.Above base ∧
      ∀ a, b.Admits a → ∀ choice ∈ choices, choice.Admits a

/-- The combinations that an alternative leaves on top of one: each comes to what its facts come to,
and what meets its facts is admitted by the alternative. -/
def AlternativeTried (known : Option Node) (path : List Text) (address : Address) (n : Nat) :
    Prop :=
  ∀ base index latest alternative,
    ∀ b ∈ (attempt n known path address base index latest alternative).branches,
      b.Grown known path address ∧ b.Above base ∧ ∀ a, b.Admits a → alternative.Admits a

/-- A combination that alone is left of the choices inside an alternative stands as the alternative
does. -/
theorem Trial.same_of_mem_branches {t : Trial} {r : Except (List Problem) (List Branch)}
  {latest : Standing} {b : Branch}
    (ht : t.result = match r with
      | .ok [c] => .ok [{ c with latest := latest }]
      | r => r) (hb : b ∈ t.branches) : ∃ left, r = .ok left ∧ ∃ c ∈ left, b.Same c := by
  unfold Trial.branches at hb
  rw [ht] at hb
  split at hb
  · next left hleft =>
    split at hleft
    · next c =>
      obtain rfl := Except.ok.inj hleft
      obtain rfl := List.mem_singleton.mp hb
      exact ⟨[c], rfl, c, List.mem_cons_self, ⟨rfl, rfl, rfl⟩⟩
    · exact ⟨left, hleft, b, hb, Branch.Same.refl b⟩
  · exact absurd hb List.not_mem_nil

theorem Trial.eq_of_mem_branches {t : Trial} {failed : Bool} {ps : List Problem} {b c : Branch}
    (ht : t.result = if failed then .error ps else .ok [c]) (hb : b ∈ t.branches) : b = c := by
  unfold Trial.branches at hb
  rw [ht] at hb
  cases failed with
  | true => exact absurd hb List.not_mem_nil
  | false => exact List.mem_singleton.mp hb

theorem alternativeTried_succ {n : Nat} (ih : ChoicesMade known path address n) :
    AlternativeTried known path address (n + 1) := by
  intro base index latest alternative b hb
  rw [attempt] at hb
  dsimp only at hb
  split at hb
  · next hempty =>
    -- the alternative holds no choice: it leaves one combination, or fails
    obtain rfl := Trial.eq_of_mem_branches rfl hb
    refine ⟨⟨n, _, rfl⟩, List.subset_append_left _ _, fun a ha => ?_⟩
    refine admits_of_expand (fun f hf => ha f (List.mem_append_right _ hf)) ?_ alternative
      List.mem_cons_self
    rw [List.isEmpty_iff.mp hempty]
    exact fun _ => nofun
  · obtain ⟨left, hleft, c, hc, hsame⟩ := Trial.same_of_mem_branches rfl hb
    obtain ⟨hgrown, base', hbase', habove, hadmits⟩ := ih _ _ _ left hleft (fun base' hbase' => by
      obtain rfl := List.mem_singleton.mp hbase'
      exact ⟨n, _, rfl⟩) c hc
    obtain rfl := List.mem_singleton.mp hbase'
    refine ⟨hgrown.of_same hsame, fun f hf => ?_, fun a ha => ?_⟩
    · rw [hsame.expansion]
      exact habove (List.mem_append_left _ hf)
    · have hc : c.Admits a := fun f hf => ha f (hsame.expansion ▸ hf)
      exact admits_of_expand (fun f hf => hc f (habove (List.mem_append_right _ hf))) (hadmits a hc)
        alternative List.mem_cons_self

theorem choicesMade_succ {n : Nat} (ih : ChoicesMade known path address n)
    (ih' : AlternativeTried known path address n) : ChoicesMade known path address (n + 1) := by
  intro plain branches choices left hchoose hgrown b hb
  cases choices with
  | nil =>
    rw [choose] at hchoose
    obtain rfl := Except.ok.inj hchoose
    exact ⟨hgrown b hb, b, hb, fun _ h => h, fun _ _ => nofun⟩
  | cons choice choices =>
    rw [choose] at hchoose
    dsimp only at hchoose
    split at hchoose
    · cases hchoose
    · next hleft' =>
      -- the combinations that are left of the first choice, each found by a trial
      have hfound :
          ∀ c ∈ Trial.survivors (branches.flatMap fun b => choice.alternatives.zipIdx.map fun p =>
          attempt n known path address b p.2
            (.ofMark (choice.alternatives.any Prod.fst) p.1.1) p.1.2),
          c.Grown known path address ∧ ∃ base ∈ branches, c.Above base ∧ ∀ a, c.Admits a →
            choice.Admits a := by
        intro c hc
        obtain ⟨t, ht, d, hd, hsame⟩ := Trial.same_of_mem_survivors hc
        obtain ⟨base, hbase, ht⟩ := List.mem_flatMap.mp ht
        obtain ⟨p, hp, rfl⟩ := List.mem_map.mp ht
        obtain ⟨hgrown', habove, hadmits⟩ := ih' base p.2 _ p.1.2 d hd
        refine ⟨hgrown'.of_same hsame, base, hbase, habove.of_same hsame,
          fun a ha => ⟨p.1, ?_, hadmits a ?_⟩⟩
        · exact List.fst_mem_of_mem_zipIdx hp
        · exact fun f hf => ha f (hsame.expansion ▸ hf)
      obtain ⟨hgrown', base', hbase', habove, hadmits⟩ :=
        ih _ _ _ left hchoose (fun c hc => (hfound c hc).1) b hb
      obtain ⟨-, base, hbase, habove', hadmits'⟩ := hfound base' hbase'
      refine ⟨hgrown', base, hbase, fun f hf => habove (habove' hf),
        fun a ha => List.forall_mem_cons.mpr ⟨?_, hadmits a ha⟩⟩
      exact hadmits' a (ha.of_above habove)

/-- **Choices are made soundly**, however deep they are nested. -/
theorem choicesMade (n : Nat) :
    ChoicesMade known path address n ∧ AlternativeTried known path address n := by
  induction n with
  | zero =>
    refine ⟨fun plain branches choices left hchoose hgrown b hb => ?_,
      fun base index latest alternative b hb => ?_⟩
    · cases choices with
      | nil =>
        rw [choose] at hchoose
        obtain rfl := Except.ok.inj hchoose
        exact ⟨hgrown b hb, b, hb, fun _ h => h, fun _ _ => nofun⟩
      | cons choice choices =>
        rw [choose] at hchoose
        cases hchoose
    · rw [attempt] at hb
      exact absurd hb List.not_mem_nil
  | succ n ih => exact ⟨choicesMade_succ ih.1 ih.2, alternativeTried_succ ih.1⟩

/-! ## Nodes are evaluated -/

/-- A value is settled: it has not failed, and is no open choice. -/
def Value.isSettled : Value → Bool
  | .failed _ _ | .ambiguous _ => false
  | _ => true

/-- The conjuncts of a node come to a value: there are facts that come to it, among which are all
facts that the conjuncts say at once, and what meets these facts is admitted by every conjunct. -/
def ComesTo (known : Option Node) (path : List Text) (address : Address) (conjuncts : List Conjunct)
    (v : Value) : Prop :=
  ∃ n chosen e, (meet n known path address chosen e).value = v ∧
    (∀ c ∈ conjuncts, ∀ f ∈ (c.parts path (address ++ [.branch []])).facts, f ∈ e.facts) ∧
    ∀ a, (∀ f ∈ e.facts, f.Admits a) → ∀ c ∈ conjuncts, c.Admits a

theorem Value.isSettled_through (place : Position) (v : Value) :
    (v.through place).isSettled = v.isSettled := by
  cases v <;> simp only [Value.through, Value.isSettled]

/-- A settled value is that of a combination that is left. -/
theorem exists_branch_of_settled {result : Except (List Problem) (List Branch)} {v : Value}
    (h : (match result with
      | .error ps => (Value.failed ps ps, [])
      | .ok [b] => (b.outcome.value, b.chosen)
      | .ok bs =>
        match bs.filter (·.standing = .preferred) with
        | [b] => (b.outcome.value, b.chosen)
        | [] => (.ambiguous (bs.map (·.outcome.value)), [])
        | preferred =>
          (.ambiguous (preferred.map (·.outcome.value)), []) : Value × List Nat).1 = v)
            (hv : v.isSettled = true) :
    ∃ left b, result = .ok left ∧ b ∈ left ∧ b.outcome.value = v := by
  split at h
  · obtain rfl := h
    cases hv
  · next b => exact ⟨[b], b, rfl, List.mem_cons_self, h⟩
  · next bs _ =>
    split at h
    · next b hb =>
      have hmem : b ∈ bs.filter (·.standing = .preferred) := hb ▸ List.mem_cons_self
      exact ⟨bs, b, rfl, (List.mem_filter.mp hmem).1, h⟩
    · obtain rfl := h
      cases hv
    · obtain rfl := h
      cases hv

/-- The expansion of conjuncts comes to a value, if there is no choice in it. -/
theorem comesTo_of_meet {n : Nat} {conjuncts : List Conjunct} {v : Value}
    (h : (meet n known path address [] (expand n known path address [] [] conjuncts)).value = v)
    (hv : v.isSettled = true)
    (hempty : (expand n known path address [] [] conjuncts).choices = []) :
    ComesTo known path address conjuncts v := by
  cases n with
  | zero =>
    obtain rfl := h
    cases hv
  | succ n =>
    refine ⟨n + 1, [], _, h, fun c hc f hf => subset_expand n [] [] conjuncts hc hf, fun a ha => ?_⟩
    refine admits_of_expand ha ?_
    rw [hempty]
    exact fun _ => nofun

/-- **A settled value is what the conjuncts of its node come to.**  A node that is nothing but
another one has the value of that one, reached through its name. -/
theorem comesTo_evaluate {n : Nat} {conjuncts : List Conjunct} {v : Value}
    (h : (evaluate n known path address conjuncts).value = v) (hv : v.isSettled = true) :
    ComesTo known path address conjuncts v ∨ ∃ w place, ComesTo known path address conjuncts w ∧
      v = w.through place ∧
      ∀ c ∈ conjuncts, (c.parts path (address ++ [.branch []])).facts = [] := by
  cases n with
  | zero =>
    obtain rfl := h
    cases hv
  | succ n =>
    rw [evaluate] at h
    dsimp only at h
    split at h
    · next hempty =>
      rw [List.isEmpty_iff] at hempty
      rw [Node.value] at h
      split at h
      · next place hname =>
        obtain rfl := h
        rw [Value.isSettled_through] at hv
        refine Or.inr ⟨_, place, comesTo_of_meet rfl hv hempty, rfl, ?_⟩
        have hfacts :
            (Expansion.concat (conjuncts.map
              (Conjunct.parts path (address ++ [.branch []])))).facts = [] := by
          unfold onlyName? at hname
          split at hname
          · assumption
          · cases hname
        rw [concat_facts, List.flatMap_eq_nil_iff] at hfacts
        exact fun c hc => hfacts _ (List.mem_map_of_mem hc)
      · exact Or.inl (comesTo_of_meet h hv hempty)
    · next hchoices =>
      rw [Node.value] at h
      obtain ⟨left, b, hleft, hb, hvalue⟩ := exists_branch_of_settled h hv
      obtain ⟨⟨m, choices, houtcome⟩, base, hbase, habove, hadmits⟩ :=
        (choicesMade n).1 _ _ _ left hleft
        (fun base hbase => by
          obtain rfl := List.mem_singleton.mp hbase
          exact ⟨n, _, rfl⟩) b hb
      obtain rfl := List.mem_singleton.mp hbase
      rw [houtcome] at hvalue
      refine Or.inl ⟨m, b.chosen, _, hvalue, fun c hc f hf => ?_, fun a ha => ?_⟩
      · cases n with
        | zero => exact absurd rfl hchoices
        | succ n => exact habove (subset_expand n [] [] conjuncts hc hf)
      · exact admits_of_expand (fun f hf => ha f (habove hf)) (hadmits a ha)

/-- **An atom that a node is evaluated to is one that all its conjuncts admit.** -/
theorem admits_of_evaluate {n : Nat} {conjuncts : List Conjunct} {p : Position}
    (h : (evaluate n known path address conjuncts).value = .atom a p) :
    ∀ c ∈ conjuncts, c.Admits a := by
  rcases comesTo_evaluate h rfl with ⟨m, chosen, e, hmeet, -, hadmits⟩ | ⟨w, place,
    ⟨m, chosen, e, hmeet, -, hadmits⟩, hw, -⟩
  · exact hadmits a (admits_of_meet hmeet)
  · have hatom : w = .atom a p := by
      cases w <;> simp only [Value.through] at hw <;> first | exact hw.symm | cases hw
    exact hadmits a (admits_of_meet (hmeet.trans hatom))

/-- The conjuncts of a member include what each struct says of it, in the scope of that struct. -/
theorem exists_conjunct_of_body {e : Expansion} {b : Body} {label : Label}
    {bindable optional : Bool} {value : Expr} (here : Address) (hb : .body b ∈ e.facts)
    (hfield : .field label bindable optional value ∈ b.decls) :
    ∃ context : Context, ⟨value, context⟩ ∈ e.conjunctsOf here label ∧
      context.scopes = ⟨Decl.names b.decls, here⟩ :: b.context.scopes := by
  refine ⟨(b.closedBy e.closures).context.member here b.decls,
    List.mem_flatMap.mpr ⟨b.closedBy e.closures, ?_, ?_⟩, rfl⟩
  · exact List.mem_map_of_mem (List.mem_filterMap.mpr ⟨.body b, hb, rfl⟩)
  · exact List.mem_filterMap.mpr ⟨_, hfield, if_pos rfl⟩

/-- The fields of a struct that facts come to are the members that were evaluated. -/
theorem fields_of_plainValue {facts : List Fact} {blend : Blend}
    {members items : List (Label × Node)} {fields : List (Label × Value)}
    (h : Value.struct fields = plainValue facts blend members items) :
    fields = members.map fun m => (m.1, m.2.value) := by
  unfold plainValue at h
  dsimp only at h
  split at h
  · cases h
  · split at h
    · exact Value.struct.inj h
    · split at h <;> cases h
  · cases h

theorem Value.mem_of_get? {fields : List (Label × Value)} {label : Label} {v : Value}
    (h : (Value.struct fields).get? label = some v) : (label, v) ∈ fields := by
  obtain ⟨⟨l, w⟩, hfind, rfl⟩ := Option.map_eq_some_iff.mp h
  have hlabel : l = label := by simpa using List.find?_some hfind
  exact hlabel ▸ List.mem_of_find?_eq_some hfind

/-- **A member of a struct is evaluated from all that the structs of its node say of it.** -/
theorem member_of_evaluate {n : Nat} {conjuncts : List Conjunct} {fields : List (Label × Value)}
    {label : Label} {v : Value}
    (h : (evaluate n known path address conjuncts).value = .struct fields)
    (hv : (Value.struct fields).get? label = some v) {place : Position} {decls : List Decl}
    {context : Context} (hstruct : ⟨.struct place decls, context⟩ ∈ conjuncts) :
    v.isFailed = true ∨
      ∃ k path' address' members, v = (evaluate k known path' address' members).value ∧
      ∀ bindable optional value, .field label bindable optional value ∈ decls →
        ∃ here, ∃ inner : Context, ⟨value, inner⟩ ∈ members ∧
          inner.scopes = ⟨Decl.names decls, here⟩ :: context.scopes := by
  have hbody : Fact.body ⟨place, decls, context⟩ ∈
      (Conjunct.parts path (address ++ [.branch []]) ⟨.struct place decls, context⟩).facts :=
    List.mem_append_left _ List.mem_cons_self
  rcases comesTo_evaluate h rfl with ⟨m, chosen, e, hmeet, hfacts, -⟩ | ⟨w, place', -, -, hnone⟩
  · obtain ⟨-, -, -, members, items, hplain, hmembers⟩ := value_meet hmeet rfl
    have hmem := Value.mem_of_get? hv
    rw [fields_of_plainValue hplain] at hmem
    obtain ⟨⟨l, node⟩, hnode, heq⟩ := List.mem_map.mp hmem
    obtain ⟨rfl, rfl⟩ := Prod.mk.inj heq
    rcases hmembers _ hnode with hfailed | ⟨k, path', address', heval⟩
    · exact Or.inl hfailed
    · refine Or.inr ⟨k, path', address', _, congrArg Node.value heval,
        fun bindable optional value hfield => ?_⟩
      exact ⟨_, exists_conjunct_of_body _ (hfacts _ hstruct _ hbody) hfield⟩
  · rw [hnone _ hstruct] at hbody
    exact absurd hbody List.not_mem_nil

end Rounds


end Config
end RepeatedAddition
