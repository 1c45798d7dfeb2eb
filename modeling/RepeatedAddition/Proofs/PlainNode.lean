import RepeatedAddition.Proofs.Agreement
import RepeatedAddition.Proofs.Evaluation

/-!
# Nodes without names

The value of a node depends on what is known of other nodes, through names, and on what is chosen,
through choices.  A node whose conjuncts have neither comes to what they ask for, whatever is known
and wherever it stands.

* `Expr.isRestriction`, `Expr.demands`: expressions made of literals, signed numbers, predeclared
  types and limits by numbers, and what they ask for.
* `expand_of_facts`: conjuncts come apart into facts in one round, if none of them has to be looked
  up.
* `Resolves`, `resolves_evaluate`: the value is the atom that the demands determine; if they
  determine none, it has failed or, where no demand is an atom, is left open.
-/

namespace RepeatedAddition
namespace Config

/-! ## Expressions that are restrictions -/

/-- A number behind a sign. -/
def Sign.applied : Sign → Atom → Atom
  | .plus, a => a
  | .minus, a => a.negated?.getD a

/-- A plain number is plain behind a sign. -/
theorem Sign.isPlain_applied (sign : Sign) {a : Atom} (ha : a.isPlain = true)
    (hnumber : a.number?.isSome = true) :
    (sign.applied a).isPlain = true := by
  cases sign with
  | plus => exact ha
  | minus =>
    obtain ⟨d, hd⟩ := Option.isSome_iff_exists.mp hnumber
    rcases Atom.number?_eq_some_iff.mp hd with rfl | rfl
    · rw [Atom.isPlain_int ha]
      exact (congrArg (fun d => (Atom.int d).isPlain) (Decimal.negated_ofInt _)).trans
        (Atom.isPlain_ofInt _)
    · rfl

namespace Expr

/-- Whether an expression is a restriction, inside structs that bind given names: it is made of
literals, signed numbers, predeclared types and limits by numbers. -/
def isRestriction (bound : List String) : Expr → Bool
  | .literal _ a => a.isPlain
  | .name _ n => !bound.contains n && (Predeclared.find? n).isSome
  | .limit _ _ (.literal _ l) => l.number?.isSome
  | .signed _ _ (.literal _ a) => a.isPlain && a.number?.isSome
  | .group _ e => isRestriction bound e
  | .meet l r => isRestriction bound l && isRestriction bound r
  | _ => false

/-- What a restriction asks for. -/
def demands : Expr → List Demand
  | .literal _ a => [.atom a]
  | .name _ n => (Predeclared.find? n).toList.map .type
  | .limit _ bound (.literal _ l) => [.limit bound l]
  | .signed _ sign (.literal _ a) => [.atom (sign.applied a)]
  | .group _ e => demands e
  | .meet l r => demands l ++ demands r
  | _ => []

theorem isPlain_of_mem_demands {bound : List String} (e : Expr) (h : e.isRestriction bound = true) :
    ∀ d ∈ e.demands, d.IsPlain := by
  match e with
  | .literal p a => exact List.forall_mem_singleton.mpr h
  | .name p n =>
    intro d hd
    obtain ⟨t, ht, rfl⟩ := List.mem_map.mp hd
    exact List.mem_of_find?_eq_some (Option.mem_toList.mp ht)
  | .limit p b (.literal q l) => exact List.forall_mem_singleton.mpr h
  | .signed p sign (.literal q a) =>
    obtain ⟨ha, hnumber⟩ := Bool.and_eq_true_iff.mp h
    exact List.forall_mem_singleton.mpr (sign.isPlain_applied ha hnumber)
  | .group p e => exact isPlain_of_mem_demands e h
  | .meet l r =>
    obtain ⟨hl, hr⟩ := Bool.and_eq_true_iff.mp h
    exact List.forall_mem_append.mpr ⟨isPlain_of_mem_demands l hl, isPlain_of_mem_demands r hr⟩
termination_by structural e

theorem demands_ne_nil {bound : List String} (e : Expr) (h : e.isRestriction bound = true) :
    e.demands ≠ [] := by
  match e with
  | .literal p a => exact List.cons_ne_nil _ _
  | .name p n =>
    obtain ⟨t, ht⟩ := Option.isSome_iff_exists.mp (Bool.and_eq_true_iff.mp h).2
    simp [demands, ht]
  | .limit p b (.literal q l) => exact List.cons_ne_nil _ _
  | .signed p sign (.literal q a) => exact List.cons_ne_nil _ _
  | .group p e => exact demands_ne_nil e h
  | .meet l r =>
    exact List.append_ne_nil_of_left_ne_nil (demands_ne_nil l (Bool.and_eq_true_iff.mp h).1) _
termination_by structural e

end Expr

/-- The names that the scopes of a context bind. -/
def Context.names (c : Context) : List String := c.scopes.flatMap (·.names)

theorem Context.scopeOf?_eq_none {c : Context} {n : String} (h : n ∉ c.names) :
    c.scopeOf? n = none := by
  refine List.find?_eq_none.mpr fun s hs hbinds => h ?_
  exact List.mem_flatMap.mpr ⟨s, hs, List.contains_iff_mem.mp hbinds⟩

/-- Whether a conjunct is a restriction. -/
def Conjunct.isPlain (c : Conjunct) : Bool := c.expr.isRestriction c.context.names

/-- What conjuncts that are restrictions ask for. -/
def saidBy (cs : List Conjunct) : Set Demand := {d | ∃ c ∈ cs, d ∈ c.expr.demands}

theorem isPlain_of_mem_saidBy {cs : List Conjunct} (h : ∀ c ∈ cs, c.isPlain = true) :
    ∀ d ∈ saidBy cs, d.IsPlain := by
  rintro d ⟨c, hc, hd⟩
  exact Expr.isPlain_of_mem_demands c.expr (h c hc) d hd

/-! ## Tasks that are done at once -/

/-- The place of a number behind a sign. -/
def Sign.placed : Sign → Position → Position → Position
  | .plus, _, number => number
  | .minus, sign, _ => sign

/-- The fact that a task comes to, if nothing has to be looked up for it: a limit by a number, a
signed number, or a list. -/
def Conjunct.fact? (t : Conjunct) : Option Fact :=
  match t.expr with
  | .signed p sign (.literal q a) =>
    if a.number?.isSome then
      some (.constraint ⟨.atom (sign.applied a), sign.placed p q, t.context.route⟩) else none
  | .limit p bound (.literal _ l) =>
    if l.number?.isSome then some (.constraint ⟨.limit bound l, p, t.context.route⟩) else none
  | .list p items tail => some (.sequence ⟨p, items, tail, t.context⟩)
  | _ => none

section Rounds

variable {known : Option Node} {path : List Text} {address here : Address}

/-- A task that is done at once comes to its fact, whatever is known. -/
theorem taskParts_of_fact? (known : Option Node) (path : List Text) (address here : Address)
    {t : Conjunct} {f : Fact} (h : t.fact? = some f) (n : Nat) :
    taskParts (n + 4) known path address here t = .fact f ∧ useOf? known t = none := by
  obtain ⟨e, context⟩ := t
  unfold Conjunct.fact? at h
  split at h
  · next p sign q a he =>
    obtain rfl : e = _ := he
    split at h
    · next hnumber =>
      obtain rfl := Option.some.inj h
      obtain ⟨x, hx⟩ := Option.isSome_iff_exists.mp hnumber
      have hvalue : operandValue (n + 3) known path address ⟨.literal q a, context⟩ = .atom a q :=
        value_evaluate_literal n q a _
      refine ⟨?_, rfl⟩
      rw [taskParts]
      dsimp only
      rw [hvalue]
      rcases Atom.number?_eq_some_iff.mp hx with rfl | rfl <;> cases sign <;> rfl
    · cases h
  · next p bound q l he =>
    obtain rfl : e = _ := he
    split at h
    · next hnumber =>
      obtain rfl := Option.some.inj h
      obtain ⟨x, hx⟩ := Option.isSome_iff_exists.mp hnumber
      have hvalue : operandValue (n + 3) known path address ⟨.literal q l, context⟩ = .atom l q :=
        value_evaluate_literal n q l _
      refine ⟨?_, rfl⟩
      rw [taskParts]
      dsimp only
      rw [hvalue]
      rcases Atom.number?_eq_some_iff.mp hx with rfl | rfl <;> rfl
    · cases h
  · next p items tail he =>
    obtain rfl : e = _ := he
    obtain rfl := Option.some.inj h
    exact ⟨rfl, rfl⟩
  · cases h

/-- Tasks that are done at once add their facts. -/
theorem runTasks_of_facts {tasks : List Conjunct} (h : ∀ t ∈ tasks, t.fact?.isSome = true) (n : Nat)
    (done : Expansion) :
    runTasks (n + tasks.length + 4) known path address here tasks done =
      { done with facts := done.facts ++ tasks.filterMap Conjunct.fact? } := by
  induction tasks generalizing done with
  | nil => rw [runTasks_nil, List.filterMap_nil, List.append_nil]
  | cons t tasks ih =>
    obtain ⟨f, hf⟩ := Option.isSome_iff_exists.mp (h t List.mem_cons_self)
    obtain ⟨hparts, huse⟩ := taskParts_of_fact? known path address here hf (n + tasks.length)
    have hrest := ih fun t' ht' => h t' (List.mem_cons_of_mem t ht')
    rw [show n + (t :: tasks).length + 4 =
      n + tasks.length + 4 + 1 by rw [List.length_cons]; omega, runTasks, huse]
    rw [hparts]
    change runTasks _ known path address here (tasks ++ []) _ = _
    rw [List.append_nil, hrest, List.filterMap_cons, hf]
    simp [Expansion.append, Expansion.fact]

/-- What conjuncts come apart into before any task is done. -/
def direct (path : List Text) (here : Address) (cs : List Conjunct) : Expansion :=
  Expansion.concat (cs.map (Conjunct.parts path here))

theorem direct_cons (path : List Text) (here : Address) (c : Conjunct) (cs : List Conjunct) :
    direct path here (c :: cs) = (c.parts path here).append (direct path here cs) := rfl

/-- The facts of an expansion once its tasks are done, if they are done at once. -/
def Expansion.settled (e : Expansion) : List Fact := e.facts ++ e.tasks.filterMap Conjunct.fact?

theorem expand_of_facts (known : Option Node) (address : Address) (uses : List Use)
    {chosen : List Nat} {cs : List Conjunct} {e : Expansion}
    (he : direct path (address ++ [.branch chosen]) cs = e)
    (h : ∀ t ∈ e.tasks, t.fact?.isSome = true) {n : Nat} (hn : e.tasks.length + 5 ≤ n) :
    expand n known path address chosen uses cs =
      { facts := e.settled, choices := e.choices, closures := e.closures, uses := uses } := by
  obtain ⟨k, rfl⟩ := Nat.exists_eq_add_of_le' hn
  rw [show k + (e.tasks.length + 5) = k + e.tasks.length + 4 + 1 by omega, expand]
  change runTasks _ known path address _ (direct path _ cs).tasks
    { direct path _ cs with tasks := [], uses := uses } = _
  rw [he, runTasks_of_facts h]
  rfl

end Rounds

/-! ## What conjuncts ask for -/

namespace Expansion

/-- An expansion asks for demands: all its facts, with those of its tasks, are constraints, and
these make the demands. -/
structure Asks (e : Expansion) (demands : Set Demand) : Prop where
  tasks : ∀ t ∈ e.tasks, t.fact?.isSome = true
  choices : e.choices = []
  closures : e.closures = []
  facts : ∀ f ∈ e.settled, ∃ c, f = .constraint c
  demands : demandsOf (e.settled.filterMap Fact.constraint?) = demands

theorem mem_settled_append {d e : Expansion} {f : Fact} :
    f ∈ (d.append e).settled ↔ f ∈ d.settled ∨ f ∈ e.settled := by
  simp only [settled, append, List.filterMap_append, List.mem_append]
  tauto

theorem mem_demandsOf {fs : List Fact} {d : Demand} :
    d ∈ demandsOf (fs.filterMap Fact.constraint?) ↔
      ∃ f ∈ fs, ∃ c, f.constraint? = some c ∧ c.demand = d := by
  constructor
  · rintro ⟨c, hc, rfl⟩
    obtain ⟨f, hf, hfc⟩ := List.mem_filterMap.mp hc
    exact ⟨f, hf, c, hfc, rfl⟩
  · rintro ⟨f, hf, c, hfc, rfl⟩
    exact ⟨c, List.mem_filterMap.mpr ⟨f, hf, hfc⟩, rfl⟩

theorem asks_empty : ({} : Expansion).Asks ∅ :=
  ⟨fun _ => nofun, rfl, rfl, fun _ => nofun,
    Set.eq_empty_of_forall_notMem fun _ ⟨_, hc, _⟩ => List.not_mem_nil hc⟩

theorem Asks.append {d e : Expansion} {demands demands' : Set Demand} (hd : d.Asks demands)
    (he : e.Asks demands') :
    (d.append e).Asks (demands ∪ demands') := by
  refine ⟨fun t ht => ?_, ?_, ?_, fun f hf => ?_, ?_⟩
  · exact (List.mem_append.mp ht).elim (hd.tasks t) (he.tasks t)
  · rw [Expansion.append, hd.choices, he.choices]
    rfl
  · rw [Expansion.append, hd.closures, he.closures]
    rfl
  · exact (mem_settled_append.mp hf).elim (hd.facts f) (he.facts f)
  · rw [← hd.demands, ← he.demands]
    ext x
    simp only [Set.mem_union, mem_demandsOf, mem_settled_append, or_and_right, exists_or]

/-- An expansion that comes to one constraint asks for that. -/
theorem asks_of_settled {e : Expansion} (c : Constraint) (hsettled : e.settled = [.constraint c])
    (htasks : ∀ t ∈ e.tasks, t.fact?.isSome = true) (hchoices : e.choices = [])
    (hclosures : e.closures = []) :
    e.Asks {c.demand} := by
  refine ⟨htasks, hchoices, hclosures, fun f hf => ⟨c, List.mem_singleton.mp (hsettled ▸ hf)⟩, ?_⟩
  ext x
  rw [mem_demandsOf, hsettled, Set.mem_singleton_iff]
  constructor
  · rintro ⟨f, hf, c', hc', rfl⟩
    obtain rfl := List.mem_singleton.mp hf
    exact congrArg Constraint.demand (Option.some.inj hc').symm
  · rintro rfl
    exact ⟨_, List.mem_singleton_self _, c, rfl, rfl⟩

/-- A task that is done at once asks for its constraint. -/
theorem asks_of_task {t : Conjunct} {c : Constraint} (h : t.fact? = some (.constraint c)) :
    (task t).Asks {c.demand} := by
  refine asks_of_settled c ?_ (List.forall_mem_singleton.mpr (by rw [h]; rfl)) rfl rfl
  rw [settled, task, List.nil_append, List.filterMap_cons, h]
  rfl

end Expansion

/-- A restriction comes apart into what it asks for. -/
theorem Expr.asks_parts (path : List Text) (here : Address) (context : Context) (e : Expr)
    (h : e.isRestriction context.names = true) :
    (e.parts path here context).Asks {d | d ∈ e.demands} ∧
      (e.parts path here context).tasks.length ≤ e.size := by
  fun_induction isRestriction context.names e with
  | case1 p a =>
    rw [show {d | d ∈ (Expr.literal p a).demands} = {Demand.atom a} by ext; simp [demands]]
    exact ⟨Expansion.asks_of_settled ⟨.atom a, p, context.route⟩ rfl (List.forall_mem_nil _) rfl
      rfl, Nat.zero_le _⟩
  | case2 p n =>
    obtain ⟨hfree, hfind⟩ := Bool.and_eq_true_iff.mp h
    obtain ⟨t, ht⟩ := Option.isSome_iff_exists.mp hfind
    have hscope : context.scopeOf? n = none := Context.scopeOf?_eq_none (by simpa using hfree)
    rw [Expr.parts, hscope, ht, show {d | d ∈ (Expr.name p n).demands} =
      {Demand.type t} by ext; simp [demands, ht]]
    exact ⟨Expansion.asks_of_settled ⟨.type t, p, context.route⟩ rfl (List.forall_mem_nil _) rfl
      rfl, Nat.zero_le _⟩
  | case3 p bound q l =>
    have hfact : (⟨.limit p bound (.literal q l), context⟩ : Conjunct).fact? =
        some (.constraint ⟨.limit bound l, p, context.route⟩) := if_pos h
    rw [show {d | d ∈ (Expr.limit p bound (.literal q l)).demands} =
      {Demand.limit bound l} by ext; simp [demands]]
    exact ⟨Expansion.asks_of_task hfact, Nat.succ_le_succ (Nat.zero_le _)⟩
  | case4 p sign q a =>
    have hfact : (⟨.signed p sign (.literal q a), context⟩ : Conjunct).fact? =
        some (.constraint ⟨.atom (sign.applied a), sign.placed p q, context.route⟩) :=
      if_pos (Bool.and_eq_true_iff.mp h).2
    rw [show {d | d ∈ (Expr.signed p sign (.literal q a)).demands} =
      {Demand.atom (sign.applied a)} by ext; simp [demands]]
    exact ⟨Expansion.asks_of_task hfact, Nat.succ_le_succ (Nat.zero_le _)⟩
  | case5 p e ih =>
    obtain ⟨hasks, hlength⟩ := ih h
    exact ⟨hasks, hlength.trans (Nat.le_succ _)⟩
  | case6 l r ihl ihr =>
    obtain ⟨hl, hr⟩ := Bool.and_eq_true_iff.mp h
    obtain ⟨hl, hlength⟩ := ihl hl
    obtain ⟨hr, hlength'⟩ := ihr hr
    rw [show {d | d ∈ (Expr.meet l r).demands} = {d | d ∈ l.demands} ∪
      {d | d ∈ r.demands} by ext; simp [demands]]
    refine ⟨hl.append hr, ?_⟩
    simp only [Expr.parts, Expansion.append, List.length_append, Expr.size]
    omega
  | case7 => cases h

/-- The size of all conjuncts. -/
def sizeOfConjuncts (cs : List Conjunct) : Nat := (cs.map fun c => c.expr.size).sum

/-- Restrictions come apart into what they ask for. -/
theorem asks_direct (path : List Text) (here : Address) {cs : List Conjunct}
    (h : ∀ c ∈ cs, c.isPlain = true) :
    (direct path here cs).Asks (saidBy cs) ∧
      (direct path here cs).tasks.length ≤ sizeOfConjuncts cs := by
  induction cs with
  | nil =>
    rw [show saidBy [] = ∅ from Set.eq_empty_of_forall_notMem fun _ ⟨_, hc, _⟩ =>
      List.not_mem_nil hc]
    exact ⟨Expansion.asks_empty, le_rfl⟩
  | cons c cs ih =>
    obtain ⟨hrest, hlength⟩ := ih fun c' hc' => h c' (List.mem_cons_of_mem c hc')
    obtain ⟨hc, hlength'⟩ := Expr.asks_parts path here c.context c.expr (h c List.mem_cons_self)
    rw [direct_cons, show saidBy (c :: cs) = {d | d ∈ c.expr.demands} ∪
      saidBy cs by ext; simp [saidBy]]
    refine ⟨hc.append hrest, ?_⟩
    have hsize : sizeOfConjuncts (c :: cs) = c.expr.size + sizeOfConjuncts cs := rfl
    rw [hsize]
    exact (List.length_append).trans_le (Nat.add_le_add hlength' hlength)

/-! ## What restrictions come to -/

/-- A value is what demands come to: the atom that they determine, or else a failure, or something
left open if none of them is an atom. -/
def Resolves (v : Value) (demands : Set Demand) : Prop :=
  (∃ a p, v = .atom a p ∧ Determined demands a) ∨
  ((¬∃ a, Determined demands a) ∧
    (v.isFailed = true ∨ (∀ a, Demand.atom a ∉ demands) ∧ ∃ t ks ps, v = .vague t ks ps))

/-- All facts of an expansion are constraints. -/
def Expansion.OnlyConstraints (e : Expansion) : Prop := ∀ f ∈ e.facts, ∃ c, f = .constraint c

section Rounds

variable {known : Option Node} {path : List Text} {address : Address}

theorem filterMap_eq_nil_of_constraints {β : Type} {e : Expansion} (h : e.OnlyConstraints)
    (g : Fact → Option β) (hg : ∀ c, g (.constraint c) = none) : e.facts.filterMap g = [] := by
  refine List.filterMap_eq_nil_iff.mpr fun f hf => ?_
  obtain ⟨c, rfl⟩ := h f hf
  exact hg c

/-- The value of constraints is that of their blend. -/
theorem value_meet_of_constraints {e : Expansion} (h : e.OnlyConstraints) (n : Nat)
    (chosen : List Nat) :
    (meet (n + 1) known path address chosen e).value =
      if (Blend.of (e.facts.filterMap Fact.constraint?)).kinds.isEmpty then
        .failed ((Blend.of (e.facts.filterMap Fact.constraint?)).problems path)
          ((Blend.of (e.facts.filterMap Fact.constraint?)).problems path)
      else (failedValue? ((Blend.of (e.facts.filterMap Fact.constraint?)).problems path) []).getD
        (plainValue e.facts (Blend.of (e.facts.filterMap Fact.constraint?)) [] []) := by
  have hbodies : e.facts.filterMap Fact.body? = [] :=
    filterMap_eq_nil_of_constraints h _ fun _ => rfl
  have hsequences : e.facts.filterMap Fact.sequence? = [] :=
    filterMap_eq_nil_of_constraints h _ fun _ => rfl
  have hcycles : e.facts.filterMap Fact.cycle? = [] :=
    filterMap_eq_nil_of_constraints h _ fun _ => rfl
  have hproblems : e.facts.flatMap Fact.problems = [] := by
    refine List.flatMap_eq_nil_iff.mpr fun f hf => ?_
    obtain ⟨c, rfl⟩ := h f hf
    rfl
  have hcycle : (if e.choices.isEmpty then cycleProblems path e.facts else []) = [] := by
    simp [cycleProblems, hcycles]
  rw [meet]
  dsimp only
  rw [hbodies, hsequences, hproblems, hcycle]
  simp only [List.map_nil, List.flatMap_nil, List.eraseDups_nil, listProblems, List.nil_append,
    List.append_nil]
  rfl

theorem plainValue_of_constraints {e : Expansion} (h : e.OnlyConstraints) (b : Blend) :
    plainValue e.facts b [] [] = match b.atom with
      | some (a, c) => .atom a c.place
      | none => .vague b.description b.kinds b.place?.toList := by
  have hgaps : e.facts.filterMap Fact.gap? = [] := filterMap_eq_nil_of_constraints h _ fun _ => rfl
  have hbody : (e.facts.any fun f => (f.body?.map Body.imposes).getD false) = false := by
    refine List.any_eq_false.mpr fun f hf => ?_
    obtain ⟨c, rfl⟩ := h f hf
    exact Bool.false_ne_true
  have hsequence : (e.facts.any fun f => f.sequence?.isSome) = false := by
    refine List.any_eq_false.mpr fun f hf => ?_
    obtain ⟨c, rfl⟩ := h f hf
    exact Bool.false_ne_true
  unfold plainValue
  dsimp only
  rw [hgaps, hbody, hsequence]
  cases b.atom <;> rfl

/-- **Constraints come to what their demands determine.** -/
theorem resolves_meet {e : Expansion} {demands : Set Demand} (h : e.OnlyConstraints)
    (hdemands : demandsOf (e.facts.filterMap Fact.constraint?) = demands)
    (hplain : ∀ d ∈ demands, d.IsPlain) (n : Nat) (chosen : List Nat) :
    Resolves (meet (n + 1) known path address chosen e).value demands := by
  subst hdemands
  set cs := e.facts.filterMap Fact.constraint? with hcs
  by_cases hdetermined : ∃ a, Determined (demandsOf cs) a
  · obtain ⟨a, ha⟩ := hdetermined
    obtain ⟨hkinds, hproblems, b, c, hatom⟩ := Blend.exists_atom_of path hplain ha
    refine Or.inl ⟨b, c.place, ?_, Blend.determined_of hplain hkinds hproblems hatom⟩
    rw [value_meet_of_constraints h, ← hcs, if_neg (by simpa using hkinds), hproblems,
      plainValue_of_constraints h, hatom]
    rfl
  · refine Or.inr ⟨hdetermined, ?_⟩
    cases hfailed : (meet (n + 1) known path address chosen e).value.isFailed with
    | true => exact Or.inl rfl
    | false =>
      obtain ⟨hkinds, hproblems, -, -⟩ := value_meet rfl hfailed
      have hatom : (Blend.of cs).atom = none := by
        cases hatom : (Blend.of cs).atom with
        | none => rfl
        | some p =>
          exact absurd ⟨p.1, Blend.determined_of hplain hkinds hproblems hatom⟩ hdetermined
      refine Or.inr ⟨fun a ha => ?_, ?_⟩
      · have hsome := Blend.isSome_atom_of ha hkinds
        rw [hatom] at hsome
        cases hsome
      · rw [value_meet_of_constraints h, ← hcs, if_neg (by simpa using hkinds), hproblems,
          plainValue_of_constraints h, hatom]
        exact ⟨_, _, _, rfl⟩

theorem onlyName?_eq_none {e : Expansion} (h : ∀ t ∈ e.tasks, t.fact?.isSome = true) :
    onlyName? e = none := by
  unfold onlyName?
  split
  · next p n context _ htasks _ =>
    have hsome := h ⟨.name p n, context⟩ (htasks ▸ List.mem_singleton_self _)
    cases hsome
  · rfl

/-- Without choices a node is what its facts come to. -/
theorem evaluate_of_expand {n : Nat} {cs : List Conjunct} {whole : Expansion}
    (hwhole : expand n known path address [] [] cs = whole) (hchoices : whole.choices = [])
    (hname : onlyName? (direct path (address ++ [.branch []]) cs) = none) :
    evaluate (n + 1) known path address cs =
      .mk cs (meet n known path address [] whole).value []
        [([], (meet n known path address [] whole).members)] := by
  rw [direct] at hname
  rw [evaluate]
  dsimp only
  rw [hwhole, if_pos (by rw [hchoices]; rfl), hname]

/-- **Restrictions alone come to what they determine.** -/
theorem resolves_evaluate (known : Option Node) (path : List Text) (address : Address)
    {cs : List Conjunct} (hplain : ∀ c ∈ cs, c.isPlain = true) {n : Nat}
    (hn : sizeOfConjuncts cs + 6 ≤ n) :
    Resolves (evaluate n known path address cs).value (saidBy cs) := by
  obtain ⟨hasks, hlength⟩ := asks_direct path (address ++ [.branch []]) hplain
  obtain ⟨k, rfl⟩ := Nat.exists_eq_add_of_le' (show 6 ≤ n by omega)
  have hexpand := expand_of_facts known address [] rfl hasks.tasks (n := k + 5) (by omega)
  rw [evaluate_of_expand hexpand hasks.choices (onlyName?_eq_none hasks.tasks)]
  exact resolves_meet (e := ⟨_, _, _, _, _⟩) hasks.facts hasks.demands
    (isPlain_of_mem_saidBy hplain) _ _

end Rounds

end Config
end RepeatedAddition
