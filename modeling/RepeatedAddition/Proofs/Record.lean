import RepeatedAddition.Proofs.Choice

/-!
# Structs and lists of restrictions

Structs that meet are merged label by label, and lists item by item.  A struct fails if a member
does, and a list if an item does or if the lengths do not go together; otherwise the value is the
struct or the list of what its members come to.

* `Value.MadeOf`, `Value.ListOf`: a value is the struct or the list of given values, or has failed
  for one of them.
* `meet_of_bodies`, `value_meet_of_sequences`: structs and lists are merged member by member.
* `Expr.IsNested`, `evaluate_of_nested`: a node whose conjuncts are structs that may embed others.
* `evaluate_of_records`: a node whose conjuncts are structs of fields.
* `saidOf`, `resolves_memberNode`: what structs say of a member, and that the member comes to it.
-/

namespace RepeatedAddition
namespace Config

/-! ## Constraints that say no more than a kind -/

/-- Constraints of one kind that add nothing else have a blend of that kind. -/
theorem Blend.of_same_kind {k : Kind} {cs : List Constraint} (hne : cs ≠ [])
    (h : ∀ c ∈ cs, c.kinds = [k] ∧ ∀ b : Blend, b.addContent c = b) :
    (Blend.of cs).kinds = [k] ∧ (Blend.of cs).atom = none ∧ (Blend.of cs).conflicts = [] := by
  -- a blend that only knows kinds, and the constraint to name for them
  have hstep (b : Blend) (hb : b.atom = none ∧ b.lower = none ∧ b.conflicts = []) (hk : k ∈ b.kinds)
      (hnodup : Kind.common b.kinds [k] = [k]) (c : Constraint) (hc : c ∈ cs) :
      (b.add c).kinds = [k] ∧ (b.add c).atom = none ∧ (b.add c).lower = none ∧
      (b.add c).conflicts = [] := by
    obtain ⟨hkinds, hcontent⟩ := h c hc
    unfold Blend.add
    rw [if_neg (by simpa using List.ne_nil_of_mem hk)]
    dsimp only
    rw [hkinds, hnodup, if_neg (by simp), hcontent]
    unfold Blend.checkLimits
    dsimp only
    rw [hb.2.1]
    exact ⟨rfl, hb.1, rfl, hb.2.2⟩
  have hcommon : Kind.common Kind.all [k] = [k] := by cases k <;> rfl
  have hcommon' : Kind.common [k] [k] = [k] := by cases k <;> rfl
  cases cs with
  | nil => exact absurd rfl hne
  | cons c cs =>
    have hfirst := hstep {} ⟨rfl, rfl, rfl⟩ (Kind.mem_all k) hcommon c List.mem_cons_self
    suffices hfoldl : ∀ (ds : List Constraint) (b : Blend), (∀ d ∈ ds, d ∈ c :: cs) →
        b.kinds = [k] ∧ b.atom = none ∧ b.lower = none ∧ b.conflicts = [] →
        (ds.foldl Blend.add b).kinds = [k] ∧ (ds.foldl Blend.add b).atom = none ∧
          (ds.foldl Blend.add b).conflicts = [] from
      hfoldl cs _ (fun d hd => List.mem_cons_of_mem c hd) hfirst
    intro ds
    induction ds with
    | nil => exact fun b _ hb => ⟨hb.1, hb.2.1, hb.2.2.2⟩
    | cons d ds ih =>
      intro b hmem hb
      refine ih _ (fun d' hd' => hmem d' (List.mem_cons_of_mem d hd'))
        (hstep b hb.2 ?_ ?_ d (hmem d List.mem_cons_self))
      · rw [hb.1]
        exact List.mem_singleton_self k
      · rw [hb.1, hcommon']

theorem Blend.problems_of_quiet {b : Blend} (hatom : b.atom = none) (hconflicts : b.conflicts = [])
    (path : List Text) :
    b.problems path = [] := by
  rw [Blend.problems, hatom, hconflicts]
  rfl

/-! ## Structs and lists of members -/

theorem find?_labels {β : Type} (labels : List Label) (f : Label → β) (l : Label) :
    (labels.map fun l => (l, f l)).find? (fun m => m.1 = l) = if l ∈ labels then some (l, f l) else
      none := by
  induction labels with
  | nil => rfl
  | cons k labels ih =>
    simp only [List.map_cons, List.find?_cons, List.mem_cons]
    by_cases hk : k = l
    · rw [decide_eq_true hk, if_pos (Or.inl hk.symm), hk]
    · rw [decide_eq_false hk, ih]
      simp only [Ne.symm hk, false_or]

namespace Value

/-- A value is the struct of given members, or has failed because one of them has. -/
def MadeOf (v : Value) (labels : List Label) (member : Label → Value) : Prop :=
  v.isFailed = true ∧ (∃ l ∈ labels, (member l).isFailed = true) ∨
  v = .struct (labels.map fun l => (l, member l)) ∧ ∀ l ∈ labels, (member l).isFailed = false

/-- A value is the list of given items, or has failed because one of them has or the list cannot
be. -/
def ListOf (v : Value) (possible : Prop) (items : List Value) : Prop :=
  v.isFailed = true ∧ (¬possible ∨ ∃ w ∈ items, w.isFailed = true) ∨
  v = .list items ∧ possible ∧ ∀ w ∈ items, w.isFailed = false

/-- Whether a value has not failed and leaves nothing open. -/
def IsComplete (path : List Text) (v : Value) : Prop := v.isFailed = false ∧ v.gaps path = []

variable {v : Value} {labels : List Label} {member : Label → Value}

theorem gapsOfFields_eq_nil_iff (path : List Text) (labels : List Label) (member : Label → Value) :
    gapsOfFields path (labels.map fun l => (l, member l)) = [] ↔
      ∀ l ∈ labels, l.isRegular = true → (member l).gaps (path ++ [l.text]) = [] := by
  induction labels with
  | nil => simp [gapsOfFields]
  | cons l labels ih =>
    rw [List.map_cons, gapsOfFields, List.append_eq_nil_iff, ih, List.forall_mem_cons]
    simp

theorem gapsOfItems_eq_nil_iff (path : List Text) (items : List Value) (start : Nat) :
    gapsOfItems path start items = [] ↔
      ∀ (i : Nat) (w : Value), items[i]? = some w →
        w.gaps (path ++ [Text.decimal (start + i)]) = [] := by
  induction items generalizing start with
  | nil => simp [gapsOfItems]
  | cons v items ih =>
    rw [gapsOfItems, List.append_eq_nil_iff, ih]
    constructor
    · rintro ⟨hv, hitems⟩ (_ | i) w hw
      · obtain rfl := Option.some.inj hw
        exact hv
      · rw [← Nat.add_assoc, Nat.add_right_comm]
        exact hitems i w hw
    · intro h
      refine ⟨h 0 v rfl, fun i w hw => ?_⟩
      rw [Nat.add_right_comm]
      exact h (i + 1) w hw

/-- A struct is complete if its members are, those outside of the data only need to hold. -/
theorem MadeOf.isComplete_iff (h : v.MadeOf labels member) (path : List Text) :
    v.IsComplete path ↔ ∀ l ∈ labels, (member l).isFailed = false ∧
      (l.isRegular = true → (member l).gaps (path ++ [l.text]) = []) := by
  rcases h with ⟨hfailed, l, hl, hmember⟩ | ⟨rfl, hmembers⟩
  · refine ⟨fun hcomplete => ?_, fun hall => ?_⟩
    · rw [hcomplete.1] at hfailed
      cases hfailed
    · rw [(hall l hl).1] at hmember
      cases hmember
  · constructor
    · rintro ⟨-, hgaps⟩ l hl
      exact ⟨hmembers l hl, (gapsOfFields_eq_nil_iff path labels member).mp hgaps l hl⟩
    · intro hall
      exact ⟨rfl, (gapsOfFields_eq_nil_iff path labels member).mpr fun l hl => (hall l hl).2⟩

/-- A list is complete if its items are. -/
theorem ListOf.isComplete_iff {possible : Prop} {items : List Value} (h : v.ListOf possible items)
    (path : List Text) :
    v.IsComplete path ↔
      possible ∧ ∀ (i : Nat) (w : Value), items[i]? = some w →
        w.IsComplete (path ++ [Text.decimal i]) := by
  rcases h with ⟨hfailed, hwhy⟩ | ⟨rfl, hpossible, hitems⟩
  · refine ⟨fun hcomplete => ?_, fun ⟨hpossible, hall⟩ => ?_⟩
    · rw [hcomplete.1] at hfailed
      cases hfailed
    · obtain ⟨w, hw, hitem⟩ := hwhy.resolve_left fun h => h hpossible
      obtain ⟨i, hi⟩ := List.mem_iff_getElem?.mp hw
      rw [(hall i w hi).1] at hitem
      cases hitem
  · have hgaps := gapsOfItems_eq_nil_iff path items 0
    simp only [Nat.zero_add] at hgaps
    constructor
    · rintro ⟨-, h⟩
      exact ⟨hpossible, fun i w hw => ⟨hitems w (List.mem_of_getElem? hw), hgaps.mp h i w hw⟩⟩
    · rintro ⟨-, h⟩
      exact ⟨rfl, hgaps.mpr fun i w hw => (h i w hw).2⟩

theorem get?_struct (labels : List Label) (member : Label → Value) (l : Label) :
    (Value.struct (labels.map fun l => (l, member l))).get? l =
      if l ∈ labels then some (member l) else none := by
  rw [get?, find?_labels]
  split <;> rfl

theorem MadeOf.eq_struct (h : v.MadeOf labels member) (hv : v.isFailed = false) :
    v = .struct (labels.map fun l => (l, member l)) := by
  rcases h with ⟨hfailed, -⟩ | ⟨hstruct, -⟩
  · rw [hv] at hfailed
    cases hfailed
  · exact hstruct

theorem agreesOnFields_iff {labels' : List Label} {member' : Label → Value} :
    agreesOnFields (labels.map fun l => (l, member l))
        (labels'.map fun l => (l, member' l)) = true ↔
      ∀ l ∈ labels, l ∈ labels' ∧ (member l).agrees (member' l) = true := by
  induction labels with
  | nil => simp [agreesOnFields]
  | cons l labels ih =>
    rw [List.map_cons, agreesOnFields, Bool.and_eq_true_iff, ih, List.forall_mem_cons, find?_labels]
    refine and_congr_left fun _ => ?_
    by_cases hl : l ∈ labels' <;> simp [hl]

end Value

/-- The struct with given members, unless one of them has failed. -/
def structValue (members : List (Label × Node)) : Value :=
  (failedValue? [] members).getD (.struct (members.map fun m => (m.1, m.2.value)))

/-- The list with given items, unless there are problems or one of the items has failed. -/
def listValue (problems : List Problem) (items : List (Label × Node)) : Value :=
  (failedValue? problems items).getD (.list (items.map fun m => m.2.value))

theorem structValue_madeOf (labels : List Label) (node : Label → Node) :
    (structValue (labels.map fun l => (l, node l))).MadeOf labels fun l => (node l).value := by
  unfold structValue failedValue?
  cases hfailed : (labels.map fun l => (l, node l)).filter fun m => m.2.value.isFailed with
  | nil =>
    refine Or.inr ⟨by simp, fun l hl => ?_⟩
    simpa using List.filter_eq_nil_iff.mp hfailed (l, node l) (List.mem_map_of_mem hl)
  | cons m ms =>
    obtain ⟨hmem, hm⟩ := List.mem_filter.mp (hfailed ▸ List.mem_cons_self)
    obtain ⟨l, hl, rfl⟩ := List.mem_map.mp hmem
    exact Or.inl ⟨by simp [Value.isFailed], l, hl, hm⟩

theorem listValue_listOf (problems : List Problem) (items : List (Label × Node)) :
    (listValue problems items).ListOf (problems = []) (items.map fun m => m.2.value) := by
  unfold listValue failedValue?
  cases hfailed : items.filter fun m => m.2.value.isFailed with
  | nil =>
    cases problems with
    | nil =>
      refine Or.inr ⟨by simp, rfl, fun w hw => ?_⟩
      obtain ⟨m, hm, rfl⟩ := List.mem_map.mp hw
      simpa using List.filter_eq_nil_iff.mp hfailed m hm
    | cons p ps => exact Or.inl ⟨by simp [Value.isFailed], Or.inl (List.cons_ne_nil _ _)⟩
  | cons m ms =>
    obtain ⟨hmem, hm⟩ := List.mem_filter.mp (hfailed ▸ List.mem_cons_self)
    exact Or.inl ⟨by simp [Value.isFailed], Or.inr ⟨_, List.mem_map_of_mem hmem, hm⟩⟩

/-! ## Structs merged -/

/-- Whether a declaration is a field. -/
def Decl.isField : Decl → Bool
  | .field _ _ _ _ => true
  | _ => false

/-- A struct of fields. -/
def Body.IsRecord (b : Body) : Prop := ∀ d ∈ b.decls, d.isField = true

theorem Body.IsRecord.imposes {b : Body} (h : b.IsRecord) : b.imposes = true := by
  refine Bool.or_eq_true_iff.mpr
    (Or.inl (Bool.not_eq_eq_eq_not.mpr (List.any_eq_false.mpr fun d hd => ?_)))
  cases d with
  | field => exact Bool.false_ne_true
  | _ => cases h _ hd

theorem Body.closedBy_nil (b : Body) : b.closedBy [] = b := by
  obtain ⟨p, ds, context⟩ := b
  simp [Body.closedBy]

/-- The member of a node that structs make up. -/
def memberNode (n : Nat) (known : Option Node) (path : List Text) (here : Address)
    (bodies : List Body) (label : Label) : Node :=
  if admits bodies label then
    evaluate n known (path ++ [label.text]) (here ++ [.member label])
      (bodies.flatMap fun b => b.conjunctsOf here label)
  else notAllowed (path ++ [label.text]) (bodies.flatMap fun b => b.conjunctsOf here label)

/-- The labels of structs taken together. -/
def labelsOf (bodies : List Body) : List Label := (bodies.flatMap Body.labels).eraseDups

/-- The members of a node that structs make up. -/
def membersOf (n : Nat) (known : Option Node) (path : List Text) (here : Address)
    (bodies : List Body) :
    List (Label × Node) :=
  (labelsOf bodies).map fun label => (label, memberNode n known path here bodies label)

/-- **Structs are merged member by member.** -/
theorem meet_of_bodies (known : Option Node) (path : List Text) (address : Address)
    {bodies : List Body} (himposes : ∃ b ∈ bodies, b.imposes = true) (n : Nat) (chosen : List Nat)
    (uses : List Use) :
    (meet (n + 1) known path address chosen { facts := bodies.map .body, uses := uses }).value =
        structValue (membersOf n known path (address ++ [.branch chosen]) bodies) ∧
      (meet (n + 1) known path address chosen { facts := bodies.map .body, uses := uses }).members =
        membersOf n known path (address ++ [.branch chosen]) bodies := by
  have hbodies : (bodies.map Fact.body).filterMap Fact.body? = bodies := by
    simp [List.filterMap_map, Function.comp_def, Fact.body?]
  have hclosed : bodies.map (Body.closedBy []) = bodies :=
    (List.map_congr_left fun b _ => b.closedBy_nil).trans (List.map_id' bodies)
  have hsequences : (bodies.map Fact.body).filterMap Fact.sequence? = [] := by
    simp [List.filterMap_map, Function.comp_def, Fact.sequence?]
  have hproblems : (bodies.map Fact.body).flatMap Fact.problems = [] := by
    simp [List.flatMap_map, Fact.problems]
  have hcycle : cycleProblems path (bodies.map Fact.body) = [] := by
    simp [cycleProblems, List.filterMap_map, Function.comp_def, Fact.cycle?]
  have hany : ((bodies.map Fact.body).any fun f => (f.body?.map Body.imposes).getD false) =
      true := by
    obtain ⟨b, hb, himposes⟩ := himposes
    exact List.any_eq_true.mpr ⟨.body b, List.mem_map_of_mem hb, himposes⟩
  have hgaps : (bodies.map Fact.body).filterMap Fact.gap? = [] := by
    simp [List.filterMap_map, Function.comp_def, Fact.gap?]
  -- those that impose nothing give no constraint, and the others only that the node is a struct
  have hsame : ∀ c ∈ (bodies.map Fact.body).filterMap Fact.constraint?,
      c.kinds = [.struct] ∧ ∀ blend : Blend, blend.addContent c = blend := by
    intro c hc
    obtain ⟨f, hf, hfc⟩ := List.mem_filterMap.mp hc
    obtain ⟨b, -, rfl⟩ := List.mem_map.mp hf
    rw [Fact.constraint?, Option.ite_none_right_eq_some] at hfc
    obtain ⟨-, hfc⟩ := hfc
    obtain rfl := Option.some.inj hfc
    exact ⟨rfl, fun _ => rfl⟩
  have hsome : (bodies.map Fact.body).filterMap Fact.constraint? ≠ [] := by
    obtain ⟨b, hb, himposes⟩ := himposes
    exact List.ne_nil_of_mem (List.mem_filterMap.mpr ⟨.body b, List.mem_map_of_mem hb,
      if_pos himposes⟩)
  obtain ⟨hkinds, hatom, hconflicts⟩ := Blend.of_same_kind hsome hsame
  rw [meet]
  dsimp only
  rw [hbodies, hclosed, hsequences, hproblems, hcycle, Blend.problems_of_quiet hatom hconflicts]
  rw [hkinds, plainValue, hgaps, hany, hatom]
  have hitems : List.range (commonCount []) = [] := rfl
  simp only [hitems, List.map_nil, List.append_nil]
  exact ⟨rfl, rfl⟩

/-- The item of a node that lists make up. -/
def itemNode (n : Nat) (known : Option Node) (path : List Text) (here : Address)
    (ss : List Sequence) (i : Nat) : Node :=
  evaluate n known (path ++ [Text.decimal i]) (here ++ [.member (.index i)])
    (ss.filterMap fun s => s.conjunct? i)

/-- **Lists are merged item by item.** -/
theorem value_meet_of_sequences (known : Option Node) (path : List Text) (address : Address)
    {ss : List Sequence} (hne : ss ≠ []) (n : Nat) (chosen : List Nat) :
    (meet (n + 1) known path address chosen { facts := ss.map .sequence }).value =
      listValue (listProblems path ss) ((List.range (commonCount ss)).map fun i =>
        (.index i, itemNode n known path (address ++ [.branch chosen]) ss i)) := by
  have hbodies : (ss.map Fact.sequence).filterMap Fact.body? = [] := by
    simp [List.filterMap_map, Function.comp_def, Fact.body?]
  have hsequences : (ss.map Fact.sequence).filterMap Fact.sequence? = ss := by
    simp [List.filterMap_map, Function.comp_def, Fact.sequence?]
  have hproblems : (ss.map Fact.sequence).flatMap Fact.problems = [] := by
    simp [List.flatMap_map, Fact.problems]
  have hcycle : cycleProblems path (ss.map Fact.sequence) = [] := by
    simp [cycleProblems, List.filterMap_map, Function.comp_def, Fact.cycle?]
  have hconstraints : (ss.map Fact.sequence).filterMap Fact.constraint? =
      ss.map fun s => ⟨.list s.items s.tail, s.place, s.context.route⟩ := by
    rw [List.filterMap_map, ← List.filterMap_eq_map]
    rfl
  have himposes : ((ss.map Fact.sequence).any fun f => (f.body?.map Body.imposes).getD false) =
      false := by
    simp [Fact.body?]
  have hlist : ((ss.map Fact.sequence).any fun f => f.sequence?.isSome) = true := by
    obtain ⟨s, rest, rfl⟩ := List.exists_cons_of_ne_nil hne
    rfl
  have hgaps : (ss.map Fact.sequence).filterMap Fact.gap? = [] := by
    simp [List.filterMap_map, Function.comp_def, Fact.gap?]
  have hsame :
      ∀ c ∈ ss.map fun s => (⟨.list s.items s.tail, s.place, s.context.route⟩ : Constraint),
      c.kinds = [.list] ∧ ∀ blend : Blend, blend.addContent c = blend := by
    intro c hc
    obtain ⟨s, -, rfl⟩ := List.mem_map.mp hc
    exact ⟨rfl, fun _ => rfl⟩
  obtain ⟨hkinds, hatom, hconflicts⟩ := Blend.of_same_kind (by simpa using hne) hsame
  rw [meet]
  dsimp only
  rw [hbodies, hsequences, hproblems, hcycle, hconstraints,
    Blend.problems_of_quiet hatom hconflicts]
  rw [hkinds, plainValue, hgaps, himposes, hlist, hatom]
  simp only [List.map_nil, List.flatMap_nil, List.eraseDups_nil, List.nil_append, ite_self,
    List.append_nil]
  rfl

/-! ## Structs that embed structs -/

/-- An expression is a struct of fields, and of other such structs that it embeds. -/
inductive Expr.IsNested : Expr → Prop where
  | struct {p : Position} {ds : List Decl} (hdecls : ∀ d ∈ ds, d.isField = true ∨ ∃ e,
      d = .embedded e)
      (hembedded : ∀ e, .embedded e ∈ ds → e.IsNested) : IsNested (.struct p ds)

mutual

/-- The structs that an expression is made of, in a branch at an address: itself, and those that it
embeds. -/
def Expr.bodies (here : Address) (context : Context) : Expr → List Body
  | .struct p ds => ⟨p, ds, context⟩ :: bodiesOfDecls here context p ds ds
  | _ => []

/-- The structs that a struct with declarations `all` embeds. -/
def bodiesOfDecls (here : Address) (context : Context) (place : Position) (all : List Decl) :
    List Decl → List Body
  | [] => []
  | .embedded e :: ds =>
    Expr.bodies here (context.embedding here all place e.place) e ++
      bodiesOfDecls here context place all ds
  | _ :: ds => bodiesOfDecls here context place all ds

end

section Nested

variable {here : Address} {context : Context} {place : Position} {all ds : List Decl}

theorem mem_bodiesOfDecls {b : Body} :
    b ∈ bodiesOfDecls here context place all ds ↔
      ∃ e, .embedded e ∈ ds ∧ b ∈ e.bodies here (context.embedding here all place e.place) := by
  induction ds with
  | nil => simp [bodiesOfDecls]
  | cons d ds ih =>
    cases d with
    | embedded e =>
      simp only [bodiesOfDecls, List.mem_append, ih, List.mem_cons, Decl.embedded.injEq,
        or_and_right, exists_or, exists_eq_left]
    | _ => simp only [bodiesOfDecls, ih, List.mem_cons, reduceCtorEq, false_or]

theorem bodiesOfDecls_of_fields (h : ∀ d ∈ ds, d.isField = true) :
    bodiesOfDecls here context place all ds = [] := by
  refine List.eq_nil_iff_forall_not_mem.mpr fun b hb => ?_
  obtain ⟨e, he, -⟩ := mem_bodiesOfDecls.mp hb
  cases h _ he

/-- What a struct embeds comes apart into the structs that it is made of, if each expression
does. -/
theorem partsOfDecls_eq {path : List Text}
    (hdecls : ∀ d ∈ ds, d.isField = true ∨ ∃ e, d = .embedded e)
    (hparts : ∀ e, .embedded e ∈ ds → ∀ context, e.parts path here context =
      { facts := (e.bodies here context).map .body }) :
    partsOfDecls path here context place all ds =
    { facts := (bodiesOfDecls here context place all ds).map .body } := by
  induction ds with
  | nil => rfl
  | cons d ds ih =>
    have hrest := ih (fun d' hd' => hdecls d' (List.mem_cons_of_mem d hd'))
      fun e he => hparts e (List.mem_cons_of_mem d he)
    cases d with
    | field => simpa only [partsOfDecls, bodiesOfDecls] using hrest
    | embedded e =>
      rw [partsOfDecls, bodiesOfDecls, hparts e List.mem_cons_self, hrest, List.map_append]
      rfl
    | _ => exact absurd (hdecls _ List.mem_cons_self) (by simp [Decl.isField])

namespace Expr.IsNested

variable {e : Expr}

/-- **Nested structs come apart into themselves.** -/
theorem parts_eq (h : e.IsNested) (path : List Text) (context : Context) :
    e.parts path here context = { facts := (e.bodies here context).map .body } := by
  induction h generalizing context with
  | struct hdecls _ ih =>
    rw [Expr.parts, partsOfDecls_eq hdecls ih, Expr.bodies]
    rfl

/-- Of nested structs one embeds no other, and makes its node a struct. -/
theorem exists_imposes (h : e.IsNested) (context : Context) :
    ∃ b ∈ e.bodies here context, b.imposes = true := by
  induction h generalizing context with
  | @struct p ds hdecls _ ih =>
    rw [Expr.bodies]
    by_cases hembedded : ∃ e, .embedded e ∈ ds
    · obtain ⟨e, he⟩ := hembedded
      obtain ⟨b, hb, himposes⟩ := ih e he (context.embedding here ds p e.place)
      exact ⟨b, List.mem_cons_of_mem _ (mem_bodiesOfDecls.mpr ⟨e, he, hb⟩), himposes⟩
    · refine ⟨_, List.mem_cons_self, Body.IsRecord.imposes fun d hd => ?_⟩
      exact (hdecls d hd).resolve_right fun ⟨e, he⟩ => hembedded ⟨e, he ▸ hd⟩

/-- Embedding closes nothing. -/
theorem groups_of_mem_bodies (h : e.IsNested) {b : Body} (hb : b ∈ e.bodies here context) :
    b.context.groups = context.groups := by
  induction h generalizing context with
  | struct _ _ ih =>
    rcases List.mem_cons.mp (Expr.bodies.eq_1 .. ▸ hb) with rfl | hb
    · rfl
    · obtain ⟨e, he, hb⟩ := mem_bodiesOfDecls.mp hb
      have hgroups := ih e he hb
      exact hgroups

end Expr.IsNested

end Nested

/-- The structs that a conjunct is made of. -/
def Conjunct.bodies (here : Address) (c : Conjunct) : List Body := c.expr.bodies here c.context

/-- Conjuncts that are nested structs come apart into these. -/
theorem direct_of_nested (path : List Text) (here : Address) {cs : List Conjunct}
    (h : ∀ c ∈ cs, c.expr.IsNested) :
    direct path here cs = { facts := (cs.flatMap (Conjunct.bodies here)).map .body } := by
  induction cs with
  | nil => rfl
  | cons c cs ih =>
    rw [direct_cons, ih fun c' hc' => h c' (List.mem_cons_of_mem _ hc'), Conjunct.parts,
      (h c List.mem_cons_self).parts_eq, List.flatMap_cons, List.map_append]
    rfl

/-- **A node of nested structs has the members that they have together.** -/
theorem evaluate_of_nested (known : Option Node) (path : List Text) (address : Address)
    {cs : List Conjunct} (hne : cs ≠ []) (h : ∀ c ∈ cs, c.expr.IsNested) (n : Nat) :
    evaluate (n + 6) known path address cs =
      .mk cs (structValue (membersOf (n + 4) known path (address ++ [.branch []])
          (cs.flatMap (Conjunct.bodies (address ++ [.branch []]))))) []
        [([], membersOf (n + 4) known path (address ++ [.branch []])
          (cs.flatMap (Conjunct.bodies (address ++ [.branch []]))))] := by
  have hdirect := direct_of_nested path (address ++ [.branch []]) h
  have hexpand :=
    expand_of_facts known address [] hdirect (List.forall_mem_nil _) (n := n + 5) (by simp)
  have himposes : ∃ b ∈ cs.flatMap (Conjunct.bodies (address ++ [.branch []])),
      b.imposes = true := by
    obtain ⟨c, hc⟩ := List.exists_mem_of_ne_nil cs hne
    obtain ⟨b, hb, himposes⟩ := (h c hc).exists_imposes c.context
    exact ⟨b, List.mem_flatMap.mpr ⟨c, hc, hb⟩, himposes⟩
  have hmeet := meet_of_bodies known path address himposes (n + 4) [] []
  rw [evaluate_of_expand hexpand rfl
    (onlyName?_eq_none (by rw [hdirect]; exact List.forall_mem_nil _))]
  simp only [Expansion.settled, List.filterMap_nil, List.append_nil]
  rw [hmeet.1, hmeet.2]

/-! ## Conjuncts that are structs of fields -/

namespace Conjunct

/-- The struct of a conjunct. -/
def body (c : Conjunct) : Body :=
  match c.expr with
  | .struct p ds => ⟨p, ds, c.context⟩
  | e => ⟨e.place, [], c.context⟩

/-- A conjunct is a struct of fields. -/
def IsRecord (c : Conjunct) : Prop := ∃ p ds, c.expr = .struct p ds ∧ ∀ d ∈ ds, d.isField = true

variable {c : Conjunct}

theorem IsRecord.body (h : c.IsRecord) : c.body.IsRecord := by
  obtain ⟨e, context⟩ := c
  obtain ⟨p, ds, rfl, hfields⟩ := h
  exact hfields

theorem IsRecord.isNested (h : c.IsRecord) : c.expr.IsNested := by
  obtain ⟨p, ds, hexpr, hfields⟩ := h
  rw [hexpr]
  exact .struct (fun d hd => Or.inl (hfields d hd)) fun e he =>
    absurd (hfields _ he) (by simp [Decl.isField])

theorem IsRecord.bodies_eq (h : c.IsRecord) (here : Address) : c.bodies here = [c.body] := by
  obtain ⟨e, context⟩ := c
  obtain ⟨p, ds, rfl, hfields⟩ := h
  rw [bodies, Expr.bodies, bodiesOfDecls_of_fields hfields]
  rfl

end Conjunct

theorem flatMap_bodies_of_records {cs : List Conjunct} (h : ∀ c ∈ cs, c.IsRecord) (here : Address) :
    cs.flatMap (Conjunct.bodies here) = cs.map Conjunct.body := by
  rw [List.flatMap_congr fun c hc => (h c hc).bodies_eq here, List.map_eq_flatMap]

/-- Structs of fields come apart into themselves. -/
theorem direct_of_records (path : List Text) (here : Address) {cs : List Conjunct}
    (h : ∀ c ∈ cs, c.IsRecord) :
    direct path here cs = { facts := (cs.map Conjunct.body).map .body } := by
  rw [direct_of_nested path here fun c hc => (h c hc).isNested, flatMap_bodies_of_records h]

/-- A node of structs of fields has the members that they have together. -/
theorem evaluate_of_records (known : Option Node) (path : List Text) (address : Address)
    {cs : List Conjunct} (hne : cs ≠ []) (h : ∀ c ∈ cs, c.IsRecord) (n : Nat) :
    evaluate (n + 6) known path address cs =
      .mk cs
        (structValue (membersOf (n + 4) known path (address ++ [.branch []])
          (cs.map Conjunct.body))) []
        [([], membersOf (n + 4) known path (address ++ [.branch []]) (cs.map Conjunct.body))] := by
  rw [evaluate_of_nested known path address hne fun c hc => (h c hc).isNested,
    flatMap_bodies_of_records h]

/-! ## What structs say of their members -/

/-- What a declaration says of the members of its struct. -/
def Decl.said : Decl → List (String × Demand)
  | .field (.regular name) _ _ e => e.demands.map (Prod.mk name)
  | _ => []

namespace Body

/-- What a struct says of its members. -/
def said (b : Body) : List (String × Demand) := b.decls.flatMap Decl.said

/-- What a struct says of a member is a restriction. -/
def PlainAt (b : Body) (name : String) : Prop :=
  ∀ bindable optional e, .field (.regular name) bindable optional e ∈ b.decls →
    e.isRestriction (Decl.names b.decls ++ b.context.names) = true

theorem mem_conjunctsOf {b : Body} {here : Address} {l : Label} {c : Conjunct} :
    c ∈ b.conjunctsOf here l ↔
      ∃ bindable optional e, .field l bindable optional e ∈ b.decls ∧
      c = ⟨e, b.context.member here b.decls⟩ := by
  constructor
  · intro hc
    obtain ⟨d, hd, hdc⟩ := List.mem_filterMap.mp hc
    cases d with
    | field k bindable optional e =>
      simp only [Option.ite_none_right_eq_some, Option.some.injEq] at hdc
      obtain ⟨rfl, rfl⟩ := hdc
      exact ⟨bindable, optional, e, hd, rfl⟩
    | _ => cases hdc
  · rintro ⟨bindable, optional, e, hd, rfl⟩
    exact List.mem_filterMap.mpr ⟨_, hd, if_pos rfl⟩

theorem mem_labels {b : Body} {l : Label} :
    l ∈ b.labels ↔ ∃ bindable e, .field l bindable false e ∈ b.decls := by
  constructor
  · intro hl
    obtain ⟨d, hd, hdl⟩ := List.mem_filterMap.mp hl
    cases d with
    | field k bindable optional e =>
      cases optional with
      | true => cases hdl
      | false => exact ⟨bindable, e, Option.some.inj hdl ▸ hd⟩
    | _ => cases hdl
  · rintro ⟨bindable, e, hd⟩
    exact List.mem_filterMap.mpr ⟨_, hd, rfl⟩

theorem mem_said {b : Body} {name : String} {d : Demand} :
    (name, d) ∈ b.said ↔
      ∃ bindable optional e, .field (.regular name) bindable optional e ∈ b.decls ∧
      d ∈ e.demands := by
  constructor
  · intro h
    obtain ⟨decl, hdecl, hmem⟩ := List.mem_flatMap.mp h
    unfold Decl.said at hmem
    split at hmem
    · next name' bindable optional e =>
      obtain ⟨d', hd', heq⟩ := List.mem_map.mp hmem
      obtain ⟨rfl, rfl⟩ := Prod.mk.inj heq
      exact ⟨bindable, optional, e, hdecl, hd'⟩
    · cases hmem
  · rintro ⟨bindable, optional, e, hdecl, hd⟩
    exact List.mem_flatMap.mpr ⟨_, hdecl, List.mem_map_of_mem hd⟩

theorem sizeOfConjuncts_le (b : Body) (here : Address) (l : Label) :
    sizeOfConjuncts (b.conjunctsOf here l) ≤ sizeOfDecls b.decls := by
  suffices h : ∀ (context : Context) (ds : List Decl), sizeOfConjuncts (ds.filterMap fun
      | .field k _ _ e => if k = l then some (⟨e, context⟩ : Conjunct) else none
      | _ => none) ≤ sizeOfDecls ds from h _ b.decls
  intro context ds
  induction ds with
  | nil => rfl
  | cons d ds ih =>
    cases d with
    | field k bindable optional e =>
      rw [List.filterMap_cons]
      dsimp only
      by_cases hk : k = l
      · rw [if_pos hk, sizeOfDecls]
        change e.size + sizeOfConjuncts _ ≤ _
        omega
      · rw [if_neg hk, sizeOfDecls]
        dsimp only
        omega
    | embedded e =>
      rw [List.filterMap_cons, sizeOfDecls]
      dsimp only
      omega
    | _ =>
      rw [List.filterMap_cons, sizeOfDecls]
      exact ih

end Body

theorem mem_labelsOf {bodies : List Body} {l : Label} :
    l ∈ labelsOf bodies ↔ ∃ b ∈ bodies, ∃ bindable e, .field l bindable false e ∈ b.decls := by
  simp only [labelsOf, List.mem_eraseDups, List.mem_flatMap, Body.mem_labels]

theorem nodup_eraseDups (labels : List Label) : labels.eraseDups.Nodup := by
  induction hlength : labels.length using Nat.strong_induction_on generalizing labels with
  | h n ih =>
    cases labels with
    | nil => exact List.nodup_nil
    | cons l labels =>
      have hshorter : (labels.filter fun k => !k == l).length < n :=
        (List.length_filter_le _ _).trans_lt (hlength ▸ Nat.lt_succ_self _)
      rw [List.eraseDups_cons, List.nodup_cons]
      exact ⟨by simp [List.mem_eraseDups], ih _ hshorter _ rfl⟩

/-- Structs outside of definitions admit any member. -/
theorem admits_of_groups {bodies : List Body} (h : ∀ b ∈ bodies, b.context.groups = [])
    (l : Label) :
    admits bodies l = true := by
  rw [admits, List.flatMap_eq_nil_iff.mpr h, List.all_nil, Bool.or_true]

/-- What structs say of a member. -/
def saidOf (bodies : List Body) (name : String) : Set Demand :=
  {d | ∃ b ∈ bodies, (name, d) ∈ b.said}

/-- The size of all structs. -/
def sizeOfBodies (bodies : List Body) : Nat := (bodies.map fun b => sizeOfDecls b.decls).sum

theorem sizeOfBodies_append (bs bs' : List Body) :
    sizeOfBodies (bs ++ bs') = sizeOfBodies bs + sizeOfBodies bs' := by
  simp [sizeOfBodies]

/-- What a struct embeds has no more than the square of its size, if each expression has. -/
theorem sizeOfBodies_bodiesOfDecls_le {here : Address} (context : Context) (place : Position)
    (all : List Decl) {ds : List Decl}
    (h : ∀ e, .embedded e ∈ ds → ∀ context,
      sizeOfBodies (e.bodies here context) ≤ e.size * e.size) :
    sizeOfBodies (bodiesOfDecls here context place all ds) ≤ sizeOfDecls ds * sizeOfDecls ds := by
  induction ds with
  | nil => exact Nat.zero_le _
  | cons d ds ih =>
    have hrest := ih fun e he => h e (List.mem_cons_of_mem d he)
    cases d with
    | embedded e =>
      have he := h e List.mem_cons_self (context.embedding here all place e.place)
      rw [bodiesOfDecls, sizeOfBodies_append, sizeOfDecls]
      nlinarith
    | field l bindable optional e =>
      rw [sizeOfDecls]
      exact hrest.trans (Nat.mul_self_le_mul_self (Nat.le_add_left _ _))
    | _ => exact hrest

/-- Nested structs have together no more than the square of the size. -/
theorem Expr.IsNested.sizeOfBodies_le {e : Expr} {here : Address} (h : e.IsNested)
    (context : Context) :
    sizeOfBodies (e.bodies here context) ≤ e.size * e.size := by
  induction h generalizing context with
  | @struct p ds _ _ ih =>
    have hembedded := sizeOfBodies_bodiesOfDecls_le context p ds ih
    have hsize : sizeOfBodies ((Expr.struct p ds).bodies here context) =
        sizeOfDecls ds + sizeOfBodies (bodiesOfDecls here context p ds ds) := rfl
    rw [hsize, Expr.size]
    nlinarith

theorem sizeOfConjuncts_append (cs ds : List Conjunct) :
    sizeOfConjuncts (cs ++ ds) = sizeOfConjuncts cs + sizeOfConjuncts ds := by
  simp [sizeOfConjuncts]

theorem sizeOfConjuncts_conjunctsOf_le (bodies : List Body) (here : Address) (l : Label) :
    sizeOfConjuncts (bodies.flatMap fun b => b.conjunctsOf here l) ≤ sizeOfBodies bodies := by
  induction bodies with
  | nil => rfl
  | cons b bodies ih =>
    rw [List.flatMap_cons, sizeOfConjuncts_append]
    exact Nat.add_le_add (b.sizeOfConjuncts_le here l) ih

theorem saidBy_conjunctsOf (bodies : List Body) (here : Address) (name : String) :
    saidBy (bodies.flatMap fun b => b.conjunctsOf here (.regular name)) = saidOf bodies name := by
  ext d
  simp only [saidBy, saidOf, Set.mem_ofPred_eq, List.mem_flatMap, Body.mem_conjunctsOf,
    Body.mem_said]
  constructor
  · rintro ⟨c, ⟨b, hb, bindable, optional, e, he, rfl⟩, hd⟩
    exact ⟨b, hb, bindable, optional, e, he, hd⟩
  · rintro ⟨b, hb, bindable, optional, e, he, hd⟩
    exact ⟨_, ⟨b, hb, bindable, optional, e, he, rfl⟩, hd⟩

theorem isPlain_conjunctsOf {bodies : List Body} {name : String} (h : ∀ b ∈ bodies, b.PlainAt name)
    (here : Address) :
    ∀ c ∈ bodies.flatMap fun b => b.conjunctsOf here (.regular name), c.isPlain = true := by
  intro c hc
  obtain ⟨b, hb, hmem⟩ := List.mem_flatMap.mp hc
  obtain ⟨bindable, optional, e, he, rfl⟩ := Body.mem_conjunctsOf.mp hmem
  exact h b hb bindable optional e he

theorem isPlain_of_mem_saidOf {bodies : List Body} {name : String}
    (h : ∀ b ∈ bodies, b.PlainAt name) :
    ∀ d ∈ saidOf bodies name, d.IsPlain := by
  rw [← saidBy_conjunctsOf bodies []]
  exact isPlain_of_mem_saidBy (isPlain_conjunctsOf h [])

/-- **A member of which structs say restrictions comes to what these determine.** -/
theorem resolves_memberNode (known : Option Node) (path : List Text) (here : Address)
    {bodies : List Body} {name : String} (hplain : ∀ b ∈ bodies, b.PlainAt name)
    (hadmits : admits bodies (.regular name) = true) {n : Nat} (hn : sizeOfBodies bodies + 6 ≤ n) :
    Resolves (memberNode n known path here bodies (.regular name)).value (saidOf bodies name) := by
  have hsize := sizeOfConjuncts_conjunctsOf_le bodies here (.regular name)
  rw [memberNode, if_pos hadmits, ← saidBy_conjunctsOf bodies here]
  exact resolves_evaluate _ _ _ (isPlain_conjunctsOf hplain here) (by omega)

/-! ## Lists of one length -/

theorem lengthProblems_eq_nil_iff (path : List Text) (length : Nat) (ss : List Sequence) :
    lengthProblems path length true ss = [] ↔
      ∀ s ∈ ss, s.length ≤ length ∧ (s.isClosed = true → length ≤ s.length) := by
  induction ss with
  | nil => simp [lengthProblems]
  | cons s ss ih =>
    rw [lengthProblems]
    simp only [List.append_eq_nil_iff, Bool.true_or, if_true, ih, List.forall_mem_cons,
      Bool.and_true]
    refine and_congr_left fun _ => ?_
    by_cases hlong : length < s.length
    · simp [hlong]
    · cases s.isClosed <;> by_cases hshort : s.length < length <;> simp [hlong, hshort] <;> omega

theorem foldl_max_length {length : Nat} (ss : List Sequence) (n : Nat) (hn : n ≤ length)
    (hle : ∀ s ∈ ss, s.length ≤ length) (hex : n = length ∨ ∃ s ∈ ss, s.length = length) :
    ss.foldl (fun n s => max n s.length) n = length := by
  induction ss generalizing n with
  | nil => exact hex.resolve_right fun ⟨_, hs, _⟩ => List.not_mem_nil hs
  | cons s ss ih =>
    have hs : s.length ≤ length := hle s List.mem_cons_self
    refine ih _ (max_le hn hs) (fun t ht => hle t (List.mem_cons_of_mem s ht)) ?_
    rcases hex with rfl | ⟨t, ht, htl⟩
    · exact Or.inl (max_eq_left hs)
    · rcases List.mem_cons.mp ht with rfl | ht
      · exact Or.inl ((max_eq_right (hn.trans htl.ge)).trans htl)
      · exact Or.inr ⟨t, ht, htl⟩

theorem foldl_min_length {length : Nat} (ss : List Sequence) (h : ∀ s ∈ ss, s.length = length) :
    ss.foldl (fun n s => min n s.length) length = length := by
  induction ss with
  | nil => rfl
  | cons s ss ih =>
    rw [List.foldl_cons, h s List.mem_cons_self, min_self]
    exact ih fun t ht => h t (List.mem_cons_of_mem s ht)

/-- Lists of which those without a tail have one length, and the others at most that, have that
length together. -/
theorem commonCount_eq {ss : List Sequence} {length : Nat} (hle : ∀ s ∈ ss, s.length ≤ length)
    (hclosed : ∀ s ∈ ss, s.isClosed = true → s.length = length)
    (hex : ∃ s ∈ ss, s.isClosed = true) :
    commonCount ss = length := by
  obtain ⟨s, hs, hc⟩ := hex
  rw [commonCount, itemCount,
    foldl_max_length ss 0 (Nat.zero_le _) hle (Or.inr ⟨s, hs, hclosed s hs hc⟩)]
  refine foldl_min_length _ fun t ht => ?_
  obtain ⟨hmem, htc⟩ := List.mem_filter.mp ht
  exact hclosed t hmem htc

end Config
end RepeatedAddition
