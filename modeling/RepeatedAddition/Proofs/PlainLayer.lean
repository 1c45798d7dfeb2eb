import RepeatedAddition.Proofs.CaseList

/-!
# Plain layers

A plain layer says what it says without names and choices: restrictions of its members, and for the
cases a list of rows.  What plain layers come to on top of the schema can be told from what they
say, without evaluating anything.

* `Expr.IsPlainLayer`, `layersSay`, `layersList`: plain layers and what they say.
* `round_eq`: the root in a round is the struct of the settings, each of which is evaluated by
  itself.
* `Settings.AreSaidBy`: settings are what is said of them.
* `settingsOf_eq_ok_iff_areSaidBy`: the settings of plain layers are those that the layers say.
-/

namespace RepeatedAddition
namespace Config

/-! ## Layers without names and choices -/

/-- Whether a declaration is plain, in a struct that binds given names: it gives a restriction, or a
list of rows for the cases, or embeds something, which has to be plain for itself. -/
def Decl.isPlain (bound : List String) : Decl → Bool
  | .field (.regular name) _ false e =>
    if name = "cases" then e.isCaseList bound else e.isRestriction bound
  | .embedded _ => true
  | _ => false

namespace Body

/-- A struct outside of definitions that says what it says without names and choices. -/
structure IsPlain (b : Body) : Prop where
  groups : b.context.groups = []
  decls : ∀ d ∈ b.decls, d.isPlain (Decl.names b.decls ++ b.context.names) = true

/-- The lists of rows that a struct gives for the cases. -/
def caseLists (b : Body) : List (List Row) :=
  b.decls.filterMap fun
    | .field l _ _ e => if l = .regular "cases" then some e.rows else none
    | _ => none

end Body

/-- The structs of a layer. -/
def layerBodies (e : Expr) : List Body := e.bodies [.branch []] {}

/-- A layer is plain: it uses no names but those of types, makes no choices and computes nothing. -/
structure Expr.IsPlainLayer (e : Expr) : Prop where
  nested : e.IsNested
  plain : ∀ b ∈ layerBodies e, ∀ d ∈ b.decls,
    d.isPlain (Decl.names b.decls ++ b.context.names) = true

/-- What layers say of a setting. -/
def layersSay (layers : List Expr) (name : String) : Set Demand :=
  saidOf (layers.flatMap layerBodies) name

/-- The lists of rows that layers give for the cases. -/
def layersList (layers : List Expr) : Set (List Row) :=
  {rows | ∃ b ∈ layers.flatMap layerBodies, rows ∈ b.caseLists}

theorem Expr.IsPlainLayer.isPlain {e : Expr} (h : e.IsPlainLayer) {b : Body}
    (hb : b ∈ layerBodies e) : b.IsPlain :=
  ⟨h.nested.groups_of_mem_bodies hb, h.plain b hb⟩

theorem isPlain_of_mem_layers {layers : List Expr} (h : ∀ e ∈ layers, e.IsPlainLayer) :
    ∀ b ∈ layers.flatMap layerBodies, b.IsPlain := by
  intro b hb
  obtain ⟨e, he, hmem⟩ := List.mem_flatMap.mp hb
  exact (h e he).isPlain hmem

namespace Body.IsPlain

variable {b : Body} (h : b.IsPlain)
include h

/-- The fields of a plain struct. -/
theorem exists_field {l : Label} {bindable optional : Bool} {e : Expr}
    (he : .field l bindable optional e ∈ b.decls) :
    ∃ name, l = .regular name ∧ optional = false ∧
      if name = "cases" then e.isCaseList (Decl.names b.decls ++ b.context.names) = true
      else e.isRestriction (Decl.names b.decls ++ b.context.names) = true := by
  have hdecl := h.decls _ he
  unfold Decl.isPlain at hdecl
  split at hdecl
  · next name bindable' e' heq =>
    cases heq
    refine ⟨name, rfl, rfl, ?_⟩
    split <;> simp_all
  · next heq => cases heq
  · cases hdecl

theorem plainAt {name : String} (hname : name ≠ "cases") : b.PlainAt name := by
  intro bindable optional e he
  obtain ⟨name', heq, -, hplain⟩ := h.exists_field he
  cases heq
  rwa [if_neg hname] at hplain

theorem isCaseList_of_mem_conjunctsOf (here : Address) :
    ∀ c ∈ b.conjunctsOf here (.regular "cases"), c.IsCaseList := by
  intro c hc
  obtain ⟨bindable, optional, e, he, rfl⟩ := Body.mem_conjunctsOf.mp hc
  obtain ⟨name', heq, -, hplain⟩ := h.exists_field he
  cases heq
  rw [if_pos rfl] at hplain
  exact ⟨hplain, h.groups⟩

theorem exists_name_of_mem_labels {l : Label} (hl : l ∈ b.labels) : ∃ name, l = .regular name := by
  obtain ⟨bindable, e, he⟩ := Body.mem_labels.mp hl
  obtain ⟨name, heq, -⟩ := h.exists_field he
  exact ⟨name, heq⟩

/-- A plain struct has the members that it says something of, apart from the cases. -/
theorem mem_labels {name : String} (hname : name ≠ "cases") :
    .regular name ∈ b.labels ↔ ∃ d, (name, d) ∈ b.said := by
  rw [Body.mem_labels]
  constructor
  · rintro ⟨bindable, e, he⟩
    obtain ⟨d, hd⟩ :=
      List.exists_mem_of_ne_nil _ (Expr.demands_ne_nil e (h.plainAt hname bindable false e he))
    exact ⟨d, Body.mem_said.mpr ⟨bindable, false, e, he, hd⟩⟩
  · rintro ⟨d, hd⟩
    obtain ⟨bindable, optional, e, he, -⟩ := Body.mem_said.mp hd
    obtain ⟨-, -, rfl, -⟩ := h.exists_field he
    exact ⟨bindable, e, he⟩

end Body.IsPlain

theorem Body.mem_caseLists {b : Body} (here : Address) {rows : List Row} :
    (∃ c ∈ b.conjunctsOf here (.regular "cases"), c.expr.rows = rows) ↔ rows ∈ b.caseLists := by
  constructor
  · rintro ⟨c, hc, rfl⟩
    obtain ⟨bindable, optional, e, he, rfl⟩ := Body.mem_conjunctsOf.mp hc
    exact List.mem_filterMap.mpr ⟨_, he, if_pos rfl⟩
  · intro hrows
    obtain ⟨d, hd, hrows⟩ := List.mem_filterMap.mp hrows
    cases d with
    | field l bindable optional e =>
      simp only [Option.ite_none_right_eq_some, Option.some.injEq] at hrows
      obtain ⟨rfl, rfl⟩ := hrows
      exact ⟨_, Body.mem_conjunctsOf.mpr ⟨bindable, optional, e, hd, rfl⟩, rfl⟩
    | _ => cases hrows

/-! ## The schema as a layer -/

namespace Schema

/-- The declarations of the schema. -/
theorem source_eq : source = .struct (place 3 1) [
    .field (.definition "#Case") true false caseDefinition,
    .field (.regular "method") true false methodChoice,
    .field (.regular "maxDepth") true false maxDepthChoice,
    .field (.regular "concurrency") true false concurrencyChoice,
    .field (.regular "format") true false formatChoice,
    .field (.regular "cases") true false casesChoice] := by
  have hmethod : Label.ofIdentifier "method" = .regular "method" := ofIdentifier_of_mem _ (by simp)
  have hmaxDepth : Label.ofIdentifier "maxDepth" = .regular "maxDepth" :=
    ofIdentifier_of_mem _ (by simp)
  have hconcurrency : Label.ofIdentifier "concurrency" = .regular "concurrency" :=
    ofIdentifier_of_mem _ (by simp)
  have hformat : Label.ofIdentifier "format" = .regular "format" := ofIdentifier_of_mem _ (by simp)
  have hcases : Label.ofIdentifier "cases" = .regular "cases" := ofIdentifier_of_mem _ (by simp)
  simp only [source, setting, ofIdentifier_case, hmethod, hmaxDepth, hconcurrency, hformat, hcases]

/-- The type of whole numbers. -/
def intType : Predeclared := ⟨"int", [.int], none, none⟩

/-- The names of the settings. -/
def settingNames : List String := ["method", "maxDepth", "concurrency", "format", "cases"]

/-- The schema is one struct. -/
def body : Body := (Conjunct.mk source {}).body

theorem isRecord_source : (Conjunct.mk source {}).IsRecord := by
  rw [source_eq]
  refine ⟨_, _, rfl, ?_⟩
  simp [Decl.isField]

theorem layerBodies_source : layerBodies source = [body] := isRecord_source.bodies_eq _

theorem mem_labels_source {l : Label} :
    l ∈ body.labels ↔ l = .definition "#Case" ∨ ∃ name ∈ settingNames, l = .regular name := by
  rw [body, source_eq]
  simp [Conjunct.body, Body.labels, settingNames]

/-- What the schema says of a member is all by one declaration. -/
theorem conjunctsOf_source {l : Label} {e : Expr} (h : .field l true false e ∈ source.decls) :
    body.conjunctsOf [.branch []] l = [⟨e, context⟩] := by
  rw [context, body]
  rw [source_eq] at h ⊢
  simp only [Expr.decls, List.mem_cons, Decl.field.injEq, true_and, List.not_mem_nil, or_false] at h
  rcases h with ⟨rfl, rfl⟩ | ⟨rfl, rfl⟩ | ⟨rfl, rfl⟩ | ⟨rfl, rfl⟩ | ⟨rfl, rfl⟩ | ⟨rfl, rfl⟩ <;> rfl

theorem conjunctsOf_source_eq_nil {name : String} (h : name ∉ settingNames) (here : Address) :
    body.conjunctsOf here (.regular name) = [] := by
  refine List.eq_nil_iff_forall_not_mem.mpr fun c hc => h ?_
  obtain ⟨bindable, optional, e, he, -⟩ := Body.mem_conjunctsOf.mp hc
  rw [body, source_eq] at he
  simp only [Conjunct.body, List.mem_cons, Decl.field.injEq, List.not_mem_nil, or_false,
    reduceCtorEq, false_and, false_or, Label.regular.injEq] at he
  simp only [settingNames, List.mem_cons, List.not_mem_nil, or_false]
  tauto

/-- A node that is only asked to be a word is left open. -/
theorem isFailed_evaluate_wordType (known : Option Node) (path : List Text) (address : Address)
    (line column : Nat) {context : Context} (h : context.scopeOf? "uint64" = none) (n : Nat) :
    (evaluate (n + 6) known path address [⟨name line column "uint64", context⟩]).value.isFailed =
      false := by
  set c : Constraint := ⟨.type wordType, place line column, context.route⟩ with hc
  have hparts : (name line column "uint64").parts path (address ++ [.branch []]) context =
      .fact (.constraint c) := by
    rw [name, Expr.parts, h]
    rfl
  have hdirect : direct path (address ++ [.branch []]) [⟨name line column "uint64", context⟩] =
      { facts := [.constraint c] } := by
    rw [direct, List.map_singleton, Conjunct.parts, hparts]
    rfl
  have hexpand :=
    expand_of_facts known address [] hdirect (List.forall_mem_nil _) (n := n + 5)
      (Nat.le_add_left 5 n)
  have honly : Expansion.OnlyConstraints { facts := [.constraint c] } :=
    List.forall_mem_singleton.mpr ⟨c, rfl⟩
  rw [evaluate_of_expand hexpand rfl (by rw [hdirect]; rfl)]
  change (meet _ known path address [] { facts := [.constraint c] }).value.isFailed = false
  rw [value_meet_of_constraints honly, plainValue_of_constraints honly]
  rfl

theorem isFailed_evaluate_caseDefinition (known : Option Node) (path : List Text)
    (address : Address) (n : Nat) :
    (evaluate (n + 12) known path address [⟨caseDefinition, context⟩]).value.isFailed = false := by
  have hrecord : ∀ c ∈ [(⟨caseDefinition, context⟩ : Conjunct)], c.IsRecord :=
    List.forall_mem_singleton.mpr (isBase_caseDefinition rfl).2.2
  have hfree (here : Address) (ds : List Decl) (hds : Decl.names ds = ["x", "y", "expected"]) :
      (context.member here ds).scopeOf? "uint64" = none := by
    have hnames : (context.member here ds).names = ["x", "y", "expected"] ++ context.names := by
      rw [← hds]
      rfl
    refine Context.scopeOf?_eq_none ?_
    rw [hnames]
    decide +kernel
  rw [evaluate_of_records known path address (List.cons_ne_nil _ _) hrecord (n + 6),
    caseDefinition_eq]
  set body : Body :=
    ⟨place 3 8, caseDecls (name 4 13 "uint64") (name 5 13 "uint64") (name 6 13 "uint64") true,
      context⟩
    with hbody
  have hx : ([body].flatMap fun b => b.conjunctsOf (address ++ [.branch []]) (.regular "x")) =
      [⟨name 4 13 "uint64", context.member (address ++ [.branch []]) body.decls⟩] := rfl
  have hy : ([body].flatMap fun b => b.conjunctsOf (address ++ [.branch []]) (.regular "y")) =
      [⟨name 5 13 "uint64", context.member (address ++ [.branch []]) body.decls⟩] := rfl
  rcases structValue_madeOf (labelsOf [body])
    (memberNode (n + 10) known path (address ++ [.branch []]) [body]) with
    ⟨-, l, hl, hfailed⟩ | ⟨hstruct, -⟩
  · -- an operand is a word, and nothing else is said of it
    obtain ⟨b, hb, bindable, e, he⟩ := mem_labelsOf.mp hl
    obtain rfl := List.mem_singleton.mp hb
    dsimp only at hfailed
    rw [memberNode, if_pos (by simp [admits, hbody, context])] at hfailed
    simp only [hbody, caseDecls, List.mem_cons, Decl.field.injEq, reduceCtorEq, false_and,
      and_false, List.not_mem_nil, or_false] at he
    rcases he with ⟨rfl, -⟩ | ⟨rfl, -⟩
    · rw [hx, isFailed_evaluate_wordType known _ _ 4 13 (hfree _ _ rfl) (n + 4)] at hfailed
      cases hfailed
    · rw [hy, isFailed_evaluate_wordType known _ _ 5 13 (hfree _ _ rfl) (n + 4)] at hfailed
      cases hfailed
  · exact congrArg Value.isFailed hstruct

end Schema

/-! ## The root -/

/-- The structs of the root: the schema and the layers. -/
def rootBodies (layers : List Expr) : List Body := Schema.body :: layers.flatMap layerBodies

section Root

variable {layers : List Expr} (hplain : ∀ e ∈ layers, e.IsPlainLayer)
include hplain

theorem isNested_of_mem_sources :
    ∀ c ∈ (Schema.source :: layers).map fun e => (⟨e, {}⟩ : Conjunct), c.expr.IsNested := by
  intro c hc
  obtain ⟨e, he, rfl⟩ := List.mem_map.mp hc
  rcases List.mem_cons.mp he with rfl | he
  · exact Schema.isRecord_source.isNested
  · exact (hplain e he).nested

omit hplain in
theorem bodies_sources (layers : List Expr) :
    ((Schema.source :: layers).map fun e => (⟨e, {}⟩ : Conjunct)).flatMap
    (Conjunct.bodies [.branch []]) = rootBodies layers := by
  rw [List.flatMap_map, List.flatMap_cons]
  exact congrArg (· ++ layers.flatMap layerBodies) Schema.layerBodies_source

theorem admits_rootBodies (l : Label) : admits (rootBodies layers) l = true := by
  refine admits_of_groups (fun b hb => ?_) l
  rcases List.mem_cons.mp hb with rfl | hb
  · rfl
  · exact (isPlain_of_mem_layers hplain b hb).groups

omit hplain in
theorem evaluate_conjuncts (n : Nat) (known : Option Node) (path : List Text) (address : Address)
    (cs : List Conjunct) :
    (evaluate n known path address cs).conjuncts = cs := by
  cases n with
  | zero => rw [evaluate]; rfl
  | succ n =>
    rw [evaluate]
    dsimp only
    split <;> rfl

/-- The members of the root in a round. -/
def rootMember (layers : List Expr) (known : Option Node) (l : Label) : Node :=
  memberNode (16 * sizeOf (Schema.source :: layers) * sizeOf (Schema.source :: layers) + 62) known
    [] [.branch []] (rootBodies layers) l

/-- A member of the root is complete in its place. -/
def CompleteAt (layers : List Expr) (known : Option Node) (name : String) : Prop :=
  (rootMember layers known (.regular name)).value.IsComplete [Label.text (.regular name)]

/-- A round gives the struct of the members of the root. -/
theorem round_eq (known : Option Node) :
    round (Schema.source :: layers) known = .mk ((Schema.source :: layers).map fun e => ⟨e, {}⟩)
      (structValue ((labelsOf (rootBodies layers)).map fun l => (l, rootMember layers known l))) []
      [([], (labelsOf (rootBodies layers)).map fun l => (l, rootMember layers known l))] := by
  have hne : ((Schema.source :: layers).map fun e => (⟨e, {}⟩ : Conjunct)) ≠ [] :=
    List.cons_ne_nil _ _
  have heval := evaluate_of_nested known [] [] hne (isNested_of_mem_sources hplain)
    (16 * sizeOf (Schema.source :: layers) * sizeOf (Schema.source :: layers) + 58)
  rw [List.nil_append, bodies_sources] at heval
  exact heval

/-- What the layers give a member of the root. -/
def layerConjuncts (layers : List Expr) (l : Label) : List Conjunct :=
  (layers.flatMap layerBodies).flatMap fun b => b.conjunctsOf [.branch []] l

theorem layerConjuncts_definition (name : String) :
    layerConjuncts layers (.definition name) = [] := by
  refine List.flatMap_eq_nil_iff.mpr fun b hb => List.eq_nil_iff_forall_not_mem.mpr fun c hc => ?_
  obtain ⟨bindable, optional, e, he, -⟩ := Body.mem_conjunctsOf.mp hc
  obtain ⟨name, heq, -⟩ := (isPlain_of_mem_layers hplain b hb).exists_field he
  cases heq

/-- What a round finds of the definition of a case is what the schema says. -/
theorem knowsCase_round (known : Option Node) :
    KnowsCase (some (round (Schema.source :: layers) known)) := by
  have hlabel : .definition "#Case" ∈ labelsOf (rootBodies layers) := by
    obtain ⟨bindable, e, he⟩ := Body.mem_labels.mp (Schema.mem_labels_source.mpr (Or.inl rfl))
    exact mem_labelsOf.mpr ⟨_, List.mem_cons_self, bindable, e, he⟩
  refine ⟨rootMember layers known (.definition "#Case"), ?_, ?_⟩
  · rw [lookUp, round_eq hplain, Schema.caseAddress]
    simp only [Node.find?, Node.members?, Node.branches, List.find?_cons, decide_true,
      Option.map_some, find?_labels, if_pos hlabel]
  · have hschema : Schema.body.conjunctsOf [.branch []] (.definition "#Case") =
        [⟨Schema.caseDefinition, Schema.context⟩] :=
      Schema.conjunctsOf_source (by rw [Schema.source_eq]; simp [Expr.decls])
    rw [rootMember, memberNode, if_pos (admits_rootBodies hplain _), evaluate_conjuncts, rootBodies,
      List.flatMap_cons, hschema, ← layerConjuncts, layerConjuncts_definition hplain,
      List.append_nil]

omit hplain in
theorem exists_round_known_of_settle (sources : List Expr) :
    ∀ (limit : Nat) (known : Option Node), ∃ known',
    settle sources (limit + 1) (round sources known) = round sources (some (round sources known'))
  | 0, known => by
    rw [settle]
    split <;> exact ⟨known, rfl⟩
  | limit + 1, known => by
    rw [settle]
    split
    · exact ⟨known, rfl⟩
    · exact exists_round_known_of_settle sources limit _

omit hplain in
/-- A unified value is the value of a round that knows what the one before has found. -/
theorem exists_round_known (sources : List Expr) :
    ∃ known, unify sources = (round sources (some (round sources known))).value := by
  obtain ⟨known, h⟩ := exists_round_known_of_settle sources (sizeOf sources + 1) none
  exact ⟨known, congrArg Node.value h⟩

omit hplain in
theorem sizeOf_cons (e : Expr) (layers : List Expr) :
    sizeOf (e :: layers) = e.size + sizeOf layers := by
  have hfoldl (size : Nat) : (layers.map Expr.size).foldl (· + ·) (size + e.size) =
      e.size + (layers.map Expr.size).foldl (· + ·) size := by
    induction layers generalizing size with
    | nil => exact Nat.add_comm ..
    | cons e' layers ih =>
      rw [List.map_cons, List.foldl_cons, List.foldl_cons, Nat.add_right_comm]
      exact ih _
  exact hfoldl 1

theorem sizeOfBodies_layers_le :
    sizeOfBodies (layers.flatMap layerBodies) + 1 ≤ sizeOf layers * sizeOf layers := by
  induction layers with
  | nil => exact le_rfl
  | cons e layers ih =>
    have hrest := ih fun e' he' => hplain e' (List.mem_cons_of_mem e he')
    have he : sizeOfBodies (layerBodies e) ≤ e.size * e.size :=
      (hplain e List.mem_cons_self).nested.sizeOfBodies_le _
    rw [List.flatMap_cons, sizeOfBodies_append, sizeOf_cons]
    nlinarith

/-- There is more fuel for a member than what the layers say of it needs. -/
theorem sizeOfConjuncts_layers_le (l : Label) : sizeOfConjuncts (layerConjuncts layers l) + 18 ≤
    16 * sizeOf (Schema.source :: layers) * sizeOf (Schema.source :: layers) + 62 := by
  have hconjuncts := sizeOfConjuncts_conjunctsOf_le (layers.flatMap layerBodies) [.branch []] l
  have hlayers := sizeOfBodies_layers_le hplain
  rw [layerConjuncts, sizeOf_cons]
  nlinarith

theorem rootMember_of_schema (known : Option Node) {l : Label} {e : Expr}
    (h : .field l true false e ∈ Schema.source.decls) :
    rootMember layers known l =
      evaluate (16 * sizeOf (Schema.source :: layers) * sizeOf (Schema.source :: layers) + 62) known
        ([] ++ [l.text])
        ([.branch []] ++ [.member l]) (⟨e, Schema.context⟩ :: layerConjuncts layers l) := by
  rw [rootMember, memberNode, if_pos (admits_rootBodies hplain l), rootBodies, List.flatMap_cons,
    Schema.conjunctsOf_source h]
  rfl

theorem plainAt_layers {name : String} (hname : name ≠ "cases") :
    ∀ b ∈ layers.flatMap layerBodies, b.PlainAt name :=
  fun b hb => (isPlain_of_mem_layers hplain b hb).plainAt hname

theorem isPlain_of_mem_layersSay {name : String} (hname : name ≠ "cases") :
    ∀ d ∈ layersSay layers name, d.IsPlain :=
  isPlain_of_mem_saidOf (plainAt_layers hplain hname)

omit hplain in
theorem listsOf_layers (layers : List Expr) :
    listsOf (layerConjuncts layers (.regular "cases")) = layersList layers := by
  ext rows
  constructor
  · rintro ⟨c, hc, hrows⟩
    obtain ⟨b, hb, hmem⟩ := List.mem_flatMap.mp hc
    exact ⟨b, hb, (Body.mem_caseLists _).mp ⟨c, hmem, hrows⟩⟩
  · rintro ⟨b, hb, hrows⟩
    obtain ⟨c, hmem, hrows⟩ := (Body.mem_caseLists [.branch []]).mpr hrows
    exact ⟨c, List.mem_flatMap.mpr ⟨b, hb, hmem⟩, hrows⟩

theorem isCaseList_layers : ∀ c ∈ layerConjuncts layers (.regular "cases"), c.IsCaseList := by
  intro c hc
  obtain ⟨b, hb, hmem⟩ := List.mem_flatMap.mp hc
  exact (isPlain_of_mem_layers hplain b hb).isCaseList_of_mem_conjunctsOf _ c hmem

/-- **A setting is chosen by what the layers say of it.** -/
theorem settles_rootMember (known : Option Node) {name : String} (hname : name ≠ "cases") {e : Expr}
    {as : Alternatives} {a : Atom} (h : .field (.regular name) true false e ∈ Schema.source.decls)
    (hparts : ∀ path here, e.parts path here Schema.context = { choices := [as.choice] })
    (halternatives : ∀ c ∈ as.all, c.isPlain = true ∧ c.expr.size ≤ 10) (hkind : a.kind ≠ .float)
    (hsame : ∀ c ∈ as.same, c.expr.demands = [.atom a]) :
    Settles (rootMember layers known (.regular name)).value
      (Chosen {x | x ∈ as.other.expr.demands} a (layersSay layers name)) := by
  have hsize := sizeOfConjuncts_layers_le hplain (.regular name)
  rw [rootMember_of_schema hplain known h, layersSay, ← saidBy_conjunctsOf _ [.branch []]]
  refine settles_evaluate known (hparts _ _) (fun c hc => (halternatives c hc).1) hkind hsame
    (isPlain_conjunctsOf (plainAt_layers hplain hname) _) (by rw [← layerConjuncts]; omega)
    fun c hc => ?_
  have := (halternatives c hc).2
  omega

/-- The cases are what the layers give. -/
theorem decodeCases_rootMember_iff {known : Option Node} (hknown : KnowsCase known)
    (cs : List Case) :
    CompleteAt layers known "cases" ∧
        decodeCases (some (rootMember layers known (.regular "cases")).value) = .ok cs ↔
      CasesOf (layersList layers) cs := by
  rw [CompleteAt, rootMember_of_schema hplain known (e := Schema.casesChoice)
    (by rw [Schema.source_eq]; simp [Expr.decls]), ← listsOf_layers]
  exact decodeCases_evaluate_iff hknown _ ⟨[], rfl⟩ (isCaseList_layers hplain)
    (sizeOfConjuncts_layers_le hplain _) _ cs

/-- Any other member is what the layers say of it. -/
theorem resolves_rootMember (known : Option Node) {name : String}
    (hname : name ∉ Schema.settingNames) :
    Resolves (rootMember layers known (.regular name)).value (layersSay layers name) := by
  have hcases : name ≠ "cases" := by
    rintro rfl
    simp [Schema.settingNames] at hname
  have hsize := sizeOfConjuncts_layers_le hplain (.regular name)
  rw [rootMember, memberNode, if_pos (admits_rootBodies hplain _), rootBodies, List.flatMap_cons,
    Schema.conjunctsOf_source_eq_nil hname, List.nil_append, layersSay,
    ← saidBy_conjunctsOf _ [.branch []]]
  exact resolves_evaluate known _ _ (isPlain_conjunctsOf (plainAt_layers hplain hcases) _)
    (by rw [← layerConjuncts]; omega)

/-- The definition of a case holds. -/
theorem isFailed_caseDefinition (known : Option Node) :
    (rootMember layers known (.definition "#Case")).value.isFailed = false := by
  rw [rootMember_of_schema hplain known (e := Schema.caseDefinition)
    (by rw [Schema.source_eq]; simp [Expr.decls]), layerConjuncts_definition hplain]
  exact Schema.isFailed_evaluate_caseDefinition known _ _ _

/-- The members of the root: the definition of a case, the settings, and what else the layers say
something of. -/
theorem mem_labels_root {l : Label} :
    l ∈ labelsOf (rootBodies layers) ↔ l = .definition "#Case" ∨ ∃ name, l = .regular name ∧
      (name ∈ Schema.settingNames ∨ (layersSay layers name).Nonempty) := by
  have hbodies : l ∈ labelsOf (rootBodies layers) ↔
      l ∈ Schema.body.labels ∨ ∃ b ∈ layers.flatMap layerBodies, l ∈ b.labels := by
    simp only [mem_labelsOf, rootBodies, List.mem_cons, Body.mem_labels, or_and_right, exists_or,
      exists_eq_left]
  rw [hbodies, Schema.mem_labels_source]
  constructor
  · rintro ((rfl | ⟨name, hname, rfl⟩) | ⟨b, hb, hl⟩)
    · exact Or.inl rfl
    · exact Or.inr ⟨name, rfl, Or.inl hname⟩
    · have hb' := isPlain_of_mem_layers hplain b hb
      obtain ⟨name, rfl⟩ := hb'.exists_name_of_mem_labels hl
      refine Or.inr ⟨name, rfl, ?_⟩
      by_cases hcases : name = "cases"
      · exact Or.inl (by simp [Schema.settingNames, hcases])
      · obtain ⟨d, hd⟩ := (hb'.mem_labels hcases).mp hl
        exact Or.inr ⟨d, b, hb, hd⟩
  · rintro (rfl | ⟨name, rfl, hname | ⟨d, b, hb, hd⟩⟩)
    · exact Or.inl (Or.inl rfl)
    · exact Or.inl (Or.inr ⟨name, hname, rfl⟩)
    · by_cases hcases : name = "cases"
      · exact Or.inl (Or.inr ⟨name, by simp [Schema.settingNames, hcases], rfl⟩)
      · exact Or.inr ⟨b, hb, ((isPlain_of_mem_layers hplain b hb).mem_labels hcases).mpr ⟨d, hd⟩⟩

/-- The root is complete if its settings and all else that the layers say something of are. -/
theorem isComplete_root_iff (known : Option Node) :
    (round (Schema.source :: layers) known).value.IsComplete [] ↔
      ∀ name, name ∈ Schema.settingNames ∨ (layersSay layers name).Nonempty →
        CompleteAt layers known name := by
  rw [round_eq hplain]
  refine ((structValue_madeOf _ _).isComplete_iff []).trans ?_
  constructor
  · intro h name hname
    have hmember := h _ ((mem_labels_root hplain).mpr (Or.inr ⟨name, rfl, hname⟩))
    exact ⟨hmember.1, hmember.2 rfl⟩
  · intro h l hl
    rcases (mem_labels_root hplain).mp hl with rfl | ⟨name, rfl, hname⟩
    · exact ⟨isFailed_caseDefinition hplain known, nofun⟩
    · exact ⟨(h name hname).1, fun _ => (h name hname).2⟩

/-- The members of the root that is complete are those of its value. -/
theorem member_root {known : Option Node}
    (h : (round (Schema.source :: layers) known).value.IsComplete []) {name : String}
    (hname : name ∈ Schema.settingNames) :
    member (round (Schema.source :: layers) known).value name =
      some (rootMember layers known (.regular name)).value := by
  have hlabel := (mem_labels_root hplain).mpr (Or.inr ⟨name, rfl, Or.inl hname⟩)
  rw [round_eq hplain] at h ⊢
  rw [member]
  change (structValue _).get? _ = _
  rw [(structValue_madeOf _ _).eq_struct h.1, Value.get?_struct, if_pos hlabel]

end Root

/-! ## What plain layers mean -/

/-- Validation passes on what is complete, and turns down what is not. -/
theorem validate_cases (sources : List Expr) :
    (unify sources).IsComplete [] ∧ validate sources = .ok (unify sources) ∨
      ¬(unify sources).IsComplete [] ∧ ∃ ps, validate sources = .error ps := by
  unfold validate
  cases hv : unify sources with
  | failed ps qs => simp [Value.IsComplete, Value.isFailed]
  | _ =>
    dsimp only
    cases hgaps : Value.gaps [] _ with
    | nil => simp [Value.IsComplete, Value.isFailed, hgaps]
    | cons => simp [Value.IsComplete, hgaps]

theorem settingsOf_eq_ok_iff {layers : List Expr} {s : Settings} :
    settingsOf layers = .ok s ↔
      (unify (Schema.source :: layers)).IsComplete [] ∧
        decode (unify (Schema.source :: layers)) = .ok s := by
  have hiff : settingsOf layers = .ok s ↔
      ∃ v, validate (Schema.source :: layers) = .ok v ∧ decode v = .ok s :=
    Language.settingsOf_eq_ok_iff
  rw [hiff]
  rcases validate_cases (Schema.source :: layers) with
    ⟨hcomplete, hvalid⟩ | ⟨hgaps, ps, hinvalid⟩
  · simp [hvalid, hcomplete]
  · rw [hinvalid]
    exact iff_of_false (by simp) fun h => hgaps h.1

section Settled

variable {v : Value} {IsIt : Atom → Prop} {path : List Text}

/-- A value is complete exactly if a condition determines it. -/
theorem Settles.isComplete_iff (h : Settles v IsIt) : v.IsComplete path ↔ ∃ a, IsIt a := by
  constructor
  · intro hcomplete
    obtain ⟨a, p, -, ha⟩ := h.exists_of_isComplete hcomplete
    exact ⟨a, ha⟩
  · intro hsome
    obtain ⟨a, p, rfl, -⟩ := h.resolve_right fun hnone => hnone.1 hsome
    exact ⟨rfl, rfl⟩

/-- A text is taken from a value exactly if the value is that text. -/
theorem Settles.text_iff (h : Settles v IsIt) (hsharp : IsSharp IsIt) (t : Text) :
    v.IsComplete path ∧ decodeText (some v) = .ok t ↔ ∃ s, IsIt (.string s) ∧ t = Text.lit s := by
  constructor
  · rintro ⟨hcomplete, hdecode⟩
    obtain ⟨a, p, rfl, ha⟩ := h.exists_of_isComplete hcomplete
    cases a with
    | string s => exact ⟨s, ha, (Except.ok.inj hdecode).symm⟩
    | _ => cases hdecode
  · rintro ⟨s, hs, rfl⟩
    obtain ⟨p, rfl⟩ := h.atom_of hsharp hs Kind.noConfusion
    exact ⟨⟨rfl, rfl⟩, rfl⟩

theorem decodeInteger_ofInt (m : ℤ) (p : Position) :
    decodeInteger (some (.atom (.int (.ofInt m)) p)) =
      if 2 ^ 63 ≤ m.natAbs then
        undecodable (if m < 0 then "value was rounded up" else "value was rounded down")
      else .ok m := by
  have hsign : (if m < 0 then -(m.natAbs : ℤ) else m.natAbs) = m := by split <;> omega
  simp only [decodeInteger, byCoefficient, Decimal.ofInt, decide_eq_true_eq, hsign, Nat.pow_eq]

/-- A signed number is taken from a value exactly if the value is that number and fits. -/
theorem Settles.integer_iff (h : Settles v IsIt) (hsharp : IsSharp IsIt) (n : ℤ) :
    v.IsComplete path ∧ decodeInteger (some v) = .ok n ↔
      IsIt (.int (.ofInt n)) ∧ n.natAbs < 2 ^ 63 := by
  constructor
  · rintro ⟨hcomplete, hok⟩
    obtain ⟨a, p, rfl, ha⟩ := h.exists_of_isComplete hcomplete
    cases a with
    | int d =>
      rw [Atom.isPlain_int (hsharp.plain _ ha)] at hok ha
      rw [decodeInteger_ofInt] at hok
      split at hok
      · cases hok
      · next hsmall =>
        obtain rfl := Except.ok.inj hok
        exact ⟨ha, Nat.lt_of_not_le hsmall⟩
    | _ => cases hok
  · rintro ⟨hn, hsmall⟩
    obtain ⟨p, rfl⟩ := h.atom_of hsharp hn Kind.noConfusion
    exact ⟨⟨rfl, rfl⟩, (decodeInteger_ofInt n p).trans (if_neg (Nat.not_le.mpr hsmall))⟩

end Settled

theorem Chosen.isSharp {other said : Set Demand} {preferred : Atom} (hsaid : ∀ d ∈ said, d.IsPlain)
    (hother : ∀ d ∈ other, d.IsPlain) (hpreferred : preferred.isPlain = true) :
    IsSharp (Chosen other preferred said) := by
  have hplain : ∀ d ∈ said ∪ other, d.IsPlain := fun d hd => hd.elim (hsaid d) (hother d)
  constructor
  · rintro a (⟨-, rfl⟩ | ⟨-, ha⟩)
    · exact hpreferred
    · exact hplain _ ha.1
  · rintro a b (⟨ha, rfl⟩ | ⟨ha, ha'⟩) (⟨hb, rfl⟩ | ⟨hb, hb'⟩) hkind
    · rfl
    · exact absurd ha hb
    · exact absurd hb ha
    · exact ha'.unique hplain hb' hkind

end Config

/-- Settings are what is said of them by layers, on top of the schema: the scalar ones are chosen,
the cases are taken from lists of rows, and whatever else is said something of is determined. -/
structure Settings.AreSaidBy (s : Settings) (said : String → Set Config.Demand)
    (lists : Set (List Config.Row)) : Prop where
  method : ∃ name,
    Config.Chosen {.atom (.string "iterative")} (.string "recursive") (said "method")
      (.string name) ∧ s.method = Text.lit name
  maxDepth :
    Config.Chosen {.type Config.Schema.wordType} (Config.word 100000) (said "maxDepth")
      (Config.word s.maxDepth)
  concurrency :
    Config.Chosen {.type Config.Schema.intType, .limit .atLeast (.int (.ofNat 1))} (.int (.ofNat 4))
      (said "concurrency") (.int (.ofInt s.concurrency)) ∧ s.concurrency.natAbs < 2 ^ 63
  format : ∃ name,
    Config.Chosen {.atom (.string "json")} (.string "markdown") (said "format") (.string name) ∧
      s.format = Text.lit name
  cases : Config.CasesOf lists s.cases
  others : ∀ name ∉ Config.Schema.settingNames, (said name).Nonempty →
    ∃ a, Config.Determined (said name) a

namespace Config

section Settings

variable {layers : List Expr} (hplain : ∀ e ∈ layers, e.IsPlainLayer) (known : Option Node)
include hplain

/-- A setting comes to what is chosen for it, and there is only one thing that can be. -/
theorem settles_setting {name : String} (hname : name ≠ "cases") {e : Expr} (as : Alternatives)
    {a : Atom} {other : Set Demand} (h : .field (.regular name) true false e ∈ Schema.source.decls)
    (hparts : ∀ path here, e.parts path here Schema.context = { choices := [as.choice] })
    (halternatives : ∀ c ∈ as.all, c.isPlain = true ∧ c.expr.size ≤ 10) (hkind : a.kind ≠ .float)
    (hsame : ∀ c ∈ as.same, c.expr.demands = [.atom a])
    (hother : {x | x ∈ as.other.expr.demands} = other) :
    Settles (rootMember layers known (.regular name)).value
      (Chosen other a (layersSay layers name)) ∧
      IsSharp (Chosen other a (layersSay layers name)) := by
  subst hother
  refine ⟨settles_rootMember hplain known hname h hparts halternatives hkind hsame, ?_⟩
  have hpreferred := Expr.isPlain_of_mem_demands _
    (halternatives _ (Alternatives.mem_all_of_same as.preferred_mem_same)).1 (.atom a)
    (by rw [hsame _ as.preferred_mem_same]; exact List.mem_singleton_self _)
  exact Chosen.isSharp (isPlain_of_mem_layersSay hplain hname)
    (Expr.isPlain_of_mem_demands _ (halternatives _ as.other_mem_all).1) hpreferred

theorem settles_method :
    Settles (rootMember layers known (.regular "method")).value
        (Chosen {.atom (.string "iterative")} (.string "recursive") (layersSay layers "method")) ∧
      IsSharp (Chosen {.atom (.string "iterative")} (.string "recursive")
        (layersSay layers "method")) := by
  refine settles_setting hplain known (by decide)
    { other := ⟨Schema.string 9 14 "iterative", Schema.context⟩
      after := [⟨Schema.string 9 28 "recursive", Schema.context⟩]
      preferred := ⟨Schema.string 9 43 "recursive", Schema.context⟩ }
    (e := Schema.methodChoice) (by rw [Schema.source_eq]; simp [Expr.decls]) (fun _ _ => rfl)
    (by decide) Kind.noConfusion ?_ ?_
  · simp [Alternatives.same, Schema.string, Expr.demands]
  · simp [Schema.string, Expr.demands]

theorem settles_maxDepth :
    Settles (rootMember layers known (.regular "maxDepth")).value
        (Chosen {.type Schema.wordType} (word 100000) (layersSay layers "maxDepth")) ∧
      IsSharp (Chosen {.type Schema.wordType} (word 100000) (layersSay layers "maxDepth")) := by
  refine settles_setting hplain known (by decide)
    { other := ⟨Schema.name 10 14 "uint64", Schema.context⟩
      preferred := ⟨Schema.number 10 24 100000, Schema.context⟩ }
    (e := Schema.maxDepthChoice) (by rw [Schema.source_eq]; simp [Expr.decls]) (fun _ _ => rfl)
    (by decide +kernel) Kind.noConfusion ?_ ?_
  · exact List.forall_mem_singleton.mpr rfl
  · ext x
    exact List.mem_singleton

theorem settles_concurrency :
    Settles (rootMember layers known (.regular "concurrency")).value
        (Chosen {.type Schema.intType, .limit .atLeast (.int (.ofNat 1))} (.int (.ofNat 4))
          (layersSay layers "concurrency")) ∧
      IsSharp
        (Chosen {.type Schema.intType, .limit .atLeast (.int (.ofNat 1))} (.int (.ofNat 4))
          (layersSay layers "concurrency")) := by
  refine settles_setting hplain known (by decide)
    { other := ⟨.meet (Schema.name 11 14 "int")
        (.limit (Schema.place 11 20) .atLeast (Schema.number 11 22 1)), Schema.context⟩
      preferred := ⟨Schema.number 11 27 4, Schema.context⟩ }
    (e := Schema.concurrencyChoice) (by rw [Schema.source_eq]; simp [Expr.decls]) (fun _ _ => rfl)
    (by decide +kernel) Kind.noConfusion ?_ ?_
  · exact List.forall_mem_singleton.mpr rfl
  · ext x
    exact List.mem_pair

theorem settles_format :
    Settles (rootMember layers known (.regular "format")).value
        (Chosen {.atom (.string "json")} (.string "markdown") (layersSay layers "format")) ∧
      IsSharp (Chosen {.atom (.string "json")} (.string "markdown")
        (layersSay layers "format")) := by
  refine settles_setting hplain known (by decide)
    { before := [⟨Schema.string 12 14 "markdown", Schema.context⟩]
      other := ⟨Schema.string 12 27 "json", Schema.context⟩
      preferred := ⟨Schema.string 12 37 "markdown", Schema.context⟩ }
    (e := Schema.formatChoice) (by rw [Schema.source_eq]; simp [Expr.decls]) (fun _ _ => rfl)
    (by decide) Kind.noConfusion ?_ ?_
  · simp [Alternatives.same, Schema.string, Expr.demands]
  · simp [Schema.string, Expr.demands]

/-- Anything else is complete exactly if it is determined. -/
theorem completeAt_other_iff {name : String} (hname : name ∉ Schema.settingNames) :
    CompleteAt layers known name ↔ ∃ a, Determined (layersSay layers name) a :=
  (resolves_rootMember hplain known hname).settles.isComplete_iff

end Settings

/-- **What plain layers mean.**  The settings of plain layers are what these say of them. -/
theorem settingsOf_eq_ok_iff_areSaidBy {layers : List Expr} (hplain : ∀ e ∈ layers, e.IsPlainLayer)
    (s : Settings) :
    settingsOf layers = .ok s ↔ s.AreSaidBy (layersSay layers) (layersList layers) := by
  obtain ⟨before, hunify⟩ := exists_round_known (Schema.source :: layers)
  have hknown := knowsCase_round hplain before
  set known := some (round (Schema.source :: layers) before)
  rw [settingsOf_eq_ok_iff, hunify, decode_eq_ok_iff]
  have hmethod (t : Text) : CompleteAt layers known "method" ∧
      decodeText (some (rootMember layers known (.regular "method")).value) = .ok t ↔ _ :=
    (settles_method hplain known).1.text_iff (settles_method hplain known).2 t
  have hmaxDepth (w : UInt64) : CompleteAt layers known "maxDepth" ∧
      decodeWord (some (rootMember layers known (.regular "maxDepth")).value) = .ok w ↔ _ :=
    (settles_maxDepth hplain known).1.word_iff (settles_maxDepth hplain known).2 w
  have hconcurrency (n : ℤ) : CompleteAt layers known "concurrency" ∧
      decodeInteger (some (rootMember layers known (.regular "concurrency")).value) = .ok n ↔ _ :=
    (settles_concurrency hplain known).1.integer_iff (settles_concurrency hplain known).2 n
  have hformat (t : Text) : CompleteAt layers known "format" ∧
      decodeText (some (rootMember layers known (.regular "format")).value) = .ok t ↔ _ :=
    (settles_format hplain known).1.text_iff (settles_format hplain known).2 t
  have hcases := decodeCases_rootMember_iff hplain hknown
  constructor
  · rintro ⟨hcomplete, hmethod', hmaxDepth', hconcurrency', hformat', hcases'⟩
    have hall := (isComplete_root_iff hplain known).mp hcomplete
    have hat (name : String) (hname : name ∈ Schema.settingNames) := hall name (Or.inl hname)
    rw [member_root hplain hcomplete (by decide)]
      at hmethod' hmaxDepth' hconcurrency' hformat' hcases'
    exact {
      method := (hmethod _).mp ⟨hat _ (by decide), hmethod'⟩
      maxDepth := (hmaxDepth _).mp ⟨hat _ (by decide), hmaxDepth'⟩
      concurrency := (hconcurrency _).mp ⟨hat _ (by decide), hconcurrency'⟩
      format := (hformat _).mp ⟨hat _ (by decide), hformat'⟩
      cases := (hcases _).mp ⟨hat _ (by decide), hcases'⟩
      others := fun name hname hsaid =>
        (completeAt_other_iff hplain known hname).mp (hall name (Or.inr hsaid)) }
  · intro h
    obtain ⟨hmethodAt, hmethod'⟩ := (hmethod _).mpr h.method
    obtain ⟨hmaxDepthAt, hmaxDepth'⟩ := (hmaxDepth _).mpr h.maxDepth
    obtain ⟨hconcurrencyAt, hconcurrency'⟩ := (hconcurrency _).mpr h.concurrency
    obtain ⟨hformatAt, hformat'⟩ := (hformat _).mpr h.format
    obtain ⟨hcasesAt, hcases'⟩ := (hcases _).mpr h.cases
    have hcomplete : (round (Schema.source :: layers) known).value.IsComplete [] := by
      refine (isComplete_root_iff hplain known).mpr fun name hname => ?_
      by_cases hsetting : name ∈ Schema.settingNames
      · simp only [Schema.settingNames, List.mem_cons, List.not_mem_nil, or_false] at hsetting
        rcases hsetting with rfl | rfl | rfl | rfl | rfl
        exacts [hmethodAt, hmaxDepthAt, hconcurrencyAt, hformatAt, hcasesAt]
      · exact (completeAt_other_iff hplain known hsetting).mpr
          (h.others name hsetting (hname.resolve_left hsetting))
    refine ⟨hcomplete, ?_⟩
    rw [member_root hplain hcomplete (by decide), member_root hplain hcomplete (by decide),
      member_root hplain hcomplete (by decide), member_root hplain hcomplete (by decide),
      member_root hplain hcomplete (by decide)]
    exact ⟨hmethod', hmaxDepth', hconcurrency', hformat', hcases'⟩

end Config
end RepeatedAddition
