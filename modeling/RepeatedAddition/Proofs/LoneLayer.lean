import RepeatedAddition.Proofs.PlainLayer

/-!
# A layer by itself

Before layers are put on top of the schema, each is evaluated by itself, and a layer that cannot be
is turned down.  Nothing is wrong with the form of a plain layer, so it passes if what it says can
be: its restrictions determine something, and its lists of rows go together.

* `Expr.faults_of_isPlainLayer`: nothing is wrong with the form of a plain layer.
* `Expr.Consistent`: what a plain layer says can be.
* `exists_determined_of_isFailed_eq_false`: what is said in a layer that has a value can be, if it
  asks for an atom.
* `compile_eq_ok`: a consistent plain layer passes.
-/

namespace RepeatedAddition
namespace Config

/-! ## The form of a plain layer -/

namespace Expr

attribute [local simp] faults faultsOfDecls faultsOfItems

theorem faults_of_isRestriction {bound : List String} {e : Expr} (h : e.isRestriction bound = true)
    (outer : List String) (path : List Text) (inChoice : Bool) :
    e.faults outer path inChoice = [] := by
  fun_induction isRestriction bound e generalizing inChoice with
  | case1 p a => rw [faults]
  | case2 p n =>
    rw [faults, if_pos (by simp_all)]
  | case3 p b q l =>
    simp [operandFaults, isVague]
  | case4 p sign q a =>
    simp [operandFaults, isVague]
  | case5 p e ih =>
    rw [faults]
    exact ih h false
  | case6 l r ihl ihr =>
    obtain ⟨hl, hr⟩ := Bool.and_eq_true_iff.mp h
    rw [faults, ihl hl, ihr hr, List.append_nil]
  | case7 => cases h

theorem faultsOfDecls_eq_nil {outer : List String} {path : List Text} {ds : List Decl}
    (h : ∀ d ∈ ds, ∃ e, (∀ path, e.faults outer path false = []) ∧
      (d = .embedded e ∨ ∃ l bindable optional, d = .field l bindable optional e)) :
    faultsOfDecls outer path ds = [] := by
  induction ds with
  | nil => rw [faultsOfDecls]
  | cons d ds ih =>
    obtain ⟨⟨e, he, hd⟩, hds⟩ := List.forall_mem_cons.mp h
    rcases hd with rfl | ⟨l, bindable, optional, rfl⟩ <;>
      rw [faultsOfDecls, he, ih hds, List.append_nil]

theorem faultsOfItems_eq_nil {outer : List String} {path : List Text} {items : List Expr}
    (h : ∀ e ∈ items, e.faults outer path false = []) : faultsOfItems outer path items = [] := by
  induction items with
  | nil => rw [faultsOfItems]
  | cons e items ih =>
    obtain ⟨he, hitems⟩ := List.forall_mem_cons.mp h
    rw [faultsOfItems, he, ih hitems, List.append_nil]

theorem faults_of_isRow {bound : List String} {e : Expr} (h : e.isRow bound = true)
    (outer : List String) (path : List Text) :
    e.faults outer path false = [] := by
  obtain ⟨p, ds, rfl, hds⟩ : ∃ p ds, e = .struct p ds ∧ ∀ d ∈ ds, ∃ l bindable e,
      d = .field l bindable false e ∧ e.isRestriction (Decl.names ds ++ bound) = true := by
    cases e with
    | struct p ds =>
      refine ⟨p, ds, rfl, fun d hd => ?_⟩
      have hdecl := List.all_eq_true.mp h d hd
      split at hdecl
      · next l bindable e => exact ⟨l, bindable, e, rfl, (Bool.and_eq_true_iff.mp hdecl).2⟩
      · cases hdecl
    | _ => cases h
  rw [faults]
  refine faultsOfDecls_eq_nil fun d hd => ?_
  obtain ⟨l, bindable, e, rfl, he⟩ := hds d hd
  exact ⟨e, fun path => faults_of_isRestriction he _ path false, Or.inr ⟨l, bindable, false, rfl⟩⟩

theorem faults_of_isCaseList {bound : List String} {e : Expr} (h : e.isCaseList bound = true)
    (outer : List String) (path : List Text) : e.faults outer path false = [] := by
  unfold isCaseList at h
  split at h
  · next p items =>
    rw [faults, faultsOfTail, List.append_nil]
    exact faultsOfItems_eq_nil fun e he => faults_of_isRow (List.all_eq_true.mp h e he) outer path
  · cases h

/-- Nothing is wrong with the form of nested structs of plain declarations. -/
theorem faults_of_isNested {e : Expr} (h : e.IsNested) {here : Address} {context : Context}
    (hplain : ∀ b ∈ e.bodies here context, ∀ d ∈ b.decls,
      d.isPlain (Decl.names b.decls ++ b.context.names) = true)
    (outer : List String) (path : List Text) : e.faults outer path false = [] := by
  induction h generalizing context outer path with
  | @struct p ds hdecls _ ih =>
    rw [faults]
    refine faultsOfDecls_eq_nil fun d hd => ?_
    rcases hdecls d hd with hfield | ⟨e, rfl⟩
    · cases d with
      | field l bindable optional value =>
        refine ⟨value, fun path => ?_, Or.inr ⟨l, bindable, optional, rfl⟩⟩
        have hvalue := hplain _ List.mem_cons_self _ hd
        unfold Decl.isPlain at hvalue
        split at hvalue
        · next heq =>
          cases heq
          split at hvalue
          · exact faults_of_isCaseList hvalue _ path
          · exact faults_of_isRestriction hvalue _ path false
        · next heq => cases heq
        · cases hvalue
      | _ => cases hfield
    · have hembedded : ∀ b ∈ e.bodies here (context.embedding here ds p e.place), ∀ d ∈ b.decls,
          d.isPlain (Decl.names b.decls ++ b.context.names) = true :=
        fun b hb => hplain b (List.mem_cons_of_mem _ (mem_bodiesOfDecls.mpr ⟨e, hd, hb⟩))
      exact ⟨e, ih e hd hembedded _, Or.inl rfl⟩

/-- **Nothing is wrong with the form of a plain layer.** -/
theorem faults_of_isPlainLayer {e : Expr} (h : e.IsPlainLayer) : e.faults [] [] false = [] :=
  faults_of_isNested h.nested h.plain [] []

end Expr

/-! ## The value of a plain layer -/

/-- Whatever is said of something can be. -/
def CanBe (said : Set Demand) : Prop := said.Nonempty → ∃ a, Determined said a

theorem Resolves.isFailed_eq_false {v : Value} {said : Set Demand} (h : Resolves v said)
    (hsaid : ∃ a, Determined said a) :
    v.isFailed = false := by
  obtain ⟨a, p, rfl, -⟩ := h.resolve_right fun hnone => hnone.1 hsaid
  rfl

/-- Structs come to a struct if each of their members can be. -/
theorem isFailed_structValue {n : Nat} {known : Option Node} {path : List Text} {here : Address}
    {bodies : List Body}
    (h : ∀ l ∈ labelsOf bodies, (memberNode n known path here bodies l).value.isFailed = false) :
    (structValue (membersOf n known path here bodies)).isFailed = false := by
  rcases structValue_madeOf (labelsOf bodies) (memberNode n known path here bodies)
    with ⟨-, l, hl, hfailed⟩ | ⟨hstruct, -⟩
  · rw [h l hl] at hfailed
    cases hfailed
  · rw [membersOf, hstruct]
    rfl

theorem Body.IsCase.exists_name_of_mem_labels {b : Body} (h : b.IsCase) {l : Label}
    (hl : l ∈ b.labels) :
    ∃ name, l = .regular name := by
  have hmem := h.among l hl
  simp only [caseLabels, List.mem_cons, List.not_mem_nil, or_false] at hmem
  rcases hmem with rfl | rfl | rfl <;> exact ⟨_, rfl⟩

theorem isCase_of_rows {rows : List Conjunct} (hrows : ∀ r ∈ rows, r.IsRow) :
    ∀ b ∈ rows.map Conjunct.body, b.IsCase ∧ b.context.groups = [] :=
  List.forall_mem_map.mpr fun r hr =>
    ⟨(hrows r hr).isCase, (hrows r hr).body_context ▸ (hrows r hr).groups⟩

/-- Rows come to a struct if what they say can be. -/
theorem isFailed_evaluate_rows (known : Option Node) (path : List Text) (address : Address)
    {rows : List Conjunct} (hne : rows ≠ []) (hrows : ∀ r ∈ rows, r.IsRow)
    (hsaid : ∀ name, CanBe (saidOf (rows.map Conjunct.body) name)) {n : Nat}
    (hn : sizeOfBodies (rows.map Conjunct.body) + 8 ≤ n) :
    (evaluate n known path address rows).value.isFailed = false := by
  obtain ⟨n, rfl⟩ := Nat.exists_eq_add_of_le' (show 6 ≤ n by omega)
  rw [evaluate_of_records known path address hne (fun r hr => (hrows r hr).isRecord)]
  refine isFailed_structValue fun l hl => ?_
  have hbodies := isCase_of_rows hrows
  obtain ⟨b, hb, bindable, e, he⟩ := mem_labelsOf.mp hl
  obtain ⟨name, rfl⟩ :=
    (hbodies b hb).1.exists_name_of_mem_labels (Body.mem_labels.mpr ⟨bindable, e, he⟩)
  have hresolves :=
    resolves_memberNode known path (address ++ [.branch []])
      (fun b hb => (hbodies b hb).1.plain name)
    (admits_of_groups (fun b hb => (hbodies b hb).2) _) (n := n + 4) (by omega)
  refine hresolves.isFailed_eq_false (hsaid name ?_)
  obtain ⟨d, hd⟩ :=
    List.exists_mem_of_ne_nil _
      (Expr.demands_ne_nil e ((hbodies b hb).1.plain name bindable false e he))
  exact ⟨d, b, hb, Body.mem_said.mpr ⟨bindable, false, e, he, hd⟩⟩

/-- Lists of one length have no problems. -/
theorem listProblems_eq_nil (path : List Text) {lists : List Conjunct}
    (hlists : ∀ c ∈ lists, c.IsCaseList) {length : Nat}
    (hlengths : ∀ c ∈ lists, c.sequence.length = length) :
    listProblems path (lists.map Conjunct.sequence) = [] := by
  cases lists with
  | nil => rfl
  | cons c lists =>
    obtain ⟨hc, hrest⟩ := List.forall_mem_cons.mp hlengths
    rw [List.map_cons, listProblems, isClosed_sequence (hlists c List.mem_cons_self),
      lengthProblems_eq_nil_iff]
    refine List.forall_mem_map.mpr fun c' hc' => ?_
    rw [hc, hrest c' hc']
    exact ⟨le_rfl, fun _ => le_rfl⟩

theorem commonCount_sequence {lists : List Conjunct} (hne : lists ≠ [])
    (hlists : ∀ c ∈ lists, c.IsCaseList) {length : Nat}
    (hlengths : ∀ c ∈ lists, c.sequence.length = length) :
    commonCount (lists.map Conjunct.sequence) = length := by
  refine commonCount_eq (List.forall_mem_map.mpr fun c hc => (hlengths c hc).le)
    (List.forall_mem_map.mpr fun c hc _ => hlengths c hc) ?_
  obtain ⟨c, hc⟩ := List.exists_mem_of_ne_nil _ hne
  exact ⟨_, List.mem_map_of_mem hc, isClosed_sequence (hlists c hc)⟩

/-- Lists of rows come to the list of their rows. -/
theorem listOf_evaluate (known : Option Node) (path : List Text) (address : Address)
    {lists : List Conjunct} (hne : lists ≠ []) (hlists : ∀ c ∈ lists, c.IsCaseList) {m : Nat}
    (hm : sizeOfConjuncts lists + 8 ≤ m) :
    (evaluate (m + 2) known path address lists).value.ListOf
      (listProblems path (lists.map Conjunct.sequence) = [])
      ((List.range (commonCount (lists.map Conjunct.sequence))).map fun i =>
        (evaluate m known (path ++ [Text.decimal i]) (address ++ [.branch []] ++
          [.member (.index i)])
          (rowsAt lists i)).value) := by
  have hlist : ∀ c ∈ lists, c.IsList := fun c hc => (hlists c hc).isList
  have hdirect := direct_of_lists path (address ++ [.branch []]) hlist
  have htasks : ∀ t ∈ (direct path (address ++ [.branch []]) lists).tasks,
      t.fact?.isSome = true := by
    rw [hdirect]
    exact fun c hc => by rw [fact?_of_isList (hlist c hc)]; rfl
  have hlength := length_le_sizeOfConjuncts hlist
  have hexpand :=
    expand_of_facts known address [] hdirect (by rwa [hdirect] at htasks) (n := m + 1)
      (by dsimp only; omega)
  rw [settled_of_lists hlist] at hexpand
  rw [evaluate_of_expand hexpand rfl (onlyName?_eq_none htasks)]
  exact listOf_meet known path address hne m []

/-- Lists of rows come to a list if they have one length and what their rows say can be. -/
theorem isFailed_evaluate_lists (known : Option Node) (path : List Text) (address : Address)
    {lists : List Conjunct} (hne : lists ≠ []) (hlists : ∀ c ∈ lists, c.IsCaseList) {length : Nat}
    (hlengths : ∀ c ∈ lists, c.sequence.length = length)
    (hsaid : ∀ i name, CanBe (RowsSay (listsOf lists) i name)) {n : Nat}
    (hn : sizeOfConjuncts lists + 10 ≤ n) :
    (evaluate n known path address lists).value.isFailed = false := by
  obtain ⟨m, rfl⟩ := Nat.exists_eq_add_of_le' (show 2 ≤ n by omega)
  have hcount := commonCount_sequence hne hlists hlengths
  rcases listOf_evaluate known path address hne hlists (m := m) (by omega) with
    ⟨-, himpossible | ⟨w, hw, hfailed⟩⟩ | ⟨hvalue, -⟩
  · exact absurd (listProblems_eq_nil path hlists hlengths) himpossible
  · obtain ⟨i, hi, rfl⟩ := List.mem_map.mp hw
    rw [hcount, List.mem_range] at hi
    obtain ⟨c, hc⟩ := List.exists_mem_of_ne_nil _ hne
    have hsize := sizeOfBodies_rowsAt_le hlists i
    rw [isFailed_evaluate_rows known _ _ (rowsAt_ne_nil hlists hc (hlengths c hc ▸ hi))
      (isRow_of_mem_rowsAt hlists) (fun name => saidOf_rowsAt hlists i ▸ hsaid i name) (by omega)]
        at hfailed
    cases hfailed
  · exact congrArg Value.isFailed hvalue

/-- What a plain layer says can be: its restrictions, and the rows of its lists, which have one
length. -/
structure Expr.Consistent (e : Expr) : Prop where
  restrictions : ∀ name, CanBe (layersSay [e] name)
  length : ∃ length, ∀ rows ∈ layersList [e], rows.length = length
  rows : ∀ i name, CanBe (RowsSay (layersList [e]) i name)

/-- There is more fuel for a member than what a layer says of it needs. -/
theorem sizeOfBodies_layer_le {e : Expr} (h : e.IsPlainLayer) :
    sizeOfBodies (layerBodies e) + 10 ≤ 16 * sizeOf [e] * sizeOf [e] + 62 := by
  have hsize : sizeOfBodies ([e].flatMap layerBodies) + 1 ≤ sizeOf [e] * sizeOf [e] :=
    sizeOfBodies_layers_le (List.forall_mem_singleton.mpr h)
  rw [List.flatMap_singleton] at hsize
  nlinarith

section Layer

variable {e : Expr} (hplain : e.IsPlainLayer)
include hplain

/-- A member of a layer that is evaluated by itself. -/
def layerMember (e : Expr) (known : Option Node) (l : Label) : Node :=
  memberNode (16 * sizeOf [e] * sizeOf [e] + 62) known [] [.branch []] (layerBodies e) l

/-- A layer by itself comes to the struct of its members. -/
theorem exists_unify_eq : ∃ known, unify [e] =
    structValue (membersOf (16 * sizeOf [e] * sizeOf [e] + 62) known [] [.branch []]
      (layerBodies e)) := by
  obtain ⟨before, hunify⟩ := exists_round_known [e]
  refine ⟨some (round [e] before), hunify.trans ?_⟩
  rw [round, List.map_singleton, evaluate_of_nested _ [] [] (List.cons_ne_nil _ _)
    (List.forall_mem_singleton.mpr hplain.nested) (16 * sizeOf [e] * sizeOf [e] + 58),
    List.flatMap_singleton]
  rfl

theorem admits_layerBodies (l : Label) : admits (layerBodies e) l = true :=
  admits_of_groups (fun _ hb => (hplain.isPlain hb).groups) l

/-- A member of a layer is what the layer says of it. -/
theorem resolves_layerMember (known : Option Node) {name : String} (hname : name ≠ "cases") :
    Resolves (layerMember e known (.regular name)).value (layersSay [e] name) := by
  have hfuel := sizeOfBodies_layer_le hplain
  rw [layersSay, List.flatMap_singleton]
  exact resolves_memberNode known [] [.branch []] (fun b hb => (hplain.isPlain hb).plainAt hname)
    (admits_layerBodies hplain (.regular name)) (le_trans (Nat.add_le_add_left (by decide) _) hfuel)

/-- **A consistent plain layer has a value.** -/
theorem isFailed_unify (h : e.Consistent) : (unify [e]).isFailed = false := by
  obtain ⟨known, hunify⟩ := exists_unify_eq hplain
  have hlayers : ∀ e' ∈ [e], e'.IsPlainLayer := List.forall_mem_singleton.mpr hplain
  have hbodies : [e].flatMap layerBodies = layerBodies e := List.flatMap_singleton ..
  have hfuel := sizeOfBodies_layer_le hplain
  rw [hunify]
  refine isFailed_structValue fun l hl => ?_
  change (layerMember e known l).value.isFailed = false
  obtain ⟨b, hb, bindable, value, hvalue⟩ := mem_labelsOf.mp hl
  have hlabel := Body.mem_labels.mpr ⟨bindable, value, hvalue⟩
  obtain ⟨name, rfl⟩ := (hplain.isPlain hb).exists_name_of_mem_labels hlabel
  by_cases hname : name = "cases"
  · subst hname
    have hlists := isCaseList_layers hlayers
    have hsize := sizeOfConjuncts_conjunctsOf_le (layerBodies e) [.branch []] (.regular "cases")
    have hne : layerConjuncts [e] (.regular "cases") ≠ [] :=
      List.ne_nil_of_mem (List.mem_flatMap.mpr
        ⟨b, hbodies ▸ hb, Body.mem_conjunctsOf.mpr ⟨bindable, false, value, hvalue, rfl⟩⟩)
    obtain ⟨length, hlength⟩ := h.length
    rw [← listsOf_layers, mem_listsOf_iff hlists] at hlength
    have hrows := h.rows
    rw [← listsOf_layers] at hrows
    rw [layerConjuncts, hbodies] at hlists hne hlength hrows
    rw [layerMember, memberNode, if_pos (admits_layerBodies hplain _)]
    exact isFailed_evaluate_lists _ _ _ hne hlists hlength hrows
      (le_trans (Nat.add_le_add_right hsize 10) hfuel)
  · refine (resolves_layerMember hplain known hname).isFailed_eq_false (h.restrictions name ?_)
    obtain ⟨d, hd⟩ := ((hplain.isPlain hb).mem_labels hname).mp hlabel
    exact ⟨d, b, hbodies ▸ hb, hd⟩

/-- What a layer that has a value says of a member can be, if an atom is among it. -/
theorem exists_determined_of_isFailed_eq_false (h : (unify [e]).isFailed = false) {name : String}
    (hname : name ≠ "cases") {a : Atom} (ha : .atom a ∈ layersSay [e] name) :
    ∃ a, Determined (layersSay [e] name) a := by
  obtain ⟨known, hunify⟩ := exists_unify_eq hplain
  by_contra hnone
  have hfailed := (resolves_layerMember hplain known hname).isFailed ha hnone
  obtain ⟨b, hb, hd⟩ := ha
  rw [List.flatMap_singleton] at hb
  obtain ⟨bindable, value, hvalue⟩ :=
    Body.mem_labels.mp (((hplain.isPlain hb).mem_labels hname).mpr ⟨_, hd⟩)
  have hlabel := mem_labelsOf.mpr ⟨b, hb, bindable, value, hvalue⟩
  rw [hunify] at h
  rcases structValue_madeOf (labelsOf (layerBodies e)) (layerMember e known)
    with ⟨hstruct, -⟩ | ⟨-, hmembers⟩
  · exact Bool.false_ne_true (h.symm.trans hstruct)
  · exact Bool.false_ne_true ((hmembers _ hlabel).symm.trans hfailed)

end Layer

/-- **A consistent plain layer passes by itself.** -/
theorem compile_eq_ok {layer text : Text} {e : Expr} (hread : Source.read layer text = .ok e)
    (hplain : e.IsPlainLayer) (h : e.Consistent) : compile layer text = .ok e :=
  compile_eq_ok_iff.mpr ⟨hread, Expr.faults_of_isPlainLayer hplain, isFailed_unify hplain h⟩

end Config
end RepeatedAddition
