import RepeatedAddition.Config.Settings
import RepeatedAddition.Proofs.Record
import RepeatedAddition.Proofs.Settings

/-!
# Rows of cases

A layer gives cases as a list of structs, its rows.  A row never stands alone: the schema puts its
definition of a case below it, or one of the cases that it prefers.  The first asks for words, the
second for the very words of that case.

* `IsRow`, `IsRow.decodeCase_iff`: a value whose members come to what is said of them, and the case
  that is taken from it.
* `Case.Meets`: a case goes together with what is said in a row.  This is how a preferred case takes
  part.
* `Case.IsGiven`: a case is what is said in a row, and nothing else.  This is how any other case is
  taken.
* `rowSays_caseExpr_iff`, `rowSays_caseDefinition_iff`: the two ways in which the schema stands
  below a row.
-/

namespace RepeatedAddition
namespace Config

/-! ## From atoms to words -/

/-- A word as an atom. -/
def word (w : UInt64) : Atom := .int (.ofNat w.toNat)

theorem decodeWord_word (w : UInt64) (p : Position) :
    decodeWord (some (.atom (word w) p)) = .ok w := by
  have hsmall : ¬Nat.pow 2 64 ≤ w.toNat := Nat.not_le.mpr w.toNat_lt
  have hnegative : (Decimal.ofNat w.toNat).negative = false := rfl
  have hcoefficient : (Decimal.ofNat w.toNat).coefficient = w.toNat := rfl
  simp only [decodeWord, word, byCoefficient, hnegative, hcoefficient, if_neg hsmall,
    UInt64.ofNat_toNat]
  rfl

theorem eq_word_of_decodeWord {a : Atom} {p : Position} {w : UInt64} (ha : a.isPlain = true)
    (h : decodeWord (some (.atom a p)) = .ok w) : a = word w := by
  cases a with
  | int d =>
    simp only [decodeWord, byCoefficient] at h
    split at h
    · cases h
    · next hnegative =>
      split at h
      · cases h
      · next hlarge =>
        obtain rfl := Except.ok.inj h
        rw [word, UInt64.toNat_ofNat_of_lt' (Nat.lt_of_not_le hlarge),
          ← Atom.eq_ofNat_of_isPlain ha (Bool.eq_false_of_not_eq_true hnegative)]
  | _ => cases h

theorem word_isPlain (w : UInt64) : (word w).isPlain = true := Atom.isPlain_ofNat w.toNat

section Settled

variable {v : Value} {IsIt : Atom → Prop} {path : List Text}

theorem Settles.exists_of_isComplete (h : Settles v IsIt) (hv : v.IsComplete path) :
    ∃ a p, v = .atom a p ∧ IsIt a := by
  rcases h with h | ⟨-, hfailed | ⟨t, ks, ps, rfl⟩⟩
  · exact h
  · rw [hv.1] at hfailed
    cases hfailed
  · cases hv.2

/-- A condition that determines at most one atom, up to how a fraction is written, and that one is
plain. -/
structure IsSharp (IsIt : Atom → Prop) : Prop where
  plain : ∀ a, IsIt a → a.isPlain = true
  unique : ∀ a b, IsIt a → IsIt b → a.kind ≠ .float → a = b

theorem Settles.atom_of (h : Settles v IsIt) (hsharp : IsSharp IsIt) {a : Atom} (ha : IsIt a)
    (hkind : a.kind ≠ .float) :
    ∃ p, v = .atom a p := by
  rcases h with ⟨b, p, rfl, hb⟩ | ⟨hnone, -⟩
  · rw [hsharp.unique a b ha hb hkind]
    exact ⟨p, rfl⟩
  · exact absurd ⟨a, ha⟩ hnone

/-- A word is taken from a value exactly if the value is that word. -/
theorem Settles.word_iff (h : Settles v IsIt) (hsharp : IsSharp IsIt) (w : UInt64) :
    v.IsComplete path ∧ decodeWord (some v) = .ok w ↔ IsIt (word w) := by
  constructor
  · rintro ⟨hcomplete, hdecode⟩
    obtain ⟨a, p, rfl, ha⟩ := h.exists_of_isComplete hcomplete
    exact eq_word_of_decodeWord (hsharp.plain a ha) hdecode ▸ ha
  · intro hw
    obtain ⟨p, rfl⟩ := h.atom_of hsharp hw Kind.noConfusion
    exact ⟨⟨rfl, rfl⟩, decodeWord_word w p⟩

end Settled

theorem Determined.isSharp {said : Set Demand} (hplain : ∀ d ∈ said, d.IsPlain) :
    IsSharp (Determined said) :=
  ⟨fun _ ha => hplain _ ha.1, fun _ _ ha hb => ha.unique hplain hb⟩

/-! ## Rows -/

/-- The labels of a case. -/
def caseLabels : List Label := [.regular "x", .regular "y", .regular "expected"]

/-- A value is a row with given labels: a struct with operands and maybe an expectation, each of
which comes to what is said of it. -/
structure IsRow (v : Value) (labels : List Label) (said : String → Set Demand) : Prop where
  nodup : labels.Nodup
  among : ∀ l ∈ labels, l ∈ caseLabels
  x : .regular "x" ∈ labels
  y : .regular "y" ∈ labels
  plain : ∀ name, ∀ d ∈ said name, d.IsPlain
  members : ∃ member, v.MadeOf labels member ∧
    ∀ name, .regular name ∈ labels → Resolves (member (.regular name)) (said name)

/-- A case is what is said of the members of a row. -/
def RowSays (labels : List Label) (said : String → Set Demand) (c : Case) : Prop :=
  Determined (said "x") (word c.x) ∧ Determined (said "y") (word c.y) ∧
  match c.expected with
  | none => .regular "expected" ∉ labels
  | some e => .regular "expected" ∈ labels ∧ Determined (said "expected") (word e)

theorem decodeCase_struct {labels : List Label} (member : Label → Value)
    (hx : .regular "x" ∈ labels) (hy : .regular "y" ∈ labels) {c : Case} :
    decodeCase (.struct (labels.map fun l => (l, member l))) = .ok c ↔
      decodeWord (some (member (.regular "x"))) = .ok c.x ∧
        decodeWord (some (member (.regular "y"))) = .ok c.y ∧
      match c.expected with
      | none => .regular "expected" ∉ labels
      | some e =>
        .regular "expected" ∈ labels ∧
          decodeWord (some (member (.regular "expected"))) = .ok e := by
  obtain ⟨x, y, expected⟩ := c
  unfold decodeCase
  simp only [Config.member, Value.get?_struct, if_pos hx, if_pos hy]
  by_cases hexpected : .regular "expected" ∈ labels
  · rw [if_pos hexpected]
    simp only [Decoded.map_eq_ok_iff, Prod.exists, Decoded.and_eq_ok_iff, Case.mk.injEq]
    cases expected with
    | none => simp [hexpected]
    | some e => simp [hexpected, and_assoc]
  · rw [if_neg hexpected]
    simp only [Decoded.map_eq_ok_iff, Prod.exists, Decoded.and_eq_ok_iff, Case.mk.injEq]
    cases expected with
    | none => simp [hexpected]
    | some e => simp [hexpected]

namespace IsRow

variable {v : Value} {labels : List Label} {said : String → Set Demand}

/-- A case is taken from a row exactly if it is what is said of the members. -/
theorem decodeCase_iff (h : IsRow v labels said) (path : List Text) (c : Case) :
    v.IsComplete path ∧ decodeCase v = .ok c ↔ RowSays labels said c := by
  obtain ⟨member, hmade, hresolves⟩ := h.members
  have hword (name : String) (hname : .regular name ∈ labels) (w : UInt64) :
      (member (.regular name)).IsComplete (path ++ [Label.text (.regular name)]) ∧
        decodeWord (some (member (.regular name))) = .ok w ↔ Determined (said name) (word w) :=
    (hresolves name hname).settles.word_iff (Determined.isSharp (h.plain name)) w
  have hcases : ∀ l ∈ labels, l = .regular "x" ∨ l = .regular "y" ∨ l = .regular "expected" := by
    intro l hl
    simpa [caseLabels] using h.among l hl
  constructor
  · rintro ⟨hcomplete, hdecode⟩
    have hall := (hmade.isComplete_iff path).mp hcomplete
    have hat (name : String) (hname : .regular name ∈ labels) :
        (member (.regular name)).IsComplete (path ++ [Label.text (.regular name)]) :=
      ⟨(hall _ hname).1, (hall _ hname).2 rfl⟩
    rw [hmade.eq_struct hcomplete.1, decodeCase_struct member h.x h.y] at hdecode
    obtain ⟨hx, hy, hexpected⟩ := hdecode
    refine ⟨(hword "x" h.x _).mp ⟨hat "x" h.x, hx⟩, (hword "y" h.y _).mp ⟨hat "y" h.y, hy⟩, ?_⟩
    cases hc : c.expected with
    | none =>
      rw [hc] at hexpected
      exact hexpected
    | some e =>
      rw [hc] at hexpected
      exact ⟨hexpected.1, (hword "expected" hexpected.1 e).mp ⟨hat _ hexpected.1, hexpected.2⟩⟩
  · rintro ⟨hx, hy, hexpected⟩
    obtain ⟨hxComplete, hx⟩ := (hword "x" h.x _).mpr hx
    obtain ⟨hyComplete, hy⟩ := (hword "y" h.y _).mpr hy
    have hcomplete : v.IsComplete path := by
      refine (hmade.isComplete_iff path).mpr fun l hl => ?_
      rcases hcases l hl with rfl | rfl | rfl
      · exact ⟨hxComplete.1, fun _ => hxComplete.2⟩
      · exact ⟨hyComplete.1, fun _ => hyComplete.2⟩
      · cases hc : c.expected with
        | none =>
          rw [hc] at hexpected
          exact absurd hl hexpected
        | some e =>
          rw [hc] at hexpected
          obtain ⟨heComplete, -⟩ := (hword "expected" hl e).mpr hexpected.2
          exact ⟨heComplete.1, fun _ => heComplete.2⟩
    refine ⟨hcomplete, ?_⟩
    rw [hmade.eq_struct hcomplete.1, decodeCase_struct member h.x h.y]
    refine ⟨hx, hy, ?_⟩
    cases hc : c.expected with
    | none =>
      rw [hc] at hexpected
      exact hexpected
    | some e =>
      rw [hc] at hexpected
      exact ⟨hexpected.1, ((hword "expected" hexpected.1 e).mpr hexpected.2).2⟩

/-- If a row has not failed, whatever it asks for by an atom can be. -/
theorem exists_determined (h : IsRow v labels said) (hv : v.isFailed = false) {name : String}
    (hname : .regular name ∈ labels) {a : Atom} (ha : .atom a ∈ said name) :
    ∃ b, Determined (said name) b := by
  obtain ⟨member, hmade, hresolves⟩ := h.members
  by_contra hnone
  have hfailed := (hresolves name hname).isFailed ha hnone
  rcases hmade with ⟨hfailed', -⟩ | ⟨-, hmembers⟩
  · rw [hv] at hfailed'
    cases hfailed'
  · rw [hmembers _ hname] at hfailed
    cases hfailed

/-- A row that is the same as another says the same case. -/
theorem says_of_agrees {w : Value} {labels' : List Label} {said' : String → Set Demand}
    (hv : IsRow v labels said) (hw : IsRow w labels' said') {c : Case}
    (hc : RowSays labels' said' c) (hagrees : v.agrees w = true) :
    RowSays labels said c := by
  obtain ⟨⟨hfailed, -⟩, -⟩ := (hw.decodeCase_iff [] c).mpr hc
  obtain ⟨member, hmade, hresolves⟩ := hv.members
  obtain ⟨member', hmade', hresolves'⟩ := hw.members
  rw [hmade'.eq_struct hfailed] at hagrees
  have hv' : v = .struct (labels.map fun l => (l, member l)) := by
    rcases hmade with ⟨hfailed', -⟩ | ⟨hstruct, -⟩
    · cases v with
      | failed => cases hagrees
      | _ => cases hfailed'
    · exact hstruct
  rw [hv', Value.agrees, Bool.and_eq_true_iff, Value.agreesOnFields_iff] at hagrees
  obtain ⟨hlength, hfields⟩ := hagrees
  have hlength : labels.length = labels'.length := by simpa using hlength
  -- both rows have the same labels, since neither has one twice
  have hsame (l : Label) : l ∈ labels ↔ l ∈ labels' := by
    have hsubperm := List.subperm_of_subset hv.nodup fun l hl => (hfields l hl).1
    exact (hsubperm.perm_of_length_le hlength.ge).mem_iff
  have hword (name : String) (hname : .regular name ∈ labels) {n : UInt64}
      (hn : Determined (said' name) (word n)) : Determined (said name) (word n) := by
    obtain ⟨p, hatom⟩ :=
      (hresolves' name ((hsame _).mp hname)).settles.atom_of (Determined.isSharp (hw.plain name)) hn
      Kind.noConfusion
    have hmember := (hfields _ hname).2
    rw [hatom] at hmember
    rcases hresolves name hname with ⟨a, q, ha, hdetermined⟩ | ⟨-, hfailed | ⟨-, t, ks, ps, hvague⟩⟩
    · rw [ha] at hmember
      have hkind : a.kind ≠ .float := by
        rw [Atom.kind_eq_of_agrees hmember]
        exact Kind.noConfusion
      rw [← Atom.eq_of_agrees (hv.plain _ _ hdetermined.1) (word_isPlain n) hkind hmember]
      exact hdetermined
    · cases hcase : member (.regular name) with
      | failed => rw [hcase] at hmember; cases hmember
      | _ => rw [hcase] at hfailed; cases hfailed
    · rw [hvague] at hmember
      cases hmember
  obtain ⟨hx, hy, hexpected⟩ := hc
  refine ⟨hword "x" hv.x hx, hword "y" hv.y hy, ?_⟩
  cases hc : c.expected with
  | none =>
    rw [hc] at hexpected
    exact fun hmem => hexpected ((hsame _).mp hmem)
  | some e =>
    rw [hc] at hexpected
    have hmem := (hsame _).mpr hexpected.1
    exact ⟨hmem, hword "expected" hmem hexpected.2⟩

end IsRow

/-! ## Rows as they are given -/

/-- A row as it is given: what is said of its members. -/
abbrev Row := List (String × Demand)

namespace Expr

/-- What a struct says of its members. -/
def said : Expr → Row
  | .struct _ ds => ds.flatMap Decl.said
  | _ => []

/-- What the structs of a list say of their members. -/
def rows : Expr → List Row
  | .list _ items _ => items.map said
  | _ => []

/-- Whether an expression is a row, inside structs that bind given names: a struct of operands and
expectations that are restrictions. -/
def isRow (bound : List String) : Expr → Bool
  | .struct _ ds => ds.all fun
    | .field l _ false e => caseLabels.contains l && e.isRestriction (Decl.names ds ++ bound)
    | _ => false
  | _ => false

/-- Whether an expression is a list of rows. -/
def isCaseList (bound : List String) : Expr → Bool
  | .list _ items .closed => items.all (isRow bound)
  | _ => false

end Expr

/-- What lists of rows say of a member of the row with an index. -/
def RowsSay (lists : Set (List Row)) (i : Nat) (name : String) : Set Demand :=
  {d | ∃ rows ∈ lists, ∃ row, rows[i]? = some row ∧ (name, d) ∈ row}

/-- The lists of rows that conjuncts give. -/
def listsOf (cs : List Conjunct) : Set (List Row) := {rows | ∃ c ∈ cs, c.expr.rows = rows}

/-- A struct that says restrictions of the members of a case. -/
structure Body.IsCase (b : Body) : Prop where
  record : b.IsRecord
  plain : ∀ name, b.PlainAt name
  among : ∀ l ∈ b.labels, l ∈ caseLabels

/-- A conjunct that is a row, outside of closed structs. -/
structure Conjunct.IsRow (c : Conjunct) : Prop where
  row : c.expr.isRow c.context.names = true
  groups : c.context.groups = []

namespace Conjunct

variable {c : Conjunct}

theorem IsRow.exists_struct (h : c.IsRow) :
    ∃ p ds, c.expr = .struct p ds ∧ ∀ d ∈ ds, ∃ l bindable e,
    d = .field l bindable false e ∧ l ∈ caseLabels ∧
    e.isRestriction (Decl.names ds ++ c.context.names) = true := by
  obtain ⟨e, context⟩ := c
  have hrow : e.isRow context.names = true := h.row
  cases e with
  | struct p ds =>
    refine ⟨p, ds, rfl, fun d hd => ?_⟩
    have hdecl := List.all_eq_true.mp hrow d hd
    split at hdecl
    · next l bindable e =>
      obtain ⟨hl, he⟩ := Bool.and_eq_true_iff.mp hdecl
      exact ⟨l, bindable, e, rfl, List.contains_iff_mem.mp hl, he⟩
    · cases hdecl
  | _ => cases hrow

theorem IsRow.isRecord (h : c.IsRow) : c.IsRecord := by
  obtain ⟨p, ds, hc, hds⟩ := h.exists_struct
  refine ⟨p, ds, hc, fun d hd => ?_⟩
  obtain ⟨l, bindable, e, rfl, -⟩ := hds d hd
  rfl

theorem IsRow.isCase (h : c.IsRow) : c.body.IsCase := by
  obtain ⟨e, context⟩ := c
  obtain ⟨p, ds, rfl, hds⟩ := h.exists_struct
  refine ⟨h.isRecord.body, fun name bindable optional e he => ?_, fun l hl => ?_⟩
  · obtain ⟨l, bindable', e', heq, -, hrestriction⟩ := hds _ he
    cases heq
    exact hrestriction
  · obtain ⟨bindable, e, he⟩ := Body.mem_labels.mp hl
    obtain ⟨l', bindable', e', heq, hmem, -⟩ := hds _ he
    cases heq
    exact hmem

theorem IsRow.body_context (h : c.IsRow) : c.body.context = c.context := by
  obtain ⟨e, context⟩ := c
  obtain ⟨p, ds, rfl, -⟩ := h.exists_struct
  rfl

theorem IsRow.body_said (h : c.IsRow) : c.body.said = c.expr.said := by
  obtain ⟨e, context⟩ := c
  obtain ⟨p, ds, rfl, -⟩ := h.exists_struct
  rfl

/-- A row has the members that it says something of. -/
theorem IsRow.mem_labels (h : c.IsRow) {name : String} :
    .regular name ∈ c.body.labels ↔ ∃ d, (name, d) ∈ c.expr.said := by
  obtain ⟨e, context⟩ := c
  obtain ⟨p, ds, rfl, hds⟩ := h.exists_struct
  rw [Body.mem_labels]
  constructor
  · rintro ⟨bindable, e, he⟩
    obtain ⟨l, bindable', e', heq, -, hrestriction⟩ := hds _ he
    cases heq
    obtain ⟨d, hd⟩ := List.exists_mem_of_ne_nil _ (Expr.demands_ne_nil e hrestriction)
    exact ⟨d, Body.mem_said.mpr ⟨bindable, false, e, he, hd⟩⟩
  · rintro ⟨d, hd⟩
    rw [← h.body_said] at hd
    obtain ⟨bindable, optional, e, he, -⟩ := Body.mem_said.mp hd
    obtain ⟨l, bindable', e', heq, -⟩ := hds _ he
    cases heq
    exact ⟨bindable, e, he⟩

end Conjunct

theorem saidOf_append (bodies : List Body) (t : Body) (name : String) :
    saidOf (bodies ++ [t]) name = saidOf bodies name ∪ {d | (name, d) ∈ t.said} := by
  ext d
  simp [saidOf, or_and_right, exists_or]

/-- Rows on top of a case, all of whose labels it declares, come to a row. -/
theorem isRow_of_bodies (known : Option Node) (path : List Text) (here : Address)
    {rows : List Conjunct} {t : Body} (hrows : ∀ r ∈ rows, r.IsRow) (ht : t.IsCase)
    (hdeclares : ∀ l ∈ caseLabels, t.declares l = true) (hx : .regular "x" ∈ t.labels)
    (hy : .regular "y" ∈ t.labels) {n : Nat}
    (hn : sizeOfBodies (rows.map Conjunct.body ++ [t]) + 6 ≤ n) :
    IsRow (structValue (membersOf n known path here (rows.map Conjunct.body ++ [t])))
      (labelsOf (rows.map Conjunct.body ++ [t])) (saidOf (rows.map Conjunct.body ++ [t])) := by
  have hcases : ∀ b ∈ rows.map Conjunct.body ++ [t], b.IsCase := by
    intro b hb
    rcases List.mem_append.mp hb with hb | hb
    · obtain ⟨r, hr, rfl⟩ := List.mem_map.mp hb
      exact (hrows r hr).isCase
    · exact List.mem_singleton.mp hb ▸ ht
  have hamong : ∀ l ∈ labelsOf (rows.map Conjunct.body ++ [t]), l ∈ caseLabels := by
    intro l hl
    obtain ⟨b, hb, bindable, e, he⟩ := mem_labelsOf.mp hl
    exact (hcases b hb).among l (Body.mem_labels.mpr ⟨bindable, e, he⟩)
  have hlast (l : Label) (hl : l ∈ t.labels) : l ∈ labelsOf (rows.map Conjunct.body ++ [t]) := by
    obtain ⟨bindable, e, he⟩ := Body.mem_labels.mp hl
    exact mem_labelsOf.mpr ⟨t, by simp, bindable, e, he⟩
  have hgroups : ((rows.map Conjunct.body).flatMap fun b => b.context.groups) = [] := by
    refine List.flatMap_eq_nil_iff.mpr fun b hb => ?_
    obtain ⟨r, hr, rfl⟩ := List.mem_map.mp hb
    rw [(hrows r hr).body_context]
    exact (hrows r hr).groups
  have hadmits (l : Label) (hl : l ∈ caseLabels) :
      admits (rows.map Conjunct.body ++ [t]) l = true := by
    refine Bool.or_eq_true_iff.mpr (Or.inr (List.all_eq_true.mpr fun g hg => ?_))
    rw [List.flatMap_append, hgroups, List.nil_append, List.flatMap_singleton] at hg
    refine List.any_eq_true.mpr ⟨t, by simp, ?_⟩
    simp [hg, hdeclares l hl]
  refine ⟨nodup_eraseDups _, hamong, hlast _ hx, hlast _ hy, fun name => ?_,
    fun l => (memberNode n known path here _ l).value, structValue_madeOf _ _, fun name hname => ?_⟩
  · exact isPlain_of_mem_saidOf fun b hb => (hcases b hb).plain name
  · exact resolves_memberNode known path here (fun b hb => (hcases b hb).plain name)
      (hadmits _ (hamong _ hname)) hn

/-! ## Cases of the schema -/

/-- A struct of the schema for a case, given what it says of the members. -/
structure Body.IsBase (t : Body) (x y expected : Set Demand) : Prop where
  isCase : t.IsCase
  declares : ∀ l ∈ caseLabels, t.declares l = true
  xLabel : .regular "x" ∈ t.labels
  yLabel : .regular "y" ∈ t.labels
  xSaid : {d | ("x", d) ∈ t.said} = x
  ySaid : {d | ("y", d) ∈ t.said} = y
  expectedSaid : {d | ("expected", d) ∈ t.said} = expected
  size : sizeOfDecls t.decls = 6

/-- The declarations of a case: its operands and an expectation, which may be left out. -/
def caseDecls (x y expected : Expr) (optional : Bool) : List Decl :=
  [.field (.regular "x") true false x, .field (.regular "y") true false y,
    .field (.regular "expected") true optional expected]

theorem isBase_caseDecls {x y expected : Expr} {dx dy de : Demand} {context : Context}
    (p : Position) (optional : Bool)
    (hx : x.isRestriction (["x", "y", "expected"] ++ context.names) = true ∧ x.demands = [dx] ∧
      x.size = 1)
    (hy : y.isRestriction (["x", "y", "expected"] ++ context.names) = true ∧ y.demands = [dy] ∧
      y.size = 1)
    (hexpected : expected.isRestriction (["x", "y", "expected"] ++ context.names) = true ∧
      expected.demands = [de] ∧ expected.size = 1) :
    (⟨p, caseDecls x y expected optional, context⟩ : Body).IsBase {dx} {dy} {de} := by
  have hmem {l : Label} {bindable optional' : Bool} {e : Expr}
      (h : .field l bindable optional' e ∈ caseDecls x y expected optional) :
      l = .regular "x" ∧ e = x ∨ l = .regular "y" ∧ e = y ∨ l = .regular "expected" ∧
      e = expected := by
    simp only [caseDecls, List.mem_cons, Decl.field.injEq, List.not_mem_nil, or_false] at h
    tauto
  obtain ⟨hx, hxDemands, hxSize⟩ := hx
  obtain ⟨hy, hyDemands, hySize⟩ := hy
  obtain ⟨hexpected, heDemands, heSize⟩ := hexpected
  refine ⟨⟨?_, ?_, ?_⟩, ?_, ?_, ?_, ?_, ?_, ?_, ?_⟩
  · intro d hd
    simp only [caseDecls, List.mem_cons, List.not_mem_nil, or_false] at hd
    rcases hd with rfl | rfl | rfl <;> rfl
  · intro name bindable optional' e he
    rcases hmem he with ⟨-, rfl⟩ | ⟨-, rfl⟩ | ⟨-, rfl⟩
    · exact hx
    · exact hy
    · exact hexpected
  · intro l hl
    obtain ⟨bindable, e, he⟩ := Body.mem_labels.mp hl
    rcases hmem he with ⟨rfl, -⟩ | ⟨rfl, -⟩ | ⟨rfl, -⟩ <;> simp [caseLabels]
  · intro l hl
    simp only [caseLabels, List.mem_cons, List.not_mem_nil, or_false] at hl
    rcases hl with rfl | rfl | rfl <;> simp [Body.declares, caseDecls]
  · exact Body.mem_labels.mpr ⟨true, x, by simp [caseDecls]⟩
  · exact Body.mem_labels.mpr ⟨true, y, by simp [caseDecls]⟩
  · ext d
    simp [Body.said, caseDecls, Decl.said, hxDemands]
  · ext d
    simp [Body.said, caseDecls, Decl.said, hyDemands]
  · ext d
    simp [Body.said, caseDecls, Decl.said, heDemands]
  · simp only [caseDecls, sizeOfDecls, hxSize, hySize, heSize]

theorem mem_labels_caseDecls {x y expected : Expr} {context : Context} (p : Position)
    (optional : Bool) :
    .regular "expected" ∈ (⟨p, caseDecls x y expected optional, context⟩ : Body).labels ↔
      optional = false := by
  simp [Body.mem_labels, caseDecls, eq_comm]

namespace Schema

theorem ofIdentifier_x : Label.ofIdentifier "x" = .regular "x" := ofIdentifier_of_mem _ (by simp)

theorem ofIdentifier_y : Label.ofIdentifier "y" = .regular "y" := ofIdentifier_of_mem _ (by simp)

theorem ofIdentifier_expected : Label.ofIdentifier "expected" = .regular "expected" :=
  ofIdentifier_of_mem _ (by simp)

theorem ofIdentifier_case : Label.ofIdentifier "#Case" = .definition "#Case" := by decide +kernel

/-- The context of what the schema says of a setting. -/
def context : Context := { scopes := [⟨Decl.names source.decls, [.branch []]⟩] }

/-- The type of words. -/
def wordType : Predeclared := .unsigned "uint64" 64

theorem caseExpr_eq (line : Nat) (x y e : UInt64) :
    ∃ xColumn yColumn eColumn, caseExpr line ⟨x, y, some e⟩ = .struct (place line 2)
      (caseDecls (number line xColumn x.toNat) (number line yColumn y.toNat)
        (number line eColumn e.toNat) false) := by
  simp only [caseExpr, setting, ofIdentifier_x, ofIdentifier_y, ofIdentifier_expected,
    Option.map_some]
  exact ⟨_, _, _, rfl⟩

theorem caseDefinition_eq : caseDefinition = .struct (place 3 8)
    (caseDecls (name 4 13 "uint64") (name 5 13 "uint64") (name 6 13 "uint64") true) := by
  simp only [caseDefinition, setting, optionalSetting, ofIdentifier_x, ofIdentifier_y,
    ofIdentifier_expected, caseDecls]

theorem number_isRestriction (line column : Nat) (w : UInt64) (bound : List String) :
    (number line column w.toNat).isRestriction bound = true ∧
      (number line column w.toNat).demands = [.atom (word w)] ∧
      (number line column w.toNat).size = 1 :=
  ⟨word_isPlain w, rfl, rfl⟩

theorem wordType_isRestriction (line column : Nat) {context : Context}
    (h : context.scopes = Schema.context.scopes) :
    (name line column "uint64").isRestriction (["x", "y", "expected"] ++ context.names) = true ∧
      (name line column "uint64").demands = [.type wordType] ∧
      (name line column "uint64").size = 1 := by
  have hnames : context.names = Schema.context.names := by rw [Context.names, h]; rfl
  have hfree : (!(["x", "y", "expected"] ++ Schema.context.names).contains "uint64") = true := by
    decide +kernel
  rw [hnames]
  exact ⟨Bool.and_eq_true_iff.mpr ⟨hfree, rfl⟩, rfl, rfl⟩

/-- A case of the schema says what it is. -/
theorem isBase_caseExpr (line : Nat) (x y e : UInt64) (context : Context) :
    (Conjunct.mk (caseExpr line ⟨x, y, some e⟩) context).body.IsBase {.atom (word x)}
      {.atom (word y)} {.atom (word e)} ∧
      .regular "expected" ∈ (Conjunct.mk (caseExpr line ⟨x, y, some e⟩) context).body.labels ∧
      (Conjunct.mk (caseExpr line ⟨x, y, some e⟩) context).IsRecord := by
  obtain ⟨xColumn, yColumn, eColumn, heq⟩ := caseExpr_eq line x y e
  have hbase := isBase_caseDecls (place line 2) false
    (number_isRestriction line xColumn x (["x", "y", "expected"] ++ context.names))
    (number_isRestriction line yColumn y _) (number_isRestriction line eColumn e _)
  rw [heq]
  exact ⟨hbase, (mem_labels_caseDecls _ _).mpr rfl, _, _, rfl, hbase.isCase.record⟩

/-- The definition of a case says that its members are words. -/
theorem isBase_caseDefinition {context : Context} (h : context.scopes = Schema.context.scopes) :
    (Conjunct.mk caseDefinition context).body.IsBase {.type wordType} {.type wordType}
      {.type wordType} ∧
      .regular "expected" ∉ (Conjunct.mk caseDefinition context).body.labels ∧
      (Conjunct.mk caseDefinition context).IsRecord := by
  have hbase :=
    isBase_caseDecls (place 3 8) true (wordType_isRestriction 4 13 h)
      (wordType_isRestriction 5 13 h) (wordType_isRestriction 6 13 h)
  rw [caseDefinition_eq]
  exact ⟨hbase, fun hmem => Bool.noConfusion ((mem_labels_caseDecls _ _).mp hmem), _, _, rfl,
    hbase.isCase.record⟩

end Schema

/-! ## Cases that rows determine -/

end Config

namespace Case

open Config

/-- A case meets what is said of its members. -/
def Meets (said : String → Set Demand) (c : Case) : Prop :=
  (∀ d ∈ said "x", d.MetBy (word c.x)) ∧ (∀ d ∈ said "y", d.MetBy (word c.y)) ∧
  match c.expected with
  | none => said "expected" = ∅
  | some e => ∀ d ∈ said "expected", d.MetBy (word e)

/-- A case is what is said of its members, which are words.  It has an expectation if anything is
said of that. -/
def IsGiven (said : String → Set Demand) (c : Case) : Prop :=
  Determined (said "x" ∪ {.type Schema.wordType}) (word c.x) ∧
  Determined (said "y" ∪ {.type Schema.wordType}) (word c.y) ∧
  match c.expected with
  | none => said "expected" = ∅
  | some e => Determined (said "expected" ∪ {.type Schema.wordType}) (word e)

end Case

namespace Config

theorem determined_atom_iff {said : Set Demand} {a : Atom} :
    Determined (said ∪ {.atom a}) a ↔ ∀ d ∈ said, d.MetBy a := by
  constructor
  · exact fun h => exists_determined_iff.mp ⟨a, h⟩
  · intro h
    refine ⟨Or.inr rfl, ?_⟩
    rintro d (hd | rfl)
    · exact h d hd
    · exact Atom.agrees_self a

section Row

variable {rows : List Conjunct} {t : Body}

theorem mem_labelsOf_rows (hrows : ∀ r ∈ rows, r.IsRow) (name : String) :
    .regular name ∈ labelsOf (rows.map Conjunct.body ++ [t]) ↔
      (saidOf (rows.map Conjunct.body) name).Nonempty ∨ .regular name ∈ t.labels := by
  constructor
  · intro h
    obtain ⟨b, hb, bindable, e, he⟩ := mem_labelsOf.mp h
    rcases List.mem_append.mp hb with hb | hb
    · obtain ⟨r, hr, rfl⟩ := List.mem_map.mp hb
      obtain ⟨d, hd⟩ := (hrows r hr).mem_labels.mp (Body.mem_labels.mpr ⟨bindable, e, he⟩)
      rw [← (hrows r hr).body_said] at hd
      exact Or.inl ⟨d, _, List.mem_map_of_mem hr, hd⟩
    · exact Or.inr (Body.mem_labels.mpr ⟨bindable, e, List.mem_singleton.mp hb ▸ he⟩)
  · rintro (⟨d, b, hb, hd⟩ | ht)
    · obtain ⟨r, hr, rfl⟩ := List.mem_map.mp hb
      rw [(hrows r hr).body_said] at hd
      obtain ⟨bindable, e, he⟩ := Body.mem_labels.mp ((hrows r hr).mem_labels.mpr ⟨d, hd⟩)
      exact mem_labelsOf.mpr ⟨_, List.mem_append_left _ (List.mem_map_of_mem hr), bindable, e, he⟩
    · obtain ⟨bindable, e, he⟩ := Body.mem_labels.mp ht
      exact mem_labelsOf.mpr ⟨t, List.mem_append_right _ (List.mem_singleton_self t),
        bindable, e, he⟩

/-- Rows on top of a case of the schema say that case, if it meets them. -/
theorem rowSays_caseExpr_iff {x y e : UInt64}
    (ht : t.IsBase {.atom (word x)} {.atom (word y)} {.atom (word e)})
    (hexpected : .regular "expected" ∈ t.labels) (hrows : ∀ r ∈ rows, r.IsRow) :
    RowSays (labelsOf (rows.map Conjunct.body ++ [t])) (saidOf (rows.map Conjunct.body ++ [t]))
        ⟨x, y, some e⟩ ↔
      Case.Meets (saidOf (rows.map Conjunct.body)) ⟨x, y, some e⟩ := by
  simp only [RowSays, Case.Meets, saidOf_append, ht.xSaid, ht.ySaid, ht.expectedSaid,
    determined_atom_iff, mem_labelsOf_rows hrows, hexpected, or_true, true_and]

/-- Rows on top of a case of the schema fail unless it meets them. -/
theorem meets_of_isRow {v : Value} {x y e : UInt64}
    (ht : t.IsBase {.atom (word x)} {.atom (word y)} {.atom (word e)})
    (hexpected : .regular "expected" ∈ t.labels) (hrows : ∀ r ∈ rows, r.IsRow)
    (h : IsRow v (labelsOf (rows.map Conjunct.body ++ [t]))
      (saidOf (rows.map Conjunct.body ++ [t])))
    (hv : v.isFailed = false) : Case.Meets (saidOf (rows.map Conjunct.body)) ⟨x, y, some e⟩ := by
  have hmet {name : String} {w : UInt64} (hname : .regular name ∈ t.labels)
      (hsaid : {d | (name, d) ∈ t.said} = {.atom (word w)}) :
        ∀ d ∈ saidOf (rows.map Conjunct.body) name, d.MetBy (word w) := by
    have hlabel := (mem_labelsOf_rows hrows name).mpr (Or.inr hname)
    have hatom : .atom (word w) ∈ saidOf (rows.map Conjunct.body ++ [t]) name := by
      rw [saidOf_append, hsaid]
      exact Or.inr rfl
    have hdetermined := h.exists_determined hv hlabel hatom
    rw [saidOf_append, hsaid] at hdetermined
    exact exists_determined_iff.mp hdetermined
  exact ⟨hmet ht.xLabel ht.xSaid, hmet ht.yLabel ht.ySaid, hmet hexpected ht.expectedSaid⟩

/-- Rows on top of the definition of a case say the cases that they determine. -/
theorem rowSays_caseDefinition_iff
    (ht : t.IsBase {.type Schema.wordType} {.type Schema.wordType} {.type Schema.wordType})
    (hexpected : .regular "expected" ∉ t.labels) (hrows : ∀ r ∈ rows, r.IsRow) (c : Case) :
    RowSays (labelsOf (rows.map Conjunct.body ++ [t])) (saidOf (rows.map Conjunct.body ++ [t])) c ↔
      c.IsGiven (saidOf (rows.map Conjunct.body)) := by
  simp only [RowSays, Case.IsGiven, saidOf_append, ht.xSaid, ht.ySaid, ht.expectedSaid,
    mem_labelsOf_rows hrows, hexpected, or_false]
  cases c.expected with
  | none => simp [Set.not_nonempty_iff_eq_empty]
  | some e =>
    refine and_congr_right fun _ => and_congr_right fun _ => and_iff_right_of_imp ?_
    rintro ⟨hmem | hmem, -⟩
    · exact ⟨_, hmem⟩
    · cases hmem

end Row

/-! ## Lists of rows -/

/-- A conjunct that is a list of rows, outside of closed structs. -/
structure Conjunct.IsCaseList (c : Conjunct) : Prop where
  list : c.expr.isCaseList c.context.names = true
  groups : c.context.groups = []

/-- The list of a conjunct. -/
def Conjunct.sequence (c : Conjunct) : Sequence :=
  match c.expr with
  | .list p items tail => ⟨p, items, tail, c.context⟩
  | e => ⟨e.place, [], .closed, c.context⟩

/-- The rows of lists at an index. -/
def rowsAt (lists : List Conjunct) (i : Nat) : List Conjunct :=
  lists.filterMap fun c => c.sequence.conjunct? i

theorem Conjunct.IsCaseList.exists_list {c : Conjunct} (h : c.IsCaseList) :
    ∃ p items, c.expr = .list p items .closed ∧ ∀ e ∈ items, e.isRow c.context.names = true := by
  obtain ⟨e, context⟩ := c
  have hlist : e.isCaseList context.names = true := h.list
  unfold Expr.isCaseList at hlist
  split at hlist
  · next p items => exact ⟨p, items, rfl, List.all_eq_true.mp hlist⟩
  · cases hlist

section Rows

variable {lists : List Conjunct}

theorem mem_rowsAt (hlists : ∀ c ∈ lists, c.IsCaseList) {i : Nat} {r : Conjunct} :
    r ∈ rowsAt lists i ↔
      ∃ c ∈ lists, ∃ e, c.sequence.items[i]? = some e ∧
      r = ⟨e, { c.context with anchors := [] }⟩ := by
  rw [rowsAt, List.mem_filterMap]
  refine exists_congr fun c => and_congr_right fun hc => ?_
  obtain ⟨e, context⟩ := c
  obtain ⟨p, items, rfl, -⟩ := (hlists _ hc).exists_list
  simp [Conjunct.sequence, Sequence.conjunct?, eq_comm]

theorem isRow_of_mem_rowsAt (hlists : ∀ c ∈ lists, c.IsCaseList) {i : Nat} :
    ∀ r ∈ rowsAt lists i, r.IsRow := by
  intro r hr
  obtain ⟨c, hc, e, he, rfl⟩ := (mem_rowsAt hlists).mp hr
  have hlist := hlists c hc
  obtain ⟨p, items, hexpr, hitems⟩ := hlist.exists_list
  rw [Conjunct.sequence, hexpr] at he
  exact ⟨hitems e (List.mem_of_getElem? he), hlist.groups⟩

/-- What the rows at an index say is what the lists say there. -/
theorem saidOf_rowsAt (hlists : ∀ c ∈ lists, c.IsCaseList) (i : Nat) :
    saidOf ((rowsAt lists i).map Conjunct.body) = RowsSay (listsOf lists) i := by
  funext name
  ext d
  constructor
  · rintro ⟨b, hb, hd⟩
    obtain ⟨r, hr, rfl⟩ := List.mem_map.mp hb
    rw [(isRow_of_mem_rowsAt hlists r hr).body_said] at hd
    obtain ⟨c, hc, e, he, rfl⟩ := (mem_rowsAt hlists).mp hr
    obtain ⟨p, items, hexpr, -⟩ := (hlists c hc).exists_list
    rw [Conjunct.sequence, hexpr] at he
    refine ⟨_, ⟨c, hc, rfl⟩, e.said, ?_, hd⟩
    rw [hexpr, Expr.rows, List.getElem?_map, he]
    rfl
  · rintro ⟨rows, ⟨c, hc, rfl⟩, row, hrow, hd⟩
    obtain ⟨p, items, hexpr, -⟩ := (hlists c hc).exists_list
    rw [hexpr, Expr.rows, List.getElem?_map] at hrow
    obtain ⟨e, he, rfl⟩ := Option.map_eq_some_iff.mp hrow
    have hr : ⟨e, { c.context with anchors := [] }⟩ ∈ rowsAt lists i := by
      refine (mem_rowsAt hlists).mpr ⟨c, hc, e, ?_, rfl⟩
      rw [Conjunct.sequence, hexpr]
      exact he
    refine ⟨_, List.mem_map_of_mem hr, ?_⟩
    rw [(isRow_of_mem_rowsAt hlists _ hr).body_said]
    exact hd

theorem rowsAt_ne_nil (hlists : ∀ c ∈ lists, c.IsCaseList) {c : Conjunct} (hc : c ∈ lists) {i : Nat}
    (hi : i < c.sequence.length) : rowsAt lists i ≠ [] :=
  List.ne_nil_of_mem ((mem_rowsAt hlists).mpr ⟨c, hc, _, List.getElem?_eq_getElem hi, rfl⟩)

theorem length_rows {c : Conjunct} (h : c.IsCaseList) : c.expr.rows.length = c.sequence.length := by
  obtain ⟨p, items, hexpr, -⟩ := h.exists_list
  rw [Conjunct.sequence, hexpr, Expr.rows, List.length_map]
  rfl

theorem isClosed_sequence {c : Conjunct} (h : c.IsCaseList) : c.sequence.isClosed = true := by
  obtain ⟨p, items, hexpr, -⟩ := h.exists_list
  rw [Conjunct.sequence, hexpr]
  rfl

theorem size_le_of_getElem? {items : List Expr} {i : Nat} {e : Expr} (h : items[i]? = some e) :
    e.size ≤ sizeOfItems items := by
  induction items generalizing i with
  | nil => cases h
  | cons e' items ih =>
    rw [sizeOfItems]
    cases i with
    | zero =>
      obtain rfl := Option.some.inj h
      exact Nat.le_add_right _ _
    | succ i => exact (ih h).trans (Nat.le_add_left _ _)

/-- The rows at an index are no larger than the lists. -/
theorem sizeOfBodies_rowsAt_le (hlists : ∀ c ∈ lists, c.IsCaseList) (i : Nat) :
    sizeOfBodies ((rowsAt lists i).map Conjunct.body) ≤ sizeOfConjuncts lists := by
  induction lists with
  | nil => rfl
  | cons c lists ih =>
    have hrest := ih fun c' hc' => hlists c' (List.mem_cons_of_mem c hc')
    have hsize : sizeOfConjuncts (c :: lists) = c.expr.size + sizeOfConjuncts lists := rfl
    obtain ⟨e, context⟩ := c
    obtain ⟨p, items, rfl, hitems⟩ := (hlists _ List.mem_cons_self).exists_list
    rw [hsize, Expr.size]
    have hconjunct : (Conjunct.mk (.list p items .closed) context).sequence.conjunct? i =
        items[i]?.map fun e => ⟨e, { context with anchors := [] }⟩ := by
      simp [Conjunct.sequence, Sequence.conjunct?]
    rw [rowsAt, List.filterMap_cons, hconjunct]
    cases hitem : items[i]? with
    | none => exact hrest.trans (Nat.le_add_left _ _)
    | some e =>
      have hle := size_le_of_getElem? hitem
      have hrow : e.isRow context.names = true := hitems e (List.mem_of_getElem? hitem)
      cases e with
      | struct q ds =>
        rw [Expr.size] at hle
        change sizeOfDecls ds + sizeOfBodies ((rowsAt lists i).map Conjunct.body) ≤ _
        omega
      | _ => cases hrow

end Rows

/-! ## Items -/

section Items

variable {lists : List Conjunct}

theorem isRow_rowsAt (known : Option Node) (path : List Text) (here : Address)
    (hlists : ∀ c ∈ lists, c.IsCaseList) (i : Nat) {t : Body} {x y e : Set Demand}
    (ht : t.IsBase x y e) {n : Nat} (hn : sizeOfConjuncts lists + 12 ≤ n) :
    IsRow (structValue (membersOf n known path here ((rowsAt lists i).map Conjunct.body ++ [t])))
      (labelsOf ((rowsAt lists i).map Conjunct.body ++ [t]))
        (saidOf ((rowsAt lists i).map Conjunct.body ++ [t])) := by
  refine isRow_of_bodies known path here (isRow_of_mem_rowsAt hlists) ht.isCase ht.declares
    ht.xLabel ht.yLabel ?_
  have hsize := sizeOfBodies_rowsAt_le hlists i
  simp only [sizeOfBodies, List.map_append, List.sum_append, List.map_cons, List.map_nil,
    List.sum_singleton, ht.size] at hsize ⊢
  omega

/-- Rows on top of a case of the schema. -/
theorem value_evaluate_caseExpr (known : Option Node) (path : List Text) (address : Address)
    (hlists : ∀ c ∈ lists, c.IsCaseList) (i line : Nat) (x y e : UInt64) (context : Context)
    (n : Nat) :
    (evaluate (n + 6) known path address (rowsAt lists i ++
      [⟨Schema.caseExpr line ⟨x, y, some e⟩, context⟩])).value =
      structValue (membersOf (n + 4) known path (address ++ [.branch []])
        ((rowsAt lists i).map Conjunct.body ++
        [(Conjunct.mk (Schema.caseExpr line ⟨x, y, some e⟩) context).body])) := by
  have hrecords : ∀ c ∈ rowsAt lists i ++ [⟨Schema.caseExpr line ⟨x, y, some e⟩, context⟩],
      c.IsRecord := by
    intro c hc
    rcases List.mem_append.mp hc with hc | hc
    · exact (isRow_of_mem_rowsAt hlists c hc).isRecord
    · exact List.mem_singleton.mp hc ▸ (Schema.isBase_caseExpr line x y e context).2.2
  rw [evaluate_of_records known path address (by simp) hrecords, List.map_append]
  rfl

theorem Expansion.append_assoc (a b c : Expansion) :
    (a.append b).append c = a.append (b.append c) := by
  simp [Expansion.append]

theorem direct_append (path : List Text) (here : Address) (cs ds : List Conjunct) :
    direct path here (cs ++ ds) = (direct path here cs).append (direct path here ds) := by
  induction cs with
  | nil => rfl
  | cons c cs ih => rw [List.cons_append, direct_cons, ih, direct_cons, Expansion.append_assoc]

/-- The address of the definition of a case. -/
def Schema.caseAddress : Address := [.branch [], .member (.definition "#Case")]

/-- What is known of the definition of a case is what the schema says. -/
def KnowsCase (known : Option Node) : Prop :=
  ∃ node, lookUp known Schema.caseAddress = .node node ∧
    node.conjuncts = [⟨Schema.caseDefinition, Schema.context⟩]

/-- The conjunct that asks for a case by its name. -/
def Schema.caseName : Conjunct := ⟨name 14 12 "#Case", context⟩

/-- An address below the setting of the cases. -/
def BelowCases (address : Address) : Prop :=
  ∃ rest, address = .branch [] :: .member (.regular "cases") :: rest

theorem Schema.addressOf?_caseName (known : Option Node) :
    addressOf? known caseName.context caseName.expr = some caseAddress := by
  have hbinds : (Decl.names source.decls).contains "#Case" = true := by simp [names_source]
  simp only [caseName, name, addressOf?, Context.scopeOf?, context, List.find?_cons, Scope.binds,
    hbinds, Option.map_some, ofIdentifier_case]
  rfl

/-- The name of the definition leads to the definition. -/
theorem taskParts_caseName {known : Option Node} (hknown : KnowsCase known) (path : List Text)
    {address : Address} (haddress : BelowCases address) (here : Address) :
    ∃ context : Context, context.scopes = Schema.context.scopes ∧
      ∀ n, taskParts (n + 1) known path address here Schema.caseName =
        { facts := [.body (Conjunct.mk Schema.caseDefinition context).body] } := by
  obtain ⟨node, hnode, hconjuncts⟩ := hknown
  obtain ⟨rest, rfl⟩ := haddress
  have hother : ¬Schema.caseAddress = .branch [] :: .member (.regular "cases") :: rest := by
    simp [Schema.caseAddress]
  have hbelow : ¬Schema.caseAddress.isPrefixOf (.branch [] :: .member (.regular "cases") :: rest) =
      true := by
    simp [Schema.caseAddress, List.isPrefixOf]
  have htrail : ¬(Schema.context.trail.any fun t => t.1 = Schema.place 14 12) = true := by
    simp [Schema.context]
  set context : Context := { Schema.context with
    groups := [[(Schema.place 14 12, path.length)]]
    trail := [(Schema.place 14 12, path.length)]
    route := [Schema.place 14 12] } with hcontext
  refine ⟨context, rfl, fun n => ?_⟩
  have haddressOf : addressOf? known Schema.context (.name (Schema.place 14 12) "#Case") =
      some Schema.caseAddress :=
    Schema.addressOf?_caseName known
  rw [Schema.caseName, Schema.name, taskParts, haddressOf]
  dsimp only
  rw [Schema.ofIdentifier_case, follow, if_neg hother, if_neg hbelow, if_neg htrail, hnode]
  dsimp only
  rw [hconjuncts]
  have hdirect : direct path here [⟨Schema.caseDefinition, context⟩] = _ :=
    direct_of_records path here
      (List.forall_mem_singleton.mpr (Schema.isBase_caseDefinition rfl).2.2)
  change { direct path here [⟨Schema.caseDefinition, context⟩] with closures := [] } = _
  rw [hdirect]
  rfl

theorem direct_caseName (path : List Text) (here : Address) :
    direct path here [Schema.caseName] = { tasks := [Schema.caseName] } := by
  have hbinds : (Decl.names Schema.source.decls).contains "#Case" = true := by
    simp [Schema.names_source]
  have hscope : Schema.context.scopeOf? "#Case" =
      some ⟨Decl.names Schema.source.decls, [.branch []]⟩ := by
    simp only [Context.scopeOf?, Schema.context, List.find?_cons, Scope.binds, hbinds]
  have hparts : Schema.caseName.parts path here = .task Schema.caseName := by
    rw [Schema.caseName, Schema.name, Conjunct.parts, Expr.parts, hscope]
  rw [direct, List.map_singleton, hparts]
  rfl

/-- Rows on top of the definition of a case, asked for by its name. -/
theorem value_evaluate_caseName {known : Option Node} (hknown : KnowsCase known) (path : List Text)
    {address : Address} (haddress : BelowCases address) (hlists : ∀ c ∈ lists, c.IsCaseList)
    {i : Nat} (hne : rowsAt lists i ≠ []) (n : Nat) :
    ∃ context : Context, context.scopes = Schema.context.scopes ∧
      (evaluate (n + 6) known path address (rowsAt lists i ++ [Schema.caseName])).value =
        structValue (membersOf (n + 4) known path (address ++ [.branch []])
          ((rowsAt lists i).map Conjunct.body ++
          [(Conjunct.mk Schema.caseDefinition context).body])) := by
  obtain ⟨context, hscopes, hparts⟩ :=
    taskParts_caseName hknown path haddress (address ++ [.branch []])
  refine ⟨context, hscopes, ?_⟩
  have hrows := isRow_of_mem_rowsAt hlists (i := i)
  have hdirect : direct path (address ++ [.branch []]) (rowsAt lists i ++ [Schema.caseName]) =
      { facts := ((rowsAt lists i).map Conjunct.body).map .body, tasks := [Schema.caseName] } := by
    rw [direct_append, direct_of_records _ _ fun r hr => (hrows r hr).isRecord, direct_caseName]
    simp [Expansion.append]
  have huse : useOf? known Schema.caseName = some ⟨Schema.caseAddress, [], []⟩ := by
    rw [useOf?, Schema.addressOf?_caseName]
    rfl
  have hexpand : expand (n + 5) known path address [] [] (rowsAt lists i ++ [Schema.caseName]) =
      { facts := ((rowsAt lists i).map Conjunct.body ++
          [(Conjunct.mk Schema.caseDefinition context).body]).map .body
        uses := [⟨Schema.caseAddress, [], []⟩] } := by
    rw [expand]
    change runTasks _ known path address _ (direct path _ _).tasks
      { direct path _ _ with tasks := [], uses := [] } = _
    rw [hdirect]
    dsimp only
    rw [runTasks, huse, hparts]
    simp [runTasks_nil, Expansion.append]
  have hname :
      onlyName? (direct path (address ++ [.branch []]) (rowsAt lists i ++ [Schema.caseName])) =
        none := by
    obtain ⟨r, rest, hcons⟩ := List.exists_cons_of_ne_nil hne
    rw [hdirect, hcons]
    rfl
  have himposes :
      ∃ b ∈ (rowsAt lists i).map Conjunct.body ++
          [(Conjunct.mk Schema.caseDefinition context).body], b.imposes = true :=
    ⟨_, List.mem_append_right _ (List.mem_singleton_self _),
      (Schema.isBase_caseDefinition hscopes).2.2.body.imposes⟩
  rw [evaluate_of_expand hexpand rfl hname]
  exact (meet_of_bodies known path address himposes (n + 4) [] _).1

end Items

end Config
end RepeatedAddition
