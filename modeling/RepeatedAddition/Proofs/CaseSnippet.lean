import RepeatedAddition.Proofs.LoneLayer
import RepeatedAddition.Proofs.SourceReading

/-!
# Snippets that set the cases

A snippet may set the cases to a list that is written out.  It loads whatever the list is, and the
other settings stay at their defaults.  The cases are those of the list unless each of them is part
of the default case in its place: then all demands are met by the default cases, which are
preferred, and what they expect is expected of the cases of the list too.

* `caseSnippet`: the snippet, with any number of blanks between its lexemes.
* `Case.IsPartOf`: a case has the operands of another, and expects nothing that the other does not.
* `completed`: the cases that a list comes to.
* `load_caseSnippet`: the settings that a snippet is loaded as.
-/

namespace RepeatedAddition

namespace Case

/-- What a case sets: its operands, and what is expected of them if anything is. -/
def entries (c : Case) : List (String × UInt64) :=
  [("x", c.x), ("y", c.y)] ++ (c.expected.map (Prod.mk "expected")).toList

/-- A case has the operands of another, and expects nothing that the other does not. -/
def IsPartOf (c d : Case) : Prop :=
  c.x = d.x ∧ c.y = d.y ∧ (c.expected = none ∨ c.expected = d.expected)

instance : DecidableRel IsPartOf := fun c d =>
  inferInstanceAs (Decidable (c.x = d.x ∧ c.y = d.y ∧
    (c.expected = none ∨ c.expected = d.expected)))

theorem isPartOf_self (c : Case) : c.IsPartOf c := ⟨rfl, rfl, Or.inr rfl⟩

/-- The row that says a case. -/
def row (c : Case) : Config.Row := c.entries.map fun entry => (entry.1, .atom (Config.word entry.2))

end Case

namespace Config

/-! ## The snippet -/

/-- The lexemes of a case. -/
def caseLexemes (c : Case) : List Lexeme :=
  Source.structLexemes Prod.fst (fun entry => [.natural entry.2.toNat]) c.entries

/-- The lexemes of a list of cases. -/
def caseListLexemes (cs : List Case) : List Lexeme := Source.listLexemes caseLexemes cs

/-- The snippet that sets the cases to a list, with a number of blanks behind each lexeme. -/
def caseSnippet (blanks : Nat → Nat) (cs : List Case) : Text :=
  Utf8.encode (Token.laidOut blanks (Source.fieldLexemes (fun _ => "cases") caseListLexemes cs))

example : caseSnippet (fun _ => 0) [⟨10, 5, some 50⟩, ⟨7, 8, none⟩] =
    Text.lit "cases:[\x7bx:10,y:5,expected:50\x7d,\x7bx:7,y:8\x7d]" := by
  decide +kernel

/-- An expression is a case that is written out. -/
def IsCase (c : Case) (e : Expr) : Prop :=
  Source.IsStructOf Prod.fst (fun entry : String × UInt64 => Source.IsNatural entry.2.toNat)
    c.entries e

theorem mem_names_of_mem_entries {c : Case} {entry : String × UInt64} (h : entry ∈ c.entries) :
    entry.1 ∈ ["x", "y", "expected"] := by
  simp only [Case.entries, List.mem_append, List.mem_cons, List.not_mem_nil, or_false,
    Option.mem_toList, Option.map_eq_some_iff] at h
  rcases h with (rfl | rfl) | ⟨e, -, rfl⟩ <;> simp

theorem isLabel_of_mem_entries {c : Case} {entry : String × UInt64} (h : entry ∈ c.entries) :
    Source.isLabel entry.1 = true := by
  have hnames : ∀ name ∈ ["x", "y", "expected"], Source.isLabel name = true := by decide +kernel
  exact hnames _ (mem_names_of_mem_entries h)

theorem readsAs_case (c : Case) : Source.ReadsAs (caseLexemes c) (IsCase c) :=
  Source.readsAs_struct (List.cons_ne_nil _ _) (fun _ h => isLabel_of_mem_entries h)
    fun entry _ => Source.readsAs_natural entry.2.toNat

theorem isValue_case (c : Case) : Source.IsValue (caseLexemes c) :=
  Source.isValue_struct (fun _ h => isLabel_of_mem_entries h) fun entry _ =>
    Source.isValue_natural entry.2.toNat

/-- An expression is a layer that sets the cases to a list. -/
def SetsCases (cs : List Case) (e : Expr) : Prop :=
  Source.IsStructOf (fun _ => "cases") (Source.IsListOf IsCase) [cs] e

/-- **The snippet is read as the layer that sets the cases.** -/
theorem exists_read_caseSnippet (layer : Text) (blanks : Nat → Nat) (cs : List Case) :
    ∃ e, Source.read layer (caseSnippet blanks cs) = .ok e ∧ SetsCases cs e := by
  have hlabel : Source.isLabel "cases" = true ∧ "cases" ∉ ["package", "import"] := by decide +kernel
  have hread (cs : List Case) : Source.ReadsAs (caseListLexemes cs) (Source.IsListOf IsCase cs) :=
    Source.readsAs_list fun c _ => readsAs_case c
  have hvalue (cs : List Case) : Source.IsValue (caseListLexemes cs) :=
    Source.isValue_list fun c _ => isValue_case c
  -- the source is a struct of one field, which is named without looking at its value
  exact @Source.exists_read_laidOut _ (fun _ => "cases") caseListLexemes (Source.IsListOf IsCase)
    layer blanks [cs] (List.cons_ne_nil cs []) (fun _ _ => hlabel) (fun cs _ => hread cs)
    fun cs _ => hvalue cs

/-! ## What the snippet says -/

/-- The fields of a case that is written out are its entries. -/
theorem exists_entry_of_mem {entries : List (String × UInt64)} {ds : List Decl}
    (h : List.Forall₂ (Source.SetsField Prod.fst fun entry : String × UInt64 =>
      Source.IsNatural entry.2.toNat) entries ds)
    {d : Decl} (hd : d ∈ ds) :
    ∃ entry ∈ entries, ∃ p,
      d = .field (.regular entry.1) true false (.literal p (word entry.2)) := by
  induction h with
  | nil => cases hd
  | @cons entry d' entries ds hfirst _ ih =>
    rcases List.mem_cons.mp hd with rfl | hd
    · obtain ⟨-, ⟨p, rfl⟩, rfl⟩ := hfirst
      exact ⟨entry, List.mem_cons_self, p, rfl⟩
    · obtain ⟨entry', hentry', hsets⟩ := ih hd
      exact ⟨entry', List.mem_cons_of_mem entry hentry', hsets⟩

theorem said_of_entries {entries : List (String × UInt64)} {ds : List Decl}
    (h : List.Forall₂ (Source.SetsField Prod.fst fun entry : String × UInt64 =>
      Source.IsNatural entry.2.toNat) entries ds) :
    ds.flatMap Decl.said = entries.map fun entry => (entry.1, .atom (word entry.2)) := by
  induction h with
  | nil => rfl
  | cons hfirst _ ih =>
    obtain ⟨-, ⟨p, rfl⟩, rfl⟩ := hfirst
    rw [List.flatMap_cons, ih]
    rfl

theorem IsCase.isRow {c : Case} {e : Expr} (h : IsCase c e) (bound : List String) :
    e.isRow bound = true := by
  obtain ⟨p, ds, rfl, hds⟩ := h
  refine List.all_eq_true.mpr fun d hd => ?_
  obtain ⟨entry, hentry, q, rfl⟩ := exists_entry_of_mem hds hd
  have hlabels : ∀ name ∈ ["x", "y", "expected"], caseLabels.contains (.regular name) = true := by
    decide
  exact Bool.and_eq_true_iff.mpr ⟨hlabels _ (mem_names_of_mem_entries hentry), word_isPlain entry.2⟩

theorem IsCase.said {c : Case} {e : Expr} (h : IsCase c e) : e.said = c.row := by
  obtain ⟨p, ds, rfl, hds⟩ := h
  exact said_of_entries hds

section Layer

variable {cs : List Case} {e : Expr}

theorem SetsCases.exists_eq (h : SetsCases cs e) :
    ∃ p q es, e = .struct p [.field (.regular "cases") true false (.list q es .closed)] ∧
      List.Forall₂ IsCase cs es := by
  obtain ⟨p, ds, rfl, hds⟩ := h
  cases hds with
  | cons hd hrest =>
    cases hrest
    obtain ⟨-, ⟨q, es, rfl, hes⟩, rfl⟩ := hd
    exact ⟨p, q, es, rfl, hes⟩

/-- The layer is one struct. -/
theorem SetsCases.layerBodies_eq (h : SetsCases cs e) : ∃ p q es, List.Forall₂ IsCase cs es ∧
    [e].flatMap layerBodies =
      [⟨p, [.field (.regular "cases") true false (.list q es .closed)], {}⟩] := by
  obtain ⟨p, q, es, rfl, hes⟩ := h.exists_eq
  exact ⟨p, q, es, hes, rfl⟩

theorem SetsCases.isPlainLayer (h : SetsCases cs e) : e.IsPlainLayer := by
  obtain ⟨p, q, es, rfl, hes⟩ := h.exists_eq
  have hrows (bound : List String) : es.all (Expr.isRow bound) = true := by
    clear h
    induction hes with
    | nil => rfl
    | cons hfirst _ ih => rw [List.all_cons, hfirst.isRow, ih, Bool.and_self]
  refine ⟨.struct (List.forall_mem_singleton.mpr (Or.inl rfl)) fun e he => absurd he (by simp), ?_⟩
  refine List.forall_mem_singleton.mpr (List.forall_mem_singleton.mpr ?_)
  exact hrows _

/-- The layer says nothing of single settings. -/
theorem SetsCases.layersSay_eq (h : SetsCases cs e) (name : String) : layersSay [e] name = ∅ := by
  obtain ⟨p, q, es, -, hbodies⟩ := h.layerBodies_eq
  rw [layersSay, hbodies]
  refine Set.eq_empty_iff_forall_notMem.mpr ?_
  rintro d ⟨b, hb, hd⟩
  obtain rfl := List.mem_singleton.mp hb
  -- a list is no restriction, so its field says nothing
  cases hd

/-- The layer gives one list of rows. -/
theorem SetsCases.layersList_eq (h : SetsCases cs e) : layersList [e] = {cs.map Case.row} := by
  obtain ⟨p, q, es, hes, hbodies⟩ := h.layerBodies_eq
  have hrows : es.map Expr.said = cs.map Case.row := by
    clear h hbodies
    induction hes with
    | nil => rfl
    | cons hfirst _ ih => rw [List.map_cons, List.map_cons, hfirst.said, ih]
  rw [layersList, hbodies, ← hrows]
  ext rows
  simp [Body.caseLists, Expr.rows]

end Layer

/-! ## The cases that the snippet says -/

theorem word_inj {v w : UInt64} (h : word v = word w) : v = w :=
  UInt64.toNat_inj.mp (congrArg Decimal.coefficient (Atom.int.inj h))

theorem metBy_word_iff {v w : UInt64} : (Demand.atom (word v)).MetBy (word w) ↔ v = w := by
  constructor
  · intro h
    exact word_inj (Atom.eq_of_agrees (word_isPlain v) (word_isPlain w) Kind.noConfusion h)
  · rintro rfl
    exact Atom.agrees_self (word v)

theorem metBy_wordType (w : UInt64) : (Demand.type Schema.wordType).MetBy (word w) := by
  refine ⟨List.mem_singleton_self _, ?_⟩
  rintro x ⟨⟩
  have hlt := w.toNat_lt
  rw [Decimal.value_ofNat]
  constructor
  · rintro d ⟨⟩
    exact le_of_eq_of_le (Decimal.value_ofNat 0) (Nat.cast_le.mpr (Nat.zero_le w.toNat))
  · rintro d ⟨⟩
    exact le_of_le_of_eq (Nat.cast_le.mpr (Nat.le_sub_one_of_lt hlt)) (Decimal.value_ofNat _).symm

end Config

namespace Case

open Config

/-- What a row says of its members. -/
def said (c : Case) (name : String) : Set Demand := {d | (name, d) ∈ c.row}

theorem said_of_mem {c : Case} {entry : String × UInt64} (h : entry ∈ c.entries) :
    c.said entry.1 = {.atom (word entry.2)} := by
  obtain ⟨x, y, _ | e⟩ := c <;>
    simp only [entries, Option.map_none, Option.map_some, Option.toList_none, Option.toList_some,
      List.append_nil, List.cons_append, List.nil_append, List.mem_cons, List.not_mem_nil,
      or_false] at h <;>
    rcases h with rfl | rfl | rfl <;> ext d <;> simp [said, row, entries]

theorem said_x (c : Case) : c.said "x" = {.atom (word c.x)} :=
  @said_of_mem c ("x", c.x) (by simp [entries])

theorem said_y (c : Case) : c.said "y" = {.atom (word c.y)} :=
  @said_of_mem c ("y", c.y) (by simp [entries])

theorem said_expected {c : Case} {e : UInt64} (h : c.expected = some e) :
    c.said "expected" = {.atom (word e)} :=
  @said_of_mem c ("expected", e) (by simp [entries, h])

theorem said_expected_none {c : Case} (h : c.expected = none) : c.said "expected" = ∅ := by
  ext d
  simp [said, row, entries, h]

theorem canBe_said (c : Case) (name : String) : CanBe (c.said name) := by
  rintro ⟨d, hd⟩
  obtain ⟨entry, hentry, heq⟩ := List.mem_map.mp hd
  obtain ⟨rfl, rfl⟩ := Prod.mk.inj heq
  rw [said_of_mem hentry]
  refine ⟨_, rfl, ?_⟩
  rintro _ rfl
  exact metBy_word_iff.mpr rfl

/-- A case meets what another says exactly if the other is part of it. -/
theorem meets_said_iff (c d : Case) : d.Meets c.said ↔ c.IsPartOf d := by
  have hword (v w : UInt64) : (∀ a ∈ ({.atom (word v)} : Set Demand), a.MetBy (word w)) ↔
      v = w := by
    simp only [Set.mem_singleton_iff, forall_eq, metBy_word_iff]
  rw [Meets, IsPartOf, said_x, said_y, hword, hword]
  refine and_congr_right fun _ => and_congr_right fun _ => ?_
  cases hc : c.expected with
  | none =>
    rw [said_expected_none hc]
    cases d.expected <;> simp
  | some v =>
    rw [said_expected hc]
    cases d.expected with
    | none => simp
    | some w =>
      refine (hword v w).trans ?_
      simp [eq_comm]

/-- A case is what it says. -/
theorem isGiven_said (c : Case) : c.IsGiven c.said := by
  have hword (w : UInt64) : Determined ({.atom (word w)} ∪ {.type Schema.wordType}) (word w) := by
    refine ⟨Or.inl rfl, ?_⟩
    rintro d (rfl | rfl)
    · exact metBy_word_iff.mpr rfl
    · exact metBy_wordType w
  rw [IsGiven, said_x, said_y]
  refine ⟨hword c.x, hword c.y, ?_⟩
  cases hc : c.expected with
  | none => exact said_expected_none hc
  | some e =>
    rw [said_expected hc]
    exact hword e

end Case

namespace Config

section Rows

variable {cs ds : List Case}

theorem length_of_mem_rows :
    ∀ rows ∈ ({cs.map Case.row} : Set (List Row)), rows.length = cs.length := by
  rintro _ rfl
  exact List.length_map _

theorem rowsSay_rows {i : Nat} {c : Case} (h : cs[i]? = some c) :
    RowsSay {cs.map Case.row} i = c.said := by
  ext name d
  simp [RowsSay, Case.said, h]

theorem canBe_rowsSay (i : Nat) (name : String) : CanBe (RowsSay {cs.map Case.row} i name) := by
  rintro ⟨d, hd⟩
  obtain ⟨_, rfl, row, hrow, hmem⟩ := id hd
  rw [List.getElem?_map] at hrow
  obtain ⟨c, hc, rfl⟩ := Option.map_eq_some_iff.mp hrow
  rw [rowsSay_rows hc] at hd ⊢
  exact c.canBe_said name ⟨d, hd⟩

/-- Cases fit a list that is written out if each case of the list is part of the case in its
place. -/
theorem fit_rows_iff : Fit {cs.map Case.row} ds ↔ List.Forall₂ Case.IsPartOf cs ds := by
  simp only [Fit, Set.mem_singleton_iff, forall_eq, List.length_map, List.forall₂_iff_get]
  refine and_congr_right fun hlength => ?_
  constructor
  · intro h i hi hi'
    have hmeets := h i _ (List.getElem?_eq_getElem hi')
    rwa [rowsSay_rows (List.getElem?_eq_getElem hi), Case.meets_said_iff] at hmeets
  · intro h i d hd
    obtain ⟨hi', rfl⟩ := List.getElem?_eq_some_iff.mp hd
    have hi : i < cs.length := hlength ▸ hi'
    rw [rowsSay_rows (List.getElem?_eq_getElem hi), Case.meets_said_iff]
    exact h i hi hi'

/-- A list that is written out gives its cases. -/
theorem areGiven_rows (cs : List Case) : AreGiven {cs.map Case.row} cs := by
  refine ⟨length_of_mem_rows, fun i c hc => ?_⟩
  rw [rowsSay_rows hc]
  exact c.isGiven_said

end Rows

/-- The cases that a list comes to: the default ones if each case of the list is part of the one in
its place, and the cases of the list otherwise. -/
def completed (cs : List Case) : List Case :=
  if List.Forall₂ Case.IsPartOf cs Schema.defaultCases then Schema.defaultCases else cs

theorem casesOf_completed (cs : List Case) : CasesOf {cs.map Case.row} (completed cs) := by
  rw [CasesOf, fit_rows_iff, completed]
  split
  · next h => exact Or.inl ⟨h, rfl⟩
  · next h => exact Or.inr ⟨h, areGiven_rows cs⟩

/-- Nothing that a list says gets lost. -/
theorem forall₂_isPartOf_completed (cs : List Case) :
    List.Forall₂ Case.IsPartOf cs (completed cs) := by
  rw [completed]
  split
  · next h => exact h
  · exact List.forall₂_same.mpr fun c _ => c.isPartOf_self

theorem completed_eq_self_iff (cs : List Case) :
    completed cs = cs ↔
      cs = Schema.defaultCases ∨ ¬List.Forall₂ Case.IsPartOf cs Schema.defaultCases := by
  rw [completed]
  split
  · next h =>
      exact ⟨fun heq => Or.inl heq.symm, fun hor => (hor.resolve_right fun hnot => hnot h).symm⟩
  · next h => exact iff_of_true rfl (Or.inr h)

/-! ## Loading the snippet -/

/-- Settings that nothing is said of, but for the cases. -/
def defaultsWith (cs : List Case) : Settings := {
  method := Text.lit "recursive"
  maxDepth := 100000
  concurrency := 4
  format := Text.lit "markdown"
  cases := cs }

theorem chosen_preferred (other : Set Demand) (a : Atom) : Chosen other a ∅ a := Or.inl ⟨nofun, rfl⟩

theorem SetsCases.consistent {cs : List Case} {e : Expr} (h : SetsCases cs e) : e.Consistent where
  restrictions name := by
    rw [h.layersSay_eq]
    rintro ⟨d, ⟨⟩⟩
  length := ⟨cs.length, h.layersList_eq ▸ length_of_mem_rows⟩
  rows i name := by
    rw [h.layersList_eq]
    exact canBe_rowsSay i name

/-- What a layer that sets the cases comes to on top of the schema. -/
theorem SetsCases.settingsOf_eq {cs : List Case} {e : Expr} (h : SetsCases cs e) :
    settingsOf [e] = .ok (defaultsWith (completed cs)) := by
  rw [settingsOf_eq_ok_iff_areSaidBy (List.forall_mem_singleton.mpr h.isPlainLayer),
    h.layersList_eq]
  have hnothing := h.layersSay_eq
  exact {
    method := ⟨"recursive", hnothing _ ▸ chosen_preferred _ _, rfl⟩
    maxDepth := hnothing _ ▸ chosen_preferred _ _
    concurrency := ⟨hnothing _ ▸ chosen_preferred _ _, (by decide : (4 : ℤ).natAbs < 2 ^ 63)⟩
    format := ⟨"markdown", hnothing _ ▸ chosen_preferred _ _, rfl⟩
    cases := casesOf_completed cs
    others := fun name _ hsaid => absurd (hnothing name) hsaid.ne_empty }

/-- **A list that is written out loads as what it is completed to.** -/
theorem load_caseSnippet (files : Files) (blanks : Nat → Nat) (cs : List Case) :
    load files [] [caseSnippet blanks cs] = .ok (defaultsWith (completed cs)) := by
  obtain ⟨e, hread, he⟩ := exists_read_caseSnippet (snippetName 0) blanks cs
  have hcompile := compile_eq_ok hread he.isPlainLayer he.consistent
  have hlayers : layers files [] [caseSnippet blanks cs] = .ok [e] :=
    (layers_eq_ok_iff (List.forall_mem_nil _)).mpr (.cons hcompile .nil)
  rw [load_of_layers hlayers]
  exact he.settingsOf_eq

/-- **Every list of cases loads, and nothing that it says gets lost.**  What is loaded is the list
itself, unless it is part of the default cases without being all of them. -/
theorem cases_of_caseSnippet (files : Files) (blanks : Nat → Nat) (cs : List Case) :
    load files [] [caseSnippet blanks cs] = .ok (defaultsWith (completed cs)) ∧
      List.Forall₂ Case.IsPartOf cs (completed cs) ∧
      (completed cs = cs ↔
        cs = Schema.defaultCases ∨ ¬List.Forall₂ Case.IsPartOf cs Schema.defaultCases) :=
  ⟨load_caseSnippet files blanks cs, forall₂_isPartOf_completed cs, completed_eq_self_iff cs⟩

/-- The default cases without what is expected of them. -/
def bareDefaults : List Case := Schema.defaultCases.map fun c => ⟨c.x, c.y, none⟩

/-- The default cases, written out without what is expected of them, are loaded with it. -/
theorem expectations_of_bareDefaults :
    caseSnippet (fun _ => 0) bareDefaults =
      Text.lit ("cases:[\x7bx:10,y:5\x7d,\x7bx:5,y:0\x7d,\x7bx:0,y:7\x7d," ++
        "\x7bx:12345,y:1\x7d,\x7bx:3,y:1000\x7d,\x7bx:9223372036854775808,y:2\x7d," ++
        "\x7bx:18446744073709551615,y:3\x7d]") ∧
    ∃ s, load (fun _ => .error .notFound) [] [caseSnippet (fun _ => 0) bareDefaults] = .ok s ∧
      s.cases = Schema.defaultCases ∧ s.cases ≠ bareDefaults := by
  have hcompleted : completed bareDefaults = Schema.defaultCases := if_pos (by decide +kernel)
  refine ⟨by decide +kernel, _, load_caseSnippet _ _ _, hcompleted, ?_⟩
  change completed bareDefaults ≠ bareDefaults
  rw [hcompleted]
  decide

end Config
end RepeatedAddition
