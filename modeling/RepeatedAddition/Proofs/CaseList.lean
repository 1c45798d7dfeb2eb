import RepeatedAddition.Proofs.CaseRow

/-!
# Lists of cases

The schema prefers a list of cases of its own to any other list.  So lists that layers give are
tried together with the preferred list first, and it wins wherever they leave it standing: wherever
each has the same number of rows, and nothing in a row contradicts the preferred case.  It is not
enough for the preferred list to lose that something is missing in a row.

* `Fit`, `AreGiven`: cases that go together with lists of rows, and cases that the lists give.
* `CasesOf`: the cases of the schema where they fit, those that are given otherwise.
* `decodeCases_evaluate_iff`: the cases that are taken are these.
-/

namespace RepeatedAddition
namespace Config

/-! ## The cases of lists of rows -/

/-- Cases fit lists of rows: every list has a row for each case, and each case meets what is said of
its row. -/
def Fit (lists : Set (List Row)) (cs : List Case) : Prop :=
  (∀ rows ∈ lists, rows.length = cs.length) ∧ ∀ (i : Nat) (c : Case), cs[i]? = some c →
    c.Meets (RowsSay lists i)

/-- Cases are what lists of rows give: every list has a row for each case, and each case is what is
said of its row. -/
def AreGiven (lists : Set (List Row)) (cs : List Case) : Prop :=
  (∀ rows ∈ lists, rows.length = cs.length) ∧ ∀ (i : Nat) (c : Case), cs[i]? = some c →
    c.IsGiven (RowsSay lists i)

/-- The cases that lists of rows determine on top of the schema: those of the schema if they fit,
and those that are given otherwise. -/
def CasesOf (lists : Set (List Row)) (cs : List Case) : Prop :=
  Fit lists Schema.defaultCases ∧ cs = Schema.defaultCases ∨ ¬Fit lists Schema.defaultCases ∧
    AreGiven lists cs

namespace Value

variable {v : Value} {possible : Prop}

theorem ListOf.isFailed {items : List Value} (h : v.ListOf possible items)
    (hwhy : ¬possible ∨ ∃ w ∈ items, w.isFailed = true) : v.isFailed = true := by
  rcases h with ⟨hfailed, -⟩ | ⟨-, hpossible, hitems⟩
  · exact hfailed
  · obtain ⟨w, hw, hfailed⟩ := hwhy.resolve_left fun h => h hpossible
    rw [hitems w hw] at hfailed
    cases hfailed

theorem ListOf.eq_list {items : List Value} (h : v.ListOf possible items)
    (hv : v.isFailed = false) :
    v = .list items := by
  rcases h with ⟨hfailed, -⟩ | ⟨hlist, -⟩
  · rw [hv] at hfailed
    cases hfailed
  · exact hlist

/-- Cases are taken from a list exactly if each is taken from its item. -/
theorem ListOf.decodeCases_iff {count : Nat} {item : Nat → Value}
    (h : v.ListOf possible ((List.range count).map item)) (path : List Text) (cs : List Case) :
    v.IsComplete path ∧ decodeCases (some v) = .ok cs ↔
      possible ∧ cs.length = count ∧ ∀ i c, cs[i]? = some c →
        (item i).IsComplete (path ++ [Text.decimal i]) ∧ decodeCase (item i) = .ok c := by
  have hget {i : Nat} (hi : i < count) : ((List.range count).map item)[i]? = some (item i) := by
    simp [List.getElem?_range hi]
  rw [h.isComplete_iff path]
  constructor
  · rintro ⟨⟨hpossible, hitems⟩, hdecode⟩
    have hv : v.isFailed = false := ((h.isComplete_iff path).mpr ⟨hpossible, hitems⟩).1
    rw [h.eq_list hv, decodeCases, Decoded.all_eq_ok_iff, List.forall₂_iff_get] at hdecode
    obtain ⟨hlength, hdecode⟩ := hdecode
    rw [List.length_map, List.length_range] at hlength
    refine ⟨hpossible, hlength, fun i c hc => ?_⟩
    obtain ⟨hi, rfl⟩ := List.getElem?_eq_some_iff.mp hc
    refine ⟨hitems i _ (hget (hlength ▸ hi)), ?_⟩
    simpa using hdecode i hi (by simpa [← hlength] using hi)
  · rintro ⟨hpossible, hlength, hitems⟩
    have hcomplete : ∀ (i : Nat) (w : Value), ((List.range count).map item)[i]? = some w →
        w.IsComplete (path ++ [Text.decimal i]) := by
      intro i w hw
      have hi : i < count := by simpa using (List.getElem?_eq_some_iff.mp hw).1
      rw [hget hi] at hw
      obtain rfl := Option.some.inj hw
      exact (hitems i _ (List.getElem?_eq_getElem (hlength.symm ▸ hi))).1
    have hv : v.isFailed = false := ((h.isComplete_iff path).mpr ⟨hpossible, hcomplete⟩).1
    refine ⟨⟨hpossible, hcomplete⟩, ?_⟩
    rw [h.eq_list hv, decodeCases, Decoded.all_eq_ok_iff, List.forall₂_iff_get]
    refine ⟨by simp [hlength], fun i hi _ => ?_⟩
    simpa using (hitems i _ (List.getElem?_eq_getElem hi)).2

theorem agreesOnItems_iff {vs ws : List Value} :
    agreesOnItems vs ws = true ↔ List.Forall₂ (fun v w => v.agrees w = true) vs ws := by
  induction vs generalizing ws with
  | nil => cases ws <;> simp [agreesOnItems]
  | cons v vs ih => cases ws <;> simp [agreesOnItems, ih]

/-- Lists that are the same have the same items. -/
theorem ListOf.agrees_items {w : Value} {possible' : Prop} {count count' : Nat}
    {item item' : Nat → Value} (hv : v.ListOf possible ((List.range count).map item))
    (hw : w.ListOf possible' ((List.range count').map item')) (hholds : w.isFailed = false)
    (hagrees : v.agrees w = true) :
    possible ∧ count = count' ∧ ∀ i < count, (item i).agrees (item' i) = true := by
  rw [hw.eq_list hholds] at hagrees
  rcases hv with ⟨hfailed, -⟩ | ⟨rfl, hpossible, -⟩
  · cases v with
    | failed => cases hagrees
    | _ => cases hfailed
  · rw [Value.agrees, agreesOnItems_iff, List.forall₂_iff_get] at hagrees
    obtain ⟨hlength, hitems⟩ := hagrees
    simp only [List.length_map, List.length_range] at hlength
    subst hlength
    exact ⟨hpossible, rfl,
      fun i hi => by simpa using hitems i (by simpa using hi) (by simpa using hi)⟩

end Value

/-! ## Lists merged -/

section Lists

variable {lists : List Conjunct}

/-- A conjunct that is a list. -/
def Conjunct.IsList (c : Conjunct) : Prop := ∃ p items tail, c.expr = .list p items tail

theorem Conjunct.IsCaseList.isList {c : Conjunct} (h : c.IsCaseList) : c.IsList := by
  obtain ⟨p, items, hexpr, -⟩ := h.exists_list
  exact ⟨p, items, .closed, hexpr⟩

theorem fact?_of_isList {c : Conjunct} (h : c.IsList) : c.fact? = some (.sequence c.sequence) := by
  obtain ⟨e, context⟩ := c
  obtain ⟨p, items, tail, rfl⟩ := h
  rfl

theorem direct_of_lists (path : List Text) (here : Address) {cs : List Conjunct}
    (h : ∀ c ∈ cs, c.IsList) :
    direct path here cs = { tasks := cs } := by
  induction cs with
  | nil => rfl
  | cons c cs ih =>
    obtain ⟨e, context⟩ := c
    obtain ⟨p, items, tail, rfl⟩ := h _ List.mem_cons_self
    rw [direct_cons, ih fun c' hc' => h c' (List.mem_cons_of_mem _ hc')]
    rfl

theorem settled_of_lists {cs : List Conjunct} (h : ∀ c ∈ cs, c.IsList) :
    ({ tasks := cs } : Expansion).settled = (cs.map Conjunct.sequence).map .sequence := by
  rw [Expansion.settled, List.nil_append, List.map_map, ← List.filterMap_eq_map]
  exact List.filterMap_congr fun c hc => fact?_of_isList (h c hc)

/-- Lists come to the list of the items that they have together. -/
theorem listOf_meet (known : Option Node) (path : List Text) (address : Address)
    {cs : List Conjunct} (hne : cs ≠ []) (m : Nat) (chosen : List Nat) :
    (meet (m + 1) known path address chosen
      { facts := (cs.map Conjunct.sequence).map .sequence }).value.ListOf
      (listProblems path (cs.map Conjunct.sequence) = [])
      ((List.range (commonCount (cs.map Conjunct.sequence))).map fun i =>
        (evaluate m known (path ++ [Text.decimal i]) (address ++ [.branch chosen] ++
          [.member (.index i)]) (rowsAt cs i)).value) := by
  rw [value_meet_of_sequences known path address (by simpa using hne)]
  have hlist := listValue_listOf (listProblems path (cs.map Conjunct.sequence))
    ((List.range (commonCount (cs.map Conjunct.sequence))).map fun i =>
      (.index i, itemNode m known path (address ++ [.branch chosen]) (cs.map Conjunct.sequence) i))
  simpa only [List.map_map, Function.comp_def, itemNode, List.filterMap_map, rowsAt] using hlist

/-- Closed lists and one more behind them have problems unless they go together. -/
theorem listProblems_append_iff (path : List Text) (hlists : ∀ c ∈ lists, c.IsCaseList)
    (hne : lists ≠ []) (t : Conjunct) :
    listProblems path ((lists ++ [t]).map Conjunct.sequence) = [] ↔
      ∃ length, (∀ c ∈ lists, c.sequence.length = length) ∧ t.sequence.length ≤ length ∧
        (t.sequence.isClosed = true → t.sequence.length = length) := by
  obtain ⟨c, rest, rfl⟩ := List.exists_cons_of_ne_nil hne
  have hclosed := isClosed_sequence (hlists c List.mem_cons_self)
  rw [List.cons_append, List.map_cons, listProblems, hclosed, lengthProblems_eq_nil_iff]
  rw [List.map_append, List.forall_mem_append, List.forall_mem_map, List.map_singleton,
    List.forall_mem_singleton]
  simp only [List.forall_mem_cons]
  constructor
  · rintro ⟨hrest, hle, hge⟩
    refine ⟨c.sequence.length, ⟨rfl, fun c' hc' => ?_⟩, hle, fun ht => le_antisymm hle (hge ht)⟩
    obtain ⟨hle', hge'⟩ := hrest c' hc'
    exact le_antisymm hle' (hge' (isClosed_sequence (hlists c' (List.mem_cons_of_mem c hc'))))
  · rintro ⟨length, ⟨rfl, hrest⟩, hle, heq⟩
    exact ⟨fun c' hc' => ⟨(hrest c' hc').le, fun _ => (hrest c' hc').ge⟩, hle,
      fun ht => (heq ht).ge⟩

theorem commonCount_append (hlists : ∀ c ∈ lists, c.IsCaseList) {t : Conjunct} {length : Nat}
    (hlengths : ∀ c ∈ lists, c.sequence.length = length) (hle : t.sequence.length ≤ length)
    (heq : t.sequence.isClosed = true → t.sequence.length = length)
    (hex : lists ≠ [] ∨ t.sequence.isClosed = true) :
    commonCount ((lists ++ [t]).map Conjunct.sequence) = length := by
  refine commonCount_eq (fun s hs => ?_) (fun s hs hc => ?_) ?_
  · obtain ⟨c, hc, rfl⟩ := List.mem_map.mp hs
    rcases List.mem_append.mp hc with hc | hc
    · exact (hlengths c hc).le
    · exact List.mem_singleton.mp hc ▸ hle
  · obtain ⟨c, hmem, rfl⟩ := List.mem_map.mp hs
    rcases List.mem_append.mp hmem with hmem | hmem
    · exact hlengths c hmem
    · obtain rfl := List.mem_singleton.mp hmem
      exact heq hc
  · rcases hex with hne | ht
    · obtain ⟨c, hc⟩ := List.exists_mem_of_ne_nil _ hne
      exact ⟨_, List.mem_map_of_mem (List.mem_append_left _ hc), isClosed_sequence (hlists c hc)⟩
    · exact ⟨_, List.mem_map_of_mem (List.mem_append_right _ (List.mem_singleton_self t)), ht⟩

end Lists

/-! ## The lists of the schema -/

namespace Schema

/-- Any list of cases. -/
def anyCases : Conjunct := ⟨.list (place 14 8) [] (.each (name 14 12 "#Case")), context⟩

/-- The list of the cases to compare when no others are given. -/
def defaultList : Conjunct :=
  ⟨.list (place 14 22) (defaultCases.zipIdx.map fun (c, i) => caseExpr (15 + i) c) .closed, context⟩

theorem parts_casesChoice (path : List Text) (here : Address) :
    casesChoice.parts path here context =
      { choices := [({ other := anyCases, preferred := defaultList } : Alternatives).choice] } :=
        rfl

theorem exists_expected {c : Case} (h : c ∈ defaultCases) : ∃ x y e, c = ⟨x, y, some e⟩ := by
  have hall : ∀ c ∈ defaultCases, c.expected.isSome = true := by decide
  obtain ⟨x, y, expected⟩ := c
  obtain ⟨e, rfl⟩ := Option.isSome_iff_exists.mp (hall _ h)
  exact ⟨x, y, e, rfl⟩

end Schema

section Alternatives

variable {lists : List Conjunct}

theorem rowsAt_append (lists : List Conjunct) (t : Conjunct) (i : Nat) :
    rowsAt (lists ++ [t]) i = rowsAt lists i ++ (t.sequence.conjunct? i).toList := by
  rw [rowsAt, List.filterMap_append, List.filterMap_cons, List.filterMap_nil, rowsAt]
  cases t.sequence.conjunct? i <;> rfl

theorem rowsAt_anyCases (lists : List Conjunct) (i : Nat) :
    rowsAt (lists ++ [Schema.anyCases]) i = rowsAt lists i ++ [Schema.caseName] := by
  rw [rowsAt_append]
  rfl

theorem rowsAt_defaultList (lists : List Conjunct) {i : Nat} {c : Case}
    (hc : Schema.defaultCases[i]? = some c) :
    rowsAt (lists ++ [Schema.defaultList]) i = rowsAt lists i ++
      [⟨Schema.caseExpr (15 + i) c, Schema.context⟩] := by
  have hitem : Schema.defaultList.sequence.items[i]? = some (Schema.caseExpr (15 + i) c) := by
    change (Schema.defaultCases.zipIdx.map fun (c, i) => Schema.caseExpr (15 + i) c)[i]? = _
    rw [List.getElem?_map, List.getElem?_zipIdx, hc, Option.map_some, Option.map_some, Nat.zero_add]
  rw [rowsAt_append, Sequence.conjunct?, hitem]
  rfl

/-- The rows at an index on top of a case of the schema. -/
theorem isRow_defaultItem (known : Option Node) (path : List Text) (address : Address)
    (hlists : ∀ c ∈ lists, c.IsCaseList) {i : Nat} {c : Case}
    (hc : Schema.defaultCases[i]? = some c) {m : Nat} (hm : sizeOfConjuncts lists + 14 ≤ m) :
    ∃ labels said,
      IsRow (evaluate m known path address (rowsAt (lists ++ [Schema.defaultList]) i)).value
        labels said ∧
      (c.Meets (RowsSay (listsOf lists) i) → RowSays labels said c) ∧
      (¬c.Meets (RowsSay (listsOf lists) i) →
        (evaluate m known path address (rowsAt (lists ++ [Schema.defaultList]) i)).value.isFailed =
          true) := by
  obtain ⟨n, rfl⟩ := Nat.exists_eq_add_of_le' (show 6 ≤ m by omega)
  obtain ⟨x, y, e, rfl⟩ := Schema.exists_expected (List.mem_of_getElem? hc)
  obtain ⟨hbase, hexpected, -⟩ := Schema.isBase_caseExpr (15 + i) x y e Schema.context
  have hrow :=
    isRow_rowsAt known path (address ++ [.branch []]) hlists i hbase (n := n + 4) (by omega)
  have hsaid := rowSays_caseExpr_iff hbase hexpected (isRow_of_mem_rowsAt hlists (i := i))
  rw [rowsAt_defaultList lists hc, value_evaluate_caseExpr known path address hlists,
    ← saidOf_rowsAt hlists]
  refine ⟨_, _, hrow, hsaid.mpr, fun hnot => ?_⟩
  by_contra hholds
  exact hnot (meets_of_isRow hbase hexpected (isRow_of_mem_rowsAt hlists) hrow
    (Bool.not_eq_true _ ▸ hholds))

/-- The rows at an index on top of the definition of a case. -/
theorem isRow_givenItem {known : Option Node} (hknown : KnowsCase known) (path : List Text)
    {address : Address} (haddress : BelowCases address) (hlists : ∀ c ∈ lists, c.IsCaseList)
    {i : Nat} (hne : rowsAt lists i ≠ []) {m : Nat} (hm : sizeOfConjuncts lists + 14 ≤ m) :
    ∃ labels said,
      IsRow (evaluate m known path address (rowsAt (lists ++ [Schema.anyCases]) i)).value
        labels said ∧
      ∀ c, RowSays labels said c ↔ c.IsGiven (RowsSay (listsOf lists) i) := by
  obtain ⟨n, rfl⟩ := Nat.exists_eq_add_of_le' (show 6 ≤ m by omega)
  obtain ⟨context, hscopes, hvalue⟩ := value_evaluate_caseName hknown path haddress hlists hne n
  obtain ⟨hbase, hexpected, -⟩ := Schema.isBase_caseDefinition hscopes
  have hrow :=
    isRow_rowsAt known path (address ++ [.branch []]) hlists i hbase (n := n + 4) (by omega)
  have hsaid := rowSays_caseDefinition_iff hbase hexpected (isRow_of_mem_rowsAt hlists (i := i))
  rw [rowsAt_anyCases, hvalue, ← saidOf_rowsAt hlists]
  exact ⟨_, _, hrow, hsaid⟩

/-- What lists come to together with one of the schema, which is the alternative with an index. -/
def alternativeValue (m : Nat) (known : Option Node) (path : List Text) (address : Address)
    (lists : List Conjunct) (t : Conjunct) (j : Nat) : Value :=
  (meet (m + 1) known path address [j]
    { facts := ((lists ++ [t]).map Conjunct.sequence).map .sequence }).value

theorem mem_listsOf_iff (hlists : ∀ c ∈ lists, c.IsCaseList) {length : Nat} :
    (∀ rows ∈ listsOf lists, rows.length = length) ↔ ∀ c ∈ lists, c.sequence.length = length := by
  constructor
  · intro h c hc
    rw [← length_rows (hlists c hc)]
    exact h _ ⟨c, hc, rfl⟩
  · rintro h rows ⟨c, hc, rfl⟩
    rw [length_rows (hlists c hc)]
    exact h c hc

theorem listProblems_defaultList_iff (path : List Text) (hlists : ∀ c ∈ lists, c.IsCaseList) :
    listProblems path ((lists ++ [Schema.defaultList]).map Conjunct.sequence) = [] ↔
      ∀ c ∈ lists, c.sequence.length = Schema.defaultCases.length := by
  by_cases hne : lists = []
  · subst hne
    exact iff_of_true rfl (List.forall_mem_nil _)
  · rw [listProblems_append_iff path hlists hne]
    constructor
    · rintro ⟨length, hlengths, -, hclosed⟩
      obtain rfl := hclosed rfl
      exact hlengths
    · exact fun h => ⟨_, h, le_rfl, fun _ => rfl⟩

section Values

variable (known : Option Node) (path : List Text) (address : Address) {m : Nat} (j : Nat)

/-- The cases of the schema are taken where they fit. -/
theorem defaultList_decodes (hlists : ∀ c ∈ lists, c.IsCaseList)
    (hfit : Fit (listsOf lists) Schema.defaultCases) (hm : sizeOfConjuncts lists + 14 ≤ m)
    (p : List Text) :
    (alternativeValue m known path address lists Schema.defaultList j).IsComplete p ∧
      decodeCases (some (alternativeValue m known path address lists Schema.defaultList j)) =
        .ok Schema.defaultCases := by
  have hlengths := (mem_listsOf_iff hlists).mp hfit.1
  have hcount :=
    commonCount_append (t := Schema.defaultList) hlists hlengths le_rfl (fun _ => rfl) (Or.inr rfl)
  have hlist := listOf_meet known path address (List.append_ne_nil_of_right_ne_nil lists
    (List.cons_ne_nil Schema.defaultList [])) m [j]
  refine (hlist.decodeCases_iff p _).mpr
    ⟨(listProblems_defaultList_iff path hlists).mpr hlengths, hcount.symm, fun i c hc => ?_⟩
  obtain ⟨labels, said, hrow, hsaid, -⟩ := isRow_defaultItem known (path ++ [Text.decimal i])
    (address ++ [.branch [j]] ++ [.member (.index i)]) hlists hc hm
  exact (hrow.decodeCase_iff _ c).mpr (hsaid (hfit.2 i c hc))

/-- The cases of the schema fail where they do not fit. -/
theorem defaultList_isFailed (hlists : ∀ c ∈ lists, c.IsCaseList)
    (hfit : ¬Fit (listsOf lists) Schema.defaultCases) (hm : sizeOfConjuncts lists + 14 ≤ m) :
    (alternativeValue m known path address lists Schema.defaultList j).isFailed = true := by
  have hlist := listOf_meet known path address (List.append_ne_nil_of_right_ne_nil lists
    (List.cons_ne_nil Schema.defaultList [])) m [j]
  refine hlist.isFailed ?_
  by_cases hlengths : ∀ c ∈ lists, c.sequence.length = Schema.defaultCases.length
  · have hcount :=
      commonCount_append (t := Schema.defaultList) hlists hlengths le_rfl (fun _ => rfl)
        (Or.inr rfl)
    obtain ⟨i, c, hc, hmeets⟩ : ∃ (i : Nat) (c : Case), Schema.defaultCases[i]? = some c ∧
        ¬c.Meets (RowsSay (listsOf lists) i) := by
      by_contra hall
      push Not at hall
      exact hfit ⟨(mem_listsOf_iff hlists).mpr hlengths, hall⟩
    obtain ⟨labels, said, -, -, hfailed⟩ := isRow_defaultItem known (path ++ [Text.decimal i])
      (address ++ [.branch [j]] ++ [.member (.index i)]) hlists hc hm
    refine Or.inr ⟨_, List.mem_map.mpr ⟨i, ?_, rfl⟩, hfailed hmeets⟩
    rw [hcount, List.mem_range]
    exact (List.getElem?_eq_some_iff.mp hc).1
  · exact Or.inl fun h => hlengths ((listProblems_defaultList_iff path hlists).mp h)

variable {known address}

/-- An item of given lists is a row, of which the cases are what is said. -/
theorem isRow_of_lt (hknown : KnowsCase known) (haddress : BelowCases address)
    (hlists : ∀ c ∈ lists, c.IsCaseList) (hne : lists ≠ []) {length : Nat}
    (hlengths : ∀ c ∈ lists, c.sequence.length = length) {i : Nat} (hi : i < length)
    (hm : sizeOfConjuncts lists + 14 ≤ m) :
    ∃ labels said,
      IsRow (evaluate m known (path ++ [Text.decimal i]) (address ++ [.branch [j]] ++
        [.member (.index i)])
        (rowsAt (lists ++ [Schema.anyCases]) i)).value labels said ∧
      ∀ c, RowSays labels said c ↔ c.IsGiven (RowsSay (listsOf lists) i) := by
  obtain ⟨c, hc⟩ := List.exists_mem_of_ne_nil _ hne
  obtain ⟨rest, rfl⟩ := haddress
  exact isRow_givenItem hknown _ ⟨rest ++ [.branch [j]] ++ [.member (.index i)], rfl⟩ hlists
    (rowsAt_ne_nil hlists hc (hlengths c hc ▸ hi)) hm

/-- Where no cases are preferred, those are taken that the lists give. -/
theorem anyCases_decodes_iff (hknown : KnowsCase known) (haddress : BelowCases address)
    (hlists : ∀ c ∈ lists, c.IsCaseList) (hne : lists ≠ []) (hm : sizeOfConjuncts lists + 14 ≤ m)
    (p : List Text) (cs : List Case) :
    (alternativeValue m known path address lists Schema.anyCases j).IsComplete p ∧
        decodeCases (some (alternativeValue m known path address lists Schema.anyCases j)) =
          .ok cs ↔
      AreGiven (listsOf lists) cs := by
  have hlist := listOf_meet known path address (List.append_ne_nil_of_right_ne_nil lists
    (List.cons_ne_nil Schema.anyCases [])) m [j]
  have hnever : Schema.anyCases.sequence.isClosed = true →
      ∀ n, Schema.anyCases.sequence.length = n := nofun
  rw [alternativeValue, hlist.decodeCases_iff p cs,
    listProblems_append_iff path hlists hne, AreGiven, mem_listsOf_iff hlists]
  constructor
  · rintro ⟨⟨length, hlengths, hle, -⟩, hcount, hitems⟩
    rw [commonCount_append hlists hlengths hle (hnever · _) (Or.inl hne)] at hcount
    subst hcount
    refine ⟨hlengths, fun i c hc => ?_⟩
    obtain ⟨labels, said, hrow, hsaid⟩ := isRow_of_lt path j hknown haddress hlists hne hlengths
      (List.getElem?_eq_some_iff.mp hc).1 hm
    exact (hsaid c).mp ((hrow.decodeCase_iff _ c).mp (hitems i c hc))
  · rintro ⟨hlengths, hgiven⟩
    refine ⟨⟨cs.length, hlengths, Nat.zero_le _, (hnever · _)⟩,
      (commonCount_append hlists hlengths (Nat.zero_le _) (hnever · _) (Or.inl hne)).symm,
      fun i c hc => ?_⟩
    obtain ⟨labels, said, hrow, hsaid⟩ := isRow_of_lt path j hknown haddress hlists hne hlengths
      (List.getElem?_eq_some_iff.mp hc).1 hm
    exact (hrow.decodeCase_iff _ c).mpr ((hsaid c).mpr (hgiven i c hc))

/-- If the given cases come to the same as those of the schema, they are those of the schema. -/
theorem anyCases_decodes_of_agrees (hknown : KnowsCase known) (haddress : BelowCases address)
    (hlists : ∀ c ∈ lists, c.IsCaseList) (hfit : Fit (listsOf lists) Schema.defaultCases)
    (hm : sizeOfConjuncts lists + 14 ≤ m) {j' : Nat}
    (hagrees : (alternativeValue m known path address lists Schema.anyCases j).agrees
      (alternativeValue m known path address lists Schema.defaultList j') = true)
    (p : List Text) :
    (alternativeValue m known path address lists Schema.anyCases j).IsComplete p ∧
      decodeCases (some (alternativeValue m known path address lists Schema.anyCases j)) =
        .ok Schema.defaultCases := by
  have hlengths := (mem_listsOf_iff hlists).mp hfit.1
  have hcount :=
    commonCount_append (t := Schema.defaultList) hlists hlengths le_rfl (fun _ => rfl) (Or.inr rfl)
  have hlist := listOf_meet known path address (List.append_ne_nil_of_right_ne_nil lists
    (List.cons_ne_nil Schema.anyCases [])) m [j]
  have hlist' := listOf_meet known path address (List.append_ne_nil_of_right_ne_nil lists
    (List.cons_ne_nil Schema.defaultList [])) m [j']
  obtain ⟨⟨hholds, -⟩, -⟩ := defaultList_decodes known path address j' hlists hfit hm p
  obtain ⟨hpossible, hcounts, hitems⟩ := hlist.agrees_items hlist' hholds hagrees
  rw [hcount] at hcounts
  have hne : lists ≠ [] := by
    rintro rfl
    cases hcounts
  refine (hlist.decodeCases_iff p _).mpr ⟨hpossible, hcounts.symm, fun i c hc => ?_⟩
  have hi := (List.getElem?_eq_some_iff.mp hc).1
  obtain ⟨labels, said, hrow, -⟩ := isRow_of_lt path j hknown haddress hlists hne hlengths hi hm
  obtain ⟨labels', said', hrow', hsaid, -⟩ := isRow_defaultItem known (path ++ [Text.decimal i])
    (address ++ [.branch [j']] ++ [.member (.index i)]) hlists hc hm
  exact (hrow.decodeCase_iff _ c).mpr
    (hrow.says_of_agrees hrow' (hsaid (hfit.2 i c hc)) (hitems i (hcounts.symm ▸ hi)))

end Values

/-! ## The setting of the cases -/

theorem length_le_sizeOfConjuncts {cs : List Conjunct} (h : ∀ c ∈ cs, c.IsList) :
    cs.length ≤ sizeOfConjuncts cs := by
  induction cs with
  | nil => rfl
  | cons c cs ih =>
    obtain ⟨p, items, tail, hexpr⟩ := h c List.mem_cons_self
    have hsize : sizeOfConjuncts (c :: cs) = c.expr.size + sizeOfConjuncts cs := rfl
    have hrest := ih fun c' hc' => h c' (List.mem_cons_of_mem c hc')
    rw [hsize, hexpr, Expr.size, List.length_cons]
    omega

/-- The cases of the schema fit where no others are given. -/
theorem fit_nil : Fit (listsOf []) Schema.defaultCases := by
  have hnothing (i : Nat) (name : String) : RowsSay (listsOf []) i name = ∅ :=
    Set.eq_empty_of_forall_notMem fun _ ⟨_, ⟨_, hc, _⟩, _⟩ => List.not_mem_nil hc
  refine ⟨fun _ ⟨_, hc, _⟩ => absurd hc List.not_mem_nil, fun i c hc => ?_⟩
  obtain ⟨x, y, e, rfl⟩ := Schema.exists_expected (List.mem_of_getElem? hc)
  simp [Case.Meets, hnothing]

/-- Trying a list of the schema on top of given ones. -/
theorem tries_list (known : Option Node) (path : List Text) (address : Address) {t : Conjunct}
    (ht : t.IsList) {m : Nat} (hm : 5 ≤ m) (o : Outcome) (standing : Standing) (i : Nat) :
    (attempt (m + 2) known path address (bareBranch ((lists.map Conjunct.sequence).map .sequence) o)
      i standing t).Tries
      standing (meet (m + 1) known path address [i]
        { facts := ((lists ++ [t]).map Conjunct.sequence).map .sequence }) := by
  have hone : ∀ c ∈ [t], c.IsList := List.forall_mem_singleton.mpr ht
  have hexpand : expand (m + 1) known path address [i] [] [t] =
      { facts := [.sequence t.sequence] } := by
    rw [expand_of_facts known address [] (direct_of_lists path _ hone) _ (by simpa using hm),
      settled_of_lists hone]
    · rfl
    · exact List.forall_mem_singleton.mpr (by rw [fact?_of_isList ht]; rfl)
  rw [List.map_append, List.map_append]
  exact tries_attempt hexpand

/-- **The cases come to what lists of rows determine on top of the schema.** -/
theorem decodeCases_evaluate_iff {known : Option Node} (hknown : KnowsCase known) (path : List Text)
    {address : Address} (haddress : BelowCases address) (hlists : ∀ c ∈ lists, c.IsCaseList)
    {n : Nat} (hn : sizeOfConjuncts lists + 18 ≤ n) (p : List Text) (cs : List Case) :
    (evaluate n known path address
        (⟨Schema.casesChoice, Schema.context⟩ :: lists)).value.IsComplete p ∧
        decodeCases (some (evaluate n known path address
          (⟨Schema.casesChoice, Schema.context⟩ :: lists)).value) = .ok cs ↔
      CasesOf (listsOf lists) cs := by
  obtain ⟨m, rfl⟩ := Nat.exists_eq_add_of_le' (show 4 ≤ n by omega)
  have hlist : ∀ c ∈ lists, c.IsList := fun c hc => (hlists c hc).isList
  have hdirect := direct_of_lists path (address ++ [.branch []]) hlist
  have hlength := length_le_sizeOfConjuncts hlist
  have htasks : ∀ t ∈ (direct path (address ++ [.branch []]) lists).tasks,
      t.fact?.isSome = true := by
    rw [hdirect]
    exact fun c hc => by rw [fact?_of_isList (hlist c hc)]; rfl
  have hwhole :=
    expand_of_choice known (Schema.parts_casesChoice path (address ++ [.branch []])) htasks
      (by rw [hdirect]) (by rw [hdirect]) (n := m + 1 + 2) (by rw [hdirect]; dsimp only; omega)
  rw [hdirect, settled_of_lists hlist] at hwhole
  obtain ⟨hgood, hbad⟩ := value_of_choice (n := m + 1) hwhole
    (fun i c =>
      meet (m + 1) known path address [i]
        { facts := ((lists ++ [c]).map Conjunct.sequence).map .sequence })
    fun o standing c hc i => by
      refine tries_list known path address ?_ (by omega) o standing i
      rcases List.mem_append.mp hc with hc | hc <;>
        obtain rfl := List.mem_singleton.mp hc <;> exact ⟨_, _, _, rfl⟩
  by_cases hfit : Fit (listsOf lists) Schema.defaultCases
  · -- the cases of the schema are preferred
    have hdefault (j : Nat) :=
      defaultList_decodes known path address j hlists hfit (show _ ≤ m by omega) p
    obtain ⟨o, ho, hfrom⟩ := hgood (hdefault _).1.1
    have hdecodes : o.value.IsComplete p ∧
        decodeCases (some o.value) = .ok Schema.defaultCases := by
      rcases hfrom with rfl | ⟨i, c, hc, rfl, -, hagrees⟩
      · exact hdefault _
      · obtain rfl := List.mem_singleton.mp hc
        exact anyCases_decodes_of_agrees path i hknown haddress hlists hfit (by omega) hagrees p
    rw [ho]
    constructor
    · rintro ⟨-, hdecode⟩
      rw [hdecodes.2] at hdecode
      exact Or.inl ⟨hfit, (Except.ok.inj hdecode).symm⟩
    · rintro (⟨-, rfl⟩ | ⟨hnot, -⟩)
      · exact hdecodes
      · exact absurd hfit hnot
  · have hne : lists ≠ [] := by
      rintro rfl
      exact hfit fit_nil
    have hgiven : CasesOf (listsOf lists) cs ↔ AreGiven (listsOf lists) cs :=
      ⟨fun h => h.elim (fun h => absurd h.1 hfit) fun h => h.2, fun h => Or.inr ⟨hfit, h⟩⟩
    rw [hgiven, ← anyCases_decodes_iff path 0 hknown haddress hlists hne (show _ ≤ m by omega) p cs]
    rcases hbad (defaultList_isFailed known path address _ hlists hfit (by omega)) fun _ _ hc =>
      absurd hc List.not_mem_nil with
      hv | ⟨hv, hv'⟩
    · rw [hv]
      rfl
    · exact iff_of_false (fun h => Bool.noConfusion (h.1.1.symm.trans hv)) fun h =>
        Bool.noConfusion (h.1.1.symm.trans hv')

end Alternatives

end Config
end RepeatedAddition
