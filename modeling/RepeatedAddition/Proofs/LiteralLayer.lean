import RepeatedAddition.Proofs.LoneLayer

/-!
# Layers of literals

The plainest layers set some of the settings that are single values to texts and whole numbers, and
say nothing else.  Several of them do not override each other: what they set a setting to has to be
the same in all of them, and it has to be something that the schema admits, in place of what the
schema prefers.

* `Setting`, `Literal`: the settings that are single values, and what they can be set to.
* `Setting.Allows`, `Setting.Passes`: the literals that settings can be loaded with, and those that
  the schema admits.
* `Agree`, `Becomes`: no setting is set to two literals; a setting is what it is set to, or else its
  default.
* `Expr.assignments?`: what a layer of literals sets.
* `AreLiterals.isFailed_unify_iff`: a layer of literals passes by itself exactly if it agrees with
  itself.
* `AreLiterals.isComplete_iff`: layers of literals hold together with the schema exactly if they
  agree and what they set passes.
-/

namespace RepeatedAddition
namespace Config

/-! ## Settings and literals -/

/-- A setting that is a single value. -/
inductive Setting where
  | method
  | maxDepth
  | concurrency
  | format
  deriving DecidableEq, Repr

/-- A literal: a text, or a whole number with its sign. -/
inductive Literal where
  | text (s : String)
  | whole (n : ℤ)
  deriving DecidableEq, Repr

/-- A setting with the literal that it is set to. -/
abbrev Assignment := Setting × Literal

namespace Setting

/-- All settings that are single values. -/
def all : List Setting := [.method, .maxDepth, .concurrency, .format]

/-- The name under which a setting is set. -/
def name : Setting → String
  | .method => "method"
  | .maxDepth => "maxDepth"
  | .concurrency => "concurrency"
  | .format => "format"

/-- The setting with a name. -/
def named? (name : String) : Option Setting := all.find? fun s => s.name = name

/-- What a setting is where it is not set. -/
def otherwise : Setting → Literal
  | .method => .text "recursive"
  | .maxDepth => .whole 100000
  | .concurrency => .whole 4
  | .format => .text "markdown"

/-- The literals that a setting can be loaded with. -/
def Allows : Setting → Literal → Prop
  | .method, .text s => s = "iterative" ∨ s = "recursive"
  | .maxDepth, .whole n => 0 ≤ n ∧ n < 2 ^ 64
  | .concurrency, .whole n => 1 ≤ n ∧ n < 2 ^ 63
  | .format, .text s => s = "markdown" ∨ s = "json"
  | _, _ => False

/-- A number of workers that no settings can hold, although nothing in the schema limits it. -/
def IsExcess : Setting → Literal → Prop
  | .concurrency, .whole n => 2 ^ 63 ≤ n
  | _, _ => False

instance : ∀ (s : Setting) (v : Literal), Decidable (s.Allows v)
  | .method, .text s => inferInstanceAs (Decidable (s = "iterative" ∨ s = "recursive"))
  | .maxDepth, .whole n => inferInstanceAs (Decidable (0 ≤ n ∧ n < 2 ^ 64))
  | .concurrency, .whole n => inferInstanceAs (Decidable (1 ≤ n ∧ n < 2 ^ 63))
  | .format, .text s => inferInstanceAs (Decidable (s = "markdown" ∨ s = "json"))
  | .method, .whole _ | .maxDepth, .text _ | .concurrency, .text _ | .format, .whole _ =>
    inferInstanceAs (Decidable False)

/-- The literals that the schema admits for a setting. -/
def Passes (s : Setting) (v : Literal) : Prop := s.Allows v ∨ s.IsExcess v

theorem named?_eq_some {name : String} {s : Setting} (h : named? name = some s) :
    s.name = name := by
  simpa using List.find?_some h

theorem name_injective {s t : Setting} (h : s.name = t.name) : s = t := by
  cases s <;> cases t <;> first | rfl | exact absurd h (by decide)

theorem name_ne_cases (s : Setting) : s.name ≠ "cases" := by
  cases s <;> decide

theorem name_mem_settingNames (s : Setting) : s.name ∈ Schema.settingNames := by
  cases s <;> decide

theorem eq_name_of_mem {name : String} (h : name ∈ Schema.settingNames) :
    name = "cases" ∨ ∃ s : Setting, name = s.name := by
  simp only [Schema.settingNames, List.mem_cons, List.not_mem_nil, or_false] at h
  rcases h with rfl | rfl | rfl | rfl | rfl
  exacts [Or.inr ⟨.method, rfl⟩, Or.inr ⟨.maxDepth, rfl⟩, Or.inr ⟨.concurrency, rfl⟩,
    Or.inr ⟨.format, rfl⟩, Or.inl rfl]

theorem allows_otherwise (s : Setting) : s.Allows s.otherwise := by
  cases s <;> simp [Allows, otherwise]

theorem passes_otherwise (s : Setting) : s.Passes s.otherwise := Or.inl s.allows_otherwise

theorem passes_iff_allows {s : Setting} (h : s ≠ .concurrency) (v : Literal) :
    s.Passes v ↔ s.Allows v := by
  cases s <;> first | exact absurd rfl h | exact iff_of_eq (or_false _)

theorem not_allows_of_isExcess {s : Setting} {v : Literal} (h : s.IsExcess v) : ¬s.Allows v := by
  unfold IsExcess at h
  split at h
  · exact fun hallows => absurd hallows.2 (not_lt.mpr h)
  · cases h

end Setting

namespace Literal

/-- The atom of a literal. -/
def atom : Literal → Atom
  | .text s => .string s
  | .whole n => .int (.ofInt n)

theorem isPlain_atom (v : Literal) : v.atom.isPlain = true := by
  cases v with
  | text s => rfl
  | whole n => exact Atom.isPlain_ofInt n

theorem kind_atom_ne (v : Literal) : v.atom.kind ≠ .float := by
  cases v <;> exact Kind.noConfusion

theorem atom_injective {v w : Literal} (h : v.atom = w.atom) : v = w := by
  cases v with
  | text s =>
    cases w with
    | text t => rw [Atom.string.inj h]
    | whole n => cases h
  | whole m =>
    cases w with
    | text t => cases h
    | whole n => rw [Decimal.ofInt_inj (Atom.int.inj h)]

/-- A literal is met by itself alone. -/
theorem eq_of_metBy {v : Literal} {a : Atom} (ha : a.isPlain = true)
    (h : (Demand.atom v.atom).MetBy a) : a = v.atom :=
  (Atom.eq_of_agrees v.isPlain_atom ha v.kind_atom_ne h).symm

theorem metBy_iff {v w : Literal} : (Demand.atom v.atom).MetBy w.atom ↔ v = w := by
  constructor
  · exact fun h => (atom_injective (eq_of_metBy w.isPlain_atom h)).symm
  · rintro rfl
    exact Atom.agrees_self v.atom

end Literal

/-! ## What is chosen -/

namespace Setting

/-- What the schema asks for where a setting is not what it prefers. -/
def other : Setting → Set Demand
  | .method => {.atom (.string "iterative")}
  | .maxDepth => {.type Schema.wordType}
  | .concurrency => {.type Schema.intType, .limit .atLeast (.int (.ofNat 1))}
  | .format => {.atom (.string "json")}

/-- A setting comes to what is chosen for it. -/
theorem settles {layers : List Expr} (hplain : ∀ e ∈ layers, e.IsPlainLayer) (known : Option Node)
    (s : Setting) :
    Settles (rootMember layers known (.regular s.name)).value
      (Chosen s.other s.otherwise.atom (layersSay layers s.name)) := by
  cases s
  exacts [(settles_method hplain known).1, (settles_maxDepth hplain known).1,
    (settles_concurrency hplain known).1, (settles_format hplain known).1]

theorem isPlain_of_mem_other (s : Setting) : ∀ d ∈ s.other, d.IsPlain := by
  have hword : (Demand.type Schema.wordType).IsPlain :=
    List.mem_of_find?_eq_some (p := fun p => p.name == "uint64") (by rfl)
  have hint : (Demand.type Schema.intType).IsPlain :=
    List.mem_of_find?_eq_some (p := fun p => p.name == "int") (by rfl)
  cases s with
  | method | format =>
    rintro d rfl
    rfl
  | maxDepth =>
    rintro d rfl
    exact hword
  | concurrency =>
    rintro d (rfl | rfl)
    · exact hint
    · rfl

/-- A word is what a whole number from 0 up to the limit of 64 bits is. -/
theorem metBy_wordType_iff (v : Literal) :
    (Demand.type Schema.wordType).MetBy v.atom ↔ ∃ n : ℤ, v = .whole n ∧ 0 ≤ n ∧ n < 2 ^ 64 := by
  cases v with
  | text s =>
    refine iff_of_false (fun h => ?_) nofun
    exact Kind.noConfusion (List.mem_singleton.mp h.1)
  | whole n =>
    have hleast : (Decimal.ofInt 0).value = 0 := Decimal.value_ofInt 0
    have hgreatest : (Decimal.ofInt (Nat.pow 2 64 - 1 : Nat)).value = 2 ^ 64 - 1 := by
      rw [Decimal.value_ofInt]
      norm_num
    constructor
    · intro h
      obtain ⟨hlow, hhigh⟩ := h.2 _ rfl
      have hlow := hlow _ rfl
      have hhigh := hhigh _ rfl
      rw [hleast, Decimal.value_ofInt] at hlow
      rw [hgreatest, Decimal.value_ofInt] at hhigh
      have hlow' : (0 : ℤ) ≤ n := by exact_mod_cast hlow
      have hhigh' : n ≤ 2 ^ 64 - 1 := by exact_mod_cast hhigh
      exact ⟨n, rfl, hlow', by omega⟩
    · rintro ⟨n', heq, hlow, hhigh⟩
      obtain rfl := Literal.whole.inj heq
      refine ⟨List.mem_singleton_self _, ?_⟩
      rintro x ⟨⟩
      constructor
      · rintro d ⟨⟩
        rw [hleast, Decimal.value_ofInt]
        exact_mod_cast hlow
      · rintro d ⟨⟩
        rw [hgreatest, Decimal.value_ofInt]
        have hle : n ≤ 2 ^ 64 - 1 := by omega
        exact_mod_cast hle

/-- The schema admits as many workers as there is a whole number for, from one on. -/
theorem metBy_concurrency_iff (v : Literal) :
    (∀ d ∈ Setting.other .concurrency, d.MetBy v.atom) ↔ ∃ n : ℤ, v = .whole n ∧ 1 ≤ n := by
  simp only [other, Set.mem_insert_iff, Set.mem_singleton_iff, forall_eq_or_imp, forall_eq]
  cases v with
  | text s =>
    refine iff_of_false (fun h => ?_) nofun
    exact Kind.noConfusion (List.mem_singleton.mp h.1.1)
  | whole n =>
    have hlimit : (Demand.limit .atLeast (.int (.ofNat 1))).MetBy (Literal.whole n).atom ↔
        1 ≤ n := by
      constructor
      · rintro ⟨x, d, ⟨⟩, ⟨⟩, hholds⟩
        have hle : (Decimal.ofNat 1).value ≤ (Decimal.ofInt n).value := hholds
        rw [Decimal.value_ofNat, Decimal.value_ofInt] at hle
        exact_mod_cast hle
      · intro hle
        refine ⟨_, _, rfl, rfl, ?_⟩
        change (Decimal.ofNat 1).value ≤ (Decimal.ofInt n).value
        rw [Decimal.value_ofNat, Decimal.value_ofInt]
        exact_mod_cast hle
    rw [hlimit]
    constructor
    · exact fun h => ⟨n, rfl, h.2⟩
    · rintro ⟨n', heq, hle⟩
      obtain rfl := Literal.whole.inj heq
      exact ⟨⟨List.mem_singleton_self _, fun _ _ => ⟨nofun, nofun⟩⟩, hle⟩

/-- A literal passes exactly if it is what the schema prefers, or meets what it asks for
otherwise. -/
theorem passes_iff (s : Setting) (v : Literal) :
    s.Passes v ↔ v = s.otherwise ∨ ∀ d ∈ s.other, d.MetBy v.atom := by
  have htext (t : String) : (∀ d ∈ ({.atom (.string t)} : Set Demand), d.MetBy v.atom) ↔
      v = .text t := by
    simp only [Set.mem_singleton_iff, forall_eq]
    exact (Literal.metBy_iff (v := .text t)).trans eq_comm
  cases s with
  | method =>
    rw [passes_iff_allows (by decide), other, htext]
    cases v <;> simp [Allows, otherwise, or_comm]
  | maxDepth =>
    rw [passes_iff_allows (by decide)]
    simp only [other, Set.mem_singleton_iff, forall_eq, metBy_wordType_iff]
    cases v with
    | text t => simp [Allows, otherwise]
    | whole n =>
      simp only [Allows, otherwise, Literal.whole.injEq, exists_eq_left']
      omega
  | concurrency =>
    rw [metBy_concurrency_iff]
    cases v with
    | text t => simp [Passes, Allows, IsExcess, otherwise]
    | whole n =>
      simp only [Passes, Allows, IsExcess, otherwise, Literal.whole.injEq, exists_eq_left']
      omega
  | format =>
    rw [passes_iff_allows (by decide), other, htext]
    cases v <;> simp [Allows, otherwise]

end Setting

/-- No setting is set to two literals. -/
def Agree (given : List Assignment) : Prop := ∀ a ∈ given, ∀ b ∈ given, a.1 = b.1 → a.2 = b.2

instance (given : List Assignment) : Decidable (Agree given) :=
  inferInstanceAs (Decidable (∀ a ∈ given, ∀ b ∈ given, a.1 = b.1 → a.2 = b.2))

/-- A setting becomes a literal: it is set to nothing else, and if it is not set the literal is its
default. -/
structure Becomes (given : List Assignment) (s : Setting) (v : Literal) : Prop where
  set : ∀ w, (s, w) ∈ given → w = v
  unset : (∀ w, (s, w) ∉ given) → v = s.otherwise

/-- Every setting becomes a literal of some kind exactly if there are no two literals for it, and
all are of that kind. -/
theorem forall_exists_becomes_iff {given : List Assignment} {P : Setting → Literal → Prop}
    (hP : ∀ s, P s s.otherwise) :
    (∀ s, ∃ v, P s v ∧ Becomes given s v) ↔ Agree given ∧ ∀ a ∈ given, P a.1 a.2 := by
  constructor
  · intro h
    constructor
    · rintro ⟨s, v⟩ hv ⟨s', w⟩ hw ⟨⟩
      obtain ⟨u, -, hu⟩ := h s
      exact (hu.set v hv).trans (hu.set w hw).symm
    · rintro ⟨s, v⟩ hv
      obtain ⟨u, hPu, hu⟩ := h s
      exact hu.set v hv ▸ hPu
  · rintro ⟨hagree, hall⟩ s
    by_cases hset : ∃ v, (s, v) ∈ given
    · obtain ⟨v, hv⟩ := hset
      exact ⟨v, hall _ hv, fun w hw => hagree _ hw _ hv rfl, fun hunset => absurd hv (hunset v)⟩
    · exact ⟨s.otherwise, hP s, fun w hw => absurd ⟨w, hw⟩ hset, fun _ => rfl⟩

/-- What a setting is demanded to be. -/
def literalDemands (given : List Assignment) (s : Setting) : Set Demand :=
  {d | ∃ v, (s, v) ∈ given ∧ d = .atom v.atom}

theorem metBy_literalDemands_iff {given : List Assignment} {s : Setting} {v : Literal} :
    (∀ d ∈ literalDemands given s, d.MetBy v.atom) ↔ ∀ w, (s, w) ∈ given → w = v := by
  constructor
  · exact fun h w hw => Literal.metBy_iff.mp (h _ ⟨w, hw, rfl⟩)
  · rintro h d ⟨w, hw, rfl⟩
    exact Literal.metBy_iff.mpr (h w hw)

/-- **What is chosen for a setting is what it becomes, if that passes.** -/
theorem chosen_iff {given : List Assignment} {s : Setting} {a : Atom} :
    Chosen s.other s.otherwise.atom (literalDemands given s) a ↔
      ∃ v, a = v.atom ∧ s.Passes v ∧ Becomes given s v := by
  rw [Chosen, metBy_literalDemands_iff]
  constructor
  · rintro (⟨hall, rfl⟩ | ⟨hnot, hatom, hmet⟩)
    · exact ⟨s.otherwise, rfl, s.passes_otherwise, hall, fun _ => rfl⟩
    · obtain ⟨v, hv, -⟩ : ∃ v, (s, v) ∈ given ∧ v ≠ s.otherwise := by simpa using hnot
      have ha : a.isPlain = true := by
        rcases hatom with ⟨w, -, heq⟩ | hother
        · rw [Demand.atom.inj heq]
          exact w.isPlain_atom
        · exact s.isPlain_of_mem_other _ hother
      have heq (w : Literal) (hw : (s, w) ∈ given) : a = w.atom :=
        Literal.eq_of_metBy ha (hmet _ (Or.inl ⟨w, hw, rfl⟩))
      obtain rfl := heq v hv
      refine ⟨v, rfl, (s.passes_iff v).mpr (Or.inr fun d hd => hmet d (Or.inr hd)),
        fun w hw => ?_, ?_⟩
      · exact (Literal.atom_injective (heq w hw)).symm
      · exact fun hunset => absurd hv (hunset v)
  · rintro ⟨v, rfl, hpasses, hset, hunset⟩
    by_cases hv : v = s.otherwise
    · exact Or.inl ⟨hv ▸ hset, hv ▸ rfl⟩
    · obtain ⟨w, hw⟩ : ∃ w, (s, w) ∈ given := by
        by_contra hnone
        exact hv (hunset fun w hw => hnone ⟨w, hw⟩)
      obtain rfl := hset w hw
      refine Or.inr ⟨fun h => hv (h w hw), Or.inl ⟨w, hw, rfl⟩, ?_⟩
      rintro d (hd | hd)
      · exact metBy_literalDemands_iff.mpr hset d hd
      · exact ((s.passes_iff w).mp hpasses).resolve_left hv d hd

/-! ## Layers of literals -/

/-- A whole number behind a sign. -/
def Sign.signed : Sign → ℤ → ℤ
  | .plus, n => n
  | .minus, n => -n

/-- The literal that an expression is. -/
def Expr.literal? : Expr → Option Literal
  | .literal _ (.string s) => some (.text s)
  | .literal _ (.int d) => if d = .ofNat d.coefficient then some (.whole d.coefficient) else none
  | .signed _ sign (.literal _ (.int d)) =>
    if d = .ofNat d.coefficient then some (.whole (sign.signed d.coefficient)) else none
  | _ => none

mutual

/-- What a layer of literals sets, in order: its fields are settings that are set to literals, and
it embeds nothing but such structs. -/
def Expr.assignments? : Expr → Option (List Assignment)
  | .struct _ ds => assignmentsOf? ds
  | _ => none

/-- What declarations set, if they only set settings to literals. -/
def assignmentsOf? : List Decl → Option (List Assignment)
  | [] => some []
  | d :: ds =>
    match d.assignments?, assignmentsOf? ds with
    | some first, some rest => some (first ++ rest)
    | _, _ => none

/-- What a declaration sets, if it only sets settings to literals. -/
def Decl.assignments? : Decl → Option (List Assignment)
  | .field (.regular name) _ false e =>
    match Setting.named? name, e.literal? with
    | some s, some v => some [(s, v)]
    | _, _ => none
  | .embedded e => e.assignments?
  | _ => none

end

theorem demands_of_literal? {e : Expr} {v : Literal} (h : e.literal? = some v) :
    (∀ bound, e.isRestriction bound = true) ∧ e.demands = [.atom v.atom] := by
  have hnat {d : Decimal} (hd : d = .ofNat d.coefficient) : d = .ofInt d.coefficient :=
    hd.trans (Decimal.ofInt_natCast _).symm
  have hplain {d : Decimal} (hd : d = .ofNat d.coefficient) : (Atom.int d).isPlain = true :=
    hd ▸ Atom.isPlain_ofNat _
  unfold Expr.literal? at h
  split at h
  · obtain rfl := Option.some.inj h
    exact ⟨fun _ => rfl, rfl⟩
  · split at h
    · next p d hd =>
      obtain rfl := Option.some.inj h
      exact ⟨fun _ => hplain hd, congrArg (fun d => [Demand.atom (.int d)]) (hnat hd)⟩
    · cases h
  · split at h
    · next p sign q d hd =>
      obtain rfl := Option.some.inj h
      refine ⟨fun _ => Bool.and_eq_true_iff.mpr ⟨hplain hd, rfl⟩, ?_⟩
      rw [Expr.demands]
      cases sign with
      | plus => exact congrArg (fun d => [Demand.atom (.int d)]) (hnat hd)
      | minus =>
        refine congrArg (fun d => [Demand.atom (.int d)]) ?_
        exact (congrArg Decimal.negated (hnat hd)).trans (Decimal.negated_ofInt _)
    · cases h
  · cases h

/-- A declaration is a field that sets a setting to a literal. -/
def Decl.Sets (d : Decl) (a : Assignment) : Prop :=
  ∃ bindable e, d = .field (.regular a.1.name) bindable false e ∧ e.literal? = some a.2

theorem Decl.sets_or_embedded {d : Decl} {as : List Assignment} (h : d.assignments? = some as) :
    (∃ a, as = [a] ∧ d.Sets a) ∨ ∃ e, d = .embedded e ∧ e.assignments? = some as := by
  unfold Decl.assignments? at h
  split at h
  · next name bindable e =>
    split at h
    · next s v hs hv =>
      refine Or.inl ⟨(s, v), (Option.some.inj h).symm, bindable, e, ?_, hv⟩
      rw [Setting.named?_eq_some hs]
    · cases h
  · next e => exact Or.inr ⟨e, rfl, h⟩
  · cases h

/-- What declarations set is what each of them sets. -/
theorem forall_mem_of_assignmentsOf? {ds : List Decl} {as : List Assignment}
    (h : assignmentsOf? ds = some as) :
    (∀ d ∈ ds, ∃ part, d.assignments? = some part ∧ part ⊆ as) ∧
      ∀ a ∈ as, ∃ d ∈ ds, ∃ part, d.assignments? = some part ∧ a ∈ part := by
  induction ds generalizing as with
  | nil =>
    rw [assignmentsOf?] at h
    obtain rfl := Option.some.inj h
    exact ⟨List.forall_mem_nil _, List.forall_mem_nil _⟩
  | cons d ds ih =>
    rw [assignmentsOf?] at h
    split at h
    · next first rest hfirst hrest =>
      obtain rfl := Option.some.inj h
      obtain ⟨hdecls, hset⟩ := ih hrest
      constructor
      · refine List.forall_mem_cons.mpr ⟨⟨first, hfirst, List.subset_append_left first rest⟩,
          fun d' hd' => ?_⟩
        obtain ⟨part, hpart, hsub⟩ := hdecls d' hd'
        exact ⟨part, hpart, List.subset_append_of_subset_right first hsub⟩
      · intro a ha
        rcases List.mem_append.mp ha with ha | ha
        · exact ⟨d, List.mem_cons_self, first, hfirst, ha⟩
        · obtain ⟨d', hd', hpart⟩ := hset a ha
          exact ⟨d', List.mem_cons_of_mem d hd', hpart⟩
    · cases h

theorem size_le_of_embedded {e : Expr} {ds : List Decl} (h : .embedded e ∈ ds) :
    e.size ≤ sizeOfDecls ds := by
  induction ds with
  | nil => cases h
  | cons d ds ih =>
    rcases List.mem_cons.mp h with rfl | h
    · rw [sizeOfDecls]
      omega
    · have hrest := ih h
      cases d <;> rw [sizeOfDecls] <;> omega

theorem Expr.isNested_of_assignments? {e : Expr} {as : List Assignment}
    (h : e.assignments? = some as) : e.IsNested := by
  -- structs stand inside lists of declarations, so the induction is on the size
  induction hsize : e.size using Nat.strong_induction_on generalizing e as with
  | h size ih =>
    cases e with
    | struct p ds =>
      have hparts := (forall_mem_of_assignmentsOf? h).1
      refine .struct (fun d hd => ?_) fun e he => ?_
      · obtain ⟨part, hpart, -⟩ := hparts d hd
        rcases Decl.sets_or_embedded hpart with ⟨a, -, bindable, e, rfl, -⟩ | ⟨e, rfl, -⟩
        · exact Or.inl rfl
        · exact Or.inr ⟨e, rfl⟩
      · obtain ⟨part, hpart, -⟩ := hparts _ he
        have hlt : e.size < size := by
          rw [← hsize, Expr.size]
          exact Nat.lt_succ_of_le (size_le_of_embedded he)
        exact ih e.size hlt hpart rfl
    | _ => cases h

/-- Structs make assignments and nothing else: each of their declarations sets a setting, or embeds
another struct. -/
structure MakeOnly (bodies : List Body) (as : List Assignment) : Prop where
  sets : ∀ b ∈ bodies, ∀ d ∈ b.decls, (∃ a ∈ as, d.Sets a) ∨ ∃ e, d = .embedded e
  set : ∀ a ∈ as, ∃ b ∈ bodies, ∃ d ∈ b.decls, d.Sets a

theorem Expr.IsNested.makeOnly {e : Expr} (hnested : e.IsNested) {as : List Assignment}
    (h : e.assignments? = some as) (here : Address) (context : Context) :
    MakeOnly (e.bodies here context) as := by
  induction hnested generalizing as context with
  | @struct p ds _ _ ih =>
    obtain ⟨hparts, hset⟩ := forall_mem_of_assignmentsOf? h
    constructor
    · intro b hb d hd
      rcases List.mem_cons.mp (Expr.bodies.eq_1 .. ▸ hb) with rfl | hb
      · obtain ⟨part, hpart, hsub⟩ := hparts d hd
        rcases Decl.sets_or_embedded hpart with ⟨a, rfl, hsets⟩ | ⟨e, rfl, -⟩
        · exact Or.inl ⟨a, hsub List.mem_cons_self, hsets⟩
        · exact Or.inr ⟨e, rfl⟩
      · obtain ⟨e, he, hb⟩ := mem_bodiesOfDecls.mp hb
        obtain ⟨part, hpart, hsub⟩ := hparts _ he
        rcases (ih e he hpart _).sets b hb d hd with ⟨a, ha, hsets⟩ | hembedded
        · exact Or.inl ⟨a, hsub ha, hsets⟩
        · exact Or.inr hembedded
    · intro a ha
      obtain ⟨d, hd, part, hpart, hmem⟩ := hset a ha
      rcases Decl.sets_or_embedded hpart with ⟨a', rfl, hsets⟩ | ⟨e, rfl, he⟩
      · obtain rfl := List.mem_singleton.mp hmem
        exact ⟨_, List.mem_cons_self, d, hd, hsets⟩
      · obtain ⟨b, hb, hb'⟩ := (ih e hd he _).set a hmem
        exact ⟨b, List.mem_cons_of_mem _ (mem_bodiesOfDecls.mpr ⟨e, hd, hb⟩), hb'⟩

theorem MakeOnly.append {bs bs' : List Body} {as as' : List Assignment} (h : MakeOnly bs as)
    (h' : MakeOnly bs' as') :
    MakeOnly (bs ++ bs') (as ++ as') where
  sets b hb d hd := by
    rcases List.mem_append.mp hb with hb | hb
    · exact (h.sets b hb d hd).imp_left fun ⟨a, ha, hsets⟩ =>
        ⟨a, List.mem_append_left as' ha, hsets⟩
    · exact (h'.sets b hb d hd).imp_left fun ⟨a, ha, hsets⟩ =>
        ⟨a, List.mem_append_right as ha, hsets⟩
  set a ha := by
    rcases List.mem_append.mp ha with ha | ha
    · obtain ⟨b, hb, hsets⟩ := h.set a ha
      exact ⟨b, List.mem_append_left bs' hb, hsets⟩
    · obtain ⟨b, hb, hsets⟩ := h'.set a ha
      exact ⟨b, List.mem_append_right bs hb, hsets⟩

/-- Layers of literals that set settings. -/
structure AreLiterals (layers : List Expr) (given : List Assignment) : Prop where
  plain : ∀ e ∈ layers, e.IsPlainLayer
  makeOnly : MakeOnly (layers.flatMap layerBodies) given

theorem Expr.isPlainLayer_of_assignments? {e : Expr} {as : List Assignment}
    (h : e.assignments? = some as) :
    e.IsPlainLayer := by
  have hnested := Expr.isNested_of_assignments? h
  refine ⟨hnested, fun b hb d hd => ?_⟩
  rcases (hnested.makeOnly h _ _).sets b hb d hd with ⟨a, -, bindable, e, rfl, hliteral⟩ | ⟨e, rfl⟩
  · rw [Decl.isPlain, if_neg a.1.name_ne_cases]
    exact (demands_of_literal? hliteral).1 _
  · rfl

/-- **Layers of literals set what each of them sets.** -/
theorem areLiterals_of_forall₂ {layers : List Expr} {givens : List (List Assignment)}
    (h : List.Forall₂ (fun e given => e.assignments? = some given) layers givens) :
    AreLiterals layers givens.flatten := by
  induction h with
  | nil => exact ⟨List.forall_mem_nil _, List.forall_mem_nil _, List.forall_mem_nil _⟩
  | @cons e given layers givens hfirst _ ih =>
    refine ⟨List.forall_mem_cons.mpr ⟨Expr.isPlainLayer_of_assignments? hfirst, ih.plain⟩, ?_⟩
    exact ((Expr.isNested_of_assignments? hfirst).makeOnly hfirst _ _).append ih.makeOnly

namespace AreLiterals

variable {layers : List Expr} {given : List Assignment} (h : AreLiterals layers given)
include h

/-- A field of a layer of literals. -/
theorem exists_of_field {b : Body} (hb : b ∈ layers.flatMap layerBodies) {l : Label}
    {bindable optional : Bool} {e : Expr} (he : .field l bindable optional e ∈ b.decls) :
    ∃ a ∈ given, l = .regular a.1.name ∧ e.literal? = some a.2 := by
  rcases h.makeOnly.sets b hb _ he with ⟨a, ha, bindable', e', heq, hliteral⟩ | ⟨e', heq⟩
  · obtain ⟨rfl, -, -, rfl⟩ := Decl.field.inj heq
    exact ⟨a, ha, rfl, hliteral⟩
  · cases heq

/-- What layers of literals say of a setting is what they set it to. -/
theorem layersSay_name (s : Setting) : layersSay layers s.name = literalDemands given s := by
  ext d
  constructor
  · rintro ⟨b, hb, hsaid⟩
    obtain ⟨bindable, optional, e, he, hd⟩ := Body.mem_said.mp hsaid
    obtain ⟨a, ha, hlabel, hliteral⟩ := h.exists_of_field hb he
    obtain rfl := Setting.name_injective (Label.regular.inj hlabel)
    rw [(demands_of_literal? hliteral).2] at hd
    exact ⟨a.2, ha, List.mem_singleton.mp hd⟩
  · rintro ⟨v, hv, rfl⟩
    obtain ⟨b, hb, -, hd, bindable, e, rfl, hliteral⟩ := h.makeOnly.set _ hv
    refine ⟨b, hb, Body.mem_said.mpr ⟨bindable, false, e, hd, ?_⟩⟩
    rw [(demands_of_literal? hliteral).2]
    exact List.mem_singleton_self _

/-- Layers of literals say nothing of anything else. -/
theorem layersSay_eq_empty {name : String} (hname : ∀ s : Setting, name ≠ s.name) :
    layersSay layers name = ∅ := by
  refine Set.eq_empty_of_forall_notMem ?_
  rintro d ⟨b, hb, hsaid⟩
  obtain ⟨bindable, optional, e, he, -⟩ := Body.mem_said.mp hsaid
  obtain ⟨a, -, hlabel, -⟩ := h.exists_of_field hb he
  exact hname a.1 (Label.regular.inj hlabel)

/-- Layers of literals give no cases. -/
theorem layersList_eq_empty : layersList layers = ∅ := by
  refine Set.eq_empty_of_forall_notMem ?_
  rintro rows ⟨b, hb, hrows⟩
  obtain ⟨c, hc, -⟩ := (Body.mem_caseLists []).mpr hrows
  obtain ⟨bindable, optional, e, he, -⟩ := Body.mem_conjunctsOf.mp hc
  obtain ⟨a, -, hlabel, -⟩ := h.exists_of_field hb he
  exact a.1.name_ne_cases (Label.regular.inj hlabel).symm

/-! ## A layer of literals by itself -/

omit h in
theorem consistent {e : Expr} (h : AreLiterals [e] given) (hagree : Agree given) :
    e.Consistent where
  restrictions name := by
    by_cases hname : ∃ s : Setting, name = s.name
    · obtain ⟨s, rfl⟩ := hname
      rw [h.layersSay_name]
      rintro ⟨-, v, hv, rfl⟩
      exact ⟨v.atom, ⟨v, hv, rfl⟩, metBy_literalDemands_iff.mpr fun w hw => hagree _ hw _ hv rfl⟩
    · rw [h.layersSay_eq_empty (not_exists.mp hname)]
      rintro ⟨d, ⟨⟩⟩
  length := ⟨0, by
    rw [h.layersList_eq_empty]
    rintro rows ⟨⟩⟩
  rows i name := by
    rw [h.layersList_eq_empty]
    rintro ⟨d, rows, ⟨⟩, -⟩

omit h in
/-- **A layer of literals has a value by itself exactly if it agrees with itself.**  What it sets
need not pass. -/
theorem isFailed_unify_iff {e : Expr} (h : AreLiterals [e] given) :
    (unify [e]).isFailed = false ↔ Agree given := by
  have hplain : e.IsPlainLayer := h.plain e (List.mem_singleton_self e)
  constructor
  · rintro hvalue ⟨s, v⟩ hv ⟨s', w⟩ hw ⟨⟩
    have hsay := h.layersSay_name s
    obtain ⟨a, ⟨u, hu, heq⟩, hmet⟩ :=
      hsay ▸ exists_determined_of_isFailed_eq_false hplain hvalue s.name_ne_cases
      (a := v.atom) (hsay ▸ ⟨v, hv, rfl⟩)
    rw [Demand.atom.inj heq] at hmet
    have hset := metBy_literalDemands_iff.mp hmet
    exact (hset v hv).trans (hset w hw).symm
  · exact fun hagree => isFailed_unify hplain (h.consistent hagree)

/-! ## Layers of literals on top of the schema -/

theorem chosen_layersSay_iff {s : Setting} {a : Atom} :
    Chosen s.other s.otherwise.atom (layersSay layers s.name) a ↔
      ∃ v, a = v.atom ∧ s.Passes v ∧ Becomes given s v := by
  rw [h.layersSay_name, chosen_iff]

theorem chosen_atom_iff {s : Setting} {v : Literal} :
    Chosen s.other s.otherwise.atom (layersSay layers s.name) v.atom ↔
      s.Passes v ∧ Becomes given s v := by
  rw [h.chosen_layersSay_iff]
  constructor
  · rintro ⟨w, heq, hw⟩
    obtain rfl := Literal.atom_injective heq
    exact hw
  · exact fun hv => ⟨v, rfl, hv⟩

theorem casesOf_iff {cs : List Case} :
    CasesOf (layersList layers) cs ↔ cs = Schema.defaultCases := by
  have hlists : layersList layers = listsOf [] := by
    rw [h.layersList_eq_empty]
    refine (Set.eq_empty_of_forall_notMem ?_).symm
    rintro rows ⟨c, ⟨⟩, -⟩
  rw [hlists, CasesOf]
  constructor
  · exact fun hcases => hcases.elim (fun hfit => hfit.2) fun hnot => absurd fit_nil hnot.1
  · exact fun heq => Or.inl ⟨fit_nil, heq⟩

/-- **Layers of literals hold together with the schema exactly if they agree and what they set
passes.** -/
theorem isComplete_iff :
    (unify (Schema.source :: layers)).IsComplete [] ↔
      Agree given ∧ ∀ a ∈ given, a.1.Passes a.2 := by
  obtain ⟨before, hunify⟩ := exists_round_known (Schema.source :: layers)
  have hknown := knowsCase_round h.plain before
  set known := some (round (Schema.source :: layers) before)
  have hsetting (s : Setting) : CompleteAt layers known s.name ↔
      ∃ v, s.Passes v ∧ Becomes given s v := by
    rw [CompleteAt, (s.settles h.plain known).isComplete_iff]
    simp only [h.chosen_layersSay_iff, exists_comm (α := Atom), exists_eq_left]
  rw [hunify, isComplete_root_iff h.plain, ← forall_exists_becomes_iff Setting.passes_otherwise]
  constructor
  · exact fun hall s => (hsetting s).mp (hall s.name (Or.inl s.name_mem_settingNames))
  · intro hall name hname
    by_cases hsome : ∃ s : Setting, name = s.name
    · obtain ⟨s, rfl⟩ := hsome
      exact (hsetting s).mpr (hall s)
    · have hnothing := h.layersSay_eq_empty (not_exists.mp hsome)
      have hmem : name ∈ Schema.settingNames := hname.resolve_right fun hsaid =>
        hsaid.ne_empty hnothing
      obtain rfl := (Setting.eq_name_of_mem hmem).resolve_right hsome
      exact ((decodeCases_rootMember_iff h.plain hknown _).mpr (h.casesOf_iff.mpr rfl)).1

end AreLiterals

end Config
end RepeatedAddition
