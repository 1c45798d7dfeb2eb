import RepeatedAddition.Proofs.AdmittedSettings

/-!
# The order of layers

Layers do not override each other, so their order should not matter, nor how often one is given, nor
whether its text is that of a file or that of a snippet.  That is so for every language that follows
its specification, with all its choices and preferences.

The evaluator is not one of these: it drops a preference as soon as nothing meets it, and so whether
another is heard can depend on the order.  Layers that make no choices are left, and for them it
loads what the set of texts says.

* `settingsOf_eq_ok_congr`: plain layers that are the same without names come to the same settings.
* `load_eq_ok_iff_of_same_texts`: layers are loaded as the set of their texts.
* `isEmpty_specification_evaluating`: the evaluator follows no specification of preferences.
-/

namespace RepeatedAddition
namespace Config

/-! ## Layers without choices -/

/-- **Plain layers that are the same without names come to the same settings**, whatever their
order, and however often each is given. -/
theorem settingsOf_eq_ok_congr {layers layers' : List Expr}
    (hplain : ∀ e ∈ layers, e.IsPlainLayer)
    (hsame : ∀ e, e ∈ layers.map Expr.unnamed ↔ e ∈ layers'.map Expr.unnamed) (s : Settings) :
    settingsOf layers = .ok s ↔ settingsOf layers' = .ok s := by
  have hplain' : ∀ e ∈ layers', e.IsPlainLayer := by
    intro e' he'
    obtain ⟨e, he, heq⟩ := List.mem_map.mp ((hsame _).mpr (List.mem_map_of_mem he'))
    rw [← Expr.isPlainLayer_unnamed, ← heq, Expr.isPlainLayer_unnamed]
    exact hplain e he
  have hbodies (b : Body) :
      b ∈ (layers.map Expr.unnamed).flatMap layerBodies ↔
        b ∈ (layers'.map Expr.unnamed).flatMap layerBodies := by
    simp only [List.mem_flatMap, hsame]
  have hsay (name : String) : layersSay layers name = layersSay layers' name := by
    rw [← layersSay_unnamed, ← layersSay_unnamed layers']
    exact Set.ext fun d => exists_congr fun b => and_congr_left' (hbodies b)
  have hlist : layersList layers = layersList layers' := by
    rw [← layersList_unnamed, ← layersList_unnamed layers']
    exact Set.ext fun d => exists_congr fun b => and_congr_left' (hbodies b)
  rw [settingsOf_eq_ok_iff_areSaidBy hplain, settingsOf_eq_ok_iff_areSaidBy hplain', funext hsay,
    hlist]

/-- What layers are without names can be told from their texts. -/
theorem mem_unnamed_of_compile {texts : List (Text × Text)} {es : List Expr}
    (h : List.Forall₂ (fun named e => compile named.1 named.2 = .ok e) texts es) (u : Expr) :
    u ∈ es.map Expr.unnamed ↔
      ∃ text ∈ texts.map Prod.snd, (Source.read [] text).toOption = some u := by
  refine mem_map_iff_of_forall₂ (fun named e he => ?_) h
  have hread : (Source.read [] named.2).toOption = some e.unnamed := by
    rw [Source.toOption_read_unnamed named.1, (compile_eq_ok_iff.mp he).1]
    rfl
  rw [hread, Option.some_inj, eq_comm]

section SameTexts

variable {files files' : Files} {paths paths' snippets snippets' : List Text}
  (hfound : ∀ path ∈ paths, IsFound files path)
  (hfound' : ∀ path ∈ paths', IsFound files' path)
  (hsame : ∀ text, text ∈ (layerTexts files paths snippets).map Prod.snd ↔
    text ∈ (layerTexts files' paths' snippets').map Prod.snd)
include hfound hfound' hsame

/-- Plain layers are loaded as the set of their texts. -/
theorem load_eq_ok_iff_of_isPlainLayer
    (hplain : ∀ named ∈ layerTexts files paths snippets,
      ∃ e, compile named.1 named.2 = .ok e ∧ e.IsPlainLayer) (s : Settings) :
    load files paths snippets = .ok s ↔ load files' paths' snippets' = .ok s := by
  obtain ⟨es, hes⟩ := exists_forall₂_of_forall_mem hplain
  have hcompile := hes.imp fun _ _ h => h.1
  have hflip : List.Forall₂ (fun e named => e.IsPlainLayer ∧ compile named.1 named.2 = .ok e) es
      (layerTexts files paths snippets) := (hes.imp fun _ _ h => h.symm).flip
  have hesPlain : ∀ e ∈ es, e.IsPlainLayer := ((List.forall₂_and_left _ _).mp hflip).1
  have hmade : ∀ text ∈ (layerTexts files paths snippets).map Prod.snd, ∀ name,
      ∃ e, compile name text = .ok e := by
    refine List.forall_mem_map.mpr fun named hnamed name => ?_
    obtain ⟨e, he, hplain⟩ := hplain named hnamed
    obtain ⟨e', he', -⟩ := exists_compile_eq_ok_of_isPlainLayer he hplain name
    exact ⟨e', he'⟩
  obtain ⟨es', hcompile'⟩ := exists_forall₂_of_same_texts hmade fun text => (hsame text).mpr
  rw [load_of_layers ((layers_eq_ok_iff hfound).mpr hcompile),
    load_of_layers ((layers_eq_ok_iff hfound').mpr hcompile')]
  refine settingsOf_eq_ok_congr hesPlain (fun u => ?_) s
  simp only [mem_unnamed_of_compile hcompile, mem_unnamed_of_compile hcompile', hsame]

/-- **The order of layers does not matter**, nor how often a layer is given, nor whether its text is
that of a file or that of a snippet: what is loaded depends on the set of the texts.  This holds for
layers that are each compiled by themselves, in every language that follows its specification, and
for plain layers in any case. -/
theorem load_eq_ok_iff_of_same_texts :
    (∀ language : Language, language.Specification →
      (∀ named ∈ layerTexts files paths snippets,
        ∃ c, language.compile named.1 named.2 = .ok c) →
      ∀ s, language.load files paths snippets = .ok s ↔
        language.load files' paths' snippets' = .ok s) ∧
    ((∀ named ∈ layerTexts files paths snippets,
        ∃ e, compile named.1 named.2 = .ok e ∧ e.IsPlainLayer) →
      ∀ s, load files paths snippets = .ok s ↔ load files' paths' snippets' = .ok s) :=
  ⟨fun _ spec hcompile => spec.load_eq_ok_iff hfound hfound' hsame hcompile,
    load_eq_ok_iff_of_isPlainLayer hfound hfound' hsame⟩

end SameTexts

/-- A depth limit of one or two, preferably one. -/
def preferringOne : Text := Text.lit "maxDepth: *1 | 2"

/-- A depth limit of two or three, preferably three. -/
def preferringThree : Text := Text.lit "maxDepth: 2 | *3"

/-- The range of the first limit. -/
def oneOrTwo : Range := .either (.preferred (.literal (.whole 1))) (.literal (.whole 2))

/-- The range of the second limit. -/
def twoOrThree : Range := .either (.literal (.whole 2)) (.preferred (.literal (.whole 3)))

/-- Limits for the depth, and one case. -/
def limitedText : Text := Text.lit "maxDepth: int & >10\ncases: [\x7bx: 2, y: 3\x7d]"

/-- A depth limit. -/
def deepText : Text := Text.lit "maxDepth: 64"

/-- A single file. -/
def limitsFile (text : Text) : Files := fun path =>
  if path = Text.lit "limits.cue" then .ok text else .error .notFound

/-- The defaults, but for a depth limit of two. -/
def twoDeep : Settings :=
  settingsWith (Function.update Setting.otherwise .maxDepth (.whole 2)) Schema.defaultCases

theorem compile_preferringOne (name : Text) :
    admitting.compile name preferringOne = .ok (admittedBy [(.maxDepth, oneOrTwo)]) :=
  compile_admitting_eq_ok_iff.mpr ⟨_, by decide +kernel, rfl⟩

theorem compile_preferringThree (name : Text) :
    admitting.compile name preferringThree = .ok (admittedBy [(.maxDepth, twoOrThree)]) :=
  compile_admitting_eq_ok_iff.mpr ⟨_, by decide +kernel, rfl⟩

/-- No preference for the depth limit can be met, and two is what is left. -/
theorem load_preferring :
    admitting.load (limitsFile preferringOne) [Text.lit "limits.cue"] [preferringThree] =
      .ok twoDeep := by
  have hfound : ∀ path ∈ [Text.lit "limits.cue"], IsFound (limitsFile preferringOne) path :=
    List.forall_mem_singleton.mpr (.inl ⟨preferringOne, rfl⟩)
  refine Language.load_eq_ok_iff.mpr ⟨_, (Language.layers_eq_ok_iff hfound).mpr
    (.cons (compile_preferringOne _) (.cons (compile_preferringThree _) .nil)),
    (settingsOf_admitting_iff _ _).mpr ⟨?_, by decide⟩⟩
  have hvalue : (Setting.maxDepth.admitted.unify
      ((oneOrTwo.admitted false).unify (twoOrThree.admitted false))).value = {.whole 2} := by
    ext v
    constructor
    · rintro ⟨-, rfl | rfl, h⟩
      · have hone : Literal.whole 1 = .whole 2 ∨ Literal.whole 1 = .whole 3 := h
        exact absurd hone (by decide)
      · rfl
    · rintro rfl
      exact ⟨Or.inl (by decide), Or.inr rfl, Or.inl rfl⟩
  change ((Schema.admitted.unify (admittedBy [(.maxDepth, oneOrTwo)])).unify
    (admittedBy [(.maxDepth, twoOrThree)])).resolved = {twoDeep}
  simp only [admittedBy, Marked.unify_univ]
  rw [Marked.unify_assoc, ← map_holding_unify]
  exact resolved_schema_unify (by decide) (Marked.resolved_of_value hvalue)

/-- A file below a snippet, or the same two texts as snippets, one of them twice: with preferences
that cannot be met in a language that follows its specification, where the evaluator loads the same,
and with limits for the evaluator. -/
theorem load_limits_in_two_ways :
    ((admitting.load (limitsFile preferringOne) [Text.lit "limits.cue"] [preferringThree] =
        .ok twoDeep ∧
      admitting.load (fun _ => .error .notFound) []
        [preferringThree, preferringOne, preferringThree] = .ok twoDeep) ∧
      load (limitsFile preferringOne) [Text.lit "limits.cue"] [preferringThree] = .ok twoDeep ∧
      load (fun _ => .error .notFound) [] [preferringThree, preferringOne, preferringThree] =
        .ok twoDeep) ∧
    (∃ s, load (limitsFile limitedText) [Text.lit "limits.cue"] [deepText] = .ok s ∧
      s.maxDepth = 64) ∧
    ∀ s, load (limitsFile limitedText) [Text.lit "limits.cue"] [deepText] = .ok s ↔
      load (fun _ => .error .notFound) [] [deepText, limitedText, deepText] = .ok s := by
  have hfound (text : Text) :
      ∀ path ∈ [Text.lit "limits.cue"], IsFound (limitsFile text) path :=
    List.forall_mem_singleton.mpr (.inl ⟨text, rfl⟩)
  have hsame (first second text : Text) :
      text ∈ (layerTexts (limitsFile first) [Text.lit "limits.cue"] [second]).map Prod.snd ↔
        text ∈
        (layerTexts (fun _ => .error .notFound) [] [second, first, second]).map Prod.snd := by
    show text ∈ [first, second] ↔ text ∈ [second, first, second]
    simp only [List.mem_cons, List.not_mem_nil]
    tauto
  have hcompile : ∀ named ∈
      layerTexts (limitsFile preferringOne) [Text.lit "limits.cue"] [preferringThree],
      ∃ c, admitting.compile named.1 named.2 = .ok c :=
    List.forall_mem_cons.mpr ⟨⟨_, compile_preferringOne _⟩,
      List.forall_mem_singleton.mpr ⟨_, compile_preferringThree _⟩⟩
  have hchecked : (layerTexts (limitsFile limitedText) [Text.lit "limits.cue"] [deepText]).all
      fun named => ((compile named.1 named.2).toOption.map (·.isPlainStruct [])) = some true := by
    decide +kernel
  have hplain : ∀ named ∈ layerTexts (limitsFile limitedText) [Text.lit "limits.cue"] [deepText],
      ∃ e, compile named.1 named.2 = .ok e ∧ e.IsPlainLayer := by
    intro named hnamed
    obtain ⟨e, he, hplain⟩ := Option.map_eq_some_iff.mp
      (of_decide_eq_true (List.all_eq_true.mp hchecked named hnamed))
    exact ⟨e, eq_ok_of_toOption he, Expr.isPlainStruct_iff_isPlainLayer.mp hplain⟩
  have hdeep : (load (limitsFile limitedText) [Text.lit "limits.cue"] [deepText]).toOption.map
      (·.maxDepth) = some 64 := by
    decide +kernel
  obtain ⟨s, hs, hdepth⟩ := Option.map_eq_some_iff.mp hdeep
  refine ⟨⟨⟨load_preferring, ?_⟩, by decide +kernel, by decide +kernel⟩,
    ⟨s, eq_ok_of_toOption hs, hdepth⟩, ?_⟩
  · exact ((load_eq_ok_iff_of_same_texts (hfound preferringOne) (List.forall_mem_nil _)
      (hsame preferringOne preferringThree)).1 admitting specification_admitting hcompile
      twoDeep).mp load_preferring
  · exact (load_eq_ok_iff_of_same_texts (hfound limitedText) (List.forall_mem_nil _)
      (hsame limitedText deepText)).2 hplain

/-! ## Layers with preferences -/

/-- A depth limit of two or one, preferably two. -/
def preferringTwo : Text := Text.lit "maxDepth: (1 | *2)"

/-- Any depth limit.  The first of two preferred alternatives can never be met. -/
def preferringAny : Text := Text.lit "maxDepth: (*(1 & 2) | *int)"

/-- **The evaluator follows no specification of preferences**: there are two layers, each of which
it can evaluate by itself, that it loads in one order only. -/
theorem isEmpty_specification_evaluating : IsEmpty evaluating.Specification := by
  let bare : Files := fun _ => .error .notFound
  refine ⟨fun spec => ?_⟩
  have hload : (load bare [] [preferringTwo, preferringAny]).toOption.isSome := by
    decide +kernel
  have hfails : ¬(load bare [] [preferringAny, preferringTwo]).toOption.isSome := by
    decide +kernel
  have hchecked : (layerTexts bare [] [preferringTwo, preferringAny]).all
      fun named => (compile named.1 named.2).toOption.isSome := by
    decide +kernel
  have hcompile : ∀ named ∈ layerTexts bare [] [preferringTwo, preferringAny],
      ∃ c, evaluating.compile named.1 named.2 = .ok c := by
    intro named hnamed
    obtain ⟨e, he⟩ := Option.isSome_iff_exists.mp (List.all_eq_true.mp hchecked named hnamed)
    exact ⟨[e], compile_evaluating_eq_ok_iff.mpr ⟨e, eq_ok_of_toOption he, rfl⟩⟩
  have hsame (text : Text) :
      text ∈ (layerTexts bare [] [preferringTwo, preferringAny]).map Prod.snd ↔
        text ∈ (layerTexts bare [] [preferringAny, preferringTwo]).map Prod.snd := by
    show text ∈ [preferringTwo, preferringAny] ↔ text ∈ [preferringAny, preferringTwo]
    rw [List.mem_pair, List.mem_pair, or_comm]
  obtain ⟨s, hs⟩ := Option.isSome_iff_exists.mp hload
  have hs' : load bare [] [preferringAny, preferringTwo] = .ok s :=
    (spec.load_eq_ok_iff (List.forall_mem_nil _) (List.forall_mem_nil _) hsame hcompile s).mp
      (eq_ok_of_toOption hs)
  exact hfails (by rw [hs']; rfl)

end Config
end RepeatedAddition
