import Mathlib.Data.List.Basic
import Mathlib.Data.List.Forall2
import RepeatedAddition.Config.Settings

/-!
# The pass over layers

Loading goes over the files and then over the snippets.  Both are layers, told apart by where their
text comes from and by the name under which it is compiled, so the two passes are one pass over all
layers.  It leaves out a default path that does not exist; where every other path can be read, what
it gives are the texts, each compiled by itself.  All of this holds for every language.

The layers of `evaluating` are expressions.  What it loads is what these expressions come to on top
of the schema.

* `Layer`, `layersOf`: the layers that are asked for.
* `Language.layers_eq_contents`: the two passes over files and snippets are one over all layers.
* `Language.layers_eq_compileAll`: the layers are the texts, each compiled by itself.
* `layers_eq_ok_iff`, `load_eq`: the same for expressions, and what is loaded of them.
* `compile_eq_ok_iff`: when a text is compiled to an expression.
-/

namespace RepeatedAddition
namespace Config

/-- A layer as it is asked for: the file at a path, or the snippet with an index. -/
inductive Layer where
  | file (path : Text)
  | snippet (index : Nat) (text : Text)
  deriving DecidableEq, Repr

namespace Layer

/-- The name of a layer, by which errors speak of it. -/
def name : Layer → Text
  | .file path => path
  | .snippet index _ => snippetName index

/-- The text of a layer. -/
def text (files : Files) : Layer → Except ReadFault Text
  | .file path => files path
  | .snippet _ text => .ok text

/-- The text of a layer with its name, if it can be read. -/
def named? (files : Files) (l : Layer) : Option (Text × Text) :=
  (l.text files).toOption.map (Prod.mk l.name)

end Layer

/-- The layers that are asked for, in order. -/
def layersOf (paths snippets : List Text) : List Layer :=
  paths.map .file ++ snippets.mapIdx .snippet

/-- A path is found: it can be read, or need not exist. -/
def IsFound (files : Files) (path : Text) : Prop :=
  (∃ text, files path = .ok text) ∨ path = defaultPath ∧ files path = .error .notFound

/-- The texts of files and snippets, with the names of their layers. -/
def layerTexts (files : Files) (paths snippets : List Text) : List (Text × Text) :=
  (paths.filterMap fun path => (files path).toOption.map (Prod.mk path)) ++
    snippets.mapIdx fun index text => (snippetName index, text)

theorem filterMap_named?_layersOf (files : Files) (paths snippets : List Text) :
    (layersOf paths snippets).filterMap (Layer.named? files) = layerTexts files paths snippets := by
  have hsnippets : (snippets.mapIdx Layer.snippet).filterMap (Layer.named? files) =
      snippets.mapIdx fun index text => (snippetName index, text) := by
    rw [List.mapIdx_eq_zipIdx_map, List.filterMap_map, List.mapIdx_eq_zipIdx_map,
      ← List.filterMap_eq_map]
    rfl
  rw [layersOf, List.filterMap_append, List.filterMap_map, hsnippets]
  rfl

/-- A relation between each entry of a list and something is one between the list and another. -/
theorem exists_forall₂_of_forall_mem {α β : Type} {R : α → β → Prop} {l : List α}
    (h : ∀ a ∈ l, ∃ b, R a b) : ∃ bs, List.Forall₂ R l bs := by
  induction l with
  | nil => exact ⟨[], .nil⟩
  | cons a l ih =>
    obtain ⟨⟨b, hb⟩, hl⟩ := List.forall_mem_cons.mp h
    obtain ⟨bs, hbs⟩ := ih hl
    exact ⟨b :: bs, .cons hb hbs⟩

/-- What is made of texts under any names is made of all texts that are among these. -/
theorem exists_forall₂_of_same_texts {γ : Type} {R : Text → Text → γ → Prop}
    {texts texts' : List (Text × Text)}
    (hmade : ∀ text ∈ texts.map Prod.snd, ∀ name, ∃ c, R name text c)
    (hsame : ∀ text ∈ texts'.map Prod.snd, text ∈ texts.map Prod.snd) :
    ∃ cs, List.Forall₂ (fun named c => R named.1 named.2 c) texts' cs :=
  exists_forall₂_of_forall_mem fun named hnamed =>
    hmade named.2 (hsame _ (List.mem_map_of_mem hnamed)) named.1

/-- What can be told of each thing from its text can be told of all of them from their texts. -/
theorem mem_map_iff_of_forall₂ {γ δ : Type} {R : Text × Text → γ → Prop} {f : γ → δ} {d : δ}
    {P : Text → Prop} (hR : ∀ named c, R named c → (P named.2 ↔ d = f c))
    {texts : List (Text × Text)} {cs : List γ} (h : List.Forall₂ R texts cs) :
    d ∈ cs.map f ↔ ∃ text ∈ texts.map Prod.snd, P text := by
  induction h with
  | nil => simp
  | cons hc _ ih =>
    rw [List.map_cons, List.mem_cons, List.map_cons, List.exists_mem_cons_iff, hR _ _ hc, ih]

namespace Language

variable {language : Language} {files : Files}

/-! ## One pass -/

/-- What a layer contributes: nothing where the default path does not exist. -/
def content? (language : Language) (files : Files) :
    Layer → Except LoadError (Option language.Content)
  | .file path => language.fileLayer? files path
  | .snippet index text => (language.layer (snippetName index) text).map some

/-- What layers contribute, in order, up to the first that fails. -/
def contents (language : Language) (files : Files) :
    List Layer → Except LoadError (List language.Content)
  | [] => .ok []
  | l :: ls =>
    match language.content? files l with
    | .error e => .error e
    | .ok content => (contents language files ls).map (content.toList ++ ·)

theorem contents_append (ls ls' : List Layer) :
    language.contents files (ls ++ ls') =
      do return (← language.contents files ls) ++ (← language.contents files ls') := by
  induction ls with
  | nil =>
    rw [List.nil_append, contents]
    cases language.contents files ls' <;> rfl
  | cons l ls ih =>
    rw [List.cons_append, contents, contents, ih]
    cases language.content? files l with
    | error e => rfl
    | ok content =>
      cases language.contents files ls <;> cases language.contents files ls' <;>
        simp [Except.map, bind, Except.bind, pure, Except.pure]

theorem contents_files (paths : List Text) :
    language.contents files (paths.map .file) = language.fileLayers files paths := by
  induction paths with
  | nil => rfl
  | cons path paths ih =>
    rw [List.map_cons, contents, fileLayers, ih]
    rfl

theorem contents_snippets (files : Files) (index : Nat) (snippets : List Text) :
    language.contents files (snippets.mapIdx fun i text => .snippet (index + i) text) =
      language.snippetLayers index snippets := by
  induction snippets generalizing index with
  | nil => rfl
  | cons text snippets ih =>
    have hnext : (fun i text => Layer.snippet (index + (i + 1)) text) =
        fun i text => .snippet (index + 1 + i) text := by
      ext i text
      rw [Nat.add_assoc, Nat.add_comm 1 i]
    rw [List.mapIdx_cons, contents, hnext, ih, snippetLayers, content?, Nat.add_zero]
    cases language.layer (snippetName index) text <;>
      cases language.snippetLayers (index + 1) snippets <;> rfl

/-- **The two passes, over files and over snippets, are one pass over all layers.** -/
theorem layers_eq_contents (files : Files) (paths snippets : List Text) :
    language.layers files paths snippets = language.contents files (layersOf paths snippets) := by
  have hsnippets := @contents_snippets language files 0 snippets
  simp only [Nat.zero_add] at hsnippets
  rw [layers, layersOf, contents_append, contents_files, hsnippets]
  cases language.fileLayers files paths <;> rfl

theorem layer_eq_ok_iff {name text : Text} {content : language.Content} :
    language.layer name text = .ok content ↔ language.compile name text = .ok content := by
  rw [layer]
  cases language.compile name text <;> simp [Except.mapError]

/-- What a layer contributes is a text that was compiled. -/
theorem exists_compile_of_content? {l : Layer} {c : language.Content}
    (h : language.content? files l = .ok (some c)) :
    ∃ name text, language.compile name text = .ok c := by
  have hlayer (name text : Text) (hname : (language.layer name text).map some = .ok (some c)) :
      ∃ name text, language.compile name text = .ok c := by
    refine ⟨name, text, layer_eq_ok_iff.mp ?_⟩
    cases hresult : language.layer name text with
    | error e =>
      rw [hresult] at hname
      cases hname
    | ok c' =>
      rw [hresult] at hname
      rw [Option.some.inj (Except.ok.inj hname)]
  cases l with
  | snippet index text => exact hlayer _ _ h
  | file path =>
    rw [content?, fileLayer?] at h
    split at h
    · exact hlayer _ _ h
    · split at h <;> cases h

/-- **All layers are texts that were compiled.** -/
theorem exists_compile_of_layers {paths snippets : List Text} {cs : List language.Content}
    (h : language.layers files paths snippets = .ok cs) :
    ∀ c ∈ cs, ∃ name text, language.compile name text = .ok c := by
  rw [layers_eq_contents] at h
  generalize layersOf paths snippets = ls at h
  induction ls generalizing cs with
  | nil =>
    obtain rfl := Except.ok.inj h
    exact List.forall_mem_nil _
  | cons l ls ih =>
    rw [contents] at h
    cases hl : language.content? files l with
    | error e =>
      rw [hl] at h
      cases h
    | ok content =>
      rw [hl] at h
      cases hrest : language.contents files ls with
      | error e =>
        rw [hrest] at h
        cases h
      | ok rest =>
        rw [hrest] at h
        obtain rfl := Except.ok.inj h
        refine List.forall_mem_append.mpr ⟨fun c hc => ?_, ih hrest⟩
        exact exists_compile_of_content? (hl.trans (congrArg Except.ok (Option.mem_toList.mp hc)))

/-! ## Texts that are all found -/

/-- The layers of texts, each compiled by itself, up to the first that fails. -/
def compileAll (language : Language) (texts : List (Text × Text)) :
    Except LoadError (List language.Content) :=
  texts.mapM fun named => language.layer named.1 named.2

theorem compileAll_cons (named : Text × Text) (texts : List (Text × Text)) :
    language.compileAll (named :: texts) =
      do return (← language.layer named.1 named.2) :: (← language.compileAll texts) := by
  rw [compileAll, List.mapM_cons]
  rfl

/-- Texts are compiled exactly if each of them is. -/
theorem compileAll_eq_ok_iff {texts : List (Text × Text)} {cs : List language.Content} :
    language.compileAll texts = .ok cs ↔
      List.Forall₂ (fun named c => language.compile named.1 named.2 = .ok c) texts cs := by
  simp only [← layer_eq_ok_iff]
  induction texts generalizing cs with
  | nil =>
    rw [compileAll, List.mapM_nil]
    cases cs <;> simp [pure, Except.pure]
  | cons named texts ih =>
    rw [compileAll_cons]
    cases cs with
    | nil =>
      cases language.layer named.1 named.2 <;> cases language.compileAll texts <;>
        simp [bind, Except.bind, pure, Except.pure]
    | cons c cs =>
      rw [List.forall₂_cons, ← ih]
      cases language.layer named.1 named.2 <;> cases language.compileAll texts <;>
        simp [bind, Except.bind, pure, Except.pure]

/-- A layer that can be read contributes its text, compiled by itself. -/
theorem content?_of_text {l : Layer} {text : Text} (h : l.text files = .ok text) :
    language.content? files l = (language.layer l.name text).map some := by
  cases l with
  | file path =>
    have hfile : files path = .ok text := h
    rw [content?, fileLayer?, hfile]
    rfl
  | snippet index text' =>
    obtain rfl := Except.ok.inj h
    rfl

/-- A default path that does not exist contributes nothing. -/
theorem content?_of_missing (h : files defaultPath = .error .notFound) :
    language.content? files (.file defaultPath) = .ok none := by
  rw [content?, fileLayer?, h]
  rfl

/-- The pass over layers that are all found compiles their texts one after the other. -/
theorem contents_eq_compileAll {ls : List Layer}
    (h : ∀ l ∈ ls, (∃ text, l.text files = .ok text) ∨
      l = .file defaultPath ∧ files defaultPath = .error .notFound) :
    language.contents files ls = language.compileAll (ls.filterMap (Layer.named? files)) := by
  induction ls with
  | nil => rfl
  | cons l ls ih =>
    obtain ⟨hl, hls⟩ := List.forall_mem_cons.mp h
    rw [contents, List.filterMap_cons, ih hls]
    rcases hl with ⟨text, htext⟩ | ⟨rfl, hmissing⟩
    · have hnamed : l.named? files = some (l.name, text) := by rw [Layer.named?, htext]; rfl
      rw [content?_of_text htext, hnamed]
      simp only [compileAll_cons]
      cases language.layer l.name text <;> rfl
    · have hnamed : (Layer.file defaultPath).named? files = none := by
        rw [Layer.named?, Layer.text, hmissing]
        rfl
      rw [content?_of_missing hmissing, hnamed]
      cases language.compileAll _ <;> rfl

/-- **Where all paths are found, the layers are the texts, each compiled by itself.** -/
theorem layers_eq_compileAll {paths : List Text} (snippets : List Text)
    (h : ∀ path ∈ paths, IsFound files path) :
    language.layers files paths snippets =
      language.compileAll (layerTexts files paths snippets) := by
  rw [layers_eq_contents, ← filterMap_named?_layersOf]
  apply contents_eq_compileAll
  intro l hl
  rcases List.mem_append.mp hl with hl | hl
  · obtain ⟨path, hpath, rfl⟩ := List.mem_map.mp hl
    rcases h path hpath with hread | ⟨rfl, hmissing⟩
    · exact Or.inl hread
    · exact Or.inr ⟨rfl, hmissing⟩
  · obtain ⟨i, hi, rfl⟩ := List.mem_mapIdx.mp hl
    exact Or.inl ⟨_, rfl⟩

/-- Layers that are all found are there exactly if each text is compiled. -/
theorem layers_eq_ok_iff {paths snippets : List Text} {cs : List language.Content}
    (h : ∀ path ∈ paths, IsFound files path) :
    language.layers files paths snippets = .ok cs ↔
      List.Forall₂ (fun named c => language.compile named.1 named.2 = .ok c)
        (layerTexts files paths snippets) cs := by
  rw [layers_eq_compileAll snippets h, compileAll_eq_ok_iff]

/-! ## What is made of layers -/

theorem settingsOf_of_data {content : language.Content} {data : language.Data}
    (h : language.validate content = .ok data) :
    language.settingsOf content = (language.decode data).mapError .undecodable := by
  rw [settingsOf, h]

theorem settingsOf_of_invalid {content : language.Content} {ps : List Problem}
    (h : language.validate content = .error ps) :
    language.settingsOf content = .error (.invalid ps) := by
  rw [settingsOf, h]

/-- A content has settings exactly if it determines data that describe them. -/
theorem settingsOf_eq_ok_iff {content : language.Content} {s : Settings} :
    language.settingsOf content = .ok s ↔
      ∃ data, language.validate content = .ok data ∧ language.decode data = .ok s := by
  cases hvalidate : language.validate content with
  | error ps => simp [settingsOf_of_invalid hvalidate]
  | ok data =>
    rw [settingsOf_of_data hvalidate]
    cases hdecode : language.decode data <;> simp [Except.mapError, hdecode]

/-- What is said of a content without settings holds problems. -/
theorem exists_problems_of_settingsOf {content : language.Content} {e : LoadError}
    (h : language.settingsOf content = .error e) : ∃ ps, e.problems? = some ps := by
  cases hvalidate : language.validate content with
  | error ps =>
    rw [settingsOf_of_invalid hvalidate] at h
    exact ⟨ps, Except.error.inj h ▸ rfl⟩
  | ok data =>
    rw [settingsOf_of_data hvalidate] at h
    cases hdecode : language.decode data with
    | error ps =>
      rw [hdecode] at h
      exact ⟨ps, Except.error.inj h ▸ rfl⟩
    | ok s =>
      rw [hdecode] at h
      cases h

/-- **Settings are loaded exactly if all layers are there and have these settings together.** -/
theorem load_eq_ok_iff {paths snippets : List Text} {s : Settings} :
    language.load files paths snippets = .ok s ↔
      ∃ cs, language.layers files paths snippets = .ok cs ∧
        language.settingsOf (language.unified cs) = .ok s := by
  rw [load]
  cases language.layers files paths snippets <;> simp

/-- A language with another way to decode. -/
abbrev decodedBy (language : Language)
    (decode : language.Data → Except (List Problem) Settings) : Language :=
  { language with decode := decode }

/-- Which layers there are does not depend on how they are decoded. -/
theorem layers_decodedBy (decode : language.Data → Except (List Problem) Settings) (files : Files)
    (paths snippets : List Text) :
    (language.decodedBy decode).layers files paths snippets =
      language.layers files paths snippets := by
  rw [layers_eq_contents, layers_eq_contents]
  generalize layersOf paths snippets = ls
  have hcontent (l : Layer) :
      (language.decodedBy decode).content? files l = language.content? files l := by
    cases l <;> rfl
  induction ls with
  | nil => rfl
  | cons l ls ih =>
    rw [contents, contents, hcontent, ih]
    cases language.content? files l <;> rfl

end Language

/-! ## Expressions -/

/-- The expressions of all layers but the schema, in order, up to the first layer that fails. -/
def layers (files : Files) (paths snippets : List Text) : Except LoadError (List Expr) :=
  (evaluating.layers files paths snippets).map List.flatten

/-- The settings of expressions on top of the schema. -/
def settingsOf (layers : List Expr) : Except LoadError Settings :=
  evaluating.settingsOf (Schema.source :: layers)

variable {files : Files} {paths snippets : List Text}

theorem unified_evaluating (contents : List (List Expr)) :
    evaluating.unified contents = Schema.source :: contents.flatten := by
  have hfold (init : List Expr) : contents.foldl (· ++ ·) init = init ++ contents.flatten := by
    induction contents generalizing init with
    | nil => rw [List.foldl_nil, List.flatten_nil, List.append_nil]
    | cons c cs ih => rw [List.foldl_cons, ih, List.flatten_cons, List.append_assoc]
  exact hfold [Schema.source]

/-- **What is loaded are the settings of the expressions of all layers.** -/
theorem load_eq (files : Files) (paths snippets : List Text) :
    load files paths snippets = (layers files paths snippets).bind settingsOf := by
  rw [load, Language.load, layers]
  cases evaluating.layers files paths snippets with
  | error e => rfl
  | ok contents => exact congrArg evaluating.settingsOf (unified_evaluating contents)

theorem load_of_layers {layers : List Expr} (h : Config.layers files paths snippets = .ok layers) :
    load files paths snippets = settingsOf layers := by
  rw [load_eq, h]
  rfl

/-- Settings that are loaded are those of some layers. -/
theorem exists_layers_of_load {s : Settings} (h : load files paths snippets = .ok s) :
    ∃ layers, Config.layers files paths snippets = .ok layers ∧ settingsOf layers = .ok s := by
  rw [load_eq] at h
  cases hlayers : Config.layers files paths snippets with
  | error e =>
    rw [hlayers] at h
    cases h
  | ok layers =>
    rw [hlayers] at h
    exact ⟨layers, rfl, h⟩

/-- A layer passes exactly if it can be read, nothing is wrong with its form, and it has a value. -/
theorem compile_eq_ok_iff {layer text : Text} {e : Expr} :
    compile layer text = .ok e ↔
      Source.read layer text = .ok e ∧ e.faults [] [] false = [] ∧
      (unify [e]).isFailed = false := by
  unfold compile
  cases Source.read layer text with
  | error ps => simp
  | ok e' =>
    dsimp only
    constructor
    · intro h
      split at h
      · next hfaults =>
        split at h
        · cases h
        · next hvalue =>
          obtain rfl := Except.ok.inj h
          refine ⟨rfl, hfaults, ?_⟩
          cases hunify : unify [e'] with
          | failed ps qs => exact absurd hunify (hvalue ps qs)
          | _ => rfl
      · cases h
    · rintro ⟨heq, hfaults, hvalue⟩
      obtain rfl := Except.ok.inj heq
      rw [hfaults]
      dsimp only
      split
      · next hfailed =>
        rw [hfailed] at hvalue
        cases hvalue
      · rfl

theorem compile_evaluating_eq_ok_iff {name text : Text} {c : List Expr} :
    evaluating.compile name text = .ok c ↔ ∃ e, compile name text = .ok e ∧ c = [e] := by
  change (compile name text).map ([·]) = .ok c ↔ _
  cases compile name text <;> simp [Except.map, eq_comm]

/-- The expressions of all layers were compiled. -/
theorem exists_compile_of_layers {layers : List Expr}
    (h : Config.layers files paths snippets = .ok layers) :
    ∀ e ∈ layers, ∃ name text, compile name text = .ok e := by
  rw [Config.layers] at h
  cases hcontents : evaluating.layers files paths snippets with
  | error e =>
    rw [hcontents] at h
    cases h
  | ok contents =>
    rw [hcontents] at h
    obtain rfl := Except.ok.inj h
    intro e he
    obtain ⟨c, hc, he⟩ := List.mem_flatten.mp he
    obtain ⟨name, text, hcompile⟩ := Language.exists_compile_of_layers hcontents c hc
    obtain ⟨e', he', rfl⟩ := compile_evaluating_eq_ok_iff.mp hcompile
    exact ⟨name, text, List.mem_singleton.mp he ▸ he'⟩

/-- **Where all paths are found, the expressions are those of the texts, each compiled by
itself.** -/
theorem layers_eq_ok_iff {es : List Expr} (h : ∀ path ∈ paths, IsFound files path) :
    layers files paths snippets = .ok es ↔
      List.Forall₂ (fun named e => compile named.1 named.2 = .ok e)
        (layerTexts files paths snippets) es := by
  have hmap : layers files paths snippets = .ok es ↔
      ∃ cs, evaluating.layers files paths snippets = .ok cs ∧ cs.flatten = es := by
    rw [layers]
    cases evaluating.layers files paths snippets <;> simp [Except.map]
  simp only [hmap, Language.layers_eq_ok_iff h]
  clear hmap
  generalize layerTexts files paths snippets = texts
  constructor
  · rintro ⟨cs, hcs, rfl⟩
    induction hcs with
    | nil => exact .nil
    | @cons named c texts cs hc _ ih =>
      obtain ⟨e, he, rfl⟩ := compile_evaluating_eq_ok_iff.mp hc
      exact .cons he ih
  · intro hes
    induction hes with
    | nil => exact ⟨[], .nil, rfl⟩
    | @cons named e texts es he _ ih =>
      obtain ⟨cs, hcs, hflat⟩ := ih
      exact ⟨[e] :: cs, .cons (compile_evaluating_eq_ok_iff.mpr ⟨e, he, rfl⟩) hcs,
        congrArg (e :: ·) hflat⟩

end Config
end RepeatedAddition
