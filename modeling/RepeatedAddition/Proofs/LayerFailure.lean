import Mathlib.Data.List.Basic
import RepeatedAddition.Proofs.Loading

/-!
# Layers that fail by themselves

Layers are read and compiled one after another before they are taken together, files first and then
snippets.  So there are two kinds of failure.  A layer can fail by itself: it cannot be read, or it
does not compile.  And layers that all pass can fail together.  Failures of the first kind come
first, whatever the layers would come to together, and among them the first layer decides.  This is
so in every language, whatever it takes for a layer and whatever it makes of layers together.

The file at the default path is the one exception: where it does not exist, there is no layer.

* `Language.Fails`: a layer fails by itself, with its error.
* `Language.contents_of_first`: the pass ends at the first layer that fails.
* `Language.fileLayers_without_default`: a default path that does not exist can be left out.
* `Language.load_fails_at_first`: the error of loading where some layer fails by itself.
-/

namespace RepeatedAddition
namespace Config
namespace Language

/-- A layer fails by itself: it cannot be read, other than that the default path does not exist, or
it does not compile. -/
inductive Fails (language : Language) (files : Files) : Layer → LoadError → Prop where
  | unreadable {path : Text} {fault : ReadFault} (hread : files path = .error fault)
      (hother : ¬(path = defaultPath ∧ fault = .notFound)) :
      Fails language files (.file path) (.unreadable path fault)
  | broken {l : Layer} {text : Text} {ps : List Problem} (htext : l.text files = .ok text)
      (hcompile : language.compile l.name text = .error ps) :
      Fails language files l (.broken l.name ps)

variable {language : Language} {files : Files} {l : Layer} {e : LoadError}

/-! ## One layer -/

/-- What is said of a layer that does not compile is said of that layer. -/
theorem layer_eq_error_iff {name text : Text} :
    language.layer name text = .error e ↔
      ∃ ps, language.compile name text = .error ps ∧ e = .broken name ps := by
  rw [layer]
  cases language.compile name text <;> simp [Except.mapError, eq_comm]

theorem fails_of_layer {text : Text} (htext : l.text files = .ok text)
    (h : language.layer l.name text = .error e) : language.Fails files l e := by
  obtain ⟨ps, hcompile, rfl⟩ := layer_eq_error_iff.mp h
  exact .broken htext hcompile

theorem map_some_eq_error_iff {x : Except LoadError language.Content} :
    x.map some = .error e ↔ x = .error e := by
  cases x <;> simp [Except.map]

/-- **A layer contributes nothing but its error exactly if it fails by itself.** -/
theorem fails_iff : language.Fails files l e ↔ language.content? files l = .error e := by
  constructor
  · intro h
    cases h with
    | @unreadable path fault hread hother =>
      rw [content?, fileLayer?, hread]
      exact if_neg (by simpa using hother)
    | @broken _ text ps htext hcompile =>
      rw [content?_of_text htext]
      exact map_some_eq_error_iff.mpr (layer_eq_error_iff.mpr ⟨ps, hcompile, rfl⟩)
  · intro h
    cases htext : l.text files with
    | ok text =>
      rw [content?_of_text htext] at h
      exact fails_of_layer htext (map_some_eq_error_iff.mp h)
    | error fault =>
      cases l with
      | snippet index text => cases htext
      | file path =>
        have hread : files path = .error fault := htext
        rw [content?, fileLayer?, hread] at h
        dsimp only at h
        split at h
        · cases h
        · next hother =>
          obtain rfl := Except.error.inj h
          exact .unreadable hread (by simpa using hother)

/-- An error that a layer has by itself depends on the text and the name of the layer only. -/
theorem Fails.of_text_eq {files' : Files} (h : language.Fails files l e)
    (htext : l.text files' = l.text files) : language.Fails files' l e := by
  cases h with
  | unreadable hread hother => exact .unreadable (htext.trans hread) hother
  | broken hread hcompile => exact .broken (htext.trans hread) hcompile

/-- **An error that a layer has by itself names the layer.** -/
theorem Fails.names (h : language.Fails files l e) :
    Text.lit "config: read " ++ l.name ++ Text.lit ": " <+: e.message ∨
      Text.lit "config: compile " ++ l.name ++ Text.lit ": " <+: e.message := by
  cases h with
  | unreadable hread hother => exact Or.inl (List.prefix_append _ _)
  | broken htext hcompile => exact Or.inr (List.prefix_append _ _)

/-! ## All layers -/

/-- **The pass ends at the first layer that fails by itself.** -/
theorem contents_of_first {before after : List Layer}
    (hbefore : ∀ b ∈ before, ∀ e', ¬language.Fails files b e') (h : language.Fails files l e) :
    language.contents files (before ++ l :: after) = .error e := by
  induction before with
  | nil => rw [List.nil_append, contents, fails_iff.mp h]
  | cons b before ih =>
    obtain ⟨hb, hrest⟩ := List.forall_mem_cons.mp hbefore
    rw [List.cons_append, contents, ih hrest]
    cases hcontent : language.content? files b with
    | error e' => exact absurd (fails_iff.mpr hcontent) (hb e')
    | ok content => rfl

/-- If some layer fails by itself, there is a first that does. -/
theorem exists_first {ls : List Layer} (h : ∃ l ∈ ls, ∃ e, language.Fails files l e) :
    ∃ before l after e, ls = before ++ l :: after ∧
      (∀ b ∈ before, ∀ e', ¬language.Fails files b e') ∧ language.Fails files l e := by
  induction ls with
  | nil =>
    obtain ⟨l, hl, -⟩ := h
    exact absurd hl List.not_mem_nil
  | cons first ls ih =>
    by_cases hfirst : ∃ e, language.Fails files first e
    · obtain ⟨e, he⟩ := hfirst
      exact ⟨[], first, ls, e, rfl, List.forall_mem_nil _, he⟩
    · obtain ⟨l, hl, e, he⟩ := h
      have hrest : l ∈ ls := by
        rcases List.mem_cons.mp hl with rfl | hrest
        · exact absurd ⟨e, he⟩ hfirst
        · exact hrest
      obtain ⟨before, l, after, e, rfl, hbefore, hfails⟩ := ih ⟨l, hrest, e, he⟩
      exact ⟨first :: before, l, after, e, rfl,
        List.forall_mem_cons.mpr ⟨not_exists.mp hfirst, hbefore⟩, hfails⟩

/-- **A pass that fails does so at a layer that fails by itself.** -/
theorem exists_fails_of_contents {ls : List Layer} (h : language.contents files ls = .error e) :
    ∃ l ∈ ls, language.Fails files l e := by
  induction ls with
  | nil => cases h
  | cons l ls ih =>
    rw [contents] at h
    cases hl : language.content? files l with
    | error e' =>
      rw [hl] at h
      obtain rfl := Except.error.inj h
      exact ⟨l, List.mem_cons_self, fails_iff.mpr hl⟩
    | ok content =>
      rw [hl] at h
      cases hrest : language.contents files ls with
      | error e' =>
        rw [hrest] at h
        obtain rfl := Except.error.inj h
        obtain ⟨l', hl', hfails⟩ := ih hrest
        exact ⟨l', List.mem_cons_of_mem l hl', hfails⟩
      | ok cs =>
        rw [hrest] at h
        cases h

/-- **A default path that does not exist can be left out.** -/
theorem fileLayers_without_default (h : files defaultPath = .error .notFound)
    (paths : List Text) :
    language.fileLayers files (paths.filter (· ≠ defaultPath)) =
      language.fileLayers files paths := by
  have hskipped : language.fileLayer? files defaultPath = .ok none := content?_of_missing h
  induction paths with
  | nil => rfl
  | cons path paths ih =>
    by_cases hpath : path = defaultPath
    · rw [List.filter_cons_of_neg (by simpa using hpath), ih, hpath, fileLayers, hskipped]
      cases language.fileLayers files paths <;> rfl
    · rw [List.filter_cons_of_pos (by simpa using hpath), fileLayers, fileLayers, ih]

/-! ## Loading -/

theorem load_of_first {paths snippets : List Text} {before after : List Layer}
    (hlayers : layersOf paths snippets = before ++ l :: after)
    (hbefore : ∀ b ∈ before, ∀ e', ¬language.Fails files b e') (h : language.Fails files l e) :
    language.load files paths snippets = .error e := by
  rw [load, layers_eq_contents, hlayers, contents_of_first hbefore h]

/-- **The first layer that fails by itself decides, in every language.**  A default path that does
not exist is as good as not asked for, and any other path that cannot be read makes loading fail.
If some layer fails by itself, loading fails with the error of the first such layer, which names it.
The error stays the same in every other load of other files, paths and snippets in which that layer
is the first to fail: it does not matter what comes behind it, nor what the layers before it would
come to together. -/
theorem load_fails_at_first (language : Language) (files : Files) (paths snippets : List Text) :
    (files defaultPath = .error .notFound →
      language.load files (paths.filter (· ≠ defaultPath)) snippets =
        language.load files paths snippets) ∧
    (∀ path ∈ paths, ∀ fault, files path = .error fault →
      ¬(path = defaultPath ∧ fault = .notFound) →
      ∃ e, language.load files paths snippets = .error e) ∧
    ((∃ l ∈ layersOf paths snippets, ∃ e, language.Fails files l e) →
      ∃ before l after e, layersOf paths snippets = before ++ l :: after ∧
        (∀ b ∈ before, ∀ e', ¬language.Fails files b e') ∧ language.Fails files l e ∧
        language.load files paths snippets = .error e ∧
        (Text.lit "config: read " ++ l.name ++ Text.lit ": " <+: e.message ∨
          Text.lit "config: compile " ++ l.name ++ Text.lit ": " <+: e.message) ∧
        ∀ files' paths' snippets' before' after', l.text files' = l.text files →
          layersOf paths' snippets' = before' ++ l :: after' →
          (∀ b ∈ before', ∀ e', ¬language.Fails files' b e') →
          language.load files' paths' snippets' = .error e) := by
  refine ⟨fun hmissing => ?_, fun path hpath fault hread hother => ?_, fun hfails => ?_⟩
  · rw [load, layers, fileLayers_without_default hmissing, load, layers]
  · have hmem : Layer.file path ∈ layersOf paths snippets :=
      List.mem_append_left _ (List.mem_map_of_mem hpath)
    obtain ⟨before, l, after, e, hlayers, hbefore, hfails⟩ :=
      exists_first ⟨_, hmem, _, Fails.unreadable hread hother⟩
    exact ⟨e, load_of_first hlayers hbefore hfails⟩
  · obtain ⟨before, l, after, e, hlayers, hbefore, hfails⟩ := exists_first hfails
    refine ⟨before, l, after, e, hlayers, hbefore, hfails, load_of_first hlayers hbefore hfails,
      hfails.names, ?_⟩
    intro files' paths' snippets' before' after' htext hlayers' hbefore'
    exact load_of_first hlayers' hbefore' (hfails.of_text_eq htext)

end Language
end Config
end RepeatedAddition
