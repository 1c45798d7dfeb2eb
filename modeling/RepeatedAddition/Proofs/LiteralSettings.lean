import RepeatedAddition.Proofs.LiteralLayer

/-!
# The settings of literals

Files and snippets that set settings to literals are loaded if no two of them set a setting to
different literals, whichever comes first, and if each literal is one that its setting allows.  What
is loaded then is what is set, with defaults for the rest.  Almost all else is found out when the
layers are validated; only a number of workers that is too large passes there, and is found out when
the settings are taken from the value.

* `Settings.Has`: settings have a literal for a setting.
* `AreLiterals.settingsOf_eq_ok_iff`, `AreLiterals.exists_undecodable_iff`: what layers of literals
  come to.
* `load_of_literal_layers`: when layers of literals are loaded, what they are loaded as, and how it
  fails otherwise.
-/

namespace RepeatedAddition

/-- Settings have a literal for a setting. -/
def Settings.Has (s : Settings) : Config.Setting → Config.Literal → Prop
  | .method, .text t => s.method = Text.lit t
  | .maxDepth, .whole n => s.maxDepth.toNat = n
  | .concurrency, .whole n => s.concurrency = n
  | .format, .text t => s.format = Text.lit t
  | _, _ => False

namespace Config

/-! ## What layers of literals come to -/

/-- The text of a literal, and nothing for a number. -/
def Literal.string : Literal → String
  | .text t => t
  | .whole _ => ""

/-- The number of a literal, and zero for a text. -/
def Literal.number : Literal → ℤ
  | .text _ => 0
  | .whole n => n

/-- The settings with a literal for each setting. -/
def settingsWith (value : Setting → Literal) (cs : List Case) : Settings := {
  method := Text.lit (value .method).string
  maxDepth := UInt64.ofNat (value .maxDepth).number.toNat
  concurrency := (value .concurrency).number
  format := Text.lit (value .format).string
  cases := cs }

/-- Settings can have any literal that is allowed. -/
theorem has_settingsWith {value : Setting → Literal} (cs : List Case) {setting : Setting}
    (h : setting.Allows (value setting)) : (settingsWith value cs).Has setting (value setting) := by
  cases setting with
  | method =>
    cases hv : value .method with
    | text t =>
      show Text.lit (value .method).string = Text.lit t
      rw [hv, Literal.string]
    | whole n =>
      rw [hv] at h
      cases h
  | maxDepth =>
    cases hv : value .maxDepth with
    | text t =>
      rw [hv] at h
      cases h
    | whole n =>
      rw [hv] at h
      obtain ⟨hlow, hhigh⟩ : 0 ≤ n ∧ n < 2 ^ 64 := h
      show ((UInt64.ofNat (value .maxDepth).number.toNat).toNat : ℤ) = n
      have hword : (UInt64.ofNat n.toNat).toNat = n.toNat :=
        UInt64.toNat_ofNat_of_lt' ((Int.toNat_lt hlow).mpr hhigh)
      rw [hv, Literal.number, hword, Int.toNat_of_nonneg hlow]
  | concurrency =>
    cases hv : value .concurrency with
    | text t =>
      rw [hv] at h
      cases h
    | whole n =>
      show (value .concurrency).number = n
      rw [hv, Literal.number]
  | format =>
    cases hv : value .format with
    | text t =>
      show Text.lit (value .format).string = Text.lit t
      rw [hv, Literal.string]
    | whole n =>
      rw [hv] at h
      cases h

/-- Where layers come to no settings, their value is complete and cannot be decoded, or it is
incomplete and invalid. -/
theorem settingsOf_eq_error {layers : List Expr} {e : LoadError}
    (h : settingsOf layers = .error e) :
    (unify (Schema.source :: layers)).IsComplete [] ∧ (∃ ps, e = .undecodable ps) ∨
      ¬(unify (Schema.source :: layers)).IsComplete [] ∧ ∃ ps, e = .invalid ps := by
  rcases validate_cases (Schema.source :: layers) with
    ⟨hcomplete, hvalid⟩ | ⟨hgaps, ps, hinvalid⟩
  · have hdecoded : settingsOf layers =
        (decode (unify (Schema.source :: layers))).mapError .undecodable :=
      Language.settingsOf_of_data hvalid
    rw [hdecoded] at h
    refine Or.inl ⟨hcomplete, ?_⟩
    cases hdecode : decode (unify (Schema.source :: layers)) with
    | ok s =>
      rw [hdecode] at h
      cases h
    | error ps =>
      rw [hdecode] at h
      exact ⟨ps, (Except.error.inj h).symm⟩
  · have herror : settingsOf layers = .error (.invalid ps) :=
      Language.settingsOf_of_invalid hinvalid
    exact Or.inr ⟨hgaps, ps, Except.error.inj (h.symm.trans herror)⟩

namespace AreLiterals

variable {layers : List Expr} {given : List Assignment} (h : AreLiterals layers given)
include h

/-- **What layers of literals come to.**  Each setting is what it becomes, if that is allowed. -/
theorem settingsOf_eq_ok_iff (s : Settings) :
    settingsOf layers = .ok s ↔
      (∀ setting : Setting, ∃ v, setting.Allows v ∧ Becomes given setting v ∧ s.Has setting v) ∧
      s.cases = Schema.defaultCases := by
  have hword (w : UInt64) : (Literal.whole w.toNat).atom = word w :=
    congrArg Atom.int (Decimal.ofInt_natCast w.toNat)
  rw [settingsOf_eq_ok_iff_areSaidBy h.plain]
  constructor
  · intro hs
    refine ⟨fun setting => ?_, h.casesOf_iff.mp hs.cases⟩
    cases setting with
    | method =>
      obtain ⟨t, hchosen, ht⟩ := hs.method
      obtain ⟨hpasses, hbecomes⟩ := (h.chosen_atom_iff (s := .method) (v := .text t)).mp hchosen
      exact ⟨.text t, (Setting.passes_iff_allows (by decide) _).mp hpasses, hbecomes, ht⟩
    | maxDepth =>
      obtain ⟨hpasses, hbecomes⟩ :=
        (h.chosen_atom_iff (s := .maxDepth) (v := .whole s.maxDepth.toNat)).mp
        (by rw [hword s.maxDepth]; exact hs.maxDepth)
      exact ⟨.whole s.maxDepth.toNat, (Setting.passes_iff_allows (by decide) _).mp hpasses,
        hbecomes, rfl⟩
    | concurrency =>
      obtain ⟨hchosen, hsmall⟩ := hs.concurrency
      obtain ⟨hpasses, hbecomes⟩ :=
        (h.chosen_atom_iff (s := .concurrency) (v := .whole s.concurrency)).mp hchosen
      refine ⟨.whole s.concurrency, hpasses.resolve_right fun hexcess => ?_, hbecomes, rfl⟩
      have hlarge : 2 ^ 63 ≤ s.concurrency := hexcess
      omega
    | format =>
      obtain ⟨t, hchosen, ht⟩ := hs.format
      obtain ⟨hpasses, hbecomes⟩ := (h.chosen_atom_iff (s := .format) (v := .text t)).mp hchosen
      exact ⟨.text t, (Setting.passes_iff_allows (by decide) _).mp hpasses, hbecomes, ht⟩
  · rintro ⟨hall, hcases⟩
    have hchosen {setting : Setting} {v : Literal} (hallows : setting.Allows v)
        (hbecomes : Becomes given setting v) :=
      h.chosen_atom_iff.mpr ⟨Or.inl hallows, hbecomes⟩
    exact {
      method := by
        obtain ⟨v, hallows, hbecomes, hhas⟩ := hall .method
        cases v with
        | text t => exact ⟨t, hchosen hallows hbecomes, hhas⟩
        | whole n => cases hallows
      maxDepth := by
        obtain ⟨v, hallows, hbecomes, hhas⟩ := hall .maxDepth
        cases v with
        | text t => cases hallows
        | whole n =>
          obtain rfl : (s.maxDepth.toNat : ℤ) = n := hhas
          rw [← hword s.maxDepth]
          exact hchosen hallows hbecomes
      concurrency := by
        obtain ⟨v, hallows, hbecomes, hhas⟩ := hall .concurrency
        cases v with
        | text t => cases hallows
        | whole n =>
          obtain rfl : s.concurrency = n := hhas
          have hlimits : 1 ≤ s.concurrency ∧ s.concurrency < 2 ^ 63 := hallows
          exact ⟨hchosen hallows hbecomes, by omega⟩
      format := by
        obtain ⟨v, hallows, hbecomes, hhas⟩ := hall .format
        cases v with
        | text t => exact ⟨t, hchosen hallows hbecomes, hhas⟩
        | whole n => cases hallows
      cases := h.casesOf_iff.mpr hcases
      others := by
        intro name hname hsaid
        refine absurd (h.layersSay_eq_empty fun setting heq => hname ?_) hsaid.ne_empty
        exact heq ▸ setting.name_mem_settingNames }

/-- Layers of literals come to settings exactly if they agree and what they set is allowed. -/
theorem exists_settingsOf_eq_ok_iff :
    (∃ s, settingsOf layers = .ok s) ↔ Agree given ∧ ∀ a ∈ given, a.1.Allows a.2 := by
  rw [← forall_exists_becomes_iff Setting.allows_otherwise]
  constructor
  · rintro ⟨s, hs⟩ setting
    obtain ⟨v, hallows, hbecomes, -⟩ := ((h.settingsOf_eq_ok_iff s).mp hs).1 setting
    exact ⟨v, hallows, hbecomes⟩
  · intro hall
    choose value hallows hbecomes using hall
    refine ⟨settingsWith value Schema.defaultCases,
      (h.settingsOf_eq_ok_iff _).mpr ⟨fun setting => ?_, rfl⟩⟩
    exact ⟨value setting, hallows setting, hbecomes setting, has_settingsWith _ (hallows setting)⟩

/-- The settings of layers of literals have what is set, and the defaults for what is not. -/
theorem has_of_settingsOf_eq_ok {s : Settings} (hs : settingsOf layers = .ok s) :
    (∀ a ∈ given, s.Has a.1 a.2) ∧
      (∀ setting : Setting, (∀ v, (setting, v) ∉ given) → s.Has setting setting.otherwise) ∧
      s.cases = Schema.defaultCases := by
  obtain ⟨hall, hcases⟩ := (h.settingsOf_eq_ok_iff s).mp hs
  refine ⟨?_, fun setting hunset => ?_, hcases⟩
  · rintro ⟨setting, v⟩ hv
    obtain ⟨w, -, hbecomes, hhas⟩ := hall setting
    rwa [← hbecomes.set v hv] at hhas
  · obtain ⟨w, -, hbecomes, hhas⟩ := hall setting
    rwa [hbecomes.unset hunset] at hhas

/-- **What layers of literals set cannot be taken exactly if all that is wrong with it is an excess
of workers.** -/
theorem exists_undecodable_iff :
    (∃ ps, settingsOf layers = .error (.undecodable ps)) ↔
      Agree given ∧ (∃ a ∈ given, a.1.IsExcess a.2) ∧ ∀ a ∈ given, a.1.Allows a.2 ∨
      a.1.IsExcess a.2 := by
  constructor
  · rintro ⟨ps, herror⟩
    have hcomplete : (unify (Schema.source :: layers)).IsComplete [] := by
      rcases settingsOf_eq_error herror with ⟨hcomplete, -⟩ | ⟨-, qs, heq⟩
      · exact hcomplete
      · cases heq
    obtain ⟨hagree, hpasses⟩ := h.isComplete_iff.mp hcomplete
    refine ⟨hagree, ?_, hpasses⟩
    by_contra hnone
    have hallows : ∀ a ∈ given, a.1.Allows a.2 := by
      intro a ha
      exact (hpasses a ha).resolve_right fun hexcess => hnone ⟨a, ha, hexcess⟩
    obtain ⟨s, hs⟩ := h.exists_settingsOf_eq_ok_iff.mpr ⟨hagree, hallows⟩
    cases herror.symm.trans hs
  · rintro ⟨hagree, ⟨a, ha, hexcess⟩, hpasses⟩
    cases hsettings : settingsOf layers with
    | ok s =>
      have hallows := (h.exists_settingsOf_eq_ok_iff.mp ⟨s, hsettings⟩).2 a ha
      exact absurd hallows (Setting.not_allows_of_isExcess hexcess)
    | error e =>
      rcases settingsOf_eq_error hsettings with ⟨-, ps, rfl⟩ | ⟨hgaps, -⟩
      · exact ⟨ps, rfl⟩
      · exact absurd (h.isComplete_iff.mpr ⟨hagree, hpasses⟩) hgaps

end AreLiterals

/-! ## Loading layers of literals -/

/-- What a text sets, if it is a layer of literals. -/
def assignments? (layer text : Text) : Option (List Assignment) :=
  match Source.read layer text with
  | .ok e => e.assignments?
  | .error _ => none

section Literals

variable {texts : List (Text × Text)} {givens : List (List Assignment)}

theorem exists_read_of_assignments? {layer text : Text} {given : List Assignment}
    (h : assignments? layer text = some given) :
    ∃ e, Source.read layer text = .ok e ∧ e.assignments? = some given := by
  rw [assignments?] at h
  split at h
  · next e hread => exact ⟨e, hread, h⟩
  · cases h

/-- A text of literals passes by itself exactly if it agrees with itself. -/
theorem exists_compile_eq_ok_iff {layer text : Text} {given : List Assignment}
    (h : assignments? layer text = some given) :
    (∃ e, compile layer text = .ok e) ↔ Agree given := by
  obtain ⟨e, hread, he⟩ := exists_read_of_assignments? h
  have hliterals : AreLiterals [e] given := by
    have hone := areLiterals_of_forall₂ (.cons he .nil)
    rwa [List.flatten_singleton] at hone
  have hfaults := Expr.faults_of_isPlainLayer (Expr.isPlainLayer_of_assignments? he)
  rw [← hliterals.isFailed_unify_iff]
  constructor
  · rintro ⟨e', hcompile⟩
    obtain ⟨hread', -, hvalue⟩ := compile_eq_ok_iff.mp hcompile
    obtain rfl := Except.ok.inj (hread'.symm.trans hread)
    exact hvalue
  · exact fun hvalue => ⟨e, compile_eq_ok_iff.mpr ⟨hread, hfaults, hvalue⟩⟩

variable
  (h : List.Forall₂ (fun layer given => assignments? layer.1 layer.2 = some given) texts givens)
include h

/-- Texts of literals are compiled exactly if each of them agrees with itself. -/
theorem exists_forall₂_compile_iff :
    (∃ es, List.Forall₂ (fun named e => compile named.1 named.2 = .ok e) texts es) ↔
      ∀ given ∈ givens, Agree given := by
  induction h with
  | nil => exact iff_of_true ⟨[], .nil⟩ (List.forall_mem_nil _)
  | cons hfirst _ ih =>
    rw [List.forall_mem_cons, ← ih, ← exists_compile_eq_ok_iff hfirst]
    constructor
    · rintro ⟨_, hall⟩
      cases hall with
      | cons hcompile hrest => exact ⟨⟨_, hcompile⟩, ⟨_, hrest⟩⟩
    · rintro ⟨⟨e, hcompile⟩, es, hrest⟩
      exact ⟨e :: es, .cons hcompile hrest⟩

/-- Texts of literals that are compiled are layers of literals. -/
theorem areLiterals_of_compile {es : List Expr}
    (hcompile : List.Forall₂ (fun named e => compile named.1 named.2 = .ok e) texts es) :
    AreLiterals es givens.flatten := by
  refine areLiterals_of_forall₂ ?_
  induction hcompile generalizing givens with
  | nil =>
    cases h
    exact .nil
  | cons hfirst _ ih =>
    cases h with
    | cons hgiven hrest =>
      obtain ⟨e, hread, he⟩ := exists_read_of_assignments? hgiven
      obtain rfl := Except.ok.inj ((compile_eq_ok_iff.mp hfirst).1.symm.trans hread)
      exact .cons he (ih hrest)

end Literals

theorem Agree.of_mem_flatten {givens : List (List Assignment)} (h : Agree givens.flatten)
    {given : List Assignment} (hgiven : given ∈ givens) : Agree given := fun a ha b hb =>
  h a (List.mem_flatten.mpr ⟨given, hgiven, ha⟩) b (List.mem_flatten.mpr ⟨given, hgiven, hb⟩)

/-- **Layers of literals never override each other.**  They are loaded exactly if they agree and
what they set is allowed, and then as what they set, with defaults for the rest.  If each of them
agrees with itself, it is their validation that fails otherwise, unless all that is wrong is an
excess of workers, which cannot be taken from the value. -/
theorem load_of_literal_layers {files : Files} {paths snippets : List Text}
    {givens : List (List Assignment)} (hfound : ∀ path ∈ paths, IsFound files path)
    (hgivens : List.Forall₂ (fun layer given => assignments? layer.1 layer.2 = some given)
      (layerTexts files paths snippets) givens) :
    ((∃ s, load files paths snippets = .ok s) ↔ Agree givens.flatten ∧ ∀ a ∈ givens.flatten,
      a.1.Allows a.2) ∧
      (∀ s, load files paths snippets = .ok s →
        (∀ a ∈ givens.flatten, s.Has a.1 a.2) ∧
        (∀ setting : Setting, (∀ v, (setting, v) ∉ givens.flatten) →
          s.Has setting setting.otherwise) ∧
        s.cases = Schema.defaultCases) ∧
      ((∃ es, layers files paths snippets = .ok es) ↔ ∀ given ∈ givens, Agree given) ∧
      ((∃ es, layers files paths snippets = .ok es) →
        ((∃ ps, load files paths snippets = .error (.undecodable ps)) ↔
          Agree givens.flatten ∧ (∃ a ∈ givens.flatten, a.1.IsExcess a.2) ∧
            ∀ a ∈ givens.flatten, a.1.Allows a.2 ∨ a.1.IsExcess a.2) ∧
        ∀ e, load files paths snippets = .error e → (∃ ps, e = .undecodable ps) ∨
        ∃ ps, e = .invalid ps) := by
  have hcompiled : (∃ es, layers files paths snippets = .ok es) ↔
      ∀ given ∈ givens, Agree given := by
    simp only [layers_eq_ok_iff hfound]
    exact exists_forall₂_compile_iff hgivens
  -- what loading gives is what the layers come to, once they are compiled
  have hload {es : List Expr} (hes : layers files paths snippets = .ok es) :
      load files paths snippets = settingsOf es ∧ AreLiterals es givens.flatten :=
    ⟨load_of_layers hes, areLiterals_of_compile hgivens ((layers_eq_ok_iff hfound).mp hes)⟩
  have hexists {s : Settings} (hs : load files paths snippets = .ok s) :
      ∃ es, layers files paths snippets = .ok es :=
    (exists_layers_of_load hs).imp fun es hes => hes.1
  refine ⟨⟨?_, ?_⟩, ?_, hcompiled, ?_⟩
  · rintro ⟨s, hs⟩
    obtain ⟨es, hes⟩ := hexists hs
    obtain ⟨heq, hliterals⟩ := hload hes
    exact hliterals.exists_settingsOf_eq_ok_iff.mp ⟨s, heq ▸ hs⟩
  · rintro ⟨hagree, hallows⟩
    obtain ⟨es, hes⟩ := hcompiled.mpr fun given hgiven => hagree.of_mem_flatten hgiven
    obtain ⟨heq, hliterals⟩ := hload hes
    rw [heq]
    exact hliterals.exists_settingsOf_eq_ok_iff.mpr ⟨hagree, hallows⟩
  · intro s hs
    obtain ⟨es, hes⟩ := hexists hs
    obtain ⟨heq, hliterals⟩ := hload hes
    exact hliterals.has_of_settingsOf_eq_ok (heq ▸ hs)
  · rintro ⟨es, hes⟩
    obtain ⟨heq, hliterals⟩ := hload hes
    rw [heq]
    refine ⟨hliterals.exists_undecodable_iff, fun e he => ?_⟩
    exact (settingsOf_eq_error he).imp (fun h => h.2) fun h => h.2

/-- A file that sets the numbers. -/
def numbersFile : Files := fun path =>
  if path = Text.lit "numbers.cue" then
    .ok (Text.lit "maxDepth: +0x10\nconcurrency: 9223372036854775807\n")
  else .error .notFound

/-- Snippets that set the method, and repeat it and a number. -/
def repeatingSnippets : List Text :=
  [Text.lit "\x7bmethod: \"iterative\"\x7d", Text.lit "maxDepth: 16, \"method\": \"iterative\""]

/-- Snippets that set the method to two names. -/
def opposingSnippets : List Text :=
  [Text.lit "method: \"iterative\"", Text.lit "method: \"recursive\""]

/-- A file and snippets that repeat each other are loaded; a snippet that sets another method does
not win. -/
theorem load_of_repeating_and_opposing :
    (∃ s, load numbersFile [defaultPath, Text.lit "numbers.cue"] repeatingSnippets = .ok s ∧
      s.Has .method (.text "iterative") ∧ s.Has .maxDepth (.whole 16) ∧
      s.Has .concurrency (.whole (2 ^ 63 - 1)) ∧
      s.Has .format (.text "markdown") ∧ s.cases = Schema.defaultCases) ∧
    ∃ ps, load numbersFile [defaultPath, Text.lit "numbers.cue"] opposingSnippets =
      .error (.invalid ps) := by
  have hfound : ∀ path ∈ [defaultPath, Text.lit "numbers.cue"], IsFound numbersFile path := by
    refine List.forall_mem_cons.mpr ⟨Or.inr ⟨rfl, by decide +kernel⟩,
      List.forall_mem_singleton.mpr (Or.inl ⟨_, rfl⟩)⟩
  have hrepeating : List.Forall₂ (fun layer given => assignments? layer.1 layer.2 = some given)
      (layerTexts numbersFile [defaultPath, Text.lit "numbers.cue"] repeatingSnippets)
      [[(.maxDepth, .whole 16), (.concurrency, .whole (2 ^ 63 - 1))],
        [(.method, .text "iterative")],
        [(.maxDepth, .whole 16), (.method, .text "iterative")]] := by
    decide +kernel
  have hopposing : List.Forall₂ (fun layer given => assignments? layer.1 layer.2 = some given)
      (layerTexts numbersFile [defaultPath, Text.lit "numbers.cue"] opposingSnippets)
      [[(.maxDepth, .whole 16), (.concurrency, .whole (2 ^ 63 - 1))],
        [(.method, .text "iterative")], [(.method, .text "recursive")]] := by
    decide +kernel
  constructor
  · obtain ⟨hloads, hsettings, -⟩ := load_of_literal_layers hfound hrepeating
    obtain ⟨s, hs⟩ := hloads.mpr (by decide)
    obtain ⟨hset, hunset, hcases⟩ := hsettings s hs
    refine ⟨s, hs, hset (.method, .text "iterative") (by decide),
      hset (.maxDepth, .whole 16) (by decide), hset (.concurrency, .whole (2 ^ 63 - 1)) (by decide),
      hunset .format ?_, hcases⟩
    intro v
    simp
  · obtain ⟨hloads, -, hcompiled, hfails⟩ := load_of_literal_layers hfound hopposing
    obtain ⟨hexcess, hstages⟩ := hfails (hcompiled.mpr (by decide))
    cases hload : load numbersFile [defaultPath, Text.lit "numbers.cue"] opposingSnippets with
    | ok s => exact absurd (hloads.mp ⟨s, hload⟩).1 (by decide)
    | error e =>
      rcases hstages e hload with ⟨ps, rfl⟩ | ⟨ps, rfl⟩
      · exact absurd (hexcess.mp ⟨ps, hload⟩).1 (by decide)
      · exact ⟨ps, rfl⟩

end Config
end RepeatedAddition
