import RepeatedAddition.Proofs.LayerName
import RepeatedAddition.Proofs.LiteralSettings
import RepeatedAddition.Proofs.Marked

/-!
# The settings that layers admit

A layer that gives ranges for settings admits the settings that lie in all of them.  Ranges are made
of literals, predeclared types, limits and choices between ranges, of which some may be marked.
What such layers admit and prefer together is what their specification says: the settings that all
of them admit, as far as these are preferred.  There are settings exactly if one is left.

* `Range`: ranges, without the places where they are written.
* `Range.admitted`: the literals that a range admits, with its preferences.
* `admittedBy`, `Schema.admitted`: the settings that a layer and the schema admit.
* `admitting`: the language of such layers.
* `specification_admitting`: it follows its specification.
* `resolved_schema_unify`: a setting is chosen by itself.
-/

namespace RepeatedAddition
namespace Config

/-! ## Ranges -/

/-- A range of literals. -/
inductive Range where
  | literal (v : Literal)
  | type (name : String)
  | limit (bound : Bound) (n : ℤ)
  | group (r : Range)
  | meet (l r : Range)
  | either (l r : Range)
  | preferred (r : Range)
  deriving DecidableEq, Repr

/-- The range that an expression gives, as an alternative of a choice or not: only alternatives can
be marked. -/
def Expr.range? (alternative : Bool) : Expr → Option Range
  | .name _ n => if (Predeclared.find? n).isSome then some (.type n) else none
  | .limit _ bound e =>
    match e.literal? with
    | some (.whole n) => some (.limit bound n)
    | _ => none
  | .group _ e => (range? false e).map .group
  | .meet l r =>
    match range? false l, range? false r with
    | some a, some b => some (.meet a b)
    | _, _ => none
  | .either l r =>
    match range? true l, range? true r with
    | some a, some b => some (.either a b)
    | _, _ => none
  | .preferred _ e => if alternative then (range? false e).map .preferred else none
  | e => e.literal?.map .literal

namespace Range

/-- Whether an alternative of a choice is marked. -/
def isMarked : Range → Bool
  | .either l r => isMarked l || isMarked r
  | .preferred _ => true
  | _ => false

/-- The literals that a range admits, with its preferences.  Next to a marked alternative the
preferences of one without a mark do not count. -/
def admitted (beside : Bool) : Range → Marked Literal
  | .literal v => .plain {v}
  | .type n => .plain {v | ∃ t ∈ Predeclared.find? n, (Demand.type t).MetBy v.atom}
  | .limit bound n => .plain {v | (Demand.limit bound (Literal.whole n).atom).MetBy v.atom}
  | .group r => bare beside (admitted false r)
  | .meet l r => bare beside ((admitted false l).unify (admitted false r))
  | .either l r =>
    (admitted (beside || l.isMarked || r.isMarked) l).either
      (admitted (beside || l.isMarked || r.isMarked) r)
  | .preferred r => (admitted false r).preferred
where
  /-- A value without its preferences, if these do not count. -/
  bare (beside : Bool) (a : Marked Literal) : Marked Literal := if beside then .plain a.value else a

end Range

/-! ## Layers -/

/-- The range that a declaration gives for a setting. -/
def Decl.range? : Decl → Option (Setting × Range)
  | .field (.regular label) _ false e =>
    match Setting.named? label, e.range? false with
    | some setting, some r => some (setting, r)
    | _, _ => none
  | _ => none

/-- The ranges that a layer gives for settings. -/
def Expr.ranges? : Expr → Option (List (Setting × Range))
  | .struct _ ds => ds.mapM Decl.range?
  | _ => none

/-- The settings with one of some literals. -/
def Setting.holding (setting : Setting) (vs : Set Literal) : Set Settings :=
  {s | ∃ v ∈ vs, s.Has setting v}

/-- The settings that lie in ranges. -/
def admittedBy : List (Setting × Range) → Marked Settings
  | [] => .plain Set.univ
  | (setting, r) :: ranges => ((r.admitted false).map setting.holding).unify (admittedBy ranges)

/-- The literals that the schema admits for a setting, preferably its default. -/
def Setting.admitted (setting : Setting) : Marked Literal :=
  ⟨{v | setting.Passes v}, {{setting.otherwise}}⟩

/-- The settings that the schema admits. -/
def Schema.admitted : Marked Settings where
  value := {s | ∀ setting : Setting, s ∈ setting.holding setting.admitted.value}
  marks := insert {s | s.cases = Schema.defaultCases}
    (Set.range fun setting : Setting => setting.holding {setting.otherwise})

open Classical in
/-- The language of layers that give ranges for settings. -/
noncomputable def admitting : Language where
  Content := Marked Settings
  Data := Settings
  schema := Schema.admitted
  compile name text :=
    match Source.read name text with
    | .error ps => .error ps
    | .ok e => (e.ranges?.map admittedBy).elim (.error []) .ok
  unify := Marked.unify
  validate a := if h : ∃ s, a.resolved = {s} then .ok h.choose else .error []
  decode s := if s.concurrency < 2 ^ 63 then .ok s else .error []

/-! ## Their specification -/

theorem Expr.literal?_unnamed (e : Expr) : e.unnamed.literal? = e.literal? := by
  cases e with
  | literal p a => cases a <;> rfl
  | signed p sign e =>
    cases e with
    | literal q a => cases a <;> rfl
    | _ => rfl
  | _ => rfl

theorem Expr.range?_unnamed (alternative : Bool) (e : Expr) :
    e.unnamed.range? alternative = e.range? alternative := by
  match e with
  | .literal _ _ | .faulty _ _ | .top _ | .bottom _ | .name _ _ | .select _ _ _ | .signed _ _ _
  | .arithmetic _ _ _ | .struct _ _ | .list _ _ _ =>
    first
    | rfl
    | exact congrArg (Option.map Range.literal) (Expr.literal?_unnamed _)
  | .limit p bound e => simp only [Expr.unnamed, range?, Expr.literal?_unnamed]
  | .group p e => simp only [Expr.unnamed, range?, range?_unnamed false e]
  | .preferred p e => simp only [Expr.unnamed, range?, range?_unnamed false e]
  | .meet l r => simp only [Expr.unnamed, range?, range?_unnamed false l, range?_unnamed false r]
  | .either l r => simp only [Expr.unnamed, range?, range?_unnamed true l, range?_unnamed true r]
termination_by structural e

theorem Decl.range?_unnamed (d : Decl) : d.unnamed.range? = d.range? := by
  cases d with
  | field l bindable optional e =>
    cases l <;> cases optional <;> simp only [Decl.unnamed, range?, Expr.range?_unnamed]
  | _ => rfl

theorem Expr.ranges?_unnamed (e : Expr) : e.unnamed.ranges? = e.ranges? := by
  cases e with
  | struct p ds =>
    rw [Expr.unnamed, ranges?, ranges?, unnamedDecls_eq, List.mapM_map]
    exact congrArg ds.mapM (funext Decl.range?_unnamed)
  | _ => rfl

theorem compile_admitting_eq_ok_iff {name text : Text} {a : Marked Settings} :
    admitting.compile name text = .ok a ↔
      ∃ ranges, (Source.read [] text).toOption.bind Expr.ranges? = some ranges ∧
        admittedBy ranges = a := by
  rw [Source.toOption_read_unnamed name]
  simp only [admitting]
  cases Source.read name text with
  | error ps => simp [Except.toOption]
  | ok e =>
    simp only [Except.toOption, Option.map_some, Option.bind_some, Expr.ranges?_unnamed]
    cases e.ranges? <;> simp

theorem settingsOf_admitting_iff (a : Marked Settings) (s : Settings) :
    admitting.settingsOf a = .ok s ↔ a.resolved = {s} ∧ s.concurrency < 2 ^ 63 := by
  have hvalidate (t : Settings) : admitting.validate a = .ok t ↔ a.resolved = {t} := by
    simp only [admitting]
    split
    · next h =>
      have hchosen := h.choose_spec
      rw [Except.ok.injEq]
      exact ⟨fun ht => ht ▸ hchosen, fun ht => Set.singleton_injective (hchosen.symm.trans ht)⟩
    · next h => exact iff_of_false nofun fun ht => h ⟨t, ht⟩
  have hdecode (t : Settings) : admitting.decode t = .ok s ↔ t = s ∧ s.concurrency < 2 ^ 63 := by
    simp only [admitting]
    split
    · next h =>
      rw [Except.ok.injEq]
      exact ⟨fun ht => ⟨ht, ht ▸ h⟩, fun ht => ht.1⟩
    · next h => exact iff_of_false nofun fun ht => h (ht.1 ▸ ht.2)
  refine Language.settingsOf_eq_ok_iff.trans ⟨?_, ?_⟩
  · rintro ⟨t, ht, hs⟩
    obtain ⟨rfl, hlt⟩ := (hdecode t).mp hs
    exact ⟨(hvalidate t).mp ht, hlt⟩
  · rintro ⟨hs, hlt⟩
    exact ⟨s, (hvalidate s).mpr hs, (hdecode s).mpr ⟨rfl, hlt⟩⟩

/-- **The language of layers that give ranges follows its specification.** -/
noncomputable def specification_admitting : admitting.Specification where
  Datum := Settings
  meaning := id
  meaning_unify _ _ := rfl
  exists_compile h name' := by
    obtain ⟨ranges, hranges, rfl⟩ := compile_admitting_eq_ok_iff.mp h
    exact ⟨_, compile_admitting_eq_ok_iff.mpr ⟨ranges, hranges, rfl⟩, rfl⟩
  Describes left s := left = {s} ∧ s.concurrency < 2 ^ 63
  settingsOf_iff := settingsOf_admitting_iff

/-! ## A setting by itself -/

theorem lit_injective {s t : String} (h : Text.lit s = Text.lit t) : s = t :=
  String.toByteArray_inj.mp (ByteArray.ext (Array.toList_inj.mp h))

/-- Settings have one literal for each setting. -/
theorem has_unique {s : Settings} {setting : Setting} {v w : Literal} (hv : s.Has setting v)
    (hw : s.Has setting w) : v = w := by
  cases setting <;> cases v <;> cases w <;> first
    | exact False.elim hv
    | exact False.elim hw
    | exact congrArg Literal.text (lit_injective (Eq.trans (Eq.symm hv) hw))
    | exact congrArg Literal.whole (Eq.trans (Eq.symm hv) hw)

/-- Settings with the same literals and the same cases are the same. -/
theorem eq_of_has {s t : Settings} (h : ∀ setting : Setting, ∃ v, s.Has setting v ∧ t.Has setting v)
    (hcases : s.cases = t.cases) : s = t := by
  have hmethod : s.method = t.method := by
    obtain ⟨v, hs, ht⟩ := h .method
    cases v with
    | text => exact Eq.trans hs (Eq.symm ht)
    | whole => cases hs
  have hmaxDepth : s.maxDepth = t.maxDepth := by
    obtain ⟨v, hs, ht⟩ := h .maxDepth
    cases v with
    | text => cases hs
    | whole => exact UInt64.toNat_inj.mp (Int.ofNat_inj.mp (Eq.trans hs (Eq.symm ht)))
  have hconcurrency : s.concurrency = t.concurrency := by
    obtain ⟨v, hs, ht⟩ := h .concurrency
    cases v with
    | text => cases hs
    | whole => exact Eq.trans hs (Eq.symm ht)
  have hformat : s.format = t.format := by
    obtain ⟨v, hs, ht⟩ := h .format
    cases v with
    | text => exact Eq.trans hs (Eq.symm ht)
    | whole => cases hs
  cases s
  cases t
  simp_all

theorem mem_holding_iff {s : Settings} {setting : Setting} {v : Literal} (h : s.Has setting v)
    {vs : Set Literal} : s ∈ setting.holding vs ↔ v ∈ vs := by
  constructor
  · rintro ⟨w, hw, hs⟩
    exact has_unique hs h ▸ hw
  · exact fun hv => ⟨v, hv, h⟩

/-- Ranges for one setting say together what they say together of the setting. -/
theorem map_holding_unify (setting : Setting) (a b : Marked Literal) :
    (a.unify b).map setting.holding = (a.map setting.holding).unify (b.map setting.holding) := by
  refine Marked.ext (Set.ext fun s => ?_) (Set.image_union _ _ _)
  constructor
  · rintro ⟨v, ⟨ha, hb⟩, hv⟩
    exact ⟨⟨v, ha, hv⟩, v, hb, hv⟩
  · rintro ⟨⟨v, ha, hv⟩, hb⟩
    exact ⟨v, ⟨ha, (mem_holding_iff hv).mp hb⟩, hv⟩

/-- The defaults are allowed, also with an allowed literal for one setting. -/
theorem allows_update {setting : Setting} {v : Literal} (h : setting.Allows v) (other : Setting) :
    other.Allows (Function.update Setting.otherwise setting v other) := by
  by_cases hother : other = setting
  · rw [hother, Function.update_self]
    exact h
  · rw [Function.update_of_ne hother]
    exact other.allows_otherwise

section Alone

variable {setting : Setting} {m : Marked Literal}

/-- What settings have for a setting is admitted for it, by the schema and by what a layer says. -/
theorem mem_value_of_schema_unify {s : Settings} {v : Literal}
    (hs : s ∈ (Schema.admitted.unify (m.map setting.holding)).value) (hv : s.Has setting v) :
    v ∈ (setting.admitted.unify m).value :=
  ⟨(mem_holding_iff hv).mp (hs.1 setting), (mem_holding_iff hv).mp hs.2⟩

/-- A mark for a setting is one for the settings. -/
theorem holding_mem_marks {mark : Set Literal} (h : mark ∈ (setting.admitted.unify m).marks) :
    setting.holding mark ∈ (Schema.admitted.unify (m.map setting.holding)).marks := by
  rcases h with rfl | h
  · exact Or.inl (Or.inr ⟨setting, rfl⟩)
  · exact Or.inr ⟨mark, h, rfl⟩

/-- **A setting is chosen by itself**: if one literal is left of what the schema and layers say of
it, the settings are the defaults with that literal. -/
theorem resolved_schema_unify {v : Literal} (hallows : setting.Allows v)
    (h : (setting.admitted.unify m).resolved = {v}) :
    (Schema.admitted.unify (m.map setting.holding)).resolved =
      {settingsWith (Function.update Setting.otherwise setting v) Schema.defaultCases} := by
  have hleft : v ∈ (setting.admitted.unify m).resolved := h ▸ Set.mem_singleton v
  have hhas (other : Setting) := has_settingsWith Schema.defaultCases (allows_update hallows other)
  set t := settingsWith (Function.update Setting.otherwise setting v) Schema.defaultCases
  have hthis : t.Has setting v := by simpa using hhas setting
  have hothers {other : Setting} (hother : other ≠ setting) : t.Has other other.otherwise := by
    simpa [hother] using hhas other
  -- a mark for the setting that settings can follow is one that its literal can follow
  have hfollow {y : Settings} (hy : y ∈ (Schema.admitted.unify (m.map setting.holding)).value)
      {mark : Set Literal} (hmark : mark ∈ (setting.admitted.unify m).marks)
      (hymark : y ∈ setting.holding mark) : t ∈ setting.holding mark := by
    obtain ⟨w, hw, hyw⟩ := hymark
    exact ⟨v, hleft.2 mark hmark ⟨w, mem_value_of_schema_unify hy hyw, hw⟩, hthis⟩
  apply Marked.resolved_eq_singleton
  · exact ⟨fun other => ⟨_, Or.inl (allows_update hallows other), hhas other⟩, v, hleft.1.2, hthis⟩
  · rintro mark ((rfl | ⟨other, rfl⟩) | ⟨mark, hmark, rfl⟩) ⟨y, hy, hymark⟩
    · rfl
    · by_cases hother : other = setting
      · subst hother
        exact hfollow hy (Or.inl rfl) hymark
      · exact ⟨_, rfl, hothers hother⟩
    · exact hfollow hy (Or.inr hmark) hymark
  · intro y hy hmarks
    refine eq_of_has (fun other => ?_) (hmarks _ (Or.inl (Or.inl rfl)) rfl)
    by_cases hother : other = setting
    · subst hother
      obtain ⟨w, -, hyw⟩ := hy.1 other
      have hwleft : w ∈ (other.admitted.unify m).resolved := by
        refine ⟨mem_value_of_schema_unify hy hyw, fun mark hmark hmet => ?_⟩
        have htmark : t ∈ other.holding mark := ⟨v, hleft.2 mark hmark hmet, hthis⟩
        exact (mem_holding_iff hyw).mp (hmarks _ (holding_mem_marks hmark) htmark)
      obtain rfl : w = v := Set.mem_singleton_iff.mp (h ▸ hwleft)
      exact ⟨w, hyw, hthis⟩
    · obtain ⟨w, rfl, hyw⟩ := hmarks _ (Or.inl (Or.inr ⟨other, rfl⟩)) ⟨_, rfl, hothers hother⟩
      exact ⟨_, hyw, hothers hother⟩

end Alone

end Config
end RepeatedAddition
