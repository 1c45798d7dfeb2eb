import Mathlib.Order.Lattice
import Mathlib.Data.Set.Insert
import RepeatedAddition.Proofs.Loading

/-!
# Preferences

A value is what it admits, and what two values say together is what both of them admit.  A choice
may mark some of its alternatives as preferred.  A value that went through choices carries the marks
of all of them, each as what the marked alternatives of one choice admit.  Where all that is known
of a value has come together, the marks are followed, but for those that nothing of the value
meets any more: the choice of such a mark counts as one without preferences.

Marks are not followed before that.  Whether a mark can be met depends on what else is said, so to
drop one early is to let the order decide; kept to the end, they make unification commutative,
associative and idempotent.

* `Marked`, `Marked.unify`, `Marked.resolved`: values with marks, and what is left of them.
* `Marked.unify_comm`, `Marked.unify_assoc`, `Marked.unify_self`: the laws of unification.
* `Marked.resolved_plain`, `Marked.resolved_unify`, `Marked.resolved_unify_of_void`: the rules for
  values and their defaults.
* `Marked.either`, `Marked.preferred`: choices.
* `Marked.either_plain`, `Marked.either_preferred`: the rules for choices and their defaults.
* `Language.Specification`: a language in which layers come together in this way.
* `Language.Specification.load_eq_ok_iff`: what such a language loads depends on the set of texts.
-/

namespace RepeatedAddition

/-- A value with its preferences: what it admits, and what the marked alternatives of each choice
admit that it went through. -/
@[ext]
structure Marked (α : Type) where
  value : Set α
  marks : Set (Set α)

namespace Marked

variable {α β : Type}

/-- A value without preferences. -/
def plain (value : Set α) : Marked α := ⟨value, ∅⟩

/-- What two values say together. -/
def unify (a b : Marked α) : Marked α := ⟨a.value ∩ b.value, a.marks ∪ b.marks⟩

/-- What is left of a value when its marks are followed, as far as they can be met. -/
def resolved (a : Marked α) : Set α :=
  {x ∈ a.value | ∀ mark ∈ a.marks, (a.value ∩ mark).Nonempty → x ∈ mark}

/-! ## Unification -/

theorem unify_comm (a b : Marked α) : a.unify b = b.unify a :=
  Marked.ext (Set.inter_comm _ _) (Set.union_comm _ _)

theorem unify_assoc (a b c : Marked α) : (a.unify b).unify c = a.unify (b.unify c) :=
  Marked.ext (Set.inter_assoc _ _ _) (Set.union_assoc _ _ _)

theorem unify_self (a : Marked α) : a.unify a = a :=
  Marked.ext (Set.inter_self _) (Set.union_self _)

theorem unify_univ (a : Marked α) : a.unify (plain Set.univ) = a :=
  Marked.ext (Set.inter_univ _) (Set.union_empty _)

instance : Min (Marked α) := ⟨unify⟩

/-- Values are ordered by how much they say. -/
instance : SemilatticeInf (Marked α) := .mk' unify_comm unify_assoc unify_self

/-- A value says at least what some values say together exactly if it says at least what each of
them says. -/
theorem le_foldl_unify_iff {x a : Marked α} {values : List (Marked α)} :
    x ≤ values.foldl unify a ↔ x ≤ a ∧ ∀ b ∈ values, x ≤ b := by
  induction values generalizing a with
  | nil => simp
  | cons b values ih =>
    have hmeet : x ≤ a.unify b ↔ x ≤ a ∧ x ≤ b := le_inf_iff
    rw [List.foldl_cons, ih, hmeet, List.forall_mem_cons, and_assoc]

/-- **What values say together depends on which values they are**, not on their order, nor on how
often each is given. -/
theorem foldl_unify_congr {values values' : List (Marked α)}
    (h : ∀ b, b ∈ values ↔ b ∈ values') (a : Marked α) :
    values.foldl unify a = values'.foldl unify a :=
  eq_of_forall_le_iff fun x => by simp only [le_foldl_unify_iff, h]

/-! ## Defaults -/

theorem resolved_plain (value : Set α) : (plain value).resolved = value :=
  Set.ext fun _ => ⟨fun h => h.1, fun h => ⟨h, fun _ hmark => absurd hmark (Set.notMem_empty _)⟩⟩

/-- One datum is left if it follows every mark that can be met, and no other follows the same
marks. -/
theorem resolved_eq_singleton {a : Marked α} {x : α} (hx : x ∈ a.value)
    (hmarks : ∀ mark ∈ a.marks, (a.value ∩ mark).Nonempty → x ∈ mark)
    (hunique : ∀ y ∈ a.value, (∀ mark ∈ a.marks, x ∈ mark → y ∈ mark) → y = x) :
    a.resolved = {x} := by
  refine Set.eq_singleton_iff_unique_mem.mpr ⟨⟨hx, hmarks⟩, fun y hy => ?_⟩
  exact hunique y hy.1 fun mark hmark hxmark => hy.2 mark hmark ⟨x, hx, hxmark⟩

/-- Where a value admits one datum only, there is nothing to prefer. -/
theorem resolved_of_value {a : Marked α} {x : α} (h : a.value = {x}) : a.resolved = {x} := by
  have hx {y : α} (hy : y ∈ a.value) : y = x := Set.mem_singleton_iff.mp (h ▸ hy)
  refine resolved_eq_singleton (h ▸ Set.mem_singleton x) ?_ fun y hy _ => hx hy
  rintro mark - ⟨y, hy, hmark⟩
  exact hx hy ▸ hmark

/-- Where the marks that could be met before still can, the default is what the defaults have in
common. -/
theorem resolved_unify {a b : Marked α}
    (ha : ∀ mark ∈ a.marks, (a.value ∩ mark).Nonempty → (a.value ∩ b.value ∩ mark).Nonempty)
    (hb : ∀ mark ∈ b.marks, (b.value ∩ mark).Nonempty → (a.value ∩ b.value ∩ mark).Nonempty) :
    (a.unify b).resolved = a.resolved ∩ b.resolved := by
  ext x
  constructor
  · rintro ⟨⟨hxa, hxb⟩, hmarks⟩
    refine ⟨⟨hxa, fun mark hmark hmet => ?_⟩, hxb, fun mark hmark hmet => ?_⟩
    · exact hmarks mark (Or.inl hmark) (ha mark hmark hmet)
    · exact hmarks mark (Or.inr hmark) (hb mark hmark hmet)
  · rintro ⟨⟨hxa, hmarksA⟩, hxb, hmarksB⟩
    refine ⟨⟨hxa, hxb⟩, fun mark hmark hmet => ?_⟩
    rcases hmark with hmark | hmark
    · exact hmarksA mark hmark (hmet.mono (by gcongr; exact Set.inter_subset_left))
    · exact hmarksB mark hmark (hmet.mono (by gcongr; exact Set.inter_subset_right))

/-- Where none of its marks can be met any more, a value counts as one without preferences. -/
theorem resolved_unify_of_void {a b : Marked α}
    (h : ∀ mark ∈ a.marks, ¬(a.value ∩ b.value ∩ mark).Nonempty) :
    (a.unify b).resolved = ((plain a.value).unify b).resolved := by
  ext x
  refine and_congr_right fun _ => ⟨fun hmarks mark hmark => ?_, fun hmarks mark hmark => ?_⟩
  · exact hmarks mark (Or.inr (hmark.resolve_left (Set.notMem_empty _)))
  · rcases hmark with hmark | hmark
    · exact fun hmet => absurd hmet (h mark hmark)
    · exact hmarks mark (Or.inr hmark)

/-! ## Choices -/

/-- What a value prefers: nothing, if it has no marks. -/
def default (a : Marked α) : Set α := {x ∈ a.resolved | a.marks.Nonempty}

/-- A choice between two values, with the defaults of both. -/
def either (a b : Marked α) : Marked α where
  value := a.value ∪ b.value
  marks := {mark | (a.marks ∪ b.marks).Nonempty ∧ mark = a.default ∪ b.default}

/-- A value as a marked alternative: it is preferred as far as it has no preferences itself. -/
def preferred (a : Marked α) : Marked α where
  value := a.value
  marks := {mark | mark ∈ a.marks ∨ a.marks = ∅ ∧ mark = a.value}

/-- A value of which something is known only through a view. -/
def map (view : Set α → Set β) (a : Marked α) : Marked β := ⟨view a.value, view '' a.marks⟩

theorem default_plain (value : Set α) : (plain value).default = ∅ :=
  Set.eq_empty_of_forall_notMem fun _ h => Set.not_nonempty_empty h.2

theorem preferred_plain (value : Set α) : (plain value).preferred = ⟨value, {value}⟩ :=
  Marked.ext rfl (Set.ext fun mark => by simp [preferred, plain])

theorem default_preferred_plain (value : Set α) : (plain value).preferred.default = value := by
  rw [preferred_plain]
  ext x
  simp +contextual [default, resolved]

/-- A choice without marks has no preferences. -/
theorem either_plain (v w : Set α) : (plain v).either (plain w) = plain (v ∪ w) :=
  Marked.ext rfl (Set.eq_empty_of_forall_notMem fun mark h => by simp [either, plain] at h)

/-- A choice of which one alternative is marked prefers that alternative. -/
theorem either_preferred (v w : Set α) :
    (plain v).either (plain w).preferred = ⟨v ∪ w, {w}⟩ := by
  refine Marked.ext rfl (Set.ext fun mark => ?_)
  rw [either, default_plain, default_preferred_plain, preferred_plain]
  simp [plain]

end Marked

namespace Config.Language

/-- A language in which layers say what its specification says they do.

* `Datum`: the data that contents admit.
* `meaning`: what a content admits and prefers.
* `meaning_unify`: contents together mean what their meanings say together.
* `exists_compile`: what a text means does not depend on the name under which it is compiled.
* `Describes`: what is left of a content when its preferences are followed describes settings.
* `settingsOf_iff`: the settings of a content are those that what is left of it describes. -/
structure Specification (language : Language) where
  Datum : Type
  meaning : language.Content → Marked Datum
  meaning_unify (a b : language.Content) :
    meaning (language.unify a b) = (meaning a).unify (meaning b)
  exists_compile {name text : Text} {c : language.Content}
    (h : language.compile name text = .ok c) (name' : Text) :
    ∃ c', language.compile name' text = .ok c' ∧ meaning c' = meaning c
  Describes : Set Datum → Settings → Prop
  settingsOf_iff (c : language.Content) (s : Settings) :
    language.settingsOf c = .ok s ↔ Describes (meaning c).resolved s

namespace Specification

variable {language : Language} (spec : language.Specification)

/-- What layers mean together is what their meanings say together, on top of the schema. -/
theorem meaning_unified (cs : List language.Content) :
    spec.meaning (language.unified cs) =
      (cs.map spec.meaning).foldl Marked.unify (spec.meaning language.schema) := by
  rw [unified, List.foldl_map]
  exact (List.foldl_hom spec.meaning fun c c' => (spec.meaning_unify c c').symm).symm

/-- What layers mean can be told from their texts. -/
theorem mem_meanings_iff {texts : List (Text × Text)} {cs : List language.Content}
    (h : List.Forall₂ (fun named c => language.compile named.1 named.2 = .ok c) texts cs)
    (m : Marked spec.Datum) :
    m ∈ cs.map spec.meaning ↔
      ∃ text ∈ texts.map Prod.snd, ∃ name c,
        language.compile name text = .ok c ∧ spec.meaning c = m := by
  refine mem_map_iff_of_forall₂ (fun named c hc => ⟨?_, ?_⟩) h
  · rintro ⟨name, c', hc', rfl⟩
    obtain ⟨c'', hc'', hmeaning⟩ := spec.exists_compile hc' named.1
    rw [← hmeaning, Except.ok.inj (hc''.symm.trans hc)]
  · rintro rfl
    exact ⟨named.1, c, hc, rfl⟩

include spec

/-- **What is loaded depends on the set of texts**, if all of them are found and each is compiled by
itself: not on their order, nor on how often one is given, nor on whether it is the text of a file
or that of a snippet. -/
theorem load_eq_ok_iff {files files' : Files} {paths paths' snippets snippets' : List Text}
    (hfound : ∀ path ∈ paths, IsFound files path)
    (hfound' : ∀ path ∈ paths', IsFound files' path)
    (hsame : ∀ text, text ∈ (layerTexts files paths snippets).map Prod.snd ↔
      text ∈ (layerTexts files' paths' snippets').map Prod.snd)
    (hcompile : ∀ named ∈ layerTexts files paths snippets,
      ∃ c, language.compile named.1 named.2 = .ok c) (s : Settings) :
    language.load files paths snippets = .ok s ↔
      language.load files' paths' snippets' = .ok s := by
  obtain ⟨cs, hcs⟩ := exists_forall₂_of_forall_mem hcompile
  have hmade : ∀ text ∈ (layerTexts files paths snippets).map Prod.snd, ∀ name,
      ∃ c, language.compile name text = .ok c := by
    refine List.forall_mem_map.mpr fun named hnamed name => ?_
    obtain ⟨c, hc⟩ := hcompile named hnamed
    obtain ⟨c', hc', -⟩ := spec.exists_compile hc name
    exact ⟨c', hc'⟩
  obtain ⟨cs', hcs'⟩ := exists_forall₂_of_same_texts hmade fun text => (hsame text).mpr
  have hmeaning : spec.meaning (language.unified cs) = spec.meaning (language.unified cs') := by
    rw [spec.meaning_unified, spec.meaning_unified]
    refine Marked.foldl_unify_congr (fun m => ?_) _
    simp only [spec.mem_meanings_iff hcs, spec.mem_meanings_iff hcs', hsame]
  have hload := (layers_eq_ok_iff hfound).mpr hcs
  have hload' := (layers_eq_ok_iff hfound').mpr hcs'
  rw [load, load, hload, hload']
  exact (spec.settingsOf_iff _ s).trans (hmeaning ▸ (spec.settingsOf_iff _ s).symm)

end Specification

end Config.Language

end RepeatedAddition
