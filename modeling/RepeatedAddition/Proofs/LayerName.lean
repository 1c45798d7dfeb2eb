import RepeatedAddition.Proofs.LiteralSettings
import RepeatedAddition.Proofs.SourceName
import RepeatedAddition.Proofs.Verdict

/-!
# The name of a layer

A layer is read under a name, the path of its file or the index of its snippet, and the name is in
all its places.  For a plain layer the name ends there: what the layer says has no places in it, and
whether it can be depends on what it says.

The second half is about failures.  What a value is when it has not failed follows from the set of
what is said, but whether limits without an atom go together is found out one after the other.  So
constraints are followed in their order, and two blends are compared up to places and messages.

* `Expr.isPlainStruct`: a test for plain layers.
* `layersSay_unnamed`, `layersList_unnamed`: what layers say has no names in it.
* `Blend.Alike`, `Blend.alike_of`: constraints that demand the same have blends that differ in
  places and messages only.
* `isFailed_evaluate_unnamed`: restrictions fail or not whatever the names in their places are.
* `exists_compile_eq_ok_of_isPlainLayer`: a plain layer passes by itself under every name if under
  one.
-/

namespace RepeatedAddition
namespace Config

/-! ## What a layer says has no names in it -/

namespace Expr

theorem isRestriction_unnamed (bound : List String) (e : Expr) :
    e.unnamed.isRestriction bound = e.isRestriction bound := by
  match e with
  | .group _ e => exact isRestriction_unnamed bound e
  | .meet l r => exact congrArg₂ and (isRestriction_unnamed bound l) (isRestriction_unnamed bound r)
  | .limit _ _ e | .signed _ _ e => cases e <;> rfl
  | .literal _ _ | .faulty _ _ | .top _ | .bottom _ | .name _ _ | .select _ _ _ | .arithmetic _ _ _
  | .either _ _
  | .preferred _ _ | .struct _ _ | .list _ _ _ => rfl
termination_by structural e

theorem demands_unnamed (e : Expr) : e.unnamed.demands = e.demands := by
  match e with
  | .group _ e => exact demands_unnamed e
  | .meet l r => exact congrArg₂ (· ++ ·) (demands_unnamed l) (demands_unnamed r)
  | .limit _ _ e | .signed _ _ e => cases e <;> rfl
  | .literal _ _ | .faulty _ _ | .top _ | .bottom _ | .name _ _ | .select _ _ _ | .arithmetic _ _ _
  | .either _ _
  | .preferred _ _ | .struct _ _ | .list _ _ _ => rfl
termination_by structural e

end Expr

theorem Decl.said_unnamed (d : Decl) : d.unnamed.said = d.said := by
  cases d with
  | field l bindable optional e =>
    cases l with
    | regular name => exact congrArg (List.map (Prod.mk name)) e.demands_unnamed
    | _ => rfl
  | _ => rfl

theorem Decl.names_unnamed (ds : List Decl) : Decl.names (ds.map Decl.unnamed) = Decl.names ds := by
  rw [Decl.names, List.filterMap_map]
  refine List.filterMap_congr fun d _ => ?_
  cases d with
  | field l bindable optional e => cases l <;> cases bindable <;> rfl
  | _ => rfl

namespace Expr

theorem said_unnamed (e : Expr) : e.unnamed.said = e.said := by
  cases e with
  | struct p ds =>
    show (unnamedDecls ds).flatMap Decl.said = ds.flatMap Decl.said
    rw [unnamedDecls_eq, List.flatMap_map]
    exact List.flatMap_congr fun d _ => d.said_unnamed
  | _ => rfl

theorem rows_unnamed (e : Expr) : e.unnamed.rows = e.rows := by
  cases e with
  | list p es tail =>
    show (unnamedItems es).map said = es.map said
    rw [unnamedItems_eq, List.map_map]
    exact List.map_congr_left fun e _ => e.said_unnamed
  | _ => rfl

theorem isRow_unnamed (bound : List String) (e : Expr) : e.unnamed.isRow bound = e.isRow bound := by
  cases e with
  | struct p ds =>
    show (unnamedDecls ds).all _ = ds.all _
    rw [unnamedDecls_eq, List.all_map, Decl.names_unnamed]
    refine congrArg (List.all ds) (funext fun d => ?_)
    cases d with
    | field l bindable optional e =>
      cases optional with
      | false => exact congrArg (caseLabels.contains l && ·) (e.isRestriction_unnamed _)
      | true => rfl
    | _ => rfl
  | _ => rfl

theorem isCaseList_unnamed (bound : List String) (e : Expr) :
    e.unnamed.isCaseList bound = e.isCaseList bound := by
  cases e with
  | list p es tail =>
    cases tail with
    | closed =>
      show (unnamedItems es).all (isRow bound) = es.all (isRow bound)
      rw [unnamedItems_eq, List.all_map]
      exact congrArg (List.all es) (funext (isRow_unnamed bound))
    | _ => rfl
  | _ => rfl

end Expr

theorem Decl.isPlain_unnamed (bound : List String) (d : Decl) :
    d.unnamed.isPlain bound = d.isPlain bound := by
  cases d with
  | field l bindable optional e =>
    cases l with
    | regular name =>
      cases optional with
      | false =>
        show (if name = "cases" then e.unnamed.isCaseList bound else
          e.unnamed.isRestriction bound) = _
        rw [e.isCaseList_unnamed, e.isRestriction_unnamed]
        rfl
      | true => rfl
    | _ => rfl
  | _ => rfl

mutual

/-- Whether an expression is a plain layer, inside structs that bind given names. -/
def Expr.isPlainStruct (bound : List String) : Expr → Bool
  | .struct _ ds => arePlain (Decl.names ds ++ bound) ds
  | _ => false

/-- Whether all declarations are plain, and what is embedded by them. -/
def arePlain (bound : List String) : List Decl → Bool
  | [] => true
  | .embedded e :: ds => Expr.isPlainStruct bound e && arePlain bound ds
  | d :: ds => d.isPlain bound && arePlain bound ds

end

theorem arePlain_iff {bound : List String} {ds : List Decl} :
    arePlain bound ds = true ↔
      ∀ d ∈ ds, d.isPlain bound = true ∧ ∀ e, d = .embedded e → e.isPlainStruct bound = true := by
  induction ds with
  | nil => simp [arePlain]
  | cons d ds ih =>
    rw [List.forall_mem_cons, ← ih]
    cases d <;> simp [arePlain, Decl.isPlain]

theorem Decl.isField_of_isPlain {bound : List String} {d : Decl} (h : d.isPlain bound = true) :
    d.isField = true ∨ ∃ e, d = .embedded e := by
  cases d with
  | field l bindable optional e => exact .inl rfl
  | embedded e => exact .inr ⟨e, rfl⟩
  | _ => cases h

mutual

theorem Expr.isNested_of_isPlainStruct {bound : List String} (e : Expr)
    (h : e.isPlainStruct bound = true) : e.IsNested := by
  match e with
  | .struct _ ds =>
    exact .struct (fun d hd => Decl.isField_of_isPlain (arePlain_iff.mp h d hd).1)
      (isNested_of_arePlain ds h)
termination_by structural e

theorem isNested_of_arePlain {bound : List String} (ds : List Decl) (h : arePlain bound ds = true) :
    ∀ e, .embedded e ∈ ds → e.IsNested := by
  intro e he
  match ds with
  | .embedded e' :: ds =>
    obtain ⟨hfirst, hrest⟩ := Bool.and_eq_true_iff.mp h
    rcases List.mem_cons.mp he with heq | hmem
    · rw [Decl.embedded.inj heq]
      exact Expr.isNested_of_isPlainStruct e' hfirst
    · exact isNested_of_arePlain ds hrest e hmem
  | .field _ _ _ _ :: ds | .faulty _ _ :: ds | .ellipsis :: ds =>
    exact isNested_of_arePlain ds (Bool.and_eq_true_iff.mp h).2 e
      (List.mem_of_ne_of_mem (by simp) he)
termination_by structural ds

end

theorem Expr.IsNested.isPlainStruct_iff {e : Expr} (h : e.IsNested) (here : Address)
    (context : Context) :
    e.isPlainStruct context.names = true ↔
      ∀ b ∈ e.bodies here context, ∀ d ∈ b.decls,
        d.isPlain (Decl.names b.decls ++ b.context.names) = true := by
  induction h generalizing context with
  | @struct p ds _ _ ih =>
    rw [isPlainStruct, arePlain_iff, bodies, List.forall_mem_cons]
    constructor
    · intro hall
      refine ⟨fun d hd => (hall d hd).1, fun b hb => ?_⟩
      obtain ⟨e, he, hb⟩ := mem_bodiesOfDecls.mp hb
      exact (ih e he (context.embedding here ds p e.place)).mp ((hall _ he).2 e rfl) b hb
    · rintro ⟨hdecls, hembedded⟩ d hd
      refine ⟨hdecls d hd, ?_⟩
      rintro e rfl
      exact (ih e hd (context.embedding here ds p e.place)).mpr fun b hb =>
        hembedded b (mem_bodiesOfDecls.mpr ⟨e, hd, hb⟩)

/-- A layer can be tested for being plain. -/
theorem Expr.isPlainStruct_iff_isPlainLayer {e : Expr} :
    e.isPlainStruct [] = true ↔ e.IsPlainLayer := by
  constructor
  · intro h
    have hnested := e.isNested_of_isPlainStruct h
    exact ⟨hnested, (hnested.isPlainStruct_iff [.branch []] {}).mp h⟩
  · intro h
    exact (h.nested.isPlainStruct_iff [.branch []] {}).mpr h.plain

mutual

theorem Expr.isPlainStruct_unnamed (bound : List String) (e : Expr) :
    e.unnamed.isPlainStruct bound = e.isPlainStruct bound := by
  match e with
  | .struct _ ds =>
    show arePlain (Decl.names (unnamedDecls ds) ++ bound) (unnamedDecls ds) =
      arePlain (Decl.names ds ++ bound) ds
    rw [arePlain_unnamed, unnamedDecls_eq, Decl.names_unnamed]
  | .literal _ _ | .faulty _ _ | .top _ | .bottom _ | .name _ _ | .select _ _ _ | .group _ _
  | .signed _ _ _
  | .arithmetic _ _ _ | .limit _ _ _ | .meet _ _ | .either _ _ | .preferred _ _ | .list _ _ _ => rfl
termination_by structural e

theorem arePlain_unnamed (bound : List String) (ds : List Decl) :
    arePlain bound (unnamedDecls ds) = arePlain bound ds := by
  match ds with
  | [] => rfl
  | .embedded e :: ds =>
    exact congrArg₂ and (Expr.isPlainStruct_unnamed bound e) (arePlain_unnamed bound ds)
  | .field l bindable optional e :: ds =>
    exact congrArg₂ and (Decl.isPlain_unnamed bound (.field l bindable optional e))
      (arePlain_unnamed bound ds)
  | .faulty p m :: ds => exact congrArg (_ && ·) (arePlain_unnamed bound ds)
  | .ellipsis :: ds => exact congrArg (_ && ·) (arePlain_unnamed bound ds)
termination_by structural ds

end

theorem Expr.isPlainLayer_unnamed {e : Expr} : e.unnamed.IsPlainLayer ↔ e.IsPlainLayer := by
  rw [← isPlainStruct_iff_isPlainLayer, isPlainStruct_unnamed, isPlainStruct_iff_isPlainLayer]

mutual

/-- Without names, a layer has the same structs. -/
theorem Expr.decls_bodies_unnamed (here : Address) (context context' : Context) (e : Expr) :
    (e.unnamed.bodies here context').map Body.decls = (e.bodies here context).map fun b =>
      b.decls.map Decl.unnamed := by
  match e with
  | .struct p ds =>
    exact congrArg₂ List.cons (unnamedDecls_eq ds)
      (decls_bodiesOfDecls_unnamed here context context' p p.unnamed ds (unnamedDecls ds) ds)
  | .literal _ _ | .faulty _ _ | .top _ | .bottom _ | .name _ _ | .select _ _ _ | .group _ _
  | .signed _ _ _
  | .arithmetic _ _ _ | .limit _ _ _ | .meet _ _ | .either _ _ | .preferred _ _ | .list _ _ _ => rfl
termination_by structural e

theorem decls_bodiesOfDecls_unnamed (here : Address) (context context' : Context) (p p' : Position)
    (all all' ds : List Decl) :
    (bodiesOfDecls here context' p' all' (unnamedDecls ds)).map Body.decls =
      (bodiesOfDecls here context p all ds).map fun b => b.decls.map Decl.unnamed := by
  match ds with
  | [] => rfl
  | .embedded e :: ds =>
    show (_ ++ _ : List Body).map _ = (_ ++ _ : List Body).map _
    rw [List.map_append, List.map_append,
      decls_bodiesOfDecls_unnamed here context context' p p' all all' ds]
    exact congrArg (· ++ _) (Expr.decls_bodies_unnamed here _ _ e)
  | .field _ _ _ _ :: ds | .faulty _ _ :: ds | .ellipsis :: ds =>
    exact decls_bodiesOfDecls_unnamed here context context' p p' all all' ds
termination_by structural ds

end

/-- Structs that are others without names. -/
def AreUnnamed (bs bs' : List Body) : Prop :=
  bs'.map Body.decls = bs.map fun b => b.decls.map Decl.unnamed

/-- Something without names that holds of a struct holds of one without names. -/
theorem AreUnnamed.exists_iff {bs bs' : List Body} (h : AreUnnamed bs bs') {P : List Decl → Prop}
    (hP : ∀ ds, P (ds.map Decl.unnamed) ↔ P ds) : (∃ b ∈ bs', P b.decls) ↔ ∃ b ∈ bs, P b.decls :=
  calc (∃ b ∈ bs', P b.decls)
      ↔ ∃ ds ∈ bs'.map Body.decls, P ds := by simp only [List.mem_map, exists_exists_and_eq_and]
    _ ↔ ∃ ds ∈ bs.map fun b => b.decls.map Decl.unnamed, P ds := by rw [h]
    _ ↔ ∃ b ∈ bs, P (b.decls.map Decl.unnamed) := by
      simp only [List.mem_map, exists_exists_and_eq_and]
    _ ↔ ∃ b ∈ bs, P b.decls := by simp only [hP]

/-- Layers without names have the structs of the layers, without names. -/
theorem areUnnamed_layerBodies (layers : List Expr) :
    AreUnnamed (layers.flatMap layerBodies) ((layers.map Expr.unnamed).flatMap layerBodies) := by
  rw [AreUnnamed, List.flatMap_map, List.map_flatMap, List.map_flatMap]
  exact List.flatMap_congr fun e _ => e.decls_bodies_unnamed [.branch []] {} {}

theorem layersSay_unnamed (layers : List Expr) (name : String) :
    layersSay (layers.map Expr.unnamed) name = layersSay layers name := by
  refine Set.ext fun d => (areUnnamed_layerBodies layers).exists_iff
    (P := fun ds => (name, d) ∈ ds.flatMap Decl.said) fun ds => ?_
  rw [List.flatMap_map, List.flatMap_congr fun d _ => Decl.said_unnamed d]

theorem layersList_unnamed (layers : List Expr) :
    layersList (layers.map Expr.unnamed) = layersList layers := by
  refine Set.ext fun rows => (areUnnamed_layerBodies layers).exists_iff
    (P := fun ds => rows ∈ (Body.mk ⟨[], 0, 0⟩ ds {}).caseLists) fun ds => ?_
  rw [Body.caseLists, Body.caseLists, List.filterMap_map]
  refine iff_of_eq (congrArg (rows ∈ ·) (List.filterMap_congr fun d _ => ?_))
  cases d with
  | field l bindable optional e =>
    show (if l = .regular "cases" then some e.unnamed.rows else none) = if l = .regular "cases" then
      some e.rows else none
    rw [e.rows_unnamed]
  | _ => rfl

/-! ## What constraints come to has no places in it -/

/-- A limit without its place. -/
def Limit.bare (l : Limit) : Bound × Atom := (l.bound, l.limit)

/-- Two blends differ in places and messages only. -/
structure Blend.Alike (b b' : Blend) : Prop where
  kinds : b.kinds = b'.kinds
  narrowing : b.narrowing.isSome = b'.narrowing.isSome
  atom : b.atom.map Prod.fst = b'.atom.map Prod.fst
  lower : b.lower.map Limit.bare = b'.lower.map Limit.bare
  upper : b.upper.map Limit.bare = b'.upper.map Limit.bare
  excluded : b.excluded.map Limit.bare = b'.excluded.map Limit.bare
  conflicts : b.conflicts = [] ↔ b'.conflicts = []

/-- Two things that are the same but for something are both there or neither. -/
theorem none_or_some_of_map_eq {α β : Type} {f : α → β} {o o' : Option α} (h : o.map f = o'.map f) :
    o = none ∧ o' = none ∨ ∃ a a', o = some a ∧ o' = some a' ∧ f a = f a' := by
  cases o with
  | none => exact .inl ⟨rfl, Option.map_eq_none_iff.mp h.symm⟩
  | some a =>
    obtain ⟨a', ho', ha⟩ := Option.map_eq_some_iff.mp h.symm
    exact .inr ⟨a, a', rfl, ho', ha.symm⟩

theorem Limit.tighter_bare (side : Ordering) {old old' new new' : Limit}
    (hold : old.bare = old'.bare) (hnew : new.bare = new'.bare) :
    (tighter side old new).bare = (tighter side old' new').bare := by
  obtain ⟨bound, limit, place⟩ := old
  obtain ⟨bound', limit', place'⟩ := new
  obtain ⟨_, _, oldPlace⟩ := old'
  obtain ⟨_, _, newPlace⟩ := new'
  obtain ⟨rfl, rfl⟩ := Prod.mk.inj hold
  obtain ⟨rfl, rfl⟩ := Prod.mk.inj hnew
  unfold tighter isStrict
  dsimp only
  cases limit.order? limit' with
  | none => rfl
  | some o => cases o <;> dsimp only <;> split <;> rfl

theorem Limit.isEmpty_bare (kinds : List Kind) {l l' u u' : Limit} (hl : l.bare = l'.bare)
    (hu : u.bare = u'.bare) :
    l.isEmpty kinds u = l'.isEmpty kinds u' := by
  obtain ⟨bound, limit, place⟩ := l
  obtain ⟨bound', limit', place'⟩ := u
  obtain ⟨_, _, lowerPlace⟩ := l'
  obtain ⟨_, _, upperPlace⟩ := u'
  obtain ⟨rfl, rfl⟩ := Prod.mk.inj hl
  obtain ⟨rfl, rfl⟩ := Prod.mk.inj hu
  rfl

namespace Blend.Alike

variable {b b' : Blend}

theorem refl (b : Blend) : Alike b b := ⟨rfl, rfl, rfl, rfl, rfl, rfl, .rfl⟩

theorem addLimit (h : Alike b b') {l l' : Limit} (hl : l.bare = l'.bare) :
    Alike (b.addLimit l) (b'.addLimit l') := by
  have hbound : l.bound = l'.bound := congrArg Prod.fst hl
  have hlimit : l.limit = l'.limit := congrArg Prod.snd hl
  have hany (ls : List Limit) : (ls.any fun old => old.limit.agrees l.limit) =
      (ls.map Limit.bare).any fun old => old.2.agrees l.limit := by
    rw [List.any_map]
    rfl
  unfold Blend.addLimit
  rw [← hbound, ← hlimit, hany, hany, ← h.excluded]
  cases l.bound with
  | less | atMost =>
    refine ⟨h.kinds, h.narrowing, h.atom, h.lower, congrArg some ?_, h.excluded, h.conflicts⟩
    rcases none_or_some_of_map_eq h.upper with ⟨hb, hb'⟩ | ⟨old, old', hb, hb', hold⟩
    · rw [hb, hb']
      exact hl
    · rw [hb, hb']
      exact Limit.tighter_bare .gt hold hl
  | greater | atLeast =>
    refine ⟨h.kinds, h.narrowing, h.atom, congrArg some ?_, h.upper, h.excluded, h.conflicts⟩
    rcases none_or_some_of_map_eq h.lower with ⟨hb, hb'⟩ | ⟨old, old', hb, hb', hold⟩
    · rw [hb, hb']
      exact hl
    · rw [hb, hb']
      exact Limit.tighter_bare .lt hold hl
  | differs =>
    dsimp only
    split
    · exact h
    · refine ⟨h.kinds, h.narrowing, h.atom, h.lower, h.upper, ?_, h.conflicts⟩
      rw [List.map_append, List.map_append, h.excluded, List.map_singleton, hl, List.map_singleton]

theorem addAtom (h : Alike b b') (a : Atom) (c c' : Constraint) :
    Alike (b.addAtom a c) (b'.addAtom a c') := by
  unfold Blend.addAtom
  rcases none_or_some_of_map_eq h.atom with ⟨hb, hb'⟩ | ⟨⟨old, _⟩, ⟨_, _⟩, hb, hb', rfl⟩
  · rw [hb, hb']
    exact ⟨h.kinds, h.narrowing, rfl, h.lower, h.upper, h.excluded, h.conflicts⟩
  · have hatom := h.atom
    rw [hb, hb'] at hatom ⊢
    dsimp only
    split
    · exact h
    · exact ⟨h.kinds, h.narrowing, hatom, h.lower, h.upper, h.excluded, by simp⟩

theorem addContent (h : Alike b b') {c c' : Constraint} (hc : c.demand = c'.demand) :
    Alike (b.addContent c) (b'.addContent c') := by
  unfold Blend.addContent
  rw [← hc]
  cases c.demand with
  | atom a => exact h.addAtom a c c'
  | limit bound a => exact h.addLimit rfl
  | type t =>
    dsimp only
    cases t.least with
    | none =>
      cases t.greatest with
      | none => exact h
      | some d => exact h.addLimit rfl
    | some d =>
      cases t.greatest with
      | none => exact h.addLimit rfl
      | some d' => exact (h.addLimit rfl).addLimit rfl
  | differs k text =>
    exact ⟨h.kinds, h.narrowing, h.atom, h.lower, h.upper, h.excluded, h.conflicts⟩
  | struct ds => exact h
  | list es tail => exact h

theorem checkLimits (h : Alike b b') (c c' : Constraint) :
    Alike (b.checkLimits c) (b'.checkLimits c') := by
  unfold Blend.checkLimits
  rcases none_or_some_of_map_eq h.lower with ⟨hb, hb'⟩ | ⟨l, l', hb, hb', hl⟩
  · rw [hb, hb']
    exact h
  · rw [hb, hb']
    rcases none_or_some_of_map_eq h.upper with ⟨hb, hb'⟩ | ⟨u, u', hb, hb', hu⟩
    · rw [hb, hb']
      exact h
    · rw [hb, hb']
      dsimp only
      rw [Limit.isEmpty_bare b.kinds hl hu, h.kinds]
      split
      · exact ⟨rfl, h.narrowing, h.atom, rfl, rfl, h.excluded, by simp⟩
      · exact h

theorem add (h : Alike b b') {c c' : Constraint} (hc : c.demand = c'.demand) :
    Alike (b.add c) (b'.add c') := by
  have hkinds : c.kinds = c'.kinds := by
    unfold Constraint.kinds
    rw [hc]
  unfold Blend.add
  rw [← h.kinds, ← hkinds]
  split
  · exact h
  dsimp only
  split
  · -- no kind is left: the conflict is noted if there was a constraint before
    refine ⟨rfl, h.narrowing, h.atom, h.lower, h.upper, h.excluded, ?_⟩
    have hnarrowing := h.narrowing
    have hconflicts := h.conflicts
    cases hb : b.narrowing <;> cases hb' : b'.narrowing <;> simp_all
  · refine checkLimits (addContent ?_ hc) c c'
    refine ⟨rfl, ?_, h.atom, h.lower, h.upper, h.excluded, h.conflicts⟩
    dsimp only
    rw [h.narrowing]
    split
    · exact h.narrowing
    · rfl

theorem limits (h : Alike b b') : b.limits.map Limit.bare = b'.limits.map Limit.bare := by
  have htoList (o : Option Limit) : o.toList.map Limit.bare = (o.map Limit.bare).toList := by
    cases o <;> rfl
  simp only [Blend.limits, List.map_append, htoList, h.lower, h.upper, h.excluded]

/-- Blends that differ in places and messages only have problems both or neither. -/
theorem problems (h : Alike b b') (path path' : List Text) :
    b.problems path = [] ↔ b'.problems path' = [] := by
  have hbroken (a : Atom) (ls : List Limit) : (ls.filter fun l => !l.bound.admits l.limit a) = [] ↔
      ∀ l ∈ ls.map Limit.bare, l.1.admits l.2 a = true := by
    simp [List.filter_eq_nil_iff, Limit.bare]
  unfold Blend.problems
  rcases none_or_some_of_map_eq h.atom with ⟨hb, hb'⟩ | ⟨⟨a, _⟩, ⟨_, _⟩, hb, hb', rfl⟩
  · rw [hb, hb']
    simp only [List.map_eq_nil_iff, h.conflicts]
  · rw [hb, hb', ← h.kinds]
    dsimp only
    split
    · simp only [List.map_eq_nil_iff, h.conflicts]
    · simp only [List.append_eq_nil_iff, List.map_eq_nil_iff, h.conflicts, hbroken, h.limits]

end Blend.Alike

/-- **Constraints that demand the same have blends that differ in places and messages only.** -/
theorem Blend.alike_of {cs cs' : List Constraint}
    (h : cs.map Constraint.demand = cs'.map Constraint.demand) :
    Alike (Blend.of cs) (Blend.of cs') := by
  suffices hfoldl : ∀ (b b' : Blend), Alike b b' →
      Alike (cs.foldl add b) (cs'.foldl add b') from hfoldl {} {} (.refl {})
  induction cs generalizing cs' with
  | nil =>
    obtain rfl := List.map_eq_nil_iff.mp h.symm
    exact fun b b' hb => hb
  | cons c cs ih =>
    obtain ⟨c', cs', rfl, hc, hcs⟩ := List.map_eq_cons_iff.mp h.symm
    exact fun b b' hb => ih hcs.symm _ _ (hb.add hc.symm)

/-! ## What plain nodes come to -/

/-- What a fact demands, if it is a constraint. -/
def Fact.demand? (f : Fact) : Option Demand := f.constraint?.map Constraint.demand

/-- Two expansions demand the same, at once and through their tasks. -/
structure Expansion.Alike (x x' : Expansion) : Prop where
  facts : x.facts.filterMap Fact.demand? = x'.facts.filterMap Fact.demand?
  tasks : (x.tasks.filterMap fun t => t.fact?.bind Fact.demand?) = x'.tasks.filterMap fun t =>
    t.fact?.bind Fact.demand?

namespace Expansion.Alike

theorem append {x x' y y' : Expansion} (hx : Alike x x') (hy : Alike y y') :
    Alike (x.append y) (x'.append y') := by
  constructor
  · simp only [Expansion.append, List.filterMap_append, hx.facts, hy.facts]
  · simp only [Expansion.append, List.filterMap_append, hx.tasks, hy.tasks]

theorem demands {x x' : Expansion} (h : Alike x x') :
    (x.settled.filterMap Fact.constraint?).map Constraint.demand =
      (x'.settled.filterMap Fact.constraint?).map Constraint.demand := by
  have hsettled (x : Expansion) : (x.settled.filterMap Fact.constraint?).map Constraint.demand =
      x.facts.filterMap Fact.demand? ++ x.tasks.filterMap fun t => t.fact?.bind Fact.demand? := by
    rw [List.map_filterMap, Expansion.settled, List.filterMap_append, List.filterMap_filterMap]
    rfl
  rw [hsettled, hsettled, h.facts, h.tasks]

end Expansion.Alike

/-- A restriction comes apart into the same without names, in any context. -/
theorem Expr.parts_unnamed (path path' : List Text) (here here' : Address)
    (context context' : Context) (e : Expr) (h : e.isRestriction context.names = true)
    (h' : e.isRestriction context'.names = true) :
    Expansion.Alike (e.parts path here context) (e.unnamed.parts path' here' context') := by
  fun_induction isRestriction context.names e with
  | case1 p a => exact ⟨rfl, rfl⟩
  | case2 p n =>
    obtain ⟨hfree, hfind⟩ := Bool.and_eq_true_iff.mp h
    obtain ⟨t, ht⟩ := Option.isSome_iff_exists.mp hfind
    have hscope : context.scopeOf? n = none := Context.scopeOf?_eq_none (by simpa using hfree)
    have hscope' : context'.scopeOf? n = none :=
      Context.scopeOf?_eq_none (by simpa using (Bool.and_eq_true_iff.mp h').1)
    rw [Expr.unnamed, Expr.parts, Expr.parts, hscope, hscope', ht]
    exact ⟨rfl, rfl⟩
  | case3 p bound q l =>
    refine ⟨rfl, ?_⟩
    simp [Expr.unnamed, Expr.parts, Expansion.task, Conjunct.fact?, h, Fact.demand?,
      Fact.constraint?]
  | case4 p sign q a =>
    refine ⟨rfl, ?_⟩
    simp [Expr.unnamed, Expr.parts, Expansion.task, Conjunct.fact?, (Bool.and_eq_true_iff.mp h).2,
      Fact.demand?, Fact.constraint?]
  | case5 p e ih => exact ih h h'
  | case6 l r ihl ihr =>
    obtain ⟨hl, hr⟩ := Bool.and_eq_true_iff.mp h
    obtain ⟨hl', hr'⟩ := Bool.and_eq_true_iff.mp h'
    exact (ihl hl hl').append (ihr hr hr')
  | case7 => cases h

theorem direct_alike (path path' : List Text) (here here' : Address) {cs cs' : List Conjunct}
    (h : ∀ c ∈ cs, c.isPlain = true) (h' : ∀ c ∈ cs', c.isPlain = true)
    (hsame : cs'.map Conjunct.expr = (cs.map Conjunct.expr).map Expr.unnamed) :
    Expansion.Alike (direct path here cs) (direct path' here' cs') := by
  induction cs generalizing cs' with
  | nil =>
    obtain rfl := List.map_eq_nil_iff.mp hsame
    exact ⟨rfl, rfl⟩
  | cons c cs ih =>
    obtain ⟨c', cs', rfl, hc, hcs⟩ := List.map_eq_cons_iff.mp hsame
    obtain ⟨hplain, hrest⟩ := List.forall_mem_cons.mp h
    obtain ⟨hplain', hrest'⟩ := List.forall_mem_cons.mp h'
    rw [direct_cons, direct_cons]
    refine Expansion.Alike.append ?_ (ih hrest hrest' hcs)
    rw [Conjunct.isPlain, hc, Expr.isRestriction_unnamed] at hplain'
    rw [Conjunct.parts, Conjunct.parts, hc]
    exact c.expr.parts_unnamed path path' here here' c.context c'.context hplain hplain'

/-- Constraints fail if their blend does. -/
theorem isFailed_meet_iff {e : Expansion} (h : e.OnlyConstraints) (known : Option Node)
    (path : List Text) (address : Address) (n : Nat) (chosen : List Nat) :
    (meet (n + 1) known path address chosen e).value.isFailed = true ↔
      (Blend.of (e.facts.filterMap Fact.constraint?)).kinds = [] ∨
        (Blend.of (e.facts.filterMap Fact.constraint?)).problems path ≠ [] := by
  rw [value_meet_of_constraints h, plainValue_of_constraints h]
  generalize Blend.of (e.facts.filterMap Fact.constraint?) = b
  by_cases hkinds : b.kinds = []
  · simp [hkinds, Value.isFailed]
  · rw [if_neg (by simpa using hkinds)]
    cases hproblems : b.problems path with
    | nil =>
      cases hatom : b.atom <;> simp [failedValue?, Value.isFailed, hkinds]
    | cons p ps => simp [failedValue?, Value.isFailed]

/-- Restrictions fail if the blend of what they come apart into does. -/
theorem isFailed_evaluate_iff (known : Option Node) (path : List Text) (address : Address)
    {cs : List Conjunct} (h : ∀ c ∈ cs, c.isPlain = true) {n : Nat}
    (hn : sizeOfConjuncts cs + 6 ≤ n) :
    (evaluate n known path address cs).value.isFailed = true ↔
      (Blend.of ((direct path (address ++ [.branch []]) cs).settled.filterMap
        Fact.constraint?)).kinds = [] ∨
      (Blend.of ((direct path (address ++ [.branch []]) cs).settled.filterMap
        Fact.constraint?)).problems path ≠ [] := by
  obtain ⟨hasks, hlength⟩ := asks_direct path (address ++ [.branch []]) h
  obtain ⟨k, rfl⟩ := Nat.exists_eq_add_of_le' (show 6 ≤ n by omega)
  have hexpand := expand_of_facts known address [] rfl hasks.tasks (n := k + 5) (by omega)
  rw [evaluate_of_expand hexpand hasks.choices (onlyName?_eq_none hasks.tasks)]
  exact isFailed_meet_iff (e := ⟨_, _, _, _, _⟩) hasks.facts known path address _ _

/-- Restrictions fail or not whatever the names in their places are. -/
theorem isFailed_evaluate_unnamed {known known' : Option Node} {path path' : List Text}
    {address address' : Address} {cs cs' : List Conjunct} (h : ∀ c ∈ cs, c.isPlain = true)
    (h' : ∀ c ∈ cs', c.isPlain = true)
    (hsame : cs'.map Conjunct.expr = (cs.map Conjunct.expr).map Expr.unnamed) {n n' : Nat}
    (hn : sizeOfConjuncts cs + 6 ≤ n) (hn' : sizeOfConjuncts cs' + 6 ≤ n') :
    (evaluate n' known' path' address' cs').value.isFailed = true ↔
      (evaluate n known path address cs).value.isFailed = true := by
  have hdirect :=
    direct_alike path path' (address ++ [.branch []]) (address' ++ [.branch []]) h h' hsame
  have halike := Blend.alike_of hdirect.demands
  rw [isFailed_evaluate_iff known path address h hn,
    isFailed_evaluate_iff known' path' address' h' hn', halike.kinds, ne_eq, ne_eq,
    halike.problems path path']

/-! ## What plain structs and lists come to -/

/-- The value that a declaration gives a label. -/
def Decl.valueOf? (l : Label) : Decl → Option Expr
  | .field k _ _ e => if k = l then some e else none
  | _ => none

theorem Decl.valueOf?_unnamed (l : Label) (d : Decl) :
    d.unnamed.valueOf? l = (d.valueOf? l).map Expr.unnamed := by
  cases d with
  | field k bindable optional e =>
    show (if k = l then some e.unnamed else none) =
      (if k = l then some e else none).map Expr.unnamed
    split <;> rfl
  | _ => rfl

theorem Body.expr_conjunctsOf (b : Body) (here : Address) (l : Label) :
    (b.conjunctsOf here l).map Conjunct.expr = b.decls.filterMap (Decl.valueOf? l) := by
  rw [Body.conjunctsOf, List.map_filterMap]
  refine List.filterMap_congr fun d _ => ?_
  cases d with
  | field k bindable optional e =>
    show (if k = l then some _ else none).map Conjunct.expr = if k = l then some e else none
    split <;> rfl
  | _ => rfl

theorem Value.MadeOf.isFailed_iff {v : Value} {labels : List Label} {member : Label → Value}
    (h : v.MadeOf labels member) :
    v.isFailed = true ↔ ∃ l ∈ labels, (member l).isFailed = true := by
  rcases h with ⟨hfailed, hwhy⟩ | ⟨rfl, hmembers⟩
  · exact iff_of_true hfailed hwhy
  · refine iff_of_false Bool.false_ne_true ?_
    rintro ⟨l, hl, hfailed⟩
    rw [hmembers l hl] at hfailed
    cases hfailed

theorem Value.ListOf.isFailed_iff {v : Value} {possible : Prop} {items : List Value}
    (h : v.ListOf possible items) :
    v.isFailed = true ↔ ¬possible ∨ ∃ w ∈ items, w.isFailed = true := by
  refine ⟨fun hfailed => ?_, h.isFailed⟩
  rcases h with ⟨-, hwhy⟩ | ⟨rfl, -⟩
  · exact hwhy
  · cases hfailed

namespace AreUnnamed

variable {bs bs' : List Body} (hbodies : AreUnnamed bs bs')
include hbodies

theorem expr_conjunctsOf (here here' : Address) (l : Label) :
    (bs'.flatMap fun b => b.conjunctsOf here' l).map Conjunct.expr =
      ((bs.flatMap fun b => b.conjunctsOf here l).map Conjunct.expr).map Expr.unnamed := by
  have hexprs (bs : List Body) (here : Address) :
      (bs.flatMap fun b => b.conjunctsOf here l).map Conjunct.expr =
      (bs.map Body.decls).flatMap (List.filterMap (Decl.valueOf? l)) := by
    rw [List.map_flatMap, List.flatMap_map]
    exact List.flatMap_congr fun b _ => b.expr_conjunctsOf here l
  rw [hexprs, hexprs, hbodies, List.map_flatMap, List.flatMap_map, List.flatMap_map]
  refine List.flatMap_congr fun b _ => ?_
  rw [List.filterMap_map, List.map_filterMap]
  exact List.filterMap_congr fun d _ => d.valueOf?_unnamed l

theorem mem_labelsOf {l : Label} : l ∈ labelsOf bs' ↔ l ∈ labelsOf bs := by
  rw [Config.mem_labelsOf, Config.mem_labelsOf]
  refine hbodies.exists_iff (P := fun ds => ∃ bindable e, .field l bindable false e ∈ ds)
    fun ds => ?_
  constructor
  · rintro ⟨bindable, e, he⟩
    obtain ⟨d, hd, heq⟩ := List.mem_map.mp he
    cases d with
    | field k bindable' optional e' =>
      cases heq
      exact ⟨bindable, e', hd⟩
    | _ => cases heq
  · rintro ⟨bindable, e, he⟩
    exact ⟨bindable, e.unnamed, List.mem_map_of_mem he⟩

/-- A member of structs fails or not whatever the names in its places are. -/
theorem isFailed_memberNode {known known' : Option Node} {path path' : List Text}
    {here here' : Address} {name : String} (h : ∀ b ∈ bs, b.context.groups = [] ∧ b.PlainAt name)
    (h' : ∀ b ∈ bs', b.context.groups = [] ∧ b.PlainAt name) {n n' : Nat}
    (hn : sizeOfBodies bs + 6 ≤ n) (hn' : sizeOfBodies bs' + 6 ≤ n') :
    (memberNode n' known' path' here' bs' (.regular name)).value.isFailed = true ↔
      (memberNode n known path here bs (.regular name)).value.isFailed = true := by
  rw [memberNode, memberNode, if_pos (admits_of_groups (fun b hb => (h b hb).1) _),
    if_pos (admits_of_groups (fun b hb => (h' b hb).1) _)]
  have hsize := sizeOfConjuncts_conjunctsOf_le bs here (.regular name)
  have hsize' := sizeOfConjuncts_conjunctsOf_le bs' here' (.regular name)
  exact isFailed_evaluate_unnamed (isPlain_conjunctsOf (fun b hb => (h b hb).2) here)
    (isPlain_conjunctsOf (fun b hb => (h' b hb).2) here') (hbodies.expr_conjunctsOf here here' _)
    (by omega) (by omega)

/-- Structs fail or not whatever the names in their places are, if their members do. -/
theorem isFailed_structValue {known known' : Option Node} {path path' : List Text}
    {here here' : Address} {n n' : Nat}
    (h : ∀ l ∈ labelsOf bs, (memberNode n' known' path' here' bs' l).value.isFailed = true ↔
      (memberNode n known path here bs l).value.isFailed = true) :
    (structValue (membersOf n' known' path' here' bs')).isFailed = true ↔
      (structValue (membersOf n known path here bs)).isFailed = true := by
  rw [membersOf, membersOf, (structValue_madeOf _ _).isFailed_iff,
    (structValue_madeOf _ _).isFailed_iff]
  refine exists_congr fun l => ?_
  rw [hbodies.mem_labelsOf]
  exact and_congr_right (h l)

end AreUnnamed

theorem Conjunct.decls_body_unnamed {c c' : Conjunct} (h : c'.expr = c.expr.unnamed) :
    c'.body.decls = c.body.decls.map Decl.unnamed := by
  unfold Conjunct.body
  rw [h]
  cases c.expr with
  | struct p ds => exact unnamedDecls_eq ds
  | _ => rfl

theorem areUnnamed_body {cs cs' : List Conjunct}
    (h : cs'.map Conjunct.expr = (cs.map Conjunct.expr).map Expr.unnamed) :
    AreUnnamed (cs.map Conjunct.body) (cs'.map Conjunct.body) := by
  induction cs generalizing cs' with
  | nil =>
    obtain rfl := List.map_eq_nil_iff.mp h
    rfl
  | cons c cs ih =>
    obtain ⟨c', cs', rfl, hc, hcs⟩ := List.map_eq_cons_iff.mp h
    exact congrArg₂ List.cons (Conjunct.decls_body_unnamed hc) (ih hcs)

theorem ne_nil_of_unnamed {cs cs' : List Conjunct}
    (h : cs'.map Conjunct.expr = (cs.map Conjunct.expr).map Expr.unnamed) (hne : cs ≠ []) :
    cs' ≠ [] := by
  rintro rfl
  exact hne (List.map_eq_nil_iff.mp (List.map_eq_nil_iff.mp h.symm))

/-- Rows fail or not whatever the names in their places are. -/
theorem isFailed_evaluate_rows_unnamed {known known' : Option Node} {path path' : List Text}
    {address address' : Address} {rows rows' : List Conjunct} (hne : rows ≠ [])
    (hrows : ∀ r ∈ rows, r.IsRow) (hrows' : ∀ r ∈ rows', r.IsRow)
    (hsame : rows'.map Conjunct.expr = (rows.map Conjunct.expr).map Expr.unnamed) {n n' : Nat}
    (hn : sizeOfBodies (rows.map Conjunct.body) + 8 ≤ n)
    (hn' : sizeOfBodies (rows'.map Conjunct.body) + 8 ≤ n') :
    (evaluate n' known' path' address' rows').value.isFailed = true ↔
      (evaluate n known path address rows).value.isFailed = true := by
  have hne' := ne_nil_of_unnamed hsame hne
  have hcases := isCase_of_rows hrows
  have hcases' := isCase_of_rows hrows'
  obtain ⟨k, rfl⟩ := Nat.exists_eq_add_of_le' (show 6 ≤ n by omega)
  obtain ⟨k', rfl⟩ := Nat.exists_eq_add_of_le' (show 6 ≤ n' by omega)
  rw [evaluate_of_records known path address hne fun r hr => (hrows r hr).isRecord,
    evaluate_of_records known' path' address' hne' fun r hr => (hrows' r hr).isRecord]
  have hbodies := areUnnamed_body hsame
  refine hbodies.isFailed_structValue fun l hl => ?_
  obtain ⟨b, hb, bindable, e, he⟩ := mem_labelsOf.mp hl
  obtain ⟨name, rfl⟩ :=
    (hcases b hb).1.exists_name_of_mem_labels (Body.mem_labels.mpr ⟨bindable, e, he⟩)
  exact hbodies.isFailed_memberNode (fun b hb => ⟨(hcases b hb).2, (hcases b hb).1.plain name⟩)
    (fun b hb => ⟨(hcases' b hb).2, (hcases' b hb).1.plain name⟩) (by omega) (by omega)

/-- The items of a list. -/
def Expr.items : Expr → List Expr
  | .list _ items _ => items
  | _ => []

theorem Expr.items_unnamed (e : Expr) : e.unnamed.items = e.items.map Expr.unnamed := by
  cases e with
  | list p items tail => exact unnamedItems_eq items
  | _ => rfl

theorem Conjunct.length_sequence (c : Conjunct) : c.sequence.length = c.expr.items.length := by
  obtain ⟨e, context⟩ := c
  cases e <;> rfl

theorem Conjunct.IsCaseList.expr_conjunct? {c : Conjunct} (h : c.IsCaseList) (i : Nat) :
    (c.sequence.conjunct? i).map Conjunct.expr = c.expr.items[i]? := by
  obtain ⟨e, context⟩ := c
  obtain ⟨p, items, rfl, -⟩ := h.exists_list
  simp [Conjunct.sequence, Sequence.conjunct?, Expr.items, Function.comp_def]

theorem expr_rowsAt {lists : List Conjunct} (hlists : ∀ c ∈ lists, c.IsCaseList) (i : Nat) :
    (rowsAt lists i).map Conjunct.expr = (lists.map Conjunct.expr).filterMap fun e =>
      e.items[i]? := by
  rw [rowsAt, List.map_filterMap, List.filterMap_map]
  exact List.filterMap_congr fun c hc => (hlists c hc).expr_conjunct? i

theorem listProblems_eq_nil_iff (path : List Text) {lists : List Conjunct}
    (hlists : ∀ c ∈ lists, c.IsCaseList) :
    listProblems path (lists.map Conjunct.sequence) = [] ↔
      ∃ length, ∀ c ∈ lists, c.sequence.length = length := by
  constructor
  · intro h
    cases lists with
    | nil => exact ⟨0, List.forall_mem_nil _⟩
    | cons c lists =>
      obtain ⟨hc, hrest⟩ := List.forall_mem_cons.mp hlists
      rw [List.map_cons, listProblems, isClosed_sequence hc, lengthProblems_eq_nil_iff,
        List.forall_mem_map] at h
      refine ⟨c.sequence.length, List.forall_mem_cons.mpr ⟨rfl, fun c' hc' => ?_⟩⟩
      obtain ⟨hle, hge⟩ := h c' hc'
      exact le_antisymm hle (hge (isClosed_sequence (hrest c' hc')))
  · rintro ⟨length, hlengths⟩
    exact listProblems_eq_nil path hlists hlengths

section Lists

variable {lists lists' : List Conjunct}
  (hsame : lists'.map Conjunct.expr = (lists.map Conjunct.expr).map Expr.unnamed)
include hsame

theorem length_sequence_unnamed (n : Nat) :
    (∀ c ∈ lists', c.sequence.length = n) ↔ ∀ c ∈ lists, c.sequence.length = n := by
  have hlengths (cs : List Conjunct) : (∀ c ∈ cs, c.sequence.length = n) ↔
      ∀ e ∈ cs.map Conjunct.expr, e.items.length = n := by
    simp only [List.forall_mem_map, Conjunct.length_sequence]
  rw [hlengths lists', hlengths lists, hsame, List.forall_mem_map]
  simp only [Expr.items_unnamed, List.length_map]

theorem expr_rowsAt_unnamed (hlists : ∀ c ∈ lists, c.IsCaseList)
    (hlists' : ∀ c ∈ lists', c.IsCaseList) (i : Nat) :
    (rowsAt lists' i).map Conjunct.expr =
      ((rowsAt lists i).map Conjunct.expr).map Expr.unnamed := by
  rw [expr_rowsAt hlists, expr_rowsAt hlists', hsame, List.filterMap_map, List.map_filterMap]
  refine List.filterMap_congr fun e _ => ?_
  rw [Function.comp_apply, Expr.items_unnamed, List.getElem?_map]

/-- Lists of rows fail or not whatever the names in their places are. -/
theorem isFailed_evaluate_lists_unnamed {known known' : Option Node} {path path' : List Text}
    {address address' : Address} (hne : lists ≠ []) (hlists : ∀ c ∈ lists, c.IsCaseList)
    (hlists' : ∀ c ∈ lists', c.IsCaseList) {n n' : Nat} (hn : sizeOfConjuncts lists + 10 ≤ n)
    (hn' : sizeOfConjuncts lists' + 10 ≤ n') :
    (evaluate n' known' path' address' lists').value.isFailed = true ↔
      (evaluate n known path address lists).value.isFailed = true := by
  have hne' := ne_nil_of_unnamed hsame hne
  obtain ⟨m, rfl⟩ := Nat.exists_eq_add_of_le' (show 2 ≤ n by omega)
  obtain ⟨m', rfl⟩ := Nat.exists_eq_add_of_le' (show 2 ≤ n' by omega)
  rw [(listOf_evaluate known path address hne hlists (m := m) (by omega)).isFailed_iff,
    (listOf_evaluate known' path' address' hne' hlists' (m := m') (by omega)).isFailed_iff,
    listProblems_eq_nil_iff path hlists, listProblems_eq_nil_iff path' hlists']
  simp only [length_sequence_unnamed hsame]
  -- lists of different lengths fail with and without names, so only those of one length are left
  refine or_congr_right' fun hpossible => ?_
  obtain ⟨length, hlengths⟩ := not_not.mp hpossible
  rw [commonCount_sequence hne hlists hlengths,
    commonCount_sequence hne' hlists' ((length_sequence_unnamed hsame length).mpr hlengths)]
  simp only [List.mem_map, exists_exists_and_eq_and, List.mem_range]
  refine exists_congr fun i => and_congr_right fun hi => ?_
  obtain ⟨c, hc⟩ := List.exists_mem_of_ne_nil _ hne
  have hsize := sizeOfBodies_rowsAt_le hlists i
  have hsize' := sizeOfBodies_rowsAt_le hlists' i
  exact isFailed_evaluate_rows_unnamed (rowsAt_ne_nil hlists hc (hlengths c hc ▸ hi))
    (isRow_of_mem_rowsAt hlists) (isRow_of_mem_rowsAt hlists')
    (expr_rowsAt_unnamed hsame hlists hlists' i) (by omega) (by omega)

end Lists

/-! ## A plain layer by itself -/

/-- A plain layer has a value or not whatever the names in its places are. -/
theorem isFailed_unify_unnamed {e : Expr} (h : e.IsPlainLayer) :
    (unify [e.unnamed]).isFailed = true ↔ (unify [e]).isFailed = true := by
  have h' := Expr.isPlainLayer_unnamed.mpr h
  have hbodies : AreUnnamed (layerBodies e) (layerBodies e.unnamed) := e.decls_bodies_unnamed _ _ _
  have hfuel := sizeOfBodies_layer_le h
  have hfuel' := sizeOfBodies_layer_le h'
  obtain ⟨known, hunify⟩ := exists_unify_eq h
  obtain ⟨known', hunify'⟩ := exists_unify_eq h'
  rw [hunify, hunify']
  refine hbodies.isFailed_structValue fun l hl => ?_
  obtain ⟨b, hb, bindable, value, hvalue⟩ := mem_labelsOf.mp hl
  obtain ⟨name, rfl⟩ :=
    (h.isPlain hb).exists_name_of_mem_labels (Body.mem_labels.mpr ⟨bindable, value, hvalue⟩)
  by_cases hname : name = "cases"
  · subst hname
    rw [memberNode, memberNode, if_pos (admits_layerBodies h _), if_pos (admits_layerBodies h' _)]
    have hsize := sizeOfConjuncts_conjunctsOf_le (layerBodies e) [.branch []] (.regular "cases")
    have hsize' :=
      sizeOfConjuncts_conjunctsOf_le (layerBodies e.unnamed) [.branch []] (.regular "cases")
    have hlists {e : Expr} (h : e.IsPlainLayer) :
        ∀ c ∈ (layerBodies e).flatMap fun b => b.conjunctsOf [.branch []] (.regular "cases"),
        c.IsCaseList := by
      intro c hc
      obtain ⟨b, hb, hc⟩ := List.mem_flatMap.mp hc
      exact (h.isPlain hb).isCaseList_of_mem_conjunctsOf _ c hc
    refine isFailed_evaluate_lists_unnamed (hbodies.expr_conjunctsOf _ _ _) ?_ (hlists h)
      (hlists h') (le_trans (Nat.add_le_add_right hsize 10) hfuel)
      (le_trans (Nat.add_le_add_right hsize' 10) hfuel')
    exact List.ne_nil_of_mem (List.mem_flatMap.mpr
      ⟨b, hb, Body.mem_conjunctsOf.mpr ⟨bindable, false, value, hvalue, rfl⟩⟩)
  · exact hbodies.isFailed_memberNode
      (fun b hb => ⟨(h.isPlain hb).groups, (h.isPlain hb).plainAt hname⟩)
      (fun b hb => ⟨(h'.isPlain hb).groups, (h'.isPlain hb).plainAt hname⟩) (by omega) (by omega)

/-- **A plain layer passes by itself under every name if under one.** -/
theorem exists_compile_eq_ok_of_isPlainLayer {layer text : Text} {e : Expr}
    (hcompile : compile layer text = .ok e) (hplain : e.IsPlainLayer) (layer' : Text) :
    ∃ e', compile layer' text = .ok e' ∧ e'.unnamed = e.unnamed := by
  obtain ⟨hread, -, hvalue⟩ := compile_eq_ok_iff.mp hcompile
  have hunnamed : (Source.read layer' text).toOption.map Expr.unnamed = some e.unnamed := by
    rw [← Source.toOption_read_unnamed, Source.toOption_read_unnamed layer, hread]
    rfl
  obtain ⟨e', hread', heq⟩ := Option.map_eq_some_iff.mp hunnamed
  have hplain' : e'.IsPlainLayer := by
    rw [← Expr.isPlainLayer_unnamed, heq, Expr.isPlainLayer_unnamed]
    exact hplain
  refine ⟨e',
    compile_eq_ok_iff.mpr ⟨eq_ok_of_toOption hread', Expr.faults_of_isPlainLayer hplain', ?_⟩, heq⟩
  rw [← Bool.not_eq_true, ← isFailed_unify_unnamed hplain', heq, isFailed_unify_unnamed hplain,
    Bool.not_eq_true]
  exact hvalue

end Config
end RepeatedAddition
