import Mathlib.Data.Rat.Floor
import RepeatedAddition.Proofs.Constraint

/-!
# Constraints that go together

A blend remembers its first atom and its tightest limits, and notes conflicts as they come up.  So
it is a matter of order what it remembers and what it says of a conflict.  Whether there is one is
not: constraints go together exactly if some atom meets them all, and then the blend is that atom,
or leaves it open if none of them is an atom.

`Proofs.Constraint` has the one half, that nothing gets lost.  Here is the other: constraints that
an atom meets are never in conflict.  It needs care where limits meet, because two limits are in
conflict already if no *whole* number lies between them.

* `Decimal.floor_eq`, `Decimal.ceiling_eq`: the whole numbers next to a number.
* `Demand.IsPlain`, `Demand.MetBy`: literals, types and limits by numbers, and the atoms that meet
  them.
* `Blend.suits_of`: what an atom meets is not in conflict.
-/

namespace RepeatedAddition
namespace Config

/-! ## Whole numbers between limits -/

namespace Decimal

theorem ofInt_natCast (n : Nat) : ofInt n = ofNat n := by
  simp [ofInt, ofNat]

theorem value_ofInt (n : ℤ) : (ofInt n).value = n := by
  rcases lt_or_ge n 0 with h | h
  · have habs : |(n : ℚ)| = -n := abs_of_neg (Int.cast_lt_zero.mpr h)
    simp [value, ofInt, h, habs]
  · have habs : |(n : ℚ)| = n := abs_of_nonneg (Int.cast_nonneg h)
    simp [value, ofInt, not_lt.mpr h, habs]

theorem ofInt_inj {m n : ℤ} (h : ofInt m = ofInt n) : m = n := by
  have hvalue := congrArg value h
  rw [value_ofInt, value_ofInt] at hvalue
  exact_mod_cast hvalue

theorem units_ofInt (n : ℤ) : (ofInt n).units 0 = n := by
  have hvalue := units_mul (ofInt n) le_rfl
  rw [value_ofInt] at hvalue
  simpa [ofInt] using hvalue

theorem negated_ofInt (n : ℤ) : (ofInt n).negated = ofInt (-n) := by
  rcases lt_trichotomy n 0 with h | rfl | h
  · simp [negated, ofInt, isZero, h, h.ne, not_lt.mpr h.le]
  · rfl
  · simp [negated, ofInt, isZero, h, h.ne', not_lt.mpr h.le]

theorem value_of_nonneg {d : Decimal} (h : 0 ≤ d.exponent) : d.value = d.units 0 := by
  rw [← units_mul d h]
  simp

/-- The whole number below a number. -/
theorem floor_eq (d : Decimal) : d.floor = ⌊d.value⌋ := by
  unfold floor
  split
  · next h => rw [value_of_nonneg h, Int.floor_intCast]
  · next h =>
    have hscale : (10 : ℚ) ^ d.exponent = ((Nat.pow 10 (-d.exponent).toNat : Nat) : ℚ)⁻¹ := by
      rw [Nat.pow_eq, Nat.cast_pow, ← zpow_natCast, ← zpow_neg, Int.toNat_of_nonneg (by omega)]
      simp
    rw [← units_mul d le_rfl, hscale, ← div_eq_mul_inv, Rat.floor_intCast_div_natCast]
    exact Int.fdiv_eq_ediv_of_nonneg _ (Int.natCast_nonneg _)

theorem value_opposite (d : Decimal) :
    ({ d with negative := !d.negative } : Decimal).value = -d.value := by
  cases hnegative : d.negative <;> simp [value, hnegative]

/-- The whole number above a number. -/
theorem ceiling_eq (d : Decimal) : d.ceiling = ⌈d.value⌉ := by
  rw [ceiling, floor_eq, value_opposite, Int.floor_neg, neg_neg]

end Decimal

/-- Whether an atom is written as it is meant: a whole number has no power of ten, and a zero no
sign, and what cannot be counted is left out. -/
def Atom.isPlain : Atom → Bool
  | .int d => d = .ofInt (d.units 0)
  | .noNumber => false
  | _ => true

theorem Atom.isPlain_int {d : Decimal} (h : (Atom.int d).isPlain = true) : d = .ofInt (d.units 0) :=
  of_decide_eq_true h

/-- A plain number without a sign is its coefficient. -/
theorem Atom.eq_ofNat_of_isPlain {d : Decimal} (h : (Atom.int d).isPlain = true)
    (hnegative : d.negative = false) :
    d = .ofNat d.coefficient := by
  have hexponent : d.exponent = 0 := congrArg Decimal.exponent (Atom.isPlain_int h)
  rw [Decimal.ofNat, ← hnegative, ← hexponent]

theorem Atom.isPlain_ofInt (n : ℤ) : (Atom.int (.ofInt n)).isPlain = true :=
  decide_eq_true (by rw [Decimal.units_ofInt])

theorem Atom.isPlain_ofNat (n : Nat) : (Atom.int (.ofNat n)).isPlain = true := by
  rw [← Decimal.ofInt_natCast]
  exact isPlain_ofInt n

namespace Limit

variable {l u : Limit} {a : Atom}

/-- What is no number keeps no limit by a number. -/
theorem not_keptBy_of_not_number {d : Decimal} (ha : a.number? = none)
    (hl : l.limit.number? = some d) (hbound : l.bound ≠ .differs) : ¬l.KeptBy a := by
  have horder : a.order? l.limit = none := by
    rcases Atom.number?_eq_some_iff.mp hl with hint | hfloat
    · rw [hint]
      cases a <;> first | rfl | cases ha
    · rw [hfloat]
      cases a <;> first | rfl | cases ha
  unfold KeptBy
  cases hb : l.bound <;> simp_all [Bound.admits]

/-- Limits that a number keeps leave room between them, and if not, they both admit it. -/
theorem le_of_holds {low high n : ℚ} (hlower : l.IsLower) (hupper : u.IsUpper)
    (hlow : l.bound.Holds low n) (hhigh : u.bound.Holds high n) :
    low ≤ high ∧ (low = high → (l.isStrict || u.isStrict) = false) := by
  rcases hlower with hl | hl <;> rcases hupper with hu | hu <;> rw [hl] at hlow <;>
    rw [hu] at hhigh <;> simp only [Bound.Holds] at hlow hhigh
  · exact ⟨by linarith, fun h => absurd h (by linarith)⟩
  · exact ⟨by linarith, fun h => absurd h (by linarith)⟩
  · exact ⟨by linarith, fun h => absurd h (by linarith)⟩
  · exact ⟨by linarith, fun _ => by simp [isStrict, hl, hu]⟩

/-- Between limits that a whole number keeps there is a whole number. -/
theorem excludesWhole_eq_false {low high : Decimal} {n : ℤ} (hlower : l.IsLower)
    (hupper : u.IsUpper) (hlow : l.bound.Holds low.value n) (hhigh : u.bound.Holds high.value n) :
    l.excludesWhole u low high = false := by
  have hlow' : (if l.isStrict then low.floor + 1 else low.ceiling) ≤ n := by
    rw [Decimal.floor_eq, Decimal.ceiling_eq]
    rcases hlower with hl | hl <;> rw [hl] at hlow
    · rw [if_pos (by simp [isStrict, hl])]
      exact Int.floor_lt.mpr (by exact_mod_cast hlow)
    · rw [if_neg (by simp [isStrict, hl])]
      exact Int.ceil_le.mpr (by exact_mod_cast hlow)
  have hhigh' : n ≤ if u.isStrict then high.ceiling - 1 else high.floor := by
    rw [Decimal.floor_eq, Decimal.ceiling_eq]
    rcases hupper with hu | hu <;> rw [hu] at hhigh
    · rw [if_pos (by simp [isStrict, hu])]
      have hlt : n < ⌈high.value⌉ := Int.lt_ceil.mpr (by exact_mod_cast hhigh)
      omega
    · rw [if_neg (by simp [isStrict, hu])]
      exact Int.le_floor.mpr (by exact_mod_cast hhigh)
  unfold excludesWhole
  revert hlow' hhigh'
  cases l.isStrict <;> cases u.isStrict <;> simp <;> omega

/-- Limits that a plain atom keeps leave a value. -/
theorem isEmpty_eq_false {kinds : List Kind} (ha : a.isPlain = true) (hkind : a.kind ∈ kinds)
    (hlower : l.IsLower) (hupper : u.IsUpper) (hl : l.KeptBy a) (hu : u.KeptBy a) :
    l.isEmpty kinds u = false := by
  have hbound : l.bound ≠ .differs := by
    rcases hlower with h | h <;> rw [h] <;> decide
  unfold isEmpty
  split
  · next low high hlow hhigh =>
    cases hx : a.number? with
    | none => exact absurd hl (not_keptBy_of_not_number hx hlow hbound)
    | some x =>
      have hl' : l.bound.Holds low.value x.value := (Bound.admits_iff hx hlow).mp hl
      have hu' : u.bound.Holds high.value x.value := (Bound.admits_iff hx hhigh).mp hu
      split
      · rw [Decimal.order_eq_compare]
        obtain ⟨hle, heq⟩ := le_of_holds hlower hupper hl' hu'
        rcases hle.lt_or_eq with hlt | hsame
        · rw [compare_lt_iff_lt.mpr hlt]
        · rw [compare_eq_iff_eq.mpr hsame]
          exact heq hsame
      · next hfloat =>
        -- without fractional numbers the atom is a whole one
        rcases Atom.number?_eq_some_iff.mp hx with rfl | rfl
        · rw [Atom.isPlain_int ha, Decimal.value_ofInt] at hl' hu'
          exact excludesWhole_eq_false hlower hupper hl' hu'
        · exact absurd (List.contains_iff_mem.mpr hkind) hfloat
  · rfl

end Limit

/-! ## Plain demands -/

/-- A demand that is made without a choice and without a name: a literal, a predeclared type, or a
limit by a number. -/
def Demand.IsPlain : Demand → Prop
  | .atom a => a.isPlain = true
  | .type t => t ∈ Predeclared.all
  | .limit _ l => l.number?.isSome = true
  | _ => False

/-- An atom meets a plain demand: it is the literal, of the type, or a number that keeps the
limit. -/
def Demand.MetBy (a : Atom) : Demand → Prop
  | .atom b => b.agrees a = true
  | .type t => a.kind ∈ t.kinds ∧ ∀ x, a.number? = some x →
    (∀ d ∈ t.least, d.value ≤ x.value) ∧ ∀ d ∈ t.greatest, x.value ≤ d.value
  | .limit bound l => ∃ x d, a.number? = some x ∧ l.number? = some d ∧ bound.Holds d.value x.value
  | _ => False

/-- An atom is what demands determine: one of them is the atom itself, and it meets them all. -/
def Determined (demands : Set Demand) (a : Atom) : Prop :=
  Demand.atom a ∈ demands ∧ ∀ d ∈ demands, d.MetBy a

theorem Atom.kind_eq_of_agrees {a b : Atom} (h : a.agrees b = true) : a.kind = b.kind := by
  cases a <;> cases b <;> first | rfl | simp [Atom.agrees] at h

theorem Atom.agrees_symm {a b : Atom} (h : a.agrees b = true) : b.agrees a = true := by
  cases a <;> cases b <;> simp_all [Atom.agrees, Decimal.order_eq_compare]

theorem Atom.agrees_trans {a b c : Atom} (h : a.agrees b = true) (h' : b.agrees c = true) :
    a.agrees c = true := by
  cases a <;> cases b <;> cases c <;> simp_all [Atom.agrees, Decimal.order_eq_compare]

/-- Plain atoms that agree are the same, unless they are fractional. -/
theorem Atom.eq_of_agrees {a b : Atom} (ha : a.isPlain = true) (hb : b.isPlain = true)
    (hkind : a.kind ≠ .float) (h : a.agrees b = true) : a = b := by
  cases a <;> cases b <;> try simp [Atom.agrees] at h
  case int.int d d' =>
    have hvalue : d.value = d'.value := by simpa [Decimal.order_eq_compare] using h
    rw [Atom.isPlain_int ha, Atom.isPlain_int hb, Decimal.value_ofInt,
      Decimal.value_ofInt] at hvalue
    rw [Atom.isPlain_int ha, Atom.isPlain_int hb, Int.cast_injective hvalue]
  case float.float => exact absurd rfl hkind
  all_goals simp_all

/-- A number of a type with limits, or of a limit, is all that such a demand can be met by. -/
theorem Atom.number_of_kind {a : Atom} (ha : a.isPlain = true)
    (hkind : a.kind ∈ [Kind.int, .float]) :
    ∃ x, a.number? = some x := by
  cases a with
  | int d => exact ⟨d, rfl⟩
  | float d => exact ⟨d, rfl⟩
  | noNumber => cases ha
  | _ => simp [Atom.kind] at hkind

/-- Only types of numbers have limits. -/
theorem Predeclared.kinds_of_isRange {t : Predeclared} (ht : t ∈ Predeclared.all)
    (hrange : t.isRange = true) :
    ∀ k ∈ t.kinds, k ∈ [Kind.int, .float] := by
  revert t
  decide +kernel

theorem Kind.mem_all (k : Kind) : k ∈ Kind.all := by
  cases k <;> decide

namespace Demand

variable {a : Atom} {d : Demand} {c : Constraint}

theorem kind_mem_of_metBy (h : d.MetBy a) (hc : c.demand = d) : a.kind ∈ c.kinds := by
  subst hc
  unfold Constraint.kinds
  cases hd : c.demand with
  | atom b =>
    rw [hd] at h
    exact List.mem_singleton.mpr (Atom.kind_eq_of_agrees h).symm
  | type t =>
    rw [hd] at h
    exact h.1
  | limit bound l =>
    rw [hd] at h
    obtain ⟨x, y, hx, hy, -⟩ := h
    rcases Atom.number?_eq_some_iff.mp hx with rfl | rfl <;>
      rcases Atom.number?_eq_some_iff.mp hy with rfl | rfl <;> simp [Bound.kinds, Atom.kind]
  | _ =>
    rw [hd] at h
    exact h.elim

/-- Atoms that agree meet the same demands. -/
theorem metBy_of_agrees {b : Atom} (hab : a.agrees b = true) (h : d.MetBy a) : d.MetBy b := by
  have hkind := Atom.kind_eq_of_agrees hab
  cases d with
  | atom x => exact Atom.agrees_trans h hab
  | type t =>
    refine ⟨hkind ▸ h.1, fun y hy => ?_⟩
    obtain ⟨x, hx, hvalue⟩ := Atom.value_eq_of_agrees hab hy
    exact hvalue ▸ h.2 x hx
  | limit bound l =>
    obtain ⟨x, d, hx, hd, hholds⟩ := h
    obtain ⟨y, hy, hvalue⟩ := Atom.value_eq_of_agrees (Atom.agrees_symm hab) hx
    exact ⟨y, d, hy, hd, hvalue ▸ hholds⟩
  | _ => exact h.elim

/-- What a constraint asks of a plain atom of one of its kinds, for a plain demand. -/
theorem metBy_of_admits (hd : d.IsPlain) (ha : a.isPlain = true) (hc : c.demand = d)
    (hkind : a.kind ∈ c.kinds) (h : d.Admits a) : d.MetBy a := by
  subst hc
  unfold Constraint.kinds at hkind
  cases hcase : c.demand with
  | atom b =>
    rw [hcase] at h
    exact h
  | type t =>
    rw [hcase] at h
    exact h
  | limit bound l =>
    rw [hcase] at h hd hkind
    obtain ⟨y, hy⟩ := Option.isSome_iff_exists.mp hd
    have hnumber : a.kind ∈ [Kind.int, .float] := by
      rcases Atom.number?_eq_some_iff.mp hy with rfl | rfl <;> exact hkind
    obtain ⟨x, hx⟩ := Atom.number_of_kind ha hnumber
    exact ⟨x, y, hx, hy, h x y hx hy⟩
  | _ =>
    rw [hcase] at hd
    exact hd.elim

end Demand

/-! ## Blends of plain demands -/

namespace Blend

variable {b : Blend} {a : Atom}

/-- An atom suits a blend: it is of a kind that is left, nothing is in conflict, and it agrees with
all that the blend remembers. -/
structure Suits (b : Blend) (a : Atom) : Prop where
  kind : a.kind ∈ b.kinds
  quiet : b.conflicts = []
  atom : ∀ p ∈ b.atom, p.1.agrees a = true
  limits : ∀ l ∈ b.limits, l.KeptBy a

theorem addLimit_eq (b : Blend) (l : Limit) : ∃ lower upper excluded,
    b.addLimit l = { b with lower := lower, upper := upper, excluded := excluded } ∧
      ∀ l' ∈ (b.addLimit l).limits, l' ∈ b.limits ∨ l' = l := by
  simp only [mem_limits]
  rcases isLower_or l with hside | hside | hside
  · rw [addLimit_lower b hside]
    refine ⟨_, _, _, rfl, fun l' hl' => ?_⟩
    rcases hl' with hlower | hrest
    · obtain rfl := Option.some.inj hlower
      exact (Limit.joined_eq_or .lt b.lower l).imp_left Or.inl
    · exact Or.inl (Or.inr hrest)
  · rw [addLimit_upper b hside]
    refine ⟨_, _, _, rfl, fun l' hl' => ?_⟩
    rcases hl' with hlower | hupper | hrest
    · exact Or.inl (Or.inl hlower)
    · obtain rfl := Option.some.inj hupper
      exact (Limit.joined_eq_or .gt b.upper l).imp_left fun h => Or.inr (Or.inl h)
    · exact Or.inl (Or.inr (Or.inr hrest))
  · rw [addLimit_differs b hside]
    split
    · exact ⟨_, _, _, rfl, fun l' hl' => Or.inl hl'⟩
    · refine ⟨_, _, _, rfl, fun l' hl' => ?_⟩
      rcases hl' with hlower | hupper | hexcluded
      · exact Or.inl (Or.inl hlower)
      · exact Or.inl (Or.inr (Or.inl hupper))
      · exact (List.mem_append.mp hexcluded).imp (fun h => Or.inr (Or.inr h)) List.mem_singleton.mp

theorem Suits.addLimit (h : b.Suits a) {l : Limit} (hl : l.KeptBy a) : (b.addLimit l).Suits a := by
  obtain ⟨lower, upper, excluded, heq, hlimits⟩ := addLimit_eq b l
  refine ⟨by rw [heq]; exact h.kind, by rw [heq]; exact h.quiet, by rw [heq]; exact h.atom,
    fun l' hl' => ?_⟩
  rcases hlimits l' hl' with hold | rfl
  · exact h.limits l' hold
  · exact hl

theorem Suits.addLimit? (h : b.Suits a) {bound : Bound} {d? : Option Decimal}
    (hkept : ∀ d ∈ d?, (⟨bound, .int d, none⟩ : Limit).KeptBy a) :
    (b.addLimit? bound d?).Suits a := by
  cases d? with
  | none => exact h
  | some d => exact h.addLimit (hkept d rfl)

theorem Suits.addAtom (h : b.Suits a) {x : Atom} (hx : x.agrees a = true) (c : Constraint) :
    (b.addAtom x c).Suits a := by
  unfold Blend.addAtom
  split
  · refine ⟨h.kind, h.quiet, fun p hp => ?_, h.limits⟩
    obtain rfl := Option.some.inj hp
    exact hx
  · next old oldConstraint hatom =>
    rw [if_pos (Atom.agrees_trans hx (Atom.agrees_symm (h.atom _ hatom)))]
    exact h

/-- What a plain demand adds to a blend suits every atom that meets the demand. -/
theorem Suits.addContent (h : b.Suits a) {c : Constraint} (hplain : c.demand.IsPlain)
    (ha : a.isPlain = true) (hmet : c.demand.MetBy a) : (b.addContent c).Suits a := by
  obtain ⟨demand, place, route⟩ := c
  cases demand with
  | atom x => exact h.addAtom hmet _
  | type t =>
    rw [addContent_type]
    have hnumber (hrange : t.isRange = true) : ∃ x, a.number? = some x :=
      Atom.number_of_kind ha (Predeclared.kinds_of_isRange hplain hrange _ hmet.1)
    refine Suits.addLimit? (h.addLimit? fun d hd => ?_) fun d hd => ?_
    · obtain ⟨x, hx⟩ := hnumber (by simp [Predeclared.isRange, Option.mem_def.mp hd])
      exact (Bound.admits_iff hx rfl).mpr ((hmet.2 x hx).1 d hd)
    · obtain ⟨x, hx⟩ := hnumber (by simp [Predeclared.isRange, Option.mem_def.mp hd])
      exact (Bound.admits_iff hx rfl).mpr ((hmet.2 x hx).2 d hd)
  | limit bound l =>
    obtain ⟨x, d, hx, hd, hholds⟩ := hmet
    exact h.addLimit ((Bound.admits_iff hx hd).mpr hholds)
  | _ => exact hplain.elim

/-- Limits that an atom keeps are not in conflict. -/
theorem Suits.checkLimits (h : b.Suits a) (hs : b.Coherent) (ha : a.isPlain = true)
    (c : Constraint) :
    b.checkLimits c = b := by
  unfold Blend.checkLimits
  split
  · next l u hl hu =>
    rw [if_neg]
    rw [Limit.isEmpty_eq_false ha h.kind (hs.lower l hl) (hs.upper u hu)
      (h.limits l (mem_limits.mpr (Or.inl hl))) (h.limits u (mem_limits.mpr (Or.inr (Or.inl hu))))]
    exact Bool.false_ne_true
  · rfl

/-- **The step.**  A plain demand that an atom meets is not in conflict with what suits the atom. -/
theorem Suits.add (h : b.Suits a) (hs : b.Coherent) (ha : a.isPlain = true) {c : Constraint}
    (hplain : c.demand.IsPlain) (hmet : c.demand.MetBy a) : (b.add c).Suits a := by
  have hkind : a.kind ∈ Kind.common b.kinds c.kinds :=
    mem_common.mpr ⟨h.kind, Demand.kind_mem_of_metBy hmet rfl⟩
  have hnarrowed (narrowing : Option Constraint) :
      ({ b with kinds := Kind.common b.kinds c.kinds, narrowing := narrowing } : Blend).Suits a :=
    ⟨hkind, h.quiet, h.atom, h.limits⟩
  unfold Blend.add
  rw [if_neg (by simpa using List.ne_nil_of_mem h.kind)]
  dsimp only
  rw [if_neg (by simpa using List.ne_nil_of_mem hkind)]
  have hcontent :=
    (hnarrowed (if Kind.common b.kinds c.kinds = b.kinds && b.narrowing.isSome then b.narrowing
    else some c)).addContent hplain ha hmet
  have hcoherent :=
    (hs.narrowed c.kinds (if Kind.common b.kinds c.kinds = b.kinds && b.narrowing.isSome then
    b.narrowing else some c)).addContent fun k hk => (mem_common.mp hk).2
  rwa [hcontent.checkLimits hcoherent ha]

/-- **The run.**  Plain demands that an atom meets are not in conflict. -/
theorem suits_of {cs : List Constraint} (ha : a.isPlain = true)
    (hplain : ∀ c ∈ cs, c.demand.IsPlain) (hmet : ∀ c ∈ cs, c.demand.MetBy a) :
    (Blend.of cs).Suits a := by
  have hempty : ({} : Blend).Suits a := by
    refine ⟨Kind.mem_all a.kind, rfl, fun p hp => ?_, fun l hl => ?_⟩
    · cases hp
    · exact absurd hl List.not_mem_nil
  suffices hfoldl : ∀ b : Blend, b.Coherent → b.Suits a → (cs.foldl Blend.add b).Suits a from
    hfoldl {} coherent_empty hempty
  induction cs with
  | nil => exact fun b _ hb => hb
  | cons c cs ih =>
    intro b hs hb
    exact ih (fun c hc => hplain c (List.mem_cons_of_mem _ hc))
      (fun c hc => hmet c (List.mem_cons_of_mem _ hc)) _ (hs.add c)
      (hb.add hs ha (hplain c List.mem_cons_self) (hmet c List.mem_cons_self))

/-! ### What a blend comes from -/

theorem addContent_fields (b : Blend) (c : Constraint) :
    (b.addContent c).kinds = b.kinds ∧
      (∀ x, c.demand = .atom x → (b.addContent c).atom.isSome = true) ∧
      (b.atom.isSome = true → (b.addContent c).atom.isSome = true) ∧
      ∀ p ∈ (b.addContent c).atom, p ∈ b.atom ∨ c.demand = .atom p.1 := by
  obtain ⟨demand, place, route⟩ := c
  have hlimit (b : Blend) (l : Limit) : (b.addLimit l).kinds = b.kinds ∧
      (b.addLimit l).atom = b.atom := by
    obtain ⟨lower, upper, excluded, heq, -⟩ := addLimit_eq b l
    exact ⟨by rw [heq], by rw [heq]⟩
  have hlimit? (b : Blend) (bound : Bound) (d? : Option Decimal) :
      (b.addLimit? bound d?).kinds = b.kinds ∧ (b.addLimit? bound d?).atom = b.atom := by
    cases d? with
    | none => exact ⟨rfl, rfl⟩
    | some d => exact hlimit b _
  cases demand with
  | atom x =>
    unfold addContent addAtom
    dsimp only
    split
    · refine ⟨rfl, fun _ _ => rfl, fun _ => rfl, fun p hp => Or.inr ?_⟩
      obtain rfl := Option.some.inj hp
      rfl
    · next hatom =>
      split <;> exact ⟨rfl, fun _ _ => by simp [hatom], id, fun p hp => Or.inl hp⟩
  | type t =>
    rw [addContent_type]
    have hatom :=
      (hlimit? (b.addLimit? .atLeast t.least) .atMost t.greatest).2.trans
        (hlimit? b .atLeast t.least).2
    refine ⟨(hlimit? _ _ _).1.trans (hlimit? b _ _).1, nofun, fun h => hatom ▸ h,
      fun p hp => Or.inl (hatom ▸ hp)⟩
  | limit bound l =>
    have hatom := (hlimit b ⟨bound, l, some place⟩).2
    exact ⟨(hlimit b _).1, nofun, fun h => (hatom ▸ h :), fun p hp => Or.inl (hatom ▸ hp :)⟩
  | _ => exact ⟨rfl, nofun, id, fun p hp => Or.inl hp⟩

theorem checkLimits_fields (b : Blend) (c : Constraint) :
    (b.checkLimits c).kinds = b.kinds ∧ (b.checkLimits c).atom = b.atom := by
  unfold checkLimits
  split
  · split <;> exact ⟨rfl, rfl⟩
  · exact ⟨rfl, rfl⟩

/-- What a step does to the kinds and to the atom: kinds are only dropped, and while some are left
an atom stays, and comes from the blend or from the constraint. -/
theorem add_fields (b : Blend) (c : Constraint) (hkinds : (b.add c).kinds ≠ []) :
    (∀ k ∈ (b.add c).kinds, k ∈ b.kinds ∧ k ∈ c.kinds) ∧
      (∀ x, c.demand = .atom x → (b.add c).atom.isSome = true) ∧
      (b.atom.isSome = true → (b.add c).atom.isSome = true) ∧
      ∀ p ∈ (b.add c).atom, p ∈ b.atom ∨ c.demand = .atom p.1 := by
  unfold add at hkinds ⊢
  split at hkinds
  · next hempty => exact absurd (List.isEmpty_iff.mp hempty) hkinds
  · next hne =>
    rw [if_neg hne]
    dsimp only at hkinds ⊢
    split at hkinds
    · exact absurd rfl hkinds
    · next hcommon =>
      rw [if_neg hcommon]
      obtain ⟨hkinds', hnew, hold, hfrom⟩ := addContent_fields
        { b with kinds := Kind.common b.kinds c.kinds
                 narrowing :=
                   if Kind.common b.kinds c.kinds = b.kinds && b.narrowing.isSome then b.narrowing
                   else some c } c
      rw [(checkLimits_fields _ c).1, (checkLimits_fields _ c).2, hkinds']
      exact ⟨fun k hk => mem_common.mp hk, hnew, hold, hfrom⟩

/-- The same for a whole run. -/
theorem foldl_fields (cs : List Constraint) (b : Blend) (hkinds : (cs.foldl add b).kinds ≠ []) :
    (∀ k ∈ (cs.foldl add b).kinds, k ∈ b.kinds ∧ ∀ c ∈ cs, k ∈ c.kinds) ∧
      ((b.atom.isSome = true ∨ ∃ c ∈ cs, ∃ x, c.demand = .atom x) →
        (cs.foldl add b).atom.isSome = true) ∧
      ∀ p ∈ (cs.foldl add b).atom, p ∈ b.atom ∨ ∃ c ∈ cs, c.demand = .atom p.1 := by
  induction cs generalizing b with
  | nil => exact ⟨fun k hk => ⟨hk, nofun⟩, fun h => h.elim id nofun, fun p hp => Or.inl hp⟩
  | cons c cs ih =>
    obtain ⟨hall, hsome, hfrom⟩ := ih (b.add c) hkinds
    obtain ⟨k, hk⟩ := List.exists_mem_of_ne_nil _ hkinds
    obtain ⟨hstep, hnew, hold, hstepFrom⟩ := add_fields b c (List.ne_nil_of_mem (hall k hk).1)
    refine ⟨fun k hk => ?_, fun h => hsome ?_, fun p hp => ?_⟩
    · have hboth := hstep k (hall k hk).1
      exact ⟨hboth.1, List.forall_mem_cons.mpr ⟨hboth.2, (hall k hk).2⟩⟩
    · rcases h with hb | ⟨c', hc', x, hx⟩
      · exact Or.inl (hold hb)
      · rcases List.mem_cons.mp hc' with rfl | hrest
        · exact Or.inl (hnew x hx)
        · exact Or.inr ⟨c', hrest, x, hx⟩
    · rcases hfrom p hp with hadd | ⟨c', hc', hdemand⟩
      · exact (hstepFrom p hadd).imp_right fun hdemand => ⟨c, List.mem_cons_self, hdemand⟩
      · exact Or.inr ⟨c', List.mem_cons_of_mem _ hc', hdemand⟩

end Blend

/-- What constraints ask for. -/
def demandsOf (cs : List Constraint) : Set Demand := {d | ∃ c ∈ cs, c.demand = d}

namespace Blend

variable {cs : List Constraint}

/-- An atom of a blend without problems is what its constraints determine. -/
theorem determined_of {path : List Text} (hplain : ∀ d ∈ demandsOf cs, d.IsPlain)
    (hkinds : (Blend.of cs).kinds ≠ []) (hproblems : (Blend.of cs).problems path = []) {a : Atom}
    {c : Constraint} (hatom : (Blend.of cs).atom = some (a, c)) : Determined (demandsOf cs) a := by
  obtain ⟨hall, -, hfrom⟩ := foldl_fields cs {} hkinds
  obtain ⟨k, hk⟩ := List.exists_mem_of_ne_nil _ hkinds
  obtain rfl : k = a.kind := (coherent_of cs).kind _ hatom k hk
  have hadmits := admits_of_determined hkinds hproblems hatom
  have hliteral : Demand.atom a ∈ demandsOf cs := (hfrom (a, c) hatom).resolve_left nofun
  refine ⟨hliteral, ?_⟩
  rintro d ⟨c', hc', rfl⟩
  exact Demand.metBy_of_admits (hplain _ ⟨c', hc', rfl⟩) (hplain _ hliteral) rfl
    ((hall _ hk).2 c' hc') (hadmits c' hc')

/-- Constraints that determine an atom have a blend without problems, and the blend has an atom. -/
theorem exists_atom_of (path : List Text) (hplain : ∀ d ∈ demandsOf cs, d.IsPlain) {a : Atom}
    (h : Determined (demandsOf cs) a) :
    (Blend.of cs).kinds ≠ [] ∧ (Blend.of cs).problems path = [] ∧
      ∃ b c, (Blend.of cs).atom = some (b, c) := by
  have hsuits {x : Atom} (hx : x.isPlain = true) (hmet : ∀ d ∈ demandsOf cs, d.MetBy x) :
      (Blend.of cs).Suits x :=
    suits_of hx (fun c hc => hplain _ ⟨c, hc, rfl⟩) (fun c hc => hmet _ ⟨c, hc, rfl⟩)
  have hkinds := List.ne_nil_of_mem (hsuits (hplain _ h.1) h.2).kind
  obtain ⟨-, hsome, hfrom⟩ := foldl_fields cs {} hkinds
  obtain ⟨c, hc, hdemand⟩ := h.1
  obtain ⟨⟨b, c'⟩, hatom⟩ := Option.isSome_iff_exists.mp (hsome (Or.inr ⟨c, hc, a, hdemand⟩))
  refine ⟨hkinds, ?_, b, c', hatom⟩
  -- the blend keeps the first of several atoms that agree, and that one suits it as well
  have hliteral : Demand.atom b ∈ demandsOf cs := (hfrom (b, c') hatom).resolve_left nofun
  have hagrees : a.agrees b = true := Atom.agrees_symm ((hsuits (hplain _ h.1) h.2).atom _ hatom)
  have hb := hsuits (hplain _ hliteral) fun d hd => Demand.metBy_of_agrees hagrees (h.2 d hd)
  unfold problems
  rw [show (Blend.of cs).atom = some (b, c') from hatom]
  dsimp only
  rw [if_neg (by simpa using hkinds), hb.quiet, List.map_nil, List.nil_append, List.map_eq_nil_iff,
    List.filter_eq_nil_iff]
  intro l hl
  have hkept : l.bound.admits l.limit b = true := hb.limits l hl
  simp [hkept]

/-- A blend of constraints one of which is an atom has an atom, or no kind is left. -/
theorem isSome_atom_of {a : Atom} (h : Demand.atom a ∈ demandsOf cs)
    (hkinds : (Blend.of cs).kinds ≠ []) :
    (Blend.of cs).atom.isSome = true := by
  obtain ⟨c, hc, hdemand⟩ := h
  exact (foldl_fields cs {} hkinds).2.1 (Or.inr ⟨c, hc, a, hdemand⟩)

end Blend

/-- Of demands that determine an atom no other can be determined, unless they are fractional numbers
of the same value. -/
theorem Determined.unique {demands : Set Demand} (hplain : ∀ d ∈ demands, d.IsPlain) {a b : Atom}
    (ha : Determined demands a) (hb : Determined demands b) (hkind : a.kind ≠ .float) : a = b :=
  Atom.eq_of_agrees (hplain _ ha.1) (hplain _ hb.1) hkind (hb.2 _ ha.1)

/-- Demands on top of an atom determine something exactly if the atom meets them. -/
theorem exists_determined_iff {said : Set Demand} {a : Atom} :
    (∃ b, Determined (said ∪ {.atom a}) b) ↔ ∀ d ∈ said, d.MetBy a := by
  constructor
  · rintro ⟨b, -, hb⟩ d hd
    exact Demand.metBy_of_agrees (Atom.agrees_symm (hb (.atom a) (Or.inr rfl))) (hb d (Or.inl hd))
  · intro h
    refine ⟨a, Or.inr rfl, ?_⟩
    rintro d (hd | rfl)
    · exact h d hd
    · exact Atom.agrees_self a

end Config
end RepeatedAddition
