import Mathlib.Algebra.Order.Field.Power
import Mathlib.Algebra.Order.Field.Rat
import Mathlib.Tactic.Linarith
import Mathlib.Tactic.Positivity
import Mathlib.Tactic.Ring
import RepeatedAddition.Config.Constraint

/-!
# Blends keep what they are made of

Constraints are blended one after another, and a blend does not remember all of them: of two limits
the looser one is dropped, and so is an atom that agrees with the one that is there.  What is
dropped is implied by what is kept.  So an atom that a blend determines without a problem meets
every constraint that went into it, whatever their order.

The argument runs backwards.  `Blend.Fits` says that an atom meets what a blend remembers; if it
does so after a constraint was taken in, it did so before, and it meets the constraint
(`Blend.fits_of_add`).

* `Decimal.value`, `Decimal.order_eq_compare`: the order of decimals is that of the numbers they
  denote.
* `Demand.Admits`: what an atom has to be to meet a constraint.
* `Blend.admits_of_determined`: a blend without problems determines an atom that meets all its
  constraints.

A limit by an atom that is no number is left out: the blend drops it where another limit of its side
came first.
-/

namespace RepeatedAddition
namespace Config

/-! ## The order of decimals -/

namespace Decimal

/-- The number that a decimal denotes. -/
def value (d : Decimal) : ℚ :=
  (if d.negative then -(d.coefficient : ℚ) else d.coefficient) * 10 ^ d.exponent

theorem value_ofNat (n : Nat) : (ofNat n).value = n := by
  simp [value, ofNat]

theorem units_mul (d : Decimal) {e : Int} (h : e ≤ d.exponent) :
    (d.units e : ℚ) * 10 ^ e = d.value := by
  have hpow : (10 : ℚ) ^ (d.exponent - e).toNat * 10 ^ e = 10 ^ d.exponent := by
    rw [← zpow_natCast, ← zpow_add₀ (by norm_num), Int.toNat_of_nonneg (by omega)]
    congr 1
    omega
  rw [value, units, ← hpow, Nat.pow_eq]
  split <;> push_cast <;> ring

/-- **The order of decimals is that of the numbers they denote**, at whatever scale these are
written. -/
theorem order_eq_compare (a b : Decimal) : a.order b = compare a.value b.value := by
  have hpos : (0 : ℚ) < 10 ^ min a.exponent b.exponent := by positivity
  have ha := units_mul a (min_le_left a.exponent b.exponent)
  have hb := units_mul b (min_le_right a.exponent b.exponent)
  rw [order, ← ha, ← hb]
  rcases lt_trichotomy (a.units (min a.exponent b.exponent)) (b.units (min a.exponent b.exponent))
    with h | h | h
  · rw [compare_lt_iff_lt.mpr h, compare_lt_iff_lt.mpr]
    exact mul_lt_mul_of_pos_right (Int.cast_lt.mpr h) hpos
  · rw [compare_eq_iff_eq.mpr h, h, compare_eq_iff_eq.mpr rfl]
  · rw [compare_gt_iff_gt.mpr h, compare_gt_iff_gt.mpr]
    exact mul_lt_mul_of_pos_right (Int.cast_lt.mpr h) hpos

end Decimal

theorem Atom.number?_eq_some_iff {a : Atom} {x : Decimal} :
    a.number? = some x ↔ a = .int x ∨ a = .float x := by
  cases a <;> simp [Atom.number?]

/-! ## Limits -/

namespace Bound

/-- A number keeps a limit. -/
def Holds (bound : Bound) (limit x : ℚ) : Prop :=
  match bound with
  | .less => x < limit
  | .atMost => x ≤ limit
  | .greater => limit < x
  | .atLeast => limit ≤ x
  | .differs => x ≠ limit

theorem order?_of_number {a limit : Atom} {x l : Decimal} (ha : a.number? = some x)
    (hl : limit.number? = some l) :
    a.order? limit = some (compare x.value l.value) := by
  rw [← Decimal.order_eq_compare]
  rcases Atom.number?_eq_some_iff.mp ha with rfl | rfl <;>
    rcases Atom.number?_eq_some_iff.mp hl with rfl | rfl <;> rfl

/-- Limits by numbers are kept by the numbers that the limits say. -/
theorem admits_iff {bound : Bound} {a limit : Atom} {x l : Decimal} (ha : a.number? = some x)
    (hl : limit.number? = some l) : bound.admits limit a = true ↔ bound.Holds l.value x.value := by
  have horder := order?_of_number ha hl
  have hdiffers : bound = .differs →
      (bound.admits limit a = true ↔ compare x.value l.value ≠ .eq) := by
    rintro rfl
    rw [admits, ha, hl, ← Decimal.order_eq_compare]
    exact bne_iff_ne
  rcases lt_trichotomy x.value l.value with h | h | h
  · rw [compare_lt_iff_lt.mpr h] at horder hdiffers
    cases bound <;> simp_all [admits, Holds, h.le, h.ne, Ordering.isLE, Ordering.isGE]
  · rw [compare_eq_iff_eq.mpr h] at horder hdiffers
    cases bound <;> simp_all [admits, Holds, Ordering.isLE, Ordering.isGE]
  · rw [compare_gt_iff_gt.mpr h] at horder hdiffers
    cases bound <;> simp_all [admits, Holds, h.le, h.ne', Ordering.isLE, Ordering.isGE]

/-- A limit by something else is kept by no number, unless it only says what the number is not. -/
theorem admits_of_not_number {bound : Bound} {a limit : Atom} {x : Decimal}
    (ha : a.number? = some x) (hl : limit.number? = none) (hbound : bound ≠ .differs) :
    bound.admits limit a = false := by
  have horder : a.order? limit = none := by
    rcases Atom.number?_eq_some_iff.mp ha with rfl | rfl <;> cases limit <;> first | rfl | cases hl
  cases bound <;> simp_all [admits]

end Bound

namespace Limit

/-- An atom keeps a limit. -/
def KeptBy (l : Limit) (a : Atom) : Prop := l.bound.admits l.limit a = true

/-- The limit bounds a number from below. -/
def IsLower (l : Limit) : Prop := l.bound = .greater ∨ l.bound = .atLeast

/-- The limit bounds a number from above. -/
def IsUpper (l : Limit) : Prop := l.bound = .less ∨ l.bound = .atMost

variable {old new : Limit} {a : Atom} {x : Decimal}

/-- A side that excludes no more than single numbers. -/
theorem number_of_keptBy {l : Limit} (ha : a.number? = some x) (hbound : l.bound ≠ .differs)
    (h : l.KeptBy a) :
    ∃ d, l.limit.number? = some d := by
  cases hl : l.limit.number? with
  | some d => exact ⟨d, rfl⟩
  | none =>
    rw [KeptBy, Bound.admits_of_not_number ha hl hbound] at h
    cases h

/-- Of two limits of which one is a number and the other is not, the first stays. -/
theorem tighter_of_not_number {side : Ordering}
    (h : old.limit.number?.isSome ≠ new.limit.number?.isSome) :
    old.tighter side new = old := by
  have horder : old.limit.order? new.limit = none := by
    cases hold : old.limit <;> cases hnew : new.limit <;>
      first | rfl | simp [hold, hnew, Atom.number?] at h
  rw [tighter, horder]

theorem tighter_eq_or (side : Ordering) (old new : Limit) :
    old.tighter side new = old ∨ old.tighter side new = new := by
  unfold tighter
  split
  · split
    · exact Or.inr rfl
    · exact Or.inl rfl
  · split
    · exact Or.inr rfl
    · exact Or.inl rfl
  · exact Or.inl rfl

/-- Two limits bound a number from the same side; the looser one has the given order to the tighter
one. -/
def OfSide (side : Ordering) (old new : Limit) : Prop :=
  side = .lt ∧ old.IsLower ∧ new.IsLower ∨ side = .gt ∧ old.IsUpper ∧ new.IsUpper

/-- A limit from below implies every other by a smaller number. -/
theorem holds_of_isLower {l l' : Limit} {m m' n : ℚ} (hl : l.IsLower) (hl' : l'.IsLower)
    (h : l.bound.Holds m n) (hlt : m' < m) : l'.bound.Holds m' n := by
  rcases hl with hl | hl <;> rcases hl' with hl' | hl' <;> rw [hl] at h <;> rw [hl'] <;>
    simp only [Bound.Holds] at h ⊢ <;> linarith

/-- A limit from above implies every other by a larger number. -/
theorem holds_of_isUpper {l l' : Limit} {m m' n : ℚ} (hl : l.IsUpper) (hl' : l'.IsUpper)
    (h : l.bound.Holds m n) (hlt : m < m') : l'.bound.Holds m' n := by
  rcases hl with hl | hl <;> rcases hl' with hl' | hl' <;> rw [hl] at h <;> rw [hl'] <;>
    simp only [Bound.Holds] at h ⊢ <;> linarith

/-- Of two limits by one number the one that excludes the number implies both. -/
theorem holds_of_strict {side : Ordering} {m n : ℚ} (hside : OfSide side old new)
    (h : (if new.isStrict && !old.isStrict then new else old).bound.Holds m n) :
    old.bound.Holds m n ∧ new.bound.Holds m n := by
  rcases hside with ⟨-, ho | ho, hn | hn⟩ | ⟨-, ho | ho, hn | hn⟩ <;>
    simp [isStrict, ho, hn, Bound.Holds] at h ⊢ <;>
    first | exact h | exact h.le | exact ⟨h, h.le⟩ | exact ⟨h.le, h⟩

/-- Of two limits by numbers the tighter one implies both. -/
theorem keptBy_of_tighter_numbers {side : Ordering} {d d' : Decimal} (hside : OfSide side old new)
    (ha : a.number? = some x) (hold : old.limit.number? = some d)
    (hnew : new.limit.number? = some d') (h : (old.tighter side new).KeptBy a) :
    old.KeptBy a ∧ new.KeptBy a := by
  have hiff : old.KeptBy a ↔ old.bound.Holds d.value x.value := Bound.admits_iff ha hold
  have hiff' : new.KeptBy a ↔ new.bound.Holds d'.value x.value := Bound.admits_iff ha hnew
  rw [tighter, Bound.order?_of_number hold hnew] at h
  rcases lt_trichotomy d.value d'.value with hlt | heq | hgt
  · rw [compare_lt_iff_lt.mpr hlt] at h
    rcases hside with ⟨rfl, ho, hn⟩ | ⟨rfl, ho, hn⟩
    · have hkept : new.KeptBy a := h
      exact ⟨hiff.mpr (holds_of_isLower hn ho (hiff'.mp hkept) hlt), hkept⟩
    · have hkept : old.KeptBy a := h
      exact ⟨hkept, hiff'.mpr (holds_of_isUpper ho hn (hiff.mp hkept) hlt)⟩
  · rw [compare_eq_iff_eq.mpr heq] at h
    have hstrict :
        (if new.isStrict && !old.isStrict then new else old).bound.Holds d.value x.value := by
      by_cases hs : (new.isStrict && !old.isStrict) = true
      · rw [if_pos hs] at h ⊢
        exact heq ▸ hiff'.mp h
      · rw [if_neg hs] at h ⊢
        exact hiff.mp h
    obtain ⟨hkept, hkept'⟩ := holds_of_strict hside hstrict
    exact ⟨hiff.mpr hkept, hiff'.mpr (heq ▸ hkept')⟩
  · rw [compare_gt_iff_gt.mpr hgt] at h
    rcases hside with ⟨rfl, ho, hn⟩ | ⟨rfl, ho, hn⟩
    · have hkept : old.KeptBy a := h
      exact ⟨hkept, hiff'.mpr (holds_of_isLower ho hn (hiff.mp hkept) hgt)⟩
    · have hkept : new.KeptBy a := h
      exact ⟨hiff.mpr (holds_of_isUpper hn ho (hiff'.mp hkept) hgt), hkept⟩

/-- **The tighter of two limits implies both**, as far as they are limits by numbers. -/
theorem keptBy_of_tighter {side : Ordering} (hside : OfSide side old new) (ha : a.number? = some x)
    (h : (old.tighter side new).KeptBy a) :
    old.KeptBy a ∧ ∀ d, new.limit.number? = some d → new.KeptBy a := by
  have hbounds : old.bound ≠ .differs ∧ new.bound ≠ .differs := by
    rcases hside with ⟨-, ho | ho, hn | hn⟩ | ⟨-, ho | ho, hn | hn⟩ <;> rw [ho, hn] <;> decide
  cases hold : old.limit.number? with
  | none =>
    -- what is kept is a limit by a number, so it is the new one, against which the old one would
    -- have stayed
    exfalso
    have hstays : ¬old.KeptBy a := fun hkept => by
      obtain ⟨d, hd⟩ := number_of_keptBy ha hbounds.1 hkept
      rw [hold] at hd
      cases hd
    rcases tighter_eq_or side old new with heq | heq
    · exact hstays (heq ▸ h)
    · obtain ⟨d, hd⟩ := number_of_keptBy ha hbounds.2 (heq ▸ h)
      rw [tighter_of_not_number (by simp [hold, hd])] at h
      exact hstays h
  | some d =>
    cases hnew : new.limit.number? with
    | none =>
      rw [tighter_of_not_number (by simp [hold, hnew])] at h
      exact ⟨h, nofun⟩
    | some d' =>
      obtain ⟨hkept, hkept'⟩ := keptBy_of_tighter_numbers hside ha hold hnew h
      exact ⟨hkept, fun _ _ => hkept'⟩

/-- The limit of a side once another one was taken in. -/
def joined (side : Ordering) (old? : Option Limit) (new : Limit) : Limit :=
  match old? with
  | some old => old.tighter side new
  | none => new

theorem joined_eq_or (side : Ordering) (old? : Option Limit) (new : Limit) :
    joined side old? new ∈ old? ∨ joined side old? new = new := by
  cases old? with
  | none => exact Or.inr rfl
  | some old =>
    rcases tighter_eq_or side old new with h | h
    · exact Or.inl (congrArg some h).symm
    · exact Or.inr h

theorem keptBy_of_joined {side : Ordering} {old? : Option Limit}
    (hside : ∀ old ∈ old?, OfSide side old new) (ha : a.number? = some x)
    (h : (joined side old? new).KeptBy a) :
    (∀ old ∈ old?, old.KeptBy a) ∧ ∀ d, new.limit.number? = some d → new.KeptBy a := by
  cases old? with
  | none => exact ⟨nofun, fun _ _ => h⟩
  | some old =>
    obtain ⟨hold, hnew⟩ := keptBy_of_tighter (hside old rfl) ha h
    refine ⟨fun old' hold' => ?_, hnew⟩
    obtain rfl := Option.some.inj hold'
    exact hold

end Limit

/-! ## What constraints ask for -/

/-- An atom meets a demand.  Of limits, those of numbers by numbers are considered. -/
def Demand.Admits (a : Atom) : Demand → Prop
  | .atom b => b.agrees a = true
  | .type t => a.kind ∈ t.kinds ∧ ∀ x, a.number? = some x →
    (∀ d ∈ t.least, d.value ≤ x.value) ∧ ∀ d ∈ t.greatest, x.value ≤ d.value
  | .limit b l => ∀ x d, a.number? = some x → l.number? = some d → b.Holds d.value x.value
  | .differs k _ => a.kind = k
  | .struct _ | .list _ _ => False

theorem Decimal.order_eq_iff {a b : Decimal} : (a.order b == .eq) = true ↔ a.value = b.value := by
  rw [beq_iff_eq, Decimal.order_eq_compare, compare_eq_iff_eq]

theorem Atom.agrees_self (a : Atom) : a.agrees a = true := by
  cases a with
  | int d => exact Decimal.order_eq_iff.mpr rfl
  | float d => exact Decimal.order_eq_iff.mpr rfl
  | _ => simp [Atom.agrees]

/-- What agrees with a number is the same number. -/
theorem Atom.value_eq_of_agrees {a b : Atom} {d : Decimal} (h : a.agrees b = true)
    (hb : b.number? = some d) :
    ∃ d', a.number? = some d' ∧ d'.value = d.value := by
  rcases Atom.number?_eq_some_iff.mp hb with rfl | rfl
  · cases a with
    | int d' => exact ⟨d', rfl, Decimal.order_eq_iff.mp h⟩
    | _ => simp [Atom.agrees] at h
  · cases a with
    | float d' => exact ⟨d', rfl, Decimal.order_eq_iff.mp h⟩
    | _ => simp [Atom.agrees] at h

theorem Atom.kind_ne (a : Atom) : a.kind ≠ .struct ∧ a.kind ≠ .list := by
  cases a <;> exact ⟨nofun, nofun⟩

namespace Blend

/-- The limits of a blend stand where they belong, and once there is an atom its kind is the only
one left. -/
structure Coherent (b : Blend) : Prop where
  lower : ∀ l ∈ b.lower, l.IsLower
  upper : ∀ l ∈ b.upper, l.IsUpper
  excluded : ∀ l ∈ b.excluded, l.bound = .differs
  kind : ∀ p ∈ b.atom, ∀ k ∈ b.kinds, k = p.1.kind

/-- An atom meets what a blend remembers: it is of one of the kinds that are left, nothing has been
in conflict, it is the atom if there is one, and if it is a number it keeps the limits. -/
structure Fits (b : Blend) (a : Atom) : Prop where
  kind : a.kind ∈ b.kinds
  quiet : b.conflicts = []
  atom : ∀ p ∈ b.atom, p.1 = a
  limits : ∀ x, a.number? = some x → ∀ l ∈ b.limits, l.KeptBy a

variable {b : Blend} {a : Atom}

/-! ### Coherent blends -/

theorem addLimit_lower (b : Blend) {l : Limit} (hl : l.IsLower) :
    b.addLimit l = { b with lower := some (Limit.joined .lt b.lower l) } := by
  rcases hl with hl | hl <;> rw [addLimit, hl] <;> rfl

theorem addLimit_upper (b : Blend) {l : Limit} (hl : l.IsUpper) :
    b.addLimit l = { b with upper := some (Limit.joined .gt b.upper l) } := by
  rcases hl with hl | hl <;> rw [addLimit, hl] <;> rfl

theorem addLimit_differs (b : Blend) {l : Limit} (hl : l.bound = .differs) :
    b.addLimit l = if b.excluded.any (fun old => old.limit.agrees l.limit) then b
      else { b with excluded := b.excluded ++ [l] } := by
  rw [addLimit, hl]

theorem isLower_or (l : Limit) : l.IsLower ∨ l.IsUpper ∨ l.bound = .differs := by
  unfold Limit.IsLower Limit.IsUpper
  cases l.bound <;> simp

theorem Coherent.addLimit (h : b.Coherent) (l : Limit) : (b.addLimit l).Coherent := by
  rcases isLower_or l with hl | hl | hl
  · rw [addLimit_lower b hl]
    refine ⟨fun l' hl' => ?_, h.upper, h.excluded, h.kind⟩
    obtain rfl := Option.some.inj hl'
    rcases Limit.joined_eq_or .lt b.lower l with hold | hnew
    · exact h.lower _ hold
    · rwa [hnew]
  · rw [addLimit_upper b hl]
    refine ⟨h.lower, fun l' hl' => ?_, h.excluded, h.kind⟩
    obtain rfl := Option.some.inj hl'
    rcases Limit.joined_eq_or .gt b.upper l with hold | hnew
    · exact h.upper _ hold
    · rwa [hnew]
  · rw [addLimit_differs b hl]
    split
    · exact h
    · refine ⟨h.lower, h.upper, fun l' hl' => ?_, h.kind⟩
      rcases List.mem_append.mp hl' with hold | hnew
      · exact h.excluded l' hold
      · rw [List.mem_singleton.mp hnew, hl]

/-- Takes an optional limit in. -/
def addLimit? (b : Blend) (bound : Bound) (d? : Option Decimal) : Blend :=
  match d? with
  | some d => b.addLimit ⟨bound, .int d, none⟩
  | none => b

theorem addContent_type (b : Blend) (t : Predeclared) (place : Position) (route : List Position) :
    b.addContent ⟨.type t, place, route⟩ =
      (b.addLimit? .atLeast t.least).addLimit? .atMost t.greatest := by
  cases hleast : t.least <;> cases hgreatest : t.greatest <;>
    simp only [addContent, addLimit?, hleast, hgreatest]

theorem Coherent.addLimit? (h : b.Coherent) (bound : Bound) (d? : Option Decimal) :
    (b.addLimit? bound d?).Coherent := by
  cases d? with
  | none => exact h
  | some d => exact h.addLimit _

theorem Coherent.addAtom (h : b.Coherent) {x : Atom} (hx : ∀ k ∈ b.kinds, k = x.kind)
    (c : Constraint) :
    (b.addAtom x c).Coherent := by
  unfold Blend.addAtom
  split
  · refine ⟨h.lower, h.upper, h.excluded, fun p hp => ?_⟩
    obtain rfl := Option.some.inj hp
    exact hx
  · split
    · exact h
    · exact ⟨h.lower, h.upper, h.excluded, h.kind⟩

theorem Coherent.addContent (h : b.Coherent) {c : Constraint} (hc : ∀ k ∈ b.kinds, k ∈ c.kinds) :
    (b.addContent c).Coherent := by
  obtain ⟨demand, place, route⟩ := c
  cases demand with
  | atom x => exact h.addAtom (fun k hk => List.mem_singleton.mp (hc k hk)) _
  | type t =>
    rw [addContent_type]
    exact (h.addLimit? _ _).addLimit? _ _
  | limit bound l => exact h.addLimit _
  | differs k t => exact ⟨h.lower, h.upper, h.excluded, h.kind⟩
  | struct ds => exact h
  | list es tail => exact h

theorem Coherent.checkLimits (h : b.Coherent) (c : Constraint) : (b.checkLimits c).Coherent := by
  unfold Blend.checkLimits
  split
  · split
    · exact ⟨nofun, nofun, h.excluded, h.kind⟩
    · exact h
  · exact h

theorem mem_common {ks ls : List Kind} {k : Kind} : k ∈ Kind.common ks ls ↔ k ∈ ks ∧ k ∈ ls := by
  simp only [Kind.common, List.mem_filter, List.contains_iff_mem]

/-- Fewer kinds, and another constraint to name for them, keep a blend coherent. -/
theorem Coherent.narrowed (h : b.Coherent) (ks : List Kind) (c : Option Constraint) :
    ({ b with kinds := Kind.common b.kinds ks, narrowing := c } : Blend).Coherent :=
  ⟨h.lower, h.upper, h.excluded, fun p hp k hk => h.kind p hp k (mem_common.mp hk).1⟩

theorem Coherent.add (h : b.Coherent) (c : Constraint) : (b.add c).Coherent := by
  unfold Blend.add
  split
  · exact h
  dsimp only
  split
  · exact ⟨h.lower, h.upper, h.excluded, fun _ _ => nofun⟩
  · exact ((h.narrowed c.kinds _).addContent fun k hk => (mem_common.mp hk).2).checkLimits c

theorem coherent_empty : ({} : Blend).Coherent :=
  ⟨fun _ => nofun, fun _ => nofun, fun _ => nofun, fun _ => nofun⟩

theorem coherent_of (cs : List Constraint) : (Blend.of cs).Coherent := by
  suffices hfoldl : ∀ b : Blend, b.Coherent → (cs.foldl Blend.add b).Coherent from
    hfoldl {} coherent_empty
  induction cs with
  | nil => exact fun b hb => hb
  | cons c cs ih => exact fun b hb => ih _ (hb.add c)

/-! ### Step by step -/

theorem mem_limits {l : Limit} : l ∈ b.limits ↔ l ∈ b.lower ∨ l ∈ b.upper ∨ l ∈ b.excluded := by
  simp only [limits, List.mem_append, Option.mem_toList, Option.mem_def, or_assoc]

/-- A number keeps a limit, if that is one by a number. -/
def Keeps (a : Atom) (l : Limit) : Prop :=
  ∀ x d, a.number? = some x → l.limit.number? = some d → l.bound.Holds d.value x.value

theorem keeps_of_keptBy {l : Limit}
    (h : ∀ x d, a.number? = some x → l.limit.number? = some d → l.KeptBy a) :
    Keeps a l := by
  intro x d hx hd
  exact (Bound.admits_iff hx hd).mp (h x d hx hd)

theorem fits_of_addLimit {l : Limit} (hs : b.Coherent) (h : (b.addLimit l).Fits a) :
    b.Fits a ∧ Keeps a l := by
  rcases isLower_or l with hl | hl | hl
  · rw [addLimit_lower b hl] at h
    have hside : ∀ old ∈ b.lower, Limit.OfSide .lt old l := fun old hold =>
      Or.inl ⟨rfl, hs.lower old hold, hl⟩
    have hkept : ∀ x, a.number? = some x → (Limit.joined .lt b.lower l).KeptBy a := fun x hx =>
      h.limits x hx _ (mem_limits.mpr (Or.inl rfl))
    refine ⟨⟨h.kind, h.quiet, h.atom, fun x hx l' hl' => ?_⟩, keeps_of_keptBy fun x d hx hd => ?_⟩
    · rcases mem_limits.mp hl' with hl' | hl'
      · exact (Limit.keptBy_of_joined hside hx (hkept x hx)).1 l' hl'
      · exact h.limits x hx l' (mem_limits.mpr (Or.inr hl'))
    · exact (Limit.keptBy_of_joined hside hx (hkept x hx)).2 d hd
  · rw [addLimit_upper b hl] at h
    have hside : ∀ old ∈ b.upper, Limit.OfSide .gt old l := fun old hold =>
      Or.inr ⟨rfl, hs.upper old hold, hl⟩
    have hkept : ∀ x, a.number? = some x → (Limit.joined .gt b.upper l).KeptBy a := fun x hx =>
      h.limits x hx _ (mem_limits.mpr (Or.inr (Or.inl rfl)))
    refine ⟨⟨h.kind, h.quiet, h.atom, fun x hx l' hl' => ?_⟩, keeps_of_keptBy fun x d hx hd => ?_⟩
    · rcases mem_limits.mp hl' with hl' | hl' | hl'
      · exact h.limits x hx l' (mem_limits.mpr (Or.inl hl'))
      · exact (Limit.keptBy_of_joined hside hx (hkept x hx)).1 l' hl'
      · exact h.limits x hx l' (mem_limits.mpr (Or.inr (Or.inr hl')))
    · exact (Limit.keptBy_of_joined hside hx (hkept x hx)).2 d hd
  · rw [addLimit_differs b hl] at h
    split at h
    · -- an excluded value that is there already excludes the same number
      refine ⟨h, fun x d hx hd => ?_⟩
      obtain ⟨old, hold, hagrees⟩ := List.any_eq_true.mp ‹_›
      obtain ⟨d', hd', hvalue⟩ := Atom.value_eq_of_agrees hagrees hd
      have hkept :=
        (Bound.admits_iff hx hd').mp (h.limits x hx old (mem_limits.mpr (Or.inr (Or.inr hold))))
      rw [hs.excluded old hold, hvalue] at hkept
      rwa [hl]
    · refine ⟨⟨h.kind, h.quiet, h.atom, fun x hx l' hl' => ?_⟩, keeps_of_keptBy fun x d hx hd => ?_⟩
      · rcases mem_limits.mp hl' with hl' | hl' | hl'
        · exact h.limits x hx l' (mem_limits.mpr (Or.inl hl'))
        · exact h.limits x hx l' (mem_limits.mpr (Or.inr (Or.inl hl')))
        · exact h.limits x hx l' (mem_limits.mpr (Or.inr (Or.inr (List.mem_append_left _ hl'))))
      · exact h.limits x hx l
          (mem_limits.mpr (Or.inr (Or.inr (List.mem_append_right _ List.mem_cons_self))))

theorem fits_of_addLimit? {bound : Bound} {d? : Option Decimal} (hs : b.Coherent)
    (h : (b.addLimit? bound d?).Fits a) :
    b.Fits a ∧ ∀ x, a.number? = some x → ∀ d ∈ d?, bound.Holds d.value x.value := by
  cases d? with
  | none => exact ⟨h, fun _ _ => nofun⟩
  | some d =>
    obtain ⟨hfits, hkeeps⟩ := fits_of_addLimit hs h
    refine ⟨hfits, fun x hx d' hd' => ?_⟩
    obtain rfl := Option.some.inj hd'
    exact hkeeps x d hx rfl

theorem fits_of_addAtom {x : Atom} {c : Constraint} (h : (b.addAtom x c).Fits a) :
    b.Fits a ∧ x.agrees a = true := by
  unfold addAtom at h
  split at h
  · next hatom =>
    obtain rfl : x = a := h.atom _ rfl
    have hnone : ∀ p ∈ b.atom, p.1 = x := by
      rw [hatom]
      intro p hp
      cases hp
    exact ⟨⟨h.kind, h.quiet, hnone, h.limits⟩, Atom.agrees_self x⟩
  · next old oldConstraint hatom =>
    split at h
    · next hagrees =>
      obtain rfl : old = a := h.atom _ hatom
      exact ⟨h, hagrees⟩
    · exact absurd h.quiet (List.append_ne_nil_of_right_ne_nil _ (List.cons_ne_nil _ _))

theorem fits_of_addContent {c : Constraint} (hs : b.Coherent) (h : (b.addContent c).Fits a) :
    b.Fits a ∧ (a.kind ∈ c.kinds → c.demand.Admits a) := by
  obtain ⟨demand, place, route⟩ := c
  cases demand with
  | atom x =>
    obtain ⟨hfits, hagrees⟩ := fits_of_addAtom h
    exact ⟨hfits, fun _ => hagrees⟩
  | type t =>
    rw [addContent_type] at h
    obtain ⟨hleast, hatMost⟩ := fits_of_addLimit? (hs.addLimit? _ _) h
    obtain ⟨hfits, hatLeast⟩ := fits_of_addLimit? hs hleast
    exact ⟨hfits, fun hkind => ⟨hkind, fun x hx => ⟨hatLeast x hx, hatMost x hx⟩⟩⟩
  | limit bound l =>
    obtain ⟨hfits, hkeeps⟩ := fits_of_addLimit hs h
    exact ⟨hfits, fun _ => hkeeps⟩
  | differs k t =>
    exact ⟨⟨h.kind, h.quiet, h.atom, h.limits⟩, fun hkind => List.mem_singleton.mp hkind⟩
  | struct ds => exact ⟨h, fun hkind => absurd (List.mem_singleton.mp hkind) (Atom.kind_ne a).1⟩
  | list es tail => exact ⟨h, fun hkind => absurd (List.mem_singleton.mp hkind) (Atom.kind_ne a).2⟩

theorem fits_of_checkLimits {c : Constraint} (h : (b.checkLimits c).Fits a) : b.Fits a := by
  unfold checkLimits at h
  split at h
  · split at h
    · exact absurd h.quiet (List.append_ne_nil_of_right_ne_nil _ (List.cons_ne_nil _ _))
    · exact h
  · exact h

/-- **The step.**  What fits after a constraint was taken in fitted before, and meets the
constraint. -/
theorem fits_of_add {c : Constraint} (hs : b.Coherent) (h : (b.add c).Fits a) :
    b.Fits a ∧ c.demand.Admits a := by
  unfold add at h
  split at h
  · next hempty =>
    have hkind := h.kind
    rw [List.isEmpty_iff.mp hempty] at hkind
    exact absurd hkind List.not_mem_nil
  dsimp only at h
  split at h
  · exact absurd h.kind List.not_mem_nil
  · obtain ⟨hfits, hadmits⟩ := fits_of_addContent (hs.narrowed c.kinds _) (fits_of_checkLimits h)
    have hkind := mem_common.mp hfits.kind
    exact ⟨⟨hkind.1, hfits.quiet, hfits.atom, hfits.limits⟩, hadmits hkind.2⟩

/-- **The run.**  What fits a blend meets every constraint that went into it. -/
theorem fits_of_foldl {cs : List Constraint} (hs : b.Coherent) (h : (cs.foldl add b).Fits a) :
    b.Fits a ∧ ∀ c ∈ cs, c.demand.Admits a := by
  induction cs generalizing b with
  | nil => exact ⟨h, nofun⟩
  | cons c cs ih =>
    obtain ⟨hadd, hall⟩ := ih (hs.add c) h
    obtain ⟨hfits, hc⟩ := fits_of_add hs hadd
    exact ⟨hfits, List.forall_mem_cons.mpr ⟨hc, hall⟩⟩

/-- **A blend without problems determines an atom that meets all its constraints.** -/
theorem admits_of_determined {cs : List Constraint} {path : List Text} {c : Constraint}
    (hkinds : (Blend.of cs).kinds ≠ []) (hproblems : (Blend.of cs).problems path = [])
    (hatom : (Blend.of cs).atom = some (a, c)) : ∀ c ∈ cs, c.demand.Admits a := by
  obtain ⟨k, hk⟩ := List.exists_mem_of_ne_nil _ hkinds
  have hkind : k = a.kind := (coherent_of cs).kind _ hatom k hk
  rw [problems, hatom] at hproblems
  dsimp only at hproblems
  rw [if_neg (by simpa using hkinds), List.append_eq_nil_iff, List.map_eq_nil_iff,
    List.map_eq_nil_iff, List.filter_eq_nil_iff] at hproblems
  have hfits : (Blend.of cs).Fits a := by
    refine ⟨hkind ▸ hk, hproblems.1, fun p hp => ?_, fun x _ l hl => ?_⟩
    · obtain rfl := Option.some.inj (hatom.symm.trans hp)
      rfl
    · have hkept := hproblems.2 l hl
      rwa [Bool.not_eq_true', Bool.not_eq_false] at hkept
  exact (fits_of_foldl coherent_empty hfits).2

end Blend

end Config
end RepeatedAddition
