import RepeatedAddition.Operand
import RepeatedAddition.Proofs.Decimal

/-!
# What is read as an operand

`Operand.read` keeps a word and tests before and after each digit whether the next one still fits.
Here both tests are replaced by what they are for, the exact value of the digits read so far
(`push_eq`), and then the three ways in which reading can end are told apart by the text alone:

* `read_eq_ok_iff`: digits only, at least one, with a value that is a word;
* `read_eq_outOfRange_iff`: some beginning has digits only, with a value that is no word, whatever
  follows it;
* `read_eq_badSyntax_iff`: neither.

A value that has grown too large stays too large (`Text.le_valueFrom`), so the first two exclude
each other.
-/

namespace RepeatedAddition
namespace Operand

open Text

/-- The text of an operand: digits only, at least one, with a value that is a word. -/
def Valid (t : Text) : Prop := t ≠ [] ∧ t.Digits ∧ t.value < 2 ^ 64

/-- Some beginning of the text has digits only, with a value that is no word. -/
def TooLarge (t : Text) : Prop := ∃ p : Text, p <+: t ∧ p.Digits ∧ 2 ^ 64 ≤ p.value

/-- What is wrong with a text that is no operand. -/
def Faulty (t : Text) : Fault → Prop
  | .outOfRange => TooLarge t
  | .badSyntax => ¬ TooLarge t ∧ ¬ Valid t

instance (t : Text) : Decidable (Valid t) :=
  inferInstanceAs (Decidable (t ≠ [] ∧ t.Digits ∧ t.value < 2 ^ 64))

/-! ## One digit -/

/-- **One digit, by its exact value.**  Neither the accumulator nor the test for a sum that has
wrapped loses anything. -/
theorem push_eq (total : UInt64) (b : UInt8) :
    push total b =
      if isDigit b = true then
        if 2 ^ 64 ≤ 10 * total.toNat + digitValue b then .error .outOfRange
        else .ok (UInt64.ofNat (10 * total.toNat + digitValue b))
      else .error .badSyntax := by
  by_cases hb : isDigit b = true
  · have hd := digitValue_lt hb
    have hlt := UInt64.toNat_lt total
    have hcut : (total ≥ cutoff) ↔ 1844674407370955162 ≤ total.toNat := by
      rw [ge_iff_le, UInt64.le_iff_toNat_le]
      rfl
    rw [push, hb, if_neg (by simp), if_pos rfl]
    by_cases hc : total ≥ cutoff
    · have hc' := hcut.mp hc
      rw [if_pos hc, if_pos (by omega)]
    · have hc' : ¬ 1844674407370955162 ≤ total.toNat := fun h => hc (hcut.mpr h)
      have hten : (total * 10).toNat = 10 * total.toNat := by
        rw [UInt64.toNat_mul, show (10 : UInt64).toNat = 10 from rfl]
        omega
      have hsum : (total * 10 + UInt64.ofNat (digitValue b)).toNat =
          (10 * total.toNat + digitValue b) % 2 ^ 64 := by
        rw [UInt64.toNat_add, hten, UInt64.toNat_ofNat']
        omega
      have hwrap : (total * 10 + UInt64.ofNat (digitValue b) < total * 10) ↔
          2 ^ 64 ≤ 10 * total.toNat + digitValue b := by
        rw [UInt64.lt_iff_toNat_lt, hsum, hten]
        omega
      rw [if_neg hc]
      by_cases hw : 2 ^ 64 ≤ 10 * total.toNat + digitValue b
      · rw [if_pos hw]
        exact if_pos (hwrap.mpr hw)
      · rw [if_neg hw]
        refine (if_neg fun h => hw (hwrap.mp h)).trans (congrArg Except.ok ?_)
        rw [← UInt64.toNat_inj, hsum, UInt64.toNat_ofNat']
  · rw [push, if_pos (by simpa using hb), if_neg hb]

theorem push_of_not_digit {total : UInt64} {b : UInt8} (hb : ¬ isDigit b = true) :
    push total b = .error .badSyntax := by
  rw [push_eq, if_neg hb]

theorem push_of_le {total : UInt64} {b : UInt8} (hb : isDigit b = true)
    (h : 2 ^ 64 ≤ 10 * total.toNat + digitValue b) : push total b = .error .outOfRange := by
  rw [push_eq, if_pos hb, if_pos h]

/-- A digit that fits, with the accumulator by its value. -/
theorem exists_push_of_lt {total : UInt64} {b : UInt8} (hb : isDigit b = true)
    (h : 10 * total.toNat + digitValue b < 2 ^ 64) :
    ∃ next, push total b = .ok next ∧ next.toNat = 10 * total.toNat + digitValue b := by
  refine ⟨_, ?_, UInt64.toNat_ofNat_of_lt' h⟩
  rw [push_eq, if_pos hb, if_neg (by omega)]

/-! ## All digits -/

attribute [local simp] pushAll

theorem pushAll_cons_ok {total next : UInt64} {b : UInt8} (h : push total b = .ok next) (t : Text) :
    pushAll total (b :: t) = pushAll next t := by
  simp [h]

theorem pushAll_cons_error {total : UInt64} {b : UInt8} {fault : Fault}
    (h : push total b = .error fault) (t : Text) : pushAll total (b :: t) = .error fault := by
  simp [h]

theorem pushAll_eq_ok_iff {total v : UInt64} {t : Text} :
    pushAll total t = .ok v ↔ t.Digits ∧ valueFrom total.toNat t = v.toNat := by
  induction t generalizing total with
  | nil =>
    rw [pushAll, valueFrom_nil, UInt64.toNat_inj]
    exact ⟨fun h => ⟨digits_nil, Except.ok.inj h⟩, fun h => congrArg Except.ok h.2⟩
  | cons b t ih =>
    rw [digits_cons, valueFrom_cons]
    by_cases hb : isDigit b = true
    · by_cases h : 2 ^ 64 ≤ 10 * total.toNat + digitValue b
      · -- the value is too large by now, and further digits do not lower it
        have hle := le_valueFrom (10 * total.toNat + digitValue b) t
        have hlt := UInt64.toNat_lt v
        rw [pushAll_cons_error (push_of_le hb h)]
        exact ⟨fun he => by simp at he, fun he => by omega⟩
      · obtain ⟨next, hpush, hnext⟩ := exists_push_of_lt hb (Nat.lt_of_not_le h)
        rw [pushAll_cons_ok hpush, ih, hnext]
        simp only [hb, true_and]
    · rw [pushAll_cons_error (push_of_not_digit hb)]
      exact ⟨fun he => by simp at he, fun he => absurd he.1.1 hb⟩

theorem not_le_valueFrom_nil (total : UInt64) : ¬ 2 ^ 64 ≤ valueFrom total.toNat [] :=
  Nat.not_le_of_lt (UInt64.toNat_lt total)

theorem pushAll_eq_outOfRange_iff {total : UInt64} {t : Text} :
    pushAll total t = .error .outOfRange ↔
      ∃ p : Text, p <+: t ∧ p.Digits ∧ 2 ^ 64 ≤ valueFrom total.toNat p := by
  induction t generalizing total with
  | nil =>
    rw [pushAll]
    refine ⟨fun h => by simp at h, ?_⟩
    rintro ⟨p, hp, -, hlarge⟩
    rw [List.prefix_nil.mp hp] at hlarge
    exact absurd hlarge (not_le_valueFrom_nil total)
  | cons b t ih =>
    by_cases hb : isDigit b = true
    · by_cases h : 2 ^ 64 ≤ 10 * total.toNat + digitValue b
      · rw [pushAll_cons_error (push_of_le hb h)]
        refine ⟨fun _ => ⟨[b], ?_, digits_cons.mpr ⟨hb, digits_nil⟩, ?_⟩, fun _ => rfl⟩
        · exact List.prefix_append [b] t
        · rw [valueFrom_cons, valueFrom_nil]
          exact h
      · obtain ⟨next, hpush, hnext⟩ := exists_push_of_lt hb (Nat.lt_of_not_le h)
        rw [pushAll_cons_ok hpush, ih, hnext]
        constructor
        · rintro ⟨p, hp, hdigits, hlarge⟩
          exact ⟨b :: p, (List.prefix_cons_inj b).mpr hp, digits_cons.mpr ⟨hb, hdigits⟩, hlarge⟩
        · rintro ⟨p, hp, hdigits, hlarge⟩
          cases p with
          | nil => exact absurd hlarge (not_le_valueFrom_nil total)
          | cons b' p =>
            obtain ⟨rfl, hp'⟩ := List.cons_prefix_cons.mp hp
            exact ⟨p, hp', (digits_cons.mp hdigits).2, hlarge⟩
    · rw [pushAll_cons_error (push_of_not_digit hb)]
      refine ⟨fun he => by simp at he, ?_⟩
      rintro ⟨p, hp, hdigits, hlarge⟩
      cases p with
      | nil => exact absurd hlarge (not_le_valueFrom_nil total)
      | cons b' p =>
        obtain ⟨rfl, -⟩ := List.cons_prefix_cons.mp hp
        exact absurd (digits_cons.mp hdigits).1 hb

/-! ## The whole text -/

theorem read_eq_pushAll {t : Text} (h : t ≠ []) : read t = pushAll 0 t := by
  cases t with
  | nil => exact absurd rfl h
  | cons b t => rfl

theorem read_eq_ok_iff {t : Text} {v : UInt64} : read t = .ok v ↔ Valid t ∧ t.value = v.toNat := by
  by_cases h : t = []
  · subst h
    exact ⟨fun he => by simp [read] at he, fun he => absurd rfl he.1.1⟩
  · rw [read_eq_pushAll h, pushAll_eq_ok_iff, show (0 : UInt64).toNat = 0 from rfl]
    constructor
    · rintro ⟨hdigits, hvalue⟩
      refine ⟨⟨h, hdigits, ?_⟩, hvalue⟩
      rw [value, hvalue]
      exact UInt64.toNat_lt v
    · rintro ⟨⟨-, hdigits, -⟩, hvalue⟩
      exact ⟨hdigits, hvalue⟩

theorem read_eq_outOfRange_iff {t : Text} : read t = .error .outOfRange ↔ TooLarge t := by
  by_cases h : t = []
  · subst h
    refine ⟨fun he => by simp [read] at he, ?_⟩
    rintro ⟨p, hp, -, hlarge⟩
    rw [List.prefix_nil.mp hp] at hlarge
    exact absurd hlarge (by decide)
  · rw [read_eq_pushAll h, pushAll_eq_outOfRange_iff]
    rfl

/-- A valid text is read as the word of its value. -/
theorem read_of_valid {t : Text} (h : Valid t) : read t = .ok (UInt64.ofNat t.value) :=
  read_eq_ok_iff.mpr ⟨h, (UInt64.toNat_ofNat_of_lt' h.2.2).symm⟩

theorem read_eq_badSyntax_iff {t : Text} :
    read t = .error .badSyntax ↔ ¬ TooLarge t ∧ ¬ Valid t := by
  constructor
  · intro h
    refine ⟨fun hlarge => ?_, fun hvalid => ?_⟩
    · simpa [h] using read_eq_outOfRange_iff.mpr hlarge
    · simpa [h] using read_of_valid hvalid
  · rintro ⟨hlarge, hvalid⟩
    cases hr : read t with
    | ok v => exact absurd (read_eq_ok_iff.mp hr).1 hvalid
    | error fault =>
      cases fault with
      | badSyntax => rfl
      | outOfRange => exact absurd (read_eq_outOfRange_iff.mp hr) hlarge

/-- **A text is refused for what is wrong with it.** -/
theorem read_eq_error_iff {t : Text} {fault : Fault} : read t = .error fault ↔ Faulty t fault := by
  cases fault with
  | badSyntax => exact read_eq_badSyntax_iff
  | outOfRange => exact read_eq_outOfRange_iff

end Operand
end RepeatedAddition
