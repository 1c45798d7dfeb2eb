import Mathlib.Algebra.GroupWithZero.Nat
import Mathlib.Data.List.Basic
import RepeatedAddition.Text.Basic

/-!
# Decimal notation

A text of digits has a value, read from the left by Horner's rule, whether or not it has leading
zeros.  A number has one notation without them, and `Text.decimal` is it.

* `Text.Digits`, `Text.value`: texts of digits, and their values.
* `Text.le_valueFrom`: more digits never make the value smaller, so a value that is too large stays
  too large.
* `Text.IsDecimal`: the notation of a number without leading zeros.
* `Text.isDecimal_decimal`: `Text.decimal` gives it.
-/

namespace RepeatedAddition
namespace Text

/-! ## Values -/

/-- The text has digits only. -/
def Digits (t : Text) : Prop := ∀ b ∈ t, isDigit b = true

instance (t : Text) : Decidable t.Digits := inferInstanceAs (Decidable (∀ b ∈ t, isDigit b = true))

/-- The value of a text of digits that stands behind digits of a given value. -/
def valueFrom (n : Nat) (t : Text) : Nat := t.foldl (fun n b => 10 * n + digitValue b) n

/-- The value of a text of digits. -/
def value (t : Text) : Nat := valueFrom 0 t

theorem digits_nil : Digits [] := fun _ h => absurd h List.not_mem_nil

theorem digits_cons {b : UInt8} {t : Text} : Digits (b :: t) ↔ isDigit b = true ∧ Digits t :=
  List.forall_mem_cons

theorem digits_append {t u : Text} : Digits (t ++ u) ↔ Digits t ∧ Digits u :=
  List.forall_mem_append

theorem valueFrom_nil (n : Nat) : valueFrom n [] = n := rfl

theorem valueFrom_cons (n : Nat) (b : UInt8) (t : Text) :
    valueFrom n (b :: t) = valueFrom (10 * n + digitValue b) t := by
  rw [valueFrom, List.foldl_cons, valueFrom]

theorem valueFrom_append (n : Nat) (t u : Text) :
    valueFrom n (t ++ u) = valueFrom (valueFrom n t) u :=
  List.foldl_append ..

/-- Further digits do not lower the value. -/
theorem le_valueFrom (n : Nat) (t : Text) : n ≤ valueFrom n t := by
  induction t generalizing n with
  | nil => exact Nat.le_refl n
  | cons b t ih =>
    have h := ih (10 * n + digitValue b)
    rw [valueFrom_cons]
    omega

/-! ## The notation of a number -/

theorem toNat_digit {d : Nat} (h : d < 10) : (digit d).toNat = 48 + d := by
  rw [digit, UInt8.toNat_ofNat']
  omega

theorem isDigit_iff {b : UInt8} : isDigit b = true ↔ 48 ≤ b.toNat ∧ b.toNat ≤ 57 := by
  rw [isDigit, Bool.and_eq_true, decide_eq_true_iff, decide_eq_true_iff, UInt8.le_iff_toNat_le,
    UInt8.le_iff_toNat_le]
  rfl

theorem isDigit_digit {d : Nat} (h : d < 10) : isDigit (digit d) = true := by
  rw [isDigit_iff, toNat_digit h]
  omega

theorem digitValue_digit {d : Nat} (h : d < 10) : digitValue (digit d) = d := by
  rw [digitValue, toNat_digit h]
  omega

theorem digitValue_lt {b : UInt8} (h : isDigit b = true) : digitValue b < 10 := by
  have hb := isDigit_iff.mp h
  rw [digitValue]
  omega

/-- The digits come before whatever is there already. -/
theorem decimalBefore_append (limit n : Nat) (tail : Text) :
    decimalBefore limit n tail = decimalBefore limit n [] ++ tail := by
  induction limit generalizing n tail with
  | zero => rfl
  | succ limit ih =>
    rw [decimalBefore, decimalBefore]
    by_cases h : n < 10
    · rw [if_pos h, if_pos h, List.singleton_append]
    · rw [if_neg h, if_neg h, ih (n / 10) (_ :: tail), ih (n / 10) [_], List.append_assoc,
        List.singleton_append]

/-- A limit that is large enough is not met. -/
theorem decimalBefore_eq_decimal {limit n : Nat} (h : n < limit) :
    decimalBefore limit n [] = decimal n := by
  -- two limits may differ, so both are taken as variables
  suffices hsame : ∀ limit limit' n, n < limit → n < limit' →
      decimalBefore limit n [] = decimalBefore limit' n []
    from hsame limit (n + 1) n h (Nat.lt_succ_self n)
  clear h limit n
  intro limit
  induction limit with
  | zero =>
    intro limit' n h
    omega
  | succ limit ih =>
    intro limit' n h h'
    obtain ⟨limit', rfl⟩ : ∃ l, limit' = l + 1 := ⟨limit' - 1, by omega⟩
    rw [decimalBefore, decimalBefore]
    by_cases hn : n < 10
    · rw [if_pos hn, if_pos hn]
    · rw [if_neg hn, if_neg hn, decimalBefore_append, decimalBefore_append limit']
      rw [ih limit' (n / 10) (by omega) (by omega)]

theorem decimal_of_lt {n : Nat} (h : n < 10) : decimal n = [digit n] := by
  rw [decimal, decimalBefore, if_pos h]

theorem decimal_of_le {n : Nat} (h : 10 ≤ n) :
    decimal n = decimal (n / 10) ++ [digit (n % 10)] := by
  rw [decimal, decimalBefore, if_neg (by omega), decimalBefore_append,
    decimalBefore_eq_decimal (by omega)]

/-- The notation of a number in decimal digits, of which there is at least one, and the first is no
zero unless it is the only one. -/
structure IsDecimal (t : Text) (n : Nat) : Prop where
  ne_nil : t ≠ []
  digits : t.Digits
  value_eq : t.value = n
  head : t.head? = some (digit 0) → t = [digit 0]

/-- **`Text.decimal` is the notation of a number without leading zeros.** -/
theorem isDecimal_decimal (n : Nat) : IsDecimal (decimal n) n := by
  induction n using Nat.strongRecOn with
  | ind n ih =>
    by_cases h : n < 10
    · rw [decimal_of_lt h]
      refine ⟨List.cons_ne_nil _ _, digits_cons.mpr ⟨isDigit_digit h, digits_nil⟩, ?_,
        fun hhead => ?_⟩
      · rw [value, valueFrom_cons, digitValue_digit h, valueFrom_nil]
        omega
      · rw [List.head?_cons] at hhead
        rw [Option.some.inj hhead]
    · have hrest := ih (n / 10) (by omega)
      have hlast : n % 10 < 10 := by omega
      rw [decimal_of_le (by omega)]
      refine ⟨List.append_ne_nil_of_left_ne_nil hrest.ne_nil _, ?_, ?_, fun hhead => ?_⟩
      · exact digits_append.mpr ⟨hrest.digits, digits_cons.mpr ⟨isDigit_digit hlast, digits_nil⟩⟩
      · have hvalue : valueFrom 0 (decimal (n / 10)) = n / 10 := hrest.value_eq
        rw [value, valueFrom_append, hvalue, valueFrom_cons, digitValue_digit hlast, valueFrom_nil]
        omega
      · -- a leading zero would be that of `n / 10`, which would then be zero
        rw [List.head?_append_of_ne_nil _ hrest.ne_nil] at hhead
        have hzero : n / 10 = 0 := by
          rw [← hrest.value_eq, hrest.head hhead]
          rfl
        omega

end Text
end RepeatedAddition
