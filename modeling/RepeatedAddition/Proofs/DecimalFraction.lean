import Mathlib.Data.List.Induction
import Mathlib.Data.Rat.Defs
import Mathlib.Algebra.Order.Field.Rat
import Mathlib.Tactic.NormNum
import RepeatedAddition.Proofs.Delimited

/-!
# Fractions in decimal notation

Times are written with as many digits behind the point as they need.  The digits are those of a
number of a fixed width, without the zeros at their end; since they count from the left, neither the
width nor those zeros matter.

* `Text.fractionValue`: the value of digits behind a point.
* `Text.length_paddedDecimal`, `Text.value_paddedDecimal`: a padded number has its width, and its
  value.
* `Duration.fractionDigits`: the digits of a fraction, of which the last is no zero.
* `Duration.fractionValue_fractionDigits`: their value is the fraction.
* `Text.fraction?`: reads the digits behind a point, if there is one.
-/

namespace RepeatedAddition

namespace Text

/-! ## Padded decimals -/

theorem valueFrom_replicate_zero (k : Nat) : valueFrom 0 (List.replicate k (digit 0)) = 0 := by
  induction k with
  | zero => rfl
  | succ k ih => exact ih

theorem value_paddedDecimal (width n : Nat) : (paddedDecimal width n).value = n := by
  rw [paddedDecimal, value, valueFrom_append, valueFrom_replicate_zero]
  exact (isDecimal_decimal n).value_eq

theorem length_decimal_le {width n : Nat} (h : n < 10 ^ (width + 1)) :
    (decimal n).length ≤ width + 1 := by
  induction width generalizing n with
  | zero =>
    rw [decimal_of_lt (by omega), List.length_singleton]
  | succ width ih =>
    by_cases hn : n < 10
    · rw [decimal_of_lt hn, List.length_singleton]
      omega
    · have hrest : n / 10 < 10 ^ (width + 1) := by
        rw [Nat.pow_succ] at h
        omega
      rw [decimal_of_le (by omega), List.length_append, List.length_singleton]
      exact Nat.succ_le_succ (ih hrest)

/-- A number is padded to its width, if there is any. -/
theorem length_paddedDecimal {width n : Nat} (h : n < 10 ^ (width + 1)) :
    (paddedDecimal (width + 1) n).length = width + 1 := by
  have hle := length_decimal_le h
  rw [paddedDecimal, List.length_append, List.length_replicate]
  omega

/-! ## Digits behind a point -/

/-- The value of digits behind a point. -/
def fractionValue (t : Text) : ℚ := t.value / 10 ^ t.length

theorem fractionValue_nil : fractionValue [] = 0 := by
  rw [fractionValue, value, valueFrom_nil, Nat.cast_zero, zero_div]

/-- A zero at the end of a fraction counts for nothing. -/
theorem fractionValue_concat_zero (t : Text) :
    fractionValue (t ++ [digit 0]) = fractionValue t := by
  have hvalue : value (t ++ [digit 0]) = 10 * value t := by
    rw [value, valueFrom_append, valueFrom_cons, valueFrom_nil]
    rfl
  rw [fractionValue, hvalue, List.length_append, List.length_singleton, pow_succ', Nat.cast_mul]
  exact mul_div_mul_left _ _ (by norm_num)

/-- A padded number behind a point counts by its width. -/
theorem fractionValue_paddedDecimal {width n : Nat} (h : n < 10 ^ width) :
    fractionValue (paddedDecimal width n) = n / 10 ^ width := by
  cases width with
  | zero =>
    obtain rfl : n = 0 := by omega
    rw [fractionValue, value_paddedDecimal, Nat.cast_zero, zero_div, zero_div]
  | succ width => rw [fractionValue, value_paddedDecimal, length_paddedDecimal h]

end Text

namespace Duration

open Text

/-! ## Without zeros at the end -/

theorem trimZeros_concat (t : Text) (b : UInt8) :
    trimZeros (t ++ [b]) = if b = digit 0 then trimZeros t else t ++ [b] := by
  rw [trimZeros, List.reverse_append, List.reverse_singleton, List.singleton_append,
    List.dropWhile_cons]
  by_cases hb : b = digit 0
  · rw [if_pos (beq_iff_eq.mpr hb), if_pos hb]
    rfl
  · rw [if_neg (fun h => hb (beq_iff_eq.mp h)), if_neg hb, List.reverse_cons, List.reverse_reverse]

theorem digits_trimZeros {t : Text} (h : t.Digits) : (trimZeros t).Digits := by
  intro b hb
  have hdropped := (List.dropWhile_sublist _).subset (List.mem_reverse.mp hb)
  exact h b (List.mem_reverse.mp hdropped)

theorem fractionValue_trimZeros (t : Text) : (trimZeros t).fractionValue = t.fractionValue := by
  induction t using List.reverseRecOn with
  | nil => rfl
  | append_singleton t b ih =>
    rw [trimZeros_concat]
    split
    case isTrue hb => rw [ih, hb, fractionValue_concat_zero]
    case isFalse => rfl

theorem getLast?_trimZeros (t : Text) : (trimZeros t).getLast? ≠ some (digit 0) := by
  induction t using List.reverseRecOn with
  | nil => exact (Option.some_ne_none _).symm
  | append_singleton t b ih =>
    rw [trimZeros_concat]
    split
    case isTrue => exact ih
    case isFalse hb =>
      rw [List.getLast?_concat]
      exact fun h => hb (Option.some.inj h)

/-! ## The digits of a fraction -/

/-- The digits of the fraction `n / 10 ^ width`, up to the last that is not zero. -/
def fractionDigits (width n : Nat) : Text := trimZeros (paddedDecimal width n)

theorem digits_fractionDigits (width n : Nat) : (fractionDigits width n).Digits :=
  digits_trimZeros (digits_paddedDecimal width n)

theorem getLast?_fractionDigits (width n : Nat) :
    (fractionDigits width n).getLast? ≠ some (digit 0) :=
  getLast?_trimZeros _

/-- **The digits of a fraction count for the fraction.** -/
theorem fractionValue_fractionDigits {width n : Nat} (h : n < 10 ^ width) :
    (fractionDigits width n).fractionValue = n / 10 ^ width := by
  rw [fractionDigits, fractionValue_trimZeros, fractionValue_paddedDecimal h]

end Duration

namespace Text

/-! ## Reading -/

/-- Digits with a point before them, or nothing if there are none. -/
def pointed (digits : Text) : Text := if digits.isEmpty then [] else lit "." ++ digits

/-- The digits behind a point at the head of a text, and what follows.  Without a point there are
none, and a point without digits is refused. -/
def fraction? : Text → Option (Text × Text)
  | [] => some ([], [])
  | b :: t =>
    if b = 46 then
      if (t.takeWhile isDigit).isEmpty then none else
        some (t.takeWhile isDigit, t.dropWhile isDigit)
    else some ([], b :: t)

/-- A run ends where another class of bytes begins. -/
theorem span_append {p : UInt8 → Bool} {t s : Text} (ht : ∀ b ∈ t, p b = true)
    (hs : ∀ b ∈ s.head?, p b = false) :
    (t ++ s).takeWhile p = t ∧ (t ++ s).dropWhile p = s := by
  rw [List.takeWhile_append_of_pos ht, List.dropWhile_append_of_pos ht]
  cases s with
  | nil => exact ⟨List.append_nil t, rfl⟩
  | cons b s =>
    have hb : ¬p b = true := by simp [hs b rfl]
    rw [List.takeWhile_cons_of_neg hb, List.dropWhile_cons_of_neg hb]
    exact ⟨List.append_nil t, rfl⟩

/-- **Pointed digits are read back**, before anything that starts with neither a digit nor a
point. -/
theorem fraction?_pointed {digits s : Text} (hdigits : digits.Digits)
    (hs : ∀ b ∈ s.head?, isDigit b = false ∧ b ≠ 46) :
    fraction? (pointed digits ++ s) = some (digits, s) := by
  cases digits with
  | nil =>
    cases s with
    | nil => rfl
    | cons b s => exact if_neg (hs b rfl).2
  | cons d digits =>
    obtain ⟨htake, hdrop⟩ := span_append hdigits fun b hb => (hs b hb).1
    show fraction? (46 :: (d :: digits ++ s)) = _
    rw [fraction?, if_pos rfl, htake, hdrop]
    rfl

end Text

theorem Duration.fraction_eq_pointed (width n : Nat) :
    fraction width n = Text.pointed (fractionDigits width n) :=
  rfl

end RepeatedAddition
