import Mathlib.Data.List.Induction
import Mathlib.Data.Nat.Digits.Defs
import RepeatedAddition.CommandLine.Request
import RepeatedAddition.Proofs.Operand

/-!
# Operands and their decimal notation

Operands are given in decimal notation, by place value: the last digit counts ones, the one before
it tens, and so on.  They are read in the other direction, in words that wrap.  Here the two are
brought together for texts of any length, with leading zeros and with anything else in any place:
what is read is the number that the digits denote, and what is refused is refused for the first
thing wrong from the left.

A product is printed in the same notation, so every word that is printed can be read again.

* `Text.placeValue`: the number that digits denote, by place value.
* `Text.value_eq_placeValue`: reading from the left gives it.
* `Operand.pushAll_exact`: what has been read so far is never a word that wrapped.
* `Operand.parse_decimal`: a word is read back from its notation.
* `Operand.parse_by_notation`: what an operand is read as, and why one is refused.
-/

namespace RepeatedAddition

namespace Text

/-- The number that digits denote: each counts ten times what the one behind it counts, and the last
counts once. -/
def placeValue (t : Text) : Nat := Nat.ofDigits 10 (t.reverse.map digitValue)

theorem placeValue_concat (t : Text) (b : UInt8) :
    placeValue (t ++ [b]) = 10 * placeValue t + digitValue b := by
  rw [placeValue, List.reverse_append, List.reverse_singleton, List.singleton_append, List.map_cons,
    Nat.ofDigits_cons, Nat.add_comm]
  rfl

/-- **Reading digits from the left gives the number that they denote by place value.** -/
theorem value_eq_placeValue (t : Text) : t.value = t.placeValue := by
  induction t using List.reverseRecOn with
  | nil => rfl
  | append_singleton t b ih =>
    rw [value, valueFrom_append, valueFrom_cons, valueFrom_nil, placeValue_concat, ← ih]
    rfl

end Text

namespace Operand

open Text

/-! ## The accumulator -/

/-- **The accumulator never wraps.**  After any text that is accepted, it is the number that the
text denotes. -/
theorem pushAll_exact {t : Text} {total : UInt64} (h : pushAll 0 t = .ok total) :
    total.toNat = t.placeValue := by
  rw [← value_eq_placeValue]
  exact (pushAll_eq_ok_iff.mp h).2.symm

/-! ## Named operands -/

theorem parse_eq_ok_iff {name value : Text} {v : UInt64} :
    parse name value = .ok v ↔ read value = .ok v := by
  rw [parse]
  cases read value with
  | ok w => simp
  | error fault => simp

theorem parse_eq_error_iff {name value : Text} {fault : Fault} :
    parse name value = .error ⟨name, value, fault⟩ ↔ read value = .error fault := by
  rw [parse]
  cases read value with
  | ok w => simp
  | error fault' => simp

/-- A word is read back from its notation. -/
theorem parse_decimal (name : Text) (w : UInt64) : parse name (decimal w.toNat) = .ok w := by
  have hdecimal := isDecimal_decimal w.toNat
  rw [parse_eq_ok_iff, read_eq_ok_iff]
  refine ⟨⟨hdecimal.ne_nil, hdecimal.digits, ?_⟩, hdecimal.value_eq⟩
  rw [hdecimal.value_eq]
  exact UInt64.toNat_lt w

theorem valid_iff {t : Text} : Valid t ↔ t ≠ [] ∧ t.Digits ∧ t.placeValue < 2 ^ 64 := by
  rw [Valid, value_eq_placeValue]

theorem tooLarge_iff {t : Text} :
    TooLarge t ↔ ∃ p : Text, p <+: t ∧ p.Digits ∧ 2 ^ 64 ≤ p.placeValue := by
  simp only [TooLarge, value_eq_placeValue]

/-- **An operand is what its digits denote.**  A text is read as a word exactly if it has digits
only, at least one, and they denote that word, with any number of leading zeros.  Any other text is
refused: as out of range exactly if some beginning of it has digits only that denote no word,
whatever follows, and for its syntax if there is no such beginning.  After whatever digits it has
taken in, the accumulator is what they denote, so no value that wrapped is ever taken for an
operand.  Every word is read back from its notation, and so is every product that is printed. -/
theorem parse_by_notation (name value : Text) :
    (∀ v : UInt64, parse name value = .ok v ↔
      value ≠ [] ∧ value.Digits ∧ value.placeValue = v.toNat) ∧
    (parse name value = .error ⟨name, value, .outOfRange⟩ ↔
      ∃ p : Text, p <+: value ∧ p.Digits ∧ 2 ^ 64 ≤ p.placeValue) ∧
    (parse name value = .error ⟨name, value, .badSyntax⟩ ↔
      ¬(∃ p : Text, p <+: value ∧ p.Digits ∧ 2 ^ 64 ≤ p.placeValue) ∧
        ¬(value ≠ [] ∧ value.Digits ∧ value.placeValue < 2 ^ 64)) ∧
    (∀ (p : Text) (total : UInt64), pushAll 0 p = .ok total → total.toNat = p.placeValue) ∧
    (∀ w : UInt64, parse name (decimal w.toNat) = .ok w) ∧
    ∀ (m : CommandLine.Multiplication) (terminal : Bool), ∃ digits,
      (m.effect terminal).output = digits ++ lit "\n" ∧ parse name digits = .ok m.product := by
  refine ⟨fun v => ?_, ?_, ?_, fun _ _ hp => pushAll_exact hp, parse_decimal name,
    fun m terminal => ⟨decimal m.product.toNat, rfl, parse_decimal name m.product⟩⟩
  · rw [parse_eq_ok_iff, read_eq_ok_iff, valid_iff, value_eq_placeValue]
    constructor
    · rintro ⟨⟨hne, hdigits, -⟩, hvalue⟩
      exact ⟨hne, hdigits, hvalue⟩
    · rintro ⟨hne, hdigits, hvalue⟩
      exact ⟨⟨hne, hdigits, hvalue ▸ UInt64.toNat_lt v⟩, hvalue⟩
  · rw [parse_eq_error_iff, read_eq_outOfRange_iff, tooLarge_iff]
  · rw [parse_eq_error_iff, read_eq_badSyntax_iff, tooLarge_iff, valid_iff]

end Operand

end RepeatedAddition
