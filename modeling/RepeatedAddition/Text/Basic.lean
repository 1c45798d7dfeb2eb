/-!
# Texts

A text is what goes in and out of the program: arguments, files, reports and messages. None of them
promises an encoding, so a text is a list of bytes, and the character view of it is computed where a
rule needs one (`RepeatedAddition.Text.Utf8`).

* `Text.lit`: the bytes of a string written in this library.
* `Text.decimal`, `Text.integer`: numbers in decimal notation.
* `Text.paddedDecimal`: decimal notation of a fixed width.
* `Text.joined`: texts with a separator between them.
-/

namespace RepeatedAddition

/-- A text is a list of bytes. -/
abbrev Text := List UInt8

namespace Text

/-- The bytes of a string in UTF-8. -/
def lit (s : String) : Text := s.toByteArray.data.toList

/-- The byte of a decimal digit. -/
def digit (d : Nat) : UInt8 := UInt8.ofNat (48 + d)

/-- Decimal digits of `n`, the last one first reached, in front of `tail`; at most `limit` of
them. -/
def decimalBefore : Nat → Nat → Text → Text
  | 0, _, tail => tail
  | limit + 1, n, tail =>
    if n < 10 then digit n :: tail else decimalBefore limit (n / 10) (digit (n % 10) :: tail)

/-- Decimal notation, without leading zeros.  A number has fewer digits than its successor counts,
so the limit is never met. -/
def decimal (n : Nat) : Text := decimalBefore (n + 1) n []

/-- Decimal notation of an integer, with a minus sign before a negative one. -/
def integer : Int → Text
  | .ofNat n => decimal n
  | .negSucc n => lit "-" ++ decimal (n + 1)

/-- Decimal notation with zeros put before it up to the given width. -/
def paddedDecimal (width n : Nat) : Text :=
  let digits := decimal n
  List.replicate (width - digits.length) (digit 0) ++ digits

/-- One hexadecimal digit, in lower case. -/
def hexDigit (d : Nat) : UInt8 := if d < 10 then UInt8.ofNat (48 + d) else UInt8.ofNat (87 + d)

/-- Hexadecimal notation of exactly `width` digits, high ones dropped. -/
def hexadecimal : Nat → Nat → Text
  | 0, _ => []
  | width + 1, n => hexadecimal width (n / 16) ++ [hexDigit (n % 16)]

/-- The texts in order, with `separator` between neighbours. -/
def joined (separator : Text) (parts : List Text) : Text := separator.intercalate parts

/-- A text followed by blanks up to the given width. -/
def padded (width : Nat) (t : Text) : Text := t ++ List.replicate (width - t.length) 32

/-- Whether a byte is an ASCII digit. -/
def isDigit (b : UInt8) : Bool := 48 ≤ b && b ≤ 57

/-- The value of an ASCII digit. -/
def digitValue (b : UInt8) : Nat := b.toNat - 48

end Text

end RepeatedAddition
