import RepeatedAddition.Text.Quoted

/-!
# Strings as a source writes them

A message shows strings and byte strings in the way in which a source would write them.  Strings
stand between double quotation marks and byte strings between single ones; only the own mark needs a
backslash.  What cannot be printed is written by its code point, and in byte strings control
characters and stray bytes by two hexadecimal digits.

* `Quotation.string`, `Quotation.bytes`: the two forms.
-/

namespace RepeatedAddition

namespace Config

namespace Quotation

/-- A character between given marks. -/
def char (mark : Char) (c : Char) : Text :=
  if c = mark || c = '\\' then Text.lit "\\" ++ Utf8.encodeChar c
  else if Printable.isPrintable c then Utf8.encodeChar c
  else match Quoted.letter? c with
    | some l => Text.lit "\\" ++ Text.lit l
    | none =>
      if mark = '\'' && c.toNat < 0x20 then Text.lit "\\x" ++ Text.hexadecimal 2 c.toNat
      else if c.toNat < 0x10000 then Text.lit "\\u" ++ Text.hexadecimal 4 c.toNat
      else Text.lit "\\U" ++ Text.hexadecimal 8 c.toNat

/-- A string in quotation marks. -/
def string (s : String) : Text :=
  Text.lit "\"" ++ s.toList.flatMap (char '"') ++ Text.lit "\""

/-- A byte string in quotation marks. -/
def bytes (t : Text) : Text :=
  let piece : Utf8.Piece → Text
    | .char c => char '\'' c
    | .stray b => Text.lit "\\x" ++ Text.hexadecimal 2 b.toNat
  Text.lit "'" ++ (Utf8.pieces t).flatMap piece ++ Text.lit "'"

end Quotation

end Config

end RepeatedAddition
