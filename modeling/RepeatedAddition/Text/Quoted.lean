import RepeatedAddition.Text.Utf8
import RepeatedAddition.Text.Printable

/-!
# Quoted texts

A message that repeats what the user wrote puts it in quotation marks, in a form that holds no
control character and loses nothing: printable characters stand for themselves, the usual control
characters have a letter, every other character and every stray byte is written by its number.

* `Quoted.piece`: the quoted form of one piece.
* `Quoted.text`: the quoted form of a text.
* `Quoted.list`: several quoted texts in brackets.
-/

namespace RepeatedAddition

namespace Quoted

/-- The letter that stands for a control character after a backslash. -/
def letter? (c : Char) : Option String :=
  match c.toNat with
  | 7 => some "a"
  | 8 => some "b"
  | 9 => some "t"
  | 10 => some "n"
  | 11 => some "v"
  | 12 => some "f"
  | 13 => some "r"
  | _ => none

/-- The quoted form of a character. -/
def char (c : Char) : Text :=
  if c = '"' || c = '\\' then Text.lit "\\" ++ Utf8.encodeChar c
  else if Printable.isPrintable c then Utf8.encodeChar c
  else match letter? c with
    | some l => Text.lit "\\" ++ Text.lit l
    | none =>
      if c.toNat < 0x80 then Text.lit "\\x" ++ Text.hexadecimal 2 c.toNat
      else if c.toNat < 0x10000 then Text.lit "\\u" ++ Text.hexadecimal 4 c.toNat
      else Text.lit "\\U" ++ Text.hexadecimal 8 c.toNat

/-- The quoted form of a piece: a stray byte is written by its two hexadecimal digits. -/
def piece : Utf8.Piece → Text
  | .char c => char c
  | .stray b => Text.lit "\\x" ++ Text.hexadecimal 2 b.toNat

/-- A text in quotation marks. -/
def text (t : Text) : Text := Text.lit "\"" ++ (Utf8.pieces t).flatMap piece ++ Text.lit "\""

/-- Quoted texts in brackets, with a blank between neighbours. -/
def list (ts : List Text) : Text :=
  Text.lit "[" ++ Text.joined (Text.lit " ") (ts.map text) ++ Text.lit "]"

end Quoted

end RepeatedAddition
