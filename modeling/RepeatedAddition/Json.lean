import RepeatedAddition.Text.Utf8

/-!
# JSON documents

A document is a tree, and `Json.text` lays it out with two blanks for each level: an array or object
with members has one member a line, an empty one is closed at once.  Numbers are integers.

Inside strings the quotation mark, the backslash and the control characters are escaped, and so are
`<`, `>`, `&` and the two line separators U+2028 and U+2029, so that a document can stand inside
other markup.  A stray byte is written as the replacement character U+FFFD.
-/

namespace RepeatedAddition

/-- A JSON document. -/
inductive Json where
  | null
  | bool (b : Bool)
  | number (n : Int)
  | string (t : Text)
  | array (items : List Json)
  | object (members : List (Text × Json))

namespace Json

/-- A character by the four hexadecimal digits of its number. -/
def numbered (c : Char) : Text := Text.lit "\\u" ++ Text.hexadecimal 4 c.toNat

/-- A character inside a string. -/
def char (c : Char) : Text :=
  match c.toNat with
  | 8 => Text.lit "\\b"
  | 9 => Text.lit "\\t"
  | 10 => Text.lit "\\n"
  | 12 => Text.lit "\\f"
  | 13 => Text.lit "\\r"
  | 34 => Text.lit "\\\""
  | 92 => Text.lit "\\\\"
  | n =>
    if n < 0x20 || n = 0x3C || n = 0x3E || n = 0x26 || n = 0x2028 || n = 0x2029 then numbered c
    else Utf8.encodeChar c

/-- A piece of a text inside a string. -/
def piece : Utf8.Piece → Text
  | .char c => char c
  | .stray _ => Utf8.encodeChar Utf8.replacement

/-- A text as a string of a document. -/
def quoted (t : Text) : Text := Text.lit "\"" ++ (Utf8.pieces t).flatMap piece ++ Text.lit "\""

/-- A new line at a level. -/
def newline (level : Nat) : Text := Text.lit "\n" ++ List.replicate (2 * level) 32

mutual

/-- The text of a document whose first line stands at a level. -/
def layout (level : Nat) : Json → Text
  | .null => Text.lit "null"
  | .bool true => Text.lit "true"
  | .bool false => Text.lit "false"
  | .number n => Text.integer n
  | .string t => quoted t
  | .array [] => Text.lit "[]"
  | .array (item :: items) =>
    Text.lit "[" ++ newline (level + 1) ++ layout (level + 1) item ++ layoutItems (level + 1) items
      ++ newline level ++ Text.lit "]"
  | .object [] => Text.lit "\x7b\x7d"
  | .object ((key, value) :: members) =>
    Text.lit "\x7b" ++ newline (level + 1) ++ quoted key ++ Text.lit ": " ++
      layout (level + 1) value ++ layoutMembers (level + 1) members ++ newline level ++
      Text.lit "\x7d"

/-- The items behind the first of an array. -/
def layoutItems (level : Nat) : List Json → Text
  | [] => []
  | item :: items => Text.lit "," ++ newline level ++ layout level item ++ layoutItems level items

/-- The members behind the first of an object. -/
def layoutMembers (level : Nat) : List (Text × Json) → Text
  | [] => []
  | (key, value) :: members =>
    Text.lit "," ++ newline level ++ quoted key ++ Text.lit ": " ++ layout level value
      ++ layoutMembers level members

end

/-- The text of a document. -/
def text (document : Json) : Text := layout 0 document

/-- A text as a document. -/
def ofText (t : Text) : Json := .string t

/-- A word as a document. -/
def ofWord (w : UInt64) : Json := .number w.toNat

/-- An optional word as at most one member of an object. -/
def wordMember? (key : String) : Option UInt64 → List (Text × Json)
  | some w => [(Text.lit key, ofWord w)]
  | none => []

end Json

end RepeatedAddition
