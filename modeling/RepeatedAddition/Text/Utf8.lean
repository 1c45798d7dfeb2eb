import RepeatedAddition.Text.Basic

/-!
# The characters of a text

Reading a text as UTF-8 never fails: where no well-formed sequence starts, the first byte is stray
and reading goes on behind it.  So a text is a list of pieces, each a character or a stray byte.

* `Utf8.head?`: the well-formed sequence at the head of a text, if there is one.
* `Utf8.pieces`: a whole text as pieces.
* `Utf8.encode`: the bytes of a list of characters.

The ranges in `head?` are those of well-formed sequences: no overlong form, no surrogate, nothing
above U+10FFFF.
-/

namespace RepeatedAddition

namespace Utf8

/-- A character, or a byte that belongs to none. -/
inductive Piece where
  | char (c : Char)
  | stray (b : UInt8)
  deriving DecidableEq, Repr

/-- Whether a byte continues a sequence. -/
def isTail (b : UInt8) : Bool := 0x80 ≤ b && b ≤ 0xBF

/-- The six low bits of a byte. -/
def low6 (b : UInt8) : Nat := b.toNat % 64

/-- The character of the two-byte sequence at the head. -/
def two? (a : UInt8) : Text → Option (Char × Text)
  | b :: rest =>
    if 0xC2 ≤ a && a ≤ 0xDF && isTail b then
      some (Char.ofNat (a.toNat % 32 * 64 + low6 b), rest)
    else none
  | [] => none

/-- The character of the three-byte sequence at the head. -/
def three? (a : UInt8) : Text → Option (Char × Text)
  | b :: c :: rest =>
    if 0xE0 ≤ a && a ≤ 0xEF && isTail b && isTail c
        && (a != 0xE0 || 0xA0 ≤ b) && (a != 0xED || b ≤ 0x9F) then
      some (Char.ofNat ((a.toNat % 16 * 64 + low6 b) * 64 + low6 c), rest)
    else none
  | _ => none

/-- The character of the four-byte sequence at the head. -/
def four? (a : UInt8) : Text → Option (Char × Text)
  | b :: c :: d :: rest =>
    if 0xF0 ≤ a && a ≤ 0xF4 && isTail b && isTail c && isTail d
        && (a != 0xF0 || 0x90 ≤ b) && (a != 0xF4 || b ≤ 0x8F) then
      some (Char.ofNat (((a.toNat % 8 * 64 + low6 b) * 64 + low6 c) * 64 + low6 d), rest)
    else none
  | _ => none

/-- The well-formed sequence at the head of a text: its character and what follows. -/
def head? : Text → Option (Char × Text)
  | [] => none
  | a :: rest =>
    if a < 0x80 then some (Char.ofNat a.toNat, rest)
    else two? a rest <|> three? a rest <|> four? a rest

/-- The pieces of the first bytes of a text, at most `limit` pieces. -/
def piecesUpTo : Nat → Text → List Piece
  | 0, _ => []
  | _ + 1, [] => []
  | limit + 1, b :: rest =>
    match head? (b :: rest) with
    | some (c, after) => .char c :: piecesUpTo limit after
    | none => .stray b :: piecesUpTo limit rest

/-- The pieces of a text.  Each takes at least one byte, so the length of the text is limit
enough. -/
def pieces (t : Text) : List Piece := piecesUpTo t.length t

/-- The bytes of one character. -/
def encodeChar (c : Char) : Text := String.utf8EncodeChar c

/-- The character that stands for a stray byte where only characters may be written. -/
def replacement : Char := '\uFFFD'

/-- The bytes of a list of characters. -/
def encode (cs : List Char) : Text := cs.flatMap encodeChar

end Utf8

end RepeatedAddition
