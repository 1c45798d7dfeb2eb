import RepeatedAddition.Config.Problem
import RepeatedAddition.Config.StringLiteral
import RepeatedAddition.Text.Letter

/-!
# Tokens of a source

A source is split into words, literals and marks.  Blanks and comments only separate, except that a
line break is a comma when the token before it can end a value and the next line does not start with
a comma or a colon; the end of the source and a comment count as line breaks.

What is wrong with a token is noted with it, and reading goes on behind it.

* `Token.ofSource`: the tokens of a source; the last is its end.
-/

namespace RepeatedAddition

namespace Config

/-- What a token is.  Literals keep their characters, because what they denote is a question of its
own. -/
inductive Lexeme where
  | word (name : String)
  | number (fractional : Bool) (chars : List Char)
  | string (chars : List Char)
  | mark (sign : String)
  | comma
  | lineEnd
  | bottom
  | illegal
  | finish
  deriving DecidableEq, Repr

/-- A token with its place, and what is wrong with it. -/
structure Token where
  lexeme : Lexeme
  place : Position
  problems : List Problem := []
  deriving DecidableEq, Repr

/-- A place in a source together with the characters from there on. -/
structure Cursor where
  rest : List Char
  place : Position

namespace Cursor

/-- The place behind a character that has a given rest behind it.  A line break at the very end of a
source starts no new line. -/
def step (place : Position) (c : Char) (rest : List Char) : Position :=
  if c = '\n' && !rest.isEmpty then ⟨place.source, place.line + 1, 1⟩
  else ⟨place.source, place.line, place.column + c.utf8Size⟩

/-- The cursor moved over a number of characters. -/
def skip : Nat → Cursor → Cursor
  | 0, c => c
  | _ + 1, ⟨[], place⟩ => ⟨[], place⟩
  | n + 1, ⟨c :: rest, place⟩ => skip n ⟨rest, step place c rest⟩

/-- The problem at a character behind the cursor. -/
def problem (c : Cursor) (fault : Numeral.Fault) : Problem :=
  ⟨[], Text.lit fault.message, some (c.skip fault.place).place, []⟩

end Cursor

namespace Lexeme

/-- Whether a line break behind the lexeme is a comma; an illegal one leaves it open. -/
def endsValue (pending : Bool) : Lexeme → Bool
  | .word _ | .number _ _ | .string _ | .bottom => true
  | .mark sign => [")", "]", "\x7d", "...", "?", ";"].contains sign
  | .illegal => pending
  | _ => false

/-- The words with a meaning of their own. -/
def keywords : List String := ["true", "false", "null", "for", "in", "if", "let", "func"]

/-- How a lexeme is called in a message. -/
def text : Lexeme → Text
  | .word n =>
    if keywords.contains n then Text.lit "'" ++ Text.lit n ++ Text.lit "'" else
      Text.lit "'IDENT' " ++ Text.lit n
  | .number false cs => Text.lit "'INT' " ++ Utf8.encode cs
  | .number true cs => Text.lit "'FLOAT' " ++ Utf8.encode cs
  | .string cs => Text.lit "'STRING' " ++ Utf8.encode cs
  | .mark s => Text.lit "'" ++ Text.lit s ++ Text.lit "'"
  | .comma => Text.lit "','"
  | .lineEnd => Text.lit "newline"
  | .bottom => Text.lit "'_|_' _|_"
  | .illegal => Text.lit "'ILLEGAL'"
  | .finish => Text.lit "'EOF'"

end Lexeme

namespace Token

/-- The marks, longer ones before those that they start with. -/
def marks : List String :=
  ["...", "<-", "<=", ">=", "!=", "==", "=~", "!~", "&&", "||", "::", "\x7b", "\x7d", "[", "]",
    "(", ")", ":", "+", "-", "*", "/", "&", "|", "<", ">", "=", "!", "?", ".", ";"]

/-- Whether a character can start a word. -/
def startsWord (c : Char) : Bool := Letter.isLetter c || c = '_' || c = '$' || c = '#'

/-- Whether a character can go on a word. -/
def continuesWord (c : Char) : Bool :=
  Letter.isLetter c || Letter.isDigit c || c = '_' || c = '$'

/-- The word at the head: an underscore and a hash sign may come first, and no digit may follow the
latter. -/
def wordAt (cs : List Char) : List Char :=
  let (hidden, cs) := if cs.head? = some '_' then (['_'], cs.drop 1) else ([], cs)
  let (hash, cs) := if cs.head? = some '#' then (['#'], cs.drop 1) else ([], cs)
  if !hash.isEmpty && cs.head?.any Letter.isDigit then hidden ++ hash
  else hidden ++ hash ++ cs.takeWhile continuesWord

/-- What is said of a character that may not stand in a source. -/
def illegalMessage (c : Char) : String :=
  if c.toNat = 0 then "illegal character NUL"
  else if c.toNat = 0xFEFF then "illegal byte order mark"
  else "illegal character " ++ StringLiteral.charName c

/-- A lexeme, the number of characters that it takes, and what is wrong with it. -/
structure Scanned where
  lexeme : Lexeme
  width : Nat
  faults : List Numeral.Fault := []

/-- The mark at the head, or what may not stand there. -/
def markAt (c : Char) (cs : List Char) : Scanned :=
  match cs with
  | '.' :: '.' :: rest =>
    if rest.head? = some '.' then ⟨.mark "...", 3, []⟩
    else ⟨.illegal, 2, [⟨0, "illegal token '..'; expected '.'"⟩]⟩
  | _ =>
    match marks.find? fun m => m.toList.isPrefixOf cs with
    | some m => ⟨.mark m, m.length, []⟩
    | none => ⟨.illegal, 1, [⟨0, illegalMessage c⟩]⟩

/-- The lexeme at the head of characters that do not start with a blank or a comment. -/
def lexemeAt (cs : List Char) : Scanned :=
  match StringLiteral.extent? cs with
  | some extent => ⟨.string (cs.take extent.width), extent.width, extent.faults⟩
  | none =>
    match cs with
    | [] => ⟨.finish, 0, []⟩
    | ',' :: _ => ⟨.comma, 1, []⟩
    | '_' :: '|' :: '_' :: _ => ⟨.bottom, 3, []⟩
    | '_' :: '|' :: _ => ⟨.illegal, 2, [⟨0, "illegal token '_|'; expected '_'"⟩]⟩
    | c :: rest =>
      if c.isDigit || (c = '.' && rest.head?.any Char.isDigit) then
        let extent := Numeral.extent cs
        ⟨.number extent.fractional (cs.take extent.width), extent.width, extent.faults⟩
      else if startsWord c then
        let word := wordAt cs
        ⟨.word (String.ofList word), word.length, []⟩
      else markAt c cs

/-- Whether a character separates tokens. -/
def isBlank (c : Char) : Bool := c = ' ' || c = '\t' || c = '\r' || c = '\n'

/-- Whether the next line goes on with what the last one left: its first character is a comma or a
colon. -/
def goesOn (cs : List Char) : Bool :=
  match cs.dropWhile isBlank with
  | c :: _ => c = ',' || c = ':'
  | [] => false

/-- The tokens from a cursor on, at most `limit` steps; `pending` says that a line break would be a
comma. -/
def scan : Nat → Bool → Cursor → List Token
  | 0, _, cursor => [⟨.finish, cursor.place, []⟩]
  | limit + 1, pending, cursor =>
    match cursor.rest with
    | [] =>
      if pending then [⟨.lineEnd, cursor.place, []⟩, ⟨.finish, cursor.place, []⟩]
      else [⟨.finish, cursor.place, []⟩]
    | '\n' :: rest =>
      if pending && !goesOn rest then
        ⟨.lineEnd, cursor.place, []⟩ :: scan limit false (cursor.skip 1)
      else scan limit false (cursor.skip 1)
    | ' ' :: _ | '\t' :: _ | '\r' :: _ => scan limit pending (cursor.skip 1)
    | '/' :: '/' :: rest =>
      let after := scan limit false (cursor.skip (2 + (rest.takeWhile (· != '\n')).length))
      if pending then ⟨.lineEnd, cursor.place, []⟩ :: after else after
    | cs =>
      let found := lexemeAt cs
      ⟨found.lexeme, cursor.place, found.faults.map cursor.problem⟩
        :: scan limit (found.lexeme.endsValue pending) (cursor.skip found.width)

/-- Whether a character may stand nowhere in a source. -/
def isForbidden (c : Char) : Bool := c.toNat = 0 || c.toNat = 0xFEFF

/-- The characters of a source, up to the first that may not stand there: a stray byte, a NUL or a
byte order mark.  The message says what is wrong with it. -/
def characters : List Utf8.Piece → List Char × Option String
  | [] => ([], none)
  | .stray _ :: _ => ([], some "illegal UTF-8 encoding")
  | .char c :: rest =>
    if isForbidden c then ([], some (illegalMessage c))
    else
      let (cs, fault) := characters rest
      (c :: cs, fault)

/-- Whether the first character is a byte order mark. -/
def startsWithMark : List Utf8.Piece → Bool
  | .char c :: _ => c.toNat = 0xFEFF
  | _ => false

/-- The tokens of a named source.  A byte order mark at its head is skipped, and takes three
columns.  Behind a character that may stand nowhere only the end follows. -/
def ofSource (name text : Text) : List Token :=
  let pieces := Utf8.pieces text
  let marked := startsWithMark pieces
  let (cs, fault) := characters (if marked then pieces.drop 1 else pieces)
  let start : Cursor := ⟨cs, ⟨name, 1, if marked then 4 else 1⟩⟩
  let tokens := scan (cs.length + 1) false start
  match fault with
  | some message =>
    let finish := (start.skip cs.length).place
    tokens.filter (fun t => t.lexeme != .finish && !(t.lexeme == .lineEnd && t.place = finish))
      ++ [⟨.illegal, finish, [⟨[], Text.lit message, some finish, []⟩]⟩, ⟨.finish, finish, []⟩]
  | none => tokens

end Token

end Config

end RepeatedAddition
