import RepeatedAddition.Config.Numeral

/-!
# String literals

A literal stands between quotation marks, single ones for byte strings, and hash signs around the
marks make it raw: an escape then needs as many hash signs behind its backslash.  Three marks open a
literal of several lines, which starts on the line below; the blanks before its closing marks are
the indentation of every line and are no part of the text, nor is the last line break.  There a
backslash at the end of a line joins the line with the next one.

How far a literal goes and what it denotes are different questions: `StringLiteral.extent?` answers
the first, and notes escapes that do not exist on the way; `StringLiteral.read` answers the second
for the characters of a literal.
-/

namespace RepeatedAddition

namespace Config

namespace StringLiteral

/-- The form of a literal: its mark, how often it stands at each end, and the hash signs around
it. -/
structure Form where
  mark : Char
  tripled : Bool
  hashes : Nat

/-- Whether the literal is a byte string. -/
def Form.isBytes (f : Form) : Bool := f.mark = '\''

/-- The marks at each end of a literal. -/
def Form.marks (f : Form) : List Char := List.replicate (if f.tripled then 3 else 1) f.mark

/-- The characters that close a literal. -/
def Form.closing (f : Form) : List Char := f.marks ++ List.replicate f.hashes '#'

/-- The characters that start an escape. -/
def Form.escape (f : Form) : List Char := '\\' :: List.replicate f.hashes '#'

/-- What follows given characters at the head, if they stand there. -/
def after? (expected cs : List Char) : Option (List Char) :=
  if expected.isPrefixOf cs then some (cs.drop expected.length) else none

/-- The form of the literal at the head, and what follows its opening characters. -/
def opening? (cs : List Char) : Option (Form × List Char) :=
  let hashes := (cs.takeWhile (· = '#')).length
  match cs.drop hashes with
  | a :: b :: c :: rest =>
    if a = '"' || a = '\'' then
      if a = b && b = c then some (⟨a, true, hashes⟩, rest)
      else some (⟨a, false, hashes⟩, b :: c :: rest)
    else none
  | a :: rest => if a = '"' || a = '\'' then some (⟨a, false, hashes⟩, rest) else none
  | [] => none

/-! ## How far a literal goes -/

/-- How many characters a literal takes, and what is wrong with it. -/
structure Extent where
  width : Nat
  faults : List Numeral.Fault

/-- The name of a character in a message. -/
def charName (c : Char) : String :=
  let digits := (Nat.toDigits 16 c.toNat).map Char.toUpper
  "U+" ++ String.ofList (List.replicate (4 - digits.length) '0' ++ digits)
    ++ if Printable.isPrintable c then " '" ++ c.toString ++ "'" else ""

/-- The digits of an escape by number: how many may be read, at most `count`, and what is wrong with
the next one. -/
def escapeDigits (base : Nat) : Nat → Nat → List Char → Nat × List Numeral.Fault
  | 0, _, _ => (0, [])
  | _ + 1, place, [] => (0, [⟨place, "escape sequence not terminated"⟩])
  | count + 1, place, c :: rest =>
    if Numeral.continues base c then
      let (width, faults) := escapeDigits base count (place + 1) rest
      (width + 1, faults)
    else (0, [⟨place, "illegal character " ++ charName c ++ " in escape sequence"⟩])

/-- The extent of the escape behind its backslash and hash signs, which starts at a place. -/
def escapeExtent (form : Form) (place : Nat) (cs : List Char) : Extent :=
  match cs with
  | [] => ⟨0, [⟨place, "escape sequence not terminated"⟩]⟩
  | c :: rest =>
    let numbered (base count lead : Nat) (greatest : Nat) : Extent :=
      let digits := cs.drop lead
      let (width, faults) := escapeDigits base count (place + lead) digits
      let code := Numeral.value base (digits.take width)
      ⟨lead + width, if faults.isEmpty && greatest < code then
          [⟨place, "escape sequence is invalid Unicode code point"⟩] else faults⟩
    if c = form.mark || ['a', 'b', 'f', 'n', 'r', 't', 'v', '/', '\\'].contains c then ⟨1, []⟩
    else if c = '\n' && form.tripled then ⟨1, []⟩
    else if c = '\r' && form.tripled && rest.head? = some '\n' then ⟨2, []⟩
    else if c = 'x' then numbered 16 2 1 255
    else if c = 'u' then numbered 16 4 1 0x10FFFF
    else if c = 'U' then numbered 16 8 1 0x10FFFF
    else if '0' ≤ c && c ≤ '7' then numbered 8 3 0 255
    else ⟨0, [⟨place, "unknown escape sequence"⟩]⟩

/-- The extent of the characters up to the closing ones, which start at a place, in at most `limit`
steps. -/
def bodyExtent (form : Form) : Nat → Nat → List Char → Extent
  | 0, place, _ => ⟨place, []⟩
  | limit + 1, place, cs =>
    if form.closing.isPrefixOf cs then ⟨place + form.closing.length, []⟩
    else match after? form.escape cs with
      | some rest =>
        let lead := form.escape.length
        let escape := escapeExtent form (place + lead) rest
        let extent := bodyExtent form limit (place + lead + escape.width) (rest.drop escape.width)
        { extent with faults := escape.faults ++ extent.faults }
      | none =>
        match cs with
        | [] => ⟨place, [⟨0, "string literal not terminated"⟩]⟩
        | c :: rest =>
          if c = '\n' && !form.tripled then ⟨place, [⟨0, "string literal not terminated"⟩]⟩
          else bodyExtent form limit (place + 1) rest

/-- The extent of the literal at the head, if one starts there. -/
def extent? (cs : List Char) : Option Extent :=
  (opening? cs).map fun (form, rest) =>
    let lead := form.hashes + form.marks.length
    if form.tripled && rest.head? != some '\n' &&
        !(rest.head? = some '\r' && rest[1]? = some '\n') then
      ⟨lead, [⟨0, "expected newline after multiline quote " ++ String.ofList (cs.take lead)⟩]⟩
    else bodyExtent form (rest.length + 1) lead rest

/-! ## What a literal denotes -/

/-- A part of a literal: a character, a byte, or the end of a line with the remark whether the line
goes on. -/
inductive Item where
  | char (c : Char)
  | escaped (c : Char)
  | byte (b : UInt8)
  | lineEnd (joined : Bool)
  deriving DecidableEq, Repr

/-- A number of exactly `width` digits at the head. -/
def digits? (base width : Nat) (cs : List Char) : Option Nat :=
  let digits := cs.take width
  if digits.length = width && digits.all (fun c => c != '_' && Numeral.continues base c) then
    some (Numeral.value base digits)
  else none

/-- The character of a code point, if it is one. -/
def char? (code : Nat) : Option Char := if code.isValidChar then some (Char.ofNat code) else none

/-- The character of a pair of surrogates. -/
def surrogates? (high low : Nat) : Option Char :=
  if 0xD800 ≤ high && high < 0xDC00 && 0xDC00 ≤ low && low < 0xE000 then
    char? (0x10000 + (high - 0xD800) * 1024 + (low - 0xDC00))
  else none

/-- The escape behind its backslash: what it stands for and what follows it. -/
def escape? (form : Form) : List Char → Option (Item × List Char)
  | 'a' :: rest => some (.escaped (Char.ofNat 7), rest)
  | 'b' :: rest => some (.escaped (Char.ofNat 8), rest)
  | 'f' :: rest => some (.escaped (Char.ofNat 12), rest)
  | 'n' :: rest => some (.escaped '\n', rest)
  | 'r' :: rest => some (.escaped '\r', rest)
  | 't' :: rest => some (.escaped '\t', rest)
  | 'v' :: rest => some (.escaped (Char.ofNat 11), rest)
  | '/' :: rest => some (.escaped '/', rest)
  | '\\' :: rest => some (.escaped '\\', rest)
  | '\n' :: rest => if form.tripled then some (.lineEnd true, rest) else none
  | 'u' :: rest => do
    let code ← digits? 16 4 rest
    let rest := rest.drop 4
    match char? code with
    | some c => some (.escaped c, rest)
    | none => do
      let second ← after? (form.escape ++ ['u']) rest
      let c ← surrogates? code (← digits? 16 4 second)
      some (.escaped c, second.drop 4)
  | 'U' :: rest => do
    let code ← digits? 16 8 rest
    let c ← char? code
    some (.escaped c, rest.drop 8)
  | 'x' :: rest => do
    let code ← digits? 16 2 rest
    if form.isBytes then some (.byte (UInt8.ofNat code), rest.drop 2) else none
  | c :: rest =>
    if c = form.mark then some (.escaped c, rest)
    else do
      let code ← digits? 8 3 (c :: rest)
      if form.isBytes && code < 256 then some (.byte (UInt8.ofNat code), rest.drop 2) else none
  | [] => none

/-- The items up to the closing characters, at most `limit` of them. -/
def items? (form : Form) : Nat → List Char → Option (List Item)
  | 0, _ => none
  | limit + 1, cs =>
    if form.closing.isPrefixOf cs then some []
    else match after? form.escape cs with
      | some rest => do
        let (item, rest) ← escape? form rest
        let more ← items? form limit rest
        some (item :: more)
      | none =>
        match cs with
        | [] => none
        | c :: rest => (items? form limit rest).map fun more =>
          (if c = '\n' && form.tripled then .lineEnd false else .char c) :: more

/-- A line and the remark whether it goes on in the next one. -/
abbrev Line := List Item × Bool

/-- The lines of a literal; the last has no end. -/
def lines : List Item → List Line
  | [] => [([], false)]
  | .lineEnd joined :: rest => ([], joined) :: lines rest
  | item :: rest =>
    match lines rest with
    | (line, joined) :: more => (item :: line, joined) :: more
    | [] => [([item], false)]

/-- Whether an item is a plain blank. -/
def isBlank (i : Item) : Bool := i == .char ' ' || i == .char '\t'

/-- A line without its indentation; an empty line has none. -/
def unindent? (indentation line : List Item) : Option (List Item) :=
  if line.isEmpty then some []
  else if indentation.isPrefixOf line then some (line.drop indentation.length)
  else none

/-- The items of lines, joined where a line goes on. -/
def joinLines : List Line → List Item
  | [] => []
  | [(line, _)] => line
  | (line, joined) :: rest => line ++ (if joined then [] else [.escaped '\n']) ++ joinLines rest

/-- The text of a literal of several lines, given all lines below the opening one: the last holds
only the indentation. -/
def dedent (below : List Line) : Except String (List Item) :=
  let indentation := (below.getLast?.map Prod.fst).getD []
  let text := below.dropLast
  if !indentation.all isBlank then .error "non-matching multiline indentation"
  else if (text.getLast?.map Prod.snd).getD false then
    .error "last newline of multiline string cannot be escaped"
  else match text.mapM fun l => (unindent? indentation l.1).map fun line => (line, l.2) with
    | some ls => .ok (joinLines ls)
    | none => .error "non-matching multiline indentation"

/-- The items of a literal behind its opening characters. -/
def body (form : Form) (cs : List Char) : Except String (List Item) :=
  let cs := if form.tripled then cs.filter (· != '\r') else cs
  if cs.contains '\r' then .error "invalid syntax"
  else match items? form (cs.length + 1) cs with
    | none => .error "invalid syntax"
    | some is =>
      if form.tripled then
        match lines is with
        | ([], _) :: below => if below.isEmpty then .error "invalid syntax" else dedent below
        | _ => .error "invalid syntax"
      else .ok is

/-- The text of an item in a byte string. -/
def Item.bytes : Item → Text
  | .char c | .escaped c => Utf8.encodeChar c
  | .byte b => [b]
  | .lineEnd _ => Text.lit "\n"

/-- The character of an item in a string. -/
def Item.character : Item → Char
  | .char c | .escaped c => c
  | .byte b => Char.ofNat b.toNat
  | .lineEnd _ => '\n'

/-- The atom of a literal. -/
def atom (form : Form) (is : List Item) : Atom :=
  if form.isBytes then .bytes (is.flatMap Item.bytes) else
    .string (String.ofList (is.map Item.character))

/-- The atom that the characters of a literal denote, or why they denote none. -/
def read (cs : List Char) : Except Text Atom :=
  match opening? cs with
  | none => .error (Text.lit "invalid string: invalid syntax")
  | some (form, rest) =>
    match body form rest with
    | .ok is => .ok (atom form is)
    | .error message => .error (Text.lit ("invalid string: " ++ message))

end StringLiteral

end Config

end RepeatedAddition
