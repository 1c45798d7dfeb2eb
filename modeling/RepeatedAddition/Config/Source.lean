import RepeatedAddition.Config.Token
import RepeatedAddition.Config.Expr

/-!
# Reading a source

A source is read from its tokens by descent: declarations between braces, items between brackets,
and expressions with the usual binding strength, `|` weakest, then `&`, then sums, then products.  A
sign, a limit or a preference binds more strongly than all of these.

Reading does not stop at the first thing that is wrong.  It notes the problem, makes a guess and
goes on, so that several mistakes in one source are all reported; but only the first one on a line,
and not many more than ten.

Every function takes the number of steps it may still go down; each step down takes at least one
token with it, so a fixed multiple of the number of tokens is enough (`Source.read`).

* `Source.read`: the struct that a source is, or what is wrong with it.
-/

namespace RepeatedAddition

namespace Config

namespace Source

/-- The tokens that are left, the problems found so far with the latest first, whether there were
too many, and where reading was last taken up again after a problem. -/
structure State where
  tokens : List Token
  problems : List Problem := []
  stopped : Bool := false
  resumedAt : Option Position := none
  resumed : Nat := 0

/-- What reading gives, step by step. -/
abbrev Reading := StateM State

/-- The end of tokens that have run out. -/
def noToken : Token := ⟨.finish, ⟨[], 0, 0⟩, []⟩

namespace State

/-- The next token. -/
def current (s : State) : Token := s.tokens.headD noToken

/-- Goes on to the next token, with the problems that it brings; the last one stays. -/
def advance (s : State) : State :=
  match s.tokens with
  | _ :: t :: rest =>
    { s with
      tokens := t :: rest
      problems := if s.stopped then s.problems else t.problems.reverse ++ s.problems }
  | _ => s

/-- The number of problems behind which reading stops. -/
def mostProblems : Nat := 10

/-- Notes a problem at a place, unless the last one stands on the same line. -/
def report (s : State) (place : Position) (message : Text) : State :=
  if s.stopped || (s.problems.head?.bind Problem.decisive).any (·.line = place.line) then s
  else if mostProblems < s.problems.length then { s with stopped := true }
  else { s with problems := ⟨[], message, some place, []⟩ :: s.problems }

/-- Notes that something else was expected than the next token. -/
def unexpected (s : State) (wanted : String) : State :=
  s.report s.current.place
    (Text.lit "expected " ++ Text.lit wanted ++ Text.lit ", found " ++ s.current.lexeme.text)

/-- Takes up reading at the next comma or at the end, at most `limit` tokens ahead.  A comma where
it was taken up ten times before is passed. -/
def resume : Nat → State → State
  | 0, s => s
  | limit + 1, s =>
    let here := s.current
    match here.lexeme with
    | .finish => s
    | .comma | .lineEnd =>
      match s.resumedAt with
      | none => { s with resumedAt := some here.place, resumed := 0 }
      | some place =>
        if place = here.place && s.resumed < 10 then { s with resumed := s.resumed + 1 }
        else if place.order here.place == .lt then
          { s with resumedAt := some here.place, resumed := 0 }
        else resume limit s.advance
    | _ => resume limit s.advance

end State

/-- The next token. -/
def current : Reading Token := do return (← get).current

/-- Goes on to the next token. -/
def advance : Reading Unit := modify State.advance

/-- Whether a token is a given mark. -/
def isMark (sign : String) (t : Token) : Bool := t.lexeme == .mark sign

/-- Whether a token is a comma, written or not. -/
def isComma (t : Token) : Bool := t.lexeme == .comma || t.lexeme == .lineEnd

/-- Whether a token is the end of the source. -/
def isFinish (t : Token) : Bool := t.lexeme == .finish

/-- Takes a mark that must come next, and something else in its stead. -/
def expect (sign : String) : Reading Unit := do
  if !isMark sign (← current) then modify (·.unexpected ("'" ++ sign ++ "'"))
  advance

/-- Takes a closing mark; a line break before it lacks a comma. -/
def expectClosing (sign context : String) : Reading Unit := do
  let t ← current
  if t.lexeme == .lineEnd then
    modify (·.report t.place (Text.lit ("missing ',' before newline in " ++ context)))
    advance
  expect sign

/-- Takes the comma behind a declaration; before the end of the struct it may be left out. -/
def declarationComma : Reading Unit := do
  let t ← current
  if isComma t then advance
  else if !isMark "\x7d" t && !isFinish t then
    modify (·.report t.place (Text.lit "missing ',' in struct literal"))
    advance

/-- The binary operators: how strongly they bind, and what they make of their operands. -/
def operator? : Lexeme → Option (Nat × (Expr → Expr → Expr))
  | .mark "|" => some (1, .either)
  | .mark "&" => some (2, .meet)
  | .mark "+" => some (6, .arithmetic .add)
  | .mark "-" => some (6, .arithmetic .subtract)
  | .mark "*" => some (7, .arithmetic .multiply)
  | .mark "/" => some (7, .arithmetic .divide)
  | _ => none

/-- The operators before an operand. -/
def leading? (place : Position) : Lexeme → Option (Expr → Expr)
  | .mark "+" => some (.signed place .plus)
  | .mark "-" => some (.signed place .minus)
  | .mark "*" => some (.preferred place)
  | .mark "<" => some (.limit place .less)
  | .mark "<=" => some (.limit place .atMost)
  | .mark ">" => some (.limit place .greater)
  | .mark ">=" => some (.limit place .atLeast)
  | .mark "!=" => some (.limit place .differs)
  | _ => none

/-- The expression that a word is. -/
def ofWord (place : Position) (n : String) : Expr :=
  if n = "true" then .literal place (.bool true)
  else if n = "false" then .literal place (.bool false)
  else if n = "null" then .literal place .null
  else if n = "_" then .top place
  else .name place n

/-- The expression that the characters of a literal are, with what is said before the reason when
they denote nothing. -/
def ofLiteral (place : Position) (reason : Text) (result : Except Text Atom) : Expr :=
  match result with
  | .ok a => .literal place a
  | .error message => .faulty place (reason ++ message)

/-- The expression of a single token, if it is one. -/
def ofToken? (t : Token) : Option Expr :=
  match t.lexeme with
  | .word w => some (ofWord t.place w)
  | .number _ cs => some (ofLiteral t.place (Text.lit "parse error: ") (Numeral.read cs))
  | .string cs => some (ofLiteral t.place [] (StringLiteral.read cs))
  | .bottom => some (.bottom t.place)
  | _ => none

/-- The string that a byte string spells; a stray byte is replaced. -/
def spelled (t : Text) : String :=
  String.ofList ((Utf8.pieces t).map fun
    | .char c => c
    | .stray _ => Utf8.replacement)

/-- A label that an expression can be: its label and whether it binds a name. -/
inductive Head where
  | label (label : Label) (bindable : Bool)
  | faulty (place : Position) (message : Text)

/-- The label that an expression can be. -/
def head? : Expr → Option Head
  | .name _ n => some (.label (.ofIdentifier n) true)
  | .top p => some (.faulty p (Text.lit "cannot use _ as label"))
  | .literal _ (.string s) => some (.label (.regular s) false)
  | .literal _ (.bytes t) => some (.label (.regular (spelled t)) false)
  | .literal _ .null => some (.label (.regular "null") false)
  | .literal _ (.bool b) => some (.label (.regular (if b then "true" else "false")) false)
  | .faulty p m => some (.faulty p m)
  | .group p _ | .list p _ _ => some (.faulty p (Text.lit "computed labels are not supported"))
  | _ => none

/-- The declaration of a field. -/
def Head.field (h : Head) (optional : Bool) (value : Expr) : Decl :=
  match h with
  | .label l bindable => .field l bindable optional value
  | .faulty p m => .faulty p m

/-- Notes that a name is reserved. -/
def checkName : Expr → Reading Unit
  | .name p n => do
    if n.startsWith "__" then
      modify (·.report p (Text.lit "identifiers starting with '__' are reserved"))
  | _ => pure ()

/-- Whether a token can start a label. -/
def startsLabel (t : Token) : Bool :=
  match t.lexeme with
  | .word _ | .string _ => true
  | .mark s => s = "(" || s = "["
  | _ => false

/-- Whether a token follows a label: a colon, or the mark of an optional field. -/
def followsLabel (t : Token) : Bool := isMark ":" t || isMark "?" t

/-- What stands for an expression that could not be read. -/
def unread : Reading Expr := do return .top (← current).place

mutual

/-- An expression whose operators bind at least as strongly as given. -/
def expression : Nat → Nat → Reading Expr
  | 0, _ => unread
  | n + 1, strength => do operators n strength (← operand n)

/-- The operators behind an operand, with their right operands. -/
def operators : Nat → Nat → Expr → Reading Expr
  | 0, _, left => return left
  | n + 1, strength, left => do
    match operator? (← current).lexeme with
    | none => return left
    | some (binding, build) =>
      if binding < strength then return left
      advance
      let right ← expression n (binding + 1)
      operators n strength (build left right)

/-- An operand with the signs before it. -/
def operand : Nat → Reading Expr
  | 0 => unread
  | n + 1 => do
    let t ← current
    match leading? t.place t.lexeme with
    | some build =>
      advance
      return build (← operand n)
    | none => selections n (← primary n)

/-- The selections behind an operand. -/
def selections : Nat → Expr → Reading Expr
  | 0, e => return e
  | n + 1, e => do
    if !isMark "." (← current) then return e
    advance
    let t ← current
    match (ofToken? t).bind head? with
    | some (.label label _) =>
      advance
      selections n (.select e.place e label)
    | _ =>
      modify (·.unexpected "selector")
      advance
      selections n e

/-- An operand without signs. -/
def primary : Nat → Reading Expr
  | 0 => unread
  | n + 1 => do
    let t ← current
    match ofToken? t with
    | some e =>
      advance
      return e
    | none =>
      if isMark "(" t then
        advance
        let e ← expression n 1
        expect ")"
        return .group t.place e
      else if isMark "[" t then
        advance
        let (items, tail) ← listItems n
        expectClosing "]" "list literal"
        return .list t.place items tail
      else if isMark "\x7b" t then
        advance
        let ds ← declarations n
        expectClosing "\x7d" "struct literal"
        return .struct t.place ds
      else
        modify fun s => (s.unexpected "operand").resume (s.tokens.length + 1)
        return .top t.place

/-- The items of a list and its tail, up to the closing bracket. -/
def listItems : Nat → Reading (List Expr × Tail Expr)
  | 0 => return ([], .closed)
  | n + 1 => do
    let t ← current
    if isMark "]" t || isFinish t then return ([], .closed)
    if isMark "..." t then
      advance
      return ([], ← listTail n)
    let e ← expression n 1
    if ← itemComma then
      let (es, tail) ← listItems n
      return (e :: es, tail)
    return ([e], .closed)

/-- Takes the comma behind an item, and says whether the list goes on.  A line break is no comma
between items. -/
def itemComma : Reading Bool := do
  let t ← current
  if t.lexeme == .comma then
    advance
    return true
  if t.lexeme == .lineEnd then
    advance
    let next ← current
    if isMark "]" next then return false
    modify (·.report next.place (Text.lit "missing ',' before newline in list literal"))
    return !isFinish next
  if isMark "]" t || isFinish t then return false
  modify (·.report t.place (Text.lit "missing ',' in list literal"))
  advance
  return true

/-- What follows the dots of an open list. -/
def listTail : Nat → Reading (Tail Expr)
  | 0 => return .any
  | n + 1 => do
    let t ← current
    let tail ← if isComma t || isMark "]" t then pure .any else .each <$> expression n 1
    let t ← current
    if isComma t then advance
    else if !isMark "]" t then
      modify (·.report t.place (Text.lit "missing ',' in list literal"))
      advance
    return tail

/-- Declarations, up to a closing brace or the end. -/
def declarations : Nat → Reading (List Decl)
  | 0 => return []
  | n + 1 => do
    let t ← current
    if isMark "\x7d" t || isFinish t || (← get).stopped then return []
    let d ← declaration n
    return d.toList ++ (← declarations n)

/-- A declaration with the comma behind it, unless it could not be read. -/
def declaration : Nat → Reading (Option Decl)
  | 0 => return none
  | n + 1 => do
    let t ← current
    if isMark "..." t then
      advance
      declarationComma
      return some .ellipsis
    if !startsLabel t then
      let e ← expression n 1
      declarationComma
      return some (.embedded e)
    let e ← expression n 1
    checkName e
    match head? e with
    | none =>
      declarationComma
      return some (.embedded e)
    | some head =>
      let optional := isMark "?" (← current)
      if optional then advance
      let t ← current
      if isMark ":" t then
        advance
        let value ← fieldValue n
        declarationComma
        return some (head.field optional value)
      else if isComma t then
        advance
        return some (.embedded e)
      else if isMark "\x7d" t || isFinish t then return some (.embedded e)
      else
        modify (·.unexpected "label or ':'")
        return none

/-- The value of a field: a field again, which then is the only one of a struct, or an
expression. -/
def fieldValue : Nat → Reading Expr
  | 0 => unread
  | n + 1 => do
    let start ← current
    if !startsLabel start then expression n 1
    else
      let e ← expression n 1
      checkName e
      match head? e with
      | none => return e
      | some head =>
        if !followsLabel (← current) then return e
        let optional := isMark "?" (← current)
        if optional then advance
        let t ← current
        if isMark ":" t then
          advance
          let value ← fieldValue n
          return .struct start.place [head.field optional value]
        else
          modify (·.report t.place (Text.lit "expected ':'; found " ++ t.lexeme.text))
          return .struct start.place []

end

/-- The first word of a source may name what the source belongs to, or what it needs; neither is
known here. -/
def clause : Reading Unit := do
  let t ← current
  if t.lexeme == .word "package" then
    advance
    match (← current).lexeme with
    | .word _ => advance
    | _ =>
      modify (·.unexpected "'IDENT'")
      advance
    let t ← current
    if isComma t then advance
    else if !isFinish t then
      modify (·.unexpected "','")
      advance
  let t ← current
  if t.lexeme == .word "import" then
    advance
    modify (·.unexpected "'STRING'")

/-- The declarations of a whole source. -/
def declarationsOfFile (limit : Nat) : Reading (List Decl) := do
  clause
  let ds ← declarations limit
  let t ← current
  if !isFinish t then modify (·.unexpected "'EOF'")
  return ds

/-- The struct that a named source is, or what is wrong with it. -/
def read (name text : Text) : Except (List Problem) Expr :=
  let tokens := Token.ofSource name text
  let first := (tokens.head?.map Token.problems).getD []
  if !first.isEmpty then .error (Problem.arranged first)
  else
    let (ds, s) := (declarationsOfFile (16 * (tokens.length + 1))).run { tokens := tokens }
    if s.problems.isEmpty then .ok (.struct ((tokens.head?.map Token.place).getD ⟨name, 1, 1⟩) ds)
    else .error (Problem.arranged s.problems.reverse)

end Source

end Config

end RepeatedAddition
