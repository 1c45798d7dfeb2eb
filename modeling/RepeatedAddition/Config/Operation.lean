import RepeatedAddition.Config.Fact

/-!
# Operations

Signs, limits and arithmetic need the values of their operands.  An operand that is not determined
leaves the result open; an operand of the wrong kind is an error.

* `Operation.signed`, `Operation.limit`, `Operation.arithmetic`: the fact that follows from the
  values of the operands.
-/

namespace RepeatedAddition

namespace Config

namespace Operation

/-- The fact of a problem that nothing can mend, decided at a place. -/
def refused (path : List Text) (message : Text) (place : Position) : Fact :=
  .failure [⟨path, message, some place, []⟩]

/-- The fact of an operand that may still be determined. -/
def missing (path : List Text) (message : Text) (decisive : Option Position)
    (related : List Position) : Fact :=
  .gap [⟨path, message, decisive, related⟩]

/-- What is said of a choice that is left open. -/
def unresolved (path : List Text) (place : Position) (vs : List Value) : Fact :=
  missing path (Text.lit "unresolved disjunction " ++ Value.text (.ambiguous vs) ++
    Text.lit " (type " ++ Kind.setText (Value.kindsOfAll vs) ++ Text.lit ")") (some place) []

/-- The fact of a number with a sign, given the value of the number.  A plus sign leaves a number
where it is. -/
def signed (path : List Text) (context : Context) (place : Position) (sign : Sign) (operand : Expr)
    (value : Value) : Fact :=
  let invalid (ks : List Kind) : Fact :=
    refused path (Text.lit "invalid operation " ++ Text.lit sign.text ++ operand.text ++
      Text.lit " (" ++ Text.lit sign.text ++ Text.lit " " ++ Kind.setText ks ++ Text.lit ")") place
  let ofAtom (a : Atom) (p : Position) : Fact :=
    match sign, a.negated? with
    | .plus, some _ => .constraint ⟨.atom a, p, context.route⟩
    | .minus, some b => .constraint ⟨.atom b, place, context.route⟩
    | _, none => invalid [a.kind]
  match value with
  | .atom a p => ofAtom a p
  | .gap (some (a, p)) _ => ofAtom a p
  | .gap none ps => .gap ps
  | .failed ps _ => .failure ps
  | .ambiguous vs => unresolved path place vs
  | .vague t ks _ =>
    if ks.contains .int || ks.contains .float then
      missing path (Text.lit "operand " ++ operand.text ++
        Text.lit (" of '" ++ sign.text ++ "' not concrete (was ") ++ t ++
        Text.lit ")") (some operand.place) []
    else invalid ks
  | .struct _ => invalid [.struct]
  | .list _ => invalid [.list]

/-- The fact of a limit, given the value that it names. -/
def limit (path : List Text) (context : Context) (place : Position) (bound : Bound) (operand : Expr)
    (value : Value) : Fact :=
  let invalid (t : Text) (ks : List Kind) : Fact :=
    refused path (Text.lit "invalid value " ++ t ++ Text.lit " (type " ++ Kind.setText ks ++
      Text.lit ") for bound " ++ Text.lit bound.sign) operand.place
  let ofAtom (a : Atom) : Fact :=
    match a with
    | .bool _ => invalid a.text [.bool]
    | .null =>
      if bound = .differs then .constraint ⟨.limit bound a, place, context.route⟩
      else refused path (Text.lit "cannot use null for bound " ++ Text.lit bound.sign) operand.place
    | a => .constraint ⟨.limit bound a, place, context.route⟩
  match value with
  | .atom a _ => ofAtom a
  | .gap (some (a, _)) _ => ofAtom a
  | .gap none ps => .gap ps
  | .failed ps _ => .failure ps
  | .ambiguous vs => unresolved path place vs
  | .vague t ks _ =>
    let usable :=
      [Kind.int, .float, .string, .bytes] ++
        if bound = .differs then [.null, .list, .struct] else []
    if ks.any usable.contains then
      missing path (Text.lit "non-concrete value " ++ operand.text ++ Text.lit " for bound " ++
        Text.lit bound.sign) none [operand.place]
    else invalid t ks
  | .struct fs =>
    if bound = .differs then .constraint ⟨.differs .struct (Value.text (.struct fs)), place,
      context.route⟩
    else invalid (Value.text (.struct fs)) [.struct]
  | .list vs =>
    if bound = .differs then .constraint ⟨.differs .list (Value.text (.list vs)), place,
      context.route⟩
    else invalid (Value.text (.list vs)) [.list]

/-- A value without parts, or the fact that there is none: a problem, or something that is left
open. -/
def single (path : List Text) (place : Position) (op : Arithmetic) : Value → Except Fact Value
  | .gap (some (a, p)) _ => .ok (.atom a p)
  | .gap none ps => .error (.gap ps)
  | .failed ps _ => .error (.failure ps)
  | .ambiguous vs => .error (unresolved path place vs)
  | .vague t _ places => .error (missing path (Text.lit "non-concrete value " ++ t
      ++ Text.lit (" in operand to " ++ op.sign)) (some place) places)
  | .list _ => .error (missing path (Text.lit ("list operand of " ++ op.sign)) (some place) [])
  | v => .ok v

/-- What follows from two facts that both stand in the way: a problem counts more than something
left open. -/
def both : Fact → Fact → Fact
  | .failure ps, .failure qs => .failure (ps ++ qs).eraseDups
  | .failure ps, _ => .failure ps
  | _, .failure qs => .failure qs
  | .gap ps, .gap qs => .gap (ps ++ qs).eraseDups
  | f, _ => f

/-- The places of an operand. -/
def placesOf : Value → List Position
  | .atom _ p => [p]
  | _ => []

/-- The problem of operands that an operation cannot take. -/
def invalidOperands (path : List Text) (place : Position) (op : Arithmetic) (a b : Value) : Fact :=
  .failure [⟨path, Text.lit "invalid operands " ++ a.text ++ Text.lit " and " ++ b.text ++
    Text.lit " to '" ++ Text.lit op.sign ++ Text.lit "' (type " ++ Kind.setText a.kinds ++
    Text.lit " and " ++ Kind.setText b.kinds ++ Text.lit ")", some place, placesOf a ++ placesOf b⟩]

/-- The fact of an arithmetic operation, given the values of its operands. -/
def arithmetic (path : List Text) (context : Context) (place : Position) (op : Arithmetic)
    (left right : Value) : Fact :=
  match single path place op left, single path place op right with
  | .error f, .error g => both f g
  | .error f, .ok _ => f
  | .ok _, .error f => f
  | .ok a, .ok b =>
    match a, b with
    | .atom x _, .atom y _ =>
      match op.apply x y with
      | .ok z => .constraint ⟨.atom z, place, context.route⟩
      | .error (.failed cause) =>
        refused path (Text.lit ("failed arithmetic: " ++ cause.message)) place
      | .error .negativeCount =>
        refused path (Text.lit "cannot convert negative number to unsigned int") place
      | .error .countTooLarge =>
        refused path (Text.lit "cannot convert number to unsigned int") place
      | .error .invalidOperands => invalidOperands path place op a b
    | _, _ => invalidOperands path place op a b

end Operation

end Config

end RepeatedAddition
