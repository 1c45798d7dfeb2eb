import RepeatedAddition.Config.Expr

/-!
# Constraints on a value

Everything that is asked of one value, apart from its parts, is a list of constraints: atoms, types,
limits, and being a struct or a list.  They are blended one after another.  The kinds that are left,
the atom, and the tightest limits do not depend on the order; what is said about a conflict does.

* `Blend.of`: the blend of constraints.
* `Blend.problems`: what is wrong with them together.
* `Blend.description`: the text of what is left when they do not determine an atom.
* `Blend.agrees`: whether two blends ask for the same.

Limits never determine a value, not even where only one value keeps them.
-/

namespace RepeatedAddition

namespace Config

/-- What is asked of a value. -/
inductive Demand where
  | atom (atom : Atom)
  | type (type : Predeclared)
  | limit (bound : Bound) (limit : Atom)
  | differs (kind : Kind) (text : Text)
  | struct (decls : List Decl)
  | list (items : List Expr) (tail : Tail Expr)

/-- Something asked of a value, with the place where it is written and the places through which it
came. -/
structure Constraint where
  demand : Demand
  place : Position
  route : List Position := []

namespace Constraint

/-- The kinds of values that a constraint admits. -/
def kinds (c : Constraint) : List Kind :=
  match c.demand with
  | .atom a => [a.kind]
  | .type t => t.kinds
  | .limit b a => b.kinds a.kind
  | .differs k _ => [k]
  | .struct _ => [.struct]
  | .list _ _ => [.list]

/-- The text of a constraint. -/
def text (c : Constraint) : Text :=
  match c.demand with
  | .atom a => a.text
  | .type t => t.text
  | .limit b a => Text.lit b.sign ++ a.text
  | .differs _ t => Text.lit "!=" ++ t
  | .struct ds => (Expr.struct c.place ds).text
  | .list es tail => (Expr.list c.place es tail).text

/-- The place to show for a constraint: a type with limits belongs to the language and has none. -/
def place? (c : Constraint) : Option Position :=
  match c.demand with
  | .type t => if t.isRange then none else some c.place
  | _ => some c.place

/-- All places to show for a constraint in a conflict. -/
def places (c : Constraint) : List Position := c.place?.toList ++ c.route

end Constraint

/-- A limit of a value, with its place if it was written in a source. -/
structure Limit where
  bound : Bound
  limit : Atom
  place : Option Position

namespace Limit

/-- The text of a limit. -/
def text (l : Limit) : Text := Text.lit l.bound.sign ++ l.limit.text

/-- Whether a limit excludes its own number. -/
def isStrict (l : Limit) : Bool := l.bound = .less || l.bound = .greater

/-- The tighter of two limits of the same side; `side` is the order of the looser limit to the
tighter one. -/
def tighter (side : Ordering) (old new : Limit) : Limit :=
  match old.limit.order? new.limit with
  | some .eq => if new.isStrict && !old.isStrict then new else old
  | some o => if o = side then new else old
  | none => old

/-- Whether two limits are the same. -/
def agrees (a b : Limit) : Bool := a.bound = b.bound && a.limit.agrees b.limit

/-- Whether no whole number can keep a lower and an upper limit.  A limit that excludes a fractional
number, or a whole one, is as good as the whole number next to it. -/
def excludesWhole (lower upper : Limit) (low high : Decimal) : Bool :=
  let low := if lower.isStrict then low.floor else low.ceiling
  let high := if upper.isStrict then high.ceiling else high.floor
  let gap := high - low
  gap < 0 || (gap = 0 && (lower.isStrict || upper.isStrict)) ||
    (gap = 1 && lower.isStrict && upper.isStrict)

/-- Whether no number of given kinds can keep a lower and an upper limit. -/
def isEmpty (kinds : List Kind) (lower upper : Limit) : Bool :=
  match lower.limit.number?, upper.limit.number? with
  | some low, some high =>
    if kinds.contains .float then
      match low.order high with
      | .gt => true
      | .eq => lower.isStrict || upper.isStrict
      | .lt => false
    else excludesWhole lower upper low high
  | _, _ => false

end Limit

/-- Two constraints that do not go together. -/
structure Conflict where
  message : Text
  decisive : Option Position := none
  related : List Position

/-- Constraints taken together: the kinds that are left, the constraint that narrowed them last, the
atom, the tightest limits, the excluded values, and the conflicts met on the way. -/
structure Blend where
  kinds : List Kind := Kind.all
  narrowing : Option Constraint := none
  atom : Option (Atom × Constraint) := none
  lower : Option Limit := none
  upper : Option Limit := none
  excluded : List Limit := []
  differing : List Constraint := []
  conflicts : List Conflict := []

namespace Blend

/-- Takes a limit in. -/
def addLimit (b : Blend) (l : Limit) : Blend :=
  match l.bound with
  | .less | .atMost =>
    { b with upper := some (match b.upper with | some old => old.tighter .gt l | none => l) }
  | .greater | .atLeast =>
    { b with lower := some (match b.lower with | some old => old.tighter .lt l | none => l) }
  | .differs =>
    if b.excluded.any (fun old => old.limit.agrees l.limit) then b
    else { b with excluded := b.excluded ++ [l] }

/-- What is said of two values that differ. -/
def conflict (first second : Text) : Text :=
  Text.lit "conflicting values " ++ first ++ Text.lit " and " ++ second

/-- Takes an atom in: all atoms must be the same. -/
def addAtom (b : Blend) (a : Atom) (c : Constraint) : Blend :=
  match b.atom with
  | none => { b with atom := some (a, c) }
  | some (old, oldConstraint) =>
    if a.agrees old then b
    else { b with conflicts := b.conflicts ++
      [⟨conflict a.text old.text, none, c.places ++ oldConstraint.places⟩] }

/-- Takes the part of a constraint in that goes beyond its kinds. -/
def addContent (b : Blend) (c : Constraint) : Blend :=
  match c.demand with
  | .atom a => b.addAtom a c
  | .limit bound a => b.addLimit ⟨bound, a, some c.place⟩
  | .type t =>
    let b := match t.least with
      | some d => b.addLimit ⟨.atLeast, .int d, none⟩
      | none => b
    match t.greatest with
    | some d => b.addLimit ⟨.atMost, .int d, none⟩
    | none => b
  | .differs _ _ => { b with differing := b.differing ++ [c] }
  | .struct _ | .list _ _ => b

/-- What is said of constraints that have no kind in common. -/
def mismatch (old : Constraint) (oldKinds : List Kind) (new : Constraint) : Text :=
  conflict old.text new.text ++ Text.lit " (mismatched types " ++ Kind.setText oldKinds ++
    Text.lit " and " ++ Kind.setText new.kinds ++ Text.lit ")"

/-- Drops limits that leave no value, and notes the conflict, which the constraint at hand
decides. -/
def checkLimits (b : Blend) (c : Constraint) : Blend :=
  match b.lower, b.upper with
  | some l, some u =>
    if l.isEmpty b.kinds u then
      let what :=
        if b.kinds.contains .float then "incompatible number bounds "
        else "incompatible integer bounds "
      { b with
        lower := none
        upper := none
        conflicts :=
          b.conflicts ++ [⟨Text.lit what ++ u.text ++ Text.lit " and " ++ l.text, c.place?,
            l.place.toList ++ u.place.toList ++ c.route⟩] }
    else b
  | _, _ => b

/-- Takes a constraint in.  When no kind is left the conflict is noted, and later constraints change
nothing. -/
def add (b : Blend) (c : Constraint) : Blend :=
  if b.kinds.isEmpty then b
  else
    let kinds := Kind.common b.kinds c.kinds
    if kinds.isEmpty then
      let noted := match b.narrowing with
        | some old => [⟨mismatch old b.kinds c, none, old.places ++ c.places⟩]
        | none => []
      { b with kinds := [], conflicts := b.conflicts ++ noted }
    else
      let narrowing := if kinds = b.kinds && b.narrowing.isSome then b.narrowing else some c
      ({ b with kinds := kinds, narrowing := narrowing }.addContent c).checkLimits c

/-- The blend of constraints. -/
def of (cs : List Constraint) : Blend := cs.foldl add {}

/-- The limits that a value must keep, the two tightest ones first. -/
def limits (b : Blend) : List Limit := b.lower.toList ++ b.upper.toList ++ b.excluded

/-- The problem of an atom that breaks a limit. -/
def outOfBound (path : List Text) (a : Atom) (place : Position) (l : Limit) : Problem :=
  ⟨path, Text.lit "invalid value " ++ a.text ++ Text.lit " (out of bound " ++ l.text ++
    Text.lit ")", l.place, [place]⟩

/-- What is wrong with the constraints together, said of the field at a path. -/
def problems (b : Blend) (path : List Text) : List Problem :=
  let conflicts := b.conflicts.map fun c => (⟨path, c.message, c.decisive, c.related⟩ : Problem)
  match b.atom with
  | some (a, c) =>
    if b.kinds.isEmpty then conflicts
    else
      conflicts ++
        (b.limits.filter fun l => !l.bound.admits l.limit a).map (outOfBound path a c.place)
  | none => conflicts

/-- The excluded values that the other limits do not exclude anyway. -/
def relevantExclusions (b : Blend) : List Limit :=
  b.excluded.filter fun e => (b.lower.toList ++ b.upper.toList).all fun l =>
    l.bound.admits l.limit e.limit

/-- What the constraints leave open, in parts: the text of each and its place. -/
def parts (b : Blend) : List (Text × Option Position) :=
  let limits := b.lower.toList ++ b.upper.toList ++ b.relevantExclusions
  let implied := match limits.head?, b.differing.head? with
    | some l, _ => l.bound.kinds l.limit.kind
    | none, some c => c.kinds
    | none, none => Kind.all
  limits.map (fun l => (l.text, l.place)) ++ b.differing.map (fun c => (c.text, some c.place))
    ++ if b.kinds = implied then [] else
      [(Kind.setText b.kinds, b.narrowing.bind Constraint.place?)]

/-- The text of what the constraints leave open. -/
def description (b : Blend) : Text :=
  match b.parts with
  | [] => Text.lit "_"
  | ps => Text.joined (Text.lit " & ") (ps.map Prod.fst)

/-- The place of what the constraints leave open, if it is a single thing. -/
def place? (b : Blend) : Option Position :=
  match b.parts with
  | [(_, place)] => place
  | _ => none

/-- Whether two limits, where there are any, are the same. -/
def agreeing : Option Limit → Option Limit → Bool
  | none, none => true
  | some a, some b => a.agrees b
  | _, _ => false

/-- Whether two blends ask for the same.  Limits count, also where an atom is known. -/
def agrees (a b : Blend) : Bool :=
  a.kinds = b.kinds && agreeing a.lower b.lower && agreeing a.upper b.upper
    && (match a.atom, b.atom with
      | none, none => true
      | some (x, _), some (y, _) => x.agrees y
      | _, _ => false)
    && a.excluded.length = b.excluded.length
    && (a.excluded.zip b.excluded).all fun (x, y) => x.agrees y

end Blend

end Config

end RepeatedAddition
