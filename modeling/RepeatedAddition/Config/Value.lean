import RepeatedAddition.Config.Label
import RepeatedAddition.Config.Problem
import RepeatedAddition.Config.Atom

/-!
# Values

Evaluation gives a value: an atom, a struct or a list of values, something that is left open in one
of three ways, or a failure.  A struct or list with a failed member has failed itself, so failures
never stand inside other values.

* `Value.gaps`: what is left open, data only.
* `Value.agrees`: whether two values are the same; the order of fields does not matter.
* `Value.get?`: a member of a struct.
-/

namespace RepeatedAddition

namespace Config

/-- What an expression denotes.

* `vague`: constraints that determine no atom.
* `ambiguous`: a choice between several values.
* `gap`: an operand is missing; the atom may still be known from elsewhere.
* `failed`: the problems, in brief with those of the first failed member, and in full with those of
  all. -/
inductive Value where
  | atom (atom : Atom) (place : Position)
  | struct (fields : List (Label × Value))
  | list (items : List Value)
  | vague (text : Text) (kinds : List Kind) (places : List Position)
  | ambiguous (values : List Value)
  | gap (known : Option (Atom × Position)) (problems : List Problem)
  | failed (brief full : List Problem)

namespace Value

/-- Whether a value has failed. -/
def isFailed : Value → Bool
  | .failed _ _ => true
  | _ => false

/-- The problems of a value and of its first failed member. -/
def brief : Value → List Problem
  | .failed ps _ => ps
  | _ => []

/-- The problems of a value and of all its members. -/
def full : Value → List Problem
  | .failed _ ps => ps
  | _ => []

mutual

/-- The text of a value. -/
def text : Value → Text
  | .atom a _ => a.text
  | .struct fs => Text.lit "\x7b" ++ textOfFields fs ++ Text.lit "\x7d"
  | .list vs => Text.lit "[" ++ textOfItems (Text.lit ",") vs ++ Text.lit "]"
  | .vague t _ _ => t
  | .ambiguous vs => textOfItems (Text.lit " | ") vs
  | .gap _ _ | .failed _ _ => Text.lit "_|_"

/-- The text of the members of a struct. -/
def textOfFields : List (Label × Value) → Text
  | [] => []
  | [(l, v)] => l.text ++ Text.lit ":" ++ text v
  | (l, v) :: fs => l.text ++ Text.lit ":" ++ text v ++ Text.lit "," ++ textOfFields fs

/-- The text of several values. -/
def textOfItems (separator : Text) : List Value → Text
  | [] => []
  | [v] => text v
  | v :: vs => text v ++ separator ++ textOfItems separator vs

end

mutual

/-- The kinds that a value can have. -/
def kinds : Value → List Kind
  | .atom a _ => [a.kind]
  | .struct _ => [.struct]
  | .list _ => [.list]
  | .vague _ ks _ => ks
  | .ambiguous vs => kindsOfAll vs
  | .gap _ _ | .failed _ _ => Kind.all

/-- The kinds that several values can have. -/
def kindsOfAll : List Value → List Kind
  | [] => []
  | v :: vs =>
    let ks := kindsOfAll vs
    Kind.all.filter fun k => (kinds v).contains k || ks.contains k

end

mutual

/-- The problems of what is left open at a path, in order.  Only data counts: definitions and hidden
members may stay open. -/
def gaps (path : List Text) : Value → List Problem
  | .atom _ _ | .failed _ _ => []
  | .vague t _ places => [⟨path, Text.lit "incomplete value " ++ t, none, places⟩]
  | .ambiguous vs =>
    [⟨path, Text.lit "incomplete value " ++ textOfItems (Text.lit " | ") vs, none, []⟩]
  | .gap _ ps => ps
  | .struct fs => gapsOfFields path fs
  | .list vs => gapsOfItems path 0 vs

/-- What is left open in the members of a struct. -/
def gapsOfFields (path : List Text) : List (Label × Value) → List Problem
  | [] => []
  | (l, v) :: fs => (if l.isRegular then gaps (path ++ [l.text]) v else []) ++ gapsOfFields path fs

/-- What is left open in the members of a list, from an index on. -/
def gapsOfItems (path : List Text) (index : Nat) : List Value → List Problem
  | [] => []
  | v :: vs => gaps (path ++ [Text.decimal index]) v ++ gapsOfItems path (index + 1) vs

end

mutual

/-- A value reached through a name: what is left open in it is said of that place too. -/
def through (place : Position) : Value → Value
  | .vague t ks places => .vague t ks (place :: places)
  | .struct fs => .struct (throughFields place fs)
  | .list vs => .list (throughItems place vs)
  | v => v

/-- The members of a struct reached through a name. -/
def throughFields (place : Position) : List (Label × Value) → List (Label × Value)
  | [] => []
  | (l, v) :: fs => (l, through place v) :: throughFields place fs

/-- The members of a list reached through a name. -/
def throughItems (place : Position) : List Value → List Value
  | [] => []
  | v :: vs => through place v :: throughItems place vs

end

mutual

/-- Whether two values are the same.  Failures are, whatever their problems. -/
def agrees : Value → Value → Bool
  | .atom a _, .atom b _ => a.agrees b
  | .struct fs, .struct gs => fs.length = gs.length && agreesOnFields fs gs
  | .list vs, .list ws => agreesOnItems vs ws
  | .vague t ks _, .vague u ls _ => t = u && ks = ls
  | .ambiguous vs, .ambiguous ws => agreesOnItems vs ws
  | .gap a ps, .gap b qs => a.map Prod.fst = b.map Prod.fst && ps = qs
  | .failed _ _, .failed _ _ => true
  | _, _ => false

/-- Whether every member of one struct is the same in another. -/
def agreesOnFields : List (Label × Value) → List (Label × Value) → Bool
  | [], _ => true
  | (l, v) :: fs, gs =>
    (match gs.find? fun g => g.1 = l with
      | some g => agrees v g.2
      | none => false)
      && agreesOnFields fs gs

/-- Whether two lists are the same, item by item. -/
def agreesOnItems : List Value → List Value → Bool
  | [], [] => true
  | v :: vs, w :: ws => agrees v w && agreesOnItems vs ws
  | _, _ => false

end

/-- The member of a struct with a label. -/
def get? (label : Label) : Value → Option Value
  | .struct fs => (fs.find? fun f => f.1 = label).map Prod.snd
  | _ => none

end Value

end Config

end RepeatedAddition
