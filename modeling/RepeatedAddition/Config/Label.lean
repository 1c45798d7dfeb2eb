import RepeatedAddition.Config.Quotation
import RepeatedAddition.Text.Letter

/-!
# Labels

A member is reached by a label of a struct or by an index of a list.  Hidden labels and definitions
are no part of the data that a struct describes.

* `Label.ofIdentifier`: the label that an identifier denotes.
* `Label.text`: the text of a label in the path of a value, with quotation marks where it is no
  identifier.
* `Label.name`: the bare name, as paths in a source show it.
-/

namespace RepeatedAddition

namespace Config

/-- A step to a member. -/
inductive Label where
  | regular (name : String)
  | hidden (name : String)
  | definition (name : String)
  | index (i : Nat)
  deriving DecidableEq, Repr

namespace Label

/-- The label that an identifier denotes: a hash sign makes a definition, an underscore hides. -/
def ofIdentifier (name : String) : Label :=
  if name.startsWith "#" || name.startsWith "_#" then .definition name
  else if name.startsWith "_" then .hidden name
  else .regular name

/-- Whether a label belongs to the data. -/
def isRegular : Label → Bool
  | .regular _ | .index _ => true
  | _ => false

/-- Whether a label names a definition. -/
def isDefinition : Label → Bool
  | .definition _ => true
  | _ => false

/-- Whether a name needs no quotation marks as a label. -/
def isPlain (name : String) : Bool :=
  match name.toList with
  | [] => false
  | c :: cs => (Letter.isLetter c || c = '$')
    && cs.all fun d => Letter.isLetter d || Letter.isDigit d || d = '_' || d = '$'

/-- The text of a label in the path of a value. -/
def text : Label → Text
  | .regular name => if isPlain name then Text.lit name else Quotation.string name
  | .hidden name => Text.lit name
  | .definition name => Text.lit name
  | .index i => Text.decimal i

/-- The bare name of a label. -/
def name : Label → Text
  | .regular name | .hidden name | .definition name => Text.lit name
  | .index i => Text.decimal i

end Label

end Config

end RepeatedAddition
