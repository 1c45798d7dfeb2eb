import RepeatedAddition.CommandLine.Command
import RepeatedAddition.Text.LowerCase

/-!
# Suggestions

For a name that no command has, the commands that may have been meant: those whose name is at most
two edits away from the given one in lower case, and those whose name starts with it.

An edit inserts, deletes or replaces a byte.  The distance is computed row by row: a row holds the
distances of one beginning of the name to all beginnings of the target.

* `Suggestion.distance`: the least number of edits.
* `Suggestion.commands`: the commands that may have been meant.
-/

namespace RepeatedAddition

namespace CommandLine

namespace Suggestion

/-- The rest of the row below `row`, for one more byte of the name and what is left of the target;
`left` is the entry before it. -/
def rowBelow (a : UInt8) : Text → List Nat → Nat → List Nat
  | b :: target, diagonal :: above :: row, left =>
    let here := min (min (above + 1) (left + 1)) (diagonal + if a = b then 0 else 1)
    here :: rowBelow a target (above :: row) here
  | _, _, _ => []

/-- The row for one more byte of the name. -/
def nextRow (target : Text) (row : List Nat) (a : UInt8) : List Nat :=
  let first := row.headD 0 + 1
  first :: rowBelow a target row first

/-- The least number of edits from one text to another. -/
def distance (name target : Text) : Nat :=
  (name.foldl (nextRow target) (List.range (target.length + 1))).getLastD 0

/-- The most edits that a suggestion may be away. -/
def farthest : Nat := 2

/-- The commands that may have been meant by a name. -/
def commands (name : Text) : List Command :=
  let lower := LowerCase.text name
  Command.all.filter fun c => distance lower c.name ≤ farthest || lower.isPrefixOf c.name

end Suggestion

end CommandLine

end RepeatedAddition
