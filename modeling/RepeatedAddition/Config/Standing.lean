/-!
# Standings

An alternative of a choice may be preferred, passed over for a preferred one, or neutral where
nothing is preferred.  A combination of alternatives stands as the least favoured of them: it is
passed over if one of them is, and preferred if one is preferred and none is passed over.
-/

namespace RepeatedAddition

namespace Config

/-- How an alternative stands among the others. -/
inductive Standing where
  | neutral
  | preferred
  | passedOver
  deriving DecidableEq, Repr

namespace Standing

/-- The standing of an alternative of a choice, some of whose alternatives may be marked. -/
def ofMark (anyMarked marked : Bool) : Standing :=
  if !anyMarked then .neutral else if marked then .preferred else .passedOver

/-- The standing of two alternatives taken together. -/
def and : Standing → Standing → Standing
  | .passedOver, _ | _, .passedOver => .passedOver
  | .preferred, _ | _, .preferred => .preferred
  | .neutral, .neutral => .neutral

/-- A standing that counts only on a condition. -/
def onlyIf (counts : Bool) (s : Standing) : Standing := if counts then s else .neutral

end Standing

end Config

end RepeatedAddition
