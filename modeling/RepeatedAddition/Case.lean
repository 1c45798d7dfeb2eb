import RepeatedAddition.Product

/-!
# Cases and outcomes

A case is a pair of operands, with the product that is expected of them if one is.  Its outcome says
what the two methods gave, whether the exact product fits into a word, and how that is judged: a
case is `ok`, a `mismatch`, or `skipped` when its multiplier is over the depth limit.

* `Case.evaluate`, `Case.outcome`: the evaluation of a case under a depth limit, and its outcome.
* `judge`: the judgement of two products against each other and against the expected one.
-/

namespace RepeatedAddition

/-- Two operands, and the product expected of them if one is. -/
structure Case where
  x : UInt64
  y : UInt64
  expected : Option UInt64 := none
  deriving DecidableEq, Repr

/-- A status is a label.  The comparison uses the three below; a report accepts any. -/
structure Status where
  label : Text
  deriving DecidableEq, Repr

namespace Status

/-- Both products agree with each other and with the expected one. -/
def ok : Status := ⟨Text.lit "ok"⟩

/-- Two of the products differ. -/
def mismatch : Status := ⟨Text.lit "mismatch"⟩

/-- The multiplier is over the depth limit, so nothing was multiplied. -/
def skipped : Status := ⟨Text.lit "skipped"⟩

end Status

/-- What came of a case.  The two products are absent when the case was skipped, and the reason is
empty when there is nothing to explain. -/
structure Outcome where
  x : UInt64
  y : UInt64
  expected : Option UInt64 := none
  iterative : Option UInt64 := none
  recursive : Option UInt64 := none
  wrapped : Bool := false
  status : Status
  reason : Text := []
  deriving DecidableEq, Repr

/-- The judgement of two products: first against each other, then against the expected one. -/
def judge (expected : Option UInt64) (iterative recursive : UInt64) : Status × Text :=
  if recursive ≠ iterative then
    (.mismatch, Text.lit "iterative gave " ++ Text.decimal iterative.toNat ++
      Text.lit ", recursive gave " ++ Text.decimal recursive.toNat)
  else match expected with
    | none => (.ok, [])
    | some e =>
      if e ≠ iterative then
        (.mismatch, Text.lit "expected " ++ Text.decimal e.toNat ++ Text.lit ", got "
          ++ Text.decimal iterative.toNat)
      else (.ok, [])

/-- Why a product was not given, as its caller sees it: for the multiplier, or for anything else. -/
inductive ProductFault where
  | depth (e : DepthExceeded)
  | other (message : Text)
  deriving DecidableEq, Repr

/-- The evaluation of a case under a depth limit: its outcome, and the fault that keeps it from
having one.  A multiplier over the limit is no such fault; any other that the recursive method might
have would be. -/
def Case.evaluate (limit : UInt64) (c : Case) : Outcome × Option ProductFault :=
  let outcome : Outcome :=
    { x := c.x, y := c.y, expected := c.expected, wrapped := wraps c.x c.y, status := .ok }
  match (recursiveWithin limit c.x c.y).mapError ProductFault.depth with
  | .error (.depth e) => ({ outcome with status := .skipped, reason := e.message }, none)
  | .error fault => (outcome, some fault)
  | .ok viaRecursion =>
    let viaIteration := RepeatedAddition.iterative c.x c.y
    let (status, reason) := judge c.expected viaIteration viaRecursion
    ({ outcome with
        iterative := some viaIteration, recursive := some viaRecursion
        status := status, reason := reason }, none)

/-- The outcome of a case under a depth limit. -/
def Case.outcome (limit : UInt64) (c : Case) : Outcome := (c.evaluate limit).1

end RepeatedAddition
