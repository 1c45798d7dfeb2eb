import RepeatedAddition.Config.Expr

/-!
# Well-formed expressions

Some things are wrong with an expression whatever its names mean: a name that nothing declares, a
preference outside of a choice, a literal that denotes nothing, and a type or a limit where
arithmetic needs a value.  They are looked for everywhere, also in fields that need not be present.

* `Expr.faults`: what is wrong with an expression, in the order of the source.
-/

namespace RepeatedAddition

namespace Config

/-- Whether an expression can never be a single value: it is a type, a limit, or anything at all. -/
def Expr.isVague (bound : List String) : Expr → Bool
  | .group _ e => Expr.isVague bound e
  | .top _ | .limit _ _ _ => true
  | .name _ n => !bound.contains n && (Predeclared.find? n).isSome
  | _ => false

/-- The text of an operand, with the parentheses around it. -/
def Expr.operandText : Expr → Text
  | .group _ e => Text.lit "(" ++ Expr.operandText e ++ Text.lit ")"
  | .name _ n => Text.lit n
  | e => e.text

/-- What is wrong with the operand of a sign or an operation that needs a value. -/
def Expr.operandFaults (bound : List String) (path : List Text) (sign : String) (e : Expr) :
    List Problem :=
  if e.isVague bound then
    [⟨path, Text.lit "invalid operand " ++ e.operandText ++
      Text.lit (" ('" ++ sign ++ "' requires concrete value)"), some e.place, []⟩]
  else []

mutual

/-- What is wrong with an expression at a path, inside structs that declare given names.
Preferences may stand only directly in a choice. -/
def Expr.faults (bound : List String) (path : List Text) (inChoice : Bool) : Expr → List Problem
  | .literal _ _ | .top _ | .bottom _ => []
  | .faulty p message => [⟨path, message, some p, []⟩]
  | .name p n =>
    if bound.contains n || (Predeclared.find? n).isSome then []
    else
      [⟨path, Text.lit "reference " ++ Quoted.text (Text.lit n) ++ Text.lit " not found",
        some p, []⟩]
  | .select _ e _ | .group _ e => Expr.faults bound path false e
  | .signed _ sign e => Expr.faults bound path false e ++ e.operandFaults bound path sign.text
  | .limit _ limit e => Expr.faults bound path false e ++ e.operandFaults bound path limit.sign
  | .arithmetic op l r =>
    Expr.faults bound path false l ++ Expr.faults bound path false r ++
      l.operandFaults bound path op.sign ++ r.operandFaults bound path op.sign
  | .meet l r => Expr.faults bound path false l ++ Expr.faults bound path false r
  | .either l r => Expr.faults bound path true l ++ Expr.faults bound path true r
  | .preferred p e =>
    if inChoice then Expr.faults bound path true e
    else [⟨path, Text.lit "preference mark not allowed at this position", some p, []⟩]
  | .struct _ ds => faultsOfDecls (Decl.names ds ++ bound) path ds
  | .list _ es tail => faultsOfItems bound path es ++ faultsOfTail bound path tail

/-- What is wrong with declarations. -/
def faultsOfDecls (bound : List String) (path : List Text) : List Decl → List Problem
  | [] => []
  | .field l _ _ e :: ds =>
    Expr.faults bound (path ++ [l.name]) false e ++ faultsOfDecls bound path ds
  | .embedded e :: ds => Expr.faults bound path false e ++ faultsOfDecls bound path ds
  | .faulty p message :: ds => ⟨path, message, some p, []⟩ :: faultsOfDecls bound path ds
  | .ellipsis :: ds => faultsOfDecls bound path ds

/-- What is wrong with the items of a list. -/
def faultsOfItems (bound : List String) (path : List Text) : List Expr → List Problem
  | [] => []
  | e :: es => Expr.faults bound path false e ++ faultsOfItems bound path es

/-- What is wrong with the tail of a list. -/
def faultsOfTail (bound : List String) (path : List Text) : Tail Expr → List Problem
  | .each e => Expr.faults bound path false e
  | .any | .closed => []

end

end Config

end RepeatedAddition
