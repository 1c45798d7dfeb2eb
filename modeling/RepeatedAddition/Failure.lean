import RepeatedAddition.Operand
import RepeatedAddition.Comparison
import RepeatedAddition.Config.Settings

/-!
# Failures

Why a command failed.  A failure is its cause, and the wording is a function of the cause.  A
failure may be put into a context, which is said before it; the cause stays what it was.

* `Failure.message`: the failure on one line.
* `Failure.problems?`: the configuration problems behind a failure, through every context.
* `Failure.text`: what is printed of a failure, the line and then the problems with their places.
-/

namespace RepeatedAddition

/-- Why a command failed. -/
inductive Failure where
  | plain (message : Text)
  | operand (error : Operand.Error)
  | config (error : Config.LoadError)
  | depth (error : DepthExceeded)
  | unknownMethod (name : Text)
  | unwritten (error : Report.WriteError)
  | interrupted (why : Interruption)
  | mismatch (count total : Nat)
  | within (context : Text) (cause : Failure)
  deriving DecidableEq, Repr

namespace Failure

/-- What is said of cases in which the products differ from what was expected. -/
def mismatchMessage (count total : Nat) : Text :=
  Text.decimal count ++ Text.lit " of " ++ Text.decimal total ++
    Text.lit " cases: multipliers disagree"

/-- The failure on one line. -/
def message : Failure → Text
  | plain message => message
  | operand error => error.message
  | config error => error.message
  | depth error => error.message
  | unknownMethod name => unknownMethodMessage name
  | unwritten error => error.message
  | interrupted why => why.message
  | mismatch count total => mismatchMessage count total
  | within context cause => context ++ Text.lit ": " ++ cause.message

/-- The configuration problems behind a failure. -/
def problems? : Failure → Option (List Config.Problem)
  | config error => error.problems?
  | within _ cause => cause.problems?
  | _ => none

/-- The problems behind a failure with their places, nothing if there are none. -/
def details (f : Failure) : Text :=
  match f.problems? with
  | none => []
  | some ps => Config.Problem.details ps

/-- What is printed of a failure: the line, and then the problems with their places. -/
def text (f : Failure) : Text := f.message ++ Text.lit "\n" ++ f.details

/-- A failure inside contexts, the first of them the innermost. -/
def inContexts (f : Failure) (contexts : List Text) : Failure :=
  contexts.foldl (fun f w => within w f) f

end Failure

end RepeatedAddition
