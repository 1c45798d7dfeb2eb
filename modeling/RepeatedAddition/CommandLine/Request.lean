import RepeatedAddition.CommandLine.Command
import RepeatedAddition.Failure

/-!
# Requests

What a command line asks for once it is understood, and what is done then.  Everything that the
outside contributes is handed in (`Surroundings`, and the clock), and everything that a request does
is in its `Effect`: what it prints for the reader, what it prints beside that, and why it failed.

A product is printed only when nothing fails, and a report also when some of its cases failed.

* `MulRequest.execute`: multiplies two operands.
* `CompareRequest.execute`: compares the two methods on the cases of the settings.
* `Request.execute`: any request.
-/

namespace RepeatedAddition

namespace CommandLine

/-- What the outside contributes: the files, whether a terminal shows the diagnostics, and when work
is interrupted. -/
structure Surroundings where
  files : Files
  terminal : Bool
  interrupt : Interrupt

/-- What a request does. -/
structure Effect where
  output : Text := []
  diagnostics : Text := []
  failure? : Option Failure := none
  deriving DecidableEq, Repr

/-- A request that fails before it prints anything. -/
def Effect.failed (f : Failure) : Effect := { failure? := some f }

/-- A text, or the other one if it is empty. -/
def given (t fallback : Text) : Text := if t.isEmpty then fallback else t

/-- Shows that the program works. -/
def demonstration : Effect := { output := Text.decimal (recursive 10 5).toNat ++ Text.lit "\n" }

/-! ## Products -/

/-- Asks for a product.  An empty method or depth leaves it to the settings. -/
structure MulRequest where
  x : Text
  y : Text
  config : Text := Config.defaultPath
  method : Text := []
  maxDepth : Text := []
  deriving DecidableEq, Repr

/-- Two words and their product. -/
structure Multiplication where
  x : UInt64
  y : UInt64
  product : UInt64
  deriving DecidableEq, Repr

/-- The product by the method of a name; recursion only up to a limit. -/
def productBy (method : Text) (limit x y : UInt64) : Except Failure UInt64 :=
  match Method.ofName? method with
  | none => .error (.unknownMethod method)
  | some .recursive => (recursiveWithin limit x y).mapError .depth
  | some .iterative => .ok (iterative x y)

namespace Multiplication

/-- What is said of a product that is no word. -/
def warning (m : Multiplication) : Text :=
  Text.lit "warning: " ++ Text.decimal m.x.toNat ++ Text.lit " × " ++ Text.decimal m.y.toNat
    ++ Text.lit " does not fit in 64 bits, result wrapped"

/-- The warning, in color on a terminal. -/
def warningShown (m : Multiplication) (terminal : Bool) : Text :=
  if terminal then Text.lit "\x1b[33m" ++ m.warning ++ Text.lit "\x1b[0m" else m.warning

/-- What is printed of a product. -/
def effect (m : Multiplication) (terminal : Bool) : Effect :=
  { output := Text.decimal m.product.toNat ++ Text.lit "\n"
    diagnostics := if wraps m.x m.y then m.warningShown terminal ++ Text.lit "\n" else [] }

end Multiplication

namespace MulRequest

/-- The word of an operand. -/
def operand (name : String) (value : Text) : Except Failure UInt64 :=
  (Operand.parse (Text.lit name) value).mapError .operand

/-- The limit for recursion. -/
def limit (r : MulRequest) (settings : Settings) : Except Failure UInt64 :=
  if r.maxDepth.isEmpty then .ok settings.maxDepth else operand "max-depth" r.maxDepth

/-- The multiplication that is asked for, under settings that may have failed to load.  The first
thing wrong decides: an operand, the settings, the limit, the method or its depth. -/
def multiplication (r : MulRequest) (loaded : Except Config.LoadError Settings) :
    Except Failure Multiplication := do
  let x ← operand "x" r.x
  let y ← operand "y" r.y
  let settings ← loaded.mapError .config
  let limit ← r.limit settings
  let product ← productBy (given r.method settings.method) limit x y
  return ⟨x, y, product⟩

/-- What the request does, under settings that may have failed to load. -/
def effect (r : MulRequest) (loaded : Except Config.LoadError Settings) (terminal : Bool) :
    Effect :=
  match r.multiplication loaded with
  | .ok m => m.effect terminal
  | .error f => .failed f

/-- Multiplies two operands. -/
def execute (r : MulRequest) (s : Surroundings) : Effect :=
  r.effect (Config.load s.files [r.config] []) s.terminal

end MulRequest

/-! ## Comparisons -/

/-- Asks for a comparison.  An empty format leaves it to the settings. -/
structure CompareRequest where
  configs : List Text := [Config.defaultPath]
  snippets : List Text := []
  format : Text := []
  deriving DecidableEq, Repr

/-- The comparison that settings describe. -/
def comparisonOf (settings : Settings) : Comparison :=
  ⟨settings.maxDepth, settings.concurrency, settings.cases⟩

/-- One line of progress, which overwrites the one before it. -/
def progressLine (number : Nat) (e : Event) : Text :=
  Text.lit "\r[" ++ Text.decimal number ++ Text.lit "/" ++ Text.decimal e.total ++ Text.lit "] "
    ++ Text.decimal e.outcome.x.toNat ++ Text.lit " × " ++ Text.decimal e.outcome.y.toNat ++
    Text.lit ": " ++ e.outcome.status.label ++ if number = e.total then Text.lit "\n" else []

/-- The progress of a run, numbered in the order in which the events come. -/
def progress (events : List Event) : Text :=
  (events.zipIdx 1).flatMap fun (e, number) => progressLine number e

/-- What is printed of a report, in the format of the given name. -/
def reportEffect (r : Report) (format : Text) : Effect :=
  match r.write format with
  | .error e => .failed (.unwritten e)
  | .ok text =>
    { output := text
      failure? :=
        if r.totals.mismatches = 0 then none else
          some (.mismatch r.totals.mismatches r.totals.cases) }

namespace CompareRequest

/-- What the request does once its cases have been evaluated. -/
def conclude (r : CompareRequest) (settings : Settings) (terminal : Bool)
    (work : List Event × Except Interruption (List Outcome)) (clock : Clock) : Effect :=
  let (events, outcomes) := work
  let effect : Effect := match outcomes with
    | .error why => .failed (.within (Text.lit "compare") (.interrupted why))
    | .ok outcomes =>
      reportEffect ((comparisonOf settings).report clock outcomes) (given r.format settings.format)
  { effect with diagnostics := if terminal then progress events else [] }

/-- The paths that the request reads: the default path where none is given. -/
def paths (r : CompareRequest) : List Text :=
  if r.configs.isEmpty then [Config.defaultPath] else r.configs

/-- The settings that the request asks for. -/
def load (r : CompareRequest) (files : Files) : Except Config.LoadError Settings :=
  Config.load files r.paths r.snippets

/-- Compares the two methods on the cases of the settings. -/
def execute (r : CompareRequest) (s : Surroundings) (clock : Clock) : Effect :=
  match r.load s.files with
  | .error e => .failed (.config e)
  | .ok settings =>
    r.conclude settings s.terminal ((comparisonOf settings).evaluate s.interrupt) clock

end CompareRequest

/-! ## Any request -/

/-- What a command line asks for. -/
inductive Request where
  | run
  | mul (request : MulRequest)
  | compare (request : CompareRequest)
  deriving DecidableEq, Repr

/-- The paths that a request reads. -/
def Request.paths : Request → List Text
  | .run => []
  | .mul r => [r.config]
  | .compare r => r.paths

/-- Does what is asked for. -/
def Request.execute (s : Surroundings) (clock : Clock) : Request → Effect
  | .run => demonstration
  | .mul r => r.execute s
  | .compare r => r.execute s clock

end CommandLine

end RepeatedAddition
