import RepeatedAddition.CommandLine.Request
import RepeatedAddition.CommandLine.Usage

/-!
# Sessions

A session reads a command line and answers it.  The flags that go with any command are looked up
first, then comes the command, its own flags and its positional arguments.  Then the first of these
that applies decides:

1. help was asked for;
2. the list of commands was asked for;
3. a flag or a positional argument is wrong;
4. there is no command, or none of that name;
5. something is left over;
6. the command is a request.

* `plan`: what a command line comes to, a reply or a request.
* `respond`: the reply to a command line.
* `Reply.exitCode`, `Reply.diagnosticText`: what the caller of the program sees.
-/

namespace RepeatedAddition

namespace CommandLine

/-- What a look-up gives: a value, what was wrong, and the arguments with those used that it
took. -/
structure Taken (α : Type) where
  value : α
  errors : List ArgumentError
  rest : List Argument

/-! ## Looking up flags and positional arguments -/

/-- The values of a flag by one of its names. -/
def takeNamed (name : Text) (switch : Bool) (args : List Argument) : Taken (List Text) :=
  match Argument.takeFlag? name switch args with
  | none => ⟨[], [.noValue name], args⟩
  | some (values, rest) => ⟨values, [], rest⟩

/-- The values of a flag.  Its short name counts only where the long one does not stand. -/
def takeFlag (f : Flag) (args : List Argument) : Taken (List Text) :=
  let long := takeNamed f.name f.isSwitch args
  match f.short with
  | none => long
  | some short =>
    if long.value.isEmpty && long.errors.isEmpty then takeNamed short f.isSwitch args else long

/-- The values of flags, looked up one after another. -/
def takeFlags : List Flag → List Argument → Taken (List (List Text))
  | [], args => ⟨[], [], args⟩
  | f :: fs, args =>
    let one := takeFlag f args
    let others := takeFlags fs one.rest
    ⟨one.value :: others.value, one.errors ++ others.errors, others.rest⟩

/-- The truth value that a text denotes. -/
def boolean? (t : Text) : Option Bool :=
  if ["1", "t", "T", "TRUE", "true", "True"].any fun s => Text.lit s = t then some true
  else if ["0", "f", "F", "FALSE", "false", "False"].any fun s => Text.lit s = t then some false
  else none

/-- Whether a switch is on: what its first value says, and off without any. -/
def takeSwitch (f : Flag) (args : List Argument) : Taken Bool :=
  let taken := takeFlag f args
  match taken.value with
  | [] => ⟨false, taken.errors, taken.rest⟩
  | value :: _ =>
    match boolean? value with
    | some on => ⟨on, taken.errors, taken.rest⟩
    | none => ⟨false, taken.errors ++ [.notBoolean value], taken.rest⟩

/-- One positional argument, empty if it is wrong. -/
def takeParameter (p : Parameter) (args : List Argument) : Taken Text :=
  match Argument.takePositional args with
  | .missing => ⟨[], [.missing p.name], args⟩
  | .flag text => ⟨[], [.unknownFlag text], args⟩
  | .found text rest => ⟨text, [], rest⟩

/-- Positional arguments, one after another. -/
def takeParameters : List Parameter → List Argument → Taken (List Text)
  | [], args => ⟨[], [], args⟩
  | p :: ps, args =>
    let one := takeParameter p args
    let others := takeParameters ps one.rest
    ⟨one.value :: others.value, one.errors ++ others.errors, others.rest⟩

/-! ## Requests from values -/

/-- The value of a flag that takes one: the first given, or what it has without any. -/
def Flag.single (f : Flag) (values : List Text) : Text :=
  match values, f.kind with
  | value :: _, _ => value
  | [], .single default => default
  | [], _ => []

/-- The values of a flag that repeats: all that are given, or what it has without any. -/
def Flag.several (f : Flag) (values : List Text) : List Text :=
  match values, f.kind with
  | [], .repeated defaults => defaults
  | _, _ => values

/-- The request of a command, from the values of its flags and its positional arguments. -/
def Command.request (c : Command) (flags : List (List Text)) (parameters : List Text) : Request :=
  match c with
  | .run => .run
  | .mul => .mul
    { x := parameters.getD 0 []
      y := parameters.getD 1 []
      config := Flag.config.single (flags.getD 0 [])
      method := Flag.method.single (flags.getD 1 [])
      maxDepth := Flag.maxDepth.single (flags.getD 2 []) }
  | .compare => .compare
    { configs := Flag.configs.several (flags.getD 0 [])
      snippets := Flag.snippets.several (flags.getD 1 [])
      format := Flag.format.single (flags.getD 2 []) }

/-! ## Answers -/

/-- The answer to a command line: what was done, and whether the command line was understood. -/
structure Reply where
  ok : Bool
  effect : Effect
  deriving DecidableEq, Repr

/-- A reply that only prints. -/
def Reply.printing (ok : Bool) (text : Text) : Reply := ⟨ok, { output := text }⟩

/-- What a command line comes to. -/
inductive Plan where
  | reply (reply : Reply)
  | request (request : Request)
  deriving DecidableEq, Repr

/-- The flags that go with any command, as they are set. -/
structure Switches where
  help : Bool
  summary : Bool
  advanced : Bool
  deriving DecidableEq, Repr

/-- Looks up the flags that go with any command. -/
def takeSwitches (args : List Argument) : Taken Switches :=
  let help := takeSwitch .help args
  let summary := takeSwitch .summary help.rest
  let advanced := takeSwitch .advanced summary.rest
  ⟨⟨help.value, summary.value, advanced.value⟩, help.errors ++ summary.errors ++ advanced.errors,
    advanced.rest⟩

/-- The plan for a command, with the arguments that the flags for any command have left. -/
def planCommand (c : Command) (switches : Switches) (switchErrors : List ArgumentError)
    (args : List Argument) : Plan :=
  let flags := takeFlags c.flags args
  let parameters := takeParameters c.parameters flags.rest
  let errors := parameters.errors ++ flags.errors ++ switchErrors
  let usage := fun es => Usage.ofCommand c switches.advanced (es.map UsageError.argument)
  if switches.help then .reply (.printing true (usage []))
  else if switches.summary then .reply (.printing true (Usage.summary []))
  else if !errors.isEmpty then .reply (.printing false (usage errors))
  else
    match Argument.leftOver? parameters.rest with
    | some error => .reply (.printing false (usage [error]))
    | none => .request (c.request flags.value parameters.value)

/-- What is wrong with a command line that names no command: nothing if it says nothing. -/
def commandErrors : Argument.Positional → List UsageError
  | .missing => []
  | .flag text => [.argument (.unknownFlag text)]
  | .found name _ => [.unknownCommand name]

/-- The plan for a command line that names no command. -/
def planProgram (switches : Switches) (switchErrors : List ArgumentError)
    (next : Argument.Positional) : Plan :=
  if switches.help then .reply (.printing true (Usage.ofProgram []))
  else if switches.summary then .reply (.printing true (Usage.summary Command.all))
  else if !switchErrors.isEmpty then
    .reply (.printing false (Usage.ofProgram (switchErrors.map UsageError.argument)))
  else .reply (.printing false (Usage.ofProgram (commandErrors next)))

/-- The command that the next positional argument names, and the arguments without it. -/
def commandOf? : Argument.Positional → Option (Command × List Argument)
  | .found name rest => (Command.ofName? name).map fun c => (c, rest)
  | _ => none

/-- What a command line comes to. -/
def plan (texts : List Text) : Plan :=
  let switches := takeSwitches (Argument.ofTexts texts)
  let next := Argument.takePositional switches.rest
  match commandOf? next with
  | some (c, rest) => planCommand c switches.value switches.errors rest
  | none => planProgram switches.value switches.errors next

/-- The reply to a command line. -/
def respond (texts : List Text) (s : Surroundings) (clock : Clock) : Reply :=
  match plan texts with
  | .reply r => r
  | .request r => ⟨true, r.execute s clock⟩

/-! ## The program -/

/-- The arguments with which the program goes on: without any, those that ask for the
demonstration. -/
def orDemonstration (texts : List Text) : List Text :=
  if texts.isEmpty then [Command.run.name] else texts

namespace Reply

/-- Zero if the command line was understood and nothing failed. -/
def exitCode (r : Reply) : UInt32 := if r.ok && r.effect.failure?.isNone then 0 else 1

/-- What is printed beside the output: the diagnostics, and then the failure. -/
def diagnosticText (r : Reply) : Text :=
  r.effect.diagnostics ++ match r.effect.failure? with
    | none => []
    | some f => f.text

end Reply

end CommandLine

end RepeatedAddition
