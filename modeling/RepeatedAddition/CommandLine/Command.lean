import RepeatedAddition.Product
import RepeatedAddition.Config.Settings

/-!
# Commands

The commands of the program with their flags and positional arguments, as data.  Reading a command
line and writing its usage both start from these tables.

* `Flag`, `Parameter`, `Command`: what a flag, a positional argument and a command are.
* `Flag.all`: the flags that stand before or behind any command.
* `Command.all`: the commands.
-/

namespace RepeatedAddition

namespace CommandLine

/-- How many values a flag takes, and what it has without any: a switch is on or off. -/
inductive FlagKind where
  | switch
  | single (default : Text)
  | repeated (defaults : List Text)
  deriving DecidableEq, Repr

/-- A flag. -/
structure Flag where
  name : Text
  description : Text
  kind : FlagKind
  short : Option Text := none
  deriving DecidableEq, Repr

/-- A positional argument. -/
structure Parameter where
  name : Text
  description : Text
  deriving DecidableEq, Repr

/-- The name of the program. -/
def programName : Text := Text.lit "addmul"

namespace Flag

/-- Whether a flag stands without a value. -/
def isSwitch (f : Flag) : Bool := f.kind = .switch

/-- Asks for the usage. -/
def help : Flag :=
  ⟨Text.lit "help", Text.lit "prints help for the command", .switch, some (Text.lit "h")⟩

/-- Asks for the list of commands. -/
def summary : Flag :=
  ⟨Text.lit "summary", Text.lit "prints a summary of what commands are available", .switch, none⟩

/-- Asks for the usage with every flag spelled out. -/
def advanced : Flag :=
  ⟨Text.lit "advanced", Text.lit "when used with -h, prints advanced flags help", .switch, none⟩

/-- The flags that go with any command. -/
def all : List Flag := [help, summary, advanced]

/-- The file with the settings for one product. -/
def config : Flag :=
  ⟨Text.lit "config", Text.lit "path to config file", .single Config.defaultPath, none⟩

/-- The method of multiplication. -/
def method : Flag :=
  ⟨Text.lit "method",
    Text.lit "multiplier to use: " ++ Text.joined (Text.lit " or ") Method.names ++
    Text.lit ", overrides config", .single [], none⟩

/-- The limit for recursion. -/
def maxDepth : Flag :=
  ⟨Text.lit "max-depth",
    Text.lit "largest multiplier the recursive method accepts, overrides config", .single [], none⟩

/-- The files with the settings for a comparison. -/
def configs : Flag :=
  ⟨Text.lit "config", Text.lit "path to config file", .repeated [Config.defaultPath], none⟩

/-- Settings given in place. -/
def snippets : Flag := ⟨Text.lit "c", Text.lit "inline CUE config", .repeated [], none⟩

/-- The format of the report. -/
def format : Flag :=
  ⟨Text.lit "format", Text.lit "output format: markdown or json, overrides config",
    .single [], none⟩

end Flag

/-- A command. -/
inductive Command where
  | run
  | mul
  | compare
  deriving DecidableEq, Repr

namespace Command

/-- All commands, in the order in which they are shown. -/
def all : List Command := [.run, .mul, .compare]

/-- The name of a command. -/
def name : Command → Text
  | .run => Text.lit "run"
  | .mul => Text.lit "mul"
  | .compare => Text.lit "compare"

/-- What a command does, in a line. -/
def description : Command → Text
  | .run => Text.lit "multiply 10 by 5 recursively and print the result"
  | .mul => Text.lit "multiply two unsigned integers"
  | .compare => Text.lit "compare the iterative and recursive multipliers"

/-- The flags of a command, in the order in which they are looked up and shown. -/
def flags : Command → List Flag
  | .run => []
  | .mul => [.config, .method, .maxDepth]
  | .compare => [.configs, .snippets, .format]

/-- The positional arguments of a command. -/
def parameters : Command → List Parameter
  | .mul => [⟨Text.lit "x", Text.lit "multiplicand"⟩, ⟨Text.lit "y", Text.lit "multiplier"⟩]
  | .run | .compare => []

/-- The command of a name. -/
def ofName? (n : Text) : Option Command := all.find? fun c => c.name = n

end Command

end CommandLine

end RepeatedAddition
