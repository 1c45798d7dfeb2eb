import RepeatedAddition.CommandLine.Argument
import RepeatedAddition.CommandLine.Suggestion

/-!
# Usage

What the program says about itself: how a command is called, its arguments and flags, the list of
commands, and before all that the errors, if there are any.  A usage is a list of sections with an
empty line between them; the lines of a section are indented, and where they have two columns, the
second starts four places behind the widest entry of the first.

* `UsageError`: what is wrong with a command line.
* `Usage.ofProgram`, `Usage.ofCommand`: the usage of the program and of a command.
* `Usage.summary`: the list of commands.
-/

namespace RepeatedAddition

namespace CommandLine

/-- What is wrong with a command line. -/
inductive UsageError where
  | argument (error : ArgumentError)
  | unknownCommand (name : Text)
  deriving DecidableEq, Repr

namespace Usage

/-- Four blanks. -/
def indent : Text := Text.lit "    "

/-- Lines, each with its end. -/
def lines (ls : List Text) : Text := ls.flatMap fun l => l ++ Text.lit "\n"

/-- A heading with indented lines below it. -/
def titled (title : String) (ls : List Text) : List Text := Text.lit title :: ls.map (indent ++ ·)

/-- Sections with an empty line between them; those without lines are left out. -/
def sections (parts : List (List Text)) : Text :=
  Text.joined (Text.lit "\n") ((parts.filter fun ls => !ls.isEmpty).map lines)

/-- The width of the widest text. -/
def widest (texts : List Text) : Nat := (texts.map List.length).foldl max 0

/-- Rows of two columns. -/
def table (rows : List (Text × Text)) : List Text :=
  let width := widest (rows.map Prod.fst) + indent.length
  rows.map fun (left, right) => Text.padded width left ++ right

end Usage

namespace UsageError

/-- What is said of a wrong command line; commands that may have been meant have lines of their
own. -/
def message : UsageError → Text
  | argument error => Text.lit "argument error: " ++ error.message
  | unknownCommand name =>
    let suggestions := Suggestion.commands name
    Text.lit "unknown command: " ++ Quoted.text name
      ++ if suggestions.isEmpty then []
        else Text.lit ". did you mean:"
          ++ suggestions.flatMap fun c => Text.lit "\n" ++ Usage.indent ++ Usage.indent ++ c.name

end UsageError

namespace Flag

/-- The kind of value that a flag takes, as it is shown. -/
def valueName (f : Flag) : Text := if f.isSwitch then [] else Text.lit "string"

/-- A flag with the kind of its value. -/
def label (f : Flag) : Text := Text.lit "--" ++ f.name ++ Text.lit " " ++ f.valueName

/-- What is shown before the label: the short form, or its place. -/
def shortLabel (f : Flag) : Text :=
  match f.short with
  | some s => Text.lit "-" ++ s ++ Text.lit ", "
  | none => Usage.indent

/-- What is shown behind the description: whether a flag repeats, and what it has without a
value. -/
def notes (f : Flag) : Text :=
  match f.kind with
  | .switch => []
  | .single default =>
    if default.isEmpty then [] else Text.lit " (default " ++ Quoted.text default ++ Text.lit ")"
  | .repeated defaults =>
    Text.lit " (repeated)"
      ++ if defaults.isEmpty then []
        else Text.lit " (default [" ++ Text.joined (Text.lit " ") defaults ++ Text.lit "])"

/-- A flag as it may stand in a call. -/
def spelledOut (f : Flag) : Text :=
  let dots := match f.kind with
    | .repeated _ => Text.lit " ..."
    | _ => []
  Text.lit "[" ++ f.label ++ dots ++ Text.lit "]"

end Flag

namespace Usage

/-- The table of flags. -/
def flagTable (flags : List Flag) : List Text :=
  let width := widest (flags.map Flag.label) + indent.length
  flags.map fun f => f.shortLabel ++ Text.padded width f.label ++ f.description ++ f.notes

/-- A section that is left out if it has no lines. -/
def optional (title : String) (ls : List Text) : List Text :=
  if ls.isEmpty then [] else titled title ls

/-- The section of errors. -/
def errorSection (errors : List UsageError) : List Text :=
  optional "Errors:" (errors.map UsageError.message)

/-- The section of flags that go with any command. -/
def globalSection : List Text := titled "Global flags:" (flagTable Flag.all)

/-- The usage of the program. -/
def ofProgram (errors : List UsageError) : Text :=
  sections [
    errorSection errors,
    titled "Usage:" [programName ++ Text.lit " [command]"],
    titled "Available commands:" (table (Command.all.map fun c => (c.name, c.description))),
    globalSection,
    [Text.lit "Use \"" ++ programName ++
      Text.lit " [command] --help\" for more information about a command."]]

/-- The call of a command.  The flags stand for themselves, or are spelled out one by one. -/
def call (c : Command) (spelledOut : Bool) : Text :=
  let flags :=
    if c.flags.isEmpty then []
    else if spelledOut then c.flags.map Flag.spelledOut
    else [Text.lit "[flags]"]
  let parameters := c.parameters.map fun p => Text.lit "<" ++ p.name ++ Text.lit ">"
  Text.joined (Text.lit " ") ([programName, c.name] ++ flags ++ parameters)

/-- The usage of a command. -/
def ofCommand (c : Command) (spelledOut : Bool) (errors : List UsageError) : Text :=
  sections [
    errorSection errors,
    titled "Usage:" [call c spelledOut],
    [indent ++ c.description],
    optional "Arguments:" (table (c.parameters.map fun p => (p.name, p.description))),
    optional "Flags:" (flagTable c.flags),
    globalSection]

/-- The list of commands. -/
def summary (commands : List Command) : Text :=
  lines (titled "Available commands:"
    (table (commands.map fun c => (programName ++ Text.lit " " ++ c.name, c.description))))

end Usage

end CommandLine

end RepeatedAddition
