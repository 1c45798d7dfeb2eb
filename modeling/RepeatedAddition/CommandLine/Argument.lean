import RepeatedAddition.Text.Quoted

/-!
# Arguments

The arguments of a command line keep a mark that says whether something has used them.  Flags and
positional arguments may stand in any order, so they are looked up one at a time, each look-up
marking what it uses.

A flag is an argument that starts with a dash and is not a lone dash.  It has one dash or two before
its name, and its value either behind an equals sign or as the next argument.  The argument `--`
ends the flags: behind it, nothing is a flag.

* `Argument.flagBody?`: a flag without its dashes.
* `Argument.bearing`: what an argument is to the look-up of a flag.
* `Argument.takeFlag?`: the values of a flag, from all places where it stands.
* `Argument.takePositional`: the next argument that nothing has used.
* `Argument.unusedFlag?`, `Argument.unused`: what is left over.
-/

namespace RepeatedAddition

namespace CommandLine

/-- An argument and whether something has used it. -/
structure Argument where
  text : Text
  used : Bool := false
  deriving DecidableEq, Repr

/-- What can be wrong with arguments. -/
inductive ArgumentError where
  | unknownFlag (text : Text)
  | noValue (name : Text)
  | missing (name : Text)
  | notBoolean (value : Text)
  | unknownArguments (texts : List Text)
  deriving DecidableEq, Repr

/-- What is said of wrong arguments. -/
def ArgumentError.message : ArgumentError → Text
  | .unknownFlag text => Text.lit "unknown flag: " ++ Quoted.text text
  | .noValue name => Text.lit "no value for flag " ++ Quoted.text name
  | .missing name => name ++ Text.lit ": required argument missing"
  | .notBoolean value =>
    Text.lit "strconv.ParseBool: parsing " ++ Quoted.text value ++ Text.lit ": invalid syntax"
  | .unknownArguments texts => Text.lit "unknown arguments: " ++ Quoted.list texts

namespace Argument

/-- The argument that ends the flags. -/
def terminator : Text := Text.lit "--"

/-- Arguments that nothing has used yet. -/
def ofTexts (texts : List Text) : List Argument := texts.map fun t => ⟨t, false⟩

/-- The argument, used. -/
def mark (a : Argument) : Argument := { a with used := true }

/-- A flag without its dashes. -/
def flagBody? : Text → Option Text
  | 45 :: 45 :: body => some body
  | 45 :: b :: body => some (b :: body)
  | _ => none

/-- Whether a text has the form of a flag. -/
def isFlag (t : Text) : Bool := (flagBody? t).isSome

/-- What stands behind a name and an equals sign. -/
def valueIn? (name body : Text) : Option Text :=
  let start := name ++ Text.lit "="
  if start.isPrefixOf body then some (body.drop start.length) else none

/-- What an argument is to the look-up of a flag. -/
inductive Bearing where
  | last
  | none
  | value (text : Text)
  | name
  deriving DecidableEq, Repr

/-- What a text is to the look-up of a flag: it ends the flags, has nothing to do with this one,
gives a value, or is the name that the value follows.  A switch needs no value and stands for
`true`. -/
def bearing (name : Text) (switch : Bool) (t : Text) : Bearing :=
  if t = terminator then .last
  else
    match flagBody? t with
    | none => .none
    | some body =>
      if body = name then if switch then .value (Text.lit "true") else .name
      else
        match valueIn? name body with
        | some value => .value value
        | none => .none

/-- The values of a flag, from the left, and the arguments with those used that gave them.  A name
without a value takes the next argument, whatever that looks like; there is no answer if it is used
already, ends the flags or is not there. -/
def takeFlag? (name : Text) (switch : Bool) : List Argument → Option (List Text × List Argument)
  | [] => some ([], [])
  | a :: rest =>
    match bearing name switch a.text with
    | .last => some ([], a :: rest)
    | .none => (takeFlag? name switch rest).map fun taken => (taken.1, a :: taken.2)
    | .value value =>
      (takeFlag? name switch rest).map fun taken => (value :: taken.1, a.mark :: taken.2)
    | .name =>
      match rest with
      | [] => none
      | v :: rest =>
        if v.used || v.text = terminator then none
        else (takeFlag? name switch rest).map fun taken => (v.text :: taken.1,
          a.mark :: v.mark :: taken.2)

/-- The next positional argument: there is none, or a flag stands in its place, or it is found and
used. -/
inductive Positional where
  | missing
  | flag (text : Text)
  | found (text : Text) (rest : List Argument)
  deriving DecidableEq, Repr

/-- A positional argument found behind one more argument. -/
def Positional.behind (a : Argument) : Positional → Positional
  | .found text rest => .found text (a :: rest)
  | other => other

/-- The first argument that nothing has used.  Before the flags have ended it must not be a flag. -/
def positionalFrom : Bool → List Argument → Positional
  | _, [] => .missing
  | ended, a :: rest =>
    if a.text = terminator then (positionalFrom true rest).behind a
    else if a.used then (positionalFrom ended rest).behind a
    else if !ended && isFlag a.text then .flag a.text
    else .found a.text (a.mark :: rest)

/-- The next positional argument of a command line. -/
def takePositional (args : List Argument) : Positional := positionalFrom false args

/-- The first flag that nothing has used. -/
def unusedFlag? (args : List Argument) : Option Text :=
  ((args.takeWhile fun a => a.text != terminator).find? fun a => !a.used && isFlag a.text).map text

/-- All arguments that nothing has used. -/
def unused (args : List Argument) : List Text :=
  (args.filter fun a => !a.used && a.text != terminator).map text

/-- What is wrong with arguments that are left over, if any are. -/
def leftOver? (args : List Argument) : Option ArgumentError :=
  match unusedFlag? args with
  | some text => some (.unknownFlag text)
  | none => if (unused args).isEmpty then none else some (.unknownArguments (unused args))

end Argument

end CommandLine

end RepeatedAddition
