import RepeatedAddition.Text.Basic

/-!
# File trees

What a program can read: files and directories below a working directory.  A path is read step by
step, and the first step that cannot be taken decides what is wrong.

* `Files`: all that reading needs to know, the answer for every path.
* `FileTree.read`: the content of the file at a path, or the fault.
* `ReadFault.message`: what is said of a fault, which names the path again.
-/

namespace RepeatedAddition

/-- Files with their content, and directories that may be empty, each by the names on the way to it.
The directories on the way to a file need not be listed. -/
structure FileTree where
  files : List (List Text × Text) := []
  directories : List (List Text) := []
  deriving DecidableEq, Repr

/-- Why a path could not be read. -/
inductive ReadFault where
  | notFound
  | notDirectory
  | isDirectory
  | nameTooLong
  | invalidArgument
  | denied
  deriving DecidableEq, Repr

namespace ReadFault

/-- What is said of a path that could not be read. -/
def message (path : Text) : ReadFault → Text
  | .notFound => Text.lit "open " ++ path ++ Text.lit ": no such file or directory"
  | .notDirectory => Text.lit "open " ++ path ++ Text.lit ": not a directory"
  | .isDirectory => Text.lit "read " ++ path ++ Text.lit ": is a directory"
  | .nameTooLong => Text.lit "open " ++ path ++ Text.lit ": file name too long"
  | .invalidArgument => Text.lit "open " ++ path ++ Text.lit ": invalid argument"
  | .denied => Text.lit "open " ++ path ++ Text.lit ": permission denied"

end ReadFault

/-- What reading gives for every path. -/
abbrev Files := Text → Except ReadFault Text

namespace FileTree

/-- The steps of a path: what stands between slashes. -/
def steps (path : Text) : List Text := path.splitOnP (· == 47)

/-- Whether the names lead to a directory. -/
def isDirectory (tree : FileTree) (names : List Text) : Bool :=
  names.isEmpty || tree.directories.any names.isPrefixOf
    || tree.files.any fun f => names.isPrefixOf f.1 && names != f.1

/-- The content of the file that the names lead to. -/
def file? (tree : FileTree) (names : List Text) : Option Text :=
  (tree.files.find? fun f => f.1 = names).map Prod.snd

/-- The longest name that a step may have. -/
def longestName : Nat := 255

/-- The longest path that can be read. -/
def longestPath : Nat := 4095

/-- Whether a step leads to a directory that is there anyway. -/
def isTrivial (step : Text) : Bool := step.isEmpty || step = Text.lit "." || step = Text.lit ".."

/-- What is wrong with steps that lead out of the working directory: nothing is known of what is
there, except that it consists of directories. -/
def outside (steps : List Text) : ReadFault :=
  match steps.find? fun s => !isTrivial s with
  | none => .isDirectory
  | some s => if s.length > longestName then .nameTooLong else .notFound

/-- Takes the steps from a directory on. -/
def walk (tree : FileTree) : List Text → List Text → Except ReadFault Text
  | _, [] => .error .isDirectory
  | here, step :: rest =>
    if step.isEmpty || step = Text.lit "." then walk tree here rest
    else if step = Text.lit ".." then
      if here.isEmpty then .error (outside rest) else walk tree here.dropLast rest
    else if step.length > longestName then .error .nameTooLong
    else if tree.isDirectory (here ++ [step]) then walk tree (here ++ [step]) rest
    else match tree.file? (here ++ [step]) with
      | some content => if rest.isEmpty then .ok content else .error .notDirectory
      | none => .error .notFound

/-- The content of the file at a path. -/
def read (tree : FileTree) : Files := fun path =>
  if path.isEmpty then .error .notFound
  else if path.contains 0 then .error .invalidArgument
  else if path.length > longestPath then .error .nameTooLong
  else if path.head? = some 47 then .error (outside (steps path))
  else tree.walk [] (steps path)

end FileTree

end RepeatedAddition
