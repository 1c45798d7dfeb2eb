import Std.Time.Zoned.Database
import RepeatedAddition.CommandLine.Session

/-!
# The program

The outer layer: it reads the files that a request names, takes the time of a comparison, prints and
sets the exit code.  What is printed is decided by `CommandLine.plan`, `Request.execute` and
`CompareRequest.conclude`.
-/

namespace RepeatedAddition

namespace Main

open CommandLine

/-- Why the system did not read a file, by its error code. -/
def faultOf : IO.Error → ReadFault
  | .noFileOrDirectory _ _ _ => .notFound
  | .inappropriateType _ code _ => if code = 20 then .notDirectory else .isDirectory
  | .otherError code _ | .invalidArgument _ code _ =>
    if code = 36 then .nameTooLong else .invalidArgument
  | .permissionDenied _ _ _ => .denied
  | _ => .isDirectory

/-- Reads a file. -/
def readFile (path : Text) : IO (Except ReadFault Text) := do
  match String.fromUTF8? ⟨path.toArray⟩ with
  | none => return .error .notFound
  | some name =>
    if name.isEmpty then return .error .notFound
    try
      return .ok (← IO.FS.readBinFile name).data.toList
    catch e => return .error (faultOf e)

/-- Reads the files that a request names. -/
def filesOf (paths : List Text) : IO Files := do
  let known ← paths.mapM fun path => return (path, ← readFile path)
  return fun path => (known.lookup path).getD (.error .notFound)

/-- The time, in the local zone if the system knows it. -/
def now : IO Timestamp := do
  let time ← Std.Time.Timestamp.now
  let offset ← try
      let rules ← Std.Time.Database.defaultGetLocalZoneRules
      pure (rules.timezoneAt time).offset.second.val
    catch _ => pure 0
  return .ofParts 0 time.toNanosecondsSinceUnixEpoch.val offset

/-- Compares, and takes the time of it. -/
def compare (r : CompareRequest) (s : Surroundings) : IO Effect := do
  match r.load s.files with
  | .error e => return .failed (.config e)
  | .ok settings =>
    let start ← now
    let before ← IO.monoNanosNow
    let work ← IO.lazyPure fun _ => (comparisonOf settings).evaluate s.interrupt
    let after ← IO.monoNanosNow
    return r.conclude settings s.terminal work ⟨start, after - before⟩

/-- Does what a command line asks for. -/
def answer (texts : List Text) : IO Reply := do
  match plan texts with
  | .reply r => return r
  | .request r =>
    let s : Surroundings := ⟨← filesOf r.paths, ← (← IO.getStderr).isTty, .never⟩
    match r with
    | .compare c => return ⟨true, ← compare c s⟩
    | other => return ⟨true, other.execute s ⟨.zero, 0⟩⟩

/-- Writes a text. -/
def write (out : IO.FS.Stream) (t : Text) : IO Unit := do
  out.write ⟨t.toArray⟩
  out.flush

end Main

end RepeatedAddition

/-- Answers a command line. -/
def main (args : List String) : IO UInt32 := do
  let reply ← RepeatedAddition.Main.answer
    (RepeatedAddition.CommandLine.orDemonstration (args.map RepeatedAddition.Text.lit))
  RepeatedAddition.Main.write (← IO.getStdout) reply.effect.output
  RepeatedAddition.Main.write (← IO.getStderr) reply.diagnosticText
  return reply.exitCode
