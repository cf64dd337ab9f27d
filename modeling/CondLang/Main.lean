import CondLang.Command.Line
import CondLang.Project.FileTree

/-!
# The program

Reads the arguments, the state document and, as far as a condition asks, which paths exist; all else
is `Request.run`.
-/

namespace CondLang

/-- The error of an operation on a file in the words of the operating system. -/
def describeError : IO.Error → String
  | .noFileOrDirectory .. => PathError.missing.message
  | .inappropriateType _ code _ =>
      if code = 21 then PathError.isDirectory.message else PathError.notDirectory.message
  | .invalidArgument _ _ details =>
      if details = "name too long" then PathError.tooLong.message
      else "Invalid argument (os error 22)"
  | .permissionDenied .. => "Permission denied (os error 13)"
  | e => toString e

/-- The content of a file, or why it cannot be read. -/
def readContent (path : String) : IO (Except String String) := do
  try
    return .ok (← IO.FS.readFile path)
  catch e =>
    return .error (describeError e)

/-- All of standard input. -/
def readInput : IO (Except String String) := do
  let bytes ← (← IO.getStdin).readBinToEnd
  match String.fromUTF8? bytes with
  | some text => return .ok text
  | none => return .error "stream did not contain valid UTF-8"

/-- Whether a path exists. -/
def existsOnDisk (path : String) : IO Bool := do
  if maxPathBytes < path.utf8ByteSize then return false
  try
    discard (IO.FS.realPath path)
    return true
  catch _ =>
    return false

/-- The content of the state document of a command. -/
def readState (request : Command.Request) : IO (Except String String) :=
  match request.stateSource with
  | .nowhere => return .ok ""
  | .file path => readContent path
  | .input => readInput

/-- Runs a command until all paths it asks about have been looked up; `known` are those that have.
-/
partial def runKnowing (request : Command.Request) (content : Except String String)
    (known : List (String × Bool)) : IO Command.Outcome := do
  let (outcome, paths) := request.run content fun path => (known.lookup path).getD false
  match paths.find? fun path => (known.lookup path).isNone with
  | none => return outcome
  | some path => runKnowing request content ((path, ← existsOnDisk path) :: known)

end CondLang

/-- Runs the command line. -/
def main (arguments : List String) : IO UInt32 := do
  let outcome ←
    match CondLang.Command.Request.ofArguments? arguments with
    | none => pure .misused
    | some request =>
        CondLang.runKnowing request (← CondLang.readState request) []
  (← IO.getStdout).putStr outcome.stdout
  (← IO.getStderr).putStr outcome.stderr
  return outcome.exit.toUInt32
