import Stencil.CommandLine.Run

/-!
# The command line program

Connects runs of the command line with files, streams and the process
environment.
-/

open Stencil.CommandLine

/-- The message of a failed file operation. -/
def describeFailure (e : IO.Error) : String :=
  match e with
  | .noFileOrDirectory .. => "No such file or directory (os error 2)"
  | .permissionDenied .. => "Permission denied (os error 13)"
  | .inappropriateType .. => "Is a directory (os error 21)"
  | e => toString e

/-- The result of a file operation, or its message. -/
def attempt {α : Type} (act : IO α) : IO (Except String α) := do
  match ← act.toBaseIO with
  | .ok a => return .ok a
  | .error e => return .error (describeFailure e)

/-- The file that stands in for a target while it is written. -/
def besideOf (path : String) : String := path ++ ".new"

/-- The variables of the process. -/
def readVariables : IO (List (String × String)) := do
  let text ← (IO.FS.readFile "/proc/self/environ").toBaseIO
  match text with
  | .error _ => return []
  | .ok text =>
    return (text.splitOn "\x00").filterMap fun entry =>
      match entry.splitOn "=" with
      | name :: rest => if rest.isEmpty then none else some (name, "=".intercalate rest)
      | [] => none

/-- The system of the process. -/
def processSystem : IO (System IO) := do
  return {
    contentsOf := fun path => attempt (IO.FS.readFile path)
    isFile := fun path => do
      match ← (IO.FS.Handle.mk path .read).toBaseIO with
      | .ok _ => return true
      | .error _ => return false
    readInput := do attempt ((← IO.getStdin).readToEnd)
    canCreate := fun path => do
      attempt do
        let _ ← IO.FS.Handle.mk (besideOf path) .writeNew
        IO.FS.removeFile (besideOf path)
    canReplace := fun path => do
      match ← (IO.FS.Handle.mk path .readWrite).toBaseIO with
      | .error (.inappropriateType name code details) =>
        return .error (describeFailure (.inappropriateType name code details))
      | _ => return .ok ()
    environment := ← readVariables
    home := ← IO.getEnv "HOME" }

/-- Writes a file in one step: beside the target first, then in its place. -/
def replaceFile (path text : String) : IO Unit := do
  IO.FS.writeFile (besideOf path) text
  IO.FS.rename (besideOf path) path

/-- Runs the command line. -/
def main (args : List String) : IO UInt32 := do
  let outcome ← run (← processSystem) args
  (← IO.getStdout).putStr outcome.output
  (← IO.getStderr).putStr outcome.messages
  if let some (path, text) := outcome.file then
    replaceFile path text
  return outcome.code.toUInt32
