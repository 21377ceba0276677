/-
# The command line

Reads the arguments, runs what they ask for on the real file system, and
ends with its exit code. Reports are written on one line; events are not shown.
Programs are not started from here, so a build ends with the message that its
first step was not launched.
-/
import TagTables.Action
import TagTables.Report.Line

namespace TagTables

/-- The cause of a failed request. -/
def OsError.ofSystem : IO.Error → OsError
  | .noFileOrDirectory .. => .notFound
  | .permissionDenied .. => .permissionDenied
  | .resourceBusy .. => .busy
  | .alreadyExists .. => .alreadyExists
  | e => .other e.toString

/-- Carries out a request and keeps its error. -/
def asking {α : Type} (request : IO α) : IO (Except OsError α) := do
  try
    return .ok (← request)
  catch e =>
    return .error (.ofSystem e)

instance : Host IO where
  size p := asking do
    let handle ← IO.FS.Handle.mk p.text .read
    try
      return (← handle.readBinToEnd).size
    catch _ =>
      return 0
  readText p := do
    match ← asking (IO.FS.readBinFile p.text) with
    | .error e => return .error e
    | .ok bytes =>
      match String.fromUTF8? bytes with
      | none => return .error .invalidText
      | some s => return .ok s
  makeDirs p := asking (IO.FS.createDirAll p.text)
  write p bytes := asking (IO.FS.writeBinFile p.text bytes)
  rename old new := asking (IO.FS.rename old.text new.text)
  remove p := asking (IO.FS.removeFile p.text)
  print := IO.print
  complain := IO.eprint
  note _ := pure ()
  reporter := pure Report.line
  searchPath := IO.getEnv "PATH"
  start _ := return .error (.other "programs cannot be started from here")

/-- How the program is called. -/
def usage : String :=
  "Usage: tagc [gen] [INPUT] [--header PATH] [--source PATH] [--namespace NAME]\n" ++
  "            [--table-type TYPE] [--table-suffix SUFFIX] [--table-include PATH]\n" ++
  "       tagc --lex FILE | --parse FILE\n" ++
  "       tagc build --compiler gcc [--platform NAME] [--root DIR]\n"

/-- Answers arguments that are not carried out. -/
def refuse (r : Refusal) : IO UInt32 := do
  match r with
  | .help => IO.print usage
  | .version => IO.print versionLine
  | _ => IO.eprint usage
  return r.exitCode.toUInt32

end TagTables

open TagTables in
/-- The program. -/
def main (args : List String) : IO UInt32 := do
  match Invocation.ofArgs args with
  | .error r => refuse r
  | .ok call =>
    let code : Int ← Action.run call
    return (code % 256).toNat.toUInt32
