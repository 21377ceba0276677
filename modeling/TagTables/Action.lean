/-
# Actions

What the invocations do on a host. A generation run reads its input, renders
both artifacts, writes each beside its place and only then moves them into
their places, so that an error before the moves leaves the old artifacts as
they were; what was written beside is removed again. The listings print the
tokens or the sets of a file. A build configures, then builds.

Key definitions: `Failure`, `Action.deliver`, `Action.perform`, `Action.run`.
-/
import TagTables.Artifacts
import TagTables.Host
import TagTables.Invocation

namespace TagTables

/-- Why an action failed. -/
inductive Failure where
  /-- The input cannot be found. -/
  | inaccessible (file : Path) (e : OsError)
  /-- The input is larger than allowed. -/
  | tooLarge (file : Path) (size : Nat)
  /-- The input cannot be read. -/
  | unreadable (file : Path) (e : OsError)
  /-- The input is wrong, as the report says. -/
  | rejected (report : String)
  /-- An artifact could not be rendered. -/
  | unrendered (e : SinkError)
  /-- The directory of an artifact cannot be made. -/
  | noDirectory (directory : Path) (e : OsError)
  /-- An artifact cannot be written. -/
  | unwritable (file : Path) (e : OsError)
  /-- A build failed. -/
  | build (e : BuildFailure)
  /-- Any other reason, with its exit code. -/
  | other (message : String) (code : Int)
deriving DecidableEq

/-- The largest input in bytes. -/
def inputLimit : Nat := 16 * 1024 * 1024

namespace Failure

/-- The message of a failed action. -/
def message : Failure → String
  | inaccessible file e => "Cannot access file '" ++ file.text ++ "': " ++ e.message
  | tooLarge file size =>
    "Source file '" ++ file.text ++ "' is too large (" ++ Nat.repr size ++ " bytes, max " ++
      Nat.repr inputLimit ++ " bytes)"
  | unreadable file e => "Error reading file '" ++ file.text ++ "': " ++ e.message
  | rejected report => report
  | unrendered e => "Error generating artifacts: " ++ e.message
  | noDirectory directory e => "Error creating directory '" ++ directory.text ++ "': " ++ e.message
  | unwritable file e => "Error writing '" ++ file.text ++ "': " ++ e.message
  | build e => "Error: " ++ e.message
  | other message _ => message

/-- The exit code of a failed action. -/
def exitCode : Failure → Int
  | build e => e.exitCode
  | other _ code => code
  | _ => 1

end Failure

namespace Action

variable {m : Type → Type} [Monad m] [Host m]

/-- Carries out a request; an error of the system is a failure of the action. -/
def attempt {α : Type} (request : m (Except OsError α)) (failure : OsError → Failure) :
    ExceptT Failure m α := do
  match ← request with
  | .ok a => pure a
  | .error e => throw (failure e)

/-- Reports events in order. -/
def noteAll (events : List Event) : m Unit := events.forM Host.note

/-- The text of an input that is not too large. -/
def loadInput (file : Path) : ExceptT Failure m String := do
  let size ← attempt (Disk.size file) (.inaccessible file)
  if inputLimit < size then throw (.tooLarge file size)
  attempt (Disk.readText file) (.unreadable file)

/-- The failure that goes with a syntax error, reported as it is made. -/
def reject {α : Type} (file : Path) (source : String) (e : SyntaxError) : ExceptT Failure m α := do
  match (← Host.reporter).explain? file.text source e with
  | some (report, event) =>
    Host.note event
    throw (.rejected report)
  | none => throw (.rejected e.message)

/-- Writes an artifact beside its place. What a failed write left there is removed. -/
def writeStaged (file : Path) (contents : ByteArray) : ExceptT Failure m Path := do
  match ← Disk.write file.staging contents with
  | .ok () => pure file.staging
  | .error e =>
    let _ ← Disk.remove file.staging
    throw (.unwritable file e)

/-- Stages an artifact: it is written beside its place, behind making the place's directory. -/
def stage (file : Path) (contents : ByteArray) : ExceptT Failure m Path := do
  match file.parent? with
  | some directory =>
    if directory.text != "" then attempt (Disk.makeDirs directory) (.noDirectory directory)
  | none => pure ()
  writeStaged file contents

/-- Moves a staged artifact into its place. -/
def install (staged file : Path) : ExceptT Failure m Unit := do
  match ← Disk.rename staged file with
  | .ok () => pure ()
  | .error e =>
    let _ ← Disk.remove staged
    throw (.unwritable file e)

/-- Carries out an action; if it fails, removes a file that was staged before it. -/
def orRemove {α : Type} (act : ExceptT Failure m α) (staged : Path) : ExceptT Failure m α :=
  tryCatch act fun e => do
    let _ ← Disk.remove staged
    throw e

/-- The end of a generation run: both artifacts are staged, then both are moved into their places. -/
def handOver (o : GenOptions) (made : Artifacts) : ExceptT Failure m Unit := do
  let stagedHeader ← stage o.header made.declarations
  let stagedSource ← orRemove (stage o.source made.definitions) stagedHeader
  orRemove (install stagedHeader o.header) stagedSource
  install stagedSource o.source
  Host.note (.delivered o.header.text o.source.text made.tally.sets made.tally.tags)
  Host.print ("Generated " ++ Nat.repr made.tally.sets ++ " sets (" ++
    Nat.repr made.tally.tags ++ " tags) into " ++ o.header.text ++ " and " ++
    o.source.text ++ "\n")

/-- A generation run: the input is read, and the artifacts made of it are handed over. -/
def deliver (o : GenOptions) : ExceptT Failure m Unit := do
  let source ← loadInput o.input
  let (outcome, log) := artifactsLogged source o.style
  noteAll log.toList
  match outcome with
  | .error (.rejected e) => reject o.input source e
  | .error (.unwritten e) => throw (.unrendered e)
  | .ok made => handOver o made

/-- The line of a token in a listing. -/
def tokenLine (t : Token) : String :=
  padLeft 6 (Nat.repr t.span.start) ++ ".." ++ padRight 6 (Nat.repr t.span.stop) ++ " " ++
    t.kind.label ++ " " ++ t.render ++ "\n"

/-- Lists the tokens of a file. -/
def listTokens (file : Path) : ExceptT Failure m Unit := do
  let source ← loadInput file
  let (tokens, log) := lexLogged source
  noteAll log
  tokens.forM fun t => Host.print (tokenLine t)

/-- Lists the sets of a file. -/
def listSets (file : Path) : ExceptT Failure m Unit := do
  let source ← loadInput file
  let (outcome, log) := parseLogged source
  noteAll log.toList
  match outcome with
  | .error e => reject file source e
  | .ok sets =>
    sets.forM fun s => Host.print (s.listing ++ "\n")
    Host.print (Nat.repr sets.length ++ " sets, " ++ Nat.repr (totalTags sets) ++ " tags\n")

/-- Carries out one step of a build. -/
def launchStep (step : String) (launch : Launch × List Event) : ExceptT Failure m Unit := do
  noteAll launch.2
  Host.note (.stepStarted step)
  match ← Host.start launch.1 with
  | .error e => throw (.build (.notLaunched step e))
  | .ok (.code 0) => pure ()
  | .ok (.code n) => throw (.build (.failed step n))
  | .ok .killed => throw (.build (.failed step 1))

/-- Configures, then builds; stops at the first step that fails. -/
def build (plan : Build) : ExceptT Failure m Unit := do
  let present ← Host.searchPath
  launchStep "cmake configure" (plan.configureStep present)
  Host.print ("Building with " ++ plan.compiler.name ++ "\n")
  launchStep "cmake build" (plan.buildStep present)

/-- Does what an invocation asks for. The listings come before the subcommands. -/
def perform (call : Invocation) : ExceptT Failure m Unit :=
  match call.listTokens, call.listSets, call.subcommand with
  | some file, _, _ => listTokens file
  | none, some file, _ => listSets file
  | none, none, some (.gen options) => deliver options
  | none, none, some (.build plan) => build plan
  | none, none, none => deliver call.options

/-- Does what an invocation asks for, prints the message of a failure, and gives the exit code. -/
def run (call : Invocation) : m Int := do
  match ← (perform call).run with
  | .ok () => pure 0
  | .error failure =>
    if failure.message != "" then Host.complain (failure.message ++ "\n")
    pure failure.exitCode

end Action
end TagTables
