/-
# Artifacts of a source

A run reads the sets of a source one by one and writes each to the draft as
it comes, so a failed run leaves in the sinks what came before the failure.
A run in memory hands out both artifacts or nothing.

Key definitions: `generate`, `artifacts`.
-/
import TagTables.Artifacts.Draft
import TagTables.SetStream

namespace TagTables

/-- Why a run failed. -/
inductive RunError where
  | rejected (e : SyntaxError)
  | unwritten (e : SinkError)
deriving DecidableEq

/-- The message of a failed run. -/
def RunError.message : RunError → String
  | rejected e => e.message
  | unwritten e => "failed to write artifact: " ++ e.message

/-- A run at its end: its outcome, its draft with both sinks, its report. -/
structure Run where
  outcome : Except RunError Tally
  draft : Draft
  log : Array Event

namespace Draft

/-- Ends a run well, unless the last writes fail. -/
def close (d : Draft) (log : Array Event) : Run :=
  let finished := d.finish
  ⟨finished.1.mapError .unwritten, finished.2, log⟩

/-- Writes the sets of a stream as they come, and ends the run with the stream. -/
def drain (d : Draft) (log : Array Event) : List Answer → Run
  | [] => d.close log
  | a :: rest =>
    let log := log ++ a.events
    match a.result with
    | none => d.close log
    | some (.error e) => ⟨.error (.rejected e), d, log⟩
    | some (.ok set) =>
      match d.add set with
      | (.error e, d) => ⟨.error (.unwritten e), d, log⟩
      | (.ok (), d) => d.drain (log.push (added set)) rest

end Draft

/-- Generates both artifacts of a source into two sinks. -/
def generate (source : String) (style : Emit.Style) (declarations definitions : Sink) : Run :=
  let log := #[.entered .generate source.utf8ByteSize]
  match Draft.start ⟨style, declarations, definitions, {}⟩ with
  | (.error e, d) => ⟨.error (.unwritten e), d, log⟩
  | (.ok (), d) => d.drain log (SetStream.ofSource source).answers

/-- Both artifacts of a good run. -/
structure Artifacts where
  declarations : ByteArray
  definitions : ByteArray
  tally : Tally

/-- Both artifacts of a source, in memory, with what the run reports. -/
def artifactsLogged (source : String) (style : Emit.Style) :
    Except RunError Artifacts × Array Event :=
  let run := generate source style {} {}
  (run.outcome.map fun tally => ⟨run.draft.declarations.held, run.draft.definitions.held, tally⟩,
    run.log)

/-- Both artifacts of a source, in memory. Nothing comes of a failed run. -/
def artifacts (source : String) (style : Emit.Style) : Except RunError Artifacts :=
  (artifactsLogged source style).1

end TagTables
