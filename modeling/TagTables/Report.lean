/-
# Error reports

A rejected file is reported by a reporter. It is handed the diagnostic of the
error (its message, its code, a hint if there is one, and its labelled spans)
together with the source and the name of its file, and writes what it
pleases. With the report goes an event that holds the place of the error.

Key definitions: `Diagnostic`, `Reporter`, `Reporter.explain?`.
-/
import TagTables.Event

namespace TagTables

/-- What a reporter is told of an error. -/
structure Diagnostic where
  message : String
  code : String
  help? : Option String
  labels : List Label
deriving DecidableEq

/-- The diagnostic of a syntax error. -/
def SyntaxError.diagnostic (e : SyntaxError) : Diagnostic := ⟨e.message, e.code, e.help?, e.labels⟩

/-- A way to write reports. -/
structure Reporter where
  /-- The report on a diagnostic in a source, with the name of the source. There may be none. -/
  report? : (name source : String) → Diagnostic → Option String

/-- The report on an error, and the event that goes with it. There is none if the error points
inside a character, or if the reporter has none. -/
def Reporter.explain? (r : Reporter) (file source : String) (e : SyntaxError) : Option (String × Event) := do
  let place ← Position.ofOffset? source e.span.start
  let text ← r.report? file source e.diagnostic
  return (text, .rejected e file place)

end TagTables
