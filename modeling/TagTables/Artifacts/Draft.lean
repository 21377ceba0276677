/-
# Artifacts in the making

A draft is a pair of sinks and a count of what both have taken. Each section
is laid out before the first byte of it is written, and the declarations of
a set go before its definitions. The namespace of the declarations is closed
only by `finish`. A draft can be used further after a failed write.

Key definitions: `Draft.start`, `Draft.add`, `Draft.finish`.
-/
import TagTables.Emit.Section
import TagTables.Event
import TagTables.Sink

namespace TagTables

/-- How much has been written. -/
structure Tally where
  sets : Nat := 0
  tags : Nat := 0
deriving DecidableEq

/-- The two artifacts so far. -/
structure Draft where
  style : Emit.Style
  declarations : Sink
  definitions : Sink
  /-- The sets that both sinks have taken. -/
  tally : Tally := {}

namespace Draft

/-- Writes a text to each sink; to the second only if the first took all of its text. -/
def writeBoth (d : Draft) (declarations definitions : String) : Except SinkError Unit × Draft :=
  match d.declarations.writeAll declarations.toUTF8 with
  | (.error e, sink) => (.error e, { d with declarations := sink })
  | (.ok (), sink) =>
    let second := d.definitions.writeAll definitions.toUTF8
    (second.1, { d with declarations := sink, definitions := second.2 })

/-- Writes what stands before the first set. -/
def start (d : Draft) : Except SinkError Unit × Draft :=
  d.writeBoth d.style.declarationsHead d.style.definitionsHead

/-- Writes a set and counts it. -/
def add (d : Draft) (set : TagSet) : Except SinkError Unit × Draft :=
  match d.writeBoth (d.style.declarationsOf set) (d.style.definitionsOf set) with
  | (.error e, d) => (.error e, d)
  | (.ok (), d) => (.ok (), { d with tally := ⟨d.tally.sets + 1, d.tally.tags + set.size⟩ })

/-- What is reported of a set that has been written. -/
def added (set : TagSet) : Event := .setEmitted set.name set.size

/-- Closes the declarations and flushes both sinks, the declarations first. -/
def finish (d : Draft) : Except SinkError Tally × Draft :=
  match d.declarations.writeAll Emit.Style.declarationsTail.toUTF8 with
  | (.error e, sink) => (.error e, { d with declarations := sink })
  | (.ok (), sink) =>
    let flushed := do
      sink.flush
      d.definitions.flush
    (flushed.map fun _ => d.tally, { d with declarations := sink })

end Draft
end TagTables
