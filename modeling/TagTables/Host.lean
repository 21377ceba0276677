/-
# Hosts

What a run asks of the system it runs on: a few requests to the file system,
two output channels, a log, the way reports are written, the search path, and
starting a program. A run is written against these requests only, so that it
can be carried out on a real system, on files in memory, or on a disk that
fails at will.
-/
import TagTables.Build
import TagTables.Report

namespace TagTables

/-- The requests to a file system. -/
class Disk (m : Type → Type) where
  /-- The size of what a path leads to. -/
  size : Path → m (Except OsError Nat)
  /-- The text of a file. -/
  readText : Path → m (Except OsError String)
  /-- Makes a directory, and those above it that are missing. -/
  makeDirs : Path → m (Except OsError Unit)
  /-- Writes a file, new or old. -/
  write : Path → ByteArray → m (Except OsError Unit)
  /-- Moves a file over another path. -/
  rename : Path → Path → m (Except OsError Unit)
  /-- Removes a file. -/
  remove : Path → m (Except OsError Unit)

/-- All that a run asks of its surroundings. -/
class Host (m : Type → Type) extends Disk m where
  /-- Writes to the output. -/
  print : String → m Unit
  /-- Writes to the error output. -/
  complain : String → m Unit
  /-- Reports an event. -/
  note : Event → m Unit
  /-- The reporter in force. -/
  reporter : m Reporter
  /-- The present search path. -/
  searchPath : m (Option String)
  /-- Starts a program and waits for its end. -/
  start : Launch → m (Except OsError ExitStatus)

/-- An action that may fail asks the host it runs on. -/
instance {ε : Type} {m : Type → Type} [Monad m] [Host m] : Host (ExceptT ε m) where
  size p := ExceptT.lift (Disk.size p)
  readText p := ExceptT.lift (Disk.readText p)
  makeDirs p := ExceptT.lift (Disk.makeDirs p)
  write p bytes := ExceptT.lift (Disk.write p bytes)
  rename old new := ExceptT.lift (Disk.rename old new)
  remove p := ExceptT.lift (Disk.remove p)
  print s := ExceptT.lift (Host.print s)
  complain s := ExceptT.lift (Host.complain s)
  note e := ExceptT.lift (Host.note e)
  reporter := ExceptT.lift Host.reporter
  searchPath := ExceptT.lift Host.searchPath
  start launch := ExceptT.lift (Host.start launch)

end TagTables
