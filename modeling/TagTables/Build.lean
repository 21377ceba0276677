/-
# Builds

How the project around the emitted code is configured and built: a build
directory below the root for each platform and compiler, and a search path
with the package manager's directory at its end.

Key definitions: `Build.directory`, `Build.searchPath`,
`Build.configureStep`, `Build.buildStep`.
-/
import TagTables.Event
import TagTables.OsError
import TagTables.Path

namespace TagTables

/-- The compilers a build can use. -/
inductive Compiler where
  | gcc
deriving DecidableEq

namespace Compiler

/-- The name of a compiler on the command line and in the build directory. -/
def name : Compiler → String
  | gcc => "gcc"

/-- The program of a compiler. -/
def tool : Compiler → String
  | gcc => "g++"

/-- The compiler with this name. -/
def ofName? (name : String) : Option Compiler := if name = gcc.name then some gcc else none

end Compiler

/-- A program to start. -/
structure Launch where
  program : String
  args : List String
  /-- The directory it runs in. -/
  directory : Path
  /-- The search path it gets, unless it gets the present one. -/
  searchPath : Option String
deriving DecidableEq

/-- Whether a text holds the zero character, which ends a text for the system. Neither an
argument nor a variable of the environment can hold one. -/
def holdsZero (s : String) : Bool := s.toList.contains '\x00'

/-- A text as it is handed to a program. In place of one that cannot be, there is a note. -/
def Launch.handed (s : String) : String := if holdsZero s then "<string-with-nul>" else s

/-- How a program ended. -/
inductive ExitStatus where
  | code (n : Int)
  | killed
deriving DecidableEq

/-- What to build, for what and with what. -/
structure Build where
  root : Path
  platform : String
  compiler : Compiler
deriving DecidableEq

/-- The platform of a build when none is given. -/
def usualPlatform : String := "ubuntu-24.04"

namespace Build

/-- The directory of the build. -/
def directory (b : Build) : Path := ((b.root.join "build").join b.platform).join b.compiler.name

/-- The directory of the package manager. -/
def packageDir (b : Build) : Path := ((b.root.join "build").join "3rdParty").join "vcpkg"

/-- A search path from its elements, none of which may hold the separator. -/
def joinSearchPath (elements : List String) : Except String String :=
  if elements.any (·.toList.contains ':') then .error "path segment contains separator `:`"
  else .ok (String.intercalate ":" elements)

/-- The present search path with the package manager's directory behind it. -/
def searchPath (b : Build) (present : Option String) : Except String String :=
  joinSearchPath (pieces ':' (present.getD "") ++ [b.packageDir.text])

/-- A step of the build, and what is reported when the search path cannot be extended. -/
def step (b : Build) (present : Option String) (args : List String) : Launch × List Event :=
  let launch := Launch.mk "cmake" (args.map Launch.handed) ⟨Launch.handed b.root.text⟩
  match b.searchPath present with
  | .ok path => (launch (some path), [])
  | .error reason => (launch none, [.searchPathKept reason])

/-- The step that configures the build. -/
def configureStep (b : Build) (present : Option String) : Launch × List Event :=
  b.step present
    ["--preset=default", "-B", b.directory.text, "-DCMAKE_CXX_COMPILER=" ++ b.compiler.tool]

/-- The step that builds. -/
def buildStep (b : Build) (present : Option String) : Launch × List Event :=
  b.step present ["--build", b.directory.text]

end Build

/-- Why a build failed. -/
inductive BuildFailure where
  | notLaunched (step : String) (e : OsError)
  | failed (step : String) (code : Int)
deriving DecidableEq

namespace BuildFailure

/-- The message of a failed build. -/
def message : BuildFailure → String
  | notLaunched step e => "failed to launch " ++ step ++ ": " ++ e.message
  | failed step code => step ++ " failed with exit code " ++ code.repr

/-- The exit code of a failed build: that of the step, if it had one. -/
def exitCode : BuildFailure → Int
  | notLaunched .. => 1
  | failed _ code => code

end BuildFailure
end TagTables
