/-
# A host in memory

A host whose files are a tree in memory, whose outputs and log are kept, and
whose build tool, if there is one, prints how it was called and ends as told.
A program is looked for along the search path; the files of the tree can be
found there too, but none of them may be run.

Key definitions: `World`, `World.seek`, `World.start`, `Tool.line`.
-/
import TagTables.Host
import TagTables.Host.Tree

namespace TagTables

/-- A build tool: how it ends when it configures and when it builds. -/
structure Tool where
  configure : ExitStatus
  build : ExitStatus

namespace Tool

/-- The line the tool prints: its arguments, and the end of its search path if that has
more than one element. -/
def line (launch : Launch) (path : String) : String :=
  let elements := pieces ':' path
  let shown := if elements.length ≤ 1 then " path unchanged" else " path:" ++ elements.getLastD ""
  launch.program ++ String.join (launch.args.map fun a => " [" ++ a ++ "]") ++ shown ++ "\n"

/-- How the tool ends. -/
def ending (tool : Tool) (launch : Launch) : ExitStatus :=
  if launch.args.head? = some "--build" then tool.build else tool.configure

end Tool

/-- A host in memory. -/
structure World where
  tree : Tree := {}
  /-- How reports are written. -/
  reporter : Reporter
  tool? : Option Tool := none
  /-- The search path, with one element. -/
  searchPath : String := "/tools"
  output : String := ""
  complaints : String := ""
  log : Array Event := #[]

namespace World

/-- The answer to a request that may change the tree, and the world behind it. -/
def update (w : World) (result : Except OsError Tree) : Except OsError Unit × World :=
  match result with
  | .ok tree => (.ok (), { w with tree := tree })
  | .error e => (.error e, w)

/-- The tool in one directory of the search path, as it is seen from `base`. -/
def toolIn (w : World) (base : Place) (program directory : String) : Except OsError Tool :=
  match if directory = w.searchPath then w.tool? else none with
  | some tool => .ok tool
  | none => do
    let _ ← w.tree.find base ((⟨directory⟩ : Path).join program)
    .error .permissionDenied

/-- Whether a search goes on behind a directory where this error arose. -/
def passes (e : OsError) : Bool := e = .notFound || e = .notADirectory || e = .permissionDenied

/-- Looks for the tool along the directories of a search path. If it is in none, the answer
is the last error so far, but a denied permission before all others. A directory with too
long a path is left out. -/
def seek (w : World) (base : Place) (program : String) : List String → OsError → Except OsError Tool
  | [], soFar => .error soFar
  | directory :: rest, soFar =>
    if pathLimit < directory.utf8ByteSize then w.seek base program rest soFar
    else
      match w.toolIn base program directory with
      | .ok tool => .ok tool
      | .error e =>
        if passes e then
          w.seek base program rest (if soFar = .permissionDenied then soFar else e)
        else .error e

/-- The most bytes of an argument. -/
def argumentLimit : Nat := 131071

/-- Starts the tool. The directory it runs in must exist, and it must be able to take its
arguments. -/
def start (w : World) (launch : Launch) : Except OsError ExitStatus × World :=
  let path := launch.searchPath.getD w.searchPath
  let found : Except OsError Tool := do
    let place ← w.tree.locate .here launch.directory
    let base ← w.tree.enter place "."
    let tool ← w.seek base launch.program (pieces ':' path) .notFound
    if launch.args.any (argumentLimit < ·.utf8ByteSize) then .error .argumentTooLong
    pure tool
  match found with
  | .error e => (.error e, w)
  | .ok tool =>
    (.ok (tool.ending launch), { w with output := w.output ++ Tool.line launch path })

end World

instance : Host (StateM World) where
  size p := do return (← get).tree.size p
  readText p := do return (← get).tree.readText p
  makeDirs p := modifyGet fun w =>
    let made := w.tree.makeDirs p
    (made.1, { w with tree := made.2 })
  write p bytes := modifyGet fun w => w.update (w.tree.write p bytes)
  rename old new := modifyGet fun w => w.update (w.tree.rename old new)
  remove p := modifyGet fun w => w.update (w.tree.remove p)
  print s := modify fun w => { w with output := w.output ++ s }
  complain s := modify fun w => { w with complaints := w.complaints ++ s }
  note e := modify fun w => { w with log := w.log.push e }
  reporter := do return (← get).reporter
  searchPath := do return some (← get).searchPath
  start launch := modifyGet fun w => w.start launch

end TagTables
