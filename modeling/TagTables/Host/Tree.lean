/-
# A file tree in memory

Files and directories below a working directory, with the requests of a file
system as it answers them: every directory on the way must exist and be one;
a path that ends in a slash leads to a directory; names and paths have a
greatest length in bytes. Places above the working directory and below the
root can be named; they hold only what a run puts there.

Key definitions: `Tree.look`, `Tree.locate`, `Tree.makeDirs`, `Tree.write`, `Tree.rename`,
`Tree.remove`.
-/
import TagTables.OsError
import TagTables.Path

namespace TagTables

/-- The contents of a file: a run of one byte, then bytes. Most files have an empty run. -/
structure Contents where
  fill : UInt8 := 0
  count : Nat := 0
  tail : ByteArray

namespace Contents

/-- Contents given by their bytes. -/
def ofBytes (bytes : ByteArray) : Contents := { tail := bytes }

/-- The number of bytes. -/
def size (c : Contents) : Nat := c.count + c.tail.size

/-- The bytes. -/
def bytes (c : Contents) : ByteArray := c.count.fold (fun _ _ out => out.push c.fill) .empty ++ c.tail

end Contents

/-- What a place holds. -/
inductive Node where
  | directory
  | file (contents : Contents)

/-- The names on the way from the working directory. Places above it start with two dots
for each level, and places below the root with a slash. -/
abbrev Place := List String

/-- The working directory. -/
def Place.here : Place := []

/-- The place one level up. -/
def Place.up (p : Place) : Place :=
  if p = ["/"] then p else if p.all (· == "..") then p ++ [".."] else p.dropLast

/-- The most bytes of a name. -/
def nameLimit : Nat := 255

/-- The most bytes of a path. -/
def pathLimit : Nat := 4095

/-- What the places hold. -/
structure Tree where
  nodes : List (Place × Node) := []

namespace Tree

/-- What a place holds. The working directory, those above it and the root are there. -/
def get? (t : Tree) (p : Place) : Option Node :=
  if p = ["/"] || p.all (· == "..") then some .directory else t.nodes.lookup p

/-- The tree with a place emptied. -/
def erase (t : Tree) (p : Place) : Tree := ⟨t.nodes.filter (·.1 != p)⟩

/-- The tree with something new at a place. -/
def insert (t : Tree) (p : Place) (node : Node) : Tree := ⟨(t.erase p).nodes ++ [(p, node)]⟩

/-- Makes the directories above a place. -/
def insertAbove (t : Tree) (p : Place) : Tree :=
  (List.range p.length).foldl (fun t n =>
    let above := p.take n
    if (t.get? above).isSome then t else t.insert above .directory) t

/-- The tree with these files and directories, and the directories above them. -/
def ofList (files : List (String × Node)) : Tree :=
  files.foldl (fun t f =>
    let p := pieces '/' f.1
    let t := t.insertAbove p
    match f.2, t.get? p with
    | .directory, some .directory => t
    | node, _ => t.insert p node) {}

/-- The files and directories below the working directory, by their paths. -/
def toList (t : Tree) : List (String × Node) :=
  (t.nodes.filter fun n => n.1.head? != some ".." && n.1.head? != some "/").map
    fun n => (String.intercalate "/" n.1, n.2)

/-- Looks at a place. To ask for a name that no file can have is an error. -/
def look (t : Tree) (p : Place) : Except OsError (Option Node) :=
  if nameLimit < (p.getLastD "").utf8ByteSize then .error .nameTooLong else .ok (t.get? p)

/-- Follows one segment from a place, which must be a directory. -/
def enter (t : Tree) (p : Place) (segment : String) : Except OsError Place := do
  match ← t.look p with
  | none => .error .notFound
  | some (.file _) => .error .notADirectory
  | some .directory =>
    pure (if segment = "." then p else if segment = ".." then Place.up p else p ++ [segment])

/-- The segments to follow for a path. -/
def segments (p : Path) : List String := (pieces '/' p.text).filter (· != "")

/-- Whether a path ends in a slash. -/
def endsInSlash (p : Path) : Bool := p.text.toList.getLast? == some '/'

/-- The place of a path seen from `base`; a slash at its end is ignored. It may hold nothing
yet. -/
def locateEntry (t : Tree) (base : Place) (p : Path) : Except OsError Place :=
  if p.text = "" then .error .notFound
  else if pathLimit < p.text.utf8ByteSize then .error .nameTooLong
  else (segments p).foldlM t.enter (if p.isAbsolute then ["/"] else base)

/-- The place of a path seen from `base`; a slash at its end asks for a directory. -/
def locate (t : Tree) (base : Place) (p : Path) : Except OsError Place := do
  let place ← t.locateEntry base p
  if endsInSlash p then t.enter place "." else pure place

/-- What a path seen from `base` leads to. -/
def find (t : Tree) (base : Place) (p : Path) : Except OsError Node := do
  match ← t.look (← t.locate base p) with
  | none => .error .notFound
  | some node => .ok node

/-- Whether a path leads to a directory. -/
def isDirectory (t : Tree) (p : Path) : Bool :=
  match t.find .here p with
  | .ok .directory => true
  | _ => false

/-- The size of what a path leads to. A directory takes a block. -/
def size (t : Tree) (p : Path) : Except OsError Nat := do
  match ← t.find .here p with
  | .directory => pure 4096
  | .file c => pure c.size

/-- The text of a file. -/
def readText (t : Tree) (p : Path) : Except OsError String := do
  match ← t.find .here p with
  | .directory => .error .isADirectory
  | .file c =>
    match String.fromUTF8? c.bytes with
    | none => .error .invalidText
    | some s => pure s

/-- Makes one directory. -/
def makeDir (t : Tree) (p : Path) : Except OsError Tree := do
  let place ← t.locateEntry .here p
  if (← t.look place).isSome then .error .alreadyExists else pure (t.insert place .directory)

/-- Makes a directory, or finds that it is there. -/
def ensureDir (t : Tree) (p : Path) : Except OsError Tree :=
  match t.makeDir p with
  | .ok t => .ok t
  | .error e => if t.isDirectory p then .ok t else .error e

/-- Makes the first of these directories; if the way to it is missing, those behind it first.
The directories made stay also when a later one fails. -/
def makeChain (t : Tree) : List Path → Except OsError Unit × Tree
  | [] => (.error (.other "failed to create whole tree"), t)
  | p :: above =>
    if p.text = "" then (.ok (), t)
    else
      match t.ensureDir p with
      | .ok t => (.ok (), t)
      | .error .notFound =>
        match t.makeChain above with
        | (.error e, t) => (.error e, t)
        | (.ok (), t) =>
          match t.ensureDir p with
          | .ok t => (.ok (), t)
          | .error e => (.error e, t)
      | .error e => (.error e, t)

/-- Makes a directory and those above it that are missing. -/
def makeDirs (t : Tree) (p : Path) : Except OsError Unit × Tree := t.makeChain (p :: p.ancestors)

/-- Writes a file, new or old. -/
def write (t : Tree) (p : Path) (bytes : ByteArray) : Except OsError Tree := do
  let place ← t.locate .here p
  match ← t.look place with
  | some .directory => .error .isADirectory
  | _ => pure (t.insert place (.file (.ofBytes bytes)))

/-- Whether a path ends in a name, and not in dots or nothing. -/
def endsInName (p : Path) : Bool :=
  match (segments p).getLast? with
  | none => false
  | some last => last != "." && last != ".."

/-- Moves a file over another path, which must not be a directory. -/
def rename (t : Tree) (old new : Path) : Except OsError Tree := do
  let source ← t.locateEntry .here old
  let target ← t.locateEntry .here new
  if !endsInName old || !endsInName new then .error .busy
  match ← t.look source with
  | none => .error .notFound
  | some .directory => .error .isADirectory
  | some node =>
    let held ← t.look target
    if endsInSlash old || endsInSlash new then .error .notADirectory
    match held with
    | some .directory => .error .isADirectory
    | _ => pure ((t.erase source).insert target node)

/-- Removes a file. -/
def remove (t : Tree) (p : Path) : Except OsError Tree := do
  let place ← t.locate .here p
  match ← t.look place with
  | none => .error .notFound
  | some .directory => .error .isADirectory
  | some (.file _) => pure (t.erase place)

end Tree
end TagTables
