/-
# Paths

A path is a text cut at its slashes. Empty segments and single dots count for
nothing, except a dot in front; a path that starts with a slash is absolute.
What stands above a path keeps the path's own spelling.

Key definitions: `Path.join`, `Path.ancestors`, `Path.parent?`,
`Path.fileName?`, `Path.staging`.
-/
import TagTables.Text.Pieces

namespace TagTables

/-- A path, as it was given. -/
structure Path where
  text : String
deriving DecidableEq

namespace Path

/-- Where a path starts. -/
inductive Anchor where
  /-- At the root. -/
  | root
  /-- At a dot for the working directory. -/
  | dot
  /-- At the working directory, unsaid. -/
  | unsaid
deriving DecidableEq

/-- Whether a path starts at the root. -/
def isAbsolute (p : Path) : Bool := p.text.toList.head? == some '/'

/-- The start of a path and the segments behind it. -/
def split (p : Path) : Anchor × List String :=
  match pieces '/' p.text with
  | [""] => (.unsaid, [])
  | "" :: body => (.root, body)
  | "." :: body => (.dot, body)
  | body => (.unsaid, body)

/-- Whether a segment leads anywhere. -/
def isStep (segment : String) : Bool := segment != "" && segment != "."

/-- The segments of a path up to its last step, last one first. -/
def spine (p : Path) : List String := p.split.2.reverse.dropWhile (!isStep ·)

/-- A path from its start and its segments, last one first. -/
def ofSpine (anchor : Anchor) (spine : List String) : Path :=
  let body := String.intercalate "/" spine.reverse
  match anchor with
  | .root => ⟨"/" ++ body⟩
  | .dot => ⟨"./" ++ body⟩
  | .unsaid => ⟨body⟩

/-- The spines that end in a step among the tails of a spine, the longest first. -/
def shorter : List String → List (List String)
  | [] => []
  | s :: rest => if isStep s then (s :: rest) :: shorter rest else shorter rest

/-- What stands above the first step of a path. -/
def aboveFirst : Anchor → List Path
  | .root => [⟨"/"⟩]
  | .dot => [⟨"."⟩, ⟨""⟩]
  | .unsaid => [⟨""⟩]

/-- The directories above a path, the nearest first. -/
def ancestors (p : Path) : List Path :=
  let anchor := p.split.1
  match p.spine with
  | [] => if anchor = .dot then [⟨""⟩] else []
  | _ :: rest => (shorter rest).map (ofSpine anchor) ++ aboveFirst anchor

/-- The directory that holds the path. -/
def parent? (p : Path) : Option Path := p.ancestors.head?

/-- The last step of a path, if it is a name. -/
def fileName? (p : Path) : Option String :=
  match p.spine with
  | [] => none
  | last :: _ => if last = ".." then none else some last

/-- A path below this one. An absolute path stands for itself. -/
def join (p : Path) (child : String) : Path :=
  if isAbsolute ⟨child⟩ then ⟨child⟩
  else if p.text = "" || p.text.toList.getLast? == some '/' then ⟨p.text ++ child⟩
  else ⟨p.text ++ "/" ++ child⟩

/-- Where a file is written before it takes its place. -/
def staging (p : Path) : Path := ⟨p.text ++ ".tmp"⟩

end Path
end TagTables
