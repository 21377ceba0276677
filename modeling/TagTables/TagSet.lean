/-
# Tag sets

A set of tags with auxiliary fields. The entries are kept in the order of
their tag names, so the index of an entry is the tag's rank; names compare
by code points, which is the order of their UTF-8 bytes. A set taken from
elsewhere need not be in order, and then a rank is whatever the binary
search comes across.

Key definitions: `TagSet.rank?`, `TagSet.value?`, `TagSet.listing`,
`sortByName`, `adjacentRepeat?`.
-/
import TagTables.Span
import TagTables.Text.Quoted

namespace TagTables

/-- One tag of a set, with its values in the order of the set's fields. -/
structure TagEntry where
  name : String
  values : List String
  span : Span
deriving DecidableEq

/-- A set of tags. -/
structure TagSet where
  name : String
  /-- The names of the auxiliary fields. -/
  fields : List String
  /-- The tags; the index of one is its rank. -/
  entries : Array TagEntry
  /-- From the set's name to the end of its closing brace. -/
  span : Span
deriving DecidableEq

/-- Entries in ascending order of their names; of equal names the earlier stays first. -/
def sortByName (entries : List TagEntry) : List TagEntry :=
  entries.mergeSort fun a b => decide (a.name ≤ b.name)

/-- The first two neighbours with one name. -/
def adjacentRepeat? : List TagEntry → Option (TagEntry × TagEntry)
  | first :: again :: rest =>
    if first.name = again.name then some (first, again) else adjacentRepeat? (again :: rest)
  | _ => none

namespace TagSet

/-- The number of tags. -/
def size (s : TagSet) : Nat := s.entries.size

/-- Whether the set has no tags. -/
def isEmpty (s : TagSet) : Bool := s.entries.isEmpty

/-- The tag names in the order of their ranks. -/
def names (s : TagSet) : List String := s.entries.toList.map (·.name)

/-- Binary search for a tag among the ranks from `lo` up to, and without, `hi`. -/
def rankBetween? (s : TagSet) (tag : String) (lo hi : Nat) : Option Nat :=
  if _h : lo < hi then
    let mid := (lo + hi) / 2
    match s.entries[mid]? with
    | none => none
    | some entry =>
      if entry.name = tag then some mid
      else if entry.name < tag then rankBetween? s tag (mid + 1) hi
      else rankBetween? s tag lo mid
  else none
termination_by hi - lo
decreasing_by all_goals omega

/-- The rank of a tag. -/
def rank? (s : TagSet) (tag : String) : Option Nat := s.rankBetween? tag 0 s.size

/-- The value of a tag for a field; of two fields with one name the first counts. -/
def value? (s : TagSet) (tag field : String) : Option String := do
  let column ← s.fields.idxOf? field
  let rank ← s.rank? tag
  let entry ← s.entries[rank]?
  entry.values[column]?

/-- The line of a tag in a listing: rank, name and quoted values. -/
def entryLine (rank : Nat) (entry : TagEntry) : String :=
  "    " ++ padLeft 3 (Nat.repr rank) ++ "  " ++ entry.name ++
    String.join (entry.values.map fun v => " " ++ quoted v) ++ "\n"

/-- The set as the listing shows it: a heading, a line per tag, a closing brace. -/
def listing (s : TagSet) : String :=
  let heading := if s.fields.isEmpty then s.name else s.name ++ " | " ++ String.intercalate " " s.fields
  let lines := s.entries.toList.zipIdx.map fun p => entryLine p.2 p.1
  heading ++ " \x7b\n" ++ String.join lines ++ "\x7d"

end TagSet

/-- The number of tags in all sets together. -/
def totalTags (sets : List TagSet) : Nat := sets.foldl (fun n s => n + s.size) 0

end TagTables
