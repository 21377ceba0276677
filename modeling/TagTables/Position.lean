/-
# Lines and columns

The place of a byte offset as people count it: lines from one, ended by a
line feed, and columns from one, in characters. An offset behind the end
counts as the end; an offset inside a character has no place.
-/
namespace TagTables

/-- A line and a column, both counted from one. -/
structure Position where
  line : Nat
  column : Nat
deriving DecidableEq

namespace Position

/-- The place behind a character that stands here. -/
def after (p : Position) (c : Char) : Position :=
  if c = '\n' then ⟨p.line + 1, 1⟩ else ⟨p.line, p.column + 1⟩

/-- The place `bytes` further on in the characters that follow `p`. -/
def advance? (p : Position) : List Char → Nat → Option Position
  | _, 0 => some p
  | [], _ + 1 => some p
  | c :: rest, bytes@(_ + 1) =>
    if c.utf8Size ≤ bytes then (p.after c).advance? rest (bytes - c.utf8Size) else none

/-- The place of a byte offset in a source. -/
def ofOffset? (source : String) (offset : Nat) : Option Position :=
  (⟨1, 1⟩ : Position).advance? source.toList offset

end Position
end TagTables
