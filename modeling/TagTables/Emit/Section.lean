/-
# Sections of the two artifacts

The declarations hold, for each set, a constant per tag with its rank, a
constant with the number of tags, and the table's declaration, all inside a
namespace. The definitions hold the tables. Both run through the entries of
a set in one order, so the rank in the one is the index in the other.

Key definitions: `Style.declarationsOf`, `Style.definitionsOf`.
-/
import TagTables.Emit.Layout
import TagTables.Emit.Literal
import TagTables.Emit.Style
import TagTables.TagSet

namespace TagTables
namespace Emit

/-- The first line of both artifacts. -/
def firstLine : String := "// Generated by tagc. Do not edit."

namespace Style

/-- The table template for so many tags. -/
def tableOf (s : Style) (count : Nat) : String := s.tableType ++ "<" ++ Nat.repr count ++ ">"

/-- What stands before the first set of the declarations. -/
def declarationsHead (s : Style) : String :=
  layout [.line firstLine, .line "#pragma once", .line ("#include " ++ literal s.tableInclude), .blank,
    .line ("namespace " ++ s.nameSpace), .line "\x7b", .blank]

/-- The declaration of a tag's rank. -/
def rankLine (set tag : String) (rank : Nat) : String :=
  "const int " ++ rankSymbol set tag ++ " = " ++ Nat.repr rank ++ ";"

/-- A set in the declarations. -/
def declarationsOf (s : Style) (set : TagSet) : String :=
  layout <|
    set.names.zipIdx.map (fun p => .line (rankLine set.name p.1 p.2)) ++
    [.line ("const int " ++ countSymbol set.name s.countSuffix ++ " = " ++ Nat.repr set.size ++ ";"),
      .line ("extern " ++ s.tableOf set.size ++ " " ++ tableSymbol set.name s.tableSuffix ++ ";"),
      .blank]

/-- What stands behind the last set of the declarations. -/
def declarationsTail : String := "\x7d // end namespace\n"

/-- What stands before the first set of the definitions. -/
def definitionsHead (s : Style) : String :=
  layout [.line firstLine, .line ("#include " ++ literal s.headerInclude), .blank]

/-- A set in the definitions. -/
def definitionsOf (s : Style) (set : TagSet) : String :=
  layout [
    .block
      (s.tableOf set.size ++ " " ++ s.nameSpace ++ "::" ++ tableSymbol set.name s.tableSuffix ++ "(\x7b")
      "\x7d);"
      (set.names.map fun tag => .line (literal tag ++ ",")),
    .blank]

end Style
end Emit
end TagTables
