/-
# Symbols and style of the emitted code

Every emitted symbol is a set's name with something behind it. The same
three functions serve both artifacts. A `Style` holds the words a user may
choose.

Key definitions: `rankSymbol`, `countSymbol`, `tableSymbol`, `Style`.
-/
namespace TagTables
namespace Emit

/-- The constant that holds the rank of a tag. -/
def rankSymbol (set tag : String) : String := set ++ tag

/-- The constant that holds the number of tags of a set. -/
def countSymbol (set suffix : String) : String := set ++ suffix

/-- The lookup table of a set. -/
def tableSymbol (set suffix : String) : String := set ++ suffix

/-- The words of the emitted code. -/
structure Style where
  /-- The namespace around the declarations. -/
  nameSpace : String := "Tags"
  /-- The template of the lookup tables, applied to the number of tags. -/
  tableType : String := "TagDict"
  /-- Stands behind a set's name in the symbol of its table. -/
  tableSuffix : String := "tagDict"
  /-- Stands behind a set's name in the symbol of its count. -/
  countSuffix : String := "COUNT"
  /-- The header that declares the template. -/
  tableInclude : String := "util/TagDict.h"
  /-- The declarations as the definitions include them. -/
  headerInclude : String := "tags.h"
deriving DecidableEq

/-- The parts of a style. -/
inductive Style.Part where
  | nameSpace
  | tableType
  | tableSuffix
  | countSuffix
  | tableInclude
  | headerInclude
deriving DecidableEq

namespace Style

/-- A part of a style. -/
def get (s : Style) : Part → String
  | .nameSpace => s.nameSpace
  | .tableType => s.tableType
  | .tableSuffix => s.tableSuffix
  | .countSuffix => s.countSuffix
  | .tableInclude => s.tableInclude
  | .headerInclude => s.headerInclude

/-- The style with one part replaced. -/
def set (s : Style) (part : Part) (value : String) : Style :=
  match part with
  | .nameSpace => { s with nameSpace := value }
  | .tableType => { s with tableType := value }
  | .tableSuffix => { s with tableSuffix := value }
  | .countSuffix => { s with countSuffix := value }
  | .tableInclude => { s with tableInclude := value }
  | .headerInclude => { s with headerInclude := value }

theorem get_set (s : Style) (p q : Part) (value : String) :
    (s.set p value).get q = if p = q then value else s.get q := by
  cases p <;> cases q <;> rfl

end Style
end Emit
end TagTables
