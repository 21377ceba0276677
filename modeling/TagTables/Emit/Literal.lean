/-
# String literals

A text as a string literal of the emitted code. The quote and the backslash
are escaped, and so are line feed, carriage return and tab, so that a literal
stays on its line; all else is written as it is.
-/
namespace TagTables
namespace Emit

/-- How one character is written inside a literal. -/
def escape (c : Char) : List Char :=
  if c = '"' then ['\\', '"']
  else if c = '\\' then ['\\', '\\']
  else if c = '\n' then ['\\', 'n']
  else if c = '\r' then ['\\', 'r']
  else if c = '\t' then ['\\', 't']
  else [c]

/-- A text as a literal. -/
def literal (s : String) : String := "\"" ++ String.ofList (s.toList.flatMap escape) ++ "\""

end Emit
end TagTables
