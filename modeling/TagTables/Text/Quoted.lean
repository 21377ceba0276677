/-
# Quoted values and padded columns

The text forms of the listings. A quoted value stands between double quotes;
the quote, the backslash and the usual control characters have short escapes,
and every other hidden character is its code point in braces. Columns are
padded with spaces and never cut.
-/
import TagTables.Text.Hidden

namespace TagTables

/-- A number in lower-case hexadecimal digits, without leading zeros. -/
def hexDigits (n : Nat) : String := String.ofList (Nat.toDigits 16 n)

/-- How one character is written inside a quoted value. -/
def quotedChar (c : Char) : String :=
  if c = '"' then "\\\""
  else if c = '\\' then "\\\\"
  else if c = '\n' then "\\n"
  else if c = '\r' then "\\r"
  else if c = '\t' then "\\t"
  else if c = '\x00' then "\\0"
  else if isHidden c then "\\u\x7b" ++ hexDigits c.toNat ++ "\x7d"
  else c.toString

/-- A value between double quotes, fit for one line. -/
def quoted (s : String) : String :=
  s.toList.foldl (fun out c => out ++ quotedChar c) "\"" ++ "\""

/-- `n` spaces. -/
def spaces (n : Nat) : String := String.ofList (List.replicate n ' ')

/-- The text moved to the right edge of a column. -/
def padLeft (width : Nat) (s : String) : String := spaces (width - s.length) ++ s

/-- The text at the left edge of a column. -/
def padRight (width : Nat) (s : String) : String := s ++ spaces (width - s.length)

end TagTables
