/-
# Tokens

A tag file is a sequence of tokens: words, which end at a blank, and quoted
texts, which end at a quote. Three words are structure, the delimiters; the
same texts in quotes are plain text.

Key definitions: `Delimiter`, `Token`, `Token.delimiter?`, `Token.render`.
-/
import TagTables.Span

namespace TagTables

/-- The character that starts and ends a quoted token. -/
def quote : Char := '"'

/-- The words that structure a file. -/
inductive Delimiter where
  /-- Opens the tag list of a set. -/
  | opening
  /-- Closes the tag list of a set. -/
  | closing
  /-- Introduces the field names of a set. -/
  | bar
deriving DecidableEq

namespace Delimiter

/-- How the delimiter is written. -/
def spelling : Delimiter → String
  | opening => "\x7b"
  | closing => "\x7d"
  | bar => "|"

/-- What messages call it. -/
def describe : Delimiter → String
  | opening => "opening brace"
  | closing => "closing brace"
  | bar => "field separator"

/-- The delimiter with exactly this spelling. -/
def ofText? (text : String) : Option Delimiter :=
  if text = opening.spelling then some opening
  else if text = closing.spelling then some closing
  else if text = bar.spelling then some bar
  else none

theorem ofText?_spelling (d : Delimiter) : ofText? d.spelling = some d := by
  cases d <;> decide

theorem eq_spelling_of_ofText? {text : String} {d : Delimiter} (h : ofText? text = some d) :
    text = d.spelling := by
  unfold ofText? at h
  split at h
  · next e => cases h; exact e
  split at h
  · next e => cases h; exact e
  split at h
  · next e => cases h; exact e
  · cases h

end Delimiter

/-- The two forms of a token. -/
inductive Token.Kind where
  | word
  | quoted
deriving DecidableEq

/-- A token: its form, its text without quotes, and the bytes it covers with them. -/
structure Token where
  kind : Token.Kind
  text : String
  span : Span
deriving DecidableEq

namespace Token

/-- The delimiter a token stands for. A quoted token stands for none. -/
def delimiter? (t : Token) : Option Delimiter :=
  match t.kind with
  | .word => Delimiter.ofText? t.text
  | .quoted => none

/-- Whether the token is this delimiter. -/
def isDelimiter (t : Token) (d : Delimiter) : Bool := t.delimiter? == some d

/-- The token as it is written in a file, closed if it is quoted. -/
def render (t : Token) : String :=
  match t.kind with
  | .word => t.text
  | .quoted => "\"" ++ t.text ++ "\""

/-- The name of the token's form. -/
def Kind.label : Kind → String
  | .word => "Word"
  | .quoted => "Quoted"

end Token
end TagTables
