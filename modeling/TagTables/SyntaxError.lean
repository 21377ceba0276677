/-
# Syntax errors

Why a tag file is rejected. Reading stops at the first error. Each cause has
one message, one code, at most one hint and one or two labelled spans.

Key definitions: `SyntaxError`, `SyntaxError.message`, `SyntaxError.labels`.
-/
import TagTables.Token

namespace TagTables

/-- What the reader waited for when the tokens ran out. -/
inductive Awaited where
  /-- Behind a bar: a field name, or the brace that opens the tag list. -/
  | fieldOrBrace
  /-- In a tag list: a tag, or the brace that closes it. -/
  | tagOrBrace
  /-- The value of a tag for a field. -/
  | value (tag field : String)
deriving DecidableEq

/-- Why a file is rejected. -/
inductive SyntaxError where
  /-- The tokens ran out inside a block. -/
  | unexpectedEnd (awaited : Awaited) (span : Span)
  /-- A delimiter stands where a set's name should be. -/
  | missingName (span : Span)
  /-- Two entries of a set have one name. -/
  | duplicateTag (set tag : String) (span first : Span)
deriving DecidableEq

/-- What messages call a delimiter, with its spelling. -/
def Delimiter.phrase (d : Delimiter) : String := d.describe ++ " `" ++ d.spelling ++ "`"

/-- The words for what was awaited. -/
def Awaited.describe : Awaited → String
  | fieldOrBrace => "a field name or " ++ Delimiter.opening.phrase
  | tagOrBrace => "a tag name or " ++ Delimiter.closing.phrase
  | value tag field => "a value for field `" ++ field ++ "` of tag `" ++ tag ++ "`"

/-- A span of the source with a remark. -/
structure Label where
  text : String
  span : Span
deriving DecidableEq

namespace SyntaxError

/-- Where the error is. -/
def span : SyntaxError → Span
  | unexpectedEnd _ s => s
  | missingName s => s
  | duplicateTag _ _ s _ => s

/-- The message of an error. -/
def message : SyntaxError → String
  | unexpectedEnd awaited _ => "unexpected end of input, expected " ++ awaited.describe
  | missingName _ => "set has no name"
  | duplicateTag set tag _ _ => "tag `" ++ tag ++ "` is declared twice in set `" ++ set ++ "`"

/-- The code that stands for the kind of error. -/
def code : SyntaxError → String
  | unexpectedEnd .. => "tagc::syntax::unexpected_eof"
  | missingName .. => "tagc::syntax::missing_set_name"
  | duplicateTag .. => "tagc::syntax::duplicate_tag"

/-- A hint on what to do. -/
def help? : SyntaxError → Option String
  | unexpectedEnd .. => some "is a closing `\x7d` missing?"
  | missingName .. => some "write the set name before `\x7b` or `|`"
  | duplicateTag .. => none

/-- The labelled spans, the place of the error first. -/
def labels : SyntaxError → List Label
  | unexpectedEnd _ s => [⟨"input ends here", s⟩]
  | missingName s => [⟨"no name before this delimiter", s⟩]
  | duplicateTag _ _ s first => [⟨"declared again here", s⟩, ⟨"first declared here", first⟩]

end SyntaxError
end TagTables
