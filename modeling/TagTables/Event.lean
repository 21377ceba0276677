/-
# Events

What a run reports about itself while it works: the scopes it enters, what
it reads leniently, what it has done. An event is its cause; level, message
and fields are read off it.

Key definitions: `Event`, `Event.level?`, `Event.message`, `Event.fields`.
-/
import TagTables.Position
import TagTables.SyntaxError

namespace TagTables

/-- How much an event matters. -/
inductive Level where
  | debug
  | info
  | warn
deriving DecidableEq

/-- The name of a level. -/
def Level.label : Level → String
  | debug => "DEBUG"
  | info => "INFO"
  | warn => "WARN"

/-- The stretches of work that announce themselves. -/
inductive Scope where
  | lex
  | parse
  | generate
deriving DecidableEq

/-- The name of a scope. -/
def Scope.label : Scope → String
  | lex => "lex"
  | parse => "parse"
  | generate => "generate"

/-- Something a run reports. -/
inductive Event where
  /-- Work on a source of so many bytes starts. -/
  | entered (scope : Scope) (sourceLength : Nat)
  /-- A quoted token that starts here has no closing quote. -/
  | unclosedQuote (offset : Nat)
  /-- A token between two sets is dropped; the last one names the set. -/
  | tokenBeforeName (token : Token)
  /-- A token behind the last set is dropped. -/
  | trailingToken (token : Token)
  /-- A bar is followed by no field names. -/
  | noFields (set : String)
  /-- A closing brace stands where a value must, and is the value. -/
  | braceAsValue (tag field : String) (offset : Nat)
  /-- A set has been read. -/
  | setRead (set : String) (tags fields : Nat)
  /-- A set has been written to both artifacts. -/
  | setEmitted (set : String) (tags : Nat)
  /-- A file has been rejected. -/
  | rejected (error : SyntaxError) (file : String) (position : Position)
  /-- Both artifacts are in place. -/
  | delivered (header source : String) (sets tags : Nat)
  /-- A build step starts. -/
  | stepStarted (step : String)
  /-- The search path is passed on as it is. -/
  | searchPathKept (reason : String)
deriving DecidableEq

/-- The value of an event's field. -/
inductive Datum where
  | text (s : String)
  | number (n : Nat)
deriving DecidableEq

namespace Event

/-- The level of an event; entering a scope has none. -/
def level? : Event → Option Level
  | entered .. => none
  | unclosedQuote .. => some .debug
  | tokenBeforeName .. => some .warn
  | trailingToken .. => some .warn
  | noFields .. => some .warn
  | braceAsValue .. => some .warn
  | setRead .. => some .debug
  | setEmitted .. => some .debug
  | rejected .. => some .debug
  | delivered .. => some .info
  | stepStarted .. => some .info
  | searchPathKept .. => some .warn

/-- The message of an event, or the name of the scope entered. -/
def message : Event → String
  | entered scope _ => scope.label
  | unclosedQuote _ => "unterminated quote closed at end of input"
  | tokenBeforeName _ => "ignoring token before set name"
  | trailingToken _ => "ignoring trailing token after last set"
  | noFields _ => "`|` declares no fields"
  | braceAsValue .. => "unquoted `\x7d` taken as a field value; the tag list stays open"
  | setRead .. => "parsed tag set"
  | setEmitted .. => "emitted tag set"
  | rejected error _ _ => error.message
  | delivered header source _ _ => "generated " ++ header ++ " and " ++ source
  | stepStarted step => "running " ++ step
  | searchPathKept reason => "not adding vcpkg to PATH: " ++ reason

/-- The named data of an event. -/
def fields : Event → List (String × Datum)
  | entered _ n => [("source_len", .number n)]
  | unclosedQuote offset => [("offset", .number offset)]
  | tokenBeforeName t => [("token", .text t.render), ("offset", .number t.span.start)]
  | trailingToken t => [("token", .text t.render), ("offset", .number t.span.start)]
  | noFields set => [("set", .text set)]
  | braceAsValue tag field offset =>
    [("tag", .text tag), ("field", .text field), ("offset", .number offset)]
  | setRead set tags fields => [("set", .text set), ("tags", .number tags), ("fields", .number fields)]
  | setEmitted set tags => [("set", .text set), ("tags", .number tags)]
  | rejected _ file p => [("file", .text file), ("line", .number p.line), ("column", .number p.column)]
  | delivered _ _ sets tags => [("sets", .number sets), ("tags", .number tags)]
  | stepStarted _ => []
  | searchPathKept _ => []

end Event
end TagTables
