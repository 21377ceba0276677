/-
# Invocations

What a command line asks for. Arguments are read from left to right. An
option may have its value behind an equals sign or as the next argument; the
last option or positional argument seen stays pending until the next one
comes, and is checked then: it must have a value, must not have been given
before, and the value must do. Behind two dashes everything is positional.
The first argument may choose a subcommand, which has options of its own.

Key definitions: `Argument.ofText`, `Reading.take`, `Invocation.ofArgs`.
-/
import TagTables.Build
import TagTables.Emit.Style

namespace TagTables

/-- Input, outputs and names of a generation run. -/
structure GenOptions where
  input : Path := ⟨"tags.txt"⟩
  header : Path := ⟨"tags.h"⟩
  source : Path := ⟨"tags.cpp"⟩
  nameSpace : String := ({} : Emit.Style).nameSpace
  tableType : String := ({} : Emit.Style).tableType
  tableSuffix : String := ({} : Emit.Style).tableSuffix
  tableInclude : String := ({} : Emit.Style).tableInclude
deriving DecidableEq

/-- The style of a generation run. The header is included by its file name. -/
def GenOptions.style (o : GenOptions) : Emit.Style where
  nameSpace := o.nameSpace
  tableType := o.tableType
  tableSuffix := o.tableSuffix
  tableInclude := o.tableInclude
  headerInclude := o.header.fileName?.getD o.header.text

/-- A subcommand. -/
inductive Subcommand where
  | gen (options : GenOptions)
  | build (plan : Build)
deriving DecidableEq

/-- What a command line asks for. -/
structure Invocation where
  subcommand : Option Subcommand := none
  options : GenOptions := {}
  /-- A file whose tokens are to be listed. -/
  listTokens : Option Path := none
  /-- A file whose sets are to be listed. -/
  listSets : Option Path := none
deriving DecidableEq

/-- Why a command line is not carried out. -/
inductive Refusal where
  | help
  | version
  | invalidValue
  | conflict
  | unknownArgument
  | tooManyValues
  | invalidSubcommand
  | missingArgument
deriving DecidableEq

/-- The exit code: asking for help or the version is no failure. -/
def Refusal.exitCode : Refusal → Nat
  | help => 0
  | version => 0
  | _ => 2

/-- The answer to a question for the version. -/
def versionLine : String := "tagc 0.1.0\n"

/-- What an argument can give a value to. -/
inductive Slot where
  | input
  | header
  | source
  | nameSpace
  | tableType
  | tableSuffix
  | tableInclude
  | lex
  | parse
  | compiler
  | platform
  | root
deriving DecidableEq

/-- Whether a value will do. A path must not be empty, and a compiler must be known. -/
def Slot.accepts (slot : Slot) (value : String) : Bool :=
  match slot with
  | input | header | source | lex | parse | root => value != ""
  | compiler => (Compiler.ofName? value).isSome
  | nameSpace | tableType | tableSuffix | tableInclude | platform => true

/-- The three sets of options. -/
inductive Mode where
  | top
  | gen
  | build
deriving DecidableEq

namespace Mode

/-- The options of a generation run. -/
def genOption? (name : String) : Option Slot :=
  match name with
  | "header" => some .header
  | "source" => some .source
  | "namespace" => some .nameSpace
  | "table-type" => some .tableType
  | "table-suffix" => some .tableSuffix
  | "table-include" => some .tableInclude
  | _ => none

/-- The option with a name. -/
def option? (mode : Mode) (name : String) : Option Slot :=
  match mode with
  | .gen => genOption? name
  | .top =>
    match name with
    | "lex" => some .lex
    | "parse" => some .parse
    | _ => genOption? name
  | .build =>
    match name with
    | "compiler" => some .compiler
    | "platform" => some .platform
    | "root" => some .root
    | _ => none

/-- The question an option asks, by its long name. -/
def question? (mode : Mode) (name : String) : Option Refusal :=
  match name with
  | "help" => some .help
  | "version" => if mode = .top then some .version else none
  | _ => none

/-- The question an option asks, by its letter. -/
def letterQuestion? (mode : Mode) (letter : Char) : Option Refusal :=
  if letter = 'h' then some .help
  else if letter = 'V' && mode = .top then some .version
  else none

end Mode

/-- The forms of an argument. -/
inductive Argument where
  /-- Two dashes. -/
  | terminator
  /-- Two dashes, a name, and possibly an equals sign and a value. -/
  | long (name : String) (value : Option String)
  /-- A dash and a letter. -/
  | short (letter : Char)
  /-- Anything else, a single dash included. -/
  | plain

namespace Argument

/-- The name and the value of a long option. -/
def cut (cs : List Char) : Argument :=
  let name := cs.takeWhile (· != '=')
  match cs.dropWhile (· != '=') with
  | [] => .long (String.ofList name) none
  | _ :: value => .long (String.ofList name) (some (String.ofList value))

/-- The form of an argument. -/
def ofText (text : String) : Argument :=
  match text.toList with
  | ['-', '-'] => .terminator
  | '-' :: '-' :: rest => cut rest
  | '-' :: letter :: _ => .short letter
  | _ => .plain

end Argument

/-- How far a command line has been read. -/
structure Reading where
  /-- The values given so far. -/
  given : List (Slot × String) := []
  /-- The last option or positional argument, with its value if it has one. -/
  pending : Option (Slot × Option String) := none
  /-- Whether the next argument can be the value of the pending option. -/
  awaiting : Bool := false
  /-- Whether two dashes have been seen. -/
  terminated : Bool := false

namespace Reading

/-- The value given for a slot. -/
def get? (r : Reading) (slot : Slot) : Option String := r.given.lookup slot

/-- Checks the pending argument and takes its value. -/
def resolve (r : Reading) : Except Refusal Reading :=
  match r.pending with
  | none => .ok r
  | some (_, none) => .error .invalidValue
  | some (slot, some value) =>
    if (r.get? slot).isSome then .error .conflict
    else if slot.accepts value then .ok { r with given := r.given ++ [(slot, value)], pending := none }
    else .error .invalidValue

/-- Whether the positional argument has been seen. -/
def hasInput (r : Reading) : Bool :=
  (r.get? .input).isSome || (r.pending.map (·.1)) == some .input

/-- Takes a positional argument. -/
def takePositional (mode : Mode) (r : Reading) (text : String) : Except Refusal Reading :=
  if mode = .build then .error .unknownArgument
  else if r.hasInput then .error (if mode = .top then .conflict else .unknownArgument)
  else do
    let r ← r.resolve
    pure { r with pending := some (.input, some text) }

/-- Takes a long option. -/
def takeLong (mode : Mode) (r : Reading) (name : String) (value : Option String) :
    Except Refusal Reading :=
  match mode.question? name with
  | some question =>
    if value.isSome then .error .tooManyValues
    else do
      let _ ← r.resolve
      .error question
  | none =>
    match mode.option? name with
    | none => .error .unknownArgument
    | some slot => do
      let r ← r.resolve
      match value with
      | some v => resolve { r with pending := some (slot, some v) }
      | none => pure { r with pending := some (slot, none), awaiting := true }

/-- Takes a letter option. -/
def takeShort (mode : Mode) (r : Reading) (letter : Char) : Except Refusal Reading :=
  match mode.letterQuestion? letter with
  | some question => do
    let _ ← r.resolve
    .error question
  | none => .error .unknownArgument

/-- Gives the option that waits for a value its value. -/
def takeValue (r : Reading) (text : String) : Reading :=
  { r with pending := r.pending.map fun p => (p.1, some text), awaiting := false }

/-- Takes one argument. -/
def take (mode : Mode) (r : Reading) (text : String) : Except Refusal Reading :=
  if r.terminated then takePositional mode r text
  else
    match Argument.ofText text with
    | .plain => if r.awaiting then .ok (r.takeValue text) else takePositional mode r text
    | .terminator => .ok { r with terminated := true, awaiting := false }
    | .long name value => takeLong mode { r with awaiting := false } name value
    | .short letter => takeShort mode { r with awaiting := false } letter

/-- Reads all arguments of a mode. -/
def ofArgs (mode : Mode) (args : List String) : Except Refusal Reading := do
  let r ← args.foldlM (take mode) {}
  r.resolve

/-- The values given for a generation run, and the usual ones for the rest. -/
def genOptions (r : Reading) : GenOptions :=
  let usual : GenOptions := {}
  { input := (r.get? .input).elim usual.input Path.mk
    header := (r.get? .header).elim usual.header Path.mk
    source := (r.get? .source).elim usual.source Path.mk
    nameSpace := (r.get? .nameSpace).getD usual.nameSpace
    tableType := (r.get? .tableType).getD usual.tableType
    tableSuffix := (r.get? .tableSuffix).getD usual.tableSuffix
    tableInclude := (r.get? .tableInclude).getD usual.tableInclude }

end Reading

namespace Invocation

/-- Reads the arguments of a generation run. -/
def readGen (args : List String) : Except Refusal Invocation := do
  let r ← Reading.ofArgs .gen args
  pure { subcommand := some (.gen r.genOptions) }

/-- Reads the arguments of a build. -/
def readBuild (args : List String) : Except Refusal Invocation := do
  let r ← Reading.ofArgs .build args
  match (r.get? .compiler).bind Compiler.ofName? with
  | none => .error .missingArgument
  | some compiler =>
    let root := (r.get? .root).elim ⟨"."⟩ Path.mk
    let platform := (r.get? .platform).getD usualPlatform
    pure { subcommand := some (.build ⟨root, platform, compiler⟩) }

/-- Reads arguments without a subcommand. -/
def readTop (args : List String) : Except Refusal Invocation := do
  let r ← Reading.ofArgs .top args
  if (r.get? .lex).isSome && (r.get? .parse).isSome then .error .conflict
  else
    pure { options := r.genOptions
           listTokens := (r.get? .lex).map Path.mk
           listSets := (r.get? .parse).map Path.mk }

/-- Reads the arguments of a question for help: nothing, or one subcommand. -/
def readHelp : List String → Refusal
  | [] => .help
  | [topic] => if topic = "gen" || topic = "build" || topic = "help" then .help else .invalidSubcommand
  | _ => .invalidSubcommand

/-- What the arguments behind the program's name ask for. -/
def ofArgs : List String → Except Refusal Invocation
  | "gen" :: rest => readGen rest
  | "build" :: rest => readBuild rest
  | "help" :: rest => .error (readHelp rest)
  | args => readTop args

end Invocation
end TagTables
