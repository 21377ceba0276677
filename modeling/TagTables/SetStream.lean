/-
# Set streams

Tokens in, sets out. A token source is seen as its feed, the list of its
answers; an answer may be "nothing more" and still be followed by tokens.
Reading a block is a small machine: a `Phase` says what the block so far
holds and what it waits for, and `Phase.step` takes one token. The stream
hands out one set at a time, ends for good at the first error, and starts
afresh behind an answer without a token.

The grammar, with `name`, `field`, `tag` and `value` single tokens:

    file  = block*  stray*
    block = dropped* name ( "|" field* )? "{" ( tag value* )* "}"

where an entry has one value per field.

Key definitions: `Feed`, `Phase`, `Phase.step`, `SetStream.next`,
`SetStream.answers`, `parse`.
-/
import TagTables.Event
import TagTables.TagSet
import TagTables.Token.Lexer

namespace TagTables

/-- One answer of a token source, with what it reported on the way. -/
structure Pull where
  token? : Option Token
  events : List Event := []
deriving DecidableEq

/-- The answers of a token source, in order. Behind the last it has no more tokens. -/
abbrev Feed := List Pull

namespace Feed

/-- The feed of a source that answers with these, in order. -/
def ofAnswers (answers : List (Option Token)) : Feed := answers.map fun a => ⟨a, []⟩

/-- What the lexer answers with, and reports, for a lexeme. -/
def pullOf (x : Lexeme) : Pull :=
  ⟨some x.token, if x.closed then [] else [.unclosedQuote x.token.span.start]⟩

/-- The feed of a source text. -/
def ofSource (source : String) : Feed := (Lexer.ofSource source).lexemes.map pullOf

end Feed

/-- What stands before the tag list of a set. -/
structure Heading where
  name : Token
  fields : List String
deriving DecidableEq

/-- How far a block has been read. -/
inductive Phase where
  /-- Before the delimiter; the last token seen is the candidate for the name. -/
  | naming (name : Option Token)
  /-- Behind the bar, with the fields so far. -/
  | fields (name : Token) (fields : Array String)
  /-- In the tag list, between two entries. -/
  | tags (heading : Heading) (entries : Array TagEntry)
  /-- Inside an entry: its values so far, the field that comes next and those behind it. -/
  | values (heading : Heading) (entries : Array TagEntry) (tag : Token) (got : Array String)
      (span : Span) (field : String) (later : List String)

/-- What a token does to a phase. -/
inductive Progress where
  /-- The block goes on. -/
  | more (phase : Phase)
  /-- The block is complete. -/
  | set (set : TagSet)
  /-- The block is wrong. -/
  | fail (error : SyntaxError)

namespace Phase

/-- The set of a block whose closing brace covers `close`: its entries in the
order of their names, unless two of them have one name. -/
def close (heading : Heading) (entries : Array TagEntry) (close : Span) : Except SyntaxError TagSet :=
  let sorted := sortByName entries.toList
  match adjacentRepeat? sorted with
  | some (first, again) =>
    .error (.duplicateTag heading.name.text again.name again.span first.span)
  | none =>
    .ok ⟨heading.name.text, heading.fields, sorted.toArray, heading.name.span.hull close⟩

/-- Takes one token. -/
def step : Phase → Token → Progress × List Event
  | naming name, t =>
    match t.delimiter?, name with
    | some .opening, some n => (.more (.tags ⟨n, []⟩ #[]), [])
    | some .bar, some n => (.more (.fields n #[]), [])
    | some .opening, none => (.fail (.missingName t.span), [])
    | some .bar, none => (.fail (.missingName t.span), [])
    | _, some dropped => (.more (.naming (some t)), [.tokenBeforeName dropped])
    | _, none => (.more (.naming (some t)), [])
  | fields name fs, t =>
    if t.isDelimiter .opening then
      (.more (.tags ⟨name, fs.toList⟩ #[]), if fs.isEmpty then [.noFields name.text] else [])
    else (.more (.fields name (fs.push t.text)), [])
  | tags heading entries, t =>
    if t.isDelimiter .closing then
      match close heading entries t.span with
      | .ok set => (.set set, [.setRead set.name set.size set.fields.length])
      | .error e => (.fail e, [])
    else
      match heading.fields with
      | [] => (.more (.tags heading (entries.push ⟨t.text, [], t.span⟩)), [])
      | field :: later => (.more (.values heading entries t #[] t.span field later), [])
  | values heading entries tag got span field later, t =>
    let events :=
      if t.isDelimiter .closing then [.braceAsValue tag.text field t.span.start] else []
    let got := got.push t.text
    let span := span.hull t.span
    match later with
    | [] => (.more (.tags heading (entries.push ⟨tag.text, got.toList, span⟩)), events)
    | field :: later => (.more (.values heading entries tag got span field later), events)

/-- What the lack of a token does: between blocks the stream is at its end, inside one
it is an error at `lastEnd`, the end of the last token. -/
def finish (lastEnd : Nat) : Phase → Option SyntaxError × List Event
  | naming none => (none, [])
  | naming (some stray) => (none, [.trailingToken stray])
  | fields .. => (some (.unexpectedEnd .fieldOrBrace (.point lastEnd)), [])
  | tags .. => (some (.unexpectedEnd .tagOrBrace (.point lastEnd)), [])
  | values _ _ tag _ _ field _ =>
    (some (.unexpectedEnd (.value tag.text field) (.point lastEnd)), [])

end Phase

/-- A stream of sets over what is left of a feed. -/
structure SetStream where
  feed : Feed
  /-- Where the last token taken ends. -/
  lastEnd : Nat := 0
  /-- Whether an error has been handed out. -/
  failed : Bool := false

/-- What the stream hands out: a set, an error, or nothing; and what it reports. -/
structure Answer where
  result : Option (Except SyntaxError TagSet)
  events : Array Event

namespace SetStream

/-- The stream over the tokens of a source. -/
def ofSource (source : String) : SetStream := ⟨Feed.ofSource source, 0, false⟩

/-- The answer, and the stream behind it, when no token comes in a phase. -/
def stop (phase : Phase) (lastEnd : Nat) (log : Array Event) (rest : Feed) : Answer × SetStream :=
  let ended := phase.finish lastEnd
  (⟨ended.1.map .error, log ++ ended.2⟩, ⟨rest, lastEnd, ended.1.isSome⟩)

/-- Reads on from a phase until a set, an error or the lack of a token. -/
def readFrom (phase : Phase) (lastEnd : Nat) (log : Array Event) : Feed → Answer × SetStream
  | [] => stop phase lastEnd log []
  | pull :: rest =>
    match pull.token? with
    | none => stop phase lastEnd (log ++ pull.events) rest
    | some t =>
      let taken := phase.step t
      let log := log ++ pull.events ++ taken.2
      match taken.1 with
      | .more phase => readFrom phase t.span.stop log rest
      | .set set => (⟨some (.ok set), log⟩, ⟨rest, t.span.stop, false⟩)
      | .fail e => (⟨some (.error e), log⟩, ⟨rest, t.span.stop, true⟩)

/-- The next answer of the stream. -/
def next (s : SetStream) : Answer × SetStream :=
  if s.failed then (⟨none, #[]⟩, s) else readFrom (.naming none) s.lastEnd #[] s.feed

theorem stop_result_ne_ok (phase : Phase) (lastEnd : Nat) (log : Array Event) (rest : Feed)
    (set : TagSet) : (stop phase lastEnd log rest).1.result ≠ some (.ok set) := by
  unfold stop
  cases (phase.finish lastEnd).1 <;> simp

theorem readFrom_length : ∀ (feed : Feed) (phase : Phase) (lastEnd : Nat) (log : Array Event)
    (set : TagSet), (readFrom phase lastEnd log feed).1.result = some (.ok set) →
      (readFrom phase lastEnd log feed).2.feed.length < feed.length
  | [], phase, lastEnd, log, set, h => absurd h (stop_result_ne_ok phase lastEnd log [] set)
  | pull :: rest, phase, lastEnd, log, set, h => by
    unfold readFrom at h ⊢
    cases ht : pull.token? with
    | none => simp only [ht] at h; exact absurd h (stop_result_ne_ok _ _ _ _ set)
    | some t =>
      cases hp : (phase.step t).1 with
      | more next =>
        simp only [ht, hp] at h ⊢
        exact Nat.lt_succ_of_lt (readFrom_length rest _ _ _ set h)
      | set s => simp [hp]
      | fail e => simp [ht, hp] at h

/-- A set costs at least one answer of the token source. -/
theorem next_length {s : SetStream} {set : TagSet} (h : s.next.1.result = some (.ok set)) :
    s.next.2.feed.length < s.feed.length := by
  unfold next at h ⊢
  split at h
  · simp at h
  · next hf => simpa [hf] using readFrom_length s.feed _ _ _ set h

/-- Appends the answers of the stream, up to the first that is no set, to those before.
At most `sets` of them are sets. -/
def collect (done : Array Answer) : (sets : Nat) → SetStream → Array Answer
  | 0, s => done.push s.next.1
  | n + 1, s =>
    let answered := s.next
    match answered.1.result with
    | some (.ok _) => collect (done.push answered.1) n answered.2
    | _ => done.push answered.1

/-- The answers of the stream up to the first that is no set. There are no more sets than
answers of the token source. -/
def answers (s : SetStream) : List Answer := (collect #[] s.feed.length s).toList

theorem collect_toList : ∀ (n : Nat) (done : Array Answer) (s : SetStream),
    (collect done n s).toList = done.toList ++ (collect #[] n s).toList
  | 0, done, s => by simp [collect]
  | n + 1, done, s => by
    simp only [collect]
    split
    · rw [collect_toList n (done.push _), collect_toList n (#[].push _)]
      simp
    · simp

theorem collect_of_length_le : ∀ (n k : Nat) (s : SetStream), s.feed.length ≤ n → n ≤ k →
    collect #[] k s = collect #[] n s
  | 0, 0, _, _, _ => rfl
  | 0, k + 1, s, hs, _ => by
    simp only [collect]
    split
    · next h => exact absurd (next_length h) (by omega)
    · rfl
  | n + 1, 0, _, _, hk => absurd hk (by omega)
  | n + 1, k + 1, s, hs, hk => by
    simp only [collect]
    split
    · next h =>
      have hlt := next_length h
      apply Array.toList_inj.mp
      rw [collect_toList k, collect_toList n, collect_of_length_le n k s.next.2 (by omega) (by omega)]
    · rfl

/-- The answers of a stream are its next answer and, if that is a set, the answers behind it. -/
theorem answers_eq (s : SetStream) : s.answers = s.next.1 ::
    match s.next.1.result with
    | some (.ok _) => s.next.2.answers
    | _ => [] := by
  unfold answers
  cases hn : s.feed.length with
  | zero =>
    simp only [collect]
    split
    · next h => exact absurd (next_length h) (by omega)
    · simp
  | succ n =>
    simp only [collect]
    split
    · next h =>
      have hlt := next_length h
      rw [collect_toList, collect_of_length_le s.next.2.feed.length n s.next.2 (Nat.le_refl _) (by omega)]
      simp
    · simp

/-- The sets of a list of answers, or the error among them, and all that was reported. -/
def gather (sets : Array TagSet) (log : Array Event) :
    List Answer → Except SyntaxError (List TagSet) × Array Event
  | [] => (.ok sets.toList, log)
  | a :: rest =>
    match a.result with
    | some (.ok set) => gather (sets.push set) (log ++ a.events) rest
    | some (.error e) => (.error e, log ++ a.events)
    | none => (.ok sets.toList, log ++ a.events)

end SetStream

/-- The tokens of a source, with what reading them reports. -/
def lexLogged (source : String) : List Token × List Event :=
  let feed := Feed.ofSource source
  (lex source, .entered .lex source.utf8ByteSize :: feed.flatMap (·.events))

/-- The sets of a source, with what reading them reports. -/
def parseLogged (source : String) : Except SyntaxError (List TagSet) × Array Event :=
  SetStream.gather #[] #[.entered .parse source.utf8ByteSize] (SetStream.ofSource source).answers

/-- The sets of a source, in order, or the first error in it. -/
def parse (source : String) : Except SyntaxError (List TagSet) := (parseLogged source).1

end TagTables
