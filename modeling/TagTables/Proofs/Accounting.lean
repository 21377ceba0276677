/-
# Every token is used or reported

The stream drops tokens between two sets and behind the last one, and takes a
closing brace in the place of a value as the value; it reports both, but not
at once: a token is dropped only when the next candidate for the name, or the
end, comes. What has been reported so far is still determined by the part
of the block that has been read (`Reading.report`), and each token adds what
the stream reports on taking it (`step_report`). So the reports on a block
are read off the block (`Block.report`), those behind the last block off the
stray tokens, and all of them off the file that the tokens spell out
(`report_of_file`). What the lexer reports in between is left out.

Key definitions: `Grammar.Block.used`, `Grammar.Block.uses`,
`Grammar.Reading.report`, `Grammar.File.report`.
Key theorems: `Grammar.Reading.step_report`, `Grammar.readFrom_report`,
`Grammar.report_of_file`, `Grammar.tokens_accounted`.
-/
import Mathlib
import TagTables.Proofs.Verdicts

namespace TagTables
namespace Grammar

/-! ### Used and unused tokens -/

/-- A token in the place of a value, with the tag and the field whose value it is. -/
structure Use where
  tag : Token
  field : String
  value : Token

/-- The values behind a tag, each for the field whose turn it is. -/
def usesOf (fields : List String) (tag : Token) (values : List Token) : List Use :=
  List.zipWith (fun field value => ⟨tag, field, value⟩) fields values

/-- The values of the entries of a tag list. -/
def usesIn (head : Head) (items : List (Item head.fields.length)) : List Use :=
  items.flatMap fun i => usesOf head.fields i.tag.val i.values

namespace Block

/-- The tokens in front of the name. -/
def dropped (b : Block) : List Token := b.head.title.dropped.map (·.val)

/-- The tokens that the set is made of: the name, the bar and the fields if there is a bar, the
opening brace, each tag with its values, and the closing brace. -/
def used (b : Block) : List Token :=
  b.name :: (b.head.fieldList.elim [] FieldList.tokens ++
    b.head.opening.val :: (b.items.flatMap Item.tokens ++ [b.closing.val]))

/-- The number of bars that introduce fields. -/
def bars (b : Block) : Nat := if b.head.fieldList.isSome then 1 else 0

/-- The tokens used as values. -/
def uses (b : Block) : List Use := usesIn b.head b.items

theorem tokens_eq (b : Block) : b.tokens = b.dropped ++ b.used := by
  simp [tokens, dropped, used, Head.tokens, Title.tokens, name]

theorem length_items (b : Block) :
    (b.items.flatMap Item.tokens).length = b.items.length * (1 + b.head.fields.length) := by
  induction b.items with
  | nil => simp
  | cons i items ih =>
    have hitem : i.tokens.length = 1 + b.head.fields.length := by
      rw [Item.tokens, List.length_cons, i.full, Nat.add_comm]
    rw [List.flatMap_cons, List.length_append, ih, hitem, List.length_cons, Nat.succ_mul, Nat.add_comm]

theorem length_used (b : Block) : b.used.length =
    3 + b.bars + b.head.fields.length + b.items.length * (1 + b.head.fields.length) := by
  have hitems := b.length_items
  have hfields : (b.head.fieldList.elim [] FieldList.tokens).length = b.bars + b.head.fields.length := by
    unfold bars Head.fields
    cases b.head.fieldList with
    | none => rfl
    | some l => simp [FieldList.tokens, Nat.add_comm]
  simp only [used, List.length_cons, List.length_append, List.length_nil, hfields, hitems]
  omega

theorem Denotes.size_eq {b : Block} {s : TagSet} (h : b.Denotes s) : s.size = b.items.length := by
  have hlength := h.declared.length_eq
  rwa [entries, List.length_map] at hlength

end Block

/-- The tokens that no set is made of. -/
def File.unused (f : File) : List Token := f.blocks.flatMap Block.dropped ++ f.strays.map (·.val)

/-- The tokens used as values. -/
def File.uses (f : File) : List Use := f.blocks.flatMap Block.uses

/-! ### What a part of a block makes the stream report -/

def Title.report (t : Title) : List Event := t.dropped.map fun d => .tokenBeforeName d.val

/-- A bar without fields is reported when the tag list opens. -/
def Head.report (h : Head) : List Event :=
  h.title.report ++
    match h.fieldList with
    | some ⟨_, []⟩ => [.noFields h.title.name.val.text]
    | _ => []

/-- A closing brace that is taken as a value is reported. -/
def Use.report (u : Use) : List Event :=
  if u.value.Spells .closing then [.braceAsValue u.tag.text u.field u.value.span.start] else []

def Unclosed.report : Unclosed → List Event
  | fields title _ => title.report
  | tags head items => head.report ++ (usesIn head items).flatMap Use.report
  | values head items tag got _ =>
    head.report ++ (usesIn head items ++ usesOf head.fields tag.val got).flatMap Use.report

/-- Before the delimiter, every token but the last has been reported. -/
def Reading.report : Reading → List Event
  | naming seen => seen.dropLast.map fun d => .tokenBeforeName d.val
  | inside b => b.report

/-- The reports on a block, to the set that it is closed with. -/
def Block.report (b : Block) : List Event :=
  b.head.report ++ b.uses.flatMap Use.report ++
    match b.close with
    | .ok set => [.setRead set.name set.size set.fields.length]
    | .error _ => []

def Move.report : Move → List Event
  | more r => r.report
  | block b => b.report
  | nameless _ => []

theorem Title.report_of_seen {seen : List Plain} {title : Title} (h : Title.ofSeen? seen = some title) :
    title.report = (Reading.naming seen).report := by
  cases seen with
  | nil => cases h
  | cons t rest =>
    obtain rfl := Option.some.inj h
    rfl

theorem usesIn_concat (head : Head) (items : List (Item head.fields.length)) (i : Item head.fields.length) :
    usesIn head (items ++ [i]) = usesIn head items ++ usesOf head.fields i.tag.val i.values := by
  simp [usesIn]

/-- One more value is for the field whose turn it is. -/
theorem usesOf_concat {fields : List String} (tag : Token) {got : List Token} (t : Token)
    (short : got.length < fields.length) :
    usesOf fields tag (got ++ [t]) =
      usesOf fields tag got ++ [⟨tag, fields.get ⟨got.length, short⟩, t⟩] := by
  induction got generalizing fields with
  | nil =>
    cases fields with
    | nil => cases short
    | cons field fields => simp [usesOf]
  | cons v got ih =>
    cases fields with
    | nil => cases short
    | cons field fields =>
      have htail := ih (Nat.lt_of_succ_lt_succ short)
      simp only [usesOf, List.cons_append, List.zipWith_cons_cons] at htail ⊢
      rw [htail]
      rfl

theorem Unclosed.report_entry (head : Head) (items : List (Item head.fields.length)) (tag : Tag)
    (got : List Token) (h : got.length ≤ head.fields.length) :
    (Unclosed.entry head items tag got h).report =
      head.report ++ (usesIn head items ++ usesOf head.fields tag.val got).flatMap Use.report := by
  unfold entry
  split
  · rw [report, usesIn_concat]
  · rfl

/-! ### Taking a token -/

theorem naming_events_of_mark {t : Token} (name : Option Token) (h : t.Spells .opening ∨ t.Spells .bar) :
    ((Phase.naming name).step t).2 = [] := by
  rcases h with ho | hb
  · have hd := Token.delimiter?_eq_some_iff.mpr ho
    cases name <;> simp [Phase.step, hd]
  · have hd := Token.delimiter?_eq_some_iff.mpr hb
    cases name <;> simp [Phase.step, hd]

theorem naming_events_of_plain {t : Token} (name : Option Token) (ho : ¬ t.Spells .opening)
    (hb : ¬ t.Spells .bar) : ((Phase.naming name).step t).2 = name.toList.map .tokenBeforeName := by
  rw [← Token.delimiter?_eq_some_iff] at ho hb
  rcases hd : t.delimiter? with _ | _ | _ | _
  · cases name <;> simp [Phase.step, hd]
  · exact absurd hd ho
  · cases name <;> simp [Phase.step, hd]
  · exact absurd hd hb

namespace Reading

/-- All tokens seen are those reported before and the last. -/
theorem report_naming_append (seen : List Plain) :
    (naming seen).report ++ ((seen.getLast?.map (·.val)).toList.map .tokenBeforeName) =
      seen.map fun d => Event.tokenBeforeName d.val := by
  rcases List.eq_nil_or_concat seen with rfl | ⟨init, last, rfl⟩
  · rfl
  · simp [report]

theorem step_report_naming (seen : List Plain) (t : Token) :
    ((naming seen).step t).report = (naming seen).report ++ ((naming seen).phase.step t).2 := by
  by_cases ho : t.Spells .opening
  · rw [phase, naming_events_of_mark _ (.inl ho), List.append_nil, step, dif_pos ho]
    cases htitle : Title.ofSeen? seen with
    | none =>
      obtain rfl := Title.ofSeen?_eq_none_iff.mp htitle
      rfl
    | some title =>
      simp only [Move.report, report, Unclosed.report, Head.report, usesIn, List.flatMap_nil, List.append_nil]
      exact Title.report_of_seen htitle
  · by_cases hb : t.Spells .bar
    · rw [phase, naming_events_of_mark _ (.inr hb), List.append_nil, step, dif_neg ho, dif_pos hb]
      cases htitle : Title.ofSeen? seen with
      | none =>
        obtain rfl := Title.ofSeen?_eq_none_iff.mp htitle
        rfl
      | some title => exact Title.report_of_seen htitle
    · rw [phase, naming_events_of_plain _ ho hb, report_naming_append, step, dif_neg ho, dif_neg hb,
        Move.report, report, List.dropLast_concat]

theorem step_report_fields (title : Title) (list : FieldList) (t : Token) :
    ((inside (.fields title list)).step t).report =
      (inside (.fields title list)).report ++ ((inside (.fields title list)).phase.step t).2 := by
  rw [phase, Unclosed.phase, Phase.step, step]
  by_cases ho : t.Spells .opening
  · rw [dif_pos ho, if_pos (Token.isDelimiter_iff.mpr ho)]
    obtain ⟨bar, _ | ⟨field, fields⟩⟩ := list
    · simp [Move.report, report, Unclosed.report, Head.report, usesIn]
    · simp [Move.report, report, Unclosed.report, Head.report, usesIn]
  · rw [dif_neg ho, if_neg (fun h => ho (Token.isDelimiter_iff.mp h))]
    simp [Move.report, report, Unclosed.report]

theorem step_report_tags (head : Head) (items : List (Item head.fields.length)) (t : Token) :
    ((inside (.tags head items)).step t).report =
      (inside (.tags head items)).report ++ ((inside (.tags head items)).phase.step t).2 := by
  rw [phase, Unclosed.phase, Phase.step, step]
  by_cases hc : t.Spells .closing
  · rw [dif_pos hc, if_pos (Token.isDelimiter_iff.mpr hc), Move.report, Block.report, Block.close]
    simp only [Block.entries, Block.uses, entriesOf, report, Unclosed.report]
    cases Phase.close head.heading (items.map Item.entry).toArray t.span <;> rfl
  · rw [dif_neg hc, if_neg (fun h => hc (Token.isDelimiter_iff.mp h)), Move.report, report,
      Unclosed.report_entry]
    have hnone : usesOf head.fields t [] = [] := by simp [usesOf]
    rw [hnone, List.append_nil, report, Unclosed.report]
    split <;> rw [List.append_nil]

theorem step_report_values (head : Head) (items : List (Item head.fields.length)) (tag : Tag)
    (got : List Token) (short : got.length < head.fields.length) (t : Token) :
    ((inside (.values head items tag got short)).step t).report =
      (inside (.values head items tag got short)).report ++
        ((inside (.values head items tag got short)).phase.step t).2 := by
  have hevents : ((inside (.values head items tag got short)).phase.step t).2 =
      Use.report ⟨tag.val, head.fields.get ⟨got.length, short⟩, t⟩ := by
    rw [phase, Unclosed.phase, Use.report]
    simp only [← Token.isDelimiter_iff]
    cases head.fields.drop (got.length + 1) <;> rfl
  rw [hevents, step, Move.report, report, Unclosed.report_entry, usesOf_concat _ _ short]
  simp [report, Unclosed.report]

/-- Each token adds what the stream reports on taking it. -/
theorem step_report (r : Reading) (t : Token) : (r.step t).report = r.report ++ (r.phase.step t).2 := by
  rcases r with seen | ⟨title, list⟩ | ⟨head, items⟩ | ⟨head, items, tag, got, short⟩
  · exact step_report_naming seen t
  · exact step_report_fields title list t
  · exact step_report_tags head items t
  · exact step_report_values head items tag got short t

end Reading
end Grammar

/-! ### Reading a block -/

/-- Whether an event comes from the lexer, in the middle of those of the stream. -/
def Event.ofLexer : Event → Bool
  | unclosedQuote _ => true
  | _ => false

/-- What the stream itself reports in a log. -/
def ownReports (log : Array Event) : List Event := log.toList.filter (!·.ofLexer)

/-- A token source that reports only what a lexer does. -/
def Feed.Quiet (feed : Feed) : Prop := ∀ pull ∈ feed, ∀ e ∈ pull.events, e.ofLexer = true

theorem Feed.quiet_ofSource (source : String) : (Feed.ofSource source).Quiet := by
  intro pull hpull e he
  obtain ⟨x, -, rfl⟩ := List.mem_map.mp hpull
  cases hclosed : x.closed with
  | true => simp [pullOf, hclosed] at he
  | false =>
    simp only [pullOf, hclosed, Bool.false_eq_true, if_false, List.mem_singleton] at he
    rw [he]
    rfl

theorem Phase.step_own (phase : Phase) (t : Token) : ∀ e ∈ (phase.step t).2, e.ofLexer = false := by
  intro e he
  cases phase with
  | naming name =>
    by_cases hmark : t.Spells .opening ∨ t.Spells .bar
    · rw [Grammar.naming_events_of_mark name hmark] at he
      cases he
    · rw [not_or] at hmark
      rw [Grammar.naming_events_of_plain name hmark.1 hmark.2] at he
      obtain ⟨d, -, rfl⟩ := List.mem_map.mp he
      rfl
  | fields name fs =>
    rw [step] at he
    split at he
    · split at he <;> simp at he
      rw [he]
      rfl
    · simp at he
  | tags heading entries =>
    rw [step] at he
    split at he
    · split at he <;> simp at he
      rw [he]
      rfl
    · split at he <;> simp at he
  | values heading entries tag got span field later =>
    have hbrace : e ∈ if t.isDelimiter .closing then [.braceAsValue tag.text field t.span.start] else [] := by
      cases later <;> exact he
    split at hbrace <;> simp at hbrace
    rw [hbrace]
    rfl

theorem Phase.finish_own (phase : Phase) (stop : Nat) : ∀ e ∈ (phase.finish stop).2, e.ofLexer = false := by
  intro e he
  unfold finish at he
  split at he <;> simp at he
  rw [he]
  rfl

section OwnReports

variable (log : Array Event) {events : List Event}

theorem ownReports_lexer (h : ∀ e ∈ events, e.ofLexer = true) :
    ownReports (log ++ events) = ownReports log := by
  have hnone : events.filter (!·.ofLexer) = [] := List.filter_eq_nil_iff.mpr fun e he => by simp [h e he]
  simp [ownReports, hnone]

theorem ownReports_own (h : ∀ e ∈ events, e.ofLexer = false) :
    ownReports (log ++ events) = ownReports log ++ events := by
  have hall : events.filter (!·.ofLexer) = events := List.filter_eq_self.mpr fun e he => by simp [h e he]
  simp [ownReports, hall]

end OwnReports

namespace Grammar

/-- The reports until the tokens run out, or the first block ends, or a delimiter comes before
any name. -/
def Cut.report : Cut → List Event
  | ended r => r.report ++ (r.phase.finish 0).2
  | block b _ => b.report
  | nameless _ _ => []

theorem finish_events (phase : Phase) (m n : Nat) : (phase.finish m).2 = (phase.finish n).2 := by
  rcases phase with (_ | _) | _ | _ | _ <;> rfl

theorem ownReports_stop (r : Reading) (lastEnd : Nat) {log : Array Event} (rest : Feed)
    (hlog : ownReports log = r.report) :
    ownReports (SetStream.stop r.phase lastEnd log rest).1.events = (Cut.ended r).report := by
  have hevents : (SetStream.stop r.phase lastEnd log rest).1.events = log ++ (r.phase.finish lastEnd).2 := rfl
  rw [hevents, ownReports_own log (r.phase.finish_own lastEnd), hlog, Cut.report, finish_events _ lastEnd 0]

/-- The stream's reports follow the reading to the end of the block. -/
theorem readFrom_report {feed : Feed} {ts : List Token} {behind : Feed} (h : feed.Gives ts behind)
    (hquiet : feed.Quiet) : ∀ (r : Reading) (lastEnd : Nat) (log : Array Event), ownReports log = r.report →
      ownReports (SetStream.readFrom r.phase lastEnd log feed).1.events = (r.run ts).report := by
  induction h with
  | ended => exact fun r lastEnd log hlog => ownReports_stop r lastEnd [] hlog
  | @pause pull rest ht =>
    intro r lastEnd log hlog
    have hlexer := ownReports_lexer log (hquiet pull List.mem_cons_self)
    rw [SetStream.readFrom, Reading.run]
    simp only [ht]
    exact ownReports_stop r lastEnd rest (hlexer.trans hlog)
  | @token pull t rest ts behind ht hrest ih =>
    intro r lastEnd log hlog
    have hlexer := ownReports_lexer log (hquiet pull List.mem_cons_self)
    have htaken : ownReports (log ++ pull.events ++ (r.phase.step t).2) = (r.step t).report := by
      rw [ownReports_own _ (r.phase.step_own t), hlexer, hlog, r.step_report]
    have hrestQuiet : Feed.Quiet rest := fun p hp => hquiet p (List.mem_cons_of_mem pull hp)
    have hstep := r.step_phase t
    rw [SetStream.readFrom, Reading.run]
    simp only [ht]
    cases hr : r.step t with
    | more r' =>
      rw [hr] at hstep htaken
      simp only [hstep, Move.progress]
      exact ih hrestQuiet r' _ _ htaken
    | nameless mark =>
      rw [hr] at hstep htaken
      simp only [hstep, Move.progress]
      exact htaken
    | block b =>
      rw [hr] at hstep htaken
      cases hclose : b.close with
      | ok set =>
        simp only [hstep, Move.progress, hclose]
        exact htaken
      | error e =>
        simp only [hstep, Move.progress, hclose]
        exact htaken

theorem readFrom_feed_subset : ∀ (feed : Feed) (phase : Phase) (lastEnd : Nat) (log : Array Event),
    (SetStream.readFrom phase lastEnd log feed).2.feed ⊆ feed
  | [], phase, lastEnd, log => by simp [SetStream.readFrom, SetStream.stop]
  | pull :: rest, phase, lastEnd, log => by
    rw [SetStream.readFrom]
    cases ht : pull.token? with
    | none => simp [SetStream.stop]
    | some t =>
      cases hp : (phase.step t).1 with
      | more next =>
        simp only [hp]
        exact List.subset_cons_of_subset pull (readFrom_feed_subset rest _ _ _)
      | set s => simp [hp]
      | fail e => simp [hp]

theorem next_report {s : SetStream} {ts : List Token} {behind : Feed} (hf : s.failed = false)
    (h : s.feed.Gives ts behind) (hquiet : s.feed.Quiet) :
    ownReports s.next.1.events = (cut ts).report ∧ s.next.2.feed.Quiet := by
  have hnext : s.next = SetStream.readFrom (Reading.naming []).phase s.lastEnd #[] s.feed := by
    simp only [SetStream.next, hf, Bool.false_eq_true, if_false]
    rfl
  rw [hnext]
  refine ⟨readFrom_report h hquiet (.naming []) s.lastEnd #[] rfl, fun pull hpull => ?_⟩
  exact hquiet pull (readFrom_feed_subset s.feed _ _ _ hpull)

/-! ### Reading a file -/

/-- The reports on the tokens behind the last block. -/
def straysReport (strays : List Plain) : List Event :=
  (Reading.naming strays).report ++ ((strays.getLast?.map (·.val)).toList.map .trailingToken)

/-- All reports on a file. -/
def File.report (f : File) : List Event := f.blocks.flatMap Block.report ++ straysReport f.strays

theorem report_cut_strays (strays : List Plain) :
    (Cut.ended (.naming strays)).report = straysReport strays := by
  rw [Cut.report, straysReport, Reading.phase]
  cases strays.getLast? <;> rfl

theorem ownReports_arrays (log more : Array Event) : ownReports (log ++ more) = ownReports log ++ ownReports more := by
  simp [ownReports]

/-- A stream over the tokens of a file reports what the file tells. -/
theorem gather_report {strays : List Plain} {behind : Feed} : ∀ {blocks : List Block} {ts : List Token}
    {s : SetStream}, s.failed = false → s.feed.Gives ts behind → s.feed.Quiet →
      Splits ts blocks (.strays strays) → ∀ (sets : Array TagSet) (log : Array Event),
        ownReports (SetStream.gather sets log s.answers).2 =
          ownReports log ++ (blocks.flatMap Block.report ++ straysReport strays)
  | [], ts, s, hf, hgives, hquiet, hsplit, sets, log => by
    have hanswer := next_answered hf hgives
    have hreport := (next_report hf hgives hquiet).1
    rw [hsplit.cut_nil] at hanswer hreport
    have hnone : s.next.1.result = none := Ending.yields_of_answered hanswer
    rw [SetStream.answers_eq, SetStream.gather, hnone, ownReports_arrays, hreport, Ending.cut,
      report_cut_strays]
    rfl
  | b :: blocks, ts, s, hf, hgives, hquiet, hsplit, sets, log => by
    have hanswer := next_answered hf hgives
    obtain ⟨hreport, hquiet'⟩ := next_report hf hgives hquiet
    rw [hsplit.cut_cons] at hanswer hreport
    obtain ⟨set, hclose, -⟩ := Block.close_of_distinct (hsplit.distinct b List.mem_cons_self)
    obtain ⟨hresult, hrest, -, hgoes⟩ := hanswer
    rw [hclose] at hresult hgoes
    -- the stream behind the set reads the rest of the split
    have ih := gather_report hgoes hrest hquiet' hsplit.tail (sets.push set) (log ++ s.next.1.events)
    rw [SetStream.answers_eq, SetStream.gather, hresult]
    simp only [ih, ownReports_arrays, hreport, Cut.report, List.flatMap_cons, List.append_assoc]

/-- What reading a source reports, if its tokens are those of a file. -/
theorem report_of_file {source : String} {file : File} (hfile : file.tokens = lex source) :
    ownReports (parseLogged source).2 = .entered .parse source.utf8ByteSize :: file.report := by
  have hgives : (SetStream.ofSource source).feed.Gives file.tokens [] := hfile ▸ Feed.gives_ofSource source
  have hreport := gather_report rfl hgives (Feed.quiet_ofSource source) file.splits #[]
    #[.entered .parse source.utf8ByteSize]
  exact hreport

end Grammar

/-! ### Warnings -/

namespace Event

/-- Whether the event is a warning with this message. -/
def warns (text : String) (e : Event) : Bool := e.level? == some .warn && e.message == text

/-- Whether the event warns that a token is ignored. -/
def ignoresToken (e : Event) : Bool :=
  e.warns "ignoring token before set name" || e.warns "ignoring trailing token after last set"

/-- Whether the event warns that a closing brace is taken as a value. -/
def takesBrace (e : Event) : Bool :=
  e.warns "unquoted `\x7d` taken as a field value; the tag list stays open"

theorem ofLexer_of_warns {text : String} {e : Event} (h : e.warns text = true) : e.ofLexer = false := by
  cases e with
  | unclosedQuote offset => simp [warns, level?] at h
  | _ => rfl

theorem ofLexer_of_ignoresToken {e : Event} (h : e.ignoresToken = true) : e.ofLexer = false := by
  rw [ignoresToken, Bool.or_eq_true] at h
  exact h.elim ofLexer_of_warns ofLexer_of_warns

theorem ofLexer_of_takesBrace {e : Event} (h : e.takesBrace = true) : e.ofLexer = false := ofLexer_of_warns h

end Event

theorem filter_ownReports {p : Event → Bool} (hp : ∀ {e}, p e = true → e.ofLexer = false) (log : Array Event) :
    (ownReports log).filter p = log.toList.filter p := by
  rw [ownReports, List.filter_filter]
  refine List.filter_congr fun e _ => ?_
  cases h : p e with
  | false => rfl
  | true => simp [hp h]

namespace Grammar

theorem exists_of_mem_title_report {title : Title} {e : Event} (h : e ∈ title.report) :
    ∃ t, e = .tokenBeforeName t := by
  obtain ⟨d, -, rfl⟩ := List.mem_map.mp h
  exact ⟨d.val, rfl⟩

theorem exists_of_mem_uses_report {uses : List Use} {e : Event} (h : e ∈ uses.flatMap Use.report) :
    ∃ tag field offset, e = .braceAsValue tag field offset := by
  obtain ⟨u, -, he⟩ := List.mem_flatMap.mp h
  rw [Use.report] at he
  split at he
  · exact ⟨_, _, _, List.mem_singleton.mp he⟩
  · cases he

/-- Of the reports on a block, only those on dropped tokens and on values matter here. -/
theorem Block.filter_report {p : Event → Bool} (hfields : ∀ set, p (.noFields set) = false)
    (hread : ∀ set tags fields, p (.setRead set tags fields) = false) (b : Block) :
    b.report.filter p = b.head.title.report.filter p ++ (b.uses.flatMap Use.report).filter p := by
  have hhead : b.head.report.filter p = b.head.title.report.filter p := by
    rw [Head.report, List.filter_append]
    split <;> simp [hfields]
  have hclose : ∀ close : Except SyntaxError TagSet, (match close with
      | .ok set => [Event.setRead set.name set.size set.fields.length]
      | .error _ => []).filter p = [] := by
    intro close
    cases close <;> simp [hread]
  rw [report, List.filter_append, List.filter_append, hhead, hclose, List.append_nil]

theorem Block.filter_ignoresToken (b : Block) :
    b.report.filter Event.ignoresToken = b.head.title.report := by
  have hdropped : b.head.title.report.filter Event.ignoresToken = b.head.title.report := by
    refine List.filter_eq_self.mpr fun e he => ?_
    obtain ⟨t, rfl⟩ := exists_of_mem_title_report he
    rfl
  have huses : (b.uses.flatMap Use.report).filter Event.ignoresToken = [] := by
    refine List.filter_eq_nil_iff.mpr fun e he => ?_
    obtain ⟨tag, field, offset, rfl⟩ := exists_of_mem_uses_report he
    exact ne_true_of_eq_false rfl
  rw [b.filter_report (fun _ => rfl) (fun _ _ _ => rfl), hdropped, huses, List.append_nil]

theorem Block.filter_takesBrace (b : Block) :
    b.report.filter Event.takesBrace = b.uses.flatMap Use.report := by
  have hdropped : b.head.title.report.filter Event.takesBrace = [] := by
    refine List.filter_eq_nil_iff.mpr fun e he => ?_
    obtain ⟨t, rfl⟩ := exists_of_mem_title_report he
    exact ne_true_of_eq_false rfl
  have huses : (b.uses.flatMap Use.report).filter Event.takesBrace = b.uses.flatMap Use.report := by
    refine List.filter_eq_self.mpr fun e he => ?_
    obtain ⟨tag, field, offset, rfl⟩ := exists_of_mem_uses_report he
    rfl
  rw [b.filter_report (fun _ => rfl) (fun _ _ _ => rfl), hdropped, huses, List.nil_append]

/-- The named data of a warning that a token is ignored. -/
def ignoredFields (t : Token) : List (String × Datum) :=
  [("token", .text t.render), ("offset", .number t.span.start)]

/-- The named data of a warning that a closing brace is taken as a value. -/
def braceFields (u : Use) : List (String × Datum) :=
  [("tag", .text u.tag.text), ("field", .text u.field), ("offset", .number u.value.span.start)]

theorem Title.fields_report (t : Title) :
    t.report.map Event.fields = (t.dropped.map (·.val)).map ignoredFields := by
  simp [report, ignoredFields, Event.fields, Function.comp_def]

/-- Every stray token is reported, and nothing else behind the last block. -/
theorem straysReport_ignored (strays : List Plain) :
    ((straysReport strays).filter Event.ignoresToken).map Event.fields =
      (strays.map (·.val)).map ignoredFields := by
  rcases List.eq_nil_or_concat strays with rfl | ⟨init, last, rfl⟩
  · rfl
  · have hall : (straysReport (init ++ [last])).filter Event.ignoresToken = straysReport (init ++ [last]) := by
      refine List.filter_eq_self.mpr fun e he => ?_
      simp only [straysReport, Reading.report, List.dropLast_concat, List.getLast?_concat, Option.map_some,
        Option.toList_some, List.map_cons, List.map_nil, List.mem_append, List.mem_map,
        List.mem_singleton] at he
      rcases he with ⟨d, -, rfl⟩ | rfl <;> rfl
    rw [List.concat_eq_append, hall]
    simp [straysReport, Reading.report, ignoredFields, Event.fields, Function.comp_def]

theorem straysReport_takesBrace (strays : List Plain) :
    (straysReport strays).filter Event.takesBrace = [] := by
  refine List.filter_eq_nil_iff.mpr fun e he => ?_
  rw [straysReport, List.mem_append, Reading.report] at he
  simp only [List.mem_map] at he
  rcases he with ⟨d, -, rfl⟩ | ⟨d, -, rfl⟩ <;> exact ne_true_of_eq_false rfl

/-- The unused tokens of a file are those that are reported as ignored. -/
theorem File.report_ignored (f : File) :
    (f.report.filter Event.ignoresToken).map Event.fields = f.unused.map ignoredFields := by
  have hblocks : ((f.blocks.flatMap Block.report).filter Event.ignoresToken).map Event.fields =
      (f.blocks.flatMap Block.dropped).map ignoredFields := by
    simp only [List.filter_flatMap, Block.filter_ignoresToken, List.map_flatMap, Title.fields_report,
      Block.dropped]
  rw [report, unused, List.filter_append, List.map_append, hblocks, straysReport_ignored, List.map_append]

theorem fields_uses_report (uses : List Use) :
    (uses.flatMap Use.report).map Event.fields =
      (uses.filter fun u => u.value.Spells .closing).map braceFields := by
  induction uses with
  | nil => rfl
  | cons u uses ih =>
    rw [List.flatMap_cons, List.map_append, ih, Use.report]
    by_cases h : u.value.Spells .closing
    · simp [h, braceFields, Event.fields]
    · simp [h]

/-- The closing braces that are used as values are those that are reported as such. -/
theorem File.report_braces (f : File) :
    (f.report.filter Event.takesBrace).map Event.fields =
      (f.uses.filter fun u => u.value.Spells .closing).map braceFields := by
  have hblocks : (f.blocks.flatMap Block.report).filter Event.takesBrace = f.uses.flatMap Use.report := by
    simp only [List.filter_flatMap, Block.filter_takesBrace, uses, List.flatMap_assoc]
  rw [report, List.filter_append, hblocks, straysReport_takesBrace, List.append_nil, fields_uses_report]

/-! ### No token is lost -/

theorem usesOf_values {fields : List String} (tag : Token) {values : List Token}
    (h : values.length = fields.length) : (usesOf fields tag values).map (·.value) = values := by
  induction values generalizing fields with
  | nil => simp [usesOf]
  | cons v values ih =>
    cases fields with
    | nil => cases h
    | cons field fields => simpa [usesOf] using ih (Nat.succ.inj h)

theorem Block.uses_values (b : Block) : b.uses.map (·.value) = b.items.flatMap (·.values) := by
  rw [uses, usesIn]
  induction b.items with
  | nil => rfl
  | cons i items ih =>
    rw [List.flatMap_cons, List.map_append, ih, usesOf_values i.tag.val i.full, List.flatMap_cons]

theorem Block.Denotes.length_used {b : Block} {s : TagSet} (h : b.Denotes s) :
    b.bars ≤ 1 ∧ (b.bars = 0 → s.fields = []) ∧
      b.used.length = 3 + b.bars + s.fields.length + s.size * (1 + s.fields.length) := by
  refine ⟨?_, fun hnone => ?_, ?_⟩
  · unfold bars
    split <;> omega
  · rw [h.fields, Head.fields]
    unfold bars at hnone
    cases hl : b.head.fieldList with
    | none => rfl
    | some l => simp [hl] at hnone
  · rw [b.length_used, h.size_eq, h.fields]

theorem File.tokens_eq (f : File) :
    f.tokens = f.blocks.flatMap (fun b => b.dropped ++ b.used) ++ f.strays.map (·.val) := by
  have htokens : Block.tokens = fun b => b.dropped ++ b.used := funext Block.tokens_eq
  rw [tokens, htokens]

/-- A file of the grammar accounts for all tokens of a source that is read as these sets. -/
structure Accounts (source : String) (sets : List TagSet) (file : File) : Prop where
  /-- No other file spells out the tokens. -/
  unique : ∀ file' : File, file'.tokens = lex source ↔ file' = file
  /-- The tokens are those dropped before each block and those used in it, and the strays. -/
  tokens : lex source = file.blocks.flatMap (fun b => b.dropped ++ b.used) ++ file.strays.map (·.val)
  /-- A set is made of its name, a bar if it has one, its fields, an opening brace, a tag and a
  value per field for each entry, and a closing brace. -/
  used : List.Forall₂ (fun b s => b.Denotes s ∧ b.bars ≤ 1 ∧ (b.bars = 0 → s.fields = []) ∧
    b.used.length = 3 + b.bars + s.fields.length + s.size * (1 + s.fields.length) ∧
    b.uses.map (·.value) = b.items.flatMap (·.values)) file.blocks sets
  /-- The warnings on ignored tokens name the tokens that are not used, one each and in order. -/
  ignored : ((parseLogged source).2.toList.filter Event.ignoresToken).map Event.fields =
    file.unused.map ignoredFields
  /-- The warnings on closing braces taken as values name, one each and in order, the values that
  are closing braces. -/
  braces : ((parseLogged source).2.toList.filter Event.takesBrace).map Event.fields =
    (file.uses.filter fun u => u.value.Spells .closing).map braceFields

/-- **No token is silently lost.** Each token of an accepted source is used by one of its sets or
reported as ignored, and each closing brace that is used as a value is reported as such. -/
theorem tokens_accounted (source : String) (sets : List TagSet) (h : parse source = .ok sets) :
    ∃ file : File, Accounts source sets file := by
  rcases exists_file_or_rejection (lex source) with ⟨file, hfile⟩ | ⟨r, hr⟩
  · obtain ⟨sets', hdenotes, hparse⟩ := parse_of_file hfile
    obtain rfl := Except.ok.inj (h.symm.trans hparse)
    have hown := report_of_file hfile
    refine ⟨file, fun file' => ?_, ?_, ?_, ?_, ?_⟩
    · rw [← hfile]
      exact File.tokens_injective.eq_iff
    · rw [← hfile, file.tokens_eq]
    · exact hdenotes.imp fun b s hs =>
        ⟨hs, hs.length_used.1, hs.length_used.2.1, hs.length_used.2.2, b.uses_values⟩
    · rw [← filter_ownReports Event.ofLexer_of_ignoresToken, hown]
      exact file.report_ignored
    · rw [← filter_ownReports Event.ofLexer_of_takesBrace, hown]
      exact file.report_braces
  · obtain ⟨-, e, -, -, -, herror⟩ := parse_of_rejection hr
    cases h.symm.trans herror

/-- In this source a token is dropped before the name, two are left behind the set, and a closing
brace is a value. -/
theorem accounted_with_brace_value :
    ∃ sets file, parse "x A | f \x7b t \x7d u v \x7d y z" = .ok sets ∧
      Accounts "x A | f \x7b t \x7d u v \x7d y z" sets file ∧
      file.unused.map ignoredFields =
        [[("token", .text "x"), ("offset", .number 0)], [("token", .text "y"), ("offset", .number 20)],
          [("token", .text "z"), ("offset", .number 22)]] ∧
      (file.uses.filter fun u => u.value.Spells .closing).map braceFields =
        [[("tag", .text "t"), ("field", .text "f"), ("offset", .number 12)]] := by
  obtain ⟨sets, hparse⟩ : ∃ sets, parse "x A | f \x7b t \x7d u v \x7d y z" = .ok sets := ⟨_, by cbv⟩
  have hlog : (parseLogged "x A | f \x7b t \x7d u v \x7d y z").2 =
      #[.entered .parse 23, .tokenBeforeName ⟨.word, "x", ⟨0, 1⟩⟩, .braceAsValue "t" "f" 12, .setRead "A" 2 1,
        .tokenBeforeName ⟨.word, "y", ⟨20, 21⟩⟩, .trailingToken ⟨.word, "z", ⟨22, 23⟩⟩] := by cbv
  obtain ⟨file, hfile⟩ := tokens_accounted _ sets hparse
  refine ⟨sets, file, hparse, hfile, ?_, ?_⟩
  · rw [← hfile.ignored, hlog]
    rfl
  · rw [← hfile.braces, hlog]
    rfl

end Grammar
end TagTables
