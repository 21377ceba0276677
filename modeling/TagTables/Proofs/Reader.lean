/-
# The set stream reads the grammar

The phase of a stream keeps the texts of the tokens it has taken, not the
tokens; a `Reading` of the grammar keeps the tokens. Forgetting them
(`Reading.phase`) commutes with taking a token (`step_phase`), so the stream
follows the reading from block to block (`readFrom_run`). What it hands out
for a list of tokens is then read off the split of the list: the sets of
the good blocks, and what the ending gives (`results_of_split`).

Key definitions: `Grammar.Reading.phase`, `Feed.Gives`, `Grammar.Ending.Yields`.
Key theorems: `Grammar.Reading.step_phase`, `Grammar.readFrom_run`,
`Grammar.results_of_split`.
-/
import Mathlib.Data.List.Forall2
import TagTables.Proofs.Answers
import TagTables.Proofs.Splitting

namespace TagTables
namespace Grammar

/-! ### The phase of a reading -/

/-- The heading that a phase keeps of a head. -/
def Head.heading (h : Head) : Heading := ⟨h.title.name.val, h.fields⟩

/-- The entries that a phase keeps of the items so far. -/
def entriesOf {width : Nat} (items : List (Item width)) : Array TagEntry := (items.map Item.entry).toArray

/-- The span of a tag and the values behind it. -/
def spanFrom (tag : Tag) (values : List Token) : Span :=
  values.foldl (fun s v => s.hull v.span) tag.val.span

/-- The phase of an unclosed block. -/
def Unclosed.phase : Unclosed → Phase
  | fields title list => .fields title.name.val (list.fields.map (·.val.text)).toArray
  | tags head items => .tags head.heading (entriesOf items)
  | values head items tag got short =>
    .values head.heading (entriesOf items) tag.val (got.map (·.text)).toArray (spanFrom tag got)
      (head.fields.get ⟨got.length, short⟩) (head.fields.drop (got.length + 1))

/-- The phase of a reading. -/
def Reading.phase : Reading → Phase
  | naming seen => .naming (seen.getLast?.map (·.val))
  | inside b => b.phase

/-- What a block comes to when it is closed. -/
def Block.close (b : Block) : Except SyntaxError TagSet :=
  Phase.close b.head.heading b.entries.toArray b.closing.val.span

/-- The progress that a move stands for. -/
def Move.progress : Move → Progress
  | more r => .more r.phase
  | block b =>
    match b.close with
    | .ok set => .set set
    | .error e => .fail e
  | nameless mark => .fail (.missingName mark.val.span)

theorem entriesOf_concat {width : Nat} (items : List (Item width)) (i : Item width) :
    entriesOf (items ++ [i]) = (entriesOf items).push i.entry := by
  simp [entriesOf]

/-- An entry waits for the fields behind the values it has, and is complete if there are none. -/
theorem Unclosed.phase_entry (head : Head) (items : List (Item head.fields.length)) (tag : Tag)
    (got : List Token) (h : got.length ≤ head.fields.length) :
    (Unclosed.entry head items tag got h).phase =
      match head.fields.drop got.length with
      | [] => .tags head.heading
        ((entriesOf items).push ⟨tag.val.text, got.map (·.text), spanFrom tag got⟩)
      | field :: later =>
        .values head.heading (entriesOf items) tag.val (got.map (·.text)).toArray (spanFrom tag got) field
          later := by
  unfold entry
  split
  · next full =>
    rw [full, List.drop_length, phase, entriesOf_concat]
    rfl
  · next hne =>
    have hlt : got.length < head.fields.length := Nat.lt_of_le_of_ne h hne
    rw [List.drop_eq_getElem_cons hlt]
    rfl

/-! ### Taking a token -/

section Step

variable {t : Token} (name : Option Token)

theorem step_naming_opening (ho : t.Spells .opening) :
    ((Phase.naming name).step t).1 =
      match name with
      | none => .fail (.missingName t.span)
      | some n => .more (.tags ⟨n, []⟩ #[]) := by
  have hd := Token.delimiter?_eq_some_iff.mpr ho
  cases name <;> simp [Phase.step, hd]

theorem step_naming_bar (hb : t.Spells .bar) :
    ((Phase.naming name).step t).1 =
      match name with
      | none => .fail (.missingName t.span)
      | some n => .more (.fields n #[]) := by
  have hd := Token.delimiter?_eq_some_iff.mpr hb
  cases name <;> simp [Phase.step, hd]

theorem step_naming_plain (ho : ¬ t.Spells .opening) (hb : ¬ t.Spells .bar) :
    ((Phase.naming name).step t).1 = .more (.naming (some t)) := by
  rw [← Token.delimiter?_eq_some_iff] at ho hb
  rcases hd : t.delimiter? with _ | _ | _ | _
  · cases name <;> simp [Phase.step, hd]
  · exact absurd hd ho
  · cases name <;> simp [Phase.step, hd]
  · exact absurd hd hb

end Step

namespace Reading

theorem getLast?_eq_ofSeen? (seen : List Plain) :
    seen.getLast? = (Title.ofSeen? seen).map (·.name) := by
  cases seen with
  | nil => rfl
  | cons t rest => exact List.getLast?_eq_some_getLast _

theorem step_phase_naming (seen : List Plain) (t : Token) :
    ((naming seen).phase.step t).1 = ((naming seen).step t).progress := by
  by_cases ho : t.Spells .opening
  · rw [phase, step_naming_opening _ ho, step, dif_pos ho, getLast?_eq_ofSeen?]
    cases Title.ofSeen? seen <;> rfl
  · by_cases hb : t.Spells .bar
    · rw [phase, step_naming_bar _ hb, step, dif_neg ho, dif_pos hb, getLast?_eq_ofSeen?]
      cases Title.ofSeen? seen <;> rfl
    · rw [phase, step_naming_plain _ ho hb, step, dif_neg ho, dif_neg hb, Move.progress, phase,
        List.getLast?_concat]
      rfl

theorem step_phase_fields (title : Title) (list : FieldList) (t : Token) :
    ((inside (.fields title list)).phase.step t).1 = ((inside (.fields title list)).step t).progress := by
  rw [phase, Unclosed.phase, Phase.step, step]
  by_cases ho : t.Spells .opening
  · rw [dif_pos ho, if_pos (Token.isDelimiter_iff.mpr ho)]
    rfl
  · rw [dif_neg ho, if_neg (fun h => ho (Token.isDelimiter_iff.mp h))]
    simp [Move.progress, phase, Unclosed.phase]

theorem step_phase_tags (head : Head) (items : List (Item head.fields.length)) (t : Token) :
    ((inside (.tags head items)).phase.step t).1 = ((inside (.tags head items)).step t).progress := by
  rw [phase, Unclosed.phase, Phase.step, step]
  by_cases hc : t.Spells .closing
  · rw [dif_pos hc, if_pos (Token.isDelimiter_iff.mpr hc), Move.progress, Block.close]
    simp only [Block.entries, entriesOf]
    cases Phase.close head.heading (items.map Item.entry).toArray t.span <;> rfl
  · rw [dif_neg hc, if_neg (fun h => hc (Token.isDelimiter_iff.mp h)), Move.progress, phase,
      Unclosed.phase_entry, List.length_nil, List.drop_zero]
    generalize entriesOf items = entries
    simp only [Head.heading]
    cases head.fields <;> rfl

theorem step_phase_values (head : Head) (items : List (Item head.fields.length)) (tag : Tag)
    (got : List Token) (short : got.length < head.fields.length) (t : Token) :
    ((inside (.values head items tag got short)).phase.step t).1 =
      ((inside (.values head items tag got short)).step t).progress := by
  rw [phase, Unclosed.phase, step, Move.progress, phase, Unclosed.phase_entry, List.length_append,
    List.length_singleton]
  generalize entriesOf items = entries
  have hspan : spanFrom tag (got ++ [t]) = (spanFrom tag got).hull t.span := by simp [spanFrom]
  rw [hspan]
  cases head.fields.drop (got.length + 1) <;> simp [Phase.step]

/-- Taking a token commutes with forgetting tokens. -/
theorem step_phase (r : Reading) (t : Token) : (r.phase.step t).1 = (r.step t).progress := by
  rcases r with seen | ⟨title, list⟩ | ⟨head, items⟩ | ⟨head, items, tag, got, short⟩
  · exact step_phase_naming seen t
  · exact step_phase_fields title list t
  · exact step_phase_tags head items t
  · exact step_phase_values head items tag got short t

end Reading
end Grammar

/-! ### Reading a block -/

/-- The feed answers with these tokens, in order, then once with nothing, and goes on with `behind`. -/
inductive Feed.Gives : Feed → List Token → Feed → Prop where
  | ended : Gives [] [] []
  | pause {pull : Pull} {rest : Feed} : pull.token? = none → Gives (pull :: rest) [] rest
  | token {pull : Pull} {t : Token} {rest : Feed} {ts : List Token} {behind : Feed} :
    pull.token? = some t → Gives rest ts behind → Gives (pull :: rest) (t :: ts) behind

theorem Feed.exists_gives : ∀ feed : Feed, ∃ ts behind, feed.Gives ts behind
  | [] => ⟨[], [], .ended⟩
  | pull :: rest => by
    cases ht : pull.token? with
    | none => exact ⟨[], rest, .pause ht⟩
    | some t =>
      obtain ⟨ts, behind, h⟩ := exists_gives rest
      exact ⟨t :: ts, behind, .token ht h⟩

theorem Feed.gives_of_map : ∀ {feed : Feed} {ts : List Token}, feed.map (·.token?) = ts.map some →
    feed.Gives ts []
  | feed, [], h => by
    obtain rfl : feed = [] := List.map_eq_nil_iff.mp h
    exact .ended
  | feed, t :: ts, h => by
    obtain ⟨pull, rest, rfl, ht, hrest⟩ := List.map_eq_cons_iff.mp h
    exact .token ht (gives_of_map hrest)

theorem Feed.gives_ofAnswers (ts : List Token) : (Feed.ofAnswers (ts.map some)).Gives ts [] :=
  gives_of_map (by simp [ofAnswers])

theorem Feed.gives_ofSource (source : String) : (Feed.ofSource source).Gives (lex source) [] :=
  gives_of_map (by simp [ofSource, lex, pullOf])

/-- Where the last of these tokens ends; `start` if there is none. -/
def lastStop (start : Nat) (ts : List Token) : Nat := (ts.getLast?.map (·.span.stop)).getD start

theorem lastStop_cons (start : Nat) (t : Token) (ts : List Token) :
    lastStop start (t :: ts) = lastStop t.span.stop ts := by
  unfold lastStop
  rw [List.getLast?_cons]
  cases ts.getLast? <;> rfl

theorem lastStop_append (start : Nat) (ts us : List Token) :
    lastStop start (ts ++ us) = lastStop (lastStop start ts) us := by
  unfold lastStop
  rw [List.getLast?_append]
  cases us.getLast? <;> rfl

namespace Grammar

theorem Block.lastStop_tokens (b : Block) (start : Nat) : lastStop start b.tokens = b.closing.val.span.stop := by
  rw [Block.tokens, ← List.append_assoc, lastStop_append]
  rfl

/-- What the stream hands out, and where it goes on, when the tokens it is given are cut. -/
def Cut.Answered (stop : Nat) (behind : Feed) (out : Answer × SetStream) : Cut → Prop
  | ended r =>
    out.1.result = (r.phase.finish stop).1.map .error ∧
      out.2 = ⟨behind, stop, (r.phase.finish stop).1.isSome⟩
  | block b rest =>
    out.1.result = some b.close ∧ out.2.feed.Gives rest behind ∧
      out.2.lastEnd = b.closing.val.span.stop ∧ out.2.failed = !b.close.isOk
  | nameless mark _ => out.1.result = some (.error (.missingName mark.val.span)) ∧ out.2.failed = true

theorem Reading.closing_of_step {r : Reading} {t : Token} {b : Block} (h : r.step t = .block b) :
    b.closing.val = t := by
  have htokens := r.tokens_step t
  rw [h, Move.tokens, Block.tokens, ← List.append_assoc] at htokens
  exact List.singleton_inj.mp (List.append_inj' htokens rfl).2

/-- The stream follows the reading to the end of the block. -/
theorem readFrom_run {feed : Feed} {ts : List Token} {behind : Feed} (h : feed.Gives ts behind) :
    ∀ (r : Reading) (lastEnd : Nat) (log : Array Event),
      (r.run ts).Answered (lastStop lastEnd ts) behind (SetStream.readFrom r.phase lastEnd log feed) := by
  induction h with
  | ended => exact fun r lastEnd log => ⟨rfl, rfl⟩
  | pause ht =>
    intro r lastEnd log
    rw [SetStream.readFrom, Reading.run]
    simp only [ht]
    exact ⟨rfl, rfl⟩
  | @token pull t rest ts behind ht hrest ih =>
    intro r lastEnd log
    have hstep := r.step_phase t
    rw [SetStream.readFrom, Reading.run, lastStop_cons]
    simp only [ht]
    cases hr : r.step t with
    | more r' =>
      rw [hr, Move.progress] at hstep
      simp only [hstep]
      exact ih r' _ _
    | nameless mark =>
      rw [hr, Move.progress] at hstep
      simp only [hstep]
      exact ⟨rfl, rfl⟩
    | block b =>
      rw [hr, Move.progress] at hstep
      cases hclose : b.close with
      | ok set =>
        rw [hclose] at hstep
        simp only [hstep, Cut.Answered, hclose, Reading.closing_of_step hr]
        exact ⟨trivial, hrest, trivial, rfl⟩
      | error e =>
        rw [hclose] at hstep
        simp only [hstep, Cut.Answered, hclose, Reading.closing_of_step hr]
        exact ⟨trivial, hrest, trivial, rfl⟩

/-! ### Closing a block -/

theorem Block.distinct_iff_nodup (b : Block) : b.Distinct ↔ (namesOf b.entries).Nodup := by
  rw [b.namesOf_entries]
  rfl

theorem Block.close_of_distinct {b : Block} (h : b.Distinct) : ∃ set, b.close = .ok set ∧ b.Denotes set := by
  have hnodup := b.distinct_iff_nodup.mp h
  exact ⟨_, Phase.close_eq_ok_iff.mpr ⟨hnodup, rfl⟩, rfl, rfl, sortByName_perm b.entries,
    ascending_sortByName hnodup, rfl⟩

theorem Block.close_of_repeats {b : Block} (h : ¬ b.Distinct) :
    ∃ first again, FirstRepeat b.entries first again ∧
      b.close = .error (.duplicateTag b.name.text again.name again.span first.span) := by
  cases hclose : b.close with
  | ok set => exact absurd (b.distinct_iff_nodup.mpr (Phase.close_eq_ok_iff.mp hclose).1) h
  | error e =>
    obtain ⟨first, again, hfirst, rfl⟩ := Phase.close_eq_error_iff.mp hclose
    exact ⟨first, again, hfirst, rfl⟩

theorem Block.denotes_of_close {b : Block} {set : TagSet} (h : b.close = .ok set) :
    b.Distinct ∧ b.Denotes set := by
  by_cases hd : b.Distinct
  · obtain ⟨set', hclose, hdenotes⟩ := close_of_distinct hd
    obtain rfl := Except.ok.inj (h.symm.trans hclose)
    exact ⟨hd, hdenotes⟩
  · obtain ⟨first, again, -, hclose⟩ := close_of_repeats hd
    cases h.symm.trans hclose

/-! ### Reading a list of tokens -/

/-- What an ending gives in a file whose last token ends at `stop`. -/
def Ending.Yields (stop : Nat) : Ending → Option (Except SyntaxError TagSet) → Prop
  | strays _, result => result = none
  | offence o, result => ∃ e, o.Causes stop e ∧ result = some (.error e)

theorem Unclosed.finish_phase (b : Unclosed) (stop : Nat) :
    (b.phase.finish stop).1 = some (.unexpectedEnd b.awaited (.point stop)) := by
  cases b <;> rfl

theorem Ending.yields_of_answered {e : Ending} {stop : Nat} {behind : Feed} {out : Answer × SetStream}
    (h : e.cut.Answered stop behind out) : e.Yields stop out.1.result := by
  rcases e with l | ⟨mark, rest⟩ | b | ⟨b, hb, rest⟩
  · have hfinish : ((Reading.naming l).phase.finish stop).1 = none := by
      rw [Reading.phase]
      cases l.getLast? <;> rfl
    rw [cut, Cut.Answered, hfinish] at h
    exact h.1
  · exact ⟨_, rfl, h.1⟩
  · rw [cut, Cut.Answered, Reading.phase, b.finish_phase] at h
    exact ⟨_, rfl, h.1⟩
  · obtain ⟨first, again, hrepeat, hclose⟩ := Block.close_of_repeats hb
    rw [cut, Cut.Answered, hclose] at h
    exact ⟨_, ⟨first, again, hrepeat, rfl⟩, h.1⟩

/-- The next answer of a stream goes by the cut of its tokens. -/
theorem next_answered {s : SetStream} {ts : List Token} {behind : Feed} (hf : s.failed = false)
    (h : s.feed.Gives ts behind) : (cut ts).Answered (lastStop s.lastEnd ts) behind s.next := by
  have hnext : s.next = SetStream.readFrom (Reading.naming []).phase s.lastEnd #[] s.feed := by
    simp only [SetStream.next, hf, Bool.false_eq_true, if_false]
    rfl
  rw [hnext]
  exact readFrom_run h (.naming []) s.lastEnd #[]

/-- The results of a stream that hands out these sets and then `last`. -/
def handedOut (sets : List TagSet) (last : Option (Except SyntaxError TagSet)) :
    List (Option (Except SyntaxError TagSet)) :=
  sets.map (fun set => some (.ok set)) ++ [last]

theorem handedOut_inj {sets sets' : List TagSet} {last last' : Option (Except SyntaxError TagSet)}
    (h : handedOut sets last = handedOut sets' last') : sets = sets' ∧ last = last' := by
  obtain ⟨hsets, hlast⟩ := List.append_inj' h rfl
  refine ⟨List.map_injective_iff.mpr (fun a b hab => ?_) hsets, List.singleton_inj.mp hlast⟩
  simpa using hab

theorem mem_handedOut {sets : List TagSet} {last r : Option (Except SyntaxError TagSet)} :
    r ∈ handedOut sets last ↔ (∃ set ∈ sets, r = some (.ok set)) ∨ r = last := by
  simp [handedOut, eq_comm]

/-- The stream hands out the sets of the good blocks, and then what the ending gives. -/
theorem results_of_split {e : Ending} {behind : Feed} : ∀ {blocks : List Block} {ts : List Token}
    {s : SetStream}, s.failed = false → s.feed.Gives ts behind → Splits ts blocks e →
      ∃ sets last, List.Forall₂ Block.Denotes blocks sets ∧ e.Yields (lastStop s.lastEnd ts) last ∧
        s.results = handedOut sets last
  | [], ts, s, hf, hgives, hsplit => by
    have hanswer := next_answered hf hgives
    rw [hsplit.cut_nil] at hanswer
    have hyields := Ending.yields_of_answered hanswer
    refine ⟨[], s.next.1.result, .nil, hyields, ?_⟩
    rw [SetStream.results_eq]
    cases e with
    | strays l => rw [show s.next.1.result = none from hyields]; rfl
    | offence o =>
      obtain ⟨err, -, herr⟩ := hyields
      rw [herr]
      rfl
  | b :: blocks, ts, s, hf, hgives, hsplit => by
    have hanswer := next_answered hf hgives
    rw [hsplit.cut_cons] at hanswer
    obtain ⟨set, hclose, hdenotes⟩ := Block.close_of_distinct (hsplit.distinct b List.mem_cons_self)
    obtain ⟨hresult, hrest, hend, hgoes⟩ := hanswer
    rw [hclose] at hresult hgoes
    -- the stream behind the set reads the rest of the split
    obtain ⟨sets, last, hsets, hyields, hresults⟩ := results_of_split hgoes hrest hsplit.tail
    refine ⟨set :: sets, last, .cons hdenotes hsets, ?_, ?_⟩
    · rw [hend, ← b.lastStop_tokens s.lastEnd, ← lastStop_append] at hyields
      rw [hsplit.tokens, List.flatMap_cons, List.append_assoc]
      exact hyields
    · rw [SetStream.results_eq, hresult]
      simp only [hresults]
      rfl

end Grammar
end TagTables
