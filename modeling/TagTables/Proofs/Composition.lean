/-
# Files compose

A source that ends with its last set leaves nothing open: no quote, no name,
no block. A second source that is put behind it, after a blank, is read as
it would be by itself, at its new place: all spans move by the bytes in
front (`lex_append`, `parse_append`). So the sets of both follow each other, an
error of the second is the error of both, and the sections of the first in
each artifact are followed by those of the second, as they are.

Behind the blocks of the first source the stream is in step with a fresh
one over the second (`SetStream.results_alike`); spans correspond if one is the
other moved.

Key definitions: `Span.shift`, `TagSet.shift`, `SyntaxError.shift`,
`EndsWithSet`.
Key theorems: `Lexer.Reads.append`, `lex_append`, `Grammar.results_of_blocks`,
`Grammar.exists_blocks_of_endsWithSet`, `parse_append`, `files_compose`.
-/
import Mathlib
import TagTables.Proofs.Indifference

namespace TagTables

/-! ### Moving to another place -/

/-- The span `n` bytes further on. -/
def Span.shift (n : Nat) (s : Span) : Span := ⟨s.start + n, s.stop + n⟩

def Token.shift (n : Nat) (t : Token) : Token := { t with span := t.span.shift n }

def Lexeme.shift (n : Nat) (x : Lexeme) : Lexeme := { x with token := x.token.shift n }

def TagEntry.shift (n : Nat) (e : TagEntry) : TagEntry := { e with span := e.span.shift n }

/-- The set `n` bytes further on, with all its entries. -/
def TagSet.shift (n : Nat) (s : TagSet) : TagSet :=
  { s with entries := s.entries.map (TagEntry.shift n), span := s.span.shift n }

/-- The error `n` bytes further on, with all spans that it points at. -/
def SyntaxError.shift (n : Nat) : SyntaxError → SyntaxError
  | unexpectedEnd awaited s => .unexpectedEnd awaited (s.shift n)
  | missingName s => .missingName (s.shift n)
  | duplicateTag set tag s first => .duplicateTag set tag (s.shift n) (first.shift n)

def Verdict.shift (n : Nat) : Verdict → Verdict
  | .ok sets => .ok (sets.map (TagSet.shift n))
  | .error e => .error (e.shift n)

theorem eq_map_of_forall₂ {α : Type} {R : α → α → Prop} {f : α → α} {l l' : List α}
    (h : List.Forall₂ R l l') (hf : ∀ a a', R a a' → a' = f a) : l' = l.map f := by
  induction h with
  | nil => rfl
  | cons ha _ ih => rw [List.map_cons, hf _ _ ha, ih]

section Moved

variable {n : Nat}

/-- What is merged at a new place is what was merged, moved. -/
theorem shift_merges (n : Nat) : Span.Merges fun s s' => s' = s.shift n := by
  rintro a _ b _ rfl rfl
  have hstart : min (a.start + n) (b.start + n) = min a.start b.start + n := by omega
  have hstop : max (a.stop + n) (b.stop + n) = max a.stop b.stop + n := by omega
  simp only [Span.hull, Span.shift, hstart, hstop]

theorem Token.alike_shift (n : Nat) (t : Token) : t.Alike (fun s s' => s' = s.shift n) (t.shift n) :=
  ⟨⟨rfl, rfl⟩, rfl⟩

theorem TagEntry.Alike.eq_shift {e e' : TagEntry} (h : e.Alike (fun s s' => s' = s.shift n) e') :
    e' = e.shift n := by
  obtain ⟨name', values', span'⟩ := e'
  obtain ⟨rfl, rfl, rfl⟩ : e.name = name' ∧ e.values = values' ∧ span' = e.span.shift n :=
    ⟨h.name, h.values, h.span⟩
  rfl

theorem TagSet.Alike.eq_shift {s s' : TagSet} (h : s.Alike (fun s s' => s' = s.shift n) s') :
    s' = s.shift n := by
  have hentries := eq_map_of_forall₂ h.entries fun _ _ he => he.eq_shift
  obtain ⟨name', fields', entries', span'⟩ := s'
  obtain ⟨rfl, rfl, rfl⟩ : s.name = name' ∧ s.fields = fields' ∧ span' = s.span.shift n :=
    ⟨h.name, h.fields, h.span⟩
  obtain rfl : entries' = s.entries.map (TagEntry.shift n) := by
    rw [← Array.toList_inj, Array.toList_map]
    exact hentries
  rfl

theorem SyntaxError.Alike.eq_shift {e e' : SyntaxError} (h : e.Alike (fun s s' => s' = s.shift n) e') :
    e' = e.shift n := by
  cases h with
  | unexpectedEnd awaited hs =>
    subst hs
    rfl
  | missingName hs =>
    subst hs
    rfl
  | duplicateTag set tag hs hfirst =>
    subst hs hfirst
    rfl

theorem Verdict.Alike.eq_shift {v v' : Verdict} (h : v.Alike (fun s s' => s' = s.shift n) v') :
    v' = v.shift n := by
  cases h with
  | accepted hsets =>
    rw [eq_map_of_forall₂ hsets fun _ _ hs => hs.eq_shift]
    rfl
  | rejected he =>
    rw [he.eq_shift]
    rfl

end Moved

/-! ### The lexer goes on behind a blank -/

/-- A lexeme that is closed stays as it is when blanks and anything else come behind. -/
theorem Lexeme.Spelled.before_blanks {x : Lexeme} {start : Nat} {cs behind : List Char}
    (h : x.Spelled start cs behind) (hclosed : x.closed = true) {gap : List Char} (hgap : Blanks gap)
    (hne : gap ≠ []) (rest : List Char) : x.Spelled start cs (behind ++ (gap ++ rest)) := by
  cases h with
  | word hw hend =>
    refine .word hw ?_
    cases behind with
    | nil => exact endsWord_of_blanks hgap hne rest
    | cons c behind => exact hend
  | quoted _ hq => exact .quoted _ hq
  | unclosed => cases hclosed

theorem Lexeme.Spelled.shift (n : Nat) {x : Lexeme} {start : Nat} {cs behind : List Char}
    (h : x.Spelled start cs behind) : (x.shift n).Spelled (start + n) cs behind := by
  have hstop : ∀ m, start + m + n = start + n + m := fun m => by omega
  cases h with
  | word hw hend =>
    simp only [Lexeme.shift, Token.shift, Span.shift, hstop]
    exact .word hw hend
  | quoted _ hq =>
    simp only [Lexeme.shift, Token.shift, Span.shift, hstop]
    exact .quoted _ hq
  | unclosed hq =>
    simp only [Lexeme.shift, Token.shift, Span.shift, hstop]
    exact .unclosed hq

namespace Lexer.Reads

variable {l : Lexer} {xs : List Lexeme}

theorem shift (n : Nat) (h : l.Reads xs) : Reads ⟨l.rest, l.offset + n⟩ (xs.map (Lexeme.shift n)) := by
  induction h with
  | done offset hblanks => exact .done _ hblanks
  | @cons gap cs behind offset x xs hgap hx _ ih =>
    have hmoved := hx.shift n
    rw [Nat.add_right_comm] at hmoved
    exact .cons hgap hmoved ih

/-- Behind a blank the lexer starts afresh, if no quote is open. -/
theorem append (h : l.Reads xs) (hclosed : ∀ x ∈ xs, x.closed = true) {gap rest : List Char}
    (hgap : Blanks gap) (hne : gap ≠ []) {ys : List Lexeme}
    (hrest : Reads ⟨rest, l.offset + byteLength l.rest + byteLength gap⟩ ys) :
    Reads ⟨l.rest ++ (gap ++ rest), l.offset⟩ (xs ++ ys) := by
  induction h with
  | done offset hblanks => exact behind_blanks hblanks (behind_blanks hgap hrest)
  | @cons before cs behind offset x xs hbefore hx _ ih =>
    obtain ⟨hfirst, hothers⟩ := List.forall_mem_cons.mp hclosed
    have hoffset : x.token.span.stop + byteLength behind =
        offset + byteLength (before ++ (cs ++ behind)) := by
      have hstop : x.token.span.stop = offset + byteLength before + byteLength cs := by rw [hx.span_eq]
      rw [hstop, byteLength_append, byteLength_append]
      omega
    have hlexeme := hx.before_blanks hfirst hgap hne rest
    have hothers := ih hothers (by rw [hoffset]; exact hrest)
    rw [List.append_assoc, List.append_assoc]
    exact .cons hbefore hlexeme hothers

/-- Only the last lexeme can be open, and then it is quoted. -/
theorem closed_of_last_word (h : l.Reads xs) (hlast : ∀ x ∈ xs.getLast?, x.token.kind = .word) :
    ∀ x ∈ xs, x.closed = true := by
  induction h with
  | done => simp
  | @cons before cs behind offset x xs _ hx hxs ih =>
    have hothers : ∀ y ∈ xs, y.closed = true := by
      refine ih fun y hy => hlast y ?_
      rw [List.getLast?_cons, Option.mem_def.mp hy]
      rfl
    refine List.forall_mem_cons.mpr ⟨?_, hothers⟩
    cases hx with
    | word => rfl
    | quoted => rfl
    | unclosed =>
      -- nothing is behind it, so it is the last
      obtain rfl : xs = [] := hxs.unique (.done _ blanks_nil)
      cases hlast _ rfl

end Lexer.Reads

/-- A second source behind a blank has its own tokens, at their new place. -/
theorem lex_append {a w : String} (b : String) (hlast : ∀ t ∈ (lex a).getLast?, t.kind = .word)
    (hw : w ≠ "") (hblank : Blanks w.toList) :
    lex (a ++ w ++ b) = lex a ++ (lex b).map (Token.shift (a ++ w).utf8ByteSize) := by
  obtain ⟨xs, hxs⟩ := (Lexer.ofSource a).exists_reads
  obtain ⟨ys, hys⟩ := (Lexer.ofSource b).exists_reads
  have ha : lex a = xs.map (·.token) := lex_of_reads rfl hxs
  have hb : lex b = ys.map (·.token) := lex_of_reads rfl hys
  have hclosed : ∀ x ∈ xs, x.closed = true := by
    refine hxs.closed_of_last_word fun x hx => hlast x.token ?_
    rw [ha, List.getLast?_map, Option.mem_def.mp hx]
    rfl
  have hne : w.toList ≠ [] := by simpa using hw
  have hoffset : 0 + byteLength a.toList + byteLength w.toList = 0 + (a ++ w).utf8ByteSize := by
    rw [byteLength_toList, byteLength_toList, String.utf8ByteSize_append, Nat.add_assoc]
  have hboth := hxs.append hclosed hblank hne (by
    rw [show (Lexer.ofSource a).offset = 0 from rfl, show (Lexer.ofSource a).rest = a.toList from rfl, hoffset]
    exact hys.shift (a ++ w).utf8ByteSize)
  have hchars : (a ++ w ++ b).toList = a.toList ++ (w.toList ++ b.toList) := by
    simp [String.toList_append]
  rw [lex_of_reads hchars hboth, List.map_append, ha, hb, List.map_map, List.map_map]
  rfl

/-! ### The stream goes on behind a block -/

namespace Grammar

/-- A stream hands out the sets of the blocks ahead, and goes on behind them as a stream over
the rest of the tokens. -/
theorem results_of_blocks {rest : List Token} {behind : Feed} : ∀ {blocks : List Block} {s : SetStream},
    (∀ b ∈ blocks, b.Distinct) → s.failed = false →
      s.feed.Gives (blocks.flatMap Block.tokens ++ rest) behind →
      ∃ (sets : List TagSet) (after : SetStream), List.Forall₂ Block.Denotes blocks sets ∧
        after.failed = false ∧ after.feed.Gives rest behind ∧
        s.results = sets.map (fun set => some (.ok set)) ++ after.results
  | [], s, _, hf, hgives => ⟨[], s, .nil, hf, hgives, rfl⟩
  | b :: blocks, s, hdistinct, hf, hgives => by
    obtain ⟨hb, hothers⟩ := List.forall_mem_cons.mp hdistinct
    rw [List.flatMap_cons, List.append_assoc] at hgives
    have hanswer := next_answered hf hgives
    rw [cut_block] at hanswer
    obtain ⟨set, hclose, hdenotes⟩ := Block.close_of_distinct hb
    obtain ⟨hresult, hrest, -, hgoes⟩ := hanswer
    rw [hclose] at hresult hgoes
    obtain ⟨sets, after, hsets, hafter, hfeed, hresults⟩ := results_of_blocks hothers hgoes hrest
    refine ⟨set :: sets, after, .cons hdenotes hsets, hafter, hfeed, ?_⟩
    rw [SetStream.results_eq, hresult]
    simp only [hresults]
    rfl

end Grammar

/-- No token is behind the last set: the last token is the brace that closes it, since both end
at the same byte, or there is neither token nor set. -/
def EndsWithSet (source : String) (sets : List TagSet) : Prop :=
  (lex source).getLast?.map (·.span.stop) = sets.getLast?.map (·.span.stop)

namespace Grammar

theorem exists_denoted {blocks : List Block} {sets : List TagSet} (h : List.Forall₂ Block.Denotes blocks sets)
    {set : TagSet} (hset : set ∈ sets) : ∃ b ∈ blocks, b.Denotes set := by
  induction h with
  | nil => cases hset
  | @cons b s _ _ hb _ ih =>
    rcases List.mem_cons.mp hset with rfl | hmem
    · exact ⟨b, List.mem_cons_self, hb⟩
    · obtain ⟨b', hb', hdenotes⟩ := ih hmem
      exact ⟨b', List.mem_cons_of_mem b hb', hdenotes⟩

theorem Block.name_mem_tokens (b : Block) : b.name ∈ b.tokens := by
  simp [Block.tokens, Head.tokens, Title.tokens, Block.name]

theorem Block.closing_mem_tokens (b : Block) : b.closing.val ∈ b.tokens := by
  simp [Block.tokens]

theorem stop_lt_of_stray {file : File} (hlaid : Laid file.tokens) {sets : List TagSet}
    (hsets : List.Forall₂ Block.Denotes file.blocks sets) {set : TagSet} (hset : set ∈ sets) {t : Plain}
    (ht : t ∈ file.strays) : set.span.stop < t.val.span.stop := by
  obtain ⟨b, hb, hdenotes⟩ := exists_denoted hsets hset
  have hstray : t.val ∈ file.strays.map (·.val) := List.mem_map_of_mem ht
  obtain ⟨-, -, hbehind⟩ := List.pairwise_append.mp hlaid.ascending
  have hname := hbehind b.name (List.mem_flatMap.mpr ⟨b, hb, b.name_mem_tokens⟩) t.val hstray
  have hclosing := hbehind b.closing.val (List.mem_flatMap.mpr ⟨b, hb, b.closing_mem_tokens⟩) t.val hstray
  have hnonempty := hlaid.nonempty t.val (List.mem_append_right _ hstray)
  rw [hdenotes.span]
  show max b.name.span.stop b.closing.val.span.stop < t.val.span.stop
  omega

/-- All tokens of an accepted source that ends with its last set are those of its blocks. -/
theorem exists_blocks_of_endsWithSet {source : String} {sets : List TagSet} (h : parse source = .ok sets)
    (hend : EndsWithSet source sets) :
    ∃ blocks, (∀ b ∈ blocks, b.Distinct) ∧ lex source = blocks.flatMap Block.tokens ∧
      List.Forall₂ Block.Denotes blocks sets := by
  obtain ⟨file, hfile, hsets⟩ := exists_file_of_parse h
  have hstrays : file.strays = [] := by
    rcases List.eq_nil_or_concat file.strays with hnil | ⟨init, t, hconcat⟩
    · exact hnil
    · exfalso
      rw [List.concat_eq_append] at hconcat
      have hlast : (lex source).getLast? = some t.val := by
        rw [← hfile, File.tokens, hconcat, List.map_append, ← List.append_assoc]
        exact List.getLast?_concat
      rw [EndsWithSet, hlast] at hend
      obtain ⟨set, hset, hstop⟩ := Option.map_eq_some_iff.mp hend.symm
      have ht : t ∈ file.strays := by simp [hconcat]
      have hlt := stop_lt_of_stray (hfile ▸ lex_laid source) hsets (List.mem_of_getLast? hset) ht
      exact absurd hstop hlt.ne
  refine ⟨file.blocks, file.distinct, ?_, hsets⟩
  rw [← hfile, File.tokens, hstrays, List.map_nil, List.append_nil]

theorem last_word_of_blocks (blocks : List Block) :
    ∀ t ∈ (blocks.flatMap Block.tokens).getLast?, t.kind = .word := by
  intro t ht
  rcases List.eq_nil_or_concat blocks with rfl | ⟨init, b, rfl⟩
  · cases ht
  · have hlast : ((init.concat b).flatMap Block.tokens).getLast? = some b.closing.val := by
      rw [List.concat_eq_append, List.flatMap_append, List.flatMap_singleton, Block.tokens,
        ← List.append_assoc, ← List.append_assoc, List.getLast?_concat]
    obtain rfl := Option.some.inj (hlast.symm.trans ht)
    exact b.closing.property.1

end Grammar

/-! ### Both sources -/

/-- What comes behind a source that ends with its last set is judged by itself. -/
theorem parse_append {a w : String} {sets : List TagSet} (ha : parse a = .ok sets) (hend : EndsWithSet a sets)
    (hw : w ≠ "") (hblank : Blanks w.toList) (b : String) :
    parse (a ++ w ++ b) = (Verdict.shift (a ++ w).utf8ByteSize (parse b)).map (sets ++ ·) := by
  obtain ⟨blocks, hdistinct, hlex, hsets⟩ := Grammar.exists_blocks_of_endsWithSet ha hend
  have htokens := lex_append b (hlex ▸ Grammar.last_word_of_blocks blocks) hw hblank
  have hgives := Feed.gives_ofSource (a ++ w ++ b)
  rw [htokens, hlex] at hgives
  obtain ⟨sets', after, hsets', hafter, hfeed, hresults⟩ :=
    Grammar.results_of_blocks (s := SetStream.ofSource (a ++ w ++ b)) hdistinct rfl hgives
  obtain rfl := Grammar.denotes_unique hsets hsets'
  -- behind the blocks the stream is in step with a fresh one over the second source
  have halike : List.Forall₂ (Token.Alike fun s s' => s' = s.shift (a ++ w).utf8ByteSize) (lex b)
      ((lex b).map (Token.shift (a ++ w).utf8ByteSize)) := by
    rw [List.forall₂_map_right_iff, List.forall₂_same]
    exact fun t _ => t.alike_shift _
  have hstep := SetStream.results_alike (shift_merges (a ++ w).utf8ByteSize) (s := SetStream.ofSource b) rfl
    hafter (Feed.gives_ofSource b) hfeed halike
  have hverdict := (SetStream.verdict_alike hstep).eq_shift
  rw [← parse_eq_verdict] at hverdict
  rw [parse_eq_verdict, hresults, Grammar.verdict_append, hverdict]

/-- The artifacts with these sections between head and tail. -/
def Artifacts.framing (style : Emit.Style) (declared defined : String) (tally : Tally) : Artifacts where
  declarations := (style.declarationsHead ++ declared ++ Emit.Style.declarationsTail).toUTF8
  definitions := (style.definitionsHead ++ defined).toUTF8
  tally := tally

theorem Artifacts.ofSets_append (style : Emit.Style) (sets sets' : List TagSet) :
    Artifacts.ofSets style (sets ++ sets') =
      .framing style
        (String.join (sets.map style.declarationsOf) ++ String.join (sets'.map style.declarationsOf))
        (String.join (sets.map style.definitionsOf) ++ String.join (sets'.map style.definitionsOf))
        ⟨sets.length + sets'.length, totalTags sets + totalTags sets'⟩ := by
  unfold Artifacts.ofSets Artifacts.framing
  rw [List.map_append, List.map_append, String.join_append, String.join_append, List.length_append,
    totalTags_append]

theorem TagSet.content_shift (n : Nat) (s : TagSet) : (s.shift n).content = s.content := by
  simp [content, shift, TagEntry.shift, Function.comp_def]

/-- **Files compose.** Behind an accepted source that ends with its last set, and a blank, a second
source is read as it is alone: if it is accepted, its sets follow those of the first, with all spans
moved by the bytes in front, and in each artifact the sections of both follow each other; if it is
rejected, so are both, with its error moved by these bytes. -/
theorem files_compose {a w : String} {sets : List TagSet} (ha : parse a = .ok sets)
    (hend : EndsWithSet a sets) (hw : w ≠ "") (hblank : Blanks w.toList) (b : String) :
    (∀ sets', parse b = .ok sets' →
      parse (a ++ w ++ b) = .ok (sets ++ sets'.map (TagSet.shift (a ++ w).utf8ByteSize)) ∧
      ∀ style : Emit.Style,
        artifacts a style = .ok (.framing style (String.join (sets.map style.declarationsOf))
          (String.join (sets.map style.definitionsOf)) ⟨sets.length, totalTags sets⟩) ∧
        artifacts b style = .ok (.framing style (String.join (sets'.map style.declarationsOf))
          (String.join (sets'.map style.definitionsOf)) ⟨sets'.length, totalTags sets'⟩) ∧
        artifacts (a ++ w ++ b) style = .ok (.framing style
          (String.join (sets.map style.declarationsOf) ++ String.join (sets'.map style.declarationsOf))
          (String.join (sets.map style.definitionsOf) ++ String.join (sets'.map style.definitionsOf))
          ⟨sets.length + sets'.length, totalTags sets + totalTags sets'⟩)) ∧
    ∀ e, parse b = .error e → parse (a ++ w ++ b) = .error (e.shift (a ++ w).utf8ByteSize) := by
  have hboth := parse_append ha hend hw hblank b
  constructor
  · intro sets' hb
    have hparse : parse (a ++ w ++ b) = .ok (sets ++ sets'.map (TagSet.shift (a ++ w).utf8ByteSize)) := by
      rw [hboth, hb]
      rfl
    refine ⟨hparse, fun style => ⟨artifacts_of_parse style ha, artifacts_of_parse style hb, ?_⟩⟩
    -- the artifacts do not show the spans
    have houtlines : List.Forall₂ (fun s s' => s.outline = s'.outline)
        (sets ++ sets'.map (TagSet.shift (a ++ w).utf8ByteSize)) (sets ++ sets') := by
      refine List.rel_append ?_ ?_
      · exact List.forall₂_same.mpr fun _ _ => rfl
      · rw [List.forall₂_map_left_iff, List.forall₂_same]
        exact fun s _ => TagSet.outline_of_content (s.content_shift _)
    rw [artifacts_of_parse style hparse, Artifacts.ofSets_congr style houtlines, Artifacts.ofSets_append]
  · intro e hb
    rw [hboth, hb]
    rfl

/-- The name in front takes two bytes; a brace is a value in one second source, and the other one
ends too early. -/
theorem composed_behind_wide_name :
    ∃ sets sets', parse "é \x7b x \x7d" = .ok sets ∧ EndsWithSet "é \x7b x \x7d" sets ∧
      parse "B | f \x7b y \x7d \x7d" = .ok sets' ∧
      parse ("é \x7b x \x7d" ++ "\n" ++ "B | f \x7b y \x7d \x7d") = .ok (sets ++ sets'.map (TagSet.shift 9)) ∧
      parse "B \x7b y" = .error (.unexpectedEnd .tagOrBrace (.point 5)) ∧
      parse ("é \x7b x \x7d" ++ "\n" ++ "B \x7b y") = .error (.unexpectedEnd .tagOrBrace (.point 14)) := by
  have ha : parse "é \x7b x \x7d" = .ok [⟨"é", [], #[⟨"x", [], ⟨5, 6⟩⟩], ⟨0, 8⟩⟩] := by cbv
  have hend : EndsWithSet "é \x7b x \x7d" [⟨"é", [], #[⟨"x", [], ⟨5, 6⟩⟩], ⟨0, 8⟩⟩] := by
    unfold EndsWithSet
    cbv
  obtain ⟨sets', hb⟩ : ∃ sets', parse "B | f \x7b y \x7d \x7d" = .ok sets' := ⟨_, by cbv⟩
  have herror : parse "B \x7b y" = .error (.unexpectedEnd .tagOrBrace (.point 5)) := by cbv
  have hblank : Blanks "\n".toList := by
    intro c hc
    obtain rfl : c = '\n' := by simpa using hc
    rfl
  have hcompose := files_compose ha hend (by decide) hblank
  exact ⟨_, sets', ha, hend, hb, ((hcompose _).1 sets' hb).1, herror, (hcompose _).2 _ herror⟩

end TagTables
