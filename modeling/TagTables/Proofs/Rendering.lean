/-
# Every error can be reported

A report goes with the line and the column of the error, which only offsets
between characters have, and a reporter may leave the file's name out if the
first label does not lie in the source. The spans of an error come from the
lexer through merging and sorting. All the same each of them is a stretch of
tokens of the source, or the point where the last token ends
(`exists_stretch_or_end`), and tokens start and end between characters. So
every span of an error lies well in the source (`SyntaxError.spans_within`),
and no error is left without a report, whichever reporter writes it.

Of a reporter it is only used that it has a report where all labels lie well
in the source, and that it keeps the name where the first one does
(`Reporter.Lawful`). The reporter that writes on one line is of this kind
(`Report.line_lawful`).

Key definitions: `Boundary`, `Span.Within`, `SyntaxError.spans`,
`Reporter.Lawful`.
Key theorems: `Position.exists_of_boundary`, `Stretch.within`,
`SyntaxError.spans_within`, `Reporter.Lawful.exists_report`,
`errors_can_be_reported`.
-/
import Mathlib
import TagTables.Proofs.Extents
import TagTables.Report.Line
import TagTables.Text.Pieces

namespace TagTables

/-! ### Offsets between characters -/

/-- The offset is in the source, its end included, and not inside a character. -/
def Boundary (source : String) (offset : Nat) : Prop := String.Pos.Raw.IsValid source ⟨offset⟩

theorem boundary_of_append {source : String} {before behind : List Char}
    (h : source.toList = before ++ behind) : Boundary source (byteLength before) := by
  apply String.Pos.Raw.isValid_iff_exists_append.mpr
  refine ⟨String.ofList before, String.ofList behind, ?_, rfl⟩
  rw [← String.ofList_append, ← h, String.ofList_toList]

theorem exists_append_of_boundary {source : String} {offset : Nat} (h : Boundary source offset) :
    ∃ before behind, source.toList = before ++ behind ∧ offset = byteLength before := by
  obtain ⟨a, b, rfl, hoffset⟩ := String.Pos.Raw.isValid_iff_exists_append.mp h
  refine ⟨a.toList, b.toList, String.toList_append, ?_⟩
  rw [byteLength_toList]
  exact congrArg String.Pos.Raw.byteIdx hoffset

namespace Position

/-- Going on over whole characters passes them one by one. -/
theorem advance?_append (behind : List Char) (more : Nat) : ∀ (before : List Char) (p : Position),
    p.advance? (before ++ behind) (byteLength before + more) = (before.foldl after p).advance? behind more
  | [], p => by
    rw [byteLength_nil, Nat.zero_add]
    rfl
  | c :: before, p => by
    have hpos := c.utf8Size_pos
    obtain ⟨bytes, hbytes⟩ : ∃ bytes, byteLength (c :: before) + more = bytes + 1 :=
      ⟨byteLength (c :: before) + more - 1, by rw [byteLength_cons]; omega⟩
    have hfits : c.utf8Size ≤ bytes + 1 := by
      rw [← hbytes, byteLength_cons]
      omega
    have hrest : bytes + 1 - c.utf8Size = byteLength before + more := by
      rw [← hbytes, byteLength_cons]
      omega
    rw [hbytes, List.cons_append, advance?, if_pos hfits, hrest, advance?_append behind more before]
    rfl

theorem advance?_zero (p : Position) (cs : List Char) : p.advance? cs 0 = some p := by
  cases cs <;> rfl

theorem ofOffset?_of_append {source : String} {before behind : List Char} (h : source.toList = before ++ behind) :
    ofOffset? source (byteLength before) = some (before.foldl after ⟨1, 1⟩) := by
  unfold ofOffset?
  rw [h, ← Nat.add_zero (byteLength before), advance?_append, advance?_zero]

theorem exists_of_boundary {source : String} {offset : Nat} (h : Boundary source offset) :
    ∃ p, ofOffset? source offset = some p := by
  obtain ⟨before, behind, hsource, rfl⟩ := exists_append_of_boundary h
  exact ⟨_, ofOffset?_of_append hsource⟩

end Position

/-! ### Spans in a source -/

/-- The span does not run backwards, lies in the source, and cuts no character. -/
structure Span.Within (source : String) (s : Span) : Prop where
  forward : s.start ≤ s.stop
  inside : s.stop ≤ source.utf8ByteSize
  startsBetween : Boundary source s.start
  stopsBetween : Boundary source s.stop

theorem exists_holds_of_mem_lex {source : String} {t : Token} (h : t ∈ lex source) :
    ∃ text, t.span.Holds source text := by
  have htiles : Tiles source 0 (lex source) := (tiles_iff_eq_lex source _).mpr rfl
  exact (htiles.cut t h).whole

theorem Span.Holds.within {source text : String} {s : Span} (h : s.Holds source text) : s.Within source := by
  have hstop := h.stop_le
  obtain ⟨before, behind, hsource, rfl⟩ := h
  refine ⟨?_, hstop, boundary_of_append hsource, ?_⟩
  · show byteLength before ≤ byteLength (before ++ text.toList)
    rw [byteLength_append]
    omega
  · have hsplit : source.toList = before ++ text.toList ++ behind := by
      rw [hsource, List.append_assoc]
    exact boundary_of_append hsplit

/-- A stretch of tokens lies well in the source. -/
theorem Stretch.within {source : String} {i j : Nat} {s : Span} (h : Stretch (lex source) i j s)
    (hij : i ≤ j) : s.Within source := by
  obtain ⟨t, u, ht, hu, rfl⟩ := h
  obtain ⟨_, htext⟩ := exists_holds_of_mem_lex (List.mem_of_getElem? ht)
  obtain ⟨_, hutext⟩ := exists_holds_of_mem_lex (List.mem_of_getElem? hu)
  have hfirst := htext.within
  have hlast := hutext.within
  have hstops := ((lex_laid source).le_of_le ht hu hij).2
  refine ⟨?_, hlast.inside, hfirst.startsBetween, hlast.stopsBetween⟩
  show t.span.start ≤ u.span.stop
  exact le_trans hfirst.forward hstops

theorem Stretch.point_within {source : String} {i j : Nat} {s : Span} (h : Stretch (lex source) i j s)
    (hij : i ≤ j) : (Span.point s.stop).Within source := by
  have hs := h.within hij
  exact ⟨le_rfl, hs.inside, hs.stopsBetween, hs.stopsBetween⟩

/-! ### The spans of an error -/

/-- The spans that an error carries, the place of the error first. -/
def SyntaxError.spans : SyntaxError → List Span
  | unexpectedEnd _ s => [s]
  | missingName s => [s]
  | duplicateTag _ _ s first => [s, first]

/-- Each span has a label, in the same order. -/
theorem SyntaxError.spans_labels (e : SyntaxError) : e.labels.map (·.span) = e.spans := by
  cases e <;> rfl

theorem SyntaxError.head_spans (e : SyntaxError) : e.spans.head? = some e.span := by
  cases e <;> rfl

/-- A span of an error is a stretch of tokens, or the point where one ends. -/
theorem exists_stretch_or_end {source : String} {e : SyntaxError} (h : parse source = .error e) {s : Span}
    (hs : s ∈ e.spans) :
    ∃ i j s', i ≤ j ∧ Stretch (lex source) i j s' ∧ (s = s' ∨ s = .point s'.stop) := by
  obtain ⟨r, hr, hcause⟩ := Grammar.exists_rejection_of_parse h
  obtain ⟨blocks, hdistinct, offence⟩ := r
  rcases offence with ⟨mark, rest⟩ | b | ⟨b, hb, rest⟩
  · -- the delimiter without a name
    obtain rfl : e = .missingName mark.val.span := hcause
    obtain rfl := List.mem_singleton.mp hs
    have hmem : mark.val ∈ lex source := by
      rw [← hr]
      exact List.mem_append_right _ List.mem_cons_self
    obtain ⟨i, hi⟩ := List.mem_iff_getElem?.mp hmem
    exact ⟨i, i, _, le_rfl, stretch_of_token hi, .inl rfl⟩
  · -- the end of the last token
    obtain rfl : e = .unexpectedEnd b.awaited (.point (lastStop 0 (lex source))) := hcause
    obtain rfl := List.mem_singleton.mp hs
    have hne : lex source ≠ [] := by
      rw [← hr]
      exact List.append_ne_nil_of_right_ne_nil _ b.tokens_ne_nil
    have hlast : (lex source).getLast? = some ((lex source).getLast hne) := List.getLast?_eq_some_getLast hne
    have hstop : lastStop 0 (lex source) = ((lex source).getLast hne).span.stop := by
      rw [lastStop, hlast]
      rfl
    rw [List.getLast?_eq_getElem?] at hlast
    exact ⟨_, _, _, le_rfl, stretch_of_token hlast, .inr (by rw [hstop])⟩
  · -- one of two entries of the tag
    obtain ⟨first, again, -, rfl⟩ := hcause
    obtain ⟨⟨i, j, hspan⟩, k, l, hfirst⟩ := exists_entries_of_duplicateTag h
    rcases List.mem_cons.mp hs with rfl | hs
    · exact ⟨i, j, _, hspan.1, hspan.2.1, .inl rfl⟩
    · obtain rfl := List.mem_singleton.mp hs
      exact ⟨k, l, _, hfirst.1, hfirst.2.1, .inl rfl⟩

/-- Every span of an error lies well in the source. -/
theorem SyntaxError.spans_within {source : String} {e : SyntaxError} (h : parse source = .error e) :
    ∀ s ∈ e.spans, s.Within source := by
  intro s hs
  obtain ⟨i, j, s', hij, hstretch, rfl | rfl⟩ := exists_stretch_or_end h hs
  · exact hstretch.within hij
  · exact hstretch.point_within hij

theorem FirstRepeat.sublist {entries : List TagEntry} {first again : TagEntry}
    (h : FirstRepeat entries first again) : [first, again].Sublist entries := by
  obtain ⟨more, hmore⟩ := h.declared
  have hall : (first :: again :: more).Sublist entries := hmore ▸ List.filter_sublist
  exact (List.sublist_append_left [first, again] more).trans hall

/-- A repeated tag is first declared before it is declared again. -/
theorem first_stop_le_start {source set tag : String} {span first : Span}
    (h : parse source = .error (.duplicateTag set tag span first)) : first.stop ≤ span.start := by
  obtain ⟨⟨blocks, hdistinct, offence⟩, hr, hcause⟩ := Grammar.exists_rejection_of_parse h
  rcases offence with ⟨mark, rest⟩ | b | ⟨b, hb, rest⟩
  · cases hcause
  · cases hcause
  · obtain ⟨e, e', hrepeat, heq⟩ := hcause
    obtain ⟨-, -, rfl, rfl⟩ := SyntaxError.duplicateTag.inj heq
    have hblock : Laid b.tokens := by
      apply (lex_laid source).sublist
      rw [← hr]
      exact (List.sublist_append_left b.tokens rest).trans (List.sublist_append_right _ _)
    have hpair := (Grammar.Block.entries_follow hblock).sublist hrepeat.sublist
    exact (List.pairwise_cons.mp hpair).1 e' List.mem_cons_self

/-! ### Reporters -/

/-- What is relied on of a reporter. It may spell names in its own way, as they are or quoted. -/
structure Reporter.Lawful (r : Reporter) (spell : String → String) : Prop where
  /-- Names that differ are spelled differently. -/
  spell_injective : Function.Injective spell
  /-- There is a report if no label leaves the source or cuts a character. -/
  answers : ∀ name source (d : Diagnostic), (∀ l ∈ d.labels, l.span.Within source) →
    ∃ text, r.report? name source d = some text
  /-- If there is a first label, the name is left out only if it is out of bounds. -/
  keeps_name : ∀ name source (d : Diagnostic) text l, r.report? name source d = some text →
    d.labels.head? = some l → l.span.start + l.span.length ≤ source.utf8ByteSize →
    (spell name).toList <:+: text.toList

theorem Span.Within.length_le {source : String} {s : Span} (h : s.Within source) :
    s.start + s.length ≤ source.utf8ByteSize := by
  have hforward := h.forward
  have hinside := h.inside
  rw [Span.length]
  omega

theorem SyntaxError.labels_within {source : String} {e : SyntaxError} (h : ∀ s ∈ e.spans, s.Within source) :
    ∀ l ∈ e.labels, l.span.Within source := by
  intro l hl
  apply h
  rw [← e.spans_labels]
  exact List.mem_map_of_mem hl

theorem SyntaxError.exists_first_label (e : SyntaxError) : ∃ l, e.labels.head? = some l ∧ l.span = e.span := by
  have hhead := e.head_spans
  rwa [← e.spans_labels, List.head?_map, Option.map_eq_some_iff] at hhead

theorem Reporter.Lawful.exists_report {r : Reporter} {spell : String → String} (hr : r.Lawful spell)
    {source : String} {e : SyntaxError} {p : Position} (hspans : ∀ s ∈ e.spans, s.Within source)
    (hp : Position.ofOffset? source e.span.start = some p) (file : String) :
    ∃ text, r.explain? file source e = some (text, .rejected e file p) ∧
      (spell file).toList <:+: text.toList := by
  have hlabels := SyntaxError.labels_within hspans
  obtain ⟨l, hl, -⟩ := e.exists_first_label
  have hinside := (hlabels l (List.mem_of_head? hl)).length_le
  obtain ⟨text, htext⟩ := hr.answers file source e.diagnostic hlabels
  refine ⟨text, ?_, hr.keeps_name file source e.diagnostic text l htext hl hinside⟩
  unfold explain?
  rw [hp, htext]
  rfl

/-! ### Reports on one line -/

namespace Report

/-- The character that is written as a backslash and this one. -/
def unescape? (c : Char) : Option Char :=
  if c = '\\' then some '\\'
  else if c = '"' then some '"'
  else if c = 'r' then some '\r'
  else if c = 'n' then some '\n'
  else if c = 't' then some '\t'
  else if c = 'b' then some '\x08'
  else if c = 'f' then some '\x0c'
  else none

theorem escape_cases (c : Char) :
    (∃ d, (escape c).toList = ['\\', d] ∧ unescape? d = some c) ∨ ((escape c).toList = [c] ∧ c ≠ '\\') := by
  unfold escape
  split_ifs with hslash hquote hreturn hline htab hback hfeed
  · exact .inl ⟨'\\', rfl, by rw [hslash]; rfl⟩
  · exact .inl ⟨'"', rfl, by rw [hquote]; rfl⟩
  · exact .inl ⟨'r', rfl, by rw [hreturn]; rfl⟩
  · exact .inl ⟨'n', rfl, by rw [hline]; rfl⟩
  · exact .inl ⟨'t', rfl, by rw [htab]; rfl⟩
  · exact .inl ⟨'b', rfl, by rw [hback]; rfl⟩
  · exact .inl ⟨'f', rfl, by rw [hfeed]; rfl⟩
  · exact .inr ⟨String.toList_singleton c, hslash⟩

theorem escape_ne_nil (c : Char) : (escape c).toList ≠ [] := by
  rcases escape_cases c with ⟨d, hescape, -⟩ | ⟨hescape, -⟩
  · rw [hescape]
    exact List.cons_ne_nil _ _
  · rw [hescape]
    exact List.cons_ne_nil _ _

-- a backslash is never written as itself, so how a character is written ends where the next one starts
theorem escape_append_inj {c c' : Char} {rest rest' : List Char}
    (h : (escape c).toList ++ rest = (escape c').toList ++ rest') : c = c' ∧ rest = rest' := by
  rcases escape_cases c with ⟨d, hescape, hd⟩ | ⟨hescape, hc⟩ <;>
    rcases escape_cases c' with ⟨d', hescape', hd'⟩ | ⟨hescape', hc'⟩
  all_goals
    rw [hescape, hescape'] at h
    simp only [List.cons_append, List.nil_append, List.cons.injEq] at h
  · obtain ⟨-, rfl, hrest⟩ := h
    exact ⟨Option.some.inj (hd.symm.trans hd'), hrest⟩
  · exact absurd h.1.symm hc'
  · exact absurd h.1 hc
  · exact h

theorem toList_foldl_escape : ∀ (cs : List Char) (out : String),
    (cs.foldl (fun out c => out ++ escape c) out).toList = out.toList ++ cs.flatMap fun c => (escape c).toList
  | [], out => by rw [List.foldl_nil, List.flatMap_nil, List.append_nil]
  | c :: cs, out => by
    rw [List.foldl_cons, toList_foldl_escape cs, String.toList_append, List.flatMap_cons, List.append_assoc]

theorem toList_text (s : String) :
    (text s).toList = '"' :: (s.toList.flatMap (fun c => (escape c).toList) ++ ['"']) := by
  rw [text, String.toList_append, toList_foldl_escape]
  rfl

theorem flatMap_escape_inj : ∀ cs cs' : List Char,
    (cs.flatMap fun c => (escape c).toList) = (cs'.flatMap fun c => (escape c).toList) → cs = cs'
  | [], [], _ => rfl
  | [], c' :: cs', h => absurd (List.append_eq_nil_iff.mp h.symm).1 (escape_ne_nil c')
  | c :: cs, [], h => absurd (List.append_eq_nil_iff.mp h).1 (escape_ne_nil c)
  | c :: cs, c' :: cs', h => by
    rw [List.flatMap_cons, List.flatMap_cons] at h
    obtain ⟨rfl, hrest⟩ := escape_append_inj h
    rw [flatMap_escape_inj cs cs' hrest]

theorem text_injective : Function.Injective text := by
  intro s s' h
  rw [← String.toList_inj, toList_text, toList_text, List.cons_inj_right, List.append_left_inj] at h
  exact String.toList_inj.mp (flatMap_escape_inj _ _ h)

theorem toList_object (members : List (String × String)) : (object members).toList =
    '\x7b' :: ([','].intercalate (members.map fun m => (text m.1 ++ ": " ++ m.2).toList) ++ ['\x7d']) := by
  rw [object, String.toList_append, String.toList_append, String.toList_intercalate, List.map_map]
  rfl

theorem isInfix_object {members : List (String × String)} {m : String × String} (h : m ∈ members) :
    m.2.toList <:+: (object members).toList := by
  obtain ⟨above, below, rfl⟩ := List.append_of_mem h
  rw [toList_object, List.map_append, List.map_cons, intercalate_append_cons, String.toList_append]
  exact ⟨'\x7b' :: ((above.map fun m => (text m.1 ++ ": " ++ m.2).toList).flatMap (· ++ [',']) ++
      (text m.1 ++ ": ").toList),
    (below.map fun m => (text m.1 ++ ": " ++ m.2).toList).flatMap (',' :: ·) ++ ['\x7d'], by
      simp only [List.cons_append, List.append_assoc]⟩

theorem line_lawful : line.Lawful text where
  spell_injective := text_injective
  answers name source d h := by
    have hstray : (d.labels.head?.any fun l => isStray source.utf8ByteSize l.span) = false := by
      rcases hl : d.labels.head? with _ | l
      · rfl
      · have hwithin := (h l (List.mem_of_head? hl)).length_le
        rw [Option.any_some, Bool.eq_false_iff, Ne, isStray_iff]
        omega
    exact ⟨_, if_neg (by rw [hstray]; decide)⟩
  keeps_name name source d report l h hl hinside := by
    have hshown : (d.labels.head?.all fun l => inBounds source.utf8ByteSize l.span) = true := by
      rw [hl, Option.all_some, inBounds, decide_eq_true_eq]
      omega
    simp only [line, hshown, if_true] at h
    split at h
    · cases h
    · cases h
      apply isInfix_object (m := ("filename", text name))
      simp

end Report

/-- **Every error can be reported.** Each span that the error of a source carries lies in the source,
does not run backwards and cuts no character, and a repeated tag is first declared before it is declared
again. So the error has a line and a column, its first label lies in the source, and any reporter that can be
relied on has a report for every name of the file, in which the name is found. -/
theorem errors_can_be_reported {source : String} {e : SyntaxError} (h : parse source = .error e) {r : Reporter}
    {spell : String → String} (hr : r.Lawful spell) :
    (∀ s ∈ e.spans, s.Within source) ∧
    (∀ set tag span first, e = .duplicateTag set tag span first → first.stop ≤ span.start) ∧
    (∃ l, e.labels.head? = some l ∧ l.span.start + l.span.length ≤ source.utf8ByteSize) ∧
    ∃ p, Position.ofOffset? source e.span.start = some p ∧
      ∀ file, ∃ text, r.explain? file source e = some (text, .rejected e file p) ∧
        (spell file).toList <:+: text.toList := by
  have hspans := SyntaxError.spans_within h
  have hplace := hspans e.span (List.mem_of_head? e.head_spans)
  obtain ⟨p, hp⟩ := Position.exists_of_boundary hplace.startsBetween
  obtain ⟨l, hl, hlspan⟩ := e.exists_first_label
  refine ⟨hspans, ?_, ⟨l, hl, ?_⟩, p, hp, hr.exists_report hspans hp⟩
  · rintro set tag span first rfl
    exact first_stop_le_start h
  · rw [hlspan]
    exact hplace.length_le

/-- A tag of two bytes is declared twice, with values, behind a name of two bytes. -/
theorem repeated_wide_tag_reported :
    parse "É | f \x7b\n ß 1 é \x7d ß ü \x7d" = .error (.duplicateTag "É" "ß" ⟨20, 25⟩ ⟨10, 14⟩) ∧
      Boundary "É | f \x7b\n ß 1 é \x7d ß ü \x7d" 25 ∧ Report.line.Lawful Report.text ∧
      ∃ text, Report.line.explain? "tags.txt" "É | f \x7b\n ß 1 é \x7d ß ü \x7d"
          (.duplicateTag "É" "ß" ⟨20, 25⟩ ⟨10, 14⟩) =
        some (text, .rejected (.duplicateTag "É" "ß" ⟨20, 25⟩ ⟨10, 14⟩) "tags.txt" ⟨2, 10⟩) ∧
        "\"tags.txt\"".toList <:+: text.toList := by
  have hparse : parse "É | f \x7b\n ß 1 é \x7d ß ü \x7d" = .error (.duplicateTag "É" "ß" ⟨20, 25⟩ ⟨10, 14⟩) := by
    cbv
  have hplace : Position.ofOffset? "É | f \x7b\n ß 1 é \x7d ß ü \x7d" 20 = some ⟨2, 10⟩ := by decide
  obtain ⟨hspans, -, -, p, hp, hreport⟩ := errors_can_be_reported hparse Report.line_lawful
  obtain rfl : p = ⟨2, 10⟩ := Option.some.inj (hp.symm.trans hplace)
  exact ⟨hparse, (hspans ⟨20, 25⟩ List.mem_cons_self).stopsBetween, Report.line_lawful, hreport "tags.txt"⟩

end TagTables
