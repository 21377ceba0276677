/-
# Layout and quoting do not matter

Two sources whose tokens agree, position by position, in text and delimiter
may differ in all blanks, in the quotes around a text that is no delimiter,
and in a missing last quote. They are accepted or rejected together. If they
are accepted, their sets are the same up to spans, and since the artifacts
show no more of a set than its name and its tags (`Artifacts.ofSets_congr`),
the artifacts are the same in every style. If they are rejected, it is for
the same cause; a repeated tag is reported at the same entries, counted in
tokens (`SyntaxError.SameCause`).

Both runs are in step (`parse_alike`) with spans that correspond if they run
over tokens at the same positions (`SamePlace`).

Key definitions: `TagSet.content`, `TagSet.outline`, `SyntaxError.SameCause`.
Key theorems: `Artifacts.ofSets_congr`, `TagSet.Alike.content_eq`,
`parse_of_agreeing_file`, `layout_and_quoting_indifferent`.
-/
import Mathlib
import TagTables.Proofs.Places
import TagTables.Proofs.Sections
import TagTables.Proofs.Streaming

namespace TagTables

/-! ### What the artifacts show -/

/-- A set without its spans: its name, its fields, and each tag with its values. -/
def TagSet.content (s : TagSet) : String × List String × List (String × List String) :=
  (s.name, s.fields, s.entries.toList.map fun e => (e.name, e.values))

/-- What the artifacts show of a set: its name and its tags. -/
def TagSet.outline (s : TagSet) : String × List String := (s.name, s.names)

theorem TagSet.outline_of_content {s s' : TagSet} (h : s.content = s'.content) : s.outline = s'.outline := by
  obtain ⟨hname, -, hentries⟩ : s.name = s'.name ∧ s.fields = s'.fields ∧ _ := by
    simpa only [content, Prod.mk.injEq] using h
  have hnames : s.names = s'.names := by
    have := congrArg (List.map Prod.fst) hentries
    simpa [names, Function.comp_def] using this
  rw [outline, outline, hname, hnames]

theorem map_eq_of_forall₂ {α β : Type} {R : α → α → Prop} {f : α → β} {l l' : List α}
    (h : List.Forall₂ R l l') (hf : ∀ a a', R a a' → f a = f a') : l.map f = l'.map f := by
  induction h with
  | nil => rfl
  | cons ha _ ih => rw [List.map_cons, List.map_cons, hf _ _ ha, ih]

theorem forall_mem_of_forall₂ {α β : Type} {R : α → β → Prop} {P : α → Prop} {Q : β → Prop} {l : List α}
    {l' : List β} (h : List.Forall₂ R l l') (hR : ∀ a b, R a b → P a → Q b) (hl : ∀ a ∈ l, P a) :
    ∀ b ∈ l', Q b := by
  induction h with
  | nil => simp
  | cons hab _ ih =>
    rw [List.forall_mem_cons] at hl ⊢
    exact ⟨hR _ _ hab hl.1, ih hl.2⟩

theorem pairwise_of_forall₂ {α β : Type} {R : α → β → Prop} {P : α → α → Prop} {Q : β → β → Prop} {l : List α}
    {l' : List β} (h : List.Forall₂ R l l') (hR : ∀ {a b a' b'}, R a b → R a' b' → P a a' → Q b b')
    (hl : l.Pairwise P) : l'.Pairwise Q := by
  induction h with
  | nil => exact .nil
  | cons hab hrest ih =>
    obtain ⟨hfirst, hl⟩ := List.pairwise_cons.mp hl
    exact .cons (forall_mem_of_forall₂ hrest (fun _ _ hab' hP => hR hab hab' hP) hfirst) (ih hl)

section Shown

variable {s s' : TagSet} (h : s.outline = s'.outline)
include h

theorem TagSet.size_eq_of_outline : s.size = s'.size := by
  have hnames : s.names = s'.names := congrArg Prod.snd h
  rw [← s.length_names, ← s'.length_names, hnames]

theorem Emit.Style.declarationsOf_congr (style : Style) : style.declarationsOf s = style.declarationsOf s' := by
  have hname : s.name = s'.name := congrArg Prod.fst h
  have hnames : s.names = s'.names := congrArg Prod.snd h
  unfold declarationsOf
  rw [hname, hnames, TagSet.size_eq_of_outline h]

theorem Emit.Style.definitionsOf_congr (style : Style) : style.definitionsOf s = style.definitionsOf s' := by
  have hname : s.name = s'.name := congrArg Prod.fst h
  have hnames : s.names = s'.names := congrArg Prod.snd h
  unfold definitionsOf
  rw [hname, hnames, TagSet.size_eq_of_outline h]

end Shown

/-- The artifacts show the outlines of the sets and nothing else. -/
theorem Artifacts.ofSets_congr (style : Emit.Style) {sets sets' : List TagSet}
    (h : List.Forall₂ (fun s s' => s.outline = s'.outline) sets sets') :
    Artifacts.ofSets style sets = Artifacts.ofSets style sets' := by
  have htags : totalTags sets = totalTags sets' := by
    induction h with
    | nil => rfl
    | cons hs _ ih => rw [totalTags_cons, totalTags_cons, TagSet.size_eq_of_outline hs, ih]
  have hdeclarations : sets.map style.declarationsOf = sets'.map style.declarationsOf :=
    map_eq_of_forall₂ h fun _ _ hs => Emit.Style.declarationsOf_congr hs style
  have hdefinitions : sets.map style.definitionsOf = sets'.map style.definitionsOf :=
    map_eq_of_forall₂ h fun _ _ hs => Emit.Style.definitionsOf_congr hs style
  unfold Artifacts.ofSets
  rw [hdeclarations, hdefinitions, h.length_eq, htags]

/-! ### Sets and errors in step -/

theorem TagSet.Alike.content_eq {S : Span → Span → Prop} {s s' : TagSet} (h : s.Alike S s') :
    s.content = s'.content := by
  have hentries : (s.entries.toList.map fun e => (e.name, e.values)) =
      s'.entries.toList.map fun e => (e.name, e.values) :=
    map_eq_of_forall₂ h.entries fun e e' he => by rw [he.name, he.values]
  rw [content, content, h.name, h.fields, hentries]

theorem artifacts_eq_of_outline {a b : String} {sets sets' : List TagSet} (ha : parse a = .ok sets)
    (hb : parse b = .ok sets') (h : List.Forall₂ (fun s s' => s.outline = s'.outline) sets sets')
    (style : Emit.Style) : ∃ made, artifacts a style = .ok made ∧ artifacts b style = .ok made := by
  refine ⟨Artifacts.ofSets style sets, artifacts_of_parse style ha, ?_⟩
  rw [artifacts_of_parse style hb, Artifacts.ofSets_congr style h]

theorem artifacts_eq_of_content {a b : String} {sets sets' : List TagSet} (ha : parse a = .ok sets)
    (hb : parse b = .ok sets') (h : List.Forall₂ (fun s s' => s.content = s'.content) sets sets')
    (style : Emit.Style) : ∃ made, artifacts a style = .ok made ∧ artifacts b style = .ok made :=
  artifacts_eq_of_outline ha hb (h.imp fun _ _ => TagSet.outline_of_content) style

/-- A source whose tokens agree with those of a file is accepted, with the sets of that file up to
spans. -/
theorem parse_of_agreeing_file {file : Grammar.File} {sets : List TagSet}
    (hsets : List.Forall₂ Grammar.Block.Denotes file.blocks sets) {source : String}
    (h : List.Forall₂ Token.Agrees file.tokens (lex source)) :
    ∃ sets', parse source = .ok sets' ∧ List.Forall₂ (fun s s' => s.content = s'.content) sets sets' := by
  -- no span matters here
  have hmerges : Span.Merges fun _ _ => True := fun _ _ _ _ _ _ => trivial
  have halike : List.Forall₂ (Token.Alike fun _ _ => True) file.tokens (lex source) :=
    h.imp fun _ _ ht => ⟨ht, trivial⟩
  have hverdict : Verdict.Alike (fun _ _ => True) (.ok sets) (parse source) := by
    rw [← Grammar.verdict_ofTokens hsets, parse_eq_verdict]
    apply SetStream.verdict_alike
    exact SetStream.results_alike hmerges rfl rfl (Feed.gives_ofAnswers _) (Feed.gives_ofSource source) halike
  generalize parse source = v at hverdict
  cases hverdict with
  | @accepted _ sets' hsets' => exact ⟨sets', rfl, hsets'.imp fun _ _ hs => hs.content_eq⟩

/-- Both spans are entries of the tag, at the same positions. -/
def SameEntry (ts ts' : List Token) (tag : String) (s s' : Span) : Prop :=
  ∃ i j, EntryAt ts tag i j s ∧ EntryAt ts' tag i j s'

/-- The errors are of one kind and say the same, and those of a repeated tag point at the same
entries. -/
inductive SyntaxError.SameCause (ts ts' : List Token) : SyntaxError → SyntaxError → Prop where
  | unexpectedEnd (awaited : Awaited) (s s' : Span) :
    SameCause ts ts' (.unexpectedEnd awaited s) (.unexpectedEnd awaited s')
  | missingName (s s' : Span) : SameCause ts ts' (.missingName s) (.missingName s')
  | duplicateTag (set tag : String) {s s' first first' : Span} : SameEntry ts ts' tag s s' →
    SameEntry ts ts' tag first first' →
    SameCause ts ts' (.duplicateTag set tag s first) (.duplicateTag set tag s' first')

/-- What is an entry in the one source is an entry in the other. -/
theorem SamePlace.sameEntry {ts ts' : List Token} (hts : List.Forall₂ Token.Agrees ts ts') (hlaid : Laid ts)
    {s s' : Span} (h : SamePlace ts ts' s s') {tag : String} {i j : Nat} (hentry : EntryAt ts tag i j s) :
    SameEntry ts ts' tag s s' := by
  obtain ⟨k, l, hkl, hs, hs'⟩ := h
  obtain ⟨hij, hstretch, t, ht, htag⟩ := hentry
  obtain ⟨rfl, rfl⟩ := hstretch.unique hlaid hs
  -- the tokens at the start of both agree
  obtain ⟨t', u', ht', hu', hspan⟩ := hs'
  obtain ⟨hi, hti⟩ := List.getElem?_eq_some_iff.mp ht
  obtain ⟨hi', hti'⟩ := List.getElem?_eq_some_iff.mp ht'
  have hagree : t.Agrees t' := by
    rw [← hti, ← hti']
    exact hts.get hi hi'
  have htag' : t'.text = tag := hagree.text.symm.trans htag
  exact ⟨i, j, ⟨hij, hstretch, t, ht, htag⟩, hij, ⟨t', u', ht', hu', hspan⟩, t', ht', htag'⟩

theorem SyntaxError.Alike.sameCause {a b : String} (hts : List.Forall₂ Token.Agrees (lex a) (lex b))
    {e e' : SyntaxError} (h : e.Alike (SamePlace (lex a) (lex b)) e') (ha : parse a = .error e) :
    e.SameCause (lex a) (lex b) e' := by
  cases h with
  | unexpectedEnd awaited => exact .unexpectedEnd awaited _ _
  | missingName => exact .missingName _ _
  | duplicateTag set tag hs hfirst =>
    obtain ⟨⟨i, j, hagain⟩, ⟨k, l, hdeclared⟩⟩ := exists_entries_of_duplicateTag ha
    exact .duplicateTag set tag (hs.sameEntry hts (lex_laid a) hagain)
      (hfirst.sameEntry hts (lex_laid a) hdeclared)

/-- **Layout and quoting do not matter.** Two sources whose tokens agree in text and delimiter are
both accepted, with the same sets up to spans and the same artifacts in every style, or both
rejected, for the same cause. -/
theorem layout_and_quoting_indifferent {a b : String} (h : List.Forall₂ Token.Agrees (lex a) (lex b)) :
    (∃ sets sets', parse a = .ok sets ∧ parse b = .ok sets' ∧
      sets.map TagSet.content = sets'.map TagSet.content ∧
      ∀ style, ∃ made, artifacts a style = .ok made ∧ artifacts b style = .ok made) ∨
    ∃ e e', parse a = .error e ∧ parse b = .error e' ∧ e.SameCause (lex a) (lex b) e' := by
  have hverdict := parse_alike (samePlace_merges (lex_laid a) (lex_laid b)) (alike_of_agrees h)
  generalize ha : parse a = v at hverdict
  generalize hb : parse b = v' at hverdict
  cases hverdict with
  | @accepted sets sets' hsets =>
    have hcontent := hsets.imp fun _ _ hs => hs.content_eq
    exact .inl ⟨sets, sets', rfl, rfl, map_eq_of_forall₂ hcontent fun _ _ hs => hs,
      artifacts_eq_of_content ha hb hcontent⟩
  | @rejected e e' he => exact .inr ⟨e, e', rfl, rfl, he.sameCause h ha⟩

/-- A tag is declared twice, with a brace for a value, and is found in another layout too. -/
theorem repeated_tag_in_two_layouts :
    List.Forall₂ Token.Agrees (lex "A | f \x7b x 1 x \x7d \x7d")
      (lex "\"A\"| \"f\"\x7b\n\"x\"\"1\"x \x7d \x7d") ∧
    ∃ s s' first first',
      parse "A | f \x7b x 1 x \x7d \x7d" = .error (.duplicateTag "A" "x" s first) ∧
      parse "\"A\"| \"f\"\x7b\n\"x\"\"1\"x \x7d \x7d" = .error (.duplicateTag "A" "x" s' first') ∧
      SameEntry (lex "A | f \x7b x 1 x \x7d \x7d") (lex "\"A\"| \"f\"\x7b\n\"x\"\"1\"x \x7d \x7d") "x"
        s s' ∧
      SameEntry (lex "A | f \x7b x 1 x \x7d \x7d") (lex "\"A\"| \"f\"\x7b\n\"x\"\"1\"x \x7d \x7d") "x"
        first first' := by
  have hfirst : lex "A | f \x7b x 1 x \x7d \x7d" =
      [⟨.word, "A", ⟨0, 1⟩⟩, ⟨.word, "|", ⟨2, 3⟩⟩, ⟨.word, "f", ⟨4, 5⟩⟩, ⟨.word, "\x7b", ⟨6, 7⟩⟩,
        ⟨.word, "x", ⟨8, 9⟩⟩, ⟨.word, "1", ⟨10, 11⟩⟩, ⟨.word, "x", ⟨12, 13⟩⟩, ⟨.word, "\x7d", ⟨14, 15⟩⟩,
        ⟨.word, "\x7d", ⟨16, 17⟩⟩] := by
    cbv
  have hsecond : lex "\"A\"| \"f\"\x7b\n\"x\"\"1\"x \x7d \x7d" =
      [⟨.quoted, "A", ⟨0, 3⟩⟩, ⟨.word, "|", ⟨3, 4⟩⟩, ⟨.quoted, "f", ⟨5, 8⟩⟩, ⟨.word, "\x7b", ⟨8, 9⟩⟩,
        ⟨.quoted, "x", ⟨10, 13⟩⟩, ⟨.quoted, "1", ⟨13, 16⟩⟩, ⟨.word, "x", ⟨16, 17⟩⟩,
        ⟨.word, "\x7d", ⟨18, 19⟩⟩, ⟨.word, "\x7d", ⟨20, 21⟩⟩] := by
    cbv
  have hrejected : parse "A | f \x7b x 1 x \x7d \x7d" =
      .error (.duplicateTag "A" "x" ⟨12, 15⟩ ⟨8, 11⟩) := by
    cbv
  have hagree : List.Forall₂ Token.Agrees (lex "A | f \x7b x 1 x \x7d \x7d")
      (lex "\"A\"| \"f\"\x7b\n\"x\"\"1\"x \x7d \x7d") := by
    rw [hfirst, hsecond]
    repeat' constructor
  refine ⟨hagree, ?_⟩
  rcases layout_and_quoting_indifferent hagree with ⟨sets, -, hok, -⟩ | ⟨e, e', ha, hb, hcause⟩
  · cases hrejected.symm.trans hok
  · obtain rfl := Except.error.inj (hrejected.symm.trans ha)
    cases hcause with
    | duplicateTag _ _ hagain hdeclared => exact ⟨_, _, _, _, ha, hb, hagain, hdeclared⟩

end TagTables
