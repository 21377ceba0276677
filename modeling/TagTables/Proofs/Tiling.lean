/-
# The tokens of a source tile it

Tokens tile a source if their spans ascend, start and end between characters
and leave out nothing but blanks, and if each token is written in its span
as its form demands: a word as it is, up to a blank or the end; a quoted text
between quotes, where only the last token may lack the closing one. The
tokens of a source tile it, and no other list of tokens does
(`tiles_iff_eq_lex`). The argument goes from bytes to characters: a span that
holds a text cuts the source between characters, and bytes that belong to
blanks are a gap (`blanks_iff_bytes`). So a tiling is a way to read the source
in the sense of `Lexer.Reads`, of which there is one.

The cursor never goes back, stands behind each token that it hands out, and
at the end of the source for ever once there is no token left.

Key definitions: `Span.Holds`, `BlankAt`, `Token.CutFrom`, `Tiles`,
`Lexer.after`.
Key theorems: `blanks_iff_bytes`, `tiles_cons_iff`, `tiles_iff_eq_lex`,
`lex_tiles_source`.
-/
import Mathlib
import TagTables.Proofs.Lexing

namespace TagTables

/-! ### Bytes and characters -/

/-- The bytes of the span are those of the text: the span is in the source and starts and ends
between characters. -/
def Span.Holds (source : String) (s : Span) (text : String) : Prop :=
  ∃ before behind, source.toList = before ++ (text.toList ++ behind) ∧
    s = ⟨byteLength before, byteLength (before ++ text.toList)⟩

/-- The byte at an offset belongs to a blank. -/
def BlankAt (source : String) (i : Nat) : Prop :=
  ∃ before c behind, source.toList = before ++ c :: behind ∧
    byteLength before ≤ i ∧ i < byteLength (before ++ [c]) ∧ isBlank c = true

theorem byteLength_concat (cs : List Char) (c : Char) : byteLength (cs ++ [c]) = byteLength cs + c.utf8Size := by
  rw [byteLength_append, byteLength_cons, byteLength_nil, Nat.add_zero]

theorem byteLength_eq_zero_iff {cs : List Char} : byteLength cs = 0 ↔ cs = [] := by
  constructor
  · intro h
    by_contra hne
    have := byteLength_pos hne
    omega
  · rintro rfl
    exact byteLength_nil

/-- Of two beginnings of one text, the one with fewer bytes is a beginning of the other. -/
theorem exists_append_of_byteLength_le {a b c d : List Char} (h : a ++ b = c ++ d)
    (hle : byteLength a ≤ byteLength c) : ∃ gap, c = a ++ gap ∧ b = gap ++ d := by
  rcases List.append_eq_append_iff.mp h with hgap | ⟨more, rfl, rfl⟩
  · exact hgap
  · have hmore : more = [] := by
      rw [byteLength_append] at hle
      exact byteLength_eq_zero_iff.mp (by omega)
    exact ⟨[], by simp [hmore], by simp [hmore]⟩

theorem char_unique {a b a' b' : List Char} {c c' : Char} {i : Nat} (h : a ++ c :: b = a' ++ c' :: b')
    (hi : byteLength a ≤ i ∧ i < byteLength (a ++ [c])) (hi' : byteLength a' ≤ i ∧ i < byteLength (a' ++ [c'])) :
    c = c' := by
  -- a character between the two would lie on both sides of the byte
  have hle : ∀ {a b a' b' : List Char} {c c' : Char}, a ++ c :: b = a' ++ c' :: b' →
      i < byteLength (a ++ [c]) → byteLength a' ≤ i → byteLength a ≤ byteLength a' → c = c' := by
    intro a b a' b' c c' h hc ha hle
    obtain ⟨gap, rfl, hrest⟩ := exists_append_of_byteLength_le h hle
    cases gap with
    | nil => exact (List.cons.inj hrest).1
    | cons d gap =>
      obtain ⟨rfl, -⟩ := List.cons.inj hrest
      rw [byteLength_append, byteLength_cons] at ha
      rw [byteLength_concat] at hc
      omega
  rcases Nat.le_total (byteLength a) (byteLength a') with hab | hba
  · exact hle h hi.2 hi'.1 hab
  · exact (hle h.symm hi'.2 hi.1 hba).symm

theorem exists_char_of_byte : ∀ (gap before : List Char) {i : Nat}, byteLength before ≤ i →
    i < byteLength (before ++ gap) → ∃ pre c post, gap = pre ++ c :: post ∧
      byteLength (before ++ pre) ≤ i ∧ i < byteLength (before ++ pre ++ [c])
  | [], before, i, hle, hlt => by
    rw [List.append_nil] at hlt
    omega
  | c :: gap, before, i, hle, hlt => by
    by_cases hc : i < byteLength (before ++ [c])
    · exact ⟨[], c, gap, rfl, by simpa using hle, by simpa using hc⟩
    · have hlt' : i < byteLength ((before ++ [c]) ++ gap) := by simpa using hlt
      obtain ⟨pre, d, post, rfl, hpre, hd⟩ := exists_char_of_byte gap (before ++ [c]) (by omega) hlt'
      exact ⟨c :: pre, d, post, rfl, by simpa using hpre, by simpa using hd⟩

/-- A blank is told by its first byte. -/
theorem blankAt_iff {source : String} {before behind : List Char} {c : Char}
    (h : source.toList = before ++ c :: behind) : BlankAt source (byteLength before) ↔ isBlank c = true := by
  have hpos := c.utf8Size_pos
  have hin : byteLength before < byteLength (before ++ [c]) := by
    rw [byteLength_concat]
    omega
  constructor
  · rintro ⟨before', c', behind', h', hle, hlt, hblank⟩
    rwa [char_unique (h.symm.trans h') ⟨le_rfl, hin⟩ ⟨hle, hlt⟩]
  · intro hblank
    exact ⟨before, c, behind, h, le_rfl, hin, hblank⟩

/-- Characters are blanks exactly if their bytes belong to blanks. -/
theorem blanks_iff_bytes {source : String} {before gap behind : List Char}
    (h : source.toList = before ++ (gap ++ behind)) :
    Blanks gap ↔ ∀ i, byteLength before ≤ i → i < byteLength (before ++ gap) → BlankAt source i := by
  constructor
  · intro hgap i hle hlt
    obtain ⟨pre, c, post, rfl, hpre, hc⟩ := exists_char_of_byte gap before hle hlt
    exact ⟨before ++ pre, c, post ++ behind, by simp [h], hpre, hc, hgap c (by simp)⟩
  · intro hbytes c hc
    obtain ⟨pre, post, rfl⟩ := List.append_of_mem hc
    have hpos := c.utf8Size_pos
    have hsplit : source.toList = (before ++ pre) ++ c :: (post ++ behind) := by simp [h]
    rw [← blankAt_iff hsplit]
    apply hbytes
    · rw [byteLength_append]
      omega
    · simp only [byteLength_append, byteLength_cons]
      omega

theorem Span.Holds.stop_le {source text : String} {s : Span} (h : s.Holds source text) :
    s.stop ≤ source.utf8ByteSize := by
  obtain ⟨before, behind, hsource, rfl⟩ := h
  rw [← byteLength_toList source, hsource]
  simp only [byteLength_append]
  omega

theorem Span.Holds.ne_nil {source text : String} {s : Span} (h : s.Holds source text) (hlt : s.start < s.stop) :
    text.toList ≠ [] := by
  obtain ⟨before, behind, -, rfl⟩ := h
  intro hnil
  simp [hnil] at hlt

/-! ### Tilings -/

/-- A token is written in its span as its form demands. Only the last token may be a quoted one
without its closing quote. -/
structure Token.CutFrom (source : String) (last : Prop) (t : Token) : Prop where
  nonempty : t.span.start < t.span.stop
  whole : ∃ text, t.span.Holds source text
  word : t.kind = .word → t.span.Holds source t.text ∧ (∀ c ∈ t.text.toList, isBlank c = false) ∧
    t.text.toList.head? ≠ some quote ∧ (t.span.stop = source.utf8ByteSize ∨ BlankAt source t.span.stop)
  quoted : t.kind = .quoted → quote ∉ t.text.toList ∧
    (t.span.Holds source ("\"" ++ t.text ++ "\"") ∨
      last ∧ t.span.stop = source.utf8ByteSize ∧ t.span.Holds source ("\"" ++ t.text))

/-- Tokens tile the source from an offset on. -/
structure Tiles (source : String) (start : Nat) (ts : List Token) : Prop where
  behind : ∀ t ∈ ts, start ≤ t.span.start
  ascending : ts.Pairwise fun a b => a.span.stop ≤ b.span.start
  cut : ∀ t ∈ ts, t.CutFrom source (ts.getLast? = some t)
  blank : ∀ i, start ≤ i → i < source.utf8ByteSize →
    (∀ t ∈ ts, ¬ (t.span.start ≤ i ∧ i < t.span.stop)) → BlankAt source i

theorem Token.CutFrom.imp {source : String} {last last' : Prop} {t : Token} (h : t.CutFrom source last)
    (himp : last → last') : t.CutFrom source last' where
  nonempty := h.nonempty
  whole := h.whole
  word := h.word
  quoted hkind := by
    obtain ⟨htext, hclosed | ⟨hlast, hopen⟩⟩ := h.quoted hkind
    · exact ⟨htext, .inl hclosed⟩
    · exact ⟨htext, .inr ⟨himp hlast, hopen⟩⟩

theorem tiles_nil_iff {source : String} {start : Nat} :
    Tiles source start [] ↔ ∀ i, start ≤ i → i < source.utf8ByteSize → BlankAt source i := by
  constructor
  · intro h i hle hlt
    exact h.blank i hle hlt (by simp)
  · intro h
    exact ⟨by simp, .nil, by simp, fun i hle hlt _ => h i hle hlt⟩

/-- A tiling is a gap, a token, and a tiling behind it. -/
theorem tiles_cons_iff {source : String} {start : Nat} {t : Token} {ts : List Token} :
    Tiles source start (t :: ts) ↔
      start ≤ t.span.start ∧ t.CutFrom source (ts = []) ∧
        (∀ i, start ≤ i → i < t.span.start → BlankAt source i) ∧ Tiles source t.span.stop ts := by
  constructor
  · intro h
    have hcut := h.cut t List.mem_cons_self
    have hafter : ∀ u ∈ ts, t.span.stop ≤ u.span.start := (List.pairwise_cons.mp h.ascending).1
    have hlt := hcut.nonempty
    refine ⟨h.behind t List.mem_cons_self, hcut.imp fun hlast => ?_, fun i hle hi => ?_, ?_⟩
    · -- a later token would start behind this one
      by_contra hne
      rw [List.getLast?_cons_of_ne_nil hne] at hlast
      have := hafter t (List.mem_of_getLast? hlast)
      omega
    · obtain ⟨text, hholds⟩ := hcut.whole
      have hstop := hholds.stop_le
      refine h.blank i hle (by omega) fun u hu => ?_
      rcases List.mem_cons.mp hu with rfl | hu
      · omega
      · have := hafter u hu
        omega
    · refine ⟨hafter, (List.pairwise_cons.mp h.ascending).2, fun u hu => ?_, fun i hle hi hout => ?_⟩
      · refine (h.cut u (List.mem_cons_of_mem t hu)).imp fun hlast => ?_
        rwa [List.getLast?_cons_of_ne_nil (List.ne_nil_of_mem hu)] at hlast
      · have hstart := h.behind t List.mem_cons_self
        refine h.blank i (by omega) hi fun u hu => ?_
        rcases List.mem_cons.mp hu with rfl | hu
        · omega
        · exact hout u hu
  · rintro ⟨hstart, hcut, hgap, htail⟩
    have hlt := hcut.nonempty
    refine ⟨fun u hu => ?_, List.pairwise_cons.mpr ⟨htail.behind, htail.ascending⟩, fun u hu => ?_,
      fun i hle hi hout => ?_⟩
    · rcases List.mem_cons.mp hu with rfl | hu
      · exact hstart
      · have := htail.behind u hu
        omega
    · rcases List.mem_cons.mp hu with rfl | hu
      · exact hcut.imp fun hnil => by rw [hnil]; rfl
      · refine (htail.cut u hu).imp fun hlast => ?_
        rwa [List.getLast?_cons_of_ne_nil (List.ne_nil_of_mem hu)]
    · by_cases hbefore : i < t.span.start
      · exact hgap i hle hbefore
      · have hcover := hout t List.mem_cons_self
        refine htail.blank i (by omega) hi fun u hu => hout u (List.mem_cons_of_mem t hu)

/-! ### Tilings are readings -/

section Bridge

variable {source : String} {before behind : List Char}

/-- A span that does not start before a cursor cuts what is ahead of the cursor. -/
theorem Span.Holds.split {s : Span} {text : String} {rest : List Char} (h : s.Holds source text)
    (hsource : source.toList = before ++ rest) (hle : byteLength before ≤ s.start) :
    ∃ gap behind, rest = gap ++ (text.toList ++ behind) ∧
      s = ⟨byteLength (before ++ gap), byteLength (before ++ gap) + byteLength text.toList⟩ := by
  obtain ⟨before', behind, hsource', rfl⟩ := h
  obtain ⟨gap, rfl, rfl⟩ := exists_append_of_byteLength_le (hsource.symm.trans hsource') hle
  exact ⟨gap, behind, rfl, by rw [byteLength_append (before ++ gap)]⟩

theorem utf8ByteSize_of_append (hsource : source.toList = before ++ behind) :
    source.utf8ByteSize = byteLength before + byteLength behind := by
  rw [← byteLength_toList, hsource, byteLength_append]

/-- Behind some characters a word may end exactly if the source ends there or a blank comes. -/
theorem endsWord_iff (hsource : source.toList = before ++ behind) :
    EndsWord behind ↔ byteLength before = source.utf8ByteSize ∨ BlankAt source (byteLength before) := by
  have hsize := utf8ByteSize_of_append hsource
  cases behind with
  | nil =>
    rw [byteLength_nil, Nat.add_zero] at hsize
    simp [EndsWord, hsize]
  | cons c behind =>
    have hpos := c.utf8Size_pos
    rw [byteLength_cons] at hsize
    have hne : byteLength before ≠ source.utf8ByteSize := by omega
    simp [EndsWord, hne, blankAt_iff hsource]

theorem Lexeme.Spelled.cutFrom {x : Lexeme} {cs : List Char} (h : x.Spelled (byteLength before) cs behind)
    (hsource : source.toList = before ++ (cs ++ behind)) : x.token.CutFrom source (behind = []) := by
  have hholds : ∀ text : String, text.toList = cs → x.token.span.Holds source text := by
    rintro text rfl
    exact ⟨before, behind, hsource, by rw [h.span_eq, byteLength_append]⟩
  have hnonempty : x.token.span.start < x.token.span.stop := by
    obtain ⟨c, rest, rfl, -⟩ := h.exists_head
    have := byteLength_pos (List.cons_ne_nil c rest)
    rw [h.span_eq]
    simp only
    omega
  have hwhole : ∃ text, x.token.span.Holds source text := ⟨String.ofList cs, hholds _ (by simp)⟩
  have hstop : x.token.span.stop = byteLength (before ++ cs) := by rw [h.span_eq, byteLength_append]
  refine ⟨hnonempty, hwhole, fun hkind => ?_, fun hkind => ?_⟩
  · cases h with
    | word hw hend =>
      rw [hstop, ← endsWord_iff (by rw [hsource, List.append_assoc])]
      refine ⟨hholds _ (by simp), ?_, ?_, hend⟩
      · simpa using hw.no_blank
      · simpa using hw.no_quote
    | quoted => cases hkind
    | unclosed => cases hkind
  · cases h with
    | word => cases hkind
    | quoted _ hq => exact ⟨by simpa using hq, .inl (hholds _ (by simp [quote]))⟩
    | unclosed hq =>
      have hend := utf8ByteSize_of_append hsource
      rw [List.append_nil, ← byteLength_append] at hend
      exact ⟨by simpa using hq, .inr ⟨rfl, hstop.trans hend.symm, hholds _ (by simp [quote])⟩⟩

theorem Span.Holds.exists_word {s : Span} {text : String} {rest : List Char} (h : s.Holds source text)
    (hsource : source.toList = before ++ rest) (hle : byteLength before ≤ s.start) (hw : IsWord text.toList)
    (hend : s.stop = source.utf8ByteSize ∨ BlankAt source s.stop) :
    ∃ gap behind, rest = gap ++ (text.toList ++ behind) ∧
      Lexeme.Spelled ⟨⟨.word, text, s⟩, true⟩ (byteLength (before ++ gap)) text.toList behind := by
  obtain ⟨gap, behind, rfl, rfl⟩ := h.split hsource hle
  have hends : EndsWord behind := by
    have hsplit : source.toList = (before ++ gap ++ text.toList) ++ behind := by simp [hsource]
    rw [endsWord_iff hsplit, byteLength_append]
    exact hend
  have hspelled : Lexeme.Spelled _ (byteLength (before ++ gap)) text.toList behind := .word hw hends
  rw [String.ofList_toList] at hspelled
  exact ⟨gap, behind, rfl, hspelled⟩

theorem Span.Holds.exists_quoted {s : Span} {text : String} {rest : List Char}
    (h : s.Holds source ("\"" ++ text ++ "\"")) (hsource : source.toList = before ++ rest)
    (hle : byteLength before ≤ s.start) (hquote : quote ∉ text.toList) :
    ∃ gap behind, rest = gap ++ (quote :: (text.toList ++ [quote]) ++ behind) ∧
      Lexeme.Spelled ⟨⟨.quoted, text, s⟩, true⟩ (byteLength (before ++ gap))
        (quote :: (text.toList ++ [quote])) behind := by
  obtain ⟨gap, behind, hrest, rfl⟩ := h.split hsource hle
  have htext : ("\"" ++ text ++ "\"").toList = quote :: (text.toList ++ [quote]) := by simp [quote]
  rw [htext] at hrest ⊢
  have hspelled : Lexeme.Spelled _ (byteLength (before ++ gap)) _ behind := .quoted behind hquote
  rw [String.ofList_toList] at hspelled
  exact ⟨gap, behind, hrest, hspelled⟩

theorem Span.Holds.exists_unclosed {s : Span} {text : String} {rest : List Char}
    (h : s.Holds source ("\"" ++ text)) (hsource : source.toList = before ++ rest)
    (hle : byteLength before ≤ s.start) (hend : s.stop = source.utf8ByteSize) (hquote : quote ∉ text.toList) :
    ∃ gap, rest = gap ++ (quote :: text.toList ++ []) ∧
      Lexeme.Spelled ⟨⟨.quoted, text, s⟩, false⟩ (byteLength (before ++ gap)) (quote :: text.toList) [] := by
  obtain ⟨gap, behind, hrest, rfl⟩ := h.split hsource hle
  have htext : ("\"" ++ text).toList = quote :: text.toList := by simp [quote]
  rw [htext] at hrest hend ⊢
  -- the span reaches the end of the source, so nothing is behind it
  have hnil : behind = [] := by
    have hsize := utf8ByteSize_of_append hsource
    rw [hrest] at hsize
    simp only [byteLength_append] at hsize hend
    exact byteLength_eq_zero_iff.mp (by omega)
  subst hnil
  have hspelled : Lexeme.Spelled _ (byteLength (before ++ gap)) _ [] := .unclosed hquote
  rw [String.ofList_toList] at hspelled
  exact ⟨gap, hrest, hspelled⟩

/-- A token that is cut from a source, not before a cursor, is spelled out behind a gap. -/
theorem Token.CutFrom.exists_spelled {t : Token} {last : Prop} {rest : List Char} (h : t.CutFrom source last)
    (hsource : source.toList = before ++ rest) (hle : byteLength before ≤ t.span.start) :
    ∃ gap cs behind closed, rest = gap ++ (cs ++ behind) ∧
      Lexeme.Spelled ⟨t, closed⟩ (byteLength (before ++ gap)) cs behind := by
  have hnonempty := h.nonempty
  obtain ⟨kind, text, span⟩ := t
  cases kind with
  | word =>
    obtain ⟨hholds, hblank, hquote, hend⟩ := h.word rfl
    have hw : IsWord text.toList := ⟨hholds.ne_nil hnonempty, hblank, hquote⟩
    obtain ⟨gap, behind, hrest, hspelled⟩ := hholds.exists_word hsource hle hw hend
    exact ⟨gap, _, behind, true, hrest, hspelled⟩
  | quoted =>
    obtain ⟨hquote, hclosed | ⟨-, hend, hopen⟩⟩ := h.quoted rfl
    · obtain ⟨gap, behind, hrest, hspelled⟩ := hclosed.exists_quoted hsource hle hquote
      exact ⟨gap, _, behind, true, hrest, hspelled⟩
    · obtain ⟨gap, hrest, hspelled⟩ := hopen.exists_unclosed hsource hle hend hquote
      exact ⟨gap, _, [], false, hrest, hspelled⟩

end Bridge

theorem Lexer.Reads.unique {l : Lexer} {xs ys : List Lexeme} (hx : l.Reads xs) (hy : l.Reads ys) : xs = ys :=
  ((l.lexemes_eq_iff_reads xs).mpr hx).symm.trans ((l.lexemes_eq_iff_reads ys).mpr hy)

theorem tiles_of_reads {source : String} {l : Lexer} {xs : List Lexeme} (h : l.Reads xs) :
    ∀ before, source.toList = before ++ l.rest → l.offset = byteLength before →
      Tiles source l.offset (xs.map (·.token)) := by
  induction h with
  | @done rest offset hblanks =>
    rintro before hsource rfl
    have hsize := utf8ByteSize_of_append hsource
    rw [← List.append_nil rest] at hsource
    rw [List.map_nil, tiles_nil_iff, hsize]
    simpa only [byteLength_append] using (blanks_iff_bytes hsource).mp hblanks
  | @cons gap cs behind offset x xs hgap hx hrest ih =>
    rintro before hsource rfl
    simp only at hsource hx ⊢
    rw [← byteLength_append] at hx
    have hassoc : source.toList = (before ++ gap) ++ (cs ++ behind) := by rw [hsource, List.append_assoc]
    have hstart : x.token.span.start = byteLength (before ++ gap) := by rw [hx.span_eq]
    rw [List.map_cons, tiles_cons_iff, hstart]
    refine ⟨by rw [byteLength_append]; omega, ?_, (blanks_iff_bytes hsource).mp hgap, ?_⟩
    · refine (hx.cutFrom hassoc).imp fun hnil => ?_
      subst hnil
      rw [hrest.unique (.done _ fun c hc => by cases hc)]
      rfl
    · refine ih (before ++ gap ++ cs) (by simp [hsource]) ?_
      rw [hx.span_eq, byteLength_append _ cs]

theorem reads_of_tiles {source : String} {ts : List Token} : ∀ {before rest : List Char},
    source.toList = before ++ rest → Tiles source (byteLength before) ts →
      ∃ xs, Lexer.Reads ⟨rest, byteLength before⟩ xs ∧ xs.map (·.token) = ts := by
  induction ts with
  | nil =>
    intro before rest hsource h
    have hsize := utf8ByteSize_of_append hsource
    rw [tiles_nil_iff, hsize, ← byteLength_append] at h
    have hblanks : Blanks rest := (blanks_iff_bytes (by rw [hsource, List.append_nil])).mpr h
    exact ⟨[], .done _ hblanks, rfl⟩
  | cons t ts ih =>
    intro before rest hsource h
    obtain ⟨hle, hcut, hgap, htail⟩ := tiles_cons_iff.mp h
    obtain ⟨gap, cs, behind, closed, rfl, hspelled⟩ := hcut.exists_spelled hsource hle
    have hspan : t.span = ⟨byteLength (before ++ gap), byteLength (before ++ gap ++ cs)⟩ := by
      rw [byteLength_append _ cs]
      exact hspelled.span_eq
    rw [hspan] at hgap htail
    have hbehind : source.toList = (before ++ gap ++ cs) ++ behind := by simp [hsource]
    obtain ⟨xs, hreads, rfl⟩ := ih hbehind htail
    have hblanks : Blanks gap := (blanks_iff_bytes hsource).mpr hgap
    rw [byteLength_append] at hspelled
    refine ⟨⟨t, closed⟩ :: xs, .cons hblanks hspelled ?_, rfl⟩
    simp only [hspan]
    exact hreads

/-- The tokens of a source are the one list of tokens that tiles it. -/
theorem tiles_iff_eq_lex (source : String) (ts : List Token) : Tiles source 0 ts ↔ ts = lex source := by
  have hstart : source.toList = [] ++ source.toList := rfl
  constructor
  · intro h
    obtain ⟨xs, hreads, rfl⟩ := reads_of_tiles hstart h
    have hlexemes : (Lexer.ofSource source).lexemes = xs := (Lexer.lexemes_eq_iff_reads _ _).mpr hreads
    rw [lex, hlexemes]
  · rintro rfl
    have hreads : (Lexer.ofSource source).Reads (Lexer.ofSource source).lexemes :=
      (Lexer.lexemes_eq_iff_reads _ _).mp rfl
    exact tiles_of_reads hreads [] hstart rfl

/-! ### The cursor -/

namespace Lexer

/-- The cursor behind so many calls. -/
def after (l : Lexer) : Nat → Lexer
  | 0 => l
  | n + 1 => (l.after n).next.2

/-- The bytes of the source whose cursor this is. -/
def total (l : Lexer) : Nat := l.offset + byteLength l.rest

/-- What one call does to the cursor. It goes on, in the same source; a token ends where the
cursor stands then; and if there is no token the cursor stands at the end. -/
theorem next_cursor (l : Lexer) : l.offset ≤ l.next.2.offset ∧ l.next.2.total = l.total ∧
    (∀ x, l.next.1 = some x → l.next.2.offset = x.token.span.stop ∧ l.lexemes = x :: l.next.2.lexemes) ∧
    (l.next.1 = none → l.next.2.rest = [] ∧ l.lexemes = []) := by
  obtain ⟨rest, offset⟩ := l
  rcases exists_cut rest offset with hblanks | ⟨gap, x, cs, behind, rfl, hgap, hx⟩
  · rw [next_of_blanks hblanks]
    have hnil : lexemes ⟨rest, offset⟩ = [] := (lexemes_eq_iff_reads _ _).mpr (.done offset hblanks)
    refine ⟨Nat.le_add_right _ _, ?_, ?_, fun _ => ⟨rfl, hnil⟩⟩
    · simp [total, byteLength_nil]
    · intro x hx
      cases hx
  · rw [next_of_spelled hgap hx]
    have hstop : x.token.span.stop = offset + byteLength gap + byteLength cs := by rw [hx.span_eq]
    have hcons : lexemes ⟨gap ++ (cs ++ behind), offset⟩ = x :: lexemes ⟨behind, x.token.span.stop⟩ :=
      (lexemes_eq_iff_reads _ _).mpr (.cons hgap hx ((lexemes_eq_iff_reads _ _).mp rfl))
    refine ⟨?_, ?_, ?_, fun h => by cases h⟩
    · simp only [hstop]
      omega
    · simp only [total, hstop, byteLength_append]
      omega
    · rintro y hy
      obtain rfl := Option.some.inj hy
      exact ⟨rfl, hcons⟩

theorem next_of_rest_nil {l : Lexer} (h : l.rest = []) : l.next = (none, l) := by
  obtain ⟨rest, offset⟩ := l
  obtain rfl : rest = [] := h
  exact next_of_blanks (fun c hc => by cases hc) offset

variable (l : Lexer)

theorem after_offset_mono : Monotone fun n => (l.after n).offset :=
  monotone_nat_of_le_succ fun n => (l.after n).next_cursor.1

theorem after_total (n : Nat) : (l.after n).total = l.total := by
  induction n with
  | zero => rfl
  | succ n ih => exact (l.after n).next_cursor.2.1.trans ih

theorem lexemes_after (n : Nat) : (l.after n).lexemes = l.lexemes.drop n := by
  induction n with
  | zero => rfl
  | succ n ih =>
    obtain ⟨-, -, htoken, hend⟩ := (l.after n).next_cursor
    rw [after, ← List.drop_drop, ← ih]
    cases hnext : (l.after n).next.1 with
    | some x => rw [(htoken x hnext).2, List.drop_one, List.tail_cons]
    | none =>
      obtain ⟨hrest, hnil⟩ := hend hnext
      have hstuck := (l.after n).next.2.next_cursor.2.2.2 (by rw [next_of_rest_nil hrest])
      rw [hnil, hstuck.2, List.drop_nil]

theorem next_after (n : Nat) : (l.after n).next.1 = l.lexemes[n]? := by
  obtain ⟨-, -, htoken, hend⟩ := (l.after n).next_cursor
  rw [← List.head?_drop, ← l.lexemes_after n]
  cases hnext : (l.after n).next.1 with
  | some x => rw [(htoken x hnext).2, List.head?_cons]
  | none => rw [(hend hnext).2, List.head?_nil]

/-- Once there is no token the cursor stays where it is, at the end. -/
theorem after_of_next_none {m n : Nat} (h : (l.after m).next.1 = none) (hlt : m < n) :
    (l.after n).rest = [] := by
  induction n, hlt using Nat.le_induction with
  | base => exact ((l.after m).next_cursor.2.2.2 h).1
  | succ n _ ih => rw [after, next_of_rest_nil ih, ih]

end Lexer

/-- **The lexer tiles the source.** The tokens of a source are the one list of tokens that tiles
it. Call by call the cursor hands them out; it never goes back, stands at the end of each token
that it has handed out, and stands at the end of the source, without a token, for ever once it has
found none. -/
theorem lex_tiles_source (source : String) :
    (∀ ts, Tiles source 0 ts ↔ ts = lex source) ∧
    (∀ n, ((Lexer.ofSource source).after n).next.1.map (·.token) = (lex source)[n]?) ∧
    (Monotone fun n => ((Lexer.ofSource source).after n).offset) ∧
    (∀ n x, ((Lexer.ofSource source).after n).next.1 = some x →
      ((Lexer.ofSource source).after (n + 1)).offset = x.token.span.stop) ∧
    ∀ m n, ((Lexer.ofSource source).after m).next.1 = none → m < n →
      ((Lexer.ofSource source).after n).offset = source.utf8ByteSize ∧
        ((Lexer.ofSource source).after n).next.1 = none := by
  set l := Lexer.ofSource source with hl
  have htotal : l.total = source.utf8ByteSize := by
    rw [hl, Lexer.total, Lexer.ofSource, Nat.zero_add, byteLength_toList]
  refine ⟨tiles_iff_eq_lex source, fun n => ?_, l.after_offset_mono, fun n x hx => ?_, fun m n hm hlt => ?_⟩
  · rw [l.next_after, lex, List.getElem?_map]
  · exact ((l.after n).next_cursor.2.2.1 x hx).1
  · have hrest := l.after_of_next_none hm hlt
    have hoffset := l.after_total n
    rw [Lexer.total, hrest, byteLength_nil, Nat.add_zero, htotal] at hoffset
    exact ⟨hoffset, by rw [Lexer.next_of_rest_nil hrest]⟩

end TagTables
