/-
# How the lexer cuts

In front of a cursor stand blanks only, or blanks, then the characters of
one lexeme, then the rest. Which characters make a lexeme is said without
scanning (`Lexeme.Spelled`): a word has no blank in it and a blank or the end
behind it, so it can be cut neither shorter nor longer; the text of a quoted
lexeme has no quote in it, so its closing quote is the next one, and only
the end of the source stands for a missing one. The lexer takes exactly such
a lexeme off (`next_of_spelled`), and there always is one unless only blanks
are left (`exists_cut`). So the lexemes ahead of a cursor are the one list
that reads the rest in this way (`lexemes_eq_iff_reads`).

Key definitions: `Blanks`, `Lexeme.Spelled`, `Lexer.Reads`.
Key theorems: `Lexer.next_of_spelled`, `Lexer.exists_cut`,
`Lexer.lexemes_eq_iff_reads`.
-/
import TagTables.Token.Lexer

namespace TagTables

/-! ### Bytes of characters -/

theorem byteLength_nil : byteLength [] = 0 := rfl

theorem byteLength_append (a b : List Char) : byteLength (a ++ b) = byteLength a + byteLength b := by
  simp only [byteLength, String.ofList_append, String.utf8ByteSize_append]

theorem byteLength_cons (c : Char) (cs : List Char) :
    byteLength (c :: cs) = c.utf8Size + byteLength cs := by
  simp only [byteLength, String.ofList_cons, String.utf8ByteSize_append, String.utf8ByteSize_singleton]

theorem byteLength_pos {cs : List Char} (h : cs ≠ []) : 0 < byteLength cs := by
  cases cs with
  | nil => exact absurd rfl h
  | cons c cs =>
    have := c.utf8Size_pos
    rw [byteLength_cons]
    omega

theorem byteLength_toList (s : String) : byteLength s.toList = s.utf8ByteSize := by
  rw [byteLength, String.ofList_toList]

/-! ### What a lexeme is made of -/

/-- There are only blanks. -/
def Blanks (cs : List Char) : Prop := ∀ c ∈ cs, isBlank c = true

theorem blanks_nil : Blanks [] := fun _ hc => by cases hc

/-- A word may end in front of these characters: there are none, or a blank comes first. -/
def EndsWord (behind : List Char) : Prop := ∀ c ∈ behind.head?, isBlank c = true

theorem endsWord_of_blanks {gap : List Char} (hgap : Blanks gap) (hne : gap ≠ []) (rest : List Char) :
    EndsWord (gap ++ rest) := by
  intro c hc
  obtain ⟨d, gap, rfl⟩ := List.exists_cons_of_ne_nil hne
  obtain rfl : d = c := by simpa using hc
  exact hgap d List.mem_cons_self

/-- The characters of a word. -/
structure IsWord (cs : List Char) : Prop where
  ne_nil : cs ≠ []
  no_blank : ∀ c ∈ cs, isBlank c = false
  no_quote : cs.head? ≠ some quote

/-- The lexeme that starts at an offset, with its own characters and those behind it. -/
inductive Lexeme.Spelled : Lexeme → Nat → List Char → List Char → Prop where
  | word {start : Nat} {cs behind : List Char} : IsWord cs → EndsWord behind →
    Spelled ⟨⟨.word, String.ofList cs, ⟨start, start + byteLength cs⟩⟩, true⟩ start cs behind
  | quoted {start : Nat} {text : List Char} (behind : List Char) : quote ∉ text →
    Spelled ⟨⟨.quoted, String.ofList text, ⟨start, start + byteLength (quote :: (text ++ [quote]))⟩⟩, true⟩
      start (quote :: (text ++ [quote])) behind
  | unclosed {start : Nat} {text : List Char} : quote ∉ text →
    Spelled ⟨⟨.quoted, String.ofList text, ⟨start, start + byteLength (quote :: text)⟩⟩, false⟩
      start (quote :: text) []

namespace Lexeme.Spelled

variable {x : Lexeme} {start : Nat} {cs behind : List Char}

theorem span_eq (h : x.Spelled start cs behind) : x.token.span = ⟨start, start + byteLength cs⟩ := by
  cases h <;> rfl

theorem exists_head (h : x.Spelled start cs behind) : ∃ c rest, cs = c :: rest ∧ isBlank c = false := by
  cases h with
  | word hw _ =>
    obtain ⟨c, rest, rfl⟩ := List.exists_cons_of_ne_nil hw.ne_nil
    exact ⟨c, rest, rfl, hw.no_blank c List.mem_cons_self⟩
  | quoted => exact ⟨quote, _, rfl, by decide⟩
  | unclosed => exact ⟨quote, _, rfl, by decide⟩

end Lexeme.Spelled

/-! ### Taking one lexeme off -/

section Spans

variable {p : Char → Bool} {a b : List Char}

theorem takeWhile_append_of_stop (ha : ∀ c ∈ a, p c = true) (hb : ∀ c ∈ b.head?, p c = false) :
    (a ++ b).takeWhile p = a := by
  rw [List.takeWhile_append_of_pos ha]
  cases b with
  | nil => simp
  | cons c b => simp [hb c rfl]

theorem dropWhile_append_of_stop (ha : ∀ c ∈ a, p c = true) (hb : ∀ c ∈ b.head?, p c = false) :
    (a ++ b).dropWhile p = b := by
  rw [List.dropWhile_append_of_pos ha]
  cases b with
  | nil => simp
  | cons c b => simp [hb c rfl]

theorem exists_stretch (p : Char → Bool) (cs : List Char) :
    ∃ a b, cs = a ++ b ∧ (∀ c ∈ a, p c = true) ∧ ∀ c ∈ b.head?, p c = false := by
  refine ⟨cs.takeWhile p, cs.dropWhile p, List.takeWhile_append_dropWhile.symm, ?_, ?_⟩
  · exact List.all_eq_true.mp List.all_takeWhile
  · intro c hc
    have hstop := List.head?_dropWhile_not p cs
    rw [Option.mem_def.mp hc] at hstop
    exact hstop

end Spans

namespace Lexer

theorem skipBlanks_go_append {gap : List Char} (hgap : Blanks gap) (rest : List Char) (offset : Nat) :
    skipBlanks.go (gap ++ rest) offset = skipBlanks.go rest (offset + byteLength gap) := by
  induction gap generalizing offset with
  | nil => rfl
  | cons c gap ih =>
    have hc : isBlank c = true := hgap c List.mem_cons_self
    have htail : Blanks gap := fun d hd => hgap d (List.mem_cons_of_mem c hd)
    rw [List.cons_append, skipBlanks.go, if_pos hc, ih htail, byteLength_cons, Nat.add_assoc]

theorem skipBlanks_of_blanks {rest : List Char} (h : Blanks rest) (offset : Nat) :
    skipBlanks ⟨rest, offset⟩ = ⟨[], offset + byteLength rest⟩ := by
  have hgo := skipBlanks_go_append h [] offset
  rwa [List.append_nil] at hgo

theorem skipBlanks_of_head {gap : List Char} (hgap : Blanks gap) {c : Char} (hc : isBlank c = false)
    (rest : List Char) (offset : Nat) :
    skipBlanks ⟨gap ++ c :: rest, offset⟩ = ⟨c :: rest, offset + byteLength gap⟩ := by
  have hstop : ¬ isBlank c = true := by simp [hc]
  rw [skipBlanks, skipBlanks_go_append hgap, skipBlanks.go, if_neg hstop]

theorem scan_of_spelled {x : Lexeme} {start : Nat} {cs behind : List Char}
    (h : x.Spelled start cs behind) :
    scan ⟨cs ++ behind, start⟩ = some (x, ⟨behind, x.token.span.stop⟩) := by
  cases h with
  | word hw hend =>
    obtain ⟨c, rest, rfl⟩ := List.exists_cons_of_ne_nil hw.ne_nil
    have hc : ¬ c = quote := fun h => hw.no_quote (by rw [List.head?_cons, h])
    have hin : ∀ d ∈ c :: rest, (!isBlank d) = true := fun d hd => by simp [hw.no_blank d hd]
    have hstop : ∀ d ∈ behind.head?, (!isBlank d) = false := fun d hd => by simp [hend d hd]
    have htake := takeWhile_append_of_stop hin hstop
    have hdrop := dropWhile_append_of_stop hin hstop
    simp only [scan, List.cons_append, if_neg hc, scanWord]
    rw [← List.cons_append, htake, hdrop]
  | @quoted _ text _ hq =>
    have hin : ∀ d ∈ text, (d != quote) = true := fun d hd => by
      simpa using fun h : d = quote => hq (h ▸ hd)
    have hstop : ∀ d ∈ (quote :: behind).head?, (d != quote) = false := by simp
    have htake := takeWhile_append_of_stop hin hstop
    have hdrop := dropWhile_append_of_stop hin hstop
    simp only [scan, List.cons_append, List.append_assoc, List.nil_append, if_pos, scanQuoted, htake, hdrop,
      byteLength_cons, byteLength_append, byteLength_nil, Nat.add_zero, Nat.add_assoc]
  | @unclosed _ text hq =>
    have hin : ∀ d ∈ text, (d != quote) = true := fun d hd => by
      simpa using fun h : d = quote => hq (h ▸ hd)
    have htake := takeWhile_append_of_stop (b := []) hin (by simp)
    have hdrop := dropWhile_append_of_stop (b := []) hin (by simp)
    rw [List.append_nil] at htake hdrop
    simp only [scan, List.append_nil, if_pos, scanQuoted, htake, hdrop, byteLength_cons, Nat.add_assoc]

theorem next_of_blanks {rest : List Char} (h : Blanks rest) (offset : Nat) :
    next ⟨rest, offset⟩ = (none, ⟨[], offset + byteLength rest⟩) := by
  rw [next, skipBlanks_of_blanks h]
  rfl

/-- The lexer skips the gap and cuts off the lexeme behind it. -/
theorem next_of_spelled {gap : List Char} (hgap : Blanks gap) {x : Lexeme} {offset : Nat}
    {cs behind : List Char} (h : x.Spelled (offset + byteLength gap) cs behind) :
    next ⟨gap ++ (cs ++ behind), offset⟩ = (some x, ⟨behind, x.token.span.stop⟩) := by
  have hscan := scan_of_spelled h
  obtain ⟨c, rest, rfl, hc⟩ := h.exists_head
  rw [next, List.cons_append, skipBlanks_of_head hgap hc, ← List.cons_append, hscan]

/-! ### There always is a lexeme -/

/-- Characters that do not start with a blank start with a lexeme. -/
theorem exists_spelled (start : Nat) {c : Char} (hc : isBlank c = false) (rest : List Char) :
    ∃ x cs behind, c :: rest = cs ++ behind ∧ Lexeme.Spelled x start cs behind := by
  by_cases hq : c = quote
  · obtain ⟨text, tail, rfl, htext, hstop⟩ := exists_stretch (· != quote) rest
    have hin : quote ∉ text := fun h => by simpa using htext quote h
    cases tail with
    | nil => exact ⟨_, _, [], by rw [hq, List.append_nil, List.append_nil], .unclosed hin⟩
    | cons d behind =>
      have hd : d = quote := by simpa using hstop d rfl
      exact ⟨_, _, behind, by simp [hq, hd], .quoted behind hin⟩
  · obtain ⟨word, behind, hsplit, hword, hstop⟩ := exists_stretch (!isBlank ·) (c :: rest)
    -- the stretch is not empty, since the first character is no blank
    have hhead : word.head? = some c := by
      cases word with
      | nil =>
        have := hstop c (by rw [List.nil_append] at hsplit; rw [← hsplit]; rfl)
        simp [hc] at this
      | cons d word =>
        rw [List.cons_append, List.cons.injEq] at hsplit
        rw [List.head?_cons, hsplit.1]
    have hend : EndsWord behind := fun d hd => by simpa using hstop d hd
    refine ⟨_, word, behind, hsplit, .word ⟨?_, ?_, ?_⟩ hend⟩
    · intro h
      simp [h] at hhead
    · intro d hd
      simpa using hword d hd
    · rw [hhead]
      simpa using hq

/-- In front of a cursor stand blanks only, or blanks and then a lexeme. -/
theorem exists_cut (rest : List Char) (offset : Nat) :
    Blanks rest ∨ ∃ gap x cs behind, rest = gap ++ (cs ++ behind) ∧ Blanks gap ∧
      Lexeme.Spelled x (offset + byteLength gap) cs behind := by
  obtain ⟨gap, tail, rfl, hgap, hstop⟩ := exists_stretch isBlank rest
  cases tail with
  | nil => exact .inl (by rwa [List.append_nil])
  | cons c tail =>
    obtain ⟨x, cs, behind, hsplit, hx⟩ := exists_spelled (offset + byteLength gap) (hstop c rfl) tail
    exact .inr ⟨gap, x, cs, behind, by rw [hsplit], hgap, hx⟩

/-! ### All lexemes -/

/-- The characters ahead of a cursor are read as these lexemes. -/
inductive Reads : Lexer → List Lexeme → Prop where
  | done {rest : List Char} (offset : Nat) : Blanks rest → Reads ⟨rest, offset⟩ []
  | cons {gap cs behind : List Char} {offset : Nat} {x : Lexeme} {xs : List Lexeme} : Blanks gap →
    x.Spelled (offset + byteLength gap) cs behind → Reads ⟨behind, x.token.span.stop⟩ xs →
    Reads ⟨gap ++ (cs ++ behind), offset⟩ (x :: xs)

theorem Reads.behind_blanks {gap rest : List Char} {offset : Nat} {xs : List Lexeme} (hgap : Blanks gap)
    (h : Reads ⟨rest, offset + byteLength gap⟩ xs) : Reads ⟨gap ++ rest, offset⟩ xs := by
  have happend : ∀ {more : List Char}, Blanks more → Blanks (gap ++ more) := fun hmore c hc =>
    (List.mem_append.mp hc).elim (hgap c) (hmore c)
  generalize hl : (⟨rest, offset + byteLength gap⟩ : Lexer) = l at h
  cases h with
  | done _ hblanks =>
    obtain ⟨rfl, rfl⟩ := Lexer.mk.inj hl
    exact .done offset (happend hblanks)
  | @cons more cs behind _ x xs hmore hx hrest =>
    obtain ⟨rfl, rfl⟩ := Lexer.mk.inj hl
    rw [Nat.add_assoc, ← byteLength_append] at hx
    rw [← List.append_assoc]
    exact .cons (happend hmore) hx hrest

theorem collect_eq (l : Lexer) (done : Array Lexeme) : l.collect done =
    match l.next with
    | (none, _) => done
    | (some x, after) => after.collect (done.push x) := by
  rw [collect, next]
  split
  · next h => rw [h]
  · next h => rw [h]

theorem collect_of_reads {l : Lexer} {xs : List Lexeme} (h : l.Reads xs) :
    ∀ done : Array Lexeme, (l.collect done).toList = done.toList ++ xs := by
  induction h with
  | done offset hblanks =>
    intro done
    rw [collect_eq, next_of_blanks hblanks]
    simp
  | cons hgap hx _ ih =>
    intro done
    rw [collect_eq, next_of_spelled hgap hx]
    simp [ih]

theorem exists_reads (l : Lexer) : ∃ xs, l.Reads xs := by
  obtain ⟨rest, offset⟩ := l
  induction hn : rest.length using Nat.strongRecOn generalizing rest offset with
  | ind n ih =>
    rcases exists_cut rest offset with hblanks | ⟨gap, x, cs, behind, rfl, hgap, hx⟩
    · exact ⟨[], .done offset hblanks⟩
    · -- the lexeme takes a character at least
      obtain ⟨c, tail, rfl, -⟩ := hx.exists_head
      have hlt : behind.length < n := by
        simp only [List.length_append, List.length_cons] at hn
        omega
      obtain ⟨xs, hxs⟩ := ih behind.length hlt behind x.token.span.stop rfl
      exact ⟨x :: xs, .cons hgap hx hxs⟩

/-- The lexemes ahead of a cursor are the one list that reads what is ahead. -/
theorem lexemes_eq_iff_reads (l : Lexer) (xs : List Lexeme) : l.lexemes = xs ↔ l.Reads xs := by
  have heq : ∀ {ys}, l.Reads ys → l.lexemes = ys := fun hys => by
    simpa [lexemes] using collect_of_reads hys #[]
  constructor
  · intro h
    obtain ⟨ys, hys⟩ := l.exists_reads
    rwa [← h, heq hys]
  · exact heq

end Lexer

theorem lex_of_reads {source : String} {cs : List Char} {xs : List Lexeme} (hsource : source.toList = cs)
    (h : Lexer.Reads ⟨cs, 0⟩ xs) : lex source = xs.map (·.token) := by
  subst hsource
  have hlexemes : (Lexer.ofSource source).lexemes = xs := (Lexer.lexemes_eq_iff_reads _ _).mpr h
  rw [lex, hlexemes]

end TagTables
