/-
# Lexer

A cursor into the characters of a source that cuts one token at a time:
blanks are skipped, a quote runs to the next quote, anything else is a word
and runs to the next blank. A quote inside a word is text. A quoted token
whose closing quote is missing ends with the source and is still a token; it
is marked as not closed. Offsets count bytes.

Key definitions: `Lexer.next`, `Lexer.lexemes`, `lex`.
-/
import TagTables.Text.Blank
import TagTables.Token

namespace TagTables

/-- The bytes that a list of characters takes. -/
def byteLength (cs : List Char) : Nat := (String.ofList cs).utf8ByteSize

/-- A token, and whether it ended before the source did by itself. -/
structure Lexeme where
  token : Token
  /-- False for a quoted token without its closing quote. -/
  closed : Bool := true
deriving DecidableEq

/-- The characters still to read and the byte offset of the first of them. -/
structure Lexer where
  rest : List Char
  offset : Nat := 0

namespace Lexer

/-- The cursor at the start of a source. -/
def ofSource (source : String) : Lexer := ⟨source.toList, 0⟩

/-- Moves a cursor past the blanks in front of it. -/
def skipBlanks (l : Lexer) : Lexer := go l.rest l.offset
where
  go : List Char → Nat → Lexer
    | [], offset => ⟨[], offset⟩
    | c :: rest, offset => if isBlank c then go rest (offset + c.utf8Size) else ⟨c :: rest, offset⟩

/-- Cuts a quoted token whose opening quote was at `start` and whose body is `body`. -/
def scanQuoted (start : Nat) (body : List Char) : Lexeme × Lexer :=
  let text := body.takeWhile (· != quote)
  let stop := start + quote.utf8Size + byteLength text
  match body.dropWhile (· != quote) with
  | [] => (⟨⟨.quoted, String.ofList text, ⟨start, stop⟩⟩, false⟩, ⟨[], stop⟩)
  | _ :: rest =>
    let stop := stop + quote.utf8Size
    (⟨⟨.quoted, String.ofList text, ⟨start, stop⟩⟩, true⟩, ⟨rest, stop⟩)

/-- Cuts a word that starts with the first of `cs`. -/
def scanWord (start : Nat) (cs : List Char) : Lexeme × Lexer :=
  let text := cs.takeWhile (!isBlank ·)
  let stop := start + byteLength text
  (⟨⟨.word, String.ofList text, ⟨start, stop⟩⟩, true⟩, ⟨cs.dropWhile (!isBlank ·), stop⟩)

/-- Cuts the token that starts with the next character. -/
def scan (l : Lexer) : Option (Lexeme × Lexer) :=
  match l.rest with
  | [] => none
  | c :: rest =>
    if c = quote then some (scanQuoted l.offset rest) else some (scanWord l.offset (c :: rest))

/-- The next token, or none at the end of the source, and the cursor behind it. -/
def next (l : Lexer) : Option Lexeme × Lexer :=
  match l.skipBlanks.scan with
  | none => (none, l.skipBlanks)
  | some (x, after) => (some x, after)

theorem skipBlanks_go_length : ∀ (cs : List Char) (offset : Nat),
    (skipBlanks.go cs offset).rest.length ≤ cs.length
  | [], _ => Nat.le_refl _
  | c :: cs, offset => by
    unfold skipBlanks.go
    split
    · exact Nat.le_succ_of_le (skipBlanks_go_length cs _)
    · exact Nat.le_refl _

/-- Behind the blanks stands no blank. -/
theorem skipBlanks_go_head : ∀ (cs : List Char) (offset : Nat) {c : Char} {rest : List Char},
    (skipBlanks.go cs offset).rest = c :: rest → isBlank c = false
  | [], _, _, _, h => by simp [skipBlanks.go] at h
  | d :: cs, offset, c, rest, h => by
    unfold skipBlanks.go at h
    split at h
    · exact skipBlanks_go_head cs _ h
    · next hd =>
      simp only [List.cons.injEq] at h
      rw [← h.1]
      simpa using hd

theorem scanQuoted_length (start : Nat) (body : List Char) :
    (scanQuoted start body).2.rest.length ≤ body.length := by
  have hle := (List.dropWhile_sublist (· != quote) (l := body)).length_le
  unfold scanQuoted
  split
  · exact Nat.zero_le _
  · next hd =>
    rw [hd, List.length_cons] at hle
    exact Nat.le_of_succ_le hle

theorem scanWord_length (start : Nat) {c : Char} (hc : isBlank c = false) (rest : List Char) :
    (scanWord start (c :: rest)).2.rest.length ≤ rest.length := by
  simp only [scanWord, List.dropWhile_cons, hc, Bool.not_false, ite_true]
  exact (List.dropWhile_sublist _).length_le

/-- A token takes at least one character. -/
theorem scan_skipBlanks_length {l after : Lexer} {x : Lexeme}
    (h : l.skipBlanks.scan = some (x, after)) : after.rest.length < l.rest.length := by
  have hle : l.skipBlanks.rest.length ≤ l.rest.length := skipBlanks_go_length l.rest l.offset
  unfold scan at h
  split at h
  · cases h
  · next c rest hrest =>
    rw [hrest, List.length_cons] at hle
    split at h
    · have := scanQuoted_length l.skipBlanks.offset rest
      rw [Option.some.inj h] at this
      exact Nat.lt_of_le_of_lt this hle
    · have hc := skipBlanks_go_head l.rest l.offset hrest
      have := scanWord_length l.skipBlanks.offset hc rest
      rw [Option.some.inj h] at this
      exact Nat.lt_of_le_of_lt this hle

/-- Appends the lexemes ahead of the cursor to those already cut. -/
def collect (l : Lexer) (done : Array Lexeme) : Array Lexeme :=
  match _h : l.skipBlanks.scan with
  | none => done
  | some (x, after) => collect after (done.push x)
termination_by l.rest.length
decreasing_by exact scan_skipBlanks_length _h

/-- All lexemes ahead of the cursor. -/
def lexemes (l : Lexer) : List Lexeme := (l.collect #[]).toList

end Lexer

/-- The tokens of a source. -/
def lex (source : String) : List Token := (Lexer.ofSource source).lexemes.map (·.token)

end TagTables
