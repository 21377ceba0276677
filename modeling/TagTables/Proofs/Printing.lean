/-
# Lexing undoes printing

A printout is a list of tokens as they are written, with blanks before the
first and behind each. A word ends at a blank only, so a blank must stand
between a word and the next token; a quoted text ends at its closing quote,
so nothing need stand behind it. Read again, a printout gives its tokens
back, each in the bytes that it was printed to (`lex_text`): piece by piece,
what is behind a piece lets it end where it was meant to (`Lexer.Reads.pieces`).
The quote that closes the last token may be missing if nothing is behind it,
since the end of the source closes it too (`lex_unclosed`).

All tokens of a source can be printed (`printable_of_mem_lex`), so a source may
be replaced by its tokens with single spaces in between (`Printout.spaced`).

Key definitions: `Token.Printable`, `Piece`, `Printout`, `placedFrom`.
Key theorems: `Lexer.Reads.pieces`, `Printout.lex_text`,
`Printout.lex_unclosed`, `printable_of_mem_lex`, `lexing_undoes_printing`.
-/
import Mathlib
import TagTables.Proofs.Lexing

namespace TagTables

/-- The token can be written: a word is not empty, has no blank in it and does not start with a
quote; a quoted text has no quote in it. -/
structure Token.Printable (t : Token) : Prop where
  word : t.kind = .word → IsWord t.text.toList
  quoted : t.kind = .quoted → quote ∉ t.text.toList

/-- The form and the text of a token, without its place. -/
def Token.unplaced (t : Token) : Token.Kind × String := (t.kind, t.text)

/-- A token to print, and what is printed between it and the next one. -/
structure Piece where
  token : Token
  gap : String

/-- How a piece is written. -/
def Piece.text (p : Piece) : String := p.token.render ++ p.gap

/-- How pieces are written. -/
def textOf (pieces : List Piece) : String := String.join (pieces.map Piece.text)

/-- The tokens of pieces that are written from an offset on: each covers the bytes it is
written in. -/
def placedFrom : Nat → List Piece → List Token
  | _, [] => []
  | start, p :: rest =>
    ⟨p.token.kind, p.token.text, ⟨start, start + p.token.render.utf8ByteSize⟩⟩ ::
      placedFrom (start + p.text.utf8ByteSize) rest

/-- Tokens that can be written, with blanks before the first and behind each. -/
structure Printout where
  lead : String
  pieces : List Piece
  lead_blank : Blanks lead.toList
  printable : ∀ p ∈ pieces, p.token.Printable
  gap_blank : ∀ p ∈ pieces, Blanks p.gap.toList
  /-- A word is set off from the next token. -/
  apart : ∀ p ∈ pieces.dropLast, p.token.kind = .word → p.gap ≠ ""

namespace Printout

/-- The text that is printed. -/
def text (p : Printout) : String := p.lead ++ textOf p.pieces

/-- The tokens in the places that they are printed to. -/
def tokens (p : Printout) : List Token := placedFrom p.lead.utf8ByteSize p.pieces

end Printout

theorem textOf_cons (p : Piece) (rest : List Piece) : textOf (p :: rest) = p.text ++ textOf rest := by
  rw [textOf, List.map_cons, String.join_cons]
  rfl

theorem textOf_concat (init : List Piece) (last : Piece) :
    textOf (init ++ [last]) = textOf init ++ last.text := by
  simp [textOf, String.join_append, String.join_cons]

theorem placedFrom_append (start : Nat) (init rest : List Piece) : placedFrom start (init ++ rest) =
    placedFrom start init ++ placedFrom (start + (textOf init).utf8ByteSize) rest := by
  induction init generalizing start with
  | nil => simp [placedFrom, textOf]
  | cons p init ih =>
    have hsize : start + p.text.utf8ByteSize + (textOf init).utf8ByteSize =
        start + (textOf (p :: init)).utf8ByteSize := by
      rw [textOf_cons, String.utf8ByteSize_append, Nat.add_assoc]
    rw [List.cons_append, placedFrom, placedFrom, ih, hsize, List.cons_append]

theorem placedFrom_unplaced (start : Nat) (pieces : List Piece) :
    (placedFrom start pieces).map Token.unplaced = pieces.map (·.token.unplaced) := by
  induction pieces generalizing start with
  | nil => rfl
  | cons p rest ih =>
    rw [placedFrom, List.map_cons, List.map_cons, ih]
    rfl

/-! ### Reading pieces -/

/-- A token that is written in front of something that it can end at is a lexeme. -/
theorem Token.Printable.spelled {t : Token} (h : t.Printable) (start : Nat) {behind : List Char}
    (hend : t.kind = .word → EndsWord behind) :
    Lexeme.Spelled ⟨⟨t.kind, t.text, ⟨start, start + t.render.utf8ByteSize⟩⟩, true⟩ start t.render.toList
      behind := by
  obtain ⟨kind, text, span⟩ := t
  rw [← byteLength_toList]
  cases kind with
  | word =>
    have hspelled : Lexeme.Spelled _ start text.toList behind := .word (h.word rfl) (hend rfl)
    rw [String.ofList_toList] at hspelled
    exact hspelled
  | quoted =>
    have hrender : (Token.render ⟨.quoted, text, span⟩).toList = quote :: (text.toList ++ [quote]) := by
      simp [Token.render, quote]
    have hspelled : Lexeme.Spelled _ start (quote :: (text.toList ++ [quote])) behind :=
      .quoted behind (h.quoted rfl)
    rw [String.ofList_toList] at hspelled
    rw [hrender]
    exact hspelled

/-- Pieces are read before what is behind them, if every word is set off. -/
theorem Lexer.Reads.pieces {tail : List Char} {ys : List Lexeme} : ∀ (pieces : List Piece) (gap : List Char)
    (offset : Nat), Blanks gap → (∀ p ∈ pieces, p.token.Printable) → (∀ p ∈ pieces, Blanks p.gap.toList) →
      (∀ p ∈ pieces, p.token.kind = .word → p.gap ≠ "") →
      Reads ⟨tail, offset + byteLength gap + (textOf pieces).utf8ByteSize⟩ ys →
      Reads ⟨gap ++ ((textOf pieces).toList ++ tail), offset⟩
        ((placedFrom (offset + byteLength gap) pieces).map (⟨·, true⟩) ++ ys)
  | [], gap, offset, hgap, _, _, _, htail => htail.behind_blanks hgap
  | p :: rest, gap, offset, hgap, hprint, hblank, hapart, htail => by
    have hp : p.token.kind = .word → EndsWord (p.gap.toList ++ ((textOf rest).toList ++ tail)) := by
      intro hword
      have hne : p.gap ≠ "" := hapart p List.mem_cons_self hword
      refine endsWord_of_blanks (hblank p List.mem_cons_self) ?_ _
      simpa using hne
    have hspelled := (hprint p List.mem_cons_self).spelled (offset + byteLength gap) hp
    have hsize : p.text.utf8ByteSize = p.token.render.utf8ByteSize + byteLength p.gap.toList := by
      rw [Piece.text, String.utf8ByteSize_append, byteLength_toList]
    have hbehind : Reads ⟨tail, offset + byteLength gap + p.token.render.utf8ByteSize +
        byteLength p.gap.toList + (textOf rest).utf8ByteSize⟩ ys := by
      rw [textOf_cons, String.utf8ByteSize_append, hsize] at htail
      simpa only [Nat.add_assoc] using htail
    have ih := Reads.pieces rest p.gap.toList (offset + byteLength gap + p.token.render.utf8ByteSize)
      (hblank p List.mem_cons_self) (fun q hq => hprint q (List.mem_cons_of_mem p hq))
      (fun q hq => hblank q (List.mem_cons_of_mem p hq)) (fun q hq => hapart q (List.mem_cons_of_mem p hq))
      hbehind
    have hreads := Lexer.Reads.cons hgap hspelled ih
    rw [placedFrom, hsize, textOf_cons, Piece.text]
    simpa only [String.toList_append, List.append_assoc, List.map_cons, List.cons_append, Nat.add_assoc]
      using hreads

namespace Printout

variable (p : Printout)

/-- A printout has no pieces, or a last one behind pieces that are all set off. -/
theorem reads_of_last {init : List Piece} {last : Piece} (hpieces : p.pieces = init ++ [last]) {tail : List Char}
    {ys : List Lexeme} (htail : Lexer.Reads ⟨tail, (p.lead ++ textOf init).utf8ByteSize⟩ ys) :
    Lexer.Reads ⟨p.lead.toList ++ ((textOf init).toList ++ tail), 0⟩
      ((placedFrom p.lead.utf8ByteSize init).map (⟨·, true⟩) ++ ys) := by
  have hmem : ∀ q ∈ init, q ∈ p.pieces := fun q hq => by
    rw [hpieces]
    exact List.mem_append_left _ hq
  have hapart : ∀ q ∈ init, q.token.kind = .word → q.gap ≠ "" := fun q hq => by
    apply p.apart q
    rwa [hpieces, List.dropLast_concat]
  rw [String.utf8ByteSize_append, ← byteLength_toList p.lead] at htail
  have h := Lexer.Reads.pieces init p.lead.toList 0 p.lead_blank (fun q hq => p.printable q (hmem q hq))
    (fun q hq => p.gap_blank q (hmem q hq)) hapart (by rwa [Nat.zero_add])
  rwa [Nat.zero_add, byteLength_toList] at h

/-- A printout gives its tokens back, in their places. -/
theorem lex_text : lex p.text = p.tokens := by
  rcases List.eq_nil_or_concat p.pieces with hnil | ⟨init, last, hlast⟩
  · have htext : p.text.toList = p.lead.toList := by simp [text, hnil, textOf]
    rw [lex_of_reads htext (.done 0 p.lead_blank), tokens, hnil]
    rfl
  · rw [List.concat_eq_append] at hlast
    have hmem : last ∈ p.pieces := by simp [hlast]
    set start := (p.lead ++ textOf init).utf8ByteSize
    have hstart : start = p.lead.utf8ByteSize + (textOf init).utf8ByteSize := String.utf8ByteSize_append
    -- nothing but the last gap is behind the last token
    have hend : EndsWord last.gap.toList := fun c hc =>
      p.gap_blank last hmem c (List.mem_of_mem_head? hc)
    have hspelled := (p.printable last hmem).spelled start fun _ => hend
    have hreads := p.reads_of_last hlast (.cons blanks_nil hspelled (.done _ (p.gap_blank last hmem)))
    have htext : p.text.toList =
        p.lead.toList ++ ((textOf init).toList ++ ([] ++ (last.token.render.toList ++ last.gap.toList))) := by
      simp [text, hlast, textOf_concat, Piece.text]
    rw [lex_of_reads htext hreads, tokens, hlast, placedFrom_append, ← hstart]
    simp [placedFrom, Function.comp_def]

/-- The end of the source closes the last token. -/
theorem lex_unclosed {init : List Piece} {last : Piece} (hlast : p.pieces = init ++ [last])
    (hquoted : last.token.kind = .quoted) :
    (lex (p.lead ++ textOf init ++ "\"" ++ last.token.text)).map Token.unplaced =
      p.pieces.map (·.token.unplaced) := by
  have hmem : last ∈ p.pieces := by simp [hlast]
  have hspelled : Lexeme.Spelled _ (p.lead ++ textOf init).utf8ByteSize (quote :: last.token.text.toList) [] :=
    .unclosed ((p.printable last hmem).quoted hquoted)
  have hreads := p.reads_of_last hlast (.cons blanks_nil hspelled (.done _ blanks_nil))
  have htext : (p.lead ++ textOf init ++ "\"" ++ last.token.text).toList =
      p.lead.toList ++ ((textOf init).toList ++ ([] ++ (quote :: last.token.text.toList ++ []))) := by
    simp [quote]
  have hplaced := placedFrom_unplaced p.lead.utf8ByteSize init
  rw [lex_of_reads htext hreads, hlast, List.map_append, List.map_append, List.map_append, List.map_map, ← hplaced]
  simp [Function.comp_def, Token.unplaced, hquoted]

end Printout

/-! ### Printing the tokens of a source -/

theorem Lexeme.Spelled.printable {x : Lexeme} {start : Nat} {cs behind : List Char}
    (h : x.Spelled start cs behind) : x.token.Printable := by
  cases h with
  | word hw _ => exact ⟨fun _ => by simpa using hw, nofun⟩
  | quoted _ hq => exact ⟨nofun, fun _ => by simpa using hq⟩
  | unclosed hq => exact ⟨nofun, fun _ => by simpa using hq⟩

theorem Lexer.Reads.printable {l : Lexer} {xs : List Lexeme} (h : l.Reads xs) :
    ∀ x ∈ xs, x.token.Printable := by
  induction h with
  | done => exact List.forall_mem_nil _
  | cons _ hx _ ih => exact List.forall_mem_cons.mpr ⟨hx.printable, ih⟩

theorem printable_of_mem_lex {source : String} {t : Token} (h : t ∈ lex source) : t.Printable := by
  obtain ⟨x, hx, rfl⟩ := List.mem_map.mp h
  have hreads := (Lexer.lexemes_eq_iff_reads (Lexer.ofSource source) _).mp rfl
  exact hreads.printable x hx

/-- Tokens with a single space between any two. -/
def spacedPieces : List Token → List Piece
  | [] => []
  | t :: rest => ⟨t, if rest.isEmpty then "" else " "⟩ :: spacedPieces rest

theorem spacedPieces_tokens (ts : List Token) : (spacedPieces ts).map Piece.token = ts := by
  induction ts with
  | nil => rfl
  | cons t rest ih => rw [spacedPieces, List.map_cons, ih]

theorem textOf_spacedPieces (ts : List Token) :
    textOf (spacedPieces ts) = String.intercalate " " (ts.map Token.render) := by
  induction ts with
  | nil => rfl
  | cons t rest ih =>
    rw [spacedPieces, textOf_cons, ih, Piece.text, List.map_cons]
    cases rest with
    | nil => simp
    | cons u rest => rw [String.intercalate_cons_of_ne_nil (by simp)]; rfl

theorem spacedPieces_apart (ts : List Token) : ∀ p ∈ (spacedPieces ts).dropLast, p.gap = " " := by
  induction ts with
  | nil => simp [spacedPieces]
  | cons t rest ih =>
    cases rest with
    | nil => simp [spacedPieces]
    | cons u rest =>
      intro p hp
      rw [spacedPieces, List.dropLast_cons_of_ne_nil (by simp [spacedPieces])] at hp
      rcases List.mem_cons.mp hp with rfl | hp
      · rfl
      · exact ih p hp

theorem spacedPieces_blank (ts : List Token) : ∀ p ∈ spacedPieces ts, Blanks p.gap.toList := by
  induction ts with
  | nil => simp [spacedPieces]
  | cons t rest ih =>
    intro p hp
    rcases List.mem_cons.mp hp with rfl | hp
    · cases rest with
      | nil => simp [Blanks]
      | cons u rest => simp [Blanks, isBlank]
    · exact ih p hp

/-- The printout of tokens with single spaces between them. -/
def Printout.spaced (ts : List Token) (h : ∀ t ∈ ts, t.Printable) : Printout where
  lead := ""
  pieces := spacedPieces ts
  lead_blank := by simp [Blanks]
  printable p hp := by
    apply h
    rw [← spacedPieces_tokens ts]
    exact List.mem_map_of_mem hp
  gap_blank := spacedPieces_blank ts
  apart p hp _ := by simp [spacedPieces_apart ts p hp]

/-- **Lexing undoes printing.** A printout gives its tokens back, each in the bytes that it is
written in; without the closing quote of a quoted last token that nothing is behind, their forms
and texts are the same. In particular, the tokens of a source can be printed with single spaces
between them and read again. -/
theorem lexing_undoes_printing :
    (∀ p : Printout, lex p.text = p.tokens ∧
      p.tokens.map Token.unplaced = p.pieces.map (·.token.unplaced)) ∧
    (∀ (p : Printout) (last : Piece) (cut : String), p.pieces.getLast? = some last →
      last.token.kind = .quoted → last.gap = "" → p.text = cut ++ "\"" →
        (lex cut).map Token.unplaced = p.pieces.map (·.token.unplaced)) ∧
    ∀ source, (lex (String.intercalate " " ((lex source).map Token.render))).map Token.unplaced =
      (lex source).map Token.unplaced := by
  refine ⟨fun p => ⟨p.lex_text, placedFrom_unplaced _ _⟩, fun p last cut hlast hquoted hgap hcut => ?_,
    fun source => ?_⟩
  · obtain ⟨init, hpieces⟩ := List.getLast?_eq_some_iff.mp hlast
    have htext : p.text = p.lead ++ textOf init ++ "\"" ++ last.token.text ++ "\"" := by
      rw [Printout.text, hpieces, textOf_concat, Piece.text, hgap, Token.render, hquoted]
      simp [String.append_assoc]
    have heq : cut = p.lead ++ textOf init ++ "\"" ++ last.token.text :=
      (String.append_left_inj _).mp (hcut.symm.trans htext)
    rw [heq]
    exact p.lex_unclosed hpieces hquoted
  · set p := Printout.spaced (lex source) fun _ ht => printable_of_mem_lex ht with hp
    have htext : p.text = String.intercalate " " ((lex source).map Token.render) := by
      rw [Printout.text, hp, Printout.spaced, textOf_spacedPieces, String.empty_append]
    rw [← htext, p.lex_text, Printout.tokens, placedFrom_unplaced]
    calc p.pieces.map (·.token.unplaced)
        = ((spacedPieces (lex source)).map Piece.token).map Token.unplaced := by rw [List.map_map]; rfl
      _ = (lex source).map Token.unplaced := by rw [spacedPieces_tokens]

/-- Quoted texts stand side by side, one spells a brace, and a word has a quote in it. -/
theorem printed_side_by_side :
    ∃ p : Printout, p.text = "\n\"a b\"\"\x7b\"é\" \"x\"" ∧
      lex p.text = [⟨.quoted, "a b", ⟨1, 6⟩⟩, ⟨.quoted, "\x7b", ⟨6, 9⟩⟩, ⟨.word, "é\"", ⟨9, 12⟩⟩,
        ⟨.quoted, "x", ⟨13, 16⟩⟩] ∧
      (lex "\n\"a b\"\"\x7b\"é\" \"x").map Token.unplaced =
        [(.quoted, "a b"), (.quoted, "\x7b"), (.word, "é\""), (.quoted, "x")] := by
  have hword : IsWord "é\"".toList := ⟨by decide, by simp [isBlank], by decide⟩
  let p : Printout :=
    { lead := "\n"
      pieces := [⟨⟨.quoted, "a b", .point 0⟩, ""⟩, ⟨⟨.quoted, "\x7b", .point 0⟩, ""⟩,
        ⟨⟨.word, "é\"", .point 0⟩, " "⟩, ⟨⟨.quoted, "x", .point 0⟩, ""⟩]
      lead_blank := by simp [Blanks, isBlank]
      printable := by
        simp only [List.forall_mem_cons]
        exact ⟨⟨nofun, fun _ => by decide⟩, ⟨nofun, fun _ => by decide⟩, ⟨fun _ => hword, nofun⟩,
          ⟨nofun, fun _ => by decide⟩, nofun⟩
      gap_blank := by simp [Blanks, isBlank]
      apart := by simp }
  have htext : p.text = "\n\"a b\"\"\x7b\"é\" \"x\"" := by cbv
  obtain ⟨hprinted, hcut, -⟩ := lexing_undoes_printing
  refine ⟨p, htext, (hprinted p).1, ?_⟩
  exact hcut p ⟨⟨.quoted, "x", .point 0⟩, ""⟩ _ rfl rfl rfl htext

end TagTables
