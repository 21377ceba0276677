/-
# Reading literals back

A reader of a literal takes the opening quote, then characters and escapes up
to the first quote that is not escaped. What it reads from the literal of a
text is the text, and it stops where the literal does, whatever comes behind:
every character is written so that one step of the reader takes it back
(`readBody_escape`). None of the characters it is written with is a line
feed, a carriage return or a tab, so a literal stays on its line.

Two texts that start with literals can therefore only be the same if the
literals and what is behind them are (`literal_append_inj`): a literal tells
its text, and where it ends.

Key definitions: `Emit.unescape?`, `Emit.readBody`, `Emit.readLiteral`.
Key theorems: `Emit.readLiteral_literal`, `Emit.isInline_of_mem_literal`,
`Emit.literal_append_inj`, `Emit.literal_self_delimiting`.
-/
import Mathlib
import TagTables.Emit.Literal

namespace TagTables
namespace Emit

/-- The character that is written as a backslash and this one. -/
def unescape? (c : Char) : Option Char :=
  if c = '"' then some '"'
  else if c = '\\' then some '\\'
  else if c = 'n' then some '\n'
  else if c = 'r' then some '\r'
  else if c = 't' then some '\t'
  else none

/-- Reads up to the first quote that is not escaped: the text before it, and what is behind it. -/
def readBody : List Char → Option (List Char × List Char)
  | [] => none
  | '"' :: rest => some ([], rest)
  | ['\\'] => none
  | '\\' :: c :: rest => do
    let first ← unescape? c
    let (text, behind) ← readBody rest
    return (first :: text, behind)
  | c :: rest => do
    let (text, behind) ← readBody rest
    return (c :: text, behind)

/-- Reads a literal: its text, and what is behind it. -/
def readLiteral : List Char → Option (String × List Char)
  | '"' :: rest => (readBody rest).map fun p => (String.ofList p.1, p.2)
  | _ => none

/-- Whether a character leaves a text on its line and in its column. -/
def isInline (c : Char) : Bool := c ≠ '\n' ∧ c ≠ '\r' ∧ c ≠ '\t'

/-- A character is written as an escape of it, or as itself if that is safe. -/
theorem escape_cases (c : Char) :
    (∃ d, escape c = ['\\', d] ∧ unescape? d = some c ∧ isInline d = true) ∨
      (escape c = [c] ∧ c ≠ '"' ∧ c ≠ '\\' ∧ isInline c = true) := by
  unfold escape
  split_ifs with hquote hslash hline hreturn htab
  · exact .inl ⟨'"', rfl, by rw [hquote]; rfl, rfl⟩
  · exact .inl ⟨'\\', rfl, by rw [hslash]; rfl, rfl⟩
  · exact .inl ⟨'n', rfl, by rw [hline]; rfl, rfl⟩
  · exact .inl ⟨'r', rfl, by rw [hreturn]; rfl, rfl⟩
  · exact .inl ⟨'t', rfl, by rw [htab]; rfl, rfl⟩
  · refine .inr ⟨rfl, hquote, hslash, ?_⟩
    simp [isInline, hline, hreturn, htab]

theorem readBody_backslash {c d : Char} (h : unescape? d = some c) (rest : List Char) :
    readBody ('\\' :: d :: rest) = (readBody rest).map fun p => (c :: p.1, p.2) := by
  rw [readBody, h]
  rcases readBody rest with _ | ⟨text, behind⟩ <;> rfl

theorem readBody_plain {c : Char} (hquote : c ≠ '"') (hslash : c ≠ '\\') (rest : List Char) :
    readBody (c :: rest) = (readBody rest).map fun p => (c :: p.1, p.2) := by
  rcases h : readBody rest with _ | ⟨text, behind⟩ <;> simp [readBody, hslash, h]

/-- The reader takes one written character back in one step. -/
theorem readBody_escape (c : Char) (rest : List Char) :
    readBody (escape c ++ rest) = (readBody rest).map fun p => (c :: p.1, p.2) := by
  rcases escape_cases c with ⟨d, hescape, hd, -⟩ | ⟨hescape, hquote, hslash, -⟩
  · rw [hescape]
    exact readBody_backslash hd rest
  · rw [hescape]
    exact readBody_plain hquote hslash rest

theorem readBody_flatMap_escape (cs rest : List Char) :
    readBody (cs.flatMap escape ++ '"' :: rest) = some (cs, rest) := by
  induction cs with
  | nil => rfl
  | cons c cs ih => rw [List.flatMap_cons, List.append_assoc, readBody_escape, ih, Option.map_some]

theorem toList_literal (s : String) : (literal s).toList = '"' :: (s.toList.flatMap escape ++ ['"']) := by
  simp [literal]

/-- The reader finds the text of a literal, and leaves what is behind it. -/
theorem readLiteral_literal (s : String) (rest : List Char) :
    readLiteral ((literal s).toList ++ rest) = some (s, rest) := by
  rw [toList_literal, List.cons_append, List.append_assoc, List.singleton_append, readLiteral,
    readBody_flatMap_escape, Option.map_some, String.ofList_toList]

theorem isInline_of_mem_escape {c x : Char} (h : x ∈ escape c) : isInline x = true := by
  rcases escape_cases c with ⟨d, hescape, -, hd⟩ | ⟨hescape, -, -, hc⟩
  · rw [hescape, List.mem_cons, List.mem_singleton] at h
    rcases h with rfl | rfl
    · rfl
    · exact hd
  · rw [hescape, List.mem_singleton] at h
    subst h
    exact hc

theorem isInline_of_mem_literal {s : String} {x : Char} (h : x ∈ (literal s).toList) : isInline x = true := by
  rw [toList_literal, List.mem_cons, List.mem_append, List.mem_flatMap, List.mem_singleton] at h
  rcases h with rfl | ⟨c, -, hx⟩ | rfl
  · decide
  · exact isInline_of_mem_escape hx
  · decide

/-- A text that starts with a literal starts with no other one. -/
theorem literal_append_inj {s t : String} {rest rest' : List Char} :
    (literal s).toList ++ rest = (literal t).toList ++ rest' ↔ s = t ∧ rest = rest' := by
  constructor
  · intro h
    have hread : some (s, rest) = some (t, rest') := by
      rw [← readLiteral_literal s rest, ← readLiteral_literal t rest', h]
    exact Prod.mk.inj (Option.some.inj hread)
  · rintro ⟨rfl, rfl⟩
    rfl

theorem literal_injective : Function.Injective literal := by
  intro s t h
  have happend : (literal s).toList ++ [] = (literal t).toList ++ [] := by rw [h]
  exact (literal_append_inj.mp happend).1

theorem isPrefix_literal_iff {s t : String} : (literal s).toList <+: (literal t).toList ↔ s = t := by
  constructor
  · rintro ⟨rest, h⟩
    rw [← List.append_nil (literal t).toList] at h
    exact (literal_append_inj.mp h).1
  · rintro rfl
    exact List.prefix_rfl

/-- **A literal delimits itself and loses nothing.** The reader of a literal with anything behind it finds
the text of the literal and leaves what is behind it. There is no line feed, carriage return or tab in a
literal. So different texts have different literals, and none of them starts another. -/
theorem literal_self_delimiting :
    (∀ s behind : String, readLiteral (literal s ++ behind).toList = some (s, behind.toList)) ∧
    (∀ s, '\n' ∉ (literal s).toList ∧ '\r' ∉ (literal s).toList ∧ '\t' ∉ (literal s).toList) ∧
    Function.Injective literal ∧
    (∀ s t, (literal s).toList <+: (literal t).toList ↔ s = t) := by
  refine ⟨fun s behind => ?_, fun s => ?_, literal_injective, fun s t => isPrefix_literal_iff⟩
  · rw [String.toList_append, readLiteral_literal]
  · have hinline : ∀ c, isInline c = false → c ∉ (literal s).toList := by
      intro c hc hmem
      rw [isInline_of_mem_literal hmem] at hc
      cases hc
    exact ⟨hinline _ (by decide), hinline _ (by decide), hinline _ (by decide)⟩

end Emit
end TagTables
