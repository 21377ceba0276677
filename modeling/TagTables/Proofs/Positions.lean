/-
# A place is a line, a column and nothing else

The place of an offset is found by going over the characters in front of it.
Here it is tied to the lines of the source as they are cut at the line feeds.
A cut through a line (`Position.Cut`) has lines above it and below it and a
part of its own line on either side. The characters in front of it take a run
from the first place to the place of the cut (`Cut.foldl_after`), and their
bytes are what the lines above and the left part amount to
(`Cut.offsetIn_place`). Every offset between characters is such a cut, and so
is every line and column that the source has. So an offset has this place
exactly if the source has the place and its bytes come to the offset
(`ofOffset?_eq_some_iff`). An offset inside a character, and no other, has
none (`ofOffset?_eq_none_iff`).

Each character takes a run further on in the order of lines and columns
(`key_lt_after`), so later offsets have later places.

Key definitions: `InsideCharacter`, `Position.InSource`,
`Position.offsetIn`, `Position.Cut`, `Position.key`.
Key theorems: `Position.ofOffset?_eq_none_iff`,
`Position.ofOffset?_eq_some_iff`, `Position.key_lt_of_lt`,
`position_identifies_offset`.
-/
import Mathlib
import TagTables.Proofs.Rendering
import TagTables.Text.Pieces

namespace TagTables

/-! ### Offsets without a place -/

/-- The offset lies inside a character: behind its first byte and in front of its end. -/
def InsideCharacter (source : String) (offset : Nat) : Prop :=
  ∃ before c behind, source.toList = before ++ c :: behind ∧
    byteLength before < offset ∧ offset < byteLength (before ++ [c])

theorem boundary_or_insideCharacter {source : String} {offset : Nat} (h : offset ≤ source.utf8ByteSize) :
    Boundary source offset ∨ InsideCharacter source offset := by
  by_cases hend : offset = source.utf8ByteSize
  · left
    rw [hend, ← byteLength_toList]
    exact boundary_of_append (List.append_nil _).symm
  · have hlt : offset < byteLength ([] ++ source.toList) := by
      rw [List.nil_append, byteLength_toList]
      omega
    obtain ⟨before, c, behind, hsource, hle, hc⟩ := exists_char_of_byte source.toList [] (Nat.zero_le offset) hlt
    rw [List.nil_append] at hle hc
    by_cases hfirst : byteLength before = offset
    · left
      rw [← hfirst]
      exact boundary_of_append hsource
    · exact .inr ⟨before, c, behind, hsource, by omega, hc⟩

namespace Position

theorem advance?_nil (p : Position) (bytes : Nat) : p.advance? [] bytes = some p := by
  cases bytes <;> rfl

theorem advance?_part (p : Position) {c : Char} {bytes : Nat} (hpos : 0 < bytes) (hlt : bytes < c.utf8Size)
    (behind : List Char) : p.advance? (c :: behind) bytes = none := by
  obtain ⟨n, rfl⟩ : ∃ n, bytes = n + 1 := ⟨bytes - 1, by omega⟩
  rw [advance?, if_neg (by omega)]

theorem ofOffset?_of_insideCharacter {source : String} {offset : Nat} (h : InsideCharacter source offset) :
    ofOffset? source offset = none := by
  obtain ⟨before, c, behind, hsource, hlt, hgt⟩ := h
  rw [byteLength_concat] at hgt
  obtain ⟨part, rfl⟩ := Nat.exists_eq_add_of_lt hlt
  unfold ofOffset?
  rw [hsource, Nat.add_assoc, advance?_append]
  apply advance?_part <;> omega

theorem ofOffset?_clamp (source : String) (offset : Nat) :
    ofOffset? source offset = ofOffset? source (min offset source.utf8ByteSize) := by
  by_cases h : offset ≤ source.utf8ByteSize
  · rw [min_eq_left h]
  · obtain ⟨more, rfl⟩ := Nat.exists_eq_add_of_le (Nat.le_of_not_le h)
    have hbehind : ofOffset? source (source.utf8ByteSize + more) = some (source.toList.foldl after ⟨1, 1⟩) := by
      have hrun := advance?_append [] more source.toList ⟨1, 1⟩
      rwa [List.append_nil, byteLength_toList, advance?_nil] at hrun
    have hend := ofOffset?_of_append (List.append_nil source.toList).symm
    rw [byteLength_toList] at hend
    rw [min_eq_right (by omega), hbehind, hend]

/-- An offset has no place exactly if it is inside a character. -/
theorem ofOffset?_eq_none_iff (source : String) (offset : Nat) :
    ofOffset? source offset = none ↔ InsideCharacter source (min offset source.utf8ByteSize) := by
  rw [ofOffset?_clamp]
  constructor
  · intro hnone
    rcases boundary_or_insideCharacter (min_le_right offset source.utf8ByteSize) with hbetween | hinside
    · obtain ⟨p, hp⟩ := exists_of_boundary hbetween
      rw [hnone] at hp
      cases hp
    · exact hinside
  · exact ofOffset?_of_insideCharacter

/-! ### Places and lines -/

/-- The line of a source that a place is in. -/
def lineIn (source : String) (p : Position) : String := (pieces '\n' source).getD (p.line - 1) ""

/-- The source has such a line, and the line has at least the characters in front of the column. -/
structure InSource (source : String) (p : Position) : Prop where
  line_pos : 1 ≤ p.line
  line_le : p.line ≤ (pieces '\n' source).length
  column_pos : 1 ≤ p.column
  column_le : p.column - 1 ≤ (p.lineIn source).length

/-- The bytes in front of a place: the lines above it with their line feeds, and the characters to
its left. -/
def offsetIn (source : String) (p : Position) : Nat :=
  (((pieces '\n' source).take (p.line - 1)).map fun line => (line ++ "\n").utf8ByteSize).sum +
    byteLength ((p.lineIn source).toList.take (p.column - 1))

/-- A cut through a line of a source. -/
structure Cut (source : String) where
  above : List (List Char)
  left : List Char
  right : List Char
  below : List (List Char)
  lines_eq : piecesOf '\n' source.toList = above ++ (left ++ right) :: below

namespace Cut

variable {source : String} (k : Cut source)

/-- The characters in front of a cut. -/
def before : List Char := k.above.flatMap (· ++ ['\n']) ++ k.left

/-- The characters behind a cut. -/
def behind : List Char := k.right ++ k.below.flatMap ('\n' :: ·)

/-- The line and the column of a cut. -/
def place : Position := ⟨k.above.length + 1, k.left.length + 1⟩

theorem toList_eq : source.toList = k.before ++ k.behind := by
  rw [← intercalate_piecesOf '\n' source.toList, k.lines_eq, intercalate_append_cons]
  simp only [before, behind, List.append_assoc]

theorem notMem_above {line : List Char} (h : line ∈ k.above) : '\n' ∉ line := by
  have hmem : line ∈ piecesOf '\n' source.toList := by
    rw [k.lines_eq]
    exact List.mem_append_left _ h
  exact notMem_of_mem_piecesOf hmem

theorem notMem_left : '\n' ∉ k.left := by
  have hmem : k.left ++ k.right ∈ piecesOf '\n' source.toList := by
    rw [k.lines_eq]
    exact List.mem_append_right _ List.mem_cons_self
  exact fun h => notMem_of_mem_piecesOf hmem (List.mem_append_left _ h)

/-- A part of a line takes a run to the right. -/
theorem foldl_after_part {part : List Char} (h : '\n' ∉ part) (p : Position) :
    part.foldl after p = ⟨p.line, p.column + part.length⟩ := by
  induction part generalizing p with
  | nil => rfl
  | cons c part ih =>
    rw [List.mem_cons, not_or] at h
    rw [List.foldl_cons, ih h.2, after, if_neg (fun hc => h.1 hc.symm), List.length_cons]
    simp only [Nat.add_assoc, Nat.add_comm 1]

/-- Whole lines take a run down, to the first column. -/
theorem foldl_after_lines {lines : List (List Char)} (h : ∀ line ∈ lines, '\n' ∉ line) (l : Nat) :
    (lines.flatMap (· ++ ['\n'])).foldl after ⟨l, 1⟩ = ⟨l + lines.length, 1⟩ := by
  induction lines generalizing l with
  | nil => rfl
  | cons line lines ih =>
    rw [List.forall_mem_cons] at h
    rw [List.flatMap_cons, List.foldl_append, List.foldl_append, foldl_after_part h.1, List.foldl_cons,
      List.foldl_nil, after, if_pos rfl, ih h.2, List.length_cons]
    simp only [Nat.add_assoc, Nat.add_comm 1]

/-- The characters in front of a cut lead to its place. -/
theorem foldl_after : k.before.foldl after ⟨1, 1⟩ = k.place := by
  unfold before place
  rw [List.foldl_append, foldl_after_lines fun line h => k.notMem_above h, foldl_after_part k.notMem_left]
  simp only [Nat.add_comm 1]

theorem ofOffset?_before : ofOffset? source (byteLength k.before) = some k.place := by
  rw [ofOffset?_of_append k.toList_eq, k.foldl_after]

theorem pieces_eq : pieces '\n' source =
    k.above.map String.ofList ++ String.ofList (k.left ++ k.right) :: k.below.map String.ofList := by
  rw [pieces, k.lines_eq, List.map_append, List.map_cons]

theorem lineIn_place : k.place.lineIn source = String.ofList (k.left ++ k.right) := by
  rw [lineIn, k.pieces_eq, place, Nat.add_sub_cancel, List.getD_append_right _ _ _ _ (by simp)]
  simp

theorem inSource_place : k.place.InSource source where
  line_pos := Nat.le_add_left 1 _
  line_le := by
    rw [k.pieces_eq]
    simp [place]
  column_pos := Nat.le_add_left 1 _
  column_le := by
    rw [k.lineIn_place]
    simp [place]

theorem byteLength_lines (lines : List (List Char)) : byteLength (lines.flatMap (· ++ ['\n'])) =
    ((lines.map String.ofList).map fun line => (line ++ "\n").utf8ByteSize).sum := by
  induction lines with
  | nil => rfl
  | cons line lines ih =>
    rw [List.flatMap_cons, byteLength_append, ih, byteLength_append]
    simp [byteLength]

/-- The bytes in front of a cut are those in front of its place. -/
theorem offsetIn_place : k.place.offsetIn source = byteLength k.before := by
  have habove : (pieces '\n' source).take (k.place.line - 1) = k.above.map String.ofList := by
    rw [k.pieces_eq]
    exact List.take_left' (by simp [place])
  have hleft : (k.place.lineIn source).toList.take (k.place.column - 1) = k.left := by
    rw [k.lineIn_place, String.toList_ofList]
    exact List.take_left' (by simp [place])
  rw [offsetIn, habove, hleft, before, byteLength_append, byteLength_lines]

end Cut

theorem exists_cut_of_boundary {source : String} {offset : Nat} (h : Boundary source offset) :
    ∃ k : Cut source, byteLength k.before = offset := by
  obtain ⟨before, behind, hsource, rfl⟩ := exists_append_of_boundary h
  obtain ⟨above, left, hbefore, hpieces⟩ := piecesOf_append '\n' before
  obtain ⟨right, below, hbehind⟩ := List.exists_cons_of_ne_nil (piecesOf_ne_nil '\n' behind)
  refine ⟨⟨above, left, right, below, ?_⟩, ?_⟩
  · rw [hsource, hpieces hbehind]
  · exact congrArg byteLength hbefore.symm

theorem InSource.exists_cut {source : String} {p : Position} (h : p.InSource source) :
    ∃ k : Cut source, k.place = p := by
  obtain ⟨line, column⟩ := p
  have hpos : 1 ≤ line := h.line_pos
  have hcolumn : 1 ≤ column := h.column_pos
  have hwidth : column - 1 ≤ (lineIn source ⟨line, column⟩).length := h.column_le
  have hlt : line - 1 < (piecesOf '\n' source.toList).length := by
    have hle : line ≤ (pieces '\n' source).length := h.line_le
    rw [pieces, List.length_map] at hle
    omega
  set text := (piecesOf '\n' source.toList)[line - 1] with htext
  have hline : lineIn source ⟨line, column⟩ = String.ofList text := by
    simp [lineIn, pieces, hlt, htext]
  rw [hline, String.length_ofList] at hwidth
  refine ⟨⟨(piecesOf '\n' source.toList).take (line - 1), text.take (column - 1), text.drop (column - 1),
    (piecesOf '\n' source.toList).drop (line - 1 + 1), ?_⟩, ?_⟩
  · rw [List.take_append_drop, htext, ← List.drop_eq_getElem_cons, List.take_append_drop]
  · simp only [Cut.place, List.length_take, mk.injEq]
    constructor
    · rw [min_eq_left hlt.le]
      exact Nat.sub_add_cancel hpos
    · rw [min_eq_left hwidth]
      exact Nat.sub_add_cancel hcolumn

/-- An offset has exactly the place of the source whose bytes come to it. -/
theorem ofOffset?_eq_some_iff (source : String) (offset : Nat) (p : Position) :
    ofOffset? source offset = some p ↔
      p.InSource source ∧ p.offsetIn source = min offset source.utf8ByteSize := by
  rw [ofOffset?_clamp]
  constructor
  · intro hp
    have hbetween : Boundary source (min offset source.utf8ByteSize) := by
      apply (boundary_or_insideCharacter (min_le_right _ _)).resolve_right
      intro hinside
      rw [ofOffset?_of_insideCharacter hinside] at hp
      cases hp
    obtain ⟨k, hk⟩ := exists_cut_of_boundary hbetween
    rw [← hk, k.ofOffset?_before] at hp
    cases hp
    exact ⟨k.inSource_place, k.offsetIn_place.trans hk⟩
  · rintro ⟨hin, hoffset⟩
    obtain ⟨k, rfl⟩ := hin.exists_cut
    rw [← hoffset, k.offsetIn_place, k.ofOffset?_before]

/-! ### Later offsets have later places -/

/-- Lines come first in the order of places, columns second. -/
def key (p : Position) : ℕ ×ₗ ℕ := toLex (p.line, p.column)

theorem key_lt_after (p : Position) (c : Char) : p.key < (p.after c).key := by
  unfold key after
  rw [Prod.Lex.toLex_lt_toLex]
  by_cases hc : c = '\n'
  · rw [if_pos hc]
    exact .inl (Nat.lt_succ_self _)
  · rw [if_neg hc]
    exact .inr ⟨rfl, Nat.lt_succ_self _⟩

theorem key_lt_foldl_after {gap : List Char} (h : gap ≠ []) (p : Position) : p.key < (gap.foldl after p).key := by
  induction gap generalizing p with
  | nil => exact absurd rfl h
  | cons c gap ih =>
    have hstep := p.key_lt_after c
    by_cases hgap : gap = []
    · rw [hgap]
      exact hstep
    · exact hstep.trans (ih hgap _)

/-- Later offsets have later places. -/
theorem key_lt_of_lt {source : String} {o o' : Nat} (ho : Boundary source o) (ho' : Boundary source o')
    (h : o < o') : ∃ p p', ofOffset? source o = some p ∧ ofOffset? source o' = some p' ∧ p.key < p'.key := by
  obtain ⟨before, behind, hsource, rfl⟩ := exists_append_of_boundary ho
  obtain ⟨before', behind', hsource', rfl⟩ := exists_append_of_boundary ho'
  obtain ⟨gap, rfl, -⟩ := exists_append_of_byteLength_le (hsource.symm.trans hsource') h.le
  have hgap : gap ≠ [] := by
    rintro rfl
    rw [List.append_nil] at h
    exact lt_irrefl _ h
  refine ⟨_, _, ofOffset?_of_append hsource, ofOffset?_of_append hsource', ?_⟩
  rw [List.foldl_append]
  exact key_lt_foldl_after hgap _

end Position

/-- **Line and column identify the place.** An offset, taken as the end if it is behind the end, has no
line and column exactly if it is inside a character. Otherwise its line is one of the lines of the
source and its column is in the line or right behind it; the lines above with their line feeds and the
characters to the left make up the offset, and no other line and column does so. Later offsets between
characters have later places, in the order of lines and then columns, so different ones have
different places. -/
theorem position_identifies_offset (source : String) :
    (∀ offset, Position.ofOffset? source offset = none ↔
      InsideCharacter source (min offset source.utf8ByteSize)) ∧
    (∀ offset p, Position.ofOffset? source offset = some p ↔
      p.InSource source ∧ p.offsetIn source = min offset source.utf8ByteSize) ∧
    (∀ o o', Boundary source o → Boundary source o' → o < o' →
      ∃ p p', Position.ofOffset? source o = some p ∧ Position.ofOffset? source o' = some p' ∧
        p.key < p'.key) ∧
    (∀ o o', Boundary source o → Boundary source o' →
      Position.ofOffset? source o = Position.ofOffset? source o' → o = o') := by
  refine ⟨Position.ofOffset?_eq_none_iff source, Position.ofOffset?_eq_some_iff source,
    fun o o' => Position.key_lt_of_lt, fun o o' ho ho' heq => ?_⟩
  -- of two different offsets, the later one has the later place
  have hne : ∀ {o o' : Nat}, Boundary source o → Boundary source o' → o < o' →
      Position.ofOffset? source o ≠ Position.ofOffset? source o' := by
    intro o o' ho ho' hlt heq
    obtain ⟨p, p', hp, hp', hkey⟩ := Position.key_lt_of_lt ho ho' hlt
    rw [hp, hp'] at heq
    cases heq
    exact lt_irrefl _ hkey
  rcases lt_trichotomy o o' with hlt | rfl | hgt
  · exact absurd heq (hne ho ho' hlt)
  · rfl
  · exact absurd heq.symm (hne ho' ho hgt)

/-- Behind the line feed and the wide character of `"ä\né"` are two different places, and the offset
inside that character has none. -/
theorem places_around_wide_character :
    Boundary "ä\né" 3 ∧ Boundary "ä\né" 5 ∧
      (∃ p p', Position.ofOffset? "ä\né" 3 = some p ∧ Position.ofOffset? "ä\né" 5 = some p' ∧ p.key < p'.key) ∧
      Position.ofOffset? "ä\né" 4 = none ∧
      (⟨2, 2⟩ : Position).InSource "ä\né" ∧ (⟨2, 2⟩ : Position).offsetIn "ä\né" = 5 := by
  have hsplit : "ä\né".toList = ['ä', '\n'] ++ ['é'] := rfl
  have hstart : Boundary "ä\né" 3 := boundary_of_append hsplit
  have hend : Boundary "ä\né" 5 := boundary_of_append (List.append_nil "ä\né".toList).symm
  obtain ⟨hnone, hplace, hlater, -⟩ := position_identifies_offset "ä\né"
  have hinside : InsideCharacter "ä\né" 4 := ⟨['ä', '\n'], 'é', [], rfl, by decide, by decide⟩
  obtain ⟨hin, hoffset⟩ := (hplace 5 ⟨2, 2⟩).mp (by decide)
  exact ⟨hstart, hend, hlater 3 5 hstart hend (by decide), (hnone 4).mpr hinside, hin, hoffset⟩

end TagTables
