/-
# The definitions tell the sets apart

As long as the words of the style and the names of the sets stay on their
lines, the definitions are lines: for each set a heading, a line for each
tag, a closing line and an empty one (`toList_definitionsOf_lines`). The
heading gives the number of tags, so it tells how many lines belong to the
set, whatever these look like, and the tags are read off their lines. So the
table of a set can be told in front of any text (`definitionsOf_append_inj`),
and by induction so can all tables of the artifact. From the same definitions
one comes to the same names and tags, and from these to the same declarations.

Key definitions: `Emit.Style.OnLine`, `Emit.Style.heading`, `Emit.Style.tableLines`.
Key theorems: `Emit.Style.heading_inj`, `Emit.Style.definitionsOf_append_inj`,
`Emit.Style.outlines_of_definitions`, `definitions_faithful`.
-/
import Mathlib
import TagTables.Proofs.Indifference
import TagTables.Proofs.Tables

namespace TagTables

/-- The text stays on its line. -/
def OneLine (s : String) : Prop := '\n' ∉ s.toList

instance (s : String) : Decidable (OneLine s) := inferInstanceAs (Decidable ('\n' ∉ s.toList))

namespace Emit

/-! ### Lines -/

theorem append_cons_inj {c : Char} : ∀ {a b rest rest' : List Char}, c ∉ a → c ∉ b →
    a ++ c :: rest = b ++ c :: rest' → a = b ∧ rest = rest'
  | [], [], _, _, _, _, h => ⟨rfl, (List.cons.inj h).2⟩
  | [], d :: b, _, _, _, hb, h => absurd ((List.cons.inj h).1 ▸ List.mem_cons_self) hb
  | d :: a, [], _, _, ha, _, h => absurd ((List.cons.inj h).1 ▸ List.mem_cons_self) ha
  | d :: a, e :: b, _, _, ha, hb, h => by
    obtain ⟨rfl, htail⟩ := List.cons.inj h
    obtain ⟨rfl, hrest⟩ := append_cons_inj (fun hc => ha (List.mem_cons_of_mem d hc))
      (fun hc => hb (List.mem_cons_of_mem d hc)) htail
    exact ⟨rfl, hrest⟩

/-- Lines that hold no line feed can be told in front of any text, if their number is known. -/
theorem lines_append_inj : ∀ {lines lines' : List (List Char)} {rest rest' : List Char},
    (∀ l ∈ lines, '\n' ∉ l) → (∀ l ∈ lines', '\n' ∉ l) → lines.length = lines'.length →
      lines.flatMap (· ++ ['\n']) ++ rest = lines'.flatMap (· ++ ['\n']) ++ rest' →
      lines = lines' ∧ rest = rest'
  | [], [], _, _, _, _, _, h => ⟨rfl, h⟩
  | l :: lines, l' :: lines', rest, rest', hlines, hlines', hlength, h => by
    obtain ⟨hl, hothers⟩ := List.forall_mem_cons.mp hlines
    obtain ⟨hl', hothers'⟩ := List.forall_mem_cons.mp hlines'
    simp only [List.flatMap_cons, List.append_assoc, List.singleton_append] at h
    obtain ⟨rfl, htail⟩ := append_cons_inj hl hl' h
    obtain ⟨rfl, rfl⟩ := lines_append_inj hothers hothers' (Nat.succ.inj hlength) htail
    exact ⟨rfl, rfl⟩

theorem tagRow_injective : Function.Injective tagRow := by
  intro tag tag' h
  have hread := readTag_tagRow tag
  rw [h, readTag_tagRow] at hread
  exact (Option.some.inj hread).symm

namespace Style

/-- The words that stand in the heading of a table stay on their line. -/
structure OnLine (s : Style) : Prop where
  tableType : OneLine s.tableType
  nameSpace : OneLine s.nameSpace
  tableSuffix : OneLine s.tableSuffix

variable (s : Style)

/-- The heading of a table, without its line feed. -/
def heading (set : TagSet) : List Char :=
  (s.tableType ++ "<").toList ++ (Nat.toDigits 10 set.size ++ '>' ::
    ((" " ++ s.nameSpace ++ "::").toList ++ (set.name.toList ++ (s.tableSuffix ++ "(\x7b").toList)))

/-- The lines of a table. -/
def tableLines (set : TagSet) : List (List Char) :=
  s.heading set :: (set.names.map tagRow ++ ["\x7d);".toList, []])

/-- The definitions of a set are the lines of its table. -/
theorem toList_definitionsOf_lines (set : TagSet) :
    (s.definitionsOf set).toList = (s.tableLines set).flatMap (· ++ ['\n']) := by
  have hopen : "> ".toList = ">".toList ++ " ".toList := rfl
  have hclose : "\n\x7d);\n\n".toList = ['\n'] ++ ("\x7d);".toList ++ ['\n', '\n']) := rfl
  have hshift := congrArg (· ++ ("\x7d);".toList ++ ['\n', '\n'])) (flatMap_newline (set.names.map tagRow))
  simp only [List.cons_append, List.append_assoc, List.nil_append] at hshift
  rw [toList_definitionsOf]
  unfold tableLines heading
  simp only [hclose, List.flatMap_cons, List.flatMap_append, List.flatMap_nil, List.append_assoc,
    List.cons_append, List.nil_append, ← hshift, String.toList_append]
  rfl

theorem not_mem_digits {c : Char} (hc : ¬ c.isDigit = true) (n : Nat) : c ∉ Nat.toDigits 10 n := fun h =>
  hc (Nat.isDigit_of_mem_toDigits (by decide) (by decide) h)

/-- The heading gives the number of tags and the name of the set. -/
theorem heading_inj {set set' : TagSet} (h : s.heading set = s.heading set') :
    set.size = set'.size ∧ set.name = set'.name := by
  unfold heading at h
  have hdigits := List.append_cancel_left h
  have hangle : ∀ n, '>' ∉ Nat.toDigits 10 n := not_mem_digits (by decide)
  obtain ⟨hsize, hrest⟩ := append_cons_inj (hangle set.size) (hangle set'.size) hdigits
  have hname := List.append_cancel_right (List.append_cancel_left hrest)
  constructor
  · calc set.size = Nat.ofDigitChars 10 (Nat.toDigits 10 set.size) 0 := Nat.ofDigitChars_ten_toDigits.symm
      _ = Nat.ofDigitChars 10 (Nat.toDigits 10 set'.size) 0 := by rw [hsize]
      _ = set'.size := Nat.ofDigitChars_ten_toDigits
  · exact String.toList_inj.mp hname

variable {s}

theorem newline_not_mem_heading (hs : s.OnLine) {set : TagSet} (hname : OneLine set.name) :
    '\n' ∉ s.heading set := by
  have hdigits : '\n' ∉ Nat.toDigits 10 set.size := not_mem_digits (by decide) set.size
  have htype := hs.tableType
  have hspace := hs.nameSpace
  have hsuffix := hs.tableSuffix
  unfold OneLine at hname htype hspace hsuffix
  unfold heading
  simp [hdigits, hname, htype, hspace, hsuffix]

theorem newline_not_mem_tableLines (hs : s.OnLine) {set : TagSet} (hname : OneLine set.name) :
    ∀ l ∈ s.tableLines set, '\n' ∉ l := by
  intro l hl
  unfold tableLines at hl
  rw [List.mem_cons, List.mem_append, List.mem_map] at hl
  rcases hl with rfl | ⟨tag, -, rfl⟩ | hend
  · exact newline_not_mem_heading hs hname
  · exact newline_not_mem_tagRow tag
  · revert l
    decide

/-- The table of a set can be told in front of any text. -/
theorem definitionsOf_append_inj (hs : s.OnLine) {set set' : TagSet} (hname : OneLine set.name)
    (hname' : OneLine set'.name) {rest rest' : List Char}
    (h : (s.definitionsOf set).toList ++ rest = (s.definitionsOf set').toList ++ rest') :
    set.outline = set'.outline ∧ rest = rest' := by
  have hlines := newline_not_mem_tableLines hs hname
  have hlines' := newline_not_mem_tableLines hs hname'
  rw [toList_definitionsOf_lines, toList_definitionsOf_lines] at h
  -- the first lines are the headings, which tell how many lines follow
  have hheading : s.heading set = s.heading set' := by
    have hfirst := h
    unfold tableLines at hfirst
    simp only [List.flatMap_cons, List.append_assoc, List.singleton_append] at hfirst
    exact (append_cons_inj (hlines _ List.mem_cons_self) (hlines' _ List.mem_cons_self) hfirst).1
  obtain ⟨hsize, hsame⟩ := s.heading_inj hheading
  have hlength : (s.tableLines set).length = (s.tableLines set').length := by
    simp [tableLines, TagSet.length_names, hsize]
  obtain ⟨hall, hrest⟩ := lines_append_inj hlines hlines' hlength h
  have hrows := List.append_cancel_right (List.cons.inj hall).2
  have hnames : set.names = set'.names := List.map_injective_iff.mpr tagRow_injective hrows
  unfold TagSet.outline
  rw [hsame, hnames]
  exact ⟨rfl, hrest⟩

theorem definitionsOf_ne_nil (set : TagSet) : (s.definitionsOf set).toList ≠ [] := by
  rw [toList_definitionsOf_lines, tableLines, List.flatMap_cons]
  simp

/-- From the same definitions one comes to the same names and tags. -/
theorem outlines_of_definitions (hs : s.OnLine) : ∀ {sets sets' : List TagSet},
    (∀ set ∈ sets, OneLine set.name) → (∀ set ∈ sets', OneLine set.name) →
      sets.flatMap (fun set => (s.definitionsOf set).toList) =
        sets'.flatMap (fun set => (s.definitionsOf set).toList) →
      List.Forall₂ (fun set set' => set.outline = set'.outline) sets sets'
  | [], [], _, _, _ => .nil
  | [], set' :: sets', _, _, h => by
    have hnil := (List.append_eq_nil_iff.mp h.symm).1
    exact absurd hnil (definitionsOf_ne_nil set')
  | set :: sets, [], _, _, h => by
    have hnil := (List.append_eq_nil_iff.mp h).1
    exact absurd hnil (definitionsOf_ne_nil set)
  | set :: sets, set' :: sets', hnames, hnames', h => by
    obtain ⟨hname, hothers⟩ := List.forall_mem_cons.mp hnames
    obtain ⟨hname', hothers'⟩ := List.forall_mem_cons.mp hnames'
    rw [List.flatMap_cons, List.flatMap_cons] at h
    obtain ⟨houtline, hrest⟩ := definitionsOf_append_inj hs hname hname' h
    exact .cons houtline (outlines_of_definitions hs hothers hothers' hrest)

end Style
end Emit

theorem Artifacts.definitions_eq_iff {style : Emit.Style} (hstyle : style.OnLine) {sets sets' : List TagSet}
    (hnames : ∀ set ∈ sets, OneLine set.name) (hnames' : ∀ set ∈ sets', OneLine set.name) :
    (Artifacts.ofSets style sets).definitions = (Artifacts.ofSets style sets').definitions ↔
      List.Forall₂ (fun set set' => set.outline = set'.outline) sets sets' := by
  constructor
  · intro h
    unfold Artifacts.ofSets at h
    have htext := String.toList_inj.mpr (String.toByteArray_inj.mp h)
    simp only [String.toList_append, String.toList_join, List.flatMap_map] at htext
    exact Emit.Style.outlines_of_definitions hstyle hnames hnames' (List.append_cancel_left htext)
  · intro h
    rw [Artifacts.ofSets_congr style h]

/-- **The definitions are faithful.** If the words of the style that stand in the headings and the names
of all sets stay on their lines, then two accepted sources have the same definitions exactly if they
have the same sets in the same order, by name and tags in the order of their ranks; and then the
declarations and the counts are the same too. The tags may be any texts. -/
theorem definitions_faithful {style : Emit.Style} (hstyle : style.OnLine) {a b : String}
    {sets sets' : List TagSet} (ha : parse a = .ok sets) (hb : parse b = .ok sets')
    (hnames : ∀ set ∈ sets, OneLine set.name) (hnames' : ∀ set ∈ sets', OneLine set.name) :
    ∃ made made', artifacts a style = .ok made ∧ artifacts b style = .ok made' ∧
      (made.definitions = made'.definitions ↔
        sets.map (fun set => (set.name, set.names)) = sets'.map (fun set => (set.name, set.names))) ∧
      (made.definitions = made'.definitions →
        made.declarations = made'.declarations ∧ made.tally = made'.tally) := by
  have hiff := Artifacts.definitions_eq_iff hstyle hnames hnames'
  refine ⟨_, _, artifacts_of_parse style ha, artifacts_of_parse style hb, ?_, fun h => ?_⟩
  · rw [hiff, ← List.forall₂_eq_eq_eq, List.forall₂_map_left_iff, List.forall₂_map_right_iff]
    rfl
  · rw [Artifacts.ofSets_congr style (hiff.mp h)]
    exact ⟨rfl, rfl⟩

/-- A tag that is written like the end of its table and the heading of another one does not pass for
them. -/
theorem forged_table_told_apart :
    ({} : Emit.Style).OnLine ∧ OneLine "A" ∧ OneLine "B" ∧
      ∃ sets sets' made made',
        parse "A \x7b \"x\n\x7d);\n\nTagDict<0> Tags::BtagDict(\x7b\" \x7d" = .ok sets ∧
        parse "A \x7b x \x7d B \x7b \x7d" = .ok sets' ∧
        artifacts "A \x7b \"x\n\x7d);\n\nTagDict<0> Tags::BtagDict(\x7b\" \x7d" {} = .ok made ∧
        artifacts "A \x7b x \x7d B \x7b \x7d" {} = .ok made' ∧ made.definitions ≠ made'.definitions := by
  have hstyle : ({} : Emit.Style).OnLine := ⟨by decide, by decide, by decide⟩
  have ha : parse "A \x7b \"x\n\x7d);\n\nTagDict<0> Tags::BtagDict(\x7b\" \x7d" =
      .ok [⟨"A", [], #[⟨"x\n\x7d);\n\nTagDict<0> Tags::BtagDict(\x7b", [], ⟨4, 40⟩⟩], ⟨0, 42⟩⟩] := by
    cbv
  have hb : parse "A \x7b x \x7d B \x7b \x7d" =
      .ok [⟨"A", [], #[⟨"x", [], ⟨4, 5⟩⟩], ⟨0, 7⟩⟩, ⟨"B", [], #[], ⟨8, 13⟩⟩] := by
    cbv
  obtain ⟨made, made', hmade, hmade', hiff, -⟩ := definitions_faithful hstyle ha hb
    (by simp [OneLine]) (by simp [OneLine])
  refine ⟨hstyle, by decide, by decide, _, _, made, made', ha, hb, hmade, hmade', ?_⟩
  rw [ne_eq, hiff]
  simp

end TagTables
