/-
# Reading tables back

The heading of a table is made from the name of its set, which may be any
text, line feeds and whole other tables included. It can still be told from
the lines of the tags: the number of tags stands in front of the name, the
line of a tag holds no other line feed than its own, and so the last lines, as
many as there are tags, are those of the tags, and the name is what is left
(`readTable_definitionsOf`). With the ranks of the tags (`Sound`) it follows
that the two artifacts and the lookup agree on every set
(`artifacts_agree`).

Key definitions: `Emit.Table`, `Emit.Style.readTable`.
Key theorems: `Emit.Style.readTable_definitionsOf`, `artifacts_agree`.
-/
import Mathlib
import TagTables.Proofs.Literals
import TagTables.Proofs.Lookup
import TagTables.Proofs.Sections
import TagTables.Proofs.Verdicts

namespace TagTables

namespace Emit

/-- A table as it is defined: for how many tags, of which set, with which tags. -/
structure Table where
  count : Nat
  name : String
  tags : List String
deriving DecidableEq

/-! ### The reader -/

/-- Reads the line of a tag, without its line feed. -/
def readTag (line : List Char) : Option String := do
  let (tag, behind) ← readLiteral (← line.dropPrefix? (spaces 4).toList)
  if behind = [','] then some tag else none

/-- Reads the table of a set. The lines of the tags are the last ones. -/
def Style.readTable (s : Style) (text : String) : Option Table := do
  let rest ← text.toList.dropPrefix? (s.tableType ++ "<").toList
  let count := Nat.ofDigitChars 10 (rest.takeWhile Char.isDigit) 0
  let rest ← (rest.dropWhile Char.isDigit).dropPrefix? ("> " ++ s.nameSpace ++ "::").toList
  let lines := List.splitOn '\n' (← rest.dropSuffix? "\n\x7d);\n\n".toList)
  let heading := ['\n'].intercalate (lines.take (lines.length - count))
  let name ← heading.dropSuffix? (s.tableSuffix ++ "(\x7b").toList
  let tags ← (lines.drop (lines.length - count)).mapM readTag
  return ⟨count, String.ofList name, tags⟩

theorem dropPrefix?_append (a b : List Char) : (a ++ b).dropPrefix? a = some b :=
  List.dropPrefix?_eq_some_iff.mpr ⟨a, rfl, beq_self_eq_true a⟩

theorem dropSuffix?_append (a b : List Char) : (a ++ b).dropSuffix? b = some a :=
  List.dropSuffix?_eq_some_iff.mpr ⟨b, rfl, beq_self_eq_true b⟩

/-! ### The text, in the parts that the reader takes -/

/-- The line of a tag, without its line feed. -/
def tagRow (tag : String) : List Char := (spaces 4).toList ++ ((literal tag).toList ++ [','])

theorem readTag_tagRow (tag : String) : readTag (tagRow tag) = some tag := by
  simp [readTag, tagRow, dropPrefix?_append, readLiteral_literal]

theorem mapM_readTag (tags : List String) : (tags.map tagRow).mapM readTag = some tags := by
  induction tags with
  | nil => rfl
  | cons tag tags ih =>
    rw [List.map_cons, List.mapM_cons, readTag_tagRow, ih]
    rfl

theorem newline_not_mem_tagRow (tag : String) : '\n' ∉ tagRow tag := by
  intro h
  rw [tagRow, List.mem_append, List.mem_append] at h
  rcases h with h | h | h
  · revert h
    decide
  · exact absurd (isInline_of_mem_literal h) (by decide)
  · revert h
    decide

theorem takeWhile_digits (n : Nat) (rest : List Char) :
    (Nat.toDigits 10 n ++ '>' :: rest).takeWhile Char.isDigit = Nat.toDigits 10 n := by
  rw [List.takeWhile_append_of_pos fun c hc => Nat.isDigit_of_mem_toDigits (by decide) (by decide) hc,
    List.takeWhile_cons_of_neg (by decide), List.append_nil]

theorem dropWhile_digits (n : Nat) (rest : List Char) :
    (Nat.toDigits 10 n ++ '>' :: rest).dropWhile Char.isDigit = '>' :: rest := by
  rw [List.dropWhile_append_of_pos fun c hc => Nat.isDigit_of_mem_toDigits (by decide) (by decide) hc,
    List.dropWhile_cons_of_neg (by decide)]

theorem flatMap_newline (lines : List (List Char)) :
    '\n' :: lines.flatMap (· ++ ['\n']) = lines.flatMap ('\n' :: ·) ++ ['\n'] := by
  induction lines with
  | nil => rfl
  | cons l lines ih =>
    rw [List.flatMap_cons, List.flatMap_cons, List.cons_append, List.cons_append, List.append_assoc,
      List.append_assoc, ← ih]
    rfl

theorem splitOn_append_lines (text : List Char) (lines : List (List Char)) (h : ∀ l ∈ lines, '\n' ∉ l) :
    List.splitOn '\n' (text ++ lines.flatMap ('\n' :: ·)) = List.splitOn '\n' text ++ lines := by
  induction lines generalizing text with
  | nil => simp
  | cons l lines ih =>
    have hl : List.splitOn '\n' l = [l] := by
      refine List.splitOnP_eq_singleton fun c hc => ?_
      have hne : c ≠ '\n' := fun heq => h l List.mem_cons_self (heq ▸ hc)
      simpa using hne
    have hsplit : List.splitOn '\n' (text ++ '\n' :: (l ++ lines.flatMap ('\n' :: ·))) =
        List.splitOn '\n' text ++ List.splitOn '\n' (l ++ lines.flatMap ('\n' :: ·)) :=
      List.splitOnP_append_cons text _ (by rfl)
    rw [List.flatMap_cons, List.cons_append, hsplit, ih l fun x hx => h x (List.mem_cons_of_mem l hx), hl]
    rfl

namespace Style

variable (s : Style) (set : TagSet)

theorem toList_definitionsOf :
    (s.definitionsOf set).toList =
      (s.tableType ++ "<").toList ++ (Nat.toDigits 10 set.size ++ (("> " ++ s.nameSpace ++ "::").toList ++
        (set.name.toList ++ (s.tableSuffix ++ "(\x7b").toList ++ (set.names.map tagRow).flatMap ('\n' :: ·) ++
          "\n\x7d);\n\n".toList))) := by
  have htags : (String.join (set.names.map tagLine)).toList = (set.names.map tagRow).flatMap (· ++ ['\n']) := by
    rw [String.toList_join, List.flatMap_map, List.flatMap_map]
    refine List.flatMap_congr fun tag _ => ?_
    simp [tagLine, lineAt, tagRow]
  have hgap : "> ".toList = ">".toList ++ " ".toList := rfl
  have hopen : "(\x7b\n".toList = "(\x7b".toList ++ ['\n'] := rfl
  have hclose : "\n\x7d);\n\n".toList = ['\n'] ++ "\x7d);\n\n".toList := rfl
  have hshift := congrArg (· ++ "\x7d);\n\n".toList) (flatMap_newline (set.names.map tagRow))
  simp only [List.cons_append, List.append_assoc, List.nil_append] at hshift
  rw [definitionsOf_eq]
  simp only [String.toList_append, htags, tableOf, Nat.toList_repr, tableSymbol, hgap, hopen, hclose,
    List.append_assoc, List.cons_append, List.nil_append, hshift]

/-- The table of a set is read back from its definition, whatever the names of the set and of
its tags are. -/
theorem readTable_definitionsOf :
    s.readTable (s.definitionsOf set) = some ⟨set.size, set.name, set.names⟩ := by
  set lines := set.names.map tagRow with hlines
  set heading := set.name.toList ++ (s.tableSuffix ++ "(\x7b").toList with hheading
  obtain ⟨more, hmore⟩ : ∃ more, ("> " ++ s.nameSpace ++ "::").toList ++
      (heading ++ lines.flatMap ('\n' :: ·) ++ "\n\x7d);\n\n".toList) = '>' :: more :=
    ⟨_, by simp only [String.toList_append, List.append_assoc]; rfl⟩
  have hfront : (s.definitionsOf set).toList.dropPrefix? (s.tableType ++ "<").toList =
      some (Nat.toDigits 10 set.size ++ '>' :: more) := by
    rw [toList_definitionsOf, ← hmore]
    exact dropPrefix?_append _ _
  have hsplit : List.splitOn '\n' (heading ++ lines.flatMap ('\n' :: ·)) =
      List.splitOn '\n' heading ++ lines :=
    splitOn_append_lines heading lines fun l hl => by
      obtain ⟨tag, -, rfl⟩ := List.mem_map.mp hl
      exact newline_not_mem_tagRow tag
  have hlength : (List.splitOn '\n' heading ++ lines).length - set.size =
      (List.splitOn '\n' heading).length := by
    have hrows : lines.length = set.size := by rw [hlines, List.length_map, set.length_names]
    rw [List.length_append, hrows]
    omega
  rw [readTable, hfront]
  simp only [Option.bind_eq_bind, Option.bind_some, takeWhile_digits, dropWhile_digits,
    Nat.ofDigitChars_ten_toDigits]
  rw [← hmore, dropPrefix?_append]
  simp only [Option.bind_some, dropSuffix?_append, hsplit, hlength, List.take_left, List.drop_left,
    List.intercalate_splitOn]
  rw [hheading, dropSuffix?_append]
  simp only [Option.bind_some, hlines, mapM_readTag, String.ofList_toList]
  rfl

end Style
end Emit

/-! ### Agreement -/

theorem Grammar.sound_of_denotes {blocks : List Block} {sets : List TagSet}
    (h : List.Forall₂ Block.Denotes blocks sets) : ∀ set ∈ sets, set.Sound := by
  induction h with
  | nil => exact List.forall_mem_nil _
  | cons hb _ ih => exact List.forall_mem_cons.mpr ⟨hb.sound, ih⟩

theorem TagSet.sound_of_parse {source : String} {sets : List TagSet} (h : parse source = .ok sets)
    {set : TagSet} (hset : set ∈ sets) : set.Sound := by
  obtain ⟨file, -, hdenotes⟩ := Grammar.exists_file_of_parse h
  exact Grammar.sound_of_denotes hdenotes set hset

theorem Emit.Style.getElem?_declared (s : Emit.Style) (set : TagSet) {i : Nat} (hi : i < set.size)
    (tag : String) :
    (s.declared set)[i]? = some (.constant (Emit.rankSymbol set.name tag) i) ↔ set.names[i]? = some tag := by
  have hlt : i < set.names.length := by rwa [set.length_names]
  have hget : (s.declared set)[i]? = some (.constant (Emit.rankSymbol set.name set.names[i]) i) := by
    rw [declared, List.getElem?_append_left (by simpa using hlt)]
    simp [hlt]
  rw [hget, List.getElem?_eq_getElem hlt, Option.some.injEq, Option.some.injEq, Emit.Declaration.constant.injEq,
    Emit.rankSymbol, Emit.rankSymbol, String.append_right_inj]
  exact and_iff_left rfl

/-- **The two artifacts and the lookup agree.** Let a set of an accepted source have the tags
`t_0`, ..., `t_{n-1}`. Its declarations are a constant for each rank `i` with the symbol of `t_i`,
then the constant `n`, then the table for `n` tags. From the text of its definition alone the
name of the set and the list of its tags are read back. So what is declared of the set is what
the table that was read makes one declare, a tag has the rank for which its constant is declared
and at which it stands in the table, and both artifacts give one table by the same symbol and
for the same number of tags. -/
theorem artifacts_agree (style : Emit.Style) {source : String} {sets : List TagSet}
    (hparse : parse source = .ok sets) {set : TagSet} (hset : set ∈ sets) :
    style.declarationsOf set =
      String.join (set.names.zipIdx.map fun p =>
        "const int " ++ set.name ++ p.1 ++ " = " ++ Nat.repr p.2 ++ ";\n") ++
      ("const int " ++ set.name ++ style.countSuffix ++ " = " ++ Nat.repr set.names.length ++ ";\n") ++
      ("extern " ++ style.tableType ++ "<" ++ Nat.repr set.names.length ++ "> " ++ set.name ++
        style.tableSuffix ++ ";\n") ++ "\n" ∧
    ∃ table : Emit.Table, style.readTable (style.definitionsOf set) = some table ∧
      table.name = set.name ∧ table.tags = set.names ∧ table.count = table.tags.length ∧
      style.declared set =
        table.tags.zipIdx.map (fun p => .constant (Emit.rankSymbol table.name p.1) p.2) ++
          [.constant (Emit.countSymbol table.name style.countSuffix) table.count,
            .table table.count (Emit.tableSymbol table.name style.tableSuffix)] ∧
      (∃ rows, style.definitionsOf set = style.tableOf table.count ++ " " ++ style.nameSpace ++ "::" ++
        Emit.tableSymbol table.name style.tableSuffix ++ "(\x7b\n" ++ rows) ∧
      ∀ tag i, (table.tags[i]? = some tag ↔ set.rank? tag = some i) ∧
        (i < table.count →
          ((style.declared set)[i]? = some (.constant (Emit.rankSymbol table.name tag) i) ↔
            set.rank? tag = some i)) := by
  have hsound := TagSet.sound_of_parse hparse hset
  have hrank : ∀ tag i, set.names[i]? = some tag ↔ set.rank? tag = some i := by
    intro tag i
    rw [hsound.rank?_eq_some_iff]
    exact ⟨fun h => ⟨TagSet.lt_size_of_names h, h⟩, fun h => h.2⟩
  refine ⟨?_, ⟨set.size, set.name, set.names⟩, style.readTable_definitionsOf set, rfl, rfl,
    set.length_names.symm, rfl, ?_, fun tag i => ⟨hrank tag i, fun hi => ?_⟩⟩
  · rw [style.declarationsOf_text, set.length_names]
  · exact ⟨String.join (set.names.map Emit.Style.tagLine) ++ "\x7d);\n\n", by
      rw [style.definitionsOf_eq, String.append_assoc]⟩
  · rw [style.getElem?_declared set hi, hrank]

/-- A set whose name and last tag look like parts of a table. -/
theorem artifacts_agree_on_forged_heading :
    ∃ set, parse "\"A(\x7b\n\x7d);\" \x7b b\\ a\"c \"\x7d);\n\" \x7d" = .ok [set] ∧
      ∃ table : Emit.Table, ({} : Emit.Style).readTable (({} : Emit.Style).definitionsOf set) = some table ∧
        table.name = "A(\x7b\n\x7d);" ∧ table.tags = ["a\"c", "b\\", "\x7d);\n"] ∧
        set.rank? "\x7d);\n" = some 2 := by
  have hparse : parse "\"A(\x7b\n\x7d);\" \x7b b\\ a\"c \"\x7d);\n\" \x7d" =
      .ok [⟨"A(\x7b\n\x7d);", [],
        #[⟨"a\"c", [], ⟨15, 18⟩⟩, ⟨"b\\", [], ⟨12, 14⟩⟩, ⟨"\x7d);\n", [], ⟨19, 25⟩⟩], ⟨0, 27⟩⟩] := by
    cbv
  obtain ⟨-, table, hread, hname, htags, -, -, -, hrank⟩ := artifacts_agree {} hparse List.mem_cons_self
  refine ⟨_, hparse, table, hread, hname, htags, (hrank _ 2).1.mp ?_⟩
  rw [htags]
  rfl

end TagTables
