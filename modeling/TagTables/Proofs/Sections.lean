/-
# What the sections of a set say

The declarations of a set are a list of lines, one for each thing that is
declared: a constant for the rank of each tag, a constant for the number of
tags, and the table. `Declaration` is such a line as data. The definitions are
a heading, a line with the literal of each tag, and a closing line. Both
texts are written out here without the script they are laid out by.

Key definitions: `Emit.Declaration`, `Emit.Style.declared`.
Key theorems: `Emit.Style.declarationsOf_eq`, `Emit.Style.definitionsOf_eq`.
-/
import Mathlib
import TagTables.Emit.Section

namespace TagTables

theorem TagSet.length_names (set : TagSet) : set.names.length = set.size := by
  rw [names, List.length_map, Array.length_toList, size]

namespace Emit

/-! ### Scripts of lines -/

theorem runAll_append (p : Page) (a b : List Step) : runAll p (a ++ b) = runAll (runAll p a) b := by
  induction a generalizing p with
  | nil => rfl
  | cons s a ih =>
    rw [List.cons_append, runAll, runAll]
    exact ih _

/-- A line at a depth, with its line feed. -/
def lineAt (depth : Nat) (s : String) : String := spaces (4 * depth) ++ s ++ "\n"

theorem lineAt_zero : lineAt 0 = (· ++ "\n") := by
  funext s
  have hnone : spaces (4 * 0) = "" := rfl
  rw [lineAt, hnone, String.empty_append]

theorem runAll_lines (p : Page) (lines : List String) :
    runAll p (lines.map .line) = { p with text := p.text ++ String.join (lines.map (lineAt p.depth)) } := by
  induction lines generalizing p with
  | nil => simp [runAll]
  | cons s lines ih =>
    rw [List.map_cons, runAll, Step.run, ih, List.map_cons, String.join_cons]
    simp only [Page.line, lineAt, String.append_assoc]

theorem layout_lines_blank (lines : List String) :
    layout (lines.map .line ++ [.blank]) = String.join (lines.map (· ++ "\n")) ++ "\n" := by
  rw [layout, runAll_append, runAll_lines]
  simp only [runAll, Step.run, Page.blank, String.empty_append, lineAt_zero]

theorem layout_block_blank (header footer : String) (lines : List String) :
    layout [.block header footer (lines.map .line), .blank] =
      header ++ "\n" ++ String.join (lines.map (lineAt 1)) ++ footer ++ "\n\n" := by
  have hnone : spaces (4 * 0) = "" := rfl
  have hblank : "\n" ++ "\n" = "\n\n" := rfl
  simp only [layout, runAll, Step.run, runAll_lines, Page.line, Page.blank, Page.indent, Page.dedent]
  simp only [Nat.zero_add, Nat.sub_self, hnone, String.append_empty, String.empty_append, String.append_assoc,
    hblank]

/-! ### Declarations -/

/-- Something that the declarations declare. -/
inductive Declaration where
  /-- A constant and its value. -/
  | constant (symbol : String) (value : Nat)
  /-- A table for so many tags. -/
  | table (count : Nat) (symbol : String)
deriving DecidableEq

namespace Declaration

/-- What is declared. -/
def symbol : Declaration → String
  | constant symbol _ => symbol
  | table _ symbol => symbol

/-- The line that declares it. -/
def line (style : Style) : Declaration → String
  | constant symbol value => "const int " ++ symbol ++ " = " ++ Nat.repr value ++ ";"
  | table count symbol => "extern " ++ style.tableOf count ++ " " ++ symbol ++ ";"

end Declaration

namespace Style

/-- All that is declared of a set: the ranks of its tags, their number, the table. -/
def declared (s : Style) (set : TagSet) : List Declaration :=
  set.names.zipIdx.map (fun p => .constant (rankSymbol set.name p.1) p.2) ++
    [.constant (countSymbol set.name s.countSuffix) set.size,
      .table set.size (tableSymbol set.name s.tableSuffix)]

/-- The declarations of a set are the lines of what is declared of it, and a blank one. -/
theorem declarationsOf_eq (s : Style) (set : TagSet) :
    s.declarationsOf set = String.join ((s.declared set).map fun d => d.line s ++ "\n") ++ "\n" := by
  have hscript : s.declarationsOf set =
      layout (((s.declared set).map (Declaration.line s)).map .line ++ [.blank]) := by
    rw [declarationsOf, declared]
    simp [Declaration.line, rankLine, Function.comp_def]
  rw [hscript, layout_lines_blank, List.map_map]
  rfl

theorem declarationsOf_text (s : Style) (set : TagSet) :
    s.declarationsOf set =
      String.join (set.names.zipIdx.map fun p =>
        "const int " ++ set.name ++ p.1 ++ " = " ++ Nat.repr p.2 ++ ";\n") ++
      ("const int " ++ set.name ++ s.countSuffix ++ " = " ++ Nat.repr set.size ++ ";\n") ++
      ("extern " ++ s.tableType ++ "<" ++ Nat.repr set.size ++ "> " ++ set.name ++ s.tableSuffix ++ ";\n") ++
      "\n" := by
  have hend : ";" ++ "\n" = ";\n" := rfl
  have hgap : ">" ++ (" " ++ (set.name ++ (s.tableSuffix ++ ";\n"))) =
      "> " ++ (set.name ++ (s.tableSuffix ++ ";\n")) := by
    rw [← String.append_assoc]
    rfl
  rw [declarationsOf_eq, declared, List.map_append, List.map_map]
  simp only [Function.comp_def, Declaration.line, rankSymbol, countSymbol, tableSymbol, tableOf,
    String.join_append, List.map_cons, List.map_nil, String.join_cons, String.join_nil, String.append_empty,
    String.append_assoc, hend, hgap]

/-- The line of a tag in the definitions. -/
def tagLine (tag : String) : String := lineAt 1 (literal tag ++ ",")

/-- The definitions of a set are a heading, a line for each tag, and a closing line. -/
theorem definitionsOf_eq (s : Style) (set : TagSet) :
    s.definitionsOf set =
      s.tableOf set.size ++ " " ++ s.nameSpace ++ "::" ++ tableSymbol set.name s.tableSuffix ++ "(\x7b\n" ++
        String.join (set.names.map tagLine) ++ "\x7d);\n\n" := by
  have hlines : (set.names.map fun tag => Step.line (literal tag ++ ",")) =
      (set.names.map fun tag => literal tag ++ ",").map .line := by
    rw [List.map_map]
    rfl
  have hopen : "(\x7b" ++ "\n" = "(\x7b\n" := rfl
  have hclose : "\x7d);" ++ "\n\n" = "\x7d);\n\n" := rfl
  rw [definitionsOf, hlines, layout_block_blank, List.map_map]
  simp only [String.append_assoc, hopen, hclose]
  rfl

/-! ### Heads -/

theorem declarationsHead_eq (s : Style) :
    ∃ rest, s.declarationsHead = firstLine ++ ("\n" ++ ("#pragma once" ++ rest)) := by
  have hnone : spaces (4 * 0) = "" := rfl
  simp only [declarationsHead, layout, runAll, Step.run, Page.line, Page.blank, hnone, String.append_empty,
    String.empty_append, String.append_assoc]
  exact ⟨_, rfl⟩

theorem definitionsHead_eq (s : Style) :
    ∃ rest, s.definitionsHead = firstLine ++ ("\n" ++ ("#include " ++ rest)) := by
  have hnone : spaces (4 * 0) = "" := rfl
  simp only [definitionsHead, layout, runAll, Step.run, Page.line, Page.blank, hnone, String.append_empty,
    String.empty_append, String.append_assoc]
  exact ⟨_, rfl⟩

end Style
end Emit
end TagTables
