/-
# The order of declarations does not matter

Where an entry ends is told by the number of values alone, so whole entries
can change places within their block without becoming something else, even
if a value is a brace. The new block has the same tags, and since no two are
the same there is one ascending order of its entries: it stands for the same
set (`Block.Reordered.denotes`). So a source with its entries declared in
another order has the same sets, up to spans, and the same artifacts.

Key definitions: `Grammar.Block.Reordered`, `Grammar.Reorders`.
Key theorems: `Grammar.Block.Reordered.denotes`,
`declaration_order_indifferent`.
-/
import Mathlib
import TagTables.Proofs.Indifference

namespace TagTables
namespace Grammar

/-- The blocks differ in the order of their entries only. -/
def Block.Reordered (b b' : Block) : Prop :=
  ∃ items : List (Item b.head.fields.length), items.Perm b.items ∧ b' = ⟨b.head, items, b.closing⟩

/-- The second list of tokens is the first, which is that of a file, with whole entries in another
order within their blocks. -/
def Reorders (ts ts' : List Token) : Prop :=
  ∃ (file : File) (blocks : List Block), file.tokens = ts ∧ List.Forall₂ Block.Reordered file.blocks blocks ∧
    ts' = blocks.flatMap Block.tokens ++ file.strays.map (·.val)

namespace Block.Reordered

variable {b b' : Block} (h : b.Reordered b')
include h

theorem distinct (hb : b.Distinct) : b'.Distinct := by
  obtain ⟨items, hperm, rfl⟩ := h
  exact (hperm.map _).nodup_iff.mpr hb

/-- A block with its entries in another order stands for the same set. -/
theorem denotes {s : TagSet} (hs : b.Denotes s) : b'.Denotes s := by
  obtain ⟨items, hperm, rfl⟩ := h
  have hentries : b.entries.Perm (Block.entries ⟨b.head, items, b.closing⟩) := (hperm.map Item.entry).symm
  exact ⟨hs.name, hs.fields, hs.declared.trans hentries, hs.ascending, hs.span⟩

end Block.Reordered

theorem denotes_of_reordered {bs bs' : List Block} (h : List.Forall₂ Block.Reordered bs bs')
    {sets : List TagSet} (hsets : List.Forall₂ Block.Denotes bs sets) : List.Forall₂ Block.Denotes bs' sets := by
  induction h generalizing sets with
  | nil => exact hsets
  | cons hb _ ih =>
    cases hsets with
    | cons hs hrest => exact .cons (hb.denotes hs) (ih hrest)

end Grammar

/-- **The order of declarations does not matter.** If the tokens of an accepted source, with whole
entries in another order within their blocks, are those of a second source up to spans (and even
quotes), that one is accepted too: its sets have the same names, fields, and tags with their values,
all in the same order, and the artifacts are the same in every style. -/
theorem declaration_order_indifferent {a b : String} {sets : List TagSet} {ts : List Token}
    (ha : parse a = .ok sets) (hts : Grammar.Reorders (lex a) ts)
    (hb : List.Forall₂ Token.Agrees ts (lex b)) :
    ∃ sets', parse b = .ok sets' ∧ sets'.map TagSet.content = sets.map TagSet.content ∧
      ∀ style, ∃ made, artifacts a style = .ok made ∧ artifacts b style = .ok made := by
  obtain ⟨file, blocks, hfile, hblocks, rfl⟩ := hts
  obtain ⟨sets₁, hsets, hparse⟩ := Grammar.parse_of_file hfile
  obtain rfl := Except.ok.inj (ha.symm.trans hparse)
  -- the reordered blocks, with the same strays behind them, are a file for the same sets
  have hdistinct : ∀ b ∈ blocks, b.Distinct :=
    forall_mem_of_forall₂ hblocks (fun _ _ hb => hb.distinct) file.distinct
  let file' : Grammar.File := ⟨blocks, hdistinct, file.strays⟩
  have hsets' : List.Forall₂ Grammar.Block.Denotes file'.blocks sets := Grammar.denotes_of_reordered hblocks hsets
  obtain ⟨sets', hb', hcontent⟩ := parse_of_agreeing_file hsets' hb
  exact ⟨sets', hb', (map_eq_of_forall₂ hcontent fun _ _ hs => hs).symm,
    artifacts_eq_of_content ha hb' hcontent⟩

/-- The entry with a brace for a value goes behind the other one. -/
theorem reordered_around_brace_value :
    ∃ ts sets sets', parse "A | f \x7b y \x7d x 1 \x7d" = .ok sets ∧
      Grammar.Reorders (lex "A | f \x7b y \x7d x 1 \x7d") ts ∧
      List.Forall₂ Token.Agrees ts (lex "A | f \x7b x 1 y \x7d \x7d") ∧
      parse "A | f \x7b x 1 y \x7d \x7d" = .ok sets' ∧
      sets'.map TagSet.content = sets.map TagSet.content := by
  have hfirst : lex "A | f \x7b y \x7d x 1 \x7d" =
      [⟨.word, "A", ⟨0, 1⟩⟩, ⟨.word, "|", ⟨2, 3⟩⟩, ⟨.word, "f", ⟨4, 5⟩⟩, ⟨.word, "\x7b", ⟨6, 7⟩⟩,
        ⟨.word, "y", ⟨8, 9⟩⟩, ⟨.word, "\x7d", ⟨10, 11⟩⟩, ⟨.word, "x", ⟨12, 13⟩⟩, ⟨.word, "1", ⟨14, 15⟩⟩,
        ⟨.word, "\x7d", ⟨16, 17⟩⟩] := by
    cbv
  have hsecond : lex "A | f \x7b x 1 y \x7d \x7d" =
      [⟨.word, "A", ⟨0, 1⟩⟩, ⟨.word, "|", ⟨2, 3⟩⟩, ⟨.word, "f", ⟨4, 5⟩⟩, ⟨.word, "\x7b", ⟨6, 7⟩⟩,
        ⟨.word, "x", ⟨8, 9⟩⟩, ⟨.word, "1", ⟨10, 11⟩⟩, ⟨.word, "y", ⟨12, 13⟩⟩, ⟨.word, "\x7d", ⟨14, 15⟩⟩,
        ⟨.word, "\x7d", ⟨16, 17⟩⟩] := by
    cbv
  obtain ⟨sets, hparse⟩ : ∃ sets, parse "A | f \x7b y \x7d x 1 \x7d" = .ok sets := ⟨_, by cbv⟩
  let head : Grammar.Head :=
    ⟨⟨[], ⟨⟨.word, "A", ⟨0, 1⟩⟩, by decide⟩⟩,
      some ⟨⟨⟨.word, "|", ⟨2, 3⟩⟩, by decide⟩, [⟨⟨.word, "f", ⟨4, 5⟩⟩, by decide⟩]⟩,
      ⟨⟨.word, "\x7b", ⟨6, 7⟩⟩, by decide⟩⟩
  let y : Grammar.Item head.fields.length :=
    ⟨⟨⟨.word, "y", ⟨8, 9⟩⟩, by decide⟩, [⟨.word, "\x7d", ⟨10, 11⟩⟩], rfl⟩
  let x : Grammar.Item head.fields.length :=
    ⟨⟨⟨.word, "x", ⟨12, 13⟩⟩, by decide⟩, [⟨.word, "1", ⟨14, 15⟩⟩], rfl⟩
  let closing : Grammar.Mark .closing := ⟨⟨.word, "\x7d", ⟨16, 17⟩⟩, by decide⟩
  have hdistinct : ∀ b ∈ [(⟨head, [y, x], closing⟩ : Grammar.Block)], b.Distinct := by
    intro b hb
    obtain rfl := List.mem_singleton.mp hb
    show ["y", "x"].Nodup
    decide
  have hreorders : Grammar.Reorders (lex "A | f \x7b y \x7d x 1 \x7d")
      (Grammar.Block.tokens ⟨head, [x, y], closing⟩) := by
    refine ⟨⟨[⟨head, [y, x], closing⟩], hdistinct, []⟩, [⟨head, [x, y], closing⟩], ?_, ?_, ?_⟩
    · rw [hfirst]
      rfl
    · exact .cons ⟨[x, y], .swap y x [], rfl⟩ .nil
    · simp
  have hagree : List.Forall₂ Token.Agrees (Grammar.Block.tokens ⟨head, [x, y], closing⟩)
      (lex "A | f \x7b x 1 y \x7d \x7d") := by
    rw [hsecond]
    repeat' constructor
  obtain ⟨sets', hparse', hcontent, -⟩ := declaration_order_indifferent hparse hreorders hagree
  exact ⟨_, sets, sets', hparse, hreorders, hagree, hparse', hcontent⟩

end TagTables
