/-
# Auxiliary data does not reach the artifacts

The values of a tag and the names of the fields are auxiliary. A value is
told by its place alone: behind a tag come as many values as there are
fields, whatever they look like. So any token may stand in the place of a
value, and any but an unquoted opening brace in the place of a field, and the
tokens around them keep their places. Part by part, from the items of a
block to the whole file, tokens that replace those of a part in this way
spell out such a part again (`Item.exists_replaced` up to
`File.exists_replaced`), with the same names and tags. That is all the
artifacts show, so they do not change.

Key definitions: `Grammar.Role`, `Grammar.Placed`, `Grammar.Placed.Admits`,
`Grammar.Replaces`.
Key theorems: `Grammar.File.exists_replaced`, `Grammar.Block.SameOutline.outline_eq`,
`auxiliary_data_indifferent`.
-/
import Mathlib
import TagTables.Proofs.Indifference

namespace TagTables

theorem Token.Agrees.spells_iff {t t' : Token} (h : t.Agrees t') (d : Delimiter) : t.Spells d ↔ t'.Spells d := by
  rw [← Token.delimiter?_eq_some_iff, ← Token.delimiter?_eq_some_iff, h.delimiter]

theorem exists_append_of_forall₂ {α β : Type} {R : α → β → Prop} {l₁ l₂ : List α} {l : List β}
    (h : List.Forall₂ R (l₁ ++ l₂) l) :
    ∃ l₁' l₂', l = l₁' ++ l₂' ∧ List.Forall₂ R l₁ l₁' ∧ List.Forall₂ R l₂ l₂' := by
  induction l₁ generalizing l with
  | nil => exact ⟨[], l, rfl, .nil, h⟩
  | cons a l₁ ih =>
    obtain ⟨b, l, hb, hrest, rfl⟩ := List.forall₂_cons_left_iff.mp h
    obtain ⟨l₁', l₂', rfl, hfirst, hsecond⟩ := ih hrest
    exact ⟨b :: l₁', l₂', rfl, .cons hb hfirst, hsecond⟩

namespace Grammar

/-! ### Places -/

/-- What a token is in a file. -/
inductive Role where
  /-- The name of a set, a tag, a delimiter, or a token that no set is made of. -/
  | plain
  /-- The name of a field. -/
  | field
  /-- The value of a tag for a field. -/
  | value
deriving DecidableEq

/-- A token in its place. -/
structure Placed where
  role : Role
  token : Token

/-- A token may come in the place of another: for a value any, for a field any but an unquoted `{`,
and else only one that agrees with the other. -/
def Placed.Admits (p : Placed) (t : Token) : Prop :=
  match p.role with
  | .plain => p.token.Agrees t
  | .field => ¬ t.Spells .opening
  | .value => True

def Title.placed (t : Title) : List Placed := t.tokens.map fun t => ⟨.plain, t⟩

def FieldList.placed (l : FieldList) : List Placed :=
  ⟨.plain, l.bar.val⟩ :: l.fields.map fun f => ⟨.field, f.val⟩

def Head.placed (h : Head) : List Placed :=
  h.title.placed ++ (h.fieldList.elim [] FieldList.placed ++ [⟨.plain, h.opening.val⟩])

def Item.placed {width : Nat} (i : Item width) : List Placed :=
  ⟨.plain, i.tag.val⟩ :: i.values.map fun v => ⟨.value, v⟩

def Block.placed (b : Block) : List Placed :=
  b.head.placed ++ (b.items.flatMap Item.placed ++ [⟨.plain, b.closing.val⟩])

/-- The tokens of a file in their places. -/
def File.placed (f : File) : List Placed :=
  f.blocks.flatMap Block.placed ++ f.strays.map fun t => ⟨.plain, t.val⟩

/-- The second list of tokens is the first, which is that of a file, with other tokens in the places
of values and fields. -/
def Replaces (ts ts' : List Token) : Prop :=
  ∃ file : File, file.placed.map (·.token) = ts ∧ List.Forall₂ Placed.Admits file.placed ts'

theorem Head.tokens_placed (h : Head) : h.placed.map (·.token) = h.tokens := by
  unfold placed Head.tokens
  cases h.fieldList with
  | none => simp [Title.placed, Function.comp_def]
  | some l => simp [Title.placed, FieldList.placed, FieldList.tokens, Function.comp_def]

theorem Block.tokens_placed (b : Block) : b.placed.map (·.token) = b.tokens := by
  have hitem : ∀ i : Item b.head.fields.length, i.placed.map (·.token) = i.tokens := fun i => by
    simp [Item.placed, Item.tokens, Function.comp_def]
  unfold placed Block.tokens
  simp only [List.map_append, List.map_flatMap, hitem, b.head.tokens_placed, List.map_cons, List.map_nil]

theorem File.tokens_placed (f : File) : f.placed.map (·.token) = f.tokens := by
  unfold placed File.tokens
  simp only [List.map_append, List.map_flatMap, Block.tokens_placed, List.map_map, Function.comp_def]

/-! ### Replaced parts

Each part of the grammar is rebuilt from the tokens that replace its own. The width of the items is
the number of fields, which stays the same, though the fields do not. -/

/-- Tokens that come in the places of others form a class if each place asks for it. -/
theorem exists_admitted {P : Token → Prop} {ps : List Placed} {ts : List Token}
    (h : List.Forall₂ Placed.Admits ps ts) (hP : ∀ p ∈ ps, ∀ t, p.Admits t → P t) :
    ∃ l : List { t // P t }, l.map (·.val) = ts := by
  have hall : ∀ t ∈ ts, P t := forall_mem_of_forall₂ h (fun _ t ht hp => hp t ht) hP
  lift ts to List { t // P t } using hall
  exact ⟨ts, rfl⟩

theorem exists_plains {l : List Plain} {ts : List Token}
    (h : List.Forall₂ Placed.Admits (l.map fun t => ⟨.plain, t.val⟩) ts) :
    ∃ l' : List Plain, l'.map (·.val) = ts ∧ List.Forall₂ (fun t t' : Plain => t.val.Agrees t'.val) l l' := by
  obtain ⟨l', rfl⟩ : ∃ l' : List Plain, l'.map (·.val) = ts := by
    refine exists_admitted h fun p hp t ht => ?_
    obtain ⟨u, -, rfl⟩ := List.mem_map.mp hp
    have hagrees : u.val.Agrees t := ht
    rw [← hagrees.spells_iff, ← hagrees.spells_iff]
    exact u.property
  rw [List.forall₂_map_left_iff, List.forall₂_map_right_iff] at h
  exact ⟨l', rfl, h⟩

theorem Mark.exists_replaced {d : Delimiter} (m : Mark d) {ts : List Token}
    (h : List.Forall₂ Placed.Admits [⟨.plain, m.val⟩] ts) : ∃ m' : Mark d, ts = [m'.val] := by
  obtain ⟨t, rest, ht, hrest, rfl⟩ := List.forall₂_cons_left_iff.mp h
  obtain rfl := List.forall₂_nil_left_iff.mp hrest
  have hagrees : m.val.Agrees t := ht
  exact ⟨⟨t, (hagrees.spells_iff d).mp m.property⟩, rfl⟩

theorem Title.exists_replaced (title : Title) {ts : List Token}
    (h : List.Forall₂ Placed.Admits title.placed ts) :
    ∃ title' : Title, title'.tokens = ts ∧ title'.name.val.text = title.name.val.text := by
  have hplaced : title.placed = (title.dropped ++ [title.name]).map fun t => ⟨.plain, t.val⟩ := by
    simp [Title.placed, Title.tokens]
  rw [hplaced] at h
  obtain ⟨l', rfl, hagrees⟩ := exists_plains h
  obtain ⟨dropped, names, rfl, -, hname⟩ := exists_append_of_forall₂ hagrees
  obtain ⟨name, rest, hsame, hrest, rfl⟩ := List.forall₂_cons_left_iff.mp hname
  obtain rfl := List.forall₂_nil_left_iff.mp hrest
  exact ⟨⟨dropped, name⟩, by simp [Title.tokens], hsame.text.symm⟩

theorem FieldList.exists_replaced (list : FieldList) {ts : List Token}
    (h : List.Forall₂ Placed.Admits list.placed ts) :
    ∃ list' : FieldList, list'.tokens = ts ∧ list'.fields.length = list.fields.length := by
  obtain ⟨bar, fields, hbar, hfields, rfl⟩ := List.forall₂_cons_left_iff.mp h
  obtain ⟨bar', hbar'⟩ := Mark.exists_replaced list.bar (.cons hbar .nil)
  obtain rfl := (List.cons.inj hbar').1
  obtain ⟨fields', rfl⟩ : ∃ fields' : List Field, fields'.map (·.val) = fields := by
    refine exists_admitted hfields fun p hp t ht => ?_
    obtain ⟨f, -, rfl⟩ := List.mem_map.mp hp
    exact ht
  exact ⟨⟨bar', fields'⟩, rfl, by simpa using hfields.length_eq.symm⟩

theorem Head.exists_replaced (head : Head) {ts : List Token}
    (h : List.Forall₂ Placed.Admits head.placed ts) :
    ∃ head' : Head, head'.tokens = ts ∧ head'.title.name.val.text = head.title.name.val.text ∧
      head'.fields.length = head.fields.length := by
  obtain ⟨titleTokens, rest, rfl, htitle, hrest⟩ := exists_append_of_forall₂ h
  obtain ⟨fieldTokens, last, rfl, hfields, hlast⟩ := exists_append_of_forall₂ hrest
  obtain ⟨title, rfl, hname⟩ := head.title.exists_replaced htitle
  obtain ⟨opening, rfl⟩ := Mark.exists_replaced head.opening hlast
  unfold Head.fields
  cases hlist : head.fieldList with
  | none =>
    rw [hlist] at hfields
    obtain rfl := List.forall₂_nil_left_iff.mp hfields
    exact ⟨⟨title, none, opening⟩, rfl, hname, rfl⟩
  | some list =>
    rw [hlist] at hfields
    obtain ⟨list', rfl, hlength⟩ := list.exists_replaced hfields
    exact ⟨⟨title, some list', opening⟩, rfl, hname, by simpa using hlength⟩

theorem Item.exists_replaced {width width' : Nat} (i : Item width) (hwidth : width' = width) {ts : List Token}
    (h : List.Forall₂ Placed.Admits i.placed ts) :
    ∃ i' : Item width', i'.tokens = ts ∧ i'.tag.val.text = i.tag.val.text := by
  obtain ⟨tag, values, htag, hvalues, rfl⟩ := List.forall₂_cons_left_iff.mp h
  have hagrees : i.tag.val.Agrees tag := htag
  have hclosing : ¬ tag.Spells .closing := by
    rw [← hagrees.spells_iff]
    exact i.tag.property
  have hfull : values.length = width' := by
    calc values.length = (i.values.map fun v => (⟨.value, v⟩ : Placed)).length := hvalues.length_eq.symm
      _ = i.values.length := List.length_map _
      _ = width' := by rw [i.full, hwidth]
  exact ⟨⟨⟨tag, hclosing⟩, values, hfull⟩, rfl, hagrees.text.symm⟩

theorem exists_replaced_items {width width' : Nat} (hwidth : width' = width) :
    ∀ (items : List (Item width)) {ts : List Token}, List.Forall₂ Placed.Admits (items.flatMap Item.placed) ts →
      ∃ items' : List (Item width'), items'.flatMap Item.tokens = ts ∧
        items'.map (·.tag.val.text) = items.map (·.tag.val.text)
  | [], ts, h => by
    obtain rfl := List.forall₂_nil_left_iff.mp h
    exact ⟨[], rfl, rfl⟩
  | i :: items, ts, h => by
    rw [List.flatMap_cons] at h
    obtain ⟨first, rest, rfl, hfirst, hrest⟩ := exists_append_of_forall₂ h
    obtain ⟨i', rfl, htag⟩ := i.exists_replaced hwidth hfirst
    obtain ⟨items', rfl, htags⟩ := exists_replaced_items hwidth items hrest
    exact ⟨i' :: items', rfl, by rw [List.map_cons, List.map_cons, htag, htags]⟩

/-- The blocks have the same name and declare the same tags in the same order. -/
structure Block.SameOutline (b b' : Block) : Prop where
  name : b.name.text = b'.name.text
  tags : b.items.map (·.tag.val.text) = b'.items.map (·.tag.val.text)

/-- A block with other values and fields is a block, with the same name and tags. -/
theorem Block.exists_replaced (b : Block) {ts : List Token} (h : List.Forall₂ Placed.Admits b.placed ts) :
    ∃ b' : Block, b'.tokens = ts ∧ b.SameOutline b' := by
  obtain ⟨headTokens, rest, rfl, hhead, hrest⟩ := exists_append_of_forall₂ h
  obtain ⟨itemTokens, last, rfl, hitems, hlast⟩ := exists_append_of_forall₂ hrest
  obtain ⟨head, rfl, hname, hwidth⟩ := b.head.exists_replaced hhead
  obtain ⟨items, rfl, htags⟩ := exists_replaced_items hwidth b.items hitems
  obtain ⟨closing, rfl⟩ := Mark.exists_replaced b.closing hlast
  exact ⟨⟨head, items, closing⟩, rfl, hname.symm, htags.symm⟩

theorem exists_replaced_blocks : ∀ (blocks : List Block) {ts : List Token},
    List.Forall₂ Placed.Admits (blocks.flatMap Block.placed) ts →
      ∃ blocks' : List Block, blocks'.flatMap Block.tokens = ts ∧ List.Forall₂ Block.SameOutline blocks blocks'
  | [], ts, h => by
    obtain rfl := List.forall₂_nil_left_iff.mp h
    exact ⟨[], rfl, .nil⟩
  | b :: blocks, ts, h => by
    rw [List.flatMap_cons] at h
    obtain ⟨first, rest, rfl, hfirst, hrest⟩ := exists_append_of_forall₂ h
    obtain ⟨b', rfl, hb⟩ := b.exists_replaced hfirst
    obtain ⟨blocks', rfl, hblocks⟩ := exists_replaced_blocks blocks hrest
    exact ⟨b' :: blocks', rfl, .cons hb hblocks⟩

theorem Block.SameOutline.distinct {b b' : Block} (h : b.SameOutline b') (hb : b.Distinct) : b'.Distinct := by
  unfold Block.Distinct
  rw [← h.tags]
  exact hb

/-- A file with other values and fields is a file, with the same names and tags. -/
theorem File.exists_replaced (file : File) {ts : List Token} (h : List.Forall₂ Placed.Admits file.placed ts) :
    ∃ file' : File, file'.tokens = ts ∧ List.Forall₂ Block.SameOutline file.blocks file'.blocks := by
  obtain ⟨blockTokens, strayTokens, rfl, hblocks, hstrays⟩ := exists_append_of_forall₂ h
  obtain ⟨blocks, rfl, houtlines⟩ := exists_replaced_blocks file.blocks hblocks
  obtain ⟨strays, rfl, -⟩ := exists_plains hstrays
  have hdistinct : ∀ b ∈ blocks, b.Distinct :=
    forall_mem_of_forall₂ houtlines (fun _ _ hb => hb.distinct) file.distinct
  exact ⟨⟨blocks, hdistinct, strays⟩, rfl, houtlines⟩

/-! ### What is shown stays the same -/

theorem Block.Denotes.names_perm {b : Block} {s : TagSet} (h : b.Denotes s) :
    s.names.Perm (b.items.map (·.tag.val.text)) := by
  rw [← b.namesOf_entries]
  exact h.declared.map TagEntry.name

theorem Block.Denotes.names_ascending {b : Block} {s : TagSet} (h : b.Denotes s) :
    s.names.Pairwise (· < ·) := by
  unfold TagSet.names
  rw [List.pairwise_map]
  exact h.ascending

/-- Blocks with one name and the same tags stand for sets that show the same. -/
theorem Block.SameOutline.outline_eq {b b' : Block} {s s' : TagSet} (h : b.SameOutline b')
    (hs : b.Denotes s) (hs' : b'.Denotes s') : s.outline = s'.outline := by
  have hname : s.name = s'.name := by
    calc s.name = b.name.text := hs.name
      _ = b'.name.text := h.name
      _ = s'.name := hs'.name.symm
  have hperm : s.names.Perm s'.names := by
    refine hs.names_perm.trans ?_
    rw [h.tags]
    exact hs'.names_perm.symm
  -- there is one ascending order of the tags
  have hnames : s.names = s'.names :=
    hperm.eq_of_pairwise (fun _ _ _ _ hab hba => absurd hba (String.lt_asymm hab)) hs.names_ascending
      hs'.names_ascending
  unfold TagSet.outline
  rw [hname, hnames]

theorem outlines_eq {bs bs' : List Block} (h : List.Forall₂ Block.SameOutline bs bs') :
    ∀ {sets sets' : List TagSet}, List.Forall₂ Block.Denotes bs sets → List.Forall₂ Block.Denotes bs' sets' →
      List.Forall₂ (fun s s' => s.outline = s'.outline) sets sets' := by
  induction h with
  | nil =>
    intro sets sets' hsets hsets'
    cases hsets
    cases hsets'
    exact .nil
  | cons hb _ ih =>
    intro sets sets' hsets hsets'
    cases hsets with
    | cons hs hrest =>
      cases hsets' with
      | cons hs' hrest' => exact .cons (hb.outline_eq hs hs') (ih hrest hrest')

end Grammar

/-- **Auxiliary data does not reach the artifacts.** If the tokens of a source are those of an accepted
one, with any tokens in the places of values, delimiters included, and any but an unquoted `{` in the
places of fields, it is accepted too, its sets have the same names and the same tags in the same
ranks, and the artifacts are the same in every style. -/
theorem auxiliary_data_indifferent {a b : String} {sets : List TagSet} (ha : parse a = .ok sets)
    (hab : Grammar.Replaces (lex a) (lex b)) :
    ∃ sets', parse b = .ok sets' ∧ sets'.map TagSet.outline = sets.map TagSet.outline ∧
      ∀ style, ∃ made, artifacts a style = .ok made ∧ artifacts b style = .ok made := by
  obtain ⟨file, hfile, hadmits⟩ := hab
  rw [file.tokens_placed] at hfile
  obtain ⟨file', hfile', houtlines⟩ := file.exists_replaced hadmits
  obtain ⟨sets₁, hsets, hparse⟩ := Grammar.parse_of_file hfile
  obtain rfl := Except.ok.inj (ha.symm.trans hparse)
  obtain ⟨sets', hsets', hb⟩ := Grammar.parse_of_file hfile'
  have hshown := Grammar.outlines_eq houtlines hsets hsets'
  exact ⟨sets', hb, (map_eq_of_forall₂ hshown fun _ _ hs => hs).symm, artifacts_eq_of_outline ha hb hshown⟩

/-- The fields become a quoted opening brace and a closing brace, the values a closing and an opening
brace. -/
theorem artifacts_kept_with_braces_for_data :
    ∃ sets, parse "A | f g \x7b x 1 2 \x7d" = .ok sets ∧
      Grammar.Replaces (lex "A | f g \x7b x 1 2 \x7d") (lex "A | \"\x7b\" \x7d \x7b x \x7d \x7b \x7d") ∧
      ∃ sets', parse "A | \"\x7b\" \x7d \x7b x \x7d \x7b \x7d" = .ok sets' ∧
        sets'.map TagSet.outline = sets.map TagSet.outline ∧
        ∀ style, ∃ made, artifacts "A | f g \x7b x 1 2 \x7d" style = .ok made ∧
          artifacts "A | \"\x7b\" \x7d \x7b x \x7d \x7b \x7d" style = .ok made := by
  have hfirst : lex "A | f g \x7b x 1 2 \x7d" =
      [⟨.word, "A", ⟨0, 1⟩⟩, ⟨.word, "|", ⟨2, 3⟩⟩, ⟨.word, "f", ⟨4, 5⟩⟩, ⟨.word, "g", ⟨6, 7⟩⟩,
        ⟨.word, "\x7b", ⟨8, 9⟩⟩, ⟨.word, "x", ⟨10, 11⟩⟩, ⟨.word, "1", ⟨12, 13⟩⟩, ⟨.word, "2", ⟨14, 15⟩⟩,
        ⟨.word, "\x7d", ⟨16, 17⟩⟩] := by
    cbv
  have hsecond : lex "A | \"\x7b\" \x7d \x7b x \x7d \x7b \x7d" =
      [⟨.word, "A", ⟨0, 1⟩⟩, ⟨.word, "|", ⟨2, 3⟩⟩, ⟨.quoted, "\x7b", ⟨4, 7⟩⟩, ⟨.word, "\x7d", ⟨8, 9⟩⟩,
        ⟨.word, "\x7b", ⟨10, 11⟩⟩, ⟨.word, "x", ⟨12, 13⟩⟩, ⟨.word, "\x7d", ⟨14, 15⟩⟩,
        ⟨.word, "\x7b", ⟨16, 17⟩⟩, ⟨.word, "\x7d", ⟨18, 19⟩⟩] := by
    cbv
  obtain ⟨sets, hparse⟩ : ∃ sets, parse "A | f g \x7b x 1 2 \x7d" = .ok sets := ⟨_, by cbv⟩
  let head : Grammar.Head :=
    ⟨⟨[], ⟨⟨.word, "A", ⟨0, 1⟩⟩, by decide⟩⟩,
      some ⟨⟨⟨.word, "|", ⟨2, 3⟩⟩, by decide⟩,
        [⟨⟨.word, "f", ⟨4, 5⟩⟩, by decide⟩, ⟨⟨.word, "g", ⟨6, 7⟩⟩, by decide⟩]⟩,
      ⟨⟨.word, "\x7b", ⟨8, 9⟩⟩, by decide⟩⟩
  let x : Grammar.Item head.fields.length :=
    ⟨⟨⟨.word, "x", ⟨10, 11⟩⟩, by decide⟩, [⟨.word, "1", ⟨12, 13⟩⟩, ⟨.word, "2", ⟨14, 15⟩⟩], rfl⟩
  let block : Grammar.Block := ⟨head, [x], ⟨⟨.word, "\x7d", ⟨16, 17⟩⟩, by decide⟩⟩
  have hdistinct : ∀ b ∈ [block], b.Distinct := by
    intro b hb
    obtain rfl := List.mem_singleton.mp hb
    show ["x"].Nodup
    decide
  have hreplaces : Grammar.Replaces (lex "A | f g \x7b x 1 2 \x7d")
      (lex "A | \"\x7b\" \x7d \x7b x \x7d \x7b \x7d") := by
    refine ⟨⟨[block], hdistinct, []⟩, ?_, ?_⟩
    · rw [hfirst]
      rfl
    · have hquoted : ¬ (⟨.quoted, "\x7b", ⟨4, 7⟩⟩ : Token).Spells .opening := by decide
      have hclosing : ¬ (⟨.word, "\x7d", ⟨8, 9⟩⟩ : Token).Spells .opening := by decide
      rw [hsecond]
      exact .cons ⟨rfl, rfl⟩ (.cons ⟨rfl, rfl⟩ (.cons hquoted (.cons hclosing (.cons ⟨rfl, rfl⟩
        (.cons ⟨rfl, rfl⟩ (.cons trivial (.cons trivial (.cons ⟨rfl, rfl⟩ .nil))))))))
  exact ⟨sets, hparse, hreplaces, auxiliary_data_indifferent hparse hreplaces⟩

end TagTables
