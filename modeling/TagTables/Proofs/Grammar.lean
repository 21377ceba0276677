/-
# The grammar of tag files

A file is a list of blocks and then stray tokens; a rejected file is a list
of good blocks and then one offence. Both are data that spell out a list of
tokens. The same word means different things in different places, so each
place has its own class of tokens: what may be a name, a field, a tag, and
what must be a delimiter. A value may be any token. The classes are
subtypes and an entry has as many values as its block has fields, so
everything that can be built is well formed.

What a block stands for is said without sorting: a set with the block's
name and fields, and with its entries in ascending order of their tags.

Key definitions: `Grammar.Block`, `Grammar.File`, `Grammar.Offence`,
`Grammar.Rejection`, `Grammar.Block.Denotes`, `Grammar.Offence.Causes`.
-/
import TagTables.Proofs.Repeats
import TagTables.SetStream

namespace TagTables

/-- The token is this delimiter: the word itself, not in quotes. -/
def Token.Spells (t : Token) (d : Delimiter) : Prop := t.kind = .word ∧ t.text = d.spelling

instance (t : Token) (d : Delimiter) : Decidable (t.Spells d) :=
  inferInstanceAs (Decidable (t.kind = .word ∧ t.text = d.spelling))

theorem Token.delimiter?_eq_some_iff {t : Token} {d : Delimiter} : t.delimiter? = some d ↔ t.Spells d := by
  unfold delimiter? Spells
  cases t.kind with
  | quoted => simp
  | word =>
    refine ⟨fun h => ⟨rfl, Delimiter.eq_spelling_of_ofText? h⟩, fun h => ?_⟩
    rw [h.2]
    exact Delimiter.ofText?_spelling d

theorem Token.isDelimiter_iff {t : Token} {d : Delimiter} : t.isDelimiter d = true ↔ t.Spells d := by
  rw [isDelimiter, beq_iff_eq, delimiter?_eq_some_iff]

theorem Token.Spells.unique {t : Token} {d d' : Delimiter} (h : t.Spells d) (h' : t.Spells d') : d = d' := by
  rw [← delimiter?_eq_some_iff] at h h'
  exact Option.some.inj (h.symm.trans h')

namespace Grammar

/-- A token that may be dropped, name a set or be left over: any but an unquoted `{` or `|`. -/
abbrev Plain := { t : Token // ¬ t.Spells .opening ∧ ¬ t.Spells .bar }

/-- A token that may name a field: any but an unquoted `{`. -/
abbrev Field := { t : Token // ¬ t.Spells .opening }

/-- A token that may be a tag: any but an unquoted `}`. -/
abbrev Tag := { t : Token // ¬ t.Spells .closing }

/-- A delimiter in its place. -/
abbrev Mark (d : Delimiter) := { t : Token // t.Spells d }

/-- What ends the search for a name: an unquoted `{` or `|`. -/
abbrev HeadMark := { t : Token // t.Spells .opening ∨ t.Spells .bar }

/-- The name of a set, behind tokens that are dropped. -/
structure Title where
  dropped : List Plain
  name : Plain

/-- A bar and the fields behind it. -/
structure FieldList where
  bar : Mark .bar
  fields : List Field

/-- A block up to the brace that opens its tag list. -/
structure Head where
  title : Title
  fieldList : Option FieldList
  opening : Mark .opening

/-- The texts of the fields, none if there is no bar. -/
def Head.fields (h : Head) : List String :=
  match h.fieldList with
  | none => []
  | some l => l.fields.map (·.val.text)

/-- A tag and its values, `width` of them. -/
structure Item (width : Nat) where
  tag : Tag
  values : List Token
  full : values.length = width

/-- A block up to the brace that closes its tag list. -/
structure Block where
  head : Head
  items : List (Item head.fields.length)
  closing : Mark .closing

/-- A block whose tokens run out. -/
inductive Unclosed where
  /-- Behind the bar, before the brace that opens the tag list. -/
  | fields (title : Title) (list : FieldList)
  /-- In the tag list, behind a whole number of entries. -/
  | tags (head : Head) (items : List (Item head.fields.length))
  /-- Inside an entry. -/
  | values (head : Head) (items : List (Item head.fields.length)) (tag : Tag) (got : List Token)
      (short : got.length < head.fields.length)

/-! ### The tokens they spell out -/

def Title.tokens (t : Title) : List Token := t.dropped.map (·.val) ++ [t.name.val]

def FieldList.tokens (l : FieldList) : List Token := l.bar.val :: l.fields.map (·.val)

def Head.tokens (h : Head) : List Token :=
  h.title.tokens ++ (h.fieldList.elim [] FieldList.tokens ++ [h.opening.val])

def Item.tokens {width : Nat} (i : Item width) : List Token := i.tag.val :: i.values

def Block.tokens (b : Block) : List Token :=
  b.head.tokens ++ (b.items.flatMap Item.tokens ++ [b.closing.val])

def Unclosed.tokens : Unclosed → List Token
  | fields title list => title.tokens ++ list.tokens
  | tags head items => head.tokens ++ items.flatMap Item.tokens
  | values head items tag got _ => head.tokens ++ (items.flatMap Item.tokens ++ tag.val :: got)

/-! ### What they stand for -/

/-- The entry of a tag and its values; it covers them all. -/
def Item.entry {width : Nat} (i : Item width) : TagEntry :=
  ⟨i.tag.val.text, i.values.map (·.text), i.values.foldl (fun s v => s.hull v.span) i.tag.val.span⟩

namespace Block

/-- The token that names the set. -/
def name (b : Block) : Token := b.head.title.name.val

/-- The entries as they are declared. -/
def entries (b : Block) : List TagEntry := b.items.map Item.entry

/-- No two tags of the block have one text. -/
def Distinct (b : Block) : Prop := (b.items.map (·.tag.val.text)).Nodup

/-- The set that a block stands for: the block's name, its fields, and its entries in ascending
order of their tags. It covers the block from the name to the closing brace. -/
structure Denotes (b : Block) (s : TagSet) : Prop where
  name : s.name = b.name.text
  fields : s.fields = b.head.fields
  declared : s.entries.toList.Perm b.entries
  ascending : Ascending s.entries.toList
  span : s.span = b.name.span.hull b.closing.val.span

theorem namesOf_entries (b : Block) : namesOf b.entries = b.items.map (·.tag.val.text) := by
  simp [namesOf, entries, Item.entry, Function.comp_def]

theorem Denotes.unique {b : Block} {s s' : TagSet} (h : b.Denotes s) (h' : b.Denotes s') : s = s' := by
  have hentries : s.entries.toList = s'.entries.toList :=
    (h.declared.trans h'.declared.symm).eq_of_pairwise
      (fun _ _ _ _ hab hba => absurd hba (String.lt_asymm hab)) h.ascending h'.ascending
  obtain ⟨name, fields, entries, span⟩ := s
  obtain ⟨name', fields', entries', span'⟩ := s'
  rw [TagSet.mk.injEq]
  exact ⟨h.name.trans h'.name.symm, h.fields.trans h'.fields.symm, Array.toList_inj.mp hentries,
    h.span.trans h'.span.symm⟩

end Block

/-- What an unclosed block still waits for: inside an entry, the value for the field whose turn it is. -/
def Unclosed.awaited : Unclosed → Awaited
  | fields .. => .fieldOrBrace
  | tags .. => .tagOrBrace
  | values head _ tag got short => .value tag.val.text (head.fields.get ⟨got.length, short⟩)

/-! ### Whole files -/

/-- An accepted list of tokens: good blocks, and stray tokens behind the last. -/
structure File where
  blocks : List Block
  distinct : ∀ b ∈ blocks, b.Distinct
  strays : List Plain

def File.tokens (f : File) : List Token := f.blocks.flatMap Block.tokens ++ f.strays.map (·.val)

/-- What goes wrong behind the good blocks. -/
inductive Offence where
  /-- A delimiter stands where a block should start. -/
  | nameless (mark : HeadMark) (rest : List Token)
  /-- The tokens run out inside a block. -/
  | unclosed (block : Unclosed)
  /-- A block is closed but two of its tags have one text. -/
  | repeated (block : Block) (repeats : ¬ block.Distinct) (rest : List Token)

def Offence.tokens : Offence → List Token
  | nameless mark rest => mark.val :: rest
  | unclosed block => block.tokens
  | repeated block _ rest => block.tokens ++ rest

/-- The error of an offence in a file whose last token ends at `stop`. A repeated tag is
reported at the first two declarations of the least tag that is repeated. -/
def Offence.Causes (stop : Nat) : Offence → SyntaxError → Prop
  | nameless mark _, e => e = .missingName mark.val.span
  | unclosed block, e => e = .unexpectedEnd block.awaited (.point stop)
  | repeated block _ _, e =>
    ∃ first again, FirstRepeat block.entries first again ∧
      e = .duplicateTag block.name.text again.name again.span first.span

/-- A rejected list of tokens: good blocks, and an offence behind the last. -/
structure Rejection where
  blocks : List Block
  distinct : ∀ b ∈ blocks, b.Distinct
  offence : Offence

def Rejection.tokens (r : Rejection) : List Token := r.blocks.flatMap Block.tokens ++ r.offence.tokens

end Grammar
end TagTables
