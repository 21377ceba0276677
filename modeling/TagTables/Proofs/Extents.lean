/-
# The extent of a set

A set covers its block from the name to the closing brace, and an entry its
tag and values. The tokens of a source stand one behind the other, so merged
spans run from the first token to the last (`Item.span_entry`, `Block.Denotes.extent`),
entries lie apart from each other inside their set, and the sets follow each
other.

What a set covers is a source by itself. The lexer can be started in front of
any token and stopped behind any other: no lexeme depends on what stands
before it, and what stands behind it may be cut off (`Lexer.Reads.drop`,
`Lexer.Reads.take`). So the tokens of a slice from one token to another are the
tokens between, moved to the front (`lex_slice`), and the slice that a set covers
holds the tokens of its block without those dropped before the name. It is
read as this one set.

Key definitions: `Span.Apart`, `Grammar.Item.last`, `Grammar.Block.bare`,
`Grammar.Block.Extends`.
Key theorems: `Lexer.Reads.drop`, `Lexer.Reads.take`, `lex_slice`,
`Grammar.Block.parse_slice`, `set_spans_exact`.
-/
import Mathlib
import TagTables.Proofs.Accounting
import TagTables.Proofs.Composition

namespace TagTables

/-! ### The lexer on a slice -/

theorem Lexeme.Spelled.cut_behind {x : Lexeme} {start : Nat} {cs front back : List Char}
    (h : x.Spelled start cs (front ++ back)) : x.Spelled start cs front := by
  generalize hbehind : front ++ back = behind at h
  cases h with
  | word hw hend =>
    refine .word hw fun c hc => hend c ?_
    obtain ⟨rest, rfl⟩ := List.head?_eq_some_iff.mp hc
    rw [← hbehind]
    rfl
  | quoted _ hq => exact .quoted front hq
  | unclosed hq =>
    obtain ⟨rfl, -⟩ := List.append_eq_nil_iff.mp hbehind
    exact .unclosed hq

namespace Lexer.Reads

/-- The lexer can be stopped behind any lexeme. -/
theorem take {l : Lexer} {xs : List Lexeme} (h : l.Reads xs) : ∀ {ys zs : List Lexeme}, xs = ys ++ zs →
    ∃ front back, l.rest = front ++ back ∧ Reads ⟨front, l.offset⟩ ys ∧
      l.offset + byteLength front = lastStop l.offset (ys.map (·.token)) := by
  induction h with
  | done offset _ =>
    intro ys zs hxs
    obtain ⟨rfl, -⟩ := List.append_eq_nil_iff.mp hxs.symm
    exact ⟨[], _, rfl, .done offset blanks_nil, rfl⟩
  | @cons gap cs behind offset x xs hgap hx _ ih =>
    intro ys zs hxs
    cases ys with
    | nil => exact ⟨[], _, rfl, .done offset blanks_nil, rfl⟩
    | cons y ys =>
      obtain ⟨rfl, htail⟩ := List.cons.inj hxs
      obtain ⟨front, back, hbehind, hfront, hstop⟩ := ih htail
      have hbehind : behind = front ++ back := hbehind
      subst hbehind
      refine ⟨gap ++ (cs ++ front), back, by simp, .cons hgap hx.cut_behind hfront, ?_⟩
      have hend : x.token.span.stop = offset + byteLength gap + byteLength cs := by rw [hx.span_eq]
      rw [List.map_cons, lastStop_cons, ← hstop, byteLength_append, byteLength_append]
      simp only [hend]
      omega

/-- The lexer can be started in front of any lexeme. -/
theorem drop {l : Lexer} {xs : List Lexeme} (h : l.Reads xs) :
    ∀ {ys : List Lexeme} {z : Lexeme} {zs : List Lexeme}, xs = ys ++ z :: zs →
    ∃ front back, l.rest = front ++ back ∧ l.offset + byteLength front = z.token.span.start ∧
      Reads ⟨back, z.token.span.start⟩ (z :: zs) := by
  induction h with
  | done offset _ =>
    intro ys z zs hxs
    cases ys <;> cases hxs
  | @cons gap cs behind offset x xs hgap hx hrest ih =>
    intro ys z zs hxs
    cases ys with
    | nil =>
      obtain ⟨rfl, rfl⟩ := List.cons.inj hxs
      have hstart : x.token.span.start = offset + byteLength gap := by rw [hx.span_eq]
      refine ⟨gap, cs ++ behind, rfl, hstart.symm, ?_⟩
      rw [hstart]
      show Reads ⟨[] ++ (cs ++ behind), offset + byteLength gap⟩ (x :: xs)
      exact .cons blanks_nil hx hrest
    | cons y ys =>
      obtain ⟨rfl, htail⟩ := List.cons.inj hxs
      obtain ⟨front, back, hbehind, hstart, hback⟩ := ih htail
      have hbehind : behind = front ++ back := hbehind
      subst hbehind
      refine ⟨gap ++ (cs ++ front), back, by simp, ?_, hback⟩
      have hend : x.token.span.stop = offset + byteLength gap + byteLength cs := by rw [hx.span_eq]
      simp only [byteLength_append] at hstart ⊢
      omega

end Lexer.Reads

/-- The tokens of a slice that runs from one token to another are those between, moved to the
front. -/
theorem lex_slice {source : String} {before inside behind : List Token} {t : Token}
    (h : lex source = before ++ (t :: inside ++ behind)) :
    ∃ slice, Span.Holds source ⟨t.span.start, lastStop t.span.stop inside⟩ slice ∧
      (lex slice).map (Token.shift t.span.start) = t :: inside := by
  obtain ⟨xs, hxs⟩ := (Lexer.ofSource source).exists_reads
  rw [lex_of_reads rfl hxs] at h
  obtain ⟨ys, rest, rfl, rfl, hrest⟩ := List.map_eq_append_iff.mp h
  obtain ⟨zs, us, rfl, hzs, rfl⟩ := List.map_eq_append_iff.mp hrest
  obtain ⟨z, zs, rfl, rfl, rfl⟩ := List.map_eq_cons_iff.mp hzs
  -- start in front of the first token, then stop behind the last
  obtain ⟨front, back, hsource, hstart, hback⟩ := hxs.drop rfl
  have hsplit : z :: zs ++ us = (z :: zs) ++ us := rfl
  obtain ⟨slice, rest, rfl, hslice, hstop⟩ := hback.take hsplit
  have hfront : byteLength front = z.token.span.start := by
    rw [← hstart]
    exact (Nat.zero_add _).symm
  rw [List.map_cons, lastStop_cons] at hstop
  refine ⟨String.ofList slice, ⟨front, rest, ?_, ?_⟩, ?_⟩
  · rw [String.toList_ofList]
    exact hsource
  · rw [byteLength_append, hfront, String.toList_ofList, ← hstop]
  · -- the same characters are read at the offset of the first token and at zero
    obtain ⟨vs, hvs⟩ := (Lexer.ofSource (String.ofList slice)).exists_reads
    have hmoved := hvs.shift z.token.span.start
    rw [show (Lexer.ofSource (String.ofList slice)).rest = slice from String.toList_ofList,
      show (Lexer.ofSource (String.ofList slice)).offset = 0 from rfl, Nat.zero_add] at hmoved
    have hsame := hmoved.unique hslice
    rw [lex_of_reads rfl hvs, List.map_map]
    calc vs.map (Token.shift z.token.span.start ∘ (·.token))
        = (vs.map (Lexeme.shift z.token.span.start)).map (·.token) := by rw [List.map_map]; rfl
      _ = z.token :: zs.map (·.token) := by rw [hsame]; rfl

theorem append_inj_of_byteLength {a b c d : List Char} (h : a ++ b = c ++ d) (hlength : byteLength a = byteLength c) :
    a = c ∧ b = d := by
  obtain ⟨gap, rfl, rfl⟩ := exists_append_of_byteLength_le h hlength.le
  rw [byteLength_append] at hlength
  obtain rfl : gap = [] := byteLength_eq_zero_iff.mp (by omega)
  simp

theorem Span.Holds.unique {source : String} {s : Span} {text text' : String} (h : s.Holds source text)
    (h' : s.Holds source text') : text = text' := by
  obtain ⟨before, behind, hsource, rfl⟩ := h
  obtain ⟨before', behind', hsource', hspan⟩ := h'
  obtain ⟨hstart, hstop⟩ := Span.mk.inj hspan
  obtain ⟨rfl, hrest⟩ := append_inj_of_byteLength (hsource.symm.trans hsource') hstart
  rw [byteLength_append, byteLength_append, Nat.add_left_cancel_iff] at hstop
  exact String.toList_inj.mp (append_inj_of_byteLength hrest hstop).1

/-! ### Merged spans -/

/-- No byte is in both spans. -/
def Span.Apart (s s' : Span) : Prop := s.stop ≤ s'.start ∨ s'.stop ≤ s.start

theorem Laid.sublist {ts ts' : List Token} (h : Laid ts) (hsub : ts'.Sublist ts) : Laid ts' :=
  ⟨fun t ht => h.nonempty t (hsub.subset ht), h.ascending.sublist hsub⟩

theorem Laid.of_flatMap {α : Type} {f : α → List Token} {l : List α} (h : Laid (l.flatMap f)) {a : α} (ha : a ∈ l) :
    Laid (f a) :=
  ⟨fun t ht => h.nonempty t (List.mem_flatMap.mpr ⟨a, ha, ht⟩), (List.pairwise_flatMap.mp h.ascending).1 a ha⟩

namespace Grammar

/-- The last value of an entry, or its tag if it has none. -/
def Item.last {width : Nat} (i : Item width) : Token := i.values.getLast?.getD i.tag.val

theorem Item.getLast?_tokens {width : Nat} (i : Item width) : i.tokens.getLast? = some i.last :=
  List.getLast?_cons

theorem Item.last_mem {width : Nat} (i : Item width) : i.last ∈ i.tokens :=
  List.mem_of_getLast? i.getLast?_tokens

theorem Item.tag_mem {width : Nat} (i : Item width) : i.tag.val ∈ i.tokens := List.mem_cons_self

/-- The span of an entry runs from its tag to its last value. -/
theorem Item.span_entry {width : Nat} (i : Item width) (h : Laid i.tokens) :
    i.entry.span = ⟨i.tag.val.span.start, i.last.span.stop⟩ := by
  have halone : i.tokens = [] ++ (i.tokens ++ []) := by simp
  obtain ⟨-, ⟨t, u, ht, hu, hspan⟩, -⟩ := i.stretch h halone
  obtain rfl : i.tag.val = t := by simpa [Item.tokens] using ht
  have hlast : i.tokens[([] : List Token).length + width]? = some i.last := by
    have hlength : i.tokens.length - 1 = ([] : List Token).length + width := by
      rw [Item.tokens, List.length_cons, i.full, List.length_nil]
      omega
    rw [← i.getLast?_tokens, List.getLast?_eq_getElem?, hlength]
  obtain rfl := Option.some.inj (hlast.symm.trans hu)
  exact hspan

theorem Item.tag_stop_le {width : Nat} (i : Item width) (h : Laid i.tokens) :
    i.tag.val.span.stop ≤ i.last.span.stop := by
  rcases List.mem_cons.mp i.last_mem with heq | hmem
  · rw [heq]
  · have hbehind := (List.pairwise_cons.mp h.ascending).1 i.last hmem
    have hnonempty := h.nonempty i.last i.last_mem
    omega

/-- The spans of a set are told by tokens of its block: it runs from the name to the closing brace, and
each entry from its tag to its last value. -/
structure Block.Extends (b : Block) (s : TagSet) : Prop where
  whole : s.span = ⟨b.name.span.start, b.closing.val.span.stop⟩
  entry : ∀ i ∈ b.items, i.entry.span = ⟨i.tag.val.span.start, i.last.span.stop⟩

namespace Block

variable {b : Block}

theorem laid_parts (h : Laid b.tokens) : Laid (b.name :: (b.items.flatMap Item.tokens ++ [b.closing.val])) := by
  refine h.sublist ?_
  have hname : [b.name].Sublist b.head.tokens := by
    rw [List.singleton_sublist]
    simp [Head.tokens, Title.tokens, Block.name]
  exact hname.append (List.Sublist.refl _)

theorem laid_items (h : Laid b.tokens) : Laid (b.items.flatMap Item.tokens) :=
  (laid_parts h).sublist ((List.sublist_append_left _ _).cons _)

theorem laid_item (h : Laid b.tokens) {i : Item b.head.fields.length} (hi : i ∈ b.items) : Laid i.tokens :=
  (laid_items h).of_flatMap hi

theorem Denotes.extent {s : TagSet} (hs : b.Denotes s) (h : Laid b.tokens) : b.Extends s := by
  refine ⟨?_, fun i hi => i.span_entry (laid_item h hi)⟩
  have hparts := laid_parts h
  have hbehind := (List.pairwise_cons.mp hparts.ascending).1 b.closing.val (by simp)
  have hname := hparts.nonempty b.name List.mem_cons_self
  have hclosing := hparts.nonempty b.closing.val (by simp)
  rw [hs.span]
  unfold Span.hull
  rw [min_eq_left (by omega), max_eq_right (by omega)]

theorem Denotes.entry_inside {s : TagSet} (hs : b.Denotes s) (h : Laid b.tokens) {e : TagEntry}
    (he : e ∈ s.entries) :
    s.span.start < e.span.start ∧ e.span.start < e.span.stop ∧ e.span.stop < s.span.stop := by
  obtain ⟨i, hi, rfl⟩ := List.mem_map.mp (hs.declared.mem_iff.mp (Array.mem_toList_iff.mpr he))
  have hmem : ∀ t ∈ i.tokens, t ∈ b.items.flatMap Item.tokens := fun t ht => List.mem_flatMap.mpr ⟨i, hi, ht⟩
  have hparts := laid_parts h
  obtain ⟨hafter, hrest⟩ := List.pairwise_cons.mp hparts.ascending
  have hname := hparts.nonempty b.name List.mem_cons_self
  have hclosing := hparts.nonempty b.closing.val (by simp)
  have htag := (laid_item h hi).nonempty i.tag.val i.tag_mem
  have hfirst := hafter i.tag.val (List.mem_append_left _ (hmem _ i.tag_mem))
  have hlast := (List.pairwise_append.mp hrest).2.2 i.last (hmem _ i.last_mem) b.closing.val (by simp)
  have hwhole := i.tag_stop_le (laid_item h hi)
  obtain ⟨hset, hentry⟩ := hs.extent h
  rw [hset, hentry i hi]
  refine ⟨?_, ?_, ?_⟩ <;> dsimp only <;> omega

/-- The entries of a block follow each other as they are declared. -/
theorem entries_follow (h : Laid b.tokens) : b.entries.Pairwise fun e e' => e.span.stop ≤ e'.span.start := by
  rw [Block.entries, List.pairwise_map]
  refine (List.pairwise_flatMap.mp (laid_items h).ascending).2.imp_of_mem fun {i j} hi hj hbefore => ?_
  rw [i.span_entry (laid_item h hi), j.span_entry (laid_item h hj)]
  exact hbefore i.last i.last_mem j.tag.val j.tag_mem

theorem Denotes.entries_apart {s : TagSet} (hs : b.Denotes s) (h : Laid b.tokens) :
    s.entries.toList.Pairwise fun e e' => e.span.Apart e'.span := by
  rw [hs.declared.pairwise_iff (fun hab => hab.symm)]
  exact (entries_follow h).imp fun hfollow => .inl hfollow

end Block

/-! ### A block by itself -/

namespace Block

/-- The block without the tokens in front of its name. -/
def bare (b : Block) : Block := ⟨{ b.head with title := ⟨[], b.head.title.name⟩ }, b.items, b.closing⟩

theorem tokens_bare (b : Block) : b.bare.tokens = b.used := by
  rw [tokens_eq]
  rfl

theorem Denotes.bare {b : Block} {s : TagSet} (h : b.Denotes s) : b.bare.Denotes s :=
  ⟨h.name, h.fields, h.declared, h.ascending, h.span⟩

/-- A source with the tokens of one block, moved, has the set of this block, moved. -/
theorem parse_slice {b : Block} {s : TagSet} (hb : b.Distinct) (hs : b.Denotes s) {slice : String} {n : Nat}
    (h : (lex slice).map (Token.shift n) = b.used) :
    ∃ set, parse slice = .ok [set] ∧ set.shift n = s := by
  have hdistinct : ∀ x ∈ [b.bare], x.Distinct := by
    intro x hx
    obtain rfl := List.mem_singleton.mp hx
    exact hb
  let file : File := ⟨[b.bare], hdistinct, []⟩
  have htokens : file.tokens = (lex slice).map (Token.shift n) := by
    rw [h, ← b.tokens_bare]
    simp [file, File.tokens]
  have halike : List.Forall₂ (Token.Alike fun s s' => s' = s.shift n) (lex slice) file.tokens := by
    rw [htokens, List.forall₂_map_right_iff, List.forall₂_same]
    exact fun t _ => t.alike_shift n
  have hstep : List.Forall₂ (Result.Alike fun s s' => s' = s.shift n) (SetStream.ofSource slice).results
      (SetStream.ofTokens file.tokens).results :=
    SetStream.results_alike (shift_merges n) rfl rfl (Feed.gives_ofSource slice) (Feed.gives_ofAnswers _) halike
  have hverdict := (SetStream.verdict_alike hstep).eq_shift
  have hsets : List.Forall₂ Denotes file.blocks [s] := .cons hs.bare .nil
  rw [verdict_ofTokens hsets, ← parse_eq_verdict] at hverdict
  cases hparse : parse slice with
  | error e =>
    rw [hparse] at hverdict
    cases hverdict
  | ok sets =>
    rw [hparse] at hverdict
    obtain ⟨set, rfl, hset⟩ := List.map_eq_singleton_iff.mp (Except.ok.inj hverdict).symm
    exact ⟨set, rfl, hset⟩

end Block

/-! ### The blocks of a source -/

namespace File

variable {file : File} {b : Block}

theorem laid_blocks (h : Laid file.tokens) : Laid (file.blocks.flatMap Block.tokens) :=
  h.sublist (List.sublist_append_left _ _)

theorem laid_block (h : Laid file.tokens) (hb : b ∈ file.blocks) : Laid b.tokens := (laid_blocks h).of_flatMap hb

theorem blocks_follow (h : Laid file.tokens) :
    file.blocks.Pairwise fun b b' => b.closing.val.span.stop ≤ b'.name.span.start := by
  refine (List.pairwise_flatMap.mp (laid_blocks h).ascending).2.imp fun {b b'} hbefore => ?_
  exact hbefore _ b.closing_mem_tokens _ b'.name_mem_tokens

theorem extents (h : Laid file.tokens) {sets : List TagSet} (hsets : List.Forall₂ Block.Denotes file.blocks sets) :
    List.Forall₂ (fun b s => b.Denotes s ∧ b.Extends s) file.blocks sets := by
  have hboth := (List.forall₂_and_left _ _).mpr ⟨fun b hb => laid_block h hb, hsets⟩
  exact hboth.imp fun _ _ ⟨hlaid, hs⟩ => ⟨hs, hs.extent hlaid⟩

/-- What a set covers holds the tokens of its block from the name on. -/
theorem exists_slice {source : String} (hfile : file.tokens = lex source) (hb : b ∈ file.blocks) :
    ∃ slice, Span.Holds source ⟨b.name.span.start, b.closing.val.span.stop⟩ slice ∧
      (lex slice).map (Token.shift b.name.span.start) = b.used := by
  obtain ⟨earlier, later, hblocks⟩ := List.append_of_mem hb
  have htokens : lex source = (earlier.flatMap Block.tokens ++ b.dropped) ++
      (b.used ++ (later.flatMap Block.tokens ++ file.strays.map (·.val))) := by
    rw [← hfile, File.tokens, hblocks, List.flatMap_append, List.flatMap_cons, b.tokens_eq]
    simp only [List.append_assoc]
  have hstop : lastStop b.name.span.stop b.used.tail = b.closing.val.span.stop := by
    rw [Block.used, List.tail_cons, lastStop_append, lastStop_cons, lastStop_append]
    rfl
  obtain ⟨slice, hslice, hlex⟩ := lex_slice htokens
  refine ⟨slice, ?_, hlex⟩
  rw [← hstop]
  exact hslice

end File

end Grammar

/-- **The spans of sets and entries are exact, and each set can be read by itself.** A set runs from its
name to its closing brace and an entry from its tag to its last value. The sets follow each other, and
the entries of a set lie inside of it and apart from each other. The text that a set covers is accepted
and has this one set, with its spans counted from the start of that text. -/
theorem set_spans_exact {source : String} {sets : List TagSet} (h : parse source = .ok sets) :
    (∃ file : Grammar.File, file.tokens = lex source ∧
      List.Forall₂ (fun b s => b.Denotes s ∧ b.Extends s) file.blocks sets) ∧
    sets.Pairwise (fun s s' => s.span.stop ≤ s'.span.start) ∧
    (∀ s ∈ sets,
      (∀ e ∈ s.entries, s.span.start < e.span.start ∧ e.span.start < e.span.stop ∧ e.span.stop < s.span.stop) ∧
      s.entries.toList.Pairwise (fun e e' => e.span.Apart e'.span)) ∧
    ∀ s ∈ sets, (∃ slice, s.span.Holds source slice) ∧
      ∀ slice, s.span.Holds source slice → ∃ set, parse slice = .ok [set] ∧ set.shift s.span.start = s := by
  obtain ⟨file, hfile, hsets⟩ := Grammar.exists_file_of_parse h
  have hlaid : Laid file.tokens := hfile ▸ lex_laid source
  have hextents := Grammar.File.extents hlaid hsets
  refine ⟨⟨file, hfile, hextents⟩, ?_, ?_, ?_⟩
  · refine pairwise_of_forall₂ hextents (fun hb hb' hfollow => ?_) (Grammar.File.blocks_follow hlaid)
    rw [hb.2.whole, hb'.2.whole]
    exact hfollow
  · intro s hs
    obtain ⟨b, hb, hdenotes⟩ := Grammar.exists_denoted hsets hs
    have hblock := Grammar.File.laid_block hlaid hb
    exact ⟨fun e he => hdenotes.entry_inside hblock he, hdenotes.entries_apart hblock⟩
  · intro s hs
    obtain ⟨b, hb, hdenotes⟩ := Grammar.exists_denoted hsets hs
    have hwhole := (hdenotes.extent (Grammar.File.laid_block hlaid hb)).whole
    obtain ⟨slice, hslice, hlex⟩ := Grammar.File.exists_slice hfile hb
    rw [hwhole]
    refine ⟨⟨slice, hslice⟩, fun text htext => ?_⟩
    obtain rfl := hslice.unique htext
    exact Grammar.Block.parse_slice (file.distinct b hb) hdenotes hlex

/-- A quoted name right behind another quote, and a brace for a value. -/
theorem glued_set_read_by_itself :
    parse "B \x7b z \x7d \"x\"\"A b\"| f \x7b y \x7d x 1 \x7d" =
        .ok [⟨"B", [], #[⟨"z", [], ⟨4, 5⟩⟩], ⟨0, 7⟩⟩,
          ⟨"A b", ["f"], #[⟨"x", ["1"], ⟨26, 29⟩⟩, ⟨"y", ["\x7d"], ⟨22, 25⟩⟩], ⟨11, 31⟩⟩] ∧
      ∃ set, parse "\"A b\"| f \x7b y \x7d x 1 \x7d" = .ok [set] ∧
        set.shift 11 = ⟨"A b", ["f"], #[⟨"x", ["1"], ⟨26, 29⟩⟩, ⟨"y", ["\x7d"], ⟨22, 25⟩⟩], ⟨11, 31⟩⟩ := by
  have hparse : parse "B \x7b z \x7d \"x\"\"A b\"| f \x7b y \x7d x 1 \x7d" =
      .ok [⟨"B", [], #[⟨"z", [], ⟨4, 5⟩⟩], ⟨0, 7⟩⟩,
        ⟨"A b", ["f"], #[⟨"x", ["1"], ⟨26, 29⟩⟩, ⟨"y", ["\x7d"], ⟨22, 25⟩⟩], ⟨11, 31⟩⟩] := by
    cbv
  obtain ⟨-, -, -, hslices⟩ := set_spans_exact hparse
  have hholds : Span.Holds "B \x7b z \x7d \"x\"\"A b\"| f \x7b y \x7d x 1 \x7d" ⟨11, 31⟩
      "\"A b\"| f \x7b y \x7d x 1 \x7d" :=
    ⟨"B \x7b z \x7d \"x\"".toList, [], by decide, by decide⟩
  exact ⟨hparse, (hslices _ (List.mem_cons_of_mem _ List.mem_cons_self)).2 _ hholds⟩

end TagTables
