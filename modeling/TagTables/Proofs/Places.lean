/-
# Spans as stretches of tokens

The spans that are handed out are merged from the spans of tokens. In a source
the tokens come one behind the other and none is empty (`lex_laid`), so the
merged span runs from the start of one token to the end of another one: it
is a stretch of tokens, and its two ends tell which (`Stretch.unique`). An
entry is the stretch from its tag to its last value (`Item.stretch`), so both
spans of a repeated tag are stretches that start with that tag
(`exists_entries_of_duplicateTag`).

Stretches make it possible to compare spans of two sources by the positions
of the tokens alone (`SamePlace`), and merging keeps the positions the same
(`samePlace_merges`).

Key definitions: `Laid`, `Stretch`, `SamePlace`, `EntryAt`.
Key theorems: `lex_laid`, `Stretch.hull`, `Stretch.unique`, `samePlace_merges`,
`Grammar.Item.stretch`, `exists_entries_of_duplicateTag`.
-/
import Mathlib
import TagTables.Proofs.InStep
import TagTables.Proofs.Tiling
import TagTables.Proofs.Verdicts

namespace TagTables

/-- The tokens stand one behind the other, and none is empty. -/
structure Laid (ts : List Token) : Prop where
  nonempty : ∀ t ∈ ts, t.span.start < t.span.stop
  ascending : ts.Pairwise fun a b => a.span.stop ≤ b.span.start

theorem lex_laid (source : String) : Laid (lex source) := by
  have htiles : Tiles source 0 (lex source) := (tiles_iff_eq_lex source _).mpr rfl
  exact ⟨fun t ht => (htiles.cut t ht).nonempty, htiles.ascending⟩

/-- The span runs from the start of the `i`-th token to the end of the `j`-th. -/
def Stretch (ts : List Token) (i j : Nat) (s : Span) : Prop :=
  ∃ t u, ts[i]? = some t ∧ ts[j]? = some u ∧ s = ⟨t.span.start, u.span.stop⟩

/-- Both spans run over tokens at the same positions. -/
def SamePlace (ts ts' : List Token) (s s' : Span) : Prop :=
  ∃ i j, i ≤ j ∧ Stretch ts i j s ∧ Stretch ts' i j s'

/-- The span is a stretch of tokens that starts with the tag. -/
def EntryAt (ts : List Token) (tag : String) (i j : Nat) (s : Span) : Prop :=
  i ≤ j ∧ Stretch ts i j s ∧ ∃ t, ts[i]? = some t ∧ t.text = tag

theorem stretch_of_token {ts : List Token} {i : Nat} {t : Token} (h : ts[i]? = some t) :
    Stretch ts i i t.span := ⟨t, t, h, h, rfl⟩

namespace Laid

variable {ts : List Token} (h : Laid ts)
include h

theorem lt_of_lt {i j : Nat} {t u : Token} (ht : ts[i]? = some t) (hu : ts[j]? = some u) (hij : i < j) :
    t.span.start < u.span.start ∧ t.span.stop < u.span.stop := by
  obtain ⟨hi, rfl⟩ := List.getElem?_eq_some_iff.mp ht
  obtain ⟨hj, rfl⟩ := List.getElem?_eq_some_iff.mp hu
  have hbehind := List.pairwise_iff_getElem.mp h.ascending i j hi hj hij
  have hfirst := h.nonempty ts[i] (List.getElem_mem hi)
  have hsecond := h.nonempty ts[j] (List.getElem_mem hj)
  omega

theorem le_of_le {i j : Nat} {t u : Token} (ht : ts[i]? = some t) (hu : ts[j]? = some u) (hij : i ≤ j) :
    t.span.start ≤ u.span.start ∧ t.span.stop ≤ u.span.stop := by
  rcases Nat.lt_or_eq_of_le hij with hlt | rfl
  · have := h.lt_of_lt ht hu hlt
    omega
  · obtain rfl := Option.some.inj (ht.symm.trans hu)
    exact ⟨le_rfl, le_rfl⟩

end Laid

namespace Stretch

variable {ts : List Token} {i j k l : Nat} {s s' : Span}

/-- Merged stretches are a stretch, from the first token of both to the last. -/
theorem hull (hlaid : Laid ts) (h : Stretch ts i j s) (h' : Stretch ts k l s') :
    Stretch ts (min i k) (max j l) (s.hull s') := by
  obtain ⟨t, u, ht, hu, rfl⟩ := h
  obtain ⟨t', u', ht', hu', rfl⟩ := h'
  have hstart : ∃ v, ts[min i k]? = some v ∧ v.span.start = min t.span.start t'.span.start := by
    by_cases hik : i ≤ k
    · have := hlaid.le_of_le ht ht' hik
      exact ⟨t, by rwa [min_eq_left hik], by omega⟩
    · have := hlaid.le_of_le ht' ht (by omega)
      exact ⟨t', by rwa [min_eq_right (by omega)], by omega⟩
  have hstop : ∃ v, ts[max j l]? = some v ∧ v.span.stop = max u.span.stop u'.span.stop := by
    by_cases hjl : j ≤ l
    · have := hlaid.le_of_le hu hu' hjl
      exact ⟨u', by rwa [max_eq_right hjl], by omega⟩
    · have := hlaid.le_of_le hu' hu (by omega)
      exact ⟨u, by rwa [max_eq_left (by omega)], by omega⟩
  obtain ⟨v, hv, hvstart⟩ := hstart
  obtain ⟨w, hw, hwstop⟩ := hstop
  exact ⟨v, w, hv, hw, by rw [hvstart, hwstop]; rfl⟩

theorem unique (hlaid : Laid ts) (h : Stretch ts i j s) (h' : Stretch ts k l s) : i = k ∧ j = l := by
  obtain ⟨t, u, ht, hu, rfl⟩ := h
  obtain ⟨t', u', ht', hu', heq⟩ := h'
  obtain ⟨hstart, hstop⟩ := Span.mk.inj heq
  constructor
  · by_contra hne
    rcases Nat.lt_or_gt_of_ne hne with hlt | hlt
    · have := hlaid.lt_of_lt ht ht' hlt
      omega
    · have := hlaid.lt_of_lt ht' ht hlt
      omega
  · by_contra hne
    rcases Nat.lt_or_gt_of_ne hne with hlt | hlt
    · have := hlaid.lt_of_lt hu hu' hlt
      omega
    · have := hlaid.lt_of_lt hu' hu hlt
      omega

/-- A stretch goes on over the tokens behind it. -/
theorem foldl_hull (hlaid : Laid ts) : ∀ (more pre post : List Token) {i : Nat} {s : Span},
    ts = pre ++ (more ++ post) → i < pre.length → Stretch ts i (pre.length - 1) s →
      Stretch ts i (pre.length + more.length - 1) (more.foldl (fun s v => s.hull v.span) s)
  | [], pre, post, i, s, _, _, h => by simpa using h
  | v :: more, pre, post, i, s, hts, hi, h => by
    have hv : ts[pre.length]? = some v := by simp [hts]
    have hnext := h.hull hlaid (stretch_of_token hv)
    have hmin : min i pre.length = i := by omega
    have hmax : max (pre.length - 1) pre.length = (pre ++ [v]).length - 1 := by simp
    rw [hmin, hmax] at hnext
    have ih := foldl_hull hlaid more (pre ++ [v]) post (by simp [hts])
      (by rw [List.length_append]; omega) hnext
    have hlength : (pre ++ [v]).length + more.length - 1 = pre.length + (v :: more).length - 1 := by
      simp only [List.length_append, List.length_cons, List.length_nil]
      omega
    rw [hlength] at ih
    exact ih

end Stretch

theorem samePlace_merges {ts ts' : List Token} (h : Laid ts) (h' : Laid ts') :
    Span.Merges (SamePlace ts ts') := by
  rintro a a' b b' ⟨i, j, hij, ha, ha'⟩ ⟨k, l, hkl, hb, hb'⟩
  exact ⟨min i k, max j l, by omega, ha.hull h hb, ha'.hull h' hb'⟩

/-- Tokens that agree are alike, each being in the same place as the other. -/
theorem alike_of_agrees {ts ts' : List Token} (h : List.Forall₂ Token.Agrees ts ts') :
    List.Forall₂ (Token.Alike (SamePlace ts ts')) ts ts' := by
  rw [List.forall₂_iff_get] at h ⊢
  refine ⟨h.1, fun i hi hi' => ⟨h.2 i hi hi', i, i, le_rfl, ?_, ?_⟩⟩
  · exact stretch_of_token (List.getElem?_eq_getElem hi)
  · exact stretch_of_token (List.getElem?_eq_getElem hi')

/-! ### Entries -/

namespace Grammar

/-- An entry is the stretch from its tag to its last value. -/
theorem Item.stretch {width : Nat} (i : Item width) {ts pre post : List Token} (hlaid : Laid ts)
    (hts : ts = pre ++ (i.tokens ++ post)) :
    EntryAt ts i.entry.name pre.length (pre.length + width) i.entry.span := by
  have htag : ts[pre.length]? = some i.tag.val := by simp [hts, Item.tokens]
  have hfirst : Stretch ts pre.length ((pre ++ [i.tag.val]).length - 1) i.tag.val.span := by
    simpa using stretch_of_token htag
  have hall := Stretch.foldl_hull hlaid i.values (pre ++ [i.tag.val]) post (by simp [hts, Item.tokens]) (by simp)
    hfirst
  have hlast : (pre ++ [i.tag.val]).length + i.values.length - 1 = pre.length + width := by
    rw [List.length_append, List.length_singleton, i.full]
    omega
  rw [hlast] at hall
  exact ⟨Nat.le_add_right _ _, hall, i.tag.val, htag, rfl⟩

theorem Block.exists_entryAt {b : Block} {e : TagEntry} (he : e ∈ b.entries) {ts pre post : List Token}
    (hlaid : Laid ts) (hts : ts = pre ++ (b.tokens ++ post)) : ∃ i j, EntryAt ts e.name i j e.span := by
  obtain ⟨item, hitem, rfl⟩ := List.mem_map.mp he
  obtain ⟨before, behind, hitems⟩ := List.append_of_mem hitem
  have hsplit : ts = (pre ++ (b.head.tokens ++ before.flatMap Item.tokens)) ++ (item.tokens ++
      (behind.flatMap Item.tokens ++ ([b.closing.val] ++ post))) := by
    simp [hts, Block.tokens, hitems]
  exact ⟨_, _, item.stretch hlaid hsplit⟩

end Grammar

theorem FirstRepeat.again_mem {entries : List TagEntry} {first again : TagEntry}
    (h : FirstRepeat entries first again) : again ∈ entries ∧ again.name = first.name := by
  obtain ⟨more, hmore⟩ := h.declared
  have hmem : again ∈ entries.filter (fun e => e.name = first.name) := by rw [hmore]; simp
  simpa using List.mem_filter.mp hmem

/-- Both spans of a repeated tag are entries of that tag. -/
theorem exists_entries_of_duplicateTag {source set tag : String} {span first : Span}
    (h : parse source = .error (.duplicateTag set tag span first)) :
    (∃ i j, EntryAt (lex source) tag i j span) ∧ ∃ i j, EntryAt (lex source) tag i j first := by
  obtain ⟨⟨blocks, hdistinct, offence⟩, hr, hcause⟩ := Grammar.exists_rejection_of_parse h
  cases offence with
  | nameless mark rest => cases hcause
  | unclosed block => cases hcause
  | repeated b hb rest =>
    obtain ⟨e, e', hrepeat, heq⟩ := hcause
    obtain ⟨-, rfl, rfl, rfl⟩ := SyntaxError.duplicateTag.inj heq
    obtain ⟨hagain, hname⟩ := hrepeat.again_mem
    have hts : lex source = blocks.flatMap Grammar.Block.tokens ++ (b.tokens ++ rest) := hr.symm
    refine ⟨Grammar.Block.exists_entryAt hagain (lex_laid source) hts, ?_⟩
    rw [hname]
    exact Grammar.Block.exists_entryAt hrepeat.first_mem (lex_laid source) hts

end TagTables
