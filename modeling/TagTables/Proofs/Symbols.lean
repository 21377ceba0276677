/-
# When the declared symbols are distinct

Every symbol is the name of a set with an ending behind it: a tag, the suffix
of the count or the suffix of the table. Within a set the tags are distinct,
because a set that repeats one is rejected; but a tag may be one of the
suffixes, and then two symbols of the set are the same. Two sets can share a
symbol only if the name of the one continues that of the other
(`Emit.Style.Overlap`); nothing keeps them from it. These are the only ways,
so they say exactly when all symbols of a run are distinct
(`symbols_distinct_iff`).

Key definitions: `Emit.Style.endings`, `Emit.Style.symbols`,
`Emit.Style.Overlap`.
Key theorems: `Emit.Style.nodup_symbolsOf_iff`,
`Emit.Style.disjoint_symbolsOf_iff`, `symbols_distinct_iff`.
-/
import Mathlib
import TagTables.Proofs.Effects
import TagTables.Proofs.Tables

namespace TagTables

/-! ### Symbols and their endings -/

theorem append_eq_append_iff_exists (a b x y : String) :
    a ++ x = b ++ y ↔ (∃ r, b = a ++ r ∧ x = r ++ y) ∨ ∃ r, a = b ++ r ∧ y = r ++ x := by
  constructor
  · intro h
    have hlist : a.toList ++ x.toList = b.toList ++ y.toList := by
      rw [← String.toList_append, ← String.toList_append, h]
    rcases List.append_eq_append_iff.mp hlist with ⟨r, hb, hx⟩ | ⟨r, ha, hy⟩
    · refine .inl ⟨String.ofList r, ?_, ?_⟩
      · apply String.toList_injective
        rw [String.toList_append, String.toList_ofList, hb]
      · apply String.toList_injective
        rw [String.toList_append, String.toList_ofList, hx]
    · refine .inr ⟨String.ofList r, ?_, ?_⟩
      · apply String.toList_injective
        rw [String.toList_append, String.toList_ofList, ha]
      · apply String.toList_injective
        rw [String.toList_append, String.toList_ofList, hy]
  · rintro (⟨r, rfl, rfl⟩ | ⟨r, rfl, rfl⟩)
    · rw [String.append_assoc]
    · rw [String.append_assoc]

namespace Emit
namespace Style

variable (s : Style)

/-- What stands behind the name of a set in its symbols. -/
def endings (set : TagSet) : List String := set.names ++ [s.countSuffix, s.tableSuffix]

/-- The symbols that are declared of a set. -/
def symbolsOf (set : TagSet) : List String := (s.declared set).map Declaration.symbol

/-- The symbols that are declared of all sets. -/
def symbols (sets : List TagSet) : List String := sets.flatMap s.symbolsOf

/-- The name of `b` continues that of `a`, and a symbol of both is the same. -/
def Overlap (a b : TagSet) : Prop :=
  ∃ r, b.name = a.name ++ r ∧ ∃ ending ∈ s.endings b, r ++ ending ∈ s.endings a

theorem symbolsOf_eq (set : TagSet) : s.symbolsOf set = (s.endings set).map (set.name ++ ·) := by
  have hranks : (set.names.zipIdx.map fun p => Declaration.constant (rankSymbol set.name p.1) p.2).map
      Declaration.symbol = set.names.map (set.name ++ ·) := by
    rw [List.map_map]
    calc set.names.zipIdx.map (Declaration.symbol ∘ fun p => .constant (rankSymbol set.name p.1) p.2)
        = (set.names.zipIdx.map Prod.fst).map (set.name ++ ·) := by
          rw [List.map_map]
          rfl
      _ = set.names.map (set.name ++ ·) := by rw [List.zipIdx_map_fst]
  rw [symbolsOf, declared, List.map_append, hranks, endings, List.map_append]
  rfl

/-- The symbols of one set are distinct unless a tag is one of the suffixes. -/
theorem nodup_symbolsOf_iff {set : TagSet} (hset : set.Sound) (hne : s.countSuffix ≠ s.tableSuffix) :
    (s.symbolsOf set).Nodup ↔ s.countSuffix ∉ set.names ∧ s.tableSuffix ∉ set.names := by
  have hinj : Function.Injective (set.name ++ ·) := fun x y h => (String.append_right_inj _).mp h
  have hnames : set.names.Nodup := by
    have hpair : set.names.Pairwise (· < ·) := List.pairwise_map.mpr hset.ascending
    exact hpair.imp fun hlt => String.ne_of_lt hlt
  have hsuffixes : [s.countSuffix, s.tableSuffix].Nodup := by simpa using hne
  rw [symbolsOf_eq, List.nodup_map_iff hinj, endings, List.nodup_append']
  constructor
  · rintro ⟨-, -, hdisjoint⟩
    exact ⟨fun h => hdisjoint h (by simp), fun h => hdisjoint h (by simp)⟩
  · rintro ⟨hcount, htable⟩
    refine ⟨hnames, hsuffixes, fun x hx hsuffix => ?_⟩
    rw [List.mem_cons, List.mem_singleton] at hsuffix
    rcases hsuffix with rfl | rfl
    · exact hcount hx
    · exact htable hx

theorem exists_shared_iff (a b : TagSet) :
    (∃ x ∈ s.endings a, ∃ y ∈ s.endings b, a.name ++ x = b.name ++ y) ↔
      s.Overlap a b ∨ s.Overlap b a := by
  constructor
  · rintro ⟨x, hx, y, hy, h⟩
    rcases (append_eq_append_iff_exists _ _ _ _).mp h with ⟨r, hname, rfl⟩ | ⟨r, hname, rfl⟩
    · exact .inl ⟨r, hname, y, hy, hx⟩
    · exact .inr ⟨r, hname, x, hx, hy⟩
  · rintro (⟨r, hname, y, hy, hx⟩ | ⟨r, hname, x, hx, hy⟩)
    · exact ⟨r ++ y, hx, y, hy, (append_eq_append_iff_exists _ _ _ _).mpr (.inl ⟨r, hname, rfl⟩)⟩
    · exact ⟨x, hx, r ++ x, hy, (append_eq_append_iff_exists _ _ _ _).mpr (.inr ⟨r, hname, rfl⟩)⟩

/-- Two sets share no symbol unless they overlap. -/
theorem disjoint_symbolsOf_iff (a b : TagSet) :
    List.Disjoint (s.symbolsOf a) (s.symbolsOf b) ↔ ¬ s.Overlap a b ∧ ¬ s.Overlap b a := by
  rw [← not_or, ← exists_shared_iff, symbolsOf_eq, symbolsOf_eq]
  constructor
  · rintro hdisjoint ⟨x, hx, y, hy, h⟩
    exact hdisjoint (List.mem_map_of_mem hx) (List.mem_map.mpr ⟨y, hy, h.symm⟩)
  · intro hnone symbol ha hb
    obtain ⟨x, hx, rfl⟩ := List.mem_map.mp ha
    obtain ⟨y, hy, h⟩ := List.mem_map.mp hb
    exact hnone ⟨x, hx, y, hy, h.symm⟩

/-- The symbols of sound sets are distinct exactly if no tag is one of the suffixes and no two
sets overlap. -/
theorem nodup_symbols_iff {sets : List TagSet} (hsets : ∀ set ∈ sets, set.Sound)
    (hne : s.countSuffix ≠ s.tableSuffix) :
    (s.symbols sets).Nodup ↔
      (∀ set ∈ sets, s.countSuffix ∉ set.names ∧ s.tableSuffix ∉ set.names) ∧
        sets.Pairwise fun a b => ¬ s.Overlap a b ∧ ¬ s.Overlap b a := by
  rw [symbols, List.nodup_flatMap]
  refine and_congr (forall₂_congr fun set hset => ?_) ?_
  · exact s.nodup_symbolsOf_iff (hsets set hset) hne
  · exact List.Pairwise.iff fun {a b} => s.disjoint_symbolsOf_iff a b

end Style
end Emit

/-! ### Artifacts in memory -/

theorem exists_parse_of_artifacts {source : String} {style : Emit.Style} {a : Artifacts}
    (h : artifacts source style = .ok a) :
    ∃ sets, parse source = .ok sets ∧ a = Artifacts.ofSets style sets := by
  cases hparse : parse source with
  | error e => cases h.symm.trans (artifacts_of_parse_error style hparse)
  | ok sets => exact ⟨sets, rfl, Except.ok.inj (h.symm.trans (artifacts_of_parse style hparse))⟩

/-- The two artifacts are never the same: in the second line the declarations guard against a
second inclusion where the definitions include. -/
theorem Artifacts.declarations_ne_definitions (style : Emit.Style) (sets : List TagSet) :
    (ofSets style sets).declarations ≠ (ofSets style sets).definitions := by
  intro h
  obtain ⟨rest, hrest⟩ := style.declarationsHead_eq
  obtain ⟨rest', hrest'⟩ := style.definitionsHead_eq
  have htext := String.toByteArray_inj.1 h
  rw [hrest, hrest'] at htext
  simp only [String.append_assoc, String.append_right_inj] at htext
  have hchars := congrArg String.toList htext
  simp only [String.toList_append] at hchars
  cases hchars

theorem declarations_ofSets (style : Emit.Style) (sets : List TagSet) :
    (Artifacts.ofSets style sets).declarations =
      (style.declarationsHead ++ String.join (sets.map fun set =>
        String.join ((style.declared set).map fun d => d.line style ++ "\n") ++ "\n") ++
          Emit.Style.declarationsTail).toUTF8 := by
  have hsections : style.declarationsOf = fun set =>
      String.join ((style.declared set).map fun d => d.line style ++ "\n") ++ "\n" :=
    funext style.declarationsOf_eq
  rw [Artifacts.ofSets, hsections]

/-- **When all declared symbols are distinct.** The declarations of a source that has artifacts
in the default style declare, line by line, the symbols of its sets. They are distinct exactly if
no tag is called `COUNT` or `tagDict` and no two sets overlap; so the tags of one set never
collide with each other, nor the count of a set with its table. -/
theorem symbols_distinct_iff {source : String} {a : Artifacts} (h : artifacts source {} = .ok a) :
    ∃ sets, parse source = .ok sets ∧
      a.declarations = (({} : Emit.Style).declarationsHead ++ String.join (sets.map fun set =>
        String.join ((({} : Emit.Style).declared set).map fun d => d.line {} ++ "\n") ++ "\n") ++
          Emit.Style.declarationsTail).toUTF8 ∧
      ((({} : Emit.Style).symbols sets).Nodup ↔
        (∀ set ∈ sets, "COUNT" ∉ set.names ∧ "tagDict" ∉ set.names) ∧
          sets.Pairwise fun x y => ¬ ({} : Emit.Style).Overlap x y ∧ ¬ ({} : Emit.Style).Overlap y x) := by
  obtain ⟨sets, hparse, rfl⟩ := exists_parse_of_artifacts h
  have hsound : ∀ set ∈ sets, set.Sound := fun set hset => TagSet.sound_of_parse hparse hset
  exact ⟨sets, hparse, declarations_ofSets {} sets, ({} : Emit.Style).nodup_symbols_iff hsound (by decide)⟩

/-- Two sets of which one name continues the other, and no symbol is declared twice. -/
theorem symbols_distinct_in_continued_name :
    ∃ a sets, artifacts "A \x7b x \x7d AB \x7b y \x7d" {} = .ok a ∧
      parse "A \x7b x \x7d AB \x7b y \x7d" = .ok sets ∧ (({} : Emit.Style).symbols sets).Nodup ∧
      sets.Pairwise fun x y => ¬ ({} : Emit.Style).Overlap x y ∧ ¬ ({} : Emit.Style).Overlap y x := by
  have hparse : parse "A \x7b x \x7d AB \x7b y \x7d" =
      .ok [⟨"A", [], #[⟨"x", [], ⟨4, 5⟩⟩], ⟨0, 7⟩⟩, ⟨"AB", [], #[⟨"y", [], ⟨13, 14⟩⟩], ⟨8, 16⟩⟩] := by
    cbv
  have ha := artifacts_of_parse {} hparse
  obtain ⟨sets, hsets, -, hiff⟩ := symbols_distinct_iff ha
  obtain rfl := Except.ok.inj (hparse.symm.trans hsets)
  have hnodup : (({} : Emit.Style).symbols
      [⟨"A", [], #[⟨"x", [], ⟨4, 5⟩⟩], ⟨0, 7⟩⟩, ⟨"AB", [], #[⟨"y", [], ⟨13, 14⟩⟩], ⟨8, 16⟩⟩]).Nodup := by
    decide
  exact ⟨_, _, ha, hparse, hnodup, (hiff.mp hnodup).2⟩

/-- Not all symbols that are declared are distinct: a tag may be called like the suffix of the
count. -/
theorem not_all_symbols_distinct :
    ¬ ∀ (source : String) (a : Artifacts) (sets : List TagSet), artifacts source {} = .ok a →
      parse source = .ok sets → (({} : Emit.Style).symbols sets).Nodup := by
  intro hdistinct
  have hparse : parse "A \x7b COUNT \x7d" = .ok [⟨"A", [], #[⟨"COUNT", [], ⟨4, 9⟩⟩], ⟨0, 11⟩⟩] := by
    cbv
  have hnodup := hdistinct _ _ _ (artifacts_of_parse {} hparse) hparse
  revert hnodup
  decide

end TagTables
