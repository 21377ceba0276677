/-
# Which repeated tag is reported

When a block is closed its entries are sorted and only neighbours are
compared, but what is reported can be said of the entries as they were
declared: the least name, byte by byte, that is declared twice, with its
first two declarations. These are the two that no other declaration of the
name stands before (`FirstTwo`); that a third one is never taken for the
second rests on the stability of the sort (`sortByName_filter`).

Key definitions: `FirstTwo`.
Key theorems: `firstTwo_iff`, `firstRepeat_iff`, `repeated_tags_found`.
-/
import Mathlib
import TagTables.Proofs.ByteOrder
import TagTables.Proofs.Verdicts

namespace TagTables

/-- The entries are the first two declarations of one name: no other declaration of it stands before
the second. -/
structure FirstTwo (entries : List TagEntry) (first again : TagEntry) : Prop where
  same : again.name = first.name
  earliest : ∃ before between behind, entries = before ++ first :: (between ++ again :: behind) ∧
    ∀ e ∈ before ++ between, e.name ≠ first.name

/-- They are the first two that are left if all other names are left out. -/
theorem firstTwo_iff {entries : List TagEntry} {first again : TagEntry} :
    FirstTwo entries first again ↔
      ∃ more, entries.filter (fun e => e.name = first.name) = first :: again :: more := by
  constructor
  · rintro ⟨hsame, before, between, behind, rfl, hothers⟩
    have hbefore : before.filter (fun e => e.name = first.name) = [] := by
      rw [List.filter_eq_nil_iff]
      intro e he
      simpa using hothers e (List.mem_append_left between he)
    have hbetween : between.filter (fun e => e.name = first.name) = [] := by
      rw [List.filter_eq_nil_iff]
      intro e he
      simpa using hothers e (List.mem_append_right before he)
    exact ⟨behind.filter (fun e => e.name = first.name), by simp [hbefore, hbetween, hsame]⟩
  · rintro ⟨more, hmore⟩
    obtain ⟨before, rest, rfl, hbefore, -, hrest⟩ := List.filter_eq_cons_iff.mp hmore
    obtain ⟨between, behind, rfl, hbetween, hagain, -⟩ := List.filter_eq_cons_iff.mp hrest
    refine ⟨by simpa using hagain, before, between, behind, rfl, fun e he => ?_⟩
    rcases List.mem_append.mp he with he | he
    · simpa using hbefore e he
    · simpa using hbetween e he

theorem le_iff_utf8Bytes_le (s t : String) : s ≤ t ↔ utf8Bytes s ≤ utf8Bytes t := by
  rw [← String.not_lt, ← List.not_lt, lt_iff_utf8Bytes_lt]

/-- The first repeat, said of the order of the source and of the order of the bytes. -/
theorem firstRepeat_iff {entries : List TagEntry} {first again : TagEntry} :
    FirstRepeat entries first again ↔ FirstTwo entries first again ∧
      ∀ name, 2 ≤ (namesOf entries).count name → utf8Bytes first.name ≤ utf8Bytes name := by
  simp only [← le_iff_utf8Bytes_le, firstTwo_iff]
  exact ⟨fun h => ⟨h.declared, h.least⟩, fun h => ⟨h.1, h.2⟩⟩

namespace Grammar

theorem next_of_block (b : Block) (rest : List Token) :
    (SetStream.ofTokens (b.tokens ++ rest)).next.1.result = some b.close := by
  have hanswer := next_answered (s := SetStream.ofTokens (b.tokens ++ rest)) rfl (Feed.gives_ofAnswers _)
  rw [cut_block] at hanswer
  exact hanswer.1

end Grammar

/-- **Repeated tags are found exactly.** A block with any entries, in any order, is closed with a set
exactly if no two of them have one name, and the set has the same entries in ascending order of the
bytes of their names. Otherwise it is closed with an error that names the set and the least name that
is declared twice or more, and that points at the first two declarations of this name in the order of
the source. The stream closes each block with its entries as they are declared. -/
theorem repeated_tags_found (heading : Heading) (entries : Array TagEntry) (closing : Span) :
    ((∃ set, Phase.close heading entries closing = .ok set) ↔ (namesOf entries.toList).Nodup) ∧
    (∀ set, Phase.close heading entries closing = .ok set →
      set.name = heading.name.text ∧ set.entries.toList.Perm entries.toList ∧
        set.entries.toList.Pairwise fun a b => utf8Bytes a.name < utf8Bytes b.name) ∧
    (∀ e, Phase.close heading entries closing = .error e ↔
      ∃ first again, FirstTwo entries.toList first again ∧
        (∀ name, 2 ≤ (namesOf entries.toList).count name → utf8Bytes first.name ≤ utf8Bytes name) ∧
        e = .duplicateTag heading.name.text first.name again.span first.span) ∧
    ∀ (block : Grammar.Block) (rest : List Token),
      (SetStream.ofTokens (block.tokens ++ rest)).next.1.result =
        some (Phase.close ⟨block.name, block.head.fields⟩ block.entries.toArray block.closing.val.span) := by
  refine ⟨?_, ?_, fun e => ?_, Grammar.next_of_block⟩
  · constructor
    · rintro ⟨set, hset⟩
      exact (Phase.close_eq_ok_iff.mp hset).1
    · intro hnodup
      exact ⟨_, Phase.close_eq_ok_iff.mpr ⟨hnodup, rfl⟩⟩
  · intro set hset
    obtain ⟨hnodup, rfl⟩ := Phase.close_eq_ok_iff.mp hset
    refine ⟨rfl, sortByName_perm entries.toList, ?_⟩
    exact (ascending_sortByName hnodup).imp fun hab => (lt_iff_utf8Bytes_lt _ _).mp hab
  · rw [Phase.close_eq_error_iff]
    simp only [firstRepeat_iff, and_assoc]
    refine exists₂_congr fun first again => and_congr_right fun htwo => ?_
    rw [htwo.same]

-- Two names are repeated, the lesser one three times.
example : parse "A \x7b b a b a a \x7d" = .error (.duplicateTag "A" "a" ⟨10, 11⟩ ⟨6, 7⟩) := by
  cbv

end TagTables
