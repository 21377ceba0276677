/-
# The sets a stream hands out, and looking tags up in them

Whatever its token source does, a stream makes sets from whole blocks only
(`exists_denotes_of_next`). So each has its entries in ascending order of
their names and a value per field in each entry (`TagSet.Sound`), and then
the binary search is right: it finds a tag at its rank, and nothing if the
tag is not declared (`rank?_eq_some_iff`).

Key definitions: `TagSet.Sound`, `SetStream.after`.
Key theorems: `Grammar.Block.Denotes.sound`, `TagSet.Sound.rank?_eq_some_iff`,
`TagSet.Sound.value?_eq_some_iff`, `handed_out_sets_lookup`.
-/
import Mathlib
import TagTables.Proofs.ByteOrder
import TagTables.Proofs.Reader

namespace TagTables

/-! ### What holds of every set -/

/-- The entries of a set are in ascending order of their names, and each has a value per field. -/
structure TagSet.Sound (s : TagSet) : Prop where
  ascending : Ascending s.entries.toList
  full : ∀ e ∈ s.entries, e.values.length = s.fields.length

theorem Grammar.Block.Denotes.sound {b : Block} {s : TagSet} (h : b.Denotes s) : s.Sound := by
  refine ⟨h.ascending, fun e he => ?_⟩
  have hmem : e ∈ b.entries := h.declared.mem_iff.mp (Array.mem_toList_iff.mpr he)
  obtain ⟨i, -, rfl⟩ := List.mem_map.mp hmem
  rw [h.fields, Item.entry, List.length_map]
  exact i.full

namespace SetStream

/-- The stream behind so many answers. -/
def after (s : SetStream) : Nat → SetStream
  | 0 => s
  | n + 1 => (s.after n).next.2

/-- A set that a stream hands out stands for a block, whatever the stream was used for before. -/
theorem exists_denotes_of_next {s : SetStream} {set : TagSet} (h : s.next.1.result = some (.ok set)) :
    ∃ b : Grammar.Block, b.Denotes set := by
  have hf : s.failed = false := by
    cases hf : s.failed with
    | false => rfl
    | true => simp [next, hf] at h
  obtain ⟨ts, behind, hgives⟩ := s.feed.exists_gives
  have hanswer := Grammar.next_answered hf hgives
  cases hcut : Grammar.cut ts with
  | ended r =>
    rw [hcut, Grammar.Cut.Answered, h] at hanswer
    cases hfinish : (r.phase.finish (lastStop s.lastEnd ts)).1 <;> simp [hfinish] at hanswer
  | nameless mark rest =>
    rw [hcut, Grammar.Cut.Answered, h] at hanswer
    simp at hanswer
  | block b rest =>
    rw [hcut, Grammar.Cut.Answered, h] at hanswer
    have hclose : b.close = .ok set := (Option.some.inj hanswer.1).symm
    exact ⟨b, (Grammar.Block.denotes_of_close hclose).2⟩

end SetStream

/-! ### Ranks -/

namespace TagSet

theorem names_of_entry {s : TagSet} {i : Nat} {e : TagEntry} (h : s.entries[i]? = some e) :
    s.names[i]? = some e.name := by
  simp [names, h]

theorem lt_size_of_names {s : TagSet} {i : Nat} {tag : String} (h : s.names[i]? = some tag) : i < s.size := by
  have hlt : i < s.names.length := (List.getElem?_eq_some_iff.mp h).1
  simpa [names, size] using hlt

namespace Sound

variable {s : TagSet}

theorem name_lt (h : s.Sound) {i j : Nat} {a b : String} (hij : i < j) (ha : s.names[i]? = some a)
    (hb : s.names[j]? = some b) : a < b := by
  have hpair : s.names.Pairwise (· < ·) := List.pairwise_map.mpr h.ascending
  obtain ⟨hi, rfl⟩ := List.getElem?_eq_some_iff.mp ha
  obtain ⟨hj, rfl⟩ := List.getElem?_eq_some_iff.mp hb
  exact List.pairwise_iff_getElem.mp hpair i j hi hj hij

theorem rank_unique (h : s.Sound) {i j : Nat} {tag : String} (hi : s.names[i]? = some tag)
    (hj : s.names[j]? = some tag) : i = j := by
  rcases Nat.lt_trichotomy i j with hij | rfl | hij
  · exact absurd (h.name_lt hij hi hj) (String.lt_irrefl tag)
  · rfl
  · exact absurd (h.name_lt hij hj hi) (String.lt_irrefl tag)

/-- The search finds a tag between two ranks exactly where it is. What it leaves out on either
side has names that are all less than the tag, or all greater. -/
theorem rankBetween?_eq_some_iff (h : s.Sound) (tag : String) (lo hi : Nat) (hhi : hi ≤ s.size) (i : Nat) :
    s.rankBetween? tag lo hi = some i ↔ lo ≤ i ∧ i < hi ∧ s.names[i]? = some tag := by
  fun_induction rankBetween? s tag lo hi with
  | case1 lo hi hlt mid hnone =>
    have : s.size ≤ mid := Array.getElem?_eq_none_iff.mp hnone
    omega
  | case2 lo hi hlt mid entry hentry hname =>
    have hmid : s.names[mid]? = some tag := hname ▸ names_of_entry hentry
    refine ⟨fun hi => ?_, fun hi => ?_⟩
    · obtain rfl := Option.some.inj hi
      exact ⟨by omega, by omega, hmid⟩
    · rw [h.rank_unique hi.2.2 hmid]
  | case3 lo hi hlt mid entry hentry hname hless ih =>
    have hmid : s.names[mid]? = some entry.name := names_of_entry hentry
    rw [ih hhi]
    refine ⟨fun hi => ⟨by omega, hi.2⟩, fun hi => ⟨?_, hi.2⟩⟩
    -- a rank up to the middle has a name that is not greater than the one there
    by_contra hle
    rcases Nat.lt_or_eq_of_le (Nat.le_of_not_lt hle) with him | him
    · exact String.lt_asymm hless (h.name_lt him hi.2.2 hmid)
    · rw [him, hmid] at hi
      exact hname (Option.some.inj hi.2.2)
  | case4 lo hi hlt mid entry hentry hname hless ih =>
    have hmid : s.names[mid]? = some entry.name := names_of_entry hentry
    rw [ih (by omega)]
    refine ⟨fun hi => ⟨hi.1, by omega, hi.2.2⟩, fun hi => ⟨hi.1, ?_, hi.2.2⟩⟩
    by_contra hge
    rcases Nat.lt_or_eq_of_le (Nat.le_of_not_lt hge) with him | him
    · exact hless (h.name_lt him hmid hi.2.2)
    · rw [← him, hmid] at hi
      exact hname (Option.some.inj hi.2.2)
  | case5 lo hi hlt =>
    refine ⟨by simp, fun hi => ?_⟩
    omega

/-- A tag is found at its rank. -/
theorem rank?_eq_some_iff (h : s.Sound) (tag : String) (i : Nat) :
    s.rank? tag = some i ↔ i < s.size ∧ s.names[i]? = some tag := by
  rw [rank?, h.rankBetween?_eq_some_iff tag 0 s.size (Nat.le_refl _)]
  exact ⟨fun hi => hi.2, fun hi => ⟨Nat.zero_le i, hi⟩⟩

theorem rank?_eq_none_iff (h : s.Sound) (tag : String) : s.rank? tag = none ↔ tag ∉ s.names := by
  rw [Option.eq_none_iff_forall_ne_some]
  constructor
  · intro hnone hmem
    obtain ⟨i, hi⟩ := List.mem_iff_getElem?.mp hmem
    exact hnone i ((h.rank?_eq_some_iff tag i).mpr ⟨lt_size_of_names hi, hi⟩)
  · intro hnot i hi
    exact hnot (List.mem_of_getElem? ((h.rank?_eq_some_iff tag i).mp hi).2)

end Sound

/-! ### Values -/

/-- The first place where a field stands among the fields. -/
def FirstAt (fields : List String) (field : String) (column : Nat) : Prop :=
  fields[column]? = some field ∧ ∀ k < column, fields[k]? ≠ some field

theorem idxOf?_eq_some_iff_firstAt {fields : List String} {field : String} {column : Nat} :
    fields.idxOf? field = some column ↔ FirstAt fields field column := by
  rw [List.idxOf?_eq_some_iff, FirstAt]
  constructor
  · rintro ⟨hlt, hat, hbefore⟩
    refine ⟨List.getElem?_eq_some_iff.mpr ⟨hlt, hat⟩, fun k hk hfield => ?_⟩
    obtain ⟨_, hkfield⟩ := List.getElem?_eq_some_iff.mp hfield
    exact hbefore k hk hkfield
  · rintro ⟨hat, hbefore⟩
    obtain ⟨hlt, hat⟩ := List.getElem?_eq_some_iff.mp hat
    exact ⟨hlt, hat, fun k hk hkfield => hbefore k hk (List.getElem?_eq_some_iff.mpr ⟨by omega, hkfield⟩)⟩

theorem value?_eq_some_iff_exists (s : TagSet) (tag field v : String) :
    s.value? tag field = some v ↔
      ∃ column i e, s.fields.idxOf? field = some column ∧ s.rank? tag = some i ∧ s.entries[i]? = some e ∧
        e.values[column]? = some v := by
  simp only [value?, bind, Option.bind_eq_some_iff]
  constructor
  · rintro ⟨column, hcolumn, i, hi, e, he, hv⟩
    exact ⟨column, i, e, hcolumn, hi, he, hv⟩
  · rintro ⟨column, i, e, hcolumn, hi, he, hv⟩
    exact ⟨column, hcolumn, i, hi, e, he, hv⟩

namespace Sound

variable {s : TagSet}

/-- A value is found under its tag and the first field of its name. -/
theorem value?_eq_some_iff (h : s.Sound) (tag field v : String) :
    s.value? tag field = some v ↔
      ∃ e ∈ s.entries, e.name = tag ∧ ∃ column, FirstAt s.fields field column ∧ e.values[column]? = some v := by
  rw [value?_eq_some_iff_exists]
  constructor
  · rintro ⟨column, i, e, hcolumn, hi, he, hv⟩
    have hname : e.name = tag :=
      Option.some.inj ((names_of_entry he).symm.trans ((h.rank?_eq_some_iff tag i).mp hi).2)
    exact ⟨e, Array.mem_of_getElem? he, hname, column, idxOf?_eq_some_iff_firstAt.mp hcolumn, hv⟩
  · rintro ⟨e, hmem, rfl, column, hcolumn, hv⟩
    obtain ⟨i, he⟩ := Array.mem_iff_getElem?.mp hmem
    have hname : s.names[i]? = some e.name := names_of_entry he
    exact ⟨column, i, e, idxOf?_eq_some_iff_firstAt.mpr hcolumn,
      (h.rank?_eq_some_iff e.name i).mpr ⟨lt_size_of_names hname, hname⟩, he, hv⟩

theorem value?_eq_none_iff (h : s.Sound) (tag field : String) :
    s.value? tag field = none ↔ tag ∉ s.names ∨ field ∉ s.fields := by
  constructor
  · intro hnone
    by_contra hboth
    rw [not_or, not_not, not_not] at hboth
    -- the entry of the tag is as long as the fields, so it has the column of the field
    obtain ⟨e, hmem, hname⟩ := List.mem_map.mp hboth.1
    obtain ⟨column, hcolumn⟩ := Option.ne_none_iff_exists'.mp
      (mt List.idxOf?_eq_none_iff.mp (not_not.mpr hboth.2))
    have hfirst := idxOf?_eq_some_iff_firstAt.mp hcolumn
    have hlt : column < e.values.length := by
      rw [h.full e (Array.mem_toList_iff.mp hmem)]
      exact (List.getElem?_eq_some_iff.mp hfirst.1).1
    have hv := (h.value?_eq_some_iff tag field (e.values[column])).mpr
      ⟨e, Array.mem_toList_iff.mp hmem, hname, column, hfirst, List.getElem?_eq_getElem hlt⟩
    rw [hnone] at hv
    cases hv
  · intro hmissing
    rw [Option.eq_none_iff_forall_ne_some]
    intro v hv
    obtain ⟨e, hmem, rfl, column, hfirst, -⟩ := (h.value?_eq_some_iff tag field v).mp hv
    rcases hmissing with htag | hfield
    · exact htag (List.mem_map_of_mem (Array.mem_toList_iff.mpr hmem))
    · exact hfield (List.mem_of_getElem? hfirst.1)

end Sound
end TagSet

/-- **Sets handed out can be looked up.** Every set that a stream ever hands out, over any token
source, has its names in ascending order of their bytes and a value per field in each entry. So a
tag has the rank at which its name stands and none if it is not declared, and it has, for a field
of the set, the value at the first place of that field. -/
theorem handed_out_sets_lookup (feed : Feed) (n : Nat) (set : TagSet)
    (h : ((SetStream.after ⟨feed, 0, false⟩ n).next).1.result = some (.ok set)) :
    (set.entries.toList.Pairwise fun a b => utf8Bytes a.name < utf8Bytes b.name) ∧
    (∀ e ∈ set.entries, e.values.length = set.fields.length) ∧
    (∀ tag i, set.rank? tag = some i ↔ i < set.size ∧ set.names[i]? = some tag) ∧
    (∀ tag, set.rank? tag = none ↔ tag ∉ set.names) ∧
    (∀ tag field v, set.value? tag field = some v ↔
      ∃ e ∈ set.entries, e.name = tag ∧
        ∃ column, TagSet.FirstAt set.fields field column ∧ e.values[column]? = some v) ∧
    (∀ tag field, set.value? tag field = none ↔ tag ∉ set.names ∨ field ∉ set.fields) := by
  obtain ⟨b, hdenotes⟩ := SetStream.exists_denotes_of_next h
  have hsound := hdenotes.sound
  refine ⟨?_, hsound.full, hsound.rank?_eq_some_iff, hsound.rank?_eq_none_iff, hsound.value?_eq_some_iff,
    hsound.value?_eq_none_iff⟩
  exact hsound.ascending.imp fun hab => (lt_iff_utf8Bytes_lt _ _).mp hab

/-- A set behind a pause of the token source and before an error: it has one field twice, and a
closing brace for a value. -/
theorem handed_out_set_behind_pause :
    ∃ set, ((SetStream.after ⟨Feed.ofSource "A" ++ ⟨none, []⟩ ::
        Feed.ofSource "B | f \"f\" \x7b é \x7d 1 z 2 3 \x7d \x7b", 0, false⟩ 1).next).1.result =
          some (.ok set) ∧
      set.rank? "é" = some 1 ∧ set.value? "é" "f" = some "\x7d" ∧ set.value? "q" "f" = none := by
  have h : ((SetStream.after ⟨Feed.ofSource "A" ++ ⟨none, []⟩ ::
      Feed.ofSource "B | f \"f\" \x7b é \x7d 1 z 2 3 \x7d \x7b", 0, false⟩ 1).next).1.result =
        some (.ok ⟨"B", ["f", "f"], #[⟨"z", ["2", "3"], ⟨19, 24⟩⟩, ⟨"é", ["\x7d", "1"], ⟨12, 18⟩⟩], ⟨0, 26⟩⟩) := by
    cbv
  obtain ⟨-, -, hrank, -, hvalue, hnone⟩ := handed_out_sets_lookup _ 1 _ h
  refine ⟨_, h, (hrank "é" 1).mpr (by decide), (hvalue "é" "f" "\x7d").mpr ?_,
    (hnone "q" "f").mpr (.inl (by decide))⟩
  exact ⟨⟨"é", ["\x7d", "1"], ⟨12, 18⟩⟩, by simp, rfl, 0, ⟨rfl, by simp⟩, rfl⟩

end TagTables
