/-
# Sorting entries and finding a repeated name

The entries of a closed block are sorted by name and then looked through for
two neighbours with one name. Sorting keeps the entries and, among those of
one name, their order (`sortByName_filter`); in a sorted list equal names are
neighbours. So the neighbours are found exactly if some name is declared
twice, and the first such pair is the first two declarations of the least
name that is (`FirstRepeat`).

Key definitions: `Ascending`, `FirstRepeat`.
Key theorems: `sortByName_filter`, `adjacentRepeat?_sortByName_eq_none_iff`,
`firstRepeat_of_adjacentRepeat?`, `FirstRepeat.unique`,
`Phase.close_eq_ok_iff`, `Phase.close_eq_error_iff`.
-/
import TagTables.SetStream

namespace TagTables

/-- The names of entries, in order. -/
def namesOf (entries : List TagEntry) : List String := entries.map (·.name)

/-- Every name is less than those behind it. -/
def Ascending (entries : List TagEntry) : Prop := entries.Pairwise fun a b => a.name < b.name

/-- No name is greater than one behind it. -/
def InOrder (entries : List TagEntry) : Prop := entries.Pairwise fun a b => a.name ≤ b.name

/-! ### Sorting -/

theorem sortByName_perm (entries : List TagEntry) : (sortByName entries).Perm entries :=
  List.mergeSort_perm _ _

theorem nameLe_trans (a b c : TagEntry) (hab : decide (a.name ≤ b.name) = true)
    (hbc : decide (b.name ≤ c.name) = true) : decide (a.name ≤ c.name) = true := by
  simp only [decide_eq_true_eq] at hab hbc ⊢
  exact String.le_trans hab hbc

theorem nameLe_total (a b : TagEntry) : (decide (a.name ≤ b.name) || decide (b.name ≤ a.name)) = true := by
  simpa using String.le_total a.name b.name

theorem sortByName_inOrder (entries : List TagEntry) : InOrder (sortByName entries) := by
  have h := List.pairwise_mergeSort nameLe_trans nameLe_total entries
  exact h.imp fun hab => by simpa using hab

/-- Sorting is stable. The entries of one name stay in their order. -/
theorem sortByName_filter (entries : List TagEntry) (name : String) :
    (sortByName entries).filter (fun e => e.name = name) = entries.filter (fun e => e.name = name) := by
  have hle : (entries.filter (fun e => e.name = name)).Pairwise
      fun a b => decide (a.name ≤ b.name) = true := by
    refine List.pairwise_of_forall_mem_list fun a ha b hb => ?_
    have hna : a.name = name := by simpa using (List.mem_filter.mp ha).2
    have hnb : b.name = name := by simpa using (List.mem_filter.mp hb).2
    simp [hna, hnb]
  have hsub := List.sublist_mergeSort nameLe_trans nameLe_total hle List.filter_sublist
  have hlen : ((sortByName entries).filter (fun e => e.name = name)).length =
      (entries.filter (fun e => e.name = name)).length :=
    ((sortByName_perm entries).filter _).length_eq
  have hself := hsub.filter (fun e => decide (e.name = name))
  rw [List.filter_filter] at hself
  simp only [Bool.and_self] at hself
  exact (hself.eq_of_length hlen.symm).symm

/-! ### Neighbours with one name -/

theorem ascending_iff_nodup {entries : List TagEntry} (h : InOrder entries) :
    Ascending entries ↔ (namesOf entries).Nodup := by
  rw [namesOf, List.Nodup, List.pairwise_map]
  constructor
  · exact fun hlt => hlt.imp fun hab => String.ne_of_lt hab
  · intro hne
    exact (h.and hne).imp fun hab => Std.lt_of_le_of_ne hab.1 hab.2

theorem adjacentRepeat?_eq_none_iff : ∀ {entries : List TagEntry}, InOrder entries →
    (adjacentRepeat? entries = none ↔ Ascending entries)
  | [], _ => by simp [adjacentRepeat?, Ascending]
  | [e], _ => by simp [adjacentRepeat?, Ascending]
  | first :: again :: rest, h => by
    have hrest := adjacentRepeat?_eq_none_iff (List.pairwise_cons.mp h).2
    have hfirst := (List.pairwise_cons.mp h).1
    rw [adjacentRepeat?]
    by_cases heq : first.name = again.name
    · rw [if_pos heq]
      refine ⟨by simp, fun hasc => ?_⟩
      exact absurd heq (String.ne_of_lt ((List.pairwise_cons.mp hasc).1 again List.mem_cons_self))
    · rw [if_neg heq, hrest]
      refine ⟨fun hasc => List.pairwise_cons.mpr ⟨fun e he => ?_, hasc⟩, fun hasc => (List.pairwise_cons.mp hasc).2⟩
      have hlt : first.name < again.name := Std.lt_of_le_of_ne (hfirst again List.mem_cons_self) heq
      rcases List.mem_cons.mp he with rfl | he
      · exact hlt
      · exact String.lt_trans hlt ((List.pairwise_cons.mp hasc).1 e he)

theorem adjacentRepeat?_sortByName_eq_none_iff (entries : List TagEntry) :
    adjacentRepeat? (sortByName entries) = none ↔ (namesOf entries).Nodup := by
  rw [adjacentRepeat?_eq_none_iff (sortByName_inOrder entries), ascending_iff_nodup (sortByName_inOrder entries)]
  exact ((sortByName_perm entries).map _).nodup_iff

theorem ascending_sortByName {entries : List TagEntry} (h : (namesOf entries).Nodup) :
    Ascending (sortByName entries) := by
  rw [← adjacentRepeat?_eq_none_iff (sortByName_inOrder entries), adjacentRepeat?_sortByName_eq_none_iff]
  exact h

/-! ### The first repeat -/

/-- `first` and `again` are the first two declarations of a name that is declared twice, and
no lesser name is. -/
structure FirstRepeat (entries : List TagEntry) (first again : TagEntry) : Prop where
  declared : ∃ more, entries.filter (fun e => e.name = first.name) = first :: again :: more
  least : ∀ name, 2 ≤ (namesOf entries).count name → first.name ≤ name

theorem count_namesOf (entries : List TagEntry) (name : String) :
    (namesOf entries).count name = (entries.filter (fun e => e.name = name)).length := by
  rw [namesOf, List.count, List.countP_map, List.countP_eq_length_filter]
  rfl

namespace FirstRepeat

variable {entries : List TagEntry} {first again : TagEntry}

theorem two_le_count (h : FirstRepeat entries first again) : 2 ≤ (namesOf entries).count first.name := by
  obtain ⟨more, hmore⟩ := h.declared
  rw [count_namesOf, hmore, List.length_cons, List.length_cons]
  omega

theorem first_mem (h : FirstRepeat entries first again) : first ∈ entries := by
  obtain ⟨more, hmore⟩ := h.declared
  have hmem : first ∈ entries.filter (fun e => e.name = first.name) := hmore ▸ List.mem_cons_self
  exact (List.mem_filter.mp hmem).1

theorem unique {first' again' : TagEntry} (h : FirstRepeat entries first again)
    (h' : FirstRepeat entries first' again') : first = first' ∧ again = again' := by
  have hname : first.name = first'.name :=
    String.le_antisymm (h.least _ h'.two_le_count) (h'.least _ h.two_le_count)
  obtain ⟨more, hmore⟩ := h.declared
  obtain ⟨more', hmore'⟩ := h'.declared
  rw [hname, hmore'] at hmore
  simp only [List.cons.injEq] at hmore
  exact ⟨hmore.1.symm, hmore.2.1.symm⟩

/-- An entry whose name is less than all others changes nothing. -/
theorem cons {e : TagEntry} (h : FirstRepeat entries first again)
    (hlt : ∀ x ∈ entries, e.name < x.name) : FirstRepeat (e :: entries) first again := by
  obtain ⟨more, hmore⟩ := h.declared
  have hne : e.name ≠ first.name := String.ne_of_lt (hlt first h.first_mem)
  refine ⟨⟨more, by simp [hne, hmore]⟩, fun name htwo => h.least name ?_⟩
  rw [namesOf, List.map_cons, List.count_cons] at htwo
  by_cases hname : e.name = name
  · -- the name of `e` is declared once only
    have hnot : name ∉ namesOf entries := by
      rw [namesOf, List.mem_map]
      rintro ⟨x, hx, hxname⟩
      exact String.ne_of_lt (hlt x hx) (hname.trans hxname.symm)
    have hzero := List.count_eq_zero_of_not_mem hnot
    rw [namesOf] at hzero
    rw [hzero] at htwo
    split at htwo <;> omega
  · simpa [hname, namesOf] using htwo

end FirstRepeat

theorem firstRepeat_of_inOrder : ∀ {entries : List TagEntry} {first again : TagEntry}, InOrder entries →
    adjacentRepeat? entries = some (first, again) → FirstRepeat entries first again
  | [], _, _, _, hsome => nomatch hsome
  | [_], _, _, _, hsome => nomatch hsome
  | x :: y :: rest, first, again, h, hsome => by
    obtain ⟨hx, hrest⟩ := List.pairwise_cons.mp h
    rw [adjacentRepeat?] at hsome
    by_cases heq : x.name = y.name
    · rw [if_pos heq] at hsome
      obtain ⟨rfl, rfl⟩ : x = first ∧ y = again := by simpa using hsome
      refine ⟨⟨rest.filter (fun e => e.name = x.name), by simp [heq]⟩, fun name htwo => ?_⟩
      have hmem : name ∈ namesOf (x :: y :: rest) := List.count_pos_iff.mp (by omega)
      obtain ⟨e, he, rfl⟩ := List.mem_map.mp hmem
      rcases List.mem_cons.mp he with rfl | he
      · exact String.le_refl _
      · exact hx e he
    · rw [if_neg heq] at hsome
      refine (firstRepeat_of_inOrder hrest hsome).cons fun e he => ?_
      have hlt : x.name < y.name := Std.lt_of_le_of_ne (hx y List.mem_cons_self) heq
      rcases List.mem_cons.mp he with rfl | he
      · exact hlt
      · exact Std.lt_of_lt_of_le hlt ((List.pairwise_cons.mp hrest).1 e he)

/-- The search finds the first repeat. -/
theorem firstRepeat_of_adjacentRepeat? {entries : List TagEntry} {first again : TagEntry}
    (h : adjacentRepeat? (sortByName entries) = some (first, again)) : FirstRepeat entries first again := by
  have hsorted := firstRepeat_of_inOrder (sortByName_inOrder entries) h
  refine ⟨?_, fun name htwo => hsorted.least name ?_⟩
  · rw [← sortByName_filter]
    exact hsorted.declared
  · rwa [count_namesOf, sortByName_filter, ← count_namesOf]

/-! ### Closing a block -/

theorem FirstRepeat.not_nodup {entries : List TagEntry} {first again : TagEntry}
    (h : FirstRepeat entries first again) : ¬ (namesOf entries).Nodup := by
  intro hnodup
  obtain ⟨more, hmore⟩ := h.declared
  have hpair : (first :: again :: more).Sublist entries := hmore ▸ List.filter_sublist
  have hagain : again ∈ entries.filter (fun e => e.name = first.name) := by simp [hmore]
  have hname : again.name = first.name := by simpa using (List.mem_filter.mp hagain).2
  -- the name would stand twice in a list without repeats
  have htwice : (namesOf (first :: again :: more)).Nodup := hnodup.sublist (hpair.map TagEntry.name)
  simp [namesOf, hname] at htwice

namespace Phase

variable {heading : Heading} {entries : Array TagEntry} {stop : Span}

/-- A block is closed with a set exactly if no name is declared twice, and then with its entries
in order. -/
theorem close_eq_ok_iff {set : TagSet} :
    close heading entries stop = .ok set ↔
      (namesOf entries.toList).Nodup ∧
        set = ⟨heading.name.text, heading.fields, (sortByName entries.toList).toArray,
          heading.name.span.hull stop⟩ := by
  rw [← adjacentRepeat?_sortByName_eq_none_iff]
  cases hrepeat : adjacentRepeat? (sortByName entries.toList) with
  | none => simp only [close, hrepeat, Except.ok.injEq, true_and, eq_comm]
  | some pair => simp [close, hrepeat]

/-- Otherwise it is closed with an error that names the first repeat. -/
theorem close_eq_error_iff {e : SyntaxError} :
    close heading entries stop = .error e ↔
      ∃ first again, FirstRepeat entries.toList first again ∧
        e = .duplicateTag heading.name.text again.name again.span first.span := by
  cases hrepeat : adjacentRepeat? (sortByName entries.toList) with
  | none =>
    have hnodup := (adjacentRepeat?_sortByName_eq_none_iff entries.toList).mp hrepeat
    constructor
    · intro h
      simp [close, hrepeat] at h
    · rintro ⟨first, again, hfirst, -⟩
      exact absurd hnodup hfirst.not_nodup
  | some pair =>
    have hfirst := firstRepeat_of_adjacentRepeat? hrepeat
    have hclose : close heading entries stop =
        .error (.duplicateTag heading.name.text pair.2.name pair.2.span pair.1.span) := by
      simp only [close, hrepeat]
    rw [hclose]
    constructor
    · intro h
      exact ⟨pair.1, pair.2, hfirst, (Except.error.inj h).symm⟩
    · rintro ⟨first, again, hfirst', rfl⟩
      obtain ⟨rfl, rfl⟩ := hfirst.unique hfirst'
      rfl

end Phase
end TagTables
