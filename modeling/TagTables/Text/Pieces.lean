/-
# Cutting a text at a separator

A text with `n` separators has `n + 1` pieces, some of them possibly empty;
the empty text has one. Gluing the pieces with the separator gives the text
back (`intercalate_piecesOf`).
-/
namespace TagTables

/-- The pieces of a list of characters between the separators. -/
def piecesOf (sep : Char) : List Char → List (List Char)
  | [] => [[]]
  | c :: rest =>
    if c = sep then [] :: piecesOf sep rest
    else
      match piecesOf sep rest with
      | [] => [[c]]
      | piece :: more => (c :: piece) :: more

/-- The pieces of a text between the separators. -/
def pieces (sep : Char) (s : String) : List String := (piecesOf sep s.toList).map String.ofList

theorem piecesOf_ne_nil (sep : Char) (cs : List Char) : piecesOf sep cs ≠ [] := by
  cases cs with
  | nil => simp [piecesOf]
  | cons c rest =>
    unfold piecesOf
    split
    · simp
    · split <;> simp

theorem piecesOf_eq_splitOn (sep : Char) (cs : List Char) : piecesOf sep cs = cs.splitOn sep := by
  induction cs with
  | nil => rw [piecesOf, List.splitOn_nil]
  | cons c rest ih =>
    rw [piecesOf, List.splitOn_cons_eq_if_modifyHead, ih]
    by_cases h : c = sep
    · simp [h]
    · obtain ⟨piece, more, hmore⟩ := List.exists_cons_of_ne_nil (List.splitOn_ne_nil sep rest)
      simp [h, hmore]

theorem intercalate_piecesOf (sep : Char) (cs : List Char) : [sep].intercalate (piecesOf sep cs) = cs := by
  rw [piecesOf_eq_splitOn, List.intercalate_splitOn]

/-- A separator parts the pieces before it from those behind it. -/
theorem piecesOf_append_cons (sep : Char) (a b : List Char) :
    piecesOf sep (a ++ sep :: b) = piecesOf sep a ++ piecesOf sep b := by
  simp only [piecesOf_eq_splitOn, List.splitOn_append_cons_self]

theorem notMem_of_mem_piecesOf {sep : Char} {cs piece : List Char} (h : piece ∈ piecesOf sep cs) :
    sep ∉ piece := by
  induction cs generalizing piece with
  | nil =>
    obtain rfl : piece = [] := by simpa [piecesOf] using h
    exact List.not_mem_nil
  | cons c rest ih =>
    unfold piecesOf at h
    by_cases hc : c = sep
    · rw [if_pos hc, List.mem_cons] at h
      rcases h with rfl | h
      · exact List.not_mem_nil
      · exact ih h
    · obtain ⟨first, more, hmore⟩ := List.exists_cons_of_ne_nil (piecesOf_ne_nil sep rest)
      simp only [if_neg hc, hmore, List.mem_cons] at h
      rw [hmore] at ih
      rcases h with rfl | h
      · rw [List.mem_cons, not_or]
        exact ⟨fun h => hc h.symm, ih List.mem_cons_self⟩
      · exact ih (List.mem_cons_of_mem _ h)

/-- Of two texts side by side, the last piece of the one goes on in the first of the other. -/
theorem piecesOf_append (sep : Char) (before : List Char) : ∃ above left,
    before = above.flatMap (· ++ [sep]) ++ left ∧
    ∀ {behind right : List Char} {below : List (List Char)}, piecesOf sep behind = right :: below →
      piecesOf sep (before ++ behind) = above ++ (left ++ right) :: below := by
  induction before with
  | nil => exact ⟨[], [], rfl, fun h => h⟩
  | cons c before ih =>
    obtain ⟨above, left, hbefore, hpieces⟩ := ih
    by_cases hc : c = sep
    · refine ⟨[] :: above, left, ?_, fun h => ?_⟩
      · rw [hbefore, hc]
        rfl
      · rw [List.cons_append, piecesOf, if_pos hc, hpieces h]
        rfl
    · cases above with
      | nil =>
        refine ⟨[], c :: left, by rw [hbefore]; rfl, fun h => ?_⟩
        rw [List.cons_append, piecesOf, if_neg hc, hpieces h]
        rfl
      | cons first above =>
        refine ⟨(c :: first) :: above, left, by rw [hbefore]; rfl, fun h => ?_⟩
        rw [List.cons_append, piecesOf, if_neg hc, hpieces h]
        rfl

theorem intercalate_cons (sep : Char) (line : List Char) (below : List (List Char)) :
    [sep].intercalate (line :: below) = line ++ below.flatMap (sep :: ·) := by
  induction below generalizing line with
  | nil => simp
  | cons next below ih =>
    rw [List.intercalate_cons_cons, ih, List.flatMap_cons]
    simp

theorem intercalate_append_cons (sep : Char) (above : List (List Char)) (line : List Char)
    (below : List (List Char)) : [sep].intercalate (above ++ line :: below) =
      above.flatMap (· ++ [sep]) ++ (line ++ below.flatMap (sep :: ·)) := by
  induction above with
  | nil => exact intercalate_cons sep line below
  | cons first above ih =>
    rw [List.cons_append, List.intercalate_cons_of_ne_nil (by simp), ih, List.flatMap_cons]
    simp only [List.append_assoc]

theorem pieces_ne_nil (sep : Char) (s : String) : pieces sep s ≠ [] :=
  fun h => piecesOf_ne_nil sep s.toList (List.map_eq_nil_iff.mp h)

theorem notMem_of_mem_pieces {sep : Char} {s piece : String} (h : piece ∈ pieces sep s) : sep ∉ piece.toList := by
  obtain ⟨cs, hcs, rfl⟩ := List.mem_map.mp h
  rw [String.toList_ofList]
  exact notMem_of_mem_piecesOf hcs

theorem pieces_of_notMem {sep : Char} {s : String} (h : sep ∉ s.toList) : pieces sep s = [s] := by
  rw [pieces, piecesOf_eq_splitOn, List.splitOn_eq_singleton h, List.map_singleton, String.ofList_toList]

theorem intercalate_pieces (sep : Char) (s : String) : (String.singleton sep).intercalate (pieces sep s) = s := by
  rw [← String.toList_inj, String.toList_intercalate, String.toList_singleton, pieces, List.map_map]
  have hid : String.toList ∘ String.ofList = id := funext fun cs => String.toList_ofList
  rw [hid, List.map_id, intercalate_piecesOf]

theorem pieces_append_singleton_append (sep : Char) (a b : String) :
    pieces sep (a ++ String.singleton sep ++ b) = pieces sep a ++ pieces sep b := by
  have hlist : (a ++ String.singleton sep ++ b).toList = a.toList ++ sep :: b.toList := by simp
  rw [pieces, hlist, piecesOf_append_cons, List.map_append]
  rfl

end TagTables
