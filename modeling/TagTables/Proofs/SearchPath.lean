/-
# The search path of a build

Both steps of a build get the search path of whoever starts them with one more
element at its end, the package manager's directory. The elements are the
pieces between colons. A path that has been cut into them and glued again is
the path there was (`intercalate_pieces`), so nothing of it is lost or moved,
empty elements included.

An element with a colon would come out as two, so it cannot be added. The
package manager's directory has one exactly if the root has
(`Build.colon_mem_packageDir`): the three names below the root have none, nor
has what is put between them. Then the steps keep the present path and say so.

Key definitions: `Path.gap`.
Key theorems: `Path.join_join`, `Build.joinSearchPath_pieces_append`,
`Build.searchPath_eq`, `search_path_extended_at_end`.
-/
import Mathlib
import TagTables.Proofs.BuildDirectory

namespace TagTables

/-! ### Texts of joined paths -/

namespace Path

variable {p : Path} {child : String}

/-- What stands between a path and what is joined to it. -/
def gap (p : Path) : String := if p.text = "" || p.text.toList.getLast? == some '/' then "" else "/"

theorem text_join (h : isAbsolute ⟨child⟩ = false) (p : Path) : (p.join child).text = p.text ++ p.gap ++ child := by
  unfold join gap
  rw [if_neg (by rw [h]; decide)]
  split_ifs
  · rw [String.append_empty]
  · rfl

theorem gap_append {name : String} (hname : name ≠ "") (hslash : name.toList.getLast? ≠ some '/') (s : String) :
    gap ⟨s ++ name⟩ = "/" := by
  have hne : name.toList ≠ [] := fun hnil => hname (String.toList_eq_nil_iff.mp hnil)
  have hlast : (s ++ name).toList.getLast? = name.toList.getLast? := by
    rw [String.toList_append, List.getLast?_append_of_ne_nil _ hne]
  unfold gap
  rw [if_neg]
  rw [hlast]
  simp [hname, hslash]

/-- Joining two names one after the other is joining them at once, with a slash between them. -/
theorem join_join {name : String} (hname : name ≠ "") (hslash : name.toList.getLast? ≠ some '/')
    (hrelative : isAbsolute ⟨name⟩ = false) (hchild : isAbsolute ⟨child⟩ = false) (p : Path) :
    (p.join name).join child = p.join (name ++ "/" ++ child) := by
  have hboth : isAbsolute ⟨name ++ "/" ++ child⟩ = false := by
    rw [String.append_assoc, isAbsolute_append hname, hrelative]
  have hgap : (p.join name).gap = "/" := by
    have htext : p.join name = ⟨p.text ++ p.gap ++ name⟩ := congrArg Path.mk (text_join hrelative p)
    rw [htext, gap_append hname hslash]
  apply congrArg Path.mk
  calc ((p.join name).join child).text
      = (p.text ++ p.gap ++ name) ++ "/" ++ child := by rw [text_join hchild, hgap, text_join hrelative]
    _ = p.text ++ p.gap ++ (name ++ "/" ++ child) := by simp only [String.append_assoc]
    _ = (p.join (name ++ "/" ++ child)).text := (text_join hboth p).symm

theorem colon_notMem_gap (p : Path) : ':' ∉ p.gap.toList := by
  unfold gap
  split_ifs <;> decide

theorem colon_mem_join (h : isAbsolute ⟨child⟩ = false) (p : Path) :
    ':' ∈ (p.join child).text.toList ↔ ':' ∈ p.text.toList ∨ ':' ∈ child.toList := by
  rw [text_join h, String.toList_append, String.toList_append, List.mem_append, List.mem_append,
    or_iff_left (colon_notMem_gap p)]

end Path

/-! ### The path that the steps get -/

namespace Build

variable (b : Build) (present : Option String)

theorem packageDir_eq : b.packageDir = b.root.join "build/3rdParty/vcpkg" := by
  unfold packageDir
  rw [Path.join_join (by decide) (by decide) (by decide) (by decide),
    Path.join_join (by decide) (by decide) (by decide) (by decide)]
  rfl

theorem colon_mem_packageDir : ':' ∈ b.packageDir.text.toList ↔ ':' ∈ b.root.text.toList := by
  rw [packageDir_eq, Path.colon_mem_join (by decide), or_iff_left (by decide)]

/-- The elements of a search path can be glued again, so with one more all depends on the new one. -/
theorem joinSearchPath_pieces_append (path element : String) :
    joinSearchPath (pieces ':' path ++ [element]) =
      if ':' ∈ element.toList then .error "path segment contains separator `:`"
      else .ok (path ++ ":" ++ element) := by
  have hold : (pieces ':' path).any (·.toList.contains ':') = false := by
    rw [List.any_eq_false]
    intro piece hpiece
    simpa using notMem_of_mem_pieces hpiece
  have hglued : String.intercalate ":" (pieces ':' path ++ [element]) = path ++ ":" ++ element := by
    rw [String.intercalate_append_of_ne_nil (pieces_ne_nil ':' path) (List.cons_ne_nil _ _),
      String.intercalate_singleton]
    exact congrArg (· ++ ":" ++ element) (intercalate_pieces ':' path)
  unfold joinSearchPath
  rw [List.any_append, hold, hglued, Bool.false_or]
  simp

theorem searchPath_eq : b.searchPath present =
    if ':' ∈ b.root.text.toList then .error "path segment contains separator `:`"
    else .ok (present.getD "" ++ ":" ++ (b.root.join "build/3rdParty/vcpkg").text) := by
  unfold searchPath
  simp only [joinSearchPath_pieces_append, colon_mem_packageDir]
  rw [packageDir_eq]

variable {b present}

theorem step_of_extended {path : String} (h : b.searchPath present = .ok path) (args : List String) :
    (b.step present args).1.searchPath = some path ∧ (b.step present args).2 = [] := by
  unfold step
  rw [h]
  exact ⟨rfl, rfl⟩

theorem step_of_kept {reason : String} (h : b.searchPath present = .error reason) (args : List String) :
    (b.step present args).1.searchPath = none ∧ (b.step present args).2 = [.searchPathKept reason] := by
  unfold step
  rw [h]
  exact ⟨rfl, rfl⟩

end Build

/-- **The search path is only ever extended at its end.** If the root has no colon, both steps get the same
search path: the present one, then a colon, then the package manager's directory below the root. Cut at its
colons, it has the elements of the present one in their order, and this directory as the last. Where there is
no present path, or an empty one, this is one empty element. Nothing is reported. If the root has a colon,
neither step gets a search path of its own, and each reports one warning. -/
theorem search_path_extended_at_end (b : Build) (present : Option String) :
    (':' ∉ b.root.text.toList → ∃ path : String,
      (b.configureStep present).1.searchPath = some path ∧ (b.buildStep present).1.searchPath = some path ∧
      path = present.getD "" ++ ":" ++ (b.root.join "build/3rdParty/vcpkg").text ∧
      pieces ':' path = pieces ':' (present.getD "") ++ [(b.root.join "build/3rdParty/vcpkg").text] ∧
      (present.getD "" = "" → pieces ':' path = ["", (b.root.join "build/3rdParty/vcpkg").text]) ∧
      (b.configureStep present).2 = [] ∧ (b.buildStep present).2 = []) ∧
    (':' ∈ b.root.text.toList →
      (b.configureStep present).1.searchPath = none ∧ (b.buildStep present).1.searchPath = none ∧
      ∃ e : Event, e.level? = some .warn ∧
        e.message = "not adding vcpkg to PATH: path segment contains separator `:`" ∧
        (b.configureStep present).2 = [e] ∧ (b.buildStep present).2 = [e]) := by
  constructor
  · intro hroot
    have hpath := b.searchPath_eq present
    rw [if_neg hroot] at hpath
    have hlast : ':' ∉ (b.root.join "build/3rdParty/vcpkg").text.toList := by
      rwa [← b.packageDir_eq, b.colon_mem_packageDir]
    have hpieces : pieces ':' (present.getD "" ++ ":" ++ (b.root.join "build/3rdParty/vcpkg").text) =
        pieces ':' (present.getD "") ++ [(b.root.join "build/3rdParty/vcpkg").text] := by
      rw [← pieces_of_notMem hlast]
      exact pieces_append_singleton_append ':' _ _
    have hstep := Build.step_of_extended hpath
    refine ⟨_, (hstep _).1, (hstep _).1, rfl, hpieces, fun hempty => ?_, (hstep _).2, (hstep _).2⟩
    rw [hpieces, hempty]
    rfl
  · intro hroot
    have hpath := b.searchPath_eq present
    rw [if_pos hroot] at hpath
    have hstep := Build.step_of_kept hpath
    exact ⟨(hstep _).1, (hstep _).1, _, rfl, rfl, (hstep _).2, (hstep _).2⟩

/-- Empty elements stay where they are, also the last one before the directory. A root with a colon keeps the
present path, and this is reported. -/
theorem search_path_with_empty_elements :
    (':' ∉ "repo/".toList ∧
      ∃ path, (Build.buildStep ⟨⟨"repo/"⟩, "linux", .gcc⟩ (some ":/bin::")).1.searchPath = some path ∧
        pieces ':' path = ["", "/bin", "", "", "repo/build/3rdParty/vcpkg"]) ∧
    ':' ∈ "re:po".toList ∧ (Build.configureStep ⟨⟨"re:po"⟩, "linux", .gcc⟩ none).1.searchPath = none ∧
      ∃ e : Event, e.level? = some .warn ∧ (Build.configureStep ⟨⟨"re:po"⟩, "linux", .gcc⟩ none).2 = [e] := by
  constructor
  · obtain ⟨path, -, hbuild, -, hpieces, -⟩ :=
      (search_path_extended_at_end ⟨⟨"repo/"⟩, "linux", .gcc⟩ (some ":/bin::")).1 (by decide)
    exact ⟨by decide, path, hbuild, hpieces.trans (by decide)⟩
  · obtain ⟨hnone, -, e, hlevel, -, hreport, -⟩ :=
      (search_path_extended_at_end ⟨⟨"re:po"⟩, "linux", .gcc⟩ none).2 (by decide)
    exact ⟨by decide, hnone, e, hlevel, hreport⟩

end TagTables
