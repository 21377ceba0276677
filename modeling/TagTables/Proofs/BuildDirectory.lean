/-
# Where a build goes

Both steps of a build name its directory as it is seen from where the program
runs, but they run in the root themselves. So a root that is not absolute is
followed twice: once to get to where the steps run, and once more at the start
of their argument. What comes of it is told by places of a file tree. A path
leads from a place to a place (`Place.reach`), as the tree in memory finds it
(`Tree.eq_reach_of_locate`), and a joined path leads on from where its first
part leads (`Place.reach_join`). All that counts of the segments of a path is
how many levels they go up and which names they go down after that
(`Course.foldl_follow`).

The steps use the documented directory if the platform or the root is
absolute. Otherwise they do so exactly if the root, followed once more,
makes no difference, or none that is left when the platform has gone up
(`Build.usesDocumented_iff`). A root that leads downwards always makes one.

Key definitions: `Place.reach`, `Course`, `Launch.target?`,
`Build.UsesDocumented`, `Build.below`.
Key theorems: `Tree.eq_reach_of_locate`, `Place.reach_join`,
`Course.foldl_follow`, `Build.usesDocumented_iff`,
`build_in_documented_directory_iff`.
-/
import Mathlib
import TagTables.Build
import TagTables.Host.Tree

namespace TagTables

/-! ### Following a path -/

namespace Place

/-- The place that a segment leads to. -/
def follow (place : Place) (segment : String) : Place :=
  if segment = "." then place else if segment = ".." then place.up else place ++ [segment]

/-- The place that a path leads to. -/
def reach (base : Place) (p : Path) : Place :=
  (Tree.segments p).foldl follow (if p.isAbsolute then ["/"] else base)

end Place

namespace Tree

variable {t : Tree} {place target : Place} {p : Path}

theorem eq_follow_of_enter {segment : String} (h : t.enter place segment = .ok target) :
    target = place.follow segment := by
  unfold enter at h
  rcases hlook : t.look place with e | (_ | (_ | contents))
  all_goals
    simp only [hlook, bind, Except.bind, pure, Except.pure] at h
    cases h
  rfl

theorem eq_foldl_of_foldlM : ∀ {segments : List String} {place target : Place},
    segments.foldlM t.enter place = .ok target → target = segments.foldl Place.follow place
  | [], _, _, h => by
    cases h
    rfl
  | segment :: segments, place, target, h => by
    rw [List.foldlM_cons] at h
    rcases hnext : t.enter place segment with e | next
    · rw [hnext] at h
      cases h
    · rw [hnext] at h
      rw [List.foldl_cons, ← eq_follow_of_enter hnext]
      exact eq_foldl_of_foldlM h

/-- A path that can be followed in a tree leads there. -/
theorem eq_reach_of_locate (h : t.locate place p = .ok target) : target = place.reach p := by
  unfold locate at h
  rcases hentry : t.locateEntry place p with e | entry
  · rw [hentry] at h
    cases h
  · have hreach : entry = place.reach p := by
      unfold locateEntry at hentry
      by_cases hempty : p.text = ""
      · rw [if_pos hempty] at hentry
        cases hentry
      · by_cases hlong : pathLimit < p.text.utf8ByteSize
        · rw [if_neg hempty, if_pos hlong] at hentry
          cases hentry
        · rw [if_neg hempty, if_neg hlong] at hentry
          exact eq_foldl_of_foldlM hentry
    rw [← hreach]
    simp only [hentry, bind, Except.bind] at h
    split_ifs at h
    · exact eq_follow_of_enter h
    · cases h
      rfl

end Tree

/-! ### Joined paths -/

section Join

variable {base : Place} {p : Path} {child : String}

theorem segments_empty : Tree.segments ⟨""⟩ = [] := by decide

theorem segments_append_slash (a b : String) :
    Tree.segments ⟨a ++ "/" ++ b⟩ = Tree.segments ⟨a⟩ ++ Tree.segments ⟨b⟩ := by
  have hslash : (a ++ "/" ++ b).toList = a.toList ++ '/' :: b.toList := by simp
  unfold Tree.segments pieces
  rw [hslash, piecesOf_append_cons, List.map_append, List.filter_append]

theorem isAbsolute_append {a : String} (h : a ≠ "") (b : String) :
    Path.isAbsolute ⟨a ++ b⟩ = Path.isAbsolute ⟨a⟩ := by
  have hne : a.toList ≠ [] := fun hnil => h (String.toList_eq_nil_iff.mp hnil)
  obtain ⟨c, rest, hcons⟩ := List.exists_cons_of_ne_nil hne
  simp [Path.isAbsolute, hcons]

/-- From where an absolute path is seen does not matter. -/
theorem Place.reach_of_absolute (h : p.isAbsolute = true) (base base' : Place) : base.reach p = base'.reach p := by
  unfold reach
  rw [if_pos h, if_pos h]

theorem Place.reach_of_relative (h : p.isAbsolute = false) (base : Place) :
    base.reach p = (Tree.segments p).foldl follow base := by
  unfold reach
  rw [if_neg (by rw [h]; decide)]

theorem Place.reach_of_segments {whole : Path} (hchild : Path.isAbsolute ⟨child⟩ = false)
    (habsolute : whole.isAbsolute = p.isAbsolute)
    (hsegments : Tree.segments whole = Tree.segments p ++ Tree.segments ⟨child⟩) :
    base.reach whole = (base.reach p).reach ⟨child⟩ := by
  rw [reach_of_relative hchild]
  unfold reach
  rw [hsegments, habsolute, List.foldl_append]

/-- A joined path leads on from where its first part leads. -/
theorem Place.reach_join (base : Place) (p : Path) (child : String) :
    base.reach (p.join child) = (base.reach p).reach ⟨child⟩ := by
  unfold Path.join
  by_cases habsolute : Path.isAbsolute ⟨child⟩ = true
  · rw [if_pos habsolute]
    exact reach_of_absolute habsolute _ _
  · rw [if_neg habsolute]
    rw [Bool.not_eq_true] at habsolute
    obtain ⟨text⟩ := p
    by_cases hempty : text = ""
    · subst hempty
      rw [if_pos (by decide)]
      apply reach_of_segments habsolute
      · rw [String.empty_append, habsolute]
        rfl
      · rw [String.empty_append, segments_empty, List.nil_append]
    · by_cases hslash : text.toList.getLast? = some '/'
      · -- the slash is there already, and makes no segment of its own
        rw [if_pos (by simp [hslash])]
        obtain ⟨init, hinit⟩ : ∃ init : String, text = init ++ "/" := by
          obtain ⟨cs, hcs⟩ := List.getLast?_eq_some_iff.mp hslash
          refine ⟨String.ofList cs, String.toList_inj.mp ?_⟩
          rw [hcs]
          simp
        apply reach_of_segments habsolute (isAbsolute_append hempty child)
        have hown := segments_append_slash init ""
        rw [String.append_empty, segments_empty, List.append_nil] at hown
        rw [hinit, segments_append_slash, hown]
      · rw [if_neg (by simp [hempty, hslash])]
        apply reach_of_segments habsolute
        · rw [String.append_assoc]
          exact isAbsolute_append hempty _
        · exact segments_append_slash text child

end Join

/-! ### What counts of the segments -/

/-- So many levels up, and then these names down. -/
structure Course where
  ups : Nat := 0
  downs : List String := []

namespace Course

/-- The course with one more segment. -/
def extend (c : Course) (segment : String) : Course :=
  if segment = "." then c
  else if segment = ".." then
    if c.downs = [] then { c with ups := c.ups + 1 } else { c with downs := c.downs.dropLast }
  else { c with downs := c.downs ++ [segment] }

/-- The course of some segments. -/
def ofSegments (segments : List String) : Course := segments.foldl extend {}

/-- Without going up, a course is the names on the way. -/
theorem foldl_extend_of_names {segments : List String} (h : ".." ∉ segments) (c : Course) :
    segments.foldl extend c = { c with downs := c.downs ++ segments.filter (· != ".") } := by
  induction segments generalizing c with
  | nil => simp
  | cons segment segments ih =>
    rw [List.mem_cons, not_or] at h
    rw [List.foldl_cons, ih h.2]
    by_cases hdot : segment = "."
    · simp [extend, hdot]
    · simp [extend, hdot, Ne.symm h.1]

end Course

namespace Place

/-- A place below the root, by the names on the way. -/
def rooted (names : List String) : Place := "/" :: names

theorem up_rooted (names : List String) : (rooted names).up = rooted names.dropLast := by
  unfold up rooted
  by_cases h : names = []
  · simp [h]
  · simp [h, List.dropLast_cons_of_ne_nil h]

theorem iterate_up_rooted (names : List String) (n : Nat) :
    up^[n] (rooted names) = rooted (List.dropLast^[n] names) := by
  induction n generalizing names with
  | zero => rfl
  | succ n ih => rw [Function.iterate_succ_apply, up_rooted, ih, Function.iterate_succ_apply]

end Place

namespace Course

/-- Where a course leads. -/
def target (c : Course) (names : List String) : Place := .rooted (List.dropLast^[c.ups] names ++ c.downs)

theorem follow_target (c : Course) (names : List String) (segment : String) :
    (c.target names).follow segment = (c.extend segment).target names := by
  unfold Place.follow extend
  by_cases hdot : segment = "."
  · rw [if_pos hdot, if_pos hdot]
  · rw [if_neg hdot, if_neg hdot]
    by_cases hup : segment = ".."
    · rw [if_pos hup, if_pos hup]
      by_cases hdowns : c.downs = []
      · rw [if_pos hdowns]
        unfold target
        rw [Place.up_rooted, hdowns, List.append_nil, List.append_nil, Function.iterate_succ_apply']
      · rw [if_neg hdowns]
        unfold target
        rw [Place.up_rooted, List.dropLast_append_of_ne_nil hdowns]
    · rw [if_neg hup, if_neg hup]
      unfold target Place.rooted
      rw [List.cons_append, List.append_assoc]

/-- All that counts of some segments is their course. -/
theorem foldl_follow (segments names : List String) :
    segments.foldl Place.follow (.rooted names) = (ofSegments segments).target names := by
  have hstart : Place.rooted names = ({} : Course).target names := by
    unfold target
    rw [List.append_nil]
    rfl
  rw [hstart]
  exact List.foldl_hom (target · names) fun c segment => follow_target c names segment

end Course

theorem Place.exists_reach_eq_rooted (names : List String) (p : Path) :
    ∃ reached, (rooted names).reach p = .rooted reached := by
  by_cases h : p.isAbsolute = true
  · unfold reach
    rw [if_pos h]
    exact ⟨_, Course.foldl_follow (Tree.segments p) []⟩
  · rw [reach_of_relative (by simpa using h), Course.foldl_follow]
    exact ⟨_, rfl⟩

/-! ### The directory of a build -/

namespace Launch

/-- The argument behind an option. -/
def behind? (l : Launch) (option : String) : Option String := (l.args.dropWhile (· != option)).tail.head?

/-- The place that the argument behind an option leads to: it is seen from the directory that the
program runs in, and this one from the place of whoever starts it. -/
def target? (l : Launch) (option : String) (here : Place) : Option Place :=
  (l.behind? option).map fun a => (here.reach l.directory).reach ⟨a⟩

theorem handed_of_not_holdsZero {s : String} (h : holdsZero s = false) : handed s = s := by
  unfold handed
  rw [h]
  rfl

end Launch

theorem holdsZero_append (s t : String) : holdsZero (s ++ t) = (holdsZero s || holdsZero t) := by
  simp [holdsZero]

theorem holdsZero_join {p : Path} {child : String} (hp : holdsZero p.text = false)
    (hchild : holdsZero child = false) : holdsZero (p.join child).text = false := by
  have hslash : holdsZero "/" = false := by decide
  unfold Path.join
  split_ifs <;> simp only [holdsZero_append, hp, hchild, hslash, Bool.or_self]

namespace Build

variable (b : Build) (present : Option String)

/-- Both steps, started at a place, use the directory for the platform and the compiler below the root as
it is seen from this place. -/
def UsesDocumented (here : Place) : Prop :=
  (b.configureStep present).1.target? "-B" here =
      some (here.reach (((b.root.join "build").join b.platform).join b.compiler.name)) ∧
    (b.buildStep present).1.target? "--build" here =
      some (here.reach (((b.root.join "build").join b.platform).join b.compiler.name))

theorem step_args (args : List String) : (b.step present args).1.args = args.map Launch.handed := by
  unfold step
  rcases b.searchPath present with reason | path <;> rfl

theorem step_directory (args : List String) : (b.step present args).1.directory = ⟨Launch.handed b.root.text⟩ := by
  unfold step
  rcases b.searchPath present with reason | path <;> rfl

theorem holdsZero_directory {b : Build} (hroot : holdsZero b.root.text = false)
    (hplatform : holdsZero b.platform = false) : holdsZero b.directory.text = false := by
  have hname : holdsZero b.compiler.name = false := by
    cases b.compiler
    decide
  exact holdsZero_join (holdsZero_join (holdsZero_join hroot (by decide)) hplatform) hname

variable {b present}

theorem target?_step (hroot : holdsZero b.root.text = false) {args : List String} {option a : String}
    (h : (b.step present args).1.behind? option = some a) (here : Place) :
    (b.step present args).1.target? option here = some ((here.reach b.root).reach ⟨a⟩) := by
  unfold Launch.target?
  rw [h, Option.map_some, step_directory, Launch.handed_of_not_holdsZero hroot]

theorem target?_configureStep (hroot : holdsZero b.root.text = false) (hplatform : holdsZero b.platform = false)
    (here : Place) :
    (b.configureStep present).1.target? "-B" here = some ((here.reach b.root).reach b.directory) := by
  apply target?_step hroot
  unfold Launch.behind?
  rw [step_args, List.map_cons, List.map_cons, List.map_cons,
    Launch.handed_of_not_holdsZero (holdsZero_directory hroot hplatform)]
  rfl

theorem target?_buildStep (hroot : holdsZero b.root.text = false) (hplatform : holdsZero b.platform = false)
    (here : Place) :
    (b.buildStep present).1.target? "--build" here = some ((here.reach b.root).reach b.directory) := by
  apply target?_step hroot
  unfold Launch.behind?
  rw [step_args, List.map_cons, List.map_cons,
    Launch.handed_of_not_holdsZero (holdsZero_directory hroot hplatform)]
  rfl

/-- The steps use the documented directory if it is the same from the root as from where they are
started. -/
theorem usesDocumented_iff_reach (hroot : holdsZero b.root.text = false)
    (hplatform : holdsZero b.platform = false) (here : Place) :
    b.UsesDocumented present here ↔ (here.reach b.root).reach b.directory = here.reach b.directory := by
  unfold UsesDocumented
  rw [target?_configureStep hroot hplatform, target?_buildStep hroot hplatform, and_self, Option.some_inj]
  rfl

/-- The directory of a build below the place of its root. -/
def below (b : Build) (root : Place) : Place :=
  ((root.reach ⟨"build"⟩).reach ⟨b.platform⟩).reach ⟨b.compiler.name⟩

theorem reach_directory (here : Place) : here.reach b.directory = b.below (here.reach b.root) := by
  unfold directory below
  rw [Place.reach_join, Place.reach_join, Place.reach_join]

/-- The course of the platform. -/
def platformCourse (b : Build) : Course := .ofSegments (Tree.segments ⟨b.platform⟩)

theorem below_of_absolute (h : Path.isAbsolute ⟨b.platform⟩ = true) (root root' : Place) :
    b.below root = b.below root' := by
  unfold below
  rw [Place.reach_of_absolute h (root.reach ⟨"build"⟩) (root'.reach ⟨"build"⟩)]

theorem below_of_relative (h : Path.isAbsolute ⟨b.platform⟩ = false) (names : List String) :
    b.below (.rooted names) = .rooted (List.dropLast^[b.platformCourse.ups] (names ++ ["build"]) ++
      (b.platformCourse.downs ++ [b.compiler.name])) := by
  have hbuild : (Place.rooted names).reach ⟨"build"⟩ = .rooted (names ++ ["build"]) := rfl
  have hname : ∀ place : Place, place.reach ⟨b.compiler.name⟩ = place ++ [b.compiler.name] := by
    cases b.compiler
    exact fun place => rfl
  unfold below
  rw [hbuild, Place.reach_of_relative h, Course.foldl_follow, hname]
  unfold Course.target Place.rooted platformCourse
  rw [List.cons_append, List.append_assoc]

theorem iterate_dropLast_concat_eq_iff (n : Nat) (names names' : List String) (name : String) :
    List.dropLast^[n] (names ++ [name]) = List.dropLast^[n] (names' ++ [name]) ↔
      List.dropLast^[n - 1] names = List.dropLast^[n - 1] names' := by
  cases n with
  | zero => exact List.append_left_inj [name]
  | succ n =>
    rw [Function.iterate_succ_apply, Function.iterate_succ_apply, List.dropLast_concat, List.dropLast_concat,
      Nat.add_sub_cancel]

/-- For a platform that is not absolute, the directories below two roots are the same exactly if the roots
agree as far up as the platform leads. -/
theorem below_eq_iff (h : Path.isAbsolute ⟨b.platform⟩ = false) (names names' : List String) :
    b.below (.rooted names) = b.below (.rooted names') ↔
      Place.up^[b.platformCourse.ups - 1] (.rooted names) = Place.up^[b.platformCourse.ups - 1] (.rooted names') := by
  rw [below_of_relative h, below_of_relative h, Place.iterate_up_rooted, Place.iterate_up_rooted]
  unfold Place.rooted
  rw [List.cons_inj_right, List.cons_inj_right, List.append_left_inj, iterate_dropLast_concat_eq_iff]

/-- Followed once more, the root must make no difference. -/
theorem usesDocumented_iff (hroot : holdsZero b.root.text = false) (hplatform : holdsZero b.platform = false)
    (names : List String) :
    b.UsesDocumented present (.rooted names) ↔
      Path.isAbsolute ⟨b.platform⟩ = true ∨ b.root.isAbsolute = true ∨
        Place.up^[b.platformCourse.ups - 1] (((Place.rooted names).reach b.root).reach b.root) =
          Place.up^[b.platformCourse.ups - 1] ((Place.rooted names).reach b.root) := by
  rw [usesDocumented_iff_reach hroot hplatform, reach_directory, reach_directory]
  by_cases habsolute : Path.isAbsolute ⟨b.platform⟩ = true
  · exact iff_of_true (below_of_absolute habsolute _ _) (.inl habsolute)
  · obtain ⟨once, honce⟩ := Place.exists_reach_eq_rooted names b.root
    obtain ⟨twice, htwice⟩ := Place.exists_reach_eq_rooted once b.root
    rw [honce, htwice, below_eq_iff (by simpa using habsolute)]
    constructor
    · intro hsame
      exact .inr (.inr hsame)
    · rintro (h | h | hsame)
      · exact absurd h habsolute
      · -- an absolute root leads to itself
        rw [← htwice, ← honce, Place.reach_of_absolute h _ (.rooted names)]
      · exact hsame

/-- A root that does not go up is where it is seen from exactly if it consists of dots. -/
theorem reach_root_again_iff (h : b.root.isAbsolute = false) (hnames : ".." ∉ Tree.segments b.root)
    (names : List String) :
    ((Place.rooted names).reach b.root).reach b.root = (Place.rooted names).reach b.root ↔
      ∀ segment ∈ Tree.segments b.root, segment = "." := by
  have hreach : ∀ names, (Place.rooted names).reach b.root =
      .rooted (names ++ (Tree.segments b.root).filter (· != ".")) := by
    intro names
    rw [Place.reach_of_relative h, Course.foldl_follow, Course.ofSegments, Course.foldl_extend_of_names hnames]
    rfl
  rw [hreach, hreach]
  unfold Place.rooted
  rw [List.cons_inj_right, List.append_right_eq_self, List.filter_eq_nil_iff]
  simp

end Build

/-- **When a build goes to the documented directory.** Started at any place, both steps use the directory for
the platform and the compiler below the root, as it is seen from this place, exactly if the platform is
absolute, or the root is, or following the root once more from the directory it leads to makes no
difference as far up as the platform leads. In particular, if neither the root nor the platform is
absolute or goes up, the root must consist of dots. Neither of the two may hold the zero character, which
no argument of a program can. -/
theorem build_in_documented_directory_iff (b : Build) (present : Option String) (names : List String)
    (hroot : holdsZero b.root.text = false) (hplatform : holdsZero b.platform = false) :
    (b.UsesDocumented present (.rooted names) ↔
      Path.isAbsolute ⟨b.platform⟩ = true ∨ b.root.isAbsolute = true ∨
        Place.up^[b.platformCourse.ups - 1] (((Place.rooted names).reach b.root).reach b.root) =
          Place.up^[b.platformCourse.ups - 1] ((Place.rooted names).reach b.root)) ∧
    (b.root.isAbsolute = false → Path.isAbsolute ⟨b.platform⟩ = false → ".." ∉ Tree.segments b.root →
      ".." ∉ Tree.segments ⟨b.platform⟩ →
      (b.UsesDocumented present (.rooted names) ↔ ∀ segment ∈ Tree.segments b.root, segment = ".")) := by
  refine ⟨Build.usesDocumented_iff hroot hplatform names, fun hrelative hrelative' hnames hnames' => ?_⟩
  have hups : b.platformCourse.ups = 0 := by
    unfold Build.platformCourse Course.ofSegments
    rw [Course.foldl_extend_of_names hnames']
  rw [Build.usesDocumented_iff hroot hplatform names, hups, ← Build.reach_root_again_iff hrelative hnames names]
  simp [hrelative, hrelative']

/-- The root `./sub/..` will do, and `./.` also; the root of a build started in `/home` may be `..`. -/
theorem documented_directory_behind_detour :
    (⟨⟨"./sub/.."⟩, "linux", .gcc⟩ : Build).UsesDocumented (some "/bin") (.rooted ["home"]) ∧
      (⟨⟨"./."⟩, "linux", .gcc⟩ : Build).UsesDocumented none (.rooted ["home"]) ∧
      (⟨⟨".."⟩, "linux", .gcc⟩ : Build).UsesDocumented none (.rooted ["home"]) := by
  refine ⟨?_, ?_, ?_⟩
  · exact (build_in_documented_directory_iff _ _ _ (by decide) (by decide)).1.mpr (.inr (.inr (by decide)))
  · exact ((build_in_documented_directory_iff _ _ _ (by decide) (by decide)).2 (by decide) (by decide) (by decide)
      (by decide)).mpr (by decide)
  · exact (build_in_documented_directory_iff _ _ _ (by decide) (by decide)).1.mpr (.inr (.inr (by decide)))

/-- Started in `/home` with the root `sub`, both steps go to a directory `sub` in `/home/sub`. -/
theorem build_below_root_twice :
    (Build.configureStep ⟨⟨"sub"⟩, "linux", .gcc⟩ none).1.target? "-B" (.rooted ["home"]) =
        some (.rooted ["home", "sub", "sub", "build", "linux", "gcc"]) ∧
      ¬ ∀ (b : Build) (present : Option String) (names : List String),
        b.UsesDocumented present (.rooted names) := by
  have htarget : (Build.configureStep ⟨⟨"sub"⟩, "linux", .gcc⟩ none).1.target? "-B" (.rooted ["home"]) =
      some (.rooted ["home", "sub", "sub", "build", "linux", "gcc"]) := by decide
  refine ⟨htarget, fun h => ?_⟩
  have hsame := (h ⟨⟨"sub"⟩, "linux", .gcc⟩ none ["home"]).1
  rw [htarget] at hsame
  revert hsame
  decide

end TagTables
