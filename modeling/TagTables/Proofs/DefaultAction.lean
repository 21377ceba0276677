/-
# Generation is what a command line asks for by itself

The arguments of a generation run may stand behind the name of the
subcommand or without it. The two readings of the same arguments differ in
their tables: without the subcommand there are two more options, which ask
for listings, and a question for the version. Once an option has been named
it stays named to the end (`take_cases` says what one argument can name), and
an option of a listing that has been named asks for the listing. So as long
as no listing is named both readings take the same steps
(`take_gen_eq_ok_iff`), and hence end in the same values
(`ofArgs_gen_eq_ok_iff`).

Key definitions: `Reading.has`, `Reading.Lists`, `Reading.putOption`.
Key theorems: `Reading.take_cases`, `Reading.take_gen_eq_ok_iff`,
`Reading.ofArgs_gen_eq_ok_iff`, `gen_is_default_action`.
-/
import Mathlib
import TagTables.Invocation

namespace TagTables

theorem bind_eq_ok_iff {ε α β : Type} {x : Except ε α} {f : α → Except ε β} {b : β} :
    (x >>= f) = .ok b ↔ ∃ a, x = .ok a ∧ f a = .ok b := by
  rcases x with e | a
  · constructor
    · intro h
      cases h
    · rintro ⟨a, h, -⟩
      cases h
  · constructor
    · intro h
      exact ⟨a, rfl, h⟩
    · rintro ⟨a', h, hf⟩
      cases h
      exact hf

/-! ### The tables of options -/

/-- Whether a value for this slot asks for a listing. -/
def Slot.isListing : Slot → Bool
  | lex | parse => true
  | _ => false

namespace Mode

variable {mode : Mode} {name : String} {slot : Slot}

theorem question?_eq_none (h : mode.option? name = some slot) : mode.question? name = none := by
  unfold question?
  split
  · cases mode <;> simp [option?, genOption?] at h
  · cases mode <;> simp [option?, genOption?] at h
  · rfl

theorem isListing_of_genOption? (h : genOption? name = some slot) : slot.isListing = false := by
  unfold genOption? at h
  split at h
  case h_7 => cases h
  all_goals
    cases h
    rfl

/-- Without the subcommand there are the options of a generation run and those of the listings. -/
theorem gen_option?_eq_some_iff :
    Mode.gen.option? name = some slot ↔ Mode.top.option? name = some slot ∧ slot.isListing = false := by
  have hlistings : ∀ listing : Slot, listing.isListing = true → Mode.gen.option? name = none →
      Mode.top.option? name = some listing →
      (Mode.gen.option? name = some slot ↔ Mode.top.option? name = some slot ∧ slot.isListing = false) := by
    intro listing hlisting hgen htop
    rw [hgen, htop]
    constructor
    · intro h
      cases h
    · rintro ⟨h, hslot⟩
      cases h
      rw [hlisting] at hslot
      cases hslot
  by_cases hlex : name = "lex"
  · subst hlex
    exact hlistings .lex rfl rfl rfl
  · by_cases hparse : name = "parse"
    · subst hparse
      exact hlistings .parse rfl rfl rfl
    · have htop : Mode.top.option? name = Mode.gen.option? name := by
        simp only [option?]
      rw [htop]
      exact ⟨fun h => ⟨h, isListing_of_genOption? h⟩, And.left⟩

end Mode

namespace Reading

variable {mode : Mode} {r r' : Reading} {slot : Slot} {text : String}

/-! ### What has been named -/

/-- Whether a slot has been named: it has a value, or is the pending one. -/
def has (r : Reading) (slot : Slot) : Bool :=
  (r.get? slot).isSome || r.pending.map (·.1) == some slot

/-- A listing has been named. -/
def Lists (r : Reading) : Prop := ∃ slot, slot.isListing = true ∧ r.has slot = true

/-- Checking the pending argument gives the slots that have been named their values, and no others. -/
theorem resolve_spec (h : r.resolve = .ok r') :
    r'.pending = none ∧ ∀ slot, (r'.get? slot).isSome = r.has slot := by
  unfold resolve at h
  rcases hpending : r.pending with _ | ⟨named, _ | value⟩
  · rw [hpending] at h
    cases h
    refine ⟨hpending, fun slot => ?_⟩
    simp [has, hpending]
  · rw [hpending] at h
    cases h
  · simp only [hpending] at h
    split_ifs at h
    cases h
    refine ⟨rfl, fun slot => ?_⟩
    by_cases hslot : slot = named
    · simp [has, get?, List.lookup_append, hpending, hslot]
    · have hlast : List.lookup slot [(named, value)] = none := by
        rw [List.lookup_cons, beq_false_of_ne hslot]
        rfl
      simp [has, get?, List.lookup_append, hpending, hlast, Ne.symm hslot]

/-- Names an option, with its value if it has one. -/
def putOption (r : Reading) (slot : Slot) (value : Option String) : Except Refusal Reading := do
  let r ← r.resolve
  match value with
  | some v => resolve { r with pending := some (slot, some v) }
  | none => pure { r with pending := some (slot, none), awaiting := true }

theorem takeLong_eq_ok_iff {name : String} {value : Option String} :
    takeLong mode r name value = .ok r' ↔ ∃ slot, mode.option? name = some slot ∧ r.putOption slot value = .ok r' := by
  unfold takeLong
  rcases hoption : mode.option? name with _ | slot
  · constructor
    · intro h
      rcases hquestion : mode.question? name with _ | question
      · simp only [hquestion] at h
        cases h
      · simp only [hquestion] at h
        split_ifs at h
        obtain ⟨_, -, h⟩ := bind_eq_ok_iff.mp h
        cases h
    · rintro ⟨slot, h, -⟩
      cases h
  · rw [Mode.question?_eq_none hoption]
    constructor
    · intro h
      exact ⟨slot, rfl, h⟩
    · rintro ⟨slot', hslot, h⟩
      cases hslot
      exact h

theorem has_of_pending_none (h : r.pending = none) (s : Slot) : r.has s = (r.get? s).isSome := by
  unfold has
  rw [h]
  simp

/-- Behind an argument that is pending, the named slots are those with a value and its own. -/
theorem has_pending_iff (value : Option String) (awaiting : Bool) (s : Slot) :
    has { r with pending := some (slot, value), awaiting := awaiting } s = true ↔
      (r.get? s).isSome = true ∨ s = slot := by
  unfold has get?
  rw [Bool.or_eq_true, Option.map_some, beq_iff_eq, Option.some_inj]
  exact or_congr Iff.rfl eq_comm

theorem has_putOption_iff {value : Option String} (h : r.putOption slot value = .ok r') (s : Slot) :
    r'.has s = true ↔ r.has s = true ∨ s = slot := by
  obtain ⟨checked, hresolve, h⟩ := bind_eq_ok_iff.mp h
  rw [← (resolve_spec hresolve).2 s]
  cases value with
  | none =>
    cases h
    exact has_pending_iff none true s
  | some v =>
    obtain ⟨hpending, hgiven⟩ := resolve_spec h
    rw [has_of_pending_none hpending, hgiven]
    exact has_pending_iff (some v) checked.awaiting s

theorem takePositional_eq_ok_iff : takePositional mode r text = .ok r' ↔
    mode ≠ .build ∧ r.hasInput = false ∧
      ∃ checked, r.resolve = .ok checked ∧ r' = { checked with pending := some (.input, some text) } := by
  unfold takePositional
  by_cases hmode : mode = .build
  · rw [if_pos hmode]
    constructor
    · intro h
      cases h
    · rintro ⟨h, -⟩
      exact absurd hmode h
  · rw [if_neg hmode]
    by_cases hinput : r.hasInput = true
    · rw [if_pos hinput]
      constructor
      · intro h
        cases h
      · rintro ⟨-, h, -⟩
        rw [hinput] at h
        cases h
    · rw [if_neg hinput, bind_eq_ok_iff]
      constructor
      · rintro ⟨checked, hchecked, h⟩
        cases h
        exact ⟨hmode, by simpa using hinput, checked, hchecked, rfl⟩
      · rintro ⟨-, -, checked, hchecked, rfl⟩
        exact ⟨checked, hchecked, rfl⟩

theorem has_takePositional_iff (h : takePositional mode r text = .ok r') (s : Slot) :
    r'.has s = true ↔ r.has s = true ∨ s = .input := by
  obtain ⟨-, -, checked, hresolve, rfl⟩ := takePositional_eq_ok_iff.mp h
  rw [← (resolve_spec hresolve).2 s]
  exact has_pending_iff (some text) checked.awaiting s

theorem takeShort_ne_ok {letter : Char} : takeShort mode r letter ≠ .ok r' := by
  unfold takeShort
  intro h
  rcases hquestion : mode.letterQuestion? letter with _ | question
  · simp only [hquestion] at h
    cases h
  · simp only [hquestion] at h
    obtain ⟨_, -, h⟩ := bind_eq_ok_iff.mp h
    cases h

/-! ### One argument -/

/-- An argument names nothing, or the input, or an option of its table. -/
theorem take_cases (h : take mode r text = .ok r') :
    (∀ s, r'.has s = r.has s) ∨
      ∃ slot, (slot = .input ∨ ∃ name, mode.option? name = some slot) ∧
        ∀ s, r'.has s = true ↔ r.has s = true ∨ s = slot := by
  unfold take at h
  by_cases hterminated : r.terminated = true
  · rw [if_pos hterminated] at h
    exact .inr ⟨.input, .inl rfl, has_takePositional_iff h⟩
  · rw [if_neg hterminated] at h
    rcases hform : Argument.ofText text with _ | ⟨name, value⟩ | letter | _
    · simp only [hform] at h
      cases h
      exact .inl fun s => rfl
    · simp only [hform] at h
      obtain ⟨slot, hslot, h⟩ := takeLong_eq_ok_iff.mp h
      exact .inr ⟨slot, .inr ⟨name, hslot⟩, fun s => has_putOption_iff h s⟩
    · simp only [hform] at h
      exact absurd h takeShort_ne_ok
    · simp only [hform] at h
      by_cases hawaiting : r.awaiting = true
      · rw [if_pos hawaiting] at h
        cases h
        left
        intro s
        unfold takeValue has
        rw [Option.map_map]
        rfl
      · rw [if_neg hawaiting] at h
        exact .inr ⟨.input, .inl rfl, has_takePositional_iff h⟩

theorem Lists.take (hlists : r.Lists) (h : take mode r text = .ok r') : r'.Lists := by
  obtain ⟨listing, hlisting, hhas⟩ := hlists
  refine ⟨listing, hlisting, ?_⟩
  rcases take_cases h with hsame | ⟨slot, -, hslot⟩
  · rw [hsame]
    exact hhas
  · exact (hslot listing).mpr (.inl hhas)

theorem not_lists_take_gen (hquiet : ¬ r.Lists) (h : take .gen r text = .ok r') : ¬ r'.Lists := by
  rintro ⟨listing, hlisting, hhas⟩
  rcases take_cases h with hsame | ⟨slot, hslot, hnamed⟩
  · rw [hsame] at hhas
    exact hquiet ⟨listing, hlisting, hhas⟩
  · rcases (hnamed listing).mp hhas with hhas | rfl
    · exact hquiet ⟨listing, hlisting, hhas⟩
    · rcases hslot with rfl | ⟨name, hname⟩
      · cases hlisting
      · rw [(Mode.gen_option?_eq_some_iff.mp hname).2] at hlisting
        cases hlisting

/-- Without a listing, an option is named with the subcommand as without it. -/
theorem takeLong_gen_eq_ok_iff {name : String} {value : Option String} (hlists : ¬ r'.Lists) :
    takeLong .gen r name value = .ok r' ↔ takeLong .top r name value = .ok r' := by
  rw [takeLong_eq_ok_iff, takeLong_eq_ok_iff]
  constructor
  · rintro ⟨slot, hslot, h⟩
    exact ⟨slot, (Mode.gen_option?_eq_some_iff.mp hslot).1, h⟩
  · rintro ⟨slot, hslot, h⟩
    refine ⟨slot, Mode.gen_option?_eq_some_iff.mpr ⟨hslot, ?_⟩, h⟩
    rw [Bool.eq_false_iff]
    intro hlisting
    exact hlists ⟨slot, hlisting, (has_putOption_iff h slot).mpr (.inr rfl)⟩

theorem takePositional_gen_eq_ok_iff :
    takePositional .gen r text = .ok r' ↔ takePositional .top r text = .ok r' := by
  rw [takePositional_eq_ok_iff, takePositional_eq_ok_iff]
  exact and_congr_left fun _ => iff_of_true (by decide) (by decide)

/-- Without a listing, both readings take the same step. -/
theorem take_gen_eq_ok_iff (hlists : ¬ r'.Lists) : take .gen r text = .ok r' ↔ take .top r text = .ok r' := by
  unfold take
  by_cases hterminated : r.terminated = true
  · rw [if_pos hterminated, if_pos hterminated, takePositional_gen_eq_ok_iff]
  · rw [if_neg hterminated, if_neg hterminated]
    rcases Argument.ofText text with _ | ⟨name, value⟩ | letter | _
    · rfl
    · exact takeLong_gen_eq_ok_iff hlists
    · exact iff_of_false takeShort_ne_ok takeShort_ne_ok
    · by_cases hawaiting : r.awaiting = true
      · simp only [if_pos hawaiting]
      · simp only [if_neg hawaiting]
        exact takePositional_gen_eq_ok_iff

/-! ### All arguments -/

theorem Lists.foldlM {args : List String} (hlists : r.Lists) (h : args.foldlM (Reading.take mode) r = .ok r') :
    r'.Lists := by
  induction args generalizing r with
  | nil =>
    cases h
    exact hlists
  | cons text args ih =>
    rw [List.foldlM_cons] at h
    obtain ⟨next, hnext, h⟩ := bind_eq_ok_iff.mp h
    exact ih (hlists.take hnext) h

theorem foldlM_gen_eq_ok_iff {args : List String} (hquiet : ¬ r.Lists) :
    args.foldlM (take .gen) r = .ok r' ↔ args.foldlM (take .top) r = .ok r' ∧ ¬ r'.Lists := by
  induction args generalizing r with
  | nil =>
    constructor
    · intro h
      cases h
      exact ⟨rfl, hquiet⟩
    · exact And.left
  | cons text args ih =>
    rw [List.foldlM_cons, List.foldlM_cons, bind_eq_ok_iff, bind_eq_ok_iff]
    constructor
    · rintro ⟨next, hnext, h⟩
      have hnextQuiet := not_lists_take_gen hquiet hnext
      obtain ⟨h, hlists⟩ := (ih hnextQuiet).mp h
      exact ⟨⟨next, (take_gen_eq_ok_iff hnextQuiet).mp hnext, h⟩, hlists⟩
    · rintro ⟨⟨next, hnext, h⟩, hlists⟩
      -- a listing that is named on the way would still be named at the end
      have hnextQuiet : ¬ next.Lists := fun hnextLists => hlists (hnextLists.foldlM h)
      exact ⟨next, (take_gen_eq_ok_iff hnextQuiet).mpr hnext, (ih hnextQuiet).mpr ⟨h, hlists⟩⟩

theorem not_lists_iff_of_resolve (h : r.resolve = .ok r') :
    ¬ r.Lists ↔ r'.get? .lex = none ∧ r'.get? .parse = none := by
  have hgiven := (resolve_spec h).2
  rw [← Option.not_isSome_iff_eq_none, ← Option.not_isSome_iff_eq_none, hgiven, hgiven]
  constructor
  · intro hquiet
    exact ⟨fun hlex => hquiet ⟨.lex, rfl, hlex⟩, fun hparse => hquiet ⟨.parse, rfl, hparse⟩⟩
  · rintro ⟨hlex, hparse⟩ ⟨slot, hlisting, hhas⟩
    cases slot
    case lex => exact hlex hhas
    case parse => exact hparse hhas
    all_goals cases hlisting

/-- Both readings end in the same values, unless a listing gets one. -/
theorem ofArgs_gen_eq_ok_iff {args : List String} :
    ofArgs .gen args = .ok r ↔ ofArgs .top args = .ok r ∧ r.get? .lex = none ∧ r.get? .parse = none := by
  have hstart : ¬ Lists {} := by
    rintro ⟨slot, -, h⟩
    cases h
  unfold ofArgs
  rw [bind_eq_ok_iff, bind_eq_ok_iff]
  constructor
  · rintro ⟨last, hlast, h⟩
    obtain ⟨htop, hlists⟩ := (foldlM_gen_eq_ok_iff hstart).mp hlast
    exact ⟨⟨last, htop, h⟩, (not_lists_iff_of_resolve h).mp hlists⟩
  · rintro ⟨⟨last, htop, h⟩, hnone⟩
    exact ⟨last, (foldlM_gen_eq_ok_iff hstart).mpr ⟨htop, (not_lists_iff_of_resolve h).mpr hnone⟩, h⟩

end Reading

namespace Invocation

theorem readGen_eq_ok_iff {args : List String} {g : GenOptions} :
    (∃ call, readGen args = .ok call ∧ call.subcommand = some (.gen g)) ↔
      ∃ r, Reading.ofArgs .gen args = .ok r ∧ r.genOptions = g := by
  unfold readGen
  constructor
  · rintro ⟨call, hcall, hgen⟩
    obtain ⟨r, hr, h⟩ := bind_eq_ok_iff.mp hcall
    cases h
    cases hgen
    exact ⟨r, hr, rfl⟩
  · rintro ⟨r, hr, rfl⟩
    exact ⟨_, bind_eq_ok_iff.mpr ⟨r, hr, rfl⟩, rfl⟩

theorem readTop_eq_ok_iff {args : List String} {g : GenOptions} :
    (∃ call, readTop args = .ok call ∧ call.subcommand = none ∧ call.listTokens = none ∧
        call.listSets = none ∧ call.options = g) ↔
      ∃ r, (Reading.ofArgs .top args = .ok r ∧ r.get? .lex = none ∧ r.get? .parse = none) ∧
        r.genOptions = g := by
  unfold readTop
  constructor
  · rintro ⟨call, hcall, -, htokens, hsets, rfl⟩
    obtain ⟨r, hr, h⟩ := bind_eq_ok_iff.mp hcall
    split_ifs at h
    cases h
    exact ⟨r, ⟨hr, Option.map_eq_none_iff.mp htokens, Option.map_eq_none_iff.mp hsets⟩, rfl⟩
  · rintro ⟨r, ⟨hr, hlex, hparse⟩, rfl⟩
    refine ⟨{ options := r.genOptions }, bind_eq_ok_iff.mpr ⟨r, hr, ?_⟩, rfl, rfl, rfl, rfl⟩
    simp only [hlex, hparse]
    rfl

theorem ofArgs_eq_readTop {args : List String}
    (h : ∀ a ∈ args.head?, a ≠ "gen" ∧ a ≠ "build" ∧ a ≠ "help") : ofArgs args = readTop args := by
  unfold ofArgs
  split
  · exact absurd rfl (h _ rfl).1
  · exact absurd rfl (h _ rfl).2.1
  · exact absurd rfl (h _ rfl).2.2
  · rfl

end Invocation

/-- **Generation is the default action.** For arguments none of which is the name of a subcommand, the
subcommand `gen` with these arguments asks for a generation run exactly if the arguments alone ask for no
listing and for this very generation run. -/
theorem gen_is_default_action (args : List String)
    (h : ∀ a ∈ args, a ≠ "gen" ∧ a ≠ "build" ∧ a ≠ "help") (g : GenOptions) :
    (∃ call, Invocation.ofArgs ("gen" :: args) = .ok call ∧ call.subcommand = some (.gen g)) ↔
      ∃ call, Invocation.ofArgs args = .ok call ∧ call.subcommand = none ∧ call.listTokens = none ∧
        call.listSets = none ∧ call.options = g := by
  have hgen : Invocation.ofArgs ("gen" :: args) = Invocation.readGen args := rfl
  have htop : Invocation.ofArgs args = Invocation.readTop args :=
    Invocation.ofArgs_eq_readTop fun a ha => h a (List.mem_of_head? ha)
  rw [hgen, htop, Invocation.readGen_eq_ok_iff, Invocation.readTop_eq_ok_iff]
  simp only [Reading.ofArgs_gen_eq_ok_iff]

/-- A dash for a header, an empty suffix, and a positional argument that looks like an option. -/
theorem default_action_with_odd_values :
    (∀ a ∈ ["--header", "-", "--table-suffix=", "--", "--source"], a ≠ "gen" ∧ a ≠ "build" ∧ a ≠ "help") ∧
      ∃ call, Invocation.ofArgs ["--header", "-", "--table-suffix=", "--", "--source"] = .ok call ∧
        call.subcommand = none ∧ call.listTokens = none ∧ call.listSets = none ∧
        call.options = { input := ⟨"--source"⟩, header := ⟨"-"⟩, tableSuffix := "" } := by
  have hnames : ∀ a ∈ ["--header", "-", "--table-suffix=", "--", "--source"],
      a ≠ "gen" ∧ a ≠ "build" ∧ a ≠ "help" := by decide
  refine ⟨hnames, (gen_is_default_action _ hnames _).mp ?_⟩
  exact ⟨{ subcommand := some (.gen { input := ⟨"--source"⟩, header := ⟨"-"⟩, tableSuffix := "" }) }, rfl, rfl⟩

end TagTables
