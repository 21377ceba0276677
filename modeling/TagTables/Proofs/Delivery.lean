/-
# Delivery of both artifacts

A generation run on a disk that fails at will. A run that fails leaves the
artifacts of an earlier run where they were, unless the last move is all that
failed; it leaves nothing staged and touches nothing else. A run that ends well
has delivered both artifacts exactly if the header is neither the source nor
the place where the source is staged.

Key definitions: `FaultyDisk.HandOver`, `LeftAlone`.
Key theorems: `FaultyDisk.handOver_cases`, `FaultyDisk.deliver_cases`,
`failed_delivery_keeps_artifacts`, `delivered_iff_apart`.
-/
import Mathlib
import TagTables.Proofs.Faults
import TagTables.Proofs.Symbols
import TagTables.Report.Line

namespace TagTables

namespace FaultyDisk

open Function (update)

/-! ### Where a run ends -/

variable {κ : Type} [DecidableEq κ] {place : Path → κ} (d : FaultyDisk place)

theorem deliver_of_unread {d after : FaultyDisk place} {o : GenOptions} {e : Failure}
    (h : d.carryOut (Action.loadInput o.input) = (.error e, after)) :
    d.carryOut (Action.deliver o) = (.error e, after) :=
  carryOut_bind_of_error _ h

/-- Behind its input a run is rejected, or it hands its artifacts over. -/
theorem deliver_of_read {d after : FaultyDisk place} {o : GenOptions} {text : String}
    (h : d.carryOut (Action.loadInput o.input) = (.ok text, after)) :
    d.carryOut (Action.deliver o) =
      after.carryOut (match artifacts text o.style with
        | .error (.rejected e) => Action.reject o.input text e
        | .error (.unwritten e) => throw (.unrendered e)
        | .ok made => Action.handOver o made) := by
  unfold Action.deliver artifacts
  rw [carryOut_bind_of_ok _ h]
  exact carryOut_bind_of_ok _ (after.noteAll_run _)

theorem deliver_of_rejected {d after : FaultyDisk place} {o : GenOptions} {text : String} {e : RunError}
    (h : d.carryOut (Action.loadInput o.input) = (.ok text, after)) (hmade : artifacts text o.style = .error e) :
    ∃ failure, d.carryOut (Action.deliver o) = (.error failure, after) := by
  rw [deliver_of_read h, hmade]
  cases e with
  | rejected e =>
    obtain ⟨report, hreject⟩ := after.reject_run o.input text e
    exact ⟨_, hreject⟩
  | unwritten e => exact ⟨_, rfl⟩

theorem deliver_of_made {d after : FaultyDisk place} {o : GenOptions} {text : String} {made : Artifacts}
    (h : d.carryOut (Action.loadInput o.input) = (.ok text, after)) (hmade : artifacts text o.style = .ok made) :
    d.carryOut (Action.deliver o) = after.carryOut (Action.handOver o made) := by
  rw [deliver_of_read h, hmade]

/-- If the input is there, not too large and accepted, and the first two requests do not fail, a
run hands its artifacts over. -/
theorem deliver_of_readable {d : FaultyDisk place} (o : GenOptions) {text : String} {sets : List TagSet}
    (hinput : d.files (place o.input) = some text.toUTF8) (hsize : text.toUTF8.size ≤ inputLimit)
    (hfirst : d.faults d.asked = none) (hsecond : d.faults (d.asked + 1) = none)
    (hparse : parse text = .ok sets) :
    d.carryOut (Action.deliver o) =
      d.counted.counted.carryOut (Action.handOver o (Artifacts.ofSets o.style sets)) := by
  refine deliver_of_made ?_ (artifacts_of_parse o.style hparse)
  exact d.loadInput_of_readable hinput hsize hfirst hsecond

/-- What the places hold once both artifacts are staged. -/
def staged (place : Path → κ) (o : GenOptions) (made : Artifacts) (files : κ → Option ByteArray) :
    κ → Option ByteArray :=
  update (update files (place o.header.staging) (some made.declarations)) (place o.source.staging)
    (some made.definitions)

/-- Where a run that has its artifacts ends: what comes of it, what the places hold behind it, and
the requests that have failed. -/
inductive HandOver (place : Path → κ) (o : GenOptions) (made : Artifacts) (files : κ → Option ByteArray) :
    Except Failure Unit → (κ → Option ByteArray) → List Request → Prop
  | headerUnstaged (e : Failure) (left : Option ByteArray) (q : Request)
      (hleft : left = none ∨ left = files (place o.header.staging)) (hq : ∀ old new, q ≠ .rename old new) :
      HandOver place o made files (.error e) (update files (place o.header.staging) left) [q]
  | sourceUnstaged (e : Failure) (left : Option ByteArray) (q : Request)
      (hleft : left = none ∨
        left = update files (place o.header.staging) (some made.declarations) (place o.source.staging))
      (hq : ∀ old new, q ≠ .rename old new) :
      HandOver place o made files (.error e)
        (update (update (update files (place o.header.staging) (some made.declarations))
          (place o.source.staging) left) (place o.header.staging) none) [q]
  | headerUnmoved (e : Failure) :
      HandOver place o made files (.error e)
        (update (update (staged place o made files) (place o.header.staging) none) (place o.source.staging) none)
        [.rename o.header.staging o.header]
  | sourceUnmoved (e : Failure) (bytes : ByteArray)
      (hbytes : staged place o made files (place o.header.staging) = some bytes) :
      HandOver place o made files (.error e)
        (update (moved (staged place o made files) (place o.header.staging) (place o.header) bytes)
          (place o.source.staging) none)
        [.rename o.source.staging o.source]
  | delivered (first second : ByteArray)
      (hfirst : staged place o made files (place o.header.staging) = some first)
      (hsecond : moved (staged place o made files) (place o.header.staging) (place o.header) first
        (place o.source.staging) = some second) :
      HandOver place o made files (.ok ())
        (moved (moved (staged place o made files) (place o.header.staging) (place o.header) first)
          (place o.source.staging) (place o.source) second) []

/-- A run that has its artifacts ends in one of these ways. -/
theorem handOver_cases (o : GenOptions) (made : Artifacts) :
    ∃ result after files failed, d.carryOut (Action.handOver o made) = (result, after) ∧
      d.Becomes after files failed ∧ HandOver place o made d.files result files failed := by
  unfold Action.handOver
  -- Each step ends the run or leads to the next; where it ends the run, that case comes first.
  obtain ⟨d₁, hrun, h₁⟩ | ⟨e, d₁, left, q, hrun, hleft, h₁, hq⟩ := d.stage_cases o.header made.declarations
  swap
  · exact ⟨_, _, _, _, carryOut_bind_of_error _ hrun, h₁, .headerUnstaged e left q hleft hq⟩
  rw [carryOut_bind_of_ok _ hrun]
  have hfiles := h₁.files_eq
  obtain ⟨d₂, hrun, h₂⟩ | ⟨e, d₂, left, q, hrun, hleft, h₂, hq⟩ := d₁.stage_cases o.source made.definitions
  swap
  · rw [hfiles] at hleft h₂
    refine ⟨_, _, _, _, carryOut_bind_of_error _ (d₁.orRemove_of_error _ hrun), ?_,
      .sourceUnstaged e left q hleft hq⟩
    exact h₁.trans (h₂.put _ none)
  rw [carryOut_bind_of_ok _ (d₁.orRemove_of_ok _ hrun)]
  rw [hfiles] at h₂
  have hstaged := h₂.files_eq
  obtain ⟨d₃, first, hrun, hfirst, h₃⟩ | ⟨e, d₃, hrun, h₃⟩ := d₂.install_cases o.header.staging o.header
  swap
  · rw [hstaged] at h₃
    exact ⟨_, _, _, _, carryOut_bind_of_error _ (d₂.orRemove_of_error _ hrun),
      (h₁.trans h₂).trans (h₃.put _ none), .headerUnmoved e⟩
  rw [carryOut_bind_of_ok _ (d₂.orRemove_of_ok _ hrun)]
  rw [hstaged] at hfirst h₃
  have hmoved := h₃.files_eq
  obtain ⟨d₄, second, hrun, hsecond, h₄⟩ | ⟨e, d₄, hrun, h₄⟩ := d₃.install_cases o.source.staging o.source
  swap
  · rw [hmoved] at h₄
    exact ⟨_, _, _, _, carryOut_bind_of_error _ hrun, ((h₁.trans h₂).trans h₃).trans h₄,
      .sourceUnmoved e first hfirst⟩
  rw [carryOut_bind_of_ok _ hrun]
  rw [hmoved] at hsecond h₄
  exact ⟨_, _, _, _, rfl, ((h₁.trans h₂).trans h₃).trans h₄, .delivered first second hfirst hsecond⟩

/-- A run looks at its input and no more, or it hands the artifacts of its input over. -/
theorem deliver_cases (o : GenOptions) :
    (∃ e after failed, d.carryOut (Action.deliver o) = (.error e, after) ∧ d.Becomes after d.files failed ∧
        after.directories = d.directories ∧ ∀ old new, Request.rename old new ∉ failed) ∨
      ∃ text made result after files failed,
        (d.carryOut (Action.loadInput o.input)).1 = .ok text ∧ d.files (place o.input) = some text.toUTF8 ∧
        artifacts text o.style = .ok made ∧ d.carryOut (Action.deliver o) = (result, after) ∧
        d.Becomes after files failed ∧ HandOver place o made d.files result files failed := by
  obtain ⟨text, d₀, hload, hinput, h₀, hdirectories⟩ | ⟨e, d₀, failed, hload, h₀, hdirectories, hlooks⟩ :=
    d.loadInput_cases o.input
  · cases hmade : artifacts text o.style with
    | error cause =>
      obtain ⟨e, hrun⟩ := deliver_of_rejected hload hmade
      exact .inl ⟨e, d₀, [], hrun, h₀, hdirectories, by simp⟩
    | ok made =>
      obtain ⟨result, after, files, failed, hrun, hafter, hend⟩ := d₀.handOver_cases o made
      rw [← deliver_of_made hload hmade] at hrun
      rw [h₀.files_eq] at hend
      exact .inr ⟨text, made, result, after, files, failed, congrArg Prod.fst hload, hinput, hmade, hrun,
        h₀.trans hafter, hend⟩
  · refine .inl ⟨e, d₀, failed, deliver_of_unread hload, h₀, hdirectories, ?_⟩
    intro old new hmem
    simpa using hlooks _ hmem

/-! ### A run that fails -/

section Failed

variable {o : GenOptions} {made : Artifacts} {files after : κ → Option ByteArray} {e : Failure}
  {result : Except Failure Unit} {failed : List Request}

/-- The places of both artifacts and of both staged artifacts are four. -/
def Apart (place : Path → κ) (o : GenOptions) : Prop :=
  ([o.header, o.source, o.header.staging, o.source.staging].map place).Nodup

omit [DecidableEq κ] in
theorem apart_iff : Apart place o ↔
    (place o.header ≠ place o.source ∧ place o.header ≠ place o.header.staging ∧
      place o.header ≠ place o.source.staging) ∧
    (place o.source ≠ place o.header.staging ∧ place o.source ≠ place o.source.staging) ∧
    place o.header.staging ≠ place o.source.staging := by
  simp [Apart]

namespace HandOver

theorem source_kept (h : HandOver place o made files (.error e) after failed) (hapart : Apart place o) :
    after (place o.source) = files (place o.source) := by
  obtain ⟨⟨hsource, -, -⟩, ⟨hfirst, hsecond⟩, -⟩ := apart_iff.1 hapart
  cases h <;> simp [staged, moved, hsource.symm, hfirst, hsecond]

theorem header_kept (h : HandOver place o made files (.error e) after failed) (hapart : Apart place o)
    (hlast : failed ≠ [.rename o.source.staging o.source]) :
    after (place o.header) = files (place o.header) := by
  obtain ⟨⟨-, hfirst, hsecond⟩, -, -⟩ := apart_iff.1 hapart
  cases h with
  | sourceUnmoved => exact absurd rfl hlast
  | _ => simp [staged, hfirst, hsecond]

theorem header_new (h : HandOver place o made files (.error e) after [.rename o.source.staging o.source])
    (hapart : Apart place o) : after (place o.header) = some made.declarations := by
  obtain ⟨⟨hsource, -, hsecond⟩, -, hstaging⟩ := apart_iff.1 hapart
  generalize hfailed : [Request.rename o.source.staging o.source] = failed at h
  cases h with
  | headerUnstaged _ left q hleft hq => exact absurd (List.singleton_inj.1 hfailed).symm (hq _ _)
  | sourceUnstaged _ left q hleft hq => exact absurd (List.singleton_inj.1 hfailed).symm (hq _ _)
  | headerUnmoved =>
    have hsame : o.source = o.header := (Request.rename.inj (List.singleton_inj.1 hfailed)).2
    exact absurd (congrArg place hsame.symm) hsource
  | sourceUnmoved _ bytes hbytes =>
    have hbytes : made.declarations = bytes := by simpa [staged, hstaging] using hbytes
    simp [moved, hsecond, hbytes]

theorem header_staging_gone (h : HandOver place o made files (.error e) after failed) (hapart : Apart place o)
    (hnone : files (place o.header.staging) = none) : after (place o.header.staging) = none := by
  obtain ⟨⟨-, hheader, -⟩, -, hstaging⟩ := apart_iff.1 hapart
  cases h with
  | headerUnstaged _ left q hleft hq =>
    rw [hnone, or_self] at hleft
    simp [hleft]
  | _ => simp [moved, hstaging, hheader.symm]

theorem source_staging_gone (h : HandOver place o made files (.error e) after failed) (hapart : Apart place o)
    (hnone : files (place o.source.staging) = none) : after (place o.source.staging) = none := by
  obtain ⟨-, -, hstaging⟩ := apart_iff.1 hapart
  cases h with
  | headerUnstaged => simp [hstaging.symm, hnone]
  | sourceUnstaged _ left q hleft hq =>
    rw [Function.update_of_ne hstaging.symm, hnone, or_self] at hleft
    simp [hstaging.symm, hleft]
  | _ => simp

theorem others_kept (h : HandOver place o made files result after failed) {k : κ}
    (hk : k ∉ [o.header, o.source, o.header.staging, o.source.staging].map place) : after k = files k := by
  obtain ⟨hheader, hsource, hfirst, hsecond⟩ : k ≠ place o.header ∧ k ≠ place o.source ∧
      k ≠ place o.header.staging ∧ k ≠ place o.source.staging := by simpa using hk
  cases h <;> simp [staged, moved, hheader, hsource, hfirst, hsecond]

end HandOver
end Failed

/-! ### A run that ends well -/

section Delivered

variable {o : GenOptions} {made : Artifacts} {files after : κ → Option ByteArray} {failed : List Request}

/-- Both artifacts are in their places. -/
def Holds (place : Path → κ) (o : GenOptions) (made : Artifacts) (files : κ → Option ByteArray) : Prop :=
  files (place o.header) = some made.declarations ∧ files (place o.source) = some made.definitions

namespace HandOver

theorem holds_of_apart (h : HandOver place o made files (.ok ()) after failed)
    (hsource : place o.header ≠ place o.source) (hheader : place o.header ≠ place o.source.staging) :
    Holds place o made after := by
  cases h with
  | delivered first second hfirst hsecond =>
    -- If both were staged in one place, the first move would leave nothing for the second.
    have hstaging : place o.header.staging ≠ place o.source.staging := by
      intro hsame
      rw [hsame] at hsecond
      simp [moved, hheader.symm] at hsecond
    have hfirst : made.declarations = first := by simpa [staged, hstaging] using hfirst
    have hsecond : made.definitions = second := by
      simpa [staged, moved, hheader.symm, hstaging.symm] using hsecond
    constructor
    · simp [moved, hsource, hheader, hfirst]
    · simp [moved, hsecond]

theorem header_none_of_shared (h : HandOver place o made files (.ok ()) after failed)
    (hsource : place o.header ≠ place o.source) (hheader : place o.header = place o.source.staging) :
    after (place o.header) = none := by
  cases h with
  | delivered first second hfirst hsecond =>
    rw [moved, Function.update_of_ne hsource, hheader, Function.update_self]

theorem source_of_shared (h : HandOver place o made files (.ok ()) after failed)
    (hown : place o.header ≠ place o.header.staging) (hheader : place o.header = place o.source.staging) :
    after (place o.source) = some made.declarations := by
  cases h with
  | delivered first second hfirst hsecond =>
    have hstaging : place o.header.staging ≠ place o.source.staging := hheader ▸ hown.symm
    have hfirst : made.declarations = first := by simpa [staged, hstaging] using hfirst
    have hsecond : first = second := by simpa [moved, ← hheader] using hsecond
    simp [moved, hfirst, hsecond]

theorem holds_iff (h : HandOver place o made files (.ok ()) after failed)
    (hne : made.declarations ≠ made.definitions) :
    Holds place o made after ↔
      place o.header ≠ place o.source ∧ place o.header ≠ place o.source.staging := by
  constructor
  · rintro ⟨hdeclarations, hdefinitions⟩
    have hsource : place o.header ≠ place o.source := by
      intro hsame
      rw [hsame] at hdeclarations
      exact hne (Option.some.inj (hdeclarations.symm.trans hdefinitions))
    refine ⟨hsource, fun hsame => ?_⟩
    rw [h.header_none_of_shared hsource hsame] at hdeclarations
    cases hdeclarations
  · rintro ⟨hsource, hstaging⟩
    exact h.holds_of_apart hsource hstaging

end HandOver

end Delivered

end FaultyDisk

/-! ### What a run leaves and what it delivers -/

section Runs

variable {κ : Type} [DecidableEq κ] {place : Path → κ} {o : GenOptions} {d after : FaultyDisk place}

/-- What a failed run leaves behind. -/
structure LeftAlone (o : GenOptions) (d after : FaultyDisk place) : Prop where
  /-- The source holds what it held. -/
  source_kept : after.files (place o.source) = d.files (place o.source)
  /-- The header holds what it held, unless the last move is all that has failed. -/
  header_kept : after.failed ≠ d.failed ++ [.rename o.source.staging o.source] →
    after.files (place o.header) = d.files (place o.header)
  /-- If the last move is all that has failed, the header holds the new declarations. -/
  header_new : after.failed = d.failed ++ [.rename o.source.staging o.source] →
    ∃ text made, d.files (place o.input) = some text.toUTF8 ∧ artifacts text o.style = .ok made ∧
      after.files (place o.header) = some made.declarations
  /-- Nothing is left staged where nothing was before. -/
  staging_gone : ∀ p ∈ [o.header, o.source], d.files (place p.staging) = none →
    after.files (place p.staging) = none
  /-- Every other place holds what it held. -/
  others_kept : ∀ k ∉ [o.header, o.source, o.header.staging, o.source.staging].map place,
    after.files k = d.files k

omit [DecidableEq κ] in
theorem LeftAlone.of_untouched (hfiles : after.files = d.files)
    (hlast : after.failed ≠ d.failed ++ [.rename o.source.staging o.source]) : LeftAlone o d after where
  source_kept := congrFun hfiles _
  header_kept _ := congrFun hfiles _
  header_new h := absurd h hlast
  staging_gone _ _ hp := (congrFun hfiles _).trans hp
  others_kept k _ := congrFun hfiles k

theorem LeftAlone.of_handOver {made : Artifacts} {files : κ → Option ByteArray} {failed : List Request}
    {text : String} {e : Failure} (hapart : FaultyDisk.Apart place o)
    (hinput : d.files (place o.input) = some text.toUTF8) (hmade : artifacts text o.style = .ok made)
    (hafter : d.Becomes after files failed)
    (hend : FaultyDisk.HandOver place o made d.files (.error e) files failed) : LeftAlone o d after := by
  obtain rfl := hafter.files_eq
  constructor
  · exact hend.source_kept hapart
  · intro hlast
    rw [hafter.failed_eq] at hlast
    exact hend.header_kept hapart fun hsame => hlast (congrArg _ hsame)
  · intro hlast
    rw [hafter.failed_eq] at hlast
    obtain rfl := List.append_cancel_left hlast
    exact ⟨text, made, hinput, hmade, hend.header_new hapart⟩
  · simp only [List.forall_mem_cons]
    exact ⟨hend.header_staging_gone hapart, hend.source_staging_gone hapart, by simp⟩
  · exact fun k hk => hend.others_kept hk

/-- **A failed run leaves the artifacts alone.** Whatever the disk holds and whichever requests
fail, if the places of both artifacts and of both staged artifacts are four, then a run that ends
in an error leaves the source as it was, and the header too unless the move of the source is all
that failed; it leaves nothing staged and touches nothing else. A run whose input cannot be read or
is rejected ends in an error and changes nothing at all. -/
theorem failed_delivery_keeps_artifacts (hapart : FaultyDisk.Apart place o) (d : FaultyDisk place) :
    (∀ e after, d.carryOut (Action.deliver o) = (.error e, after) → LeftAlone o d after) ∧
    ((∀ text sets, (d.carryOut (Action.loadInput o.input)).1 = .ok text → parse text ≠ .ok sets) →
      ∃ e after, d.carryOut (Action.deliver o) = (.error e, after) ∧
        after.files = d.files ∧ after.directories = d.directories) := by
  obtain ⟨e, d', failed, hrun, hafter, hdirectories, hlooks⟩ |
    ⟨text, made, result, d', files, failed, hload, hinput, hmade, hrun, hafter, hend⟩ := d.deliver_cases o
  · refine ⟨fun e' after h => ?_, fun _ => ⟨e, d', hrun, hafter.files_eq, hdirectories⟩⟩
    obtain rfl : d' = after := congrArg Prod.snd (hrun.symm.trans h)
    refine .of_untouched hafter.files_eq ?_
    rw [hafter.failed_eq]
    intro hlast
    obtain rfl := List.append_cancel_left hlast
    exact hlooks _ _ List.mem_cons_self
  · refine ⟨fun e after h => ?_, fun hnone => ?_⟩
    · obtain ⟨rfl, rfl⟩ : result = .error e ∧ d' = after := by simpa using hrun.symm.trans h
      exact .of_handOver hapart hinput hmade hafter hend
    · obtain ⟨sets, hparse, -⟩ := exists_parse_of_artifacts hmade
      exact absurd hparse (hnone text sets hload)

/-- A disk with one file, on which every path is a place of its own. -/
def FaultyDisk.ofFile (p : Path) (text : String) : FaultyDisk (id : Path → Path) where
  files q := if q = p then some text.toUTF8 else none
  reporter := Report.line

/-- A run of which only the sixth request fails, the move of the source. -/
theorem source_kept_where_last_move_fails :
    ∃ (d after : FaultyDisk (id : Path → Path)) (e : Failure), FaultyDisk.Apart (id : Path → Path) {} ∧
      d.carryOut (Action.deliver {}) = (.error e, after) ∧
      after.failed = d.failed ++ [.rename ⟨"tags.cpp.tmp"⟩ ⟨"tags.cpp"⟩] ∧ LeftAlone {} d after := by
  obtain ⟨sets, hparse⟩ : ∃ sets, parse "A \x7b x \x7d" = .ok sets := ⟨_, by cbv⟩
  let d : FaultyDisk (id : Path → Path) :=
    { FaultyDisk.ofFile ⟨"tags.txt"⟩ "A \x7b x \x7d" with
      faults := fun n => if n = 5 then some ⟨.permissionDenied, none, []⟩ else none }
  have hinput : d.files ⟨"tags.txt"⟩ = some "A \x7b x \x7d".toUTF8 := rfl
  have hrun := FaultyDisk.deliver_of_readable {} hinput (by decide) rfl rfl hparse
  generalize Artifacts.ofSets _ sets = made at hrun
  have hapart : FaultyDisk.Apart (id : Path → Path) {} := by unfold FaultyDisk.Apart; decide
  have hfails : d.carryOut (Action.deliver {}) = (.error (.unwritable ⟨"tags.cpp"⟩ .permissionDenied),
      (d.counted.counted.carryOut (Action.handOver {} made)).2) := by
    rw [hrun]
    rfl
  exact ⟨d, _, _, hapart, hfails, rfl, (failed_delivery_keeps_artifacts hapart d).1 _ _ hfails⟩

/-- **When a good run has delivered both artifacts.** A run that ends well has read an input that
has artifacts. Both are in their places exactly if the header is neither the source nor the place
where the source is staged. If the header is that place, it is gone at the end, and the source
holds the declarations. -/
theorem delivered_iff_apart (h : d.carryOut (Action.deliver o) = (.ok (), after)) :
    ∃ text made, d.files (place o.input) = some text.toUTF8 ∧ artifacts text o.style = .ok made ∧
      ((after.files (place o.header) = some made.declarations ∧
          after.files (place o.source) = some made.definitions) ↔
        place o.header ≠ place o.source ∧ place o.header ≠ place o.source.staging) ∧
      (place o.header = place o.source.staging → place o.header ≠ place o.source →
        place o.header ≠ place o.header.staging →
        after.files (place o.header) = none ∧ after.files (place o.source) = some made.declarations) := by
  obtain ⟨e, d', failed, hrun, -⟩ |
    ⟨text, made, result, d', files, failed, -, hinput, hmade, hrun, hafter, hend⟩ := d.deliver_cases o
  · cases hrun.symm.trans h
  · obtain ⟨rfl, rfl⟩ : result = .ok () ∧ d' = after := by simpa using hrun.symm.trans h
    obtain rfl := hafter.files_eq
    obtain ⟨sets, -, rfl⟩ := exists_parse_of_artifacts hmade
    have hne := Artifacts.declarations_ne_definitions o.style sets
    refine ⟨text, _, hinput, hmade, hend.holds_iff hne, fun hheader hsource hown => ?_⟩
    exact ⟨hend.header_none_of_shared hsource hheader, hend.source_of_shared hown hheader⟩

/-- A run with the usual paths delivers both artifacts. -/
theorem delivered_to_usual_paths :
    ∃ (after : FaultyDisk (id : Path → Path)) (made : Artifacts),
      (FaultyDisk.ofFile ⟨"tags.txt"⟩ "A \x7b x \x7d").carryOut (Action.deliver {}) = (.ok (), after) ∧
      artifacts "A \x7b x \x7d" ({} : GenOptions).style = .ok made ∧
      after.files ⟨"tags.h"⟩ = some made.declarations ∧ after.files ⟨"tags.cpp"⟩ = some made.definitions := by
  obtain ⟨sets, hparse⟩ : ∃ sets, parse "A \x7b x \x7d" = .ok sets := ⟨_, by cbv⟩
  let d := FaultyDisk.ofFile ⟨"tags.txt"⟩ "A \x7b x \x7d"
  have hinput : d.files ⟨"tags.txt"⟩ = some "A \x7b x \x7d".toUTF8 := rfl
  have hrun := FaultyDisk.deliver_of_readable {} hinput (by decide) rfl rfl hparse
  generalize Artifacts.ofSets _ sets = made at hrun
  have hends : d.carryOut (Action.deliver {}) =
      (.ok (), (d.counted.counted.carryOut (Action.handOver {} made)).2) := by
    rw [hrun]
    rfl
  obtain ⟨text, made, htext, hmade, hiff, -⟩ := delivered_iff_apart hends
  obtain rfl : text = "A \x7b x \x7d" :=
    String.toByteArray_inj.1 (Option.some.inj (htext.symm.trans hinput))
  obtain ⟨hheader, hsource⟩ := hiff.2 (by decide)
  exact ⟨_, made, hends, hmade, hheader, hsource⟩

/-- Not every good run delivers both artifacts: if the header is where the source is staged, the
declarations end up in the source and the header is gone. -/
theorem not_every_good_run_delivers :
    ¬ ∀ (o : GenOptions) (d after : FaultyDisk (id : Path → Path)) (text : String) (made : Artifacts),
      d.carryOut (Action.deliver o) = (.ok (), after) → d.files o.input = some text.toUTF8 →
      artifacts text o.style = .ok made →
      after.files o.header = some made.declarations ∧ after.files o.source = some made.definitions := by
  intro hall
  obtain ⟨sets, hparse⟩ : ∃ sets, parse "A \x7b x \x7d" = .ok sets := ⟨_, by cbv⟩
  let o : GenOptions := { header := ⟨"a.tmp"⟩, source := ⟨"a"⟩ }
  let d := FaultyDisk.ofFile ⟨"tags.txt"⟩ "A \x7b x \x7d"
  have hinput : d.files o.input = some "A \x7b x \x7d".toUTF8 := rfl
  have hrun := FaultyDisk.deliver_of_readable o hinput (by decide) rfl rfl hparse
  have hmade := artifacts_of_parse o.style hparse
  generalize Artifacts.ofSets o.style sets = made at hrun hmade
  have hends : d.carryOut (Action.deliver o) =
      (.ok (), (d.counted.counted.carryOut (Action.handOver o made)).2) := by
    rw [hrun]
    exact Prod.ext (by cbv) rfl
  obtain ⟨hheader, -⟩ := hall o d _ _ made hends hinput hmade
  have hgone : (d.counted.counted.carryOut (Action.handOver o made)).2.files o.header = none := by cbv
  cases hgone.symm.trans hheader

end Runs

end TagTables
