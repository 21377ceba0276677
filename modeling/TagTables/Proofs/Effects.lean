/-
# The effect of a run on its sinks

A run reads a set, writes it, reads the next. All the same, its writes are a
sequence that depends on the source and the style only (`idealWrites`): the
heads of both artifacts, two sections for each set that is read before the
end or the first error (`readSets`; all sets of a source that is accepted, by
`readSets_of_parse`), and the tail if there was no error. The run carries out
this sequence (`generate_follows`), and fails first for want of room, then
because of the source, then in a flush.

Key definitions: `readSets`, `idealWrites`, `Run.Follows`.
Key theorems: `Draft.drain_follows`, `generate_follows`, `generate_effect`,
`failed_run_closed_iff_flush_failed`.
-/
import Mathlib
import TagTables.Proofs.Writes

namespace TagTables

/-! ### The writes of a source -/

/-- The writes before the first set. -/
def Emit.Style.opening (style : Emit.Style) : List Write :=
  [⟨.declarations, style.declarationsHead⟩, ⟨.definitions, style.definitionsHead⟩]

/-- The writes of a set. -/
def Emit.Style.writesOf (style : Emit.Style) (set : TagSet) : List Write :=
  [⟨.declarations, style.declarationsOf set⟩, ⟨.definitions, style.definitionsOf set⟩]

/-- The write that closes the declarations. -/
def closing : List Write := [⟨.declarations, Emit.Style.declarationsTail⟩]

/-- A source is closed if it is accepted. -/
def closingFor : Except SyntaxError (List TagSet) → List Write
  | .ok _ => closing
  | .error _ => []

/-- The sets among results, up to the first that is none. -/
def SetStream.setsOf : List (Option (Except SyntaxError TagSet)) → List TagSet
  | some (.ok set) :: rest => set :: setsOf rest
  | _ => []

/-- The sets that are read from a source before its end or the first error. -/
def readSets (source : String) : List TagSet := SetStream.setsOf (SetStream.ofSource source).results

/-- All writes of a source into sinks that never fail. -/
def idealWrites (style : Emit.Style) (source : String) : List Write :=
  style.opening ++ (readSets source).flatMap style.writesOf ++ closingFor (parse source)

theorem SetStream.setsOf_of_verdict : ∀ {results : List (Option (Except SyntaxError TagSet))}
    {sets : List TagSet}, verdict results = .ok sets → setsOf results = sets
  | [], _, h => by simpa [verdict, setsOf] using h
  | none :: _, _, h => by simpa [verdict, setsOf] using h
  | some (.error _) :: _, _, h => by simp [verdict] at h
  | some (.ok set) :: rest, sets, h => by
    rw [verdict] at h
    cases hrest : verdict rest with
    | error e =>
      rw [hrest] at h
      cases h
    | ok more =>
      rw [hrest] at h
      rw [setsOf, setsOf_of_verdict hrest]
      exact Except.ok.inj h

theorem readSets_of_parse {source : String} {sets : List TagSet} (h : parse source = .ok sets) :
    readSets source = sets := by
  rw [parse_eq_verdict] at h
  exact SetStream.setsOf_of_verdict h

/-! ### Runs that carry out writes -/

/-- Whether one of the sinks fails when it is flushed. -/
def Sinks.flushFails (sinks : Sinks) : Bool :=
  (sinks .declarations).flushFails || (sinks .definitions).flushFails

theorem Sink.flush_bind (a b : Sink) :
    (a.flush >>= fun _ => b.flush) =
      if a.flushFails || b.flushFails then .error .flushFailed else .ok () := by
  unfold flush
  by_cases ha : a.flushFails
  · rw [if_pos ha, ha]
    rfl
  · rw [if_neg ha, Bool.eq_false_of_not_eq_true ha]
    rfl

/-- How a run ends: it is stopped by a write, or else by the source, or else by a flush, or it
counts its sets to those before. -/
def outcomeOf (written : Except SinkError Unit) (flushFails : Bool) (before : Tally)
    (verdict : Except SyntaxError (List TagSet)) : Except RunError Tally :=
  match written, verdict with
  | .error e, _ => .error (.unwritten e)
  | .ok (), .error e => .error (.rejected e)
  | .ok (), .ok sets =>
    if flushFails then .error (.unwritten .flushFailed)
    else .ok ⟨before.sets + sets.length, before.tags + totalTags sets⟩

theorem outcomeOf_eq_ok_iff {written : Except SinkError Unit} {flushFails : Bool} {before tally : Tally}
    {verdict : Except SyntaxError (List TagSet)} :
    outcomeOf written flushFails before verdict = .ok tally ↔
      written = .ok () ∧ flushFails = false ∧
        ∃ sets, verdict = .ok sets ∧
          tally = ⟨before.sets + sets.length, before.tags + totalTags sets⟩ := by
  rcases written with e | _
  · simp [outcomeOf]
  · rcases verdict with e | sets
    · simp [outcomeOf]
    · cases flushFails
      · simp [outcomeOf, eq_comm]
      · simp [outcomeOf]

theorem outcomeOf_cons (written : Except SinkError Unit) (flushFails : Bool) (before : Tally)
    (set : TagSet) (verdict : Except SyntaxError (List TagSet)) :
    outcomeOf written flushFails ⟨before.sets + 1, before.tags + set.size⟩ verdict =
      outcomeOf written flushFails before (verdict.map (set :: ·)) := by
  rcases written with e | _
  · rfl
  · rcases verdict with e | sets
    · rfl
    · have hsets : before.sets + 1 + sets.length = before.sets + (set :: sets).length := by
        rw [List.length_cons]
        omega
      have htags : before.tags + set.size + totalTags sets = before.tags + totalTags (set :: sets) := by
        rw [totalTags_cons]
        omega
      simp only [outcomeOf, Except.map, hsets, htags]

namespace Draft

/-- The sinks of a draft. -/
def sinks (d : Draft) : Sinks
  | .declarations => d.declarations
  | .definitions => d.definitions

/-- The draft over other sinks. -/
def withSinks (d : Draft) (sinks : Sinks) : Draft :=
  { d with declarations := sinks .declarations, definitions := sinks .definitions }

theorem sinks_withSinks (d : Draft) (s : Sinks) : (d.withSinks s).sinks = s := by
  funext side
  cases side <;> rfl

theorem sinks_set_declarations (d : Draft) (sink : Sink) :
    Draft.sinks { d with declarations := sink } = Function.update d.sinks .declarations sink := by
  funext side
  cases side <;> rfl

end Draft

theorem perform_flushFails (sinks : Sinks) (ws : List Write) :
    (perform sinks ws).2.flushFails = sinks.flushFails := by
  induction ws generalizing sinks with
  | nil => rfl
  | cons w ws ih =>
    have hupdate : ∀ bytes, Sinks.flushFails (Function.update sinks w.side ((sinks w.side).extend bytes)) =
        sinks.flushFails := by
      intro bytes
      unfold Sinks.flushFails
      rcases hs : w.side <;> simp [Sink.extend]
    rw [perform]
    by_cases h : (sinks w.side).Takes w.text.toUTF8
    · simp only [Sink.writeAll_of_takes h]
      rw [ih, hupdate]
    · simp only [Sink.writeAll_of_not_takes h]
      exact hupdate _

/-- The run has carried out the writes and ended as they, the flushes and the verdict on the
source make it end. -/
structure Run.Follows (run : Run) (sinks : Sinks) (ws : List Write) (before : Tally)
    (verdict : Except SyntaxError (List TagSet)) : Prop where
  effect : run.draft.sinks = (perform sinks ws).2
  outcome : run.outcome = outcomeOf (perform sinks ws).1 sinks.flushFails before verdict

namespace Run.Follows

variable {run : Run} {sinks s : Sinks} {a : List Write} {before : Tally}
  {verdict : Except SyntaxError (List TagSet)}

/-- A run whose first writes were carried out follows these and what it follows behind them. -/
theorem of_written {b : List Write} (ha : perform sinks a = (.ok (), s))
    (h : run.Follows s b before verdict) : run.Follows sinks (a ++ b) before verdict := by
  have hflush : s.flushFails = sinks.flushFails := by
    have := perform_flushFails sinks a
    rwa [ha] at this
  refine ⟨?_, ?_⟩
  · rw [perform_append, ha]
    exact h.effect
  · rw [perform_append, ha, ← hflush]
    exact h.outcome

/-- A run that is stopped by a write follows it and whatever would come behind it. -/
theorem of_unwritten {e : SinkError} (b : List Write) (ha : perform sinks a = (.error e, s))
    (hs : run.draft.sinks = s) (ho : run.outcome = .error (.unwritten e)) :
    run.Follows sinks (a ++ b) before verdict := by
  refine ⟨?_, ?_⟩
  · rw [perform_append, ha]
    exact hs
  · rw [perform_append, ha]
    exact ho

end Run.Follows

namespace Draft

variable (d : Draft)

theorem writeBoth_eq (x y : String) :
    d.writeBoth x y =
      ((perform d.sinks [⟨.declarations, x⟩, ⟨.definitions, y⟩]).1,
        d.withSinks (perform d.sinks [⟨.declarations, x⟩, ⟨.definitions, y⟩]).2) := by
  have hsecond : ∀ s, Function.update d.sinks .declarations s .definitions = d.definitions := fun _ => rfl
  rcases hx : d.declarations.writeAll x.toUTF8 with ⟨e | _, s⟩
  · have hd : (d.sinks .declarations).writeAll x.toUTF8 = (.error e, s) := hx
    simp only [writeBoth, hx, perform, hd]
    rfl
  · have hd : (d.sinks .declarations).writeAll x.toUTF8 = (.ok (), s) := hx
    rcases hy : d.definitions.writeAll y.toUTF8 with ⟨e | _, s'⟩
    · simp only [writeBoth, hx, perform, hd, hsecond, hy]
      rfl
    · simp only [writeBoth, hx, perform, hd, hsecond, hy]
      rfl

theorem add_eq (set : TagSet) :
    d.add set =
      match perform d.sinks (d.style.writesOf set) with
      | (.error e, s) => (.error e, d.withSinks s)
      | (.ok (), s) =>
        (.ok (), { d.withSinks s with tally := ⟨d.tally.sets + 1, d.tally.tags + set.size⟩ }) := by
  rw [add, writeBoth_eq, ← Emit.Style.writesOf]
  rcases perform d.sinks (d.style.writesOf set) with ⟨e | _, s⟩
  · rfl
  · rfl

/-- Closing a draft is carrying out the last write, if the flushes behind it succeed. -/
theorem close_follows (log : Array Event) :
    (d.close log).Follows d.sinks closing d.tally (.ok []) := by
  have hperform : ∀ {written sink},
      d.declarations.writeAll Emit.Style.declarationsTail.toUTF8 = (written, sink) →
      perform d.sinks closing = (written, Draft.sinks { d with declarations := sink }) := by
    intro written sink hwrite
    have hd : (d.sinks .declarations).writeAll Emit.Style.declarationsTail.toUTF8 = (written, sink) := hwrite
    rw [closing, perform_singleton, hd]
    exact congrArg (Prod.mk written) (d.sinks_set_declarations sink).symm
  rcases hwrite : d.declarations.writeAll Emit.Style.declarationsTail.toUTF8 with ⟨e | _, sink⟩
  · constructor
    · simp only [close, finish, hwrite, hperform hwrite]
    · simp only [close, finish, hwrite, hperform hwrite]
      rfl
  · constructor
    · simp only [close, finish, hwrite, hperform hwrite]
    · have hflags : (sink.flushFails || d.definitions.flushFails) = d.sinks.flushFails := by
        have hkept := perform_flushFails d.sinks closing
        rwa [hperform hwrite] at hkept
      simp only [close, finish, hwrite, hperform hwrite, outcomeOf]
      rw [Sink.flush_bind, hflags]
      cases d.sinks.flushFails <;> rfl

/-- A run carries out the writes of its answers. -/
theorem drain_follows (answers : List Answer) (log : Array Event) :
    (d.drain log answers).Follows d.sinks
      ((SetStream.setsOf (answers.map (·.result))).flatMap d.style.writesOf ++
        closingFor (SetStream.verdict (answers.map (·.result))))
      d.tally (SetStream.verdict (answers.map (·.result))) := by
  induction answers generalizing d log with
  | nil => exact d.close_follows log
  | cons a rest ih =>
    rcases ha : a.result with _ | e | set
    · simp only [drain, List.map_cons, ha]
      exact d.close_follows _
    · simp only [drain, List.map_cons, ha]
      exact ⟨rfl, rfl⟩
    · simp only [drain, List.map_cons, ha, SetStream.setsOf, SetStream.verdict, List.flatMap_cons,
        List.append_assoc]
      have hclosing : ∀ v : Except SyntaxError (List TagSet),
          closingFor (v.map (set :: ·)) = closingFor v := fun v => by cases v <;> rfl
      rw [hclosing]
      -- the set is written first; what follows goes on from the sinks behind it
      rcases hset : perform d.sinks (d.style.writesOf set) with ⟨e | _, s⟩
      · rw [add_eq, hset]
        exact .of_unwritten _ hset (d.sinks_withSinks s) rfl
      · rw [add_eq, hset]
        refine .of_written hset ?_
        have hrest := ih { d.withSinks s with tally := ⟨d.tally.sets + 1, d.tally.tags + set.size⟩ }
          ((log ++ a.events).push (added set))
        have hsinks : Draft.sinks
            { d.withSinks s with tally := ⟨d.tally.sets + 1, d.tally.tags + set.size⟩ } = s :=
          d.sinks_withSinks s
        rw [hsinks] at hrest
        refine ⟨hrest.effect, ?_⟩
        rw [← outcomeOf_cons]
        exact hrest.outcome

end Draft

/-- The two sinks of a run. -/
def sinksOf (declarations definitions : Sink) : Sinks
  | .declarations => declarations
  | .definitions => definitions

/-- A run carries out the writes of its source. -/
theorem generate_follows (source : String) (style : Emit.Style) (declarations definitions : Sink) :
    (generate source style declarations definitions).Follows (sinksOf declarations definitions)
      (idealWrites style source) {} (parse source) := by
  set d : Draft := ⟨style, declarations, definitions, {}⟩ with hd
  have hsinks : d.sinks = sinksOf declarations definitions := by
    funext side
    cases side <;> rfl
  have hstart : d.start = ((perform d.sinks style.opening).1, d.withSinks (perform d.sinks style.opening).2) :=
    d.writeBoth_eq style.declarationsHead style.definitionsHead
  rw [idealWrites, List.append_assoc, readSets, parse_eq_verdict, SetStream.results, ← hsinks]
  rcases hopen : perform d.sinks style.opening with ⟨e | _, s⟩
  · rw [hopen] at hstart
    simp only [generate, ← hd, hstart]
    exact .of_unwritten _ hopen (d.sinks_withSinks s) rfl
  · rw [hopen] at hstart
    simp only [generate, ← hd, hstart]
    refine .of_written hopen ?_
    have hdrain := (d.withSinks s).drain_follows (SetStream.ofSource source).answers
      #[.entered .generate source.utf8ByteSize]
    rwa [d.sinks_withSinks] at hdrain

/-- A run whose writes all fit is stopped by its source or by a flush, if at all. -/
theorem outcome_of_fits {source : String} {style : Emit.Style} {declarations definitions : Sink}
    (h : Fits (sinksOf declarations definitions) (idealWrites style source)) :
    (generate source style declarations definitions).outcome =
      outcomeOf (.ok ()) (declarations.flushFails || definitions.flushFails) {} (parse source) := by
  have hrun := (generate_follows source style declarations definitions).outcome
  rw [perform_of_fits h] at hrun
  exact hrun

/-- **The exact effect of a run on sinks that may fail.** Of the writes of its source it carries
out the longest beginning that fits, and of the next one the bytes that fit. If there is a next
one, the run fails as the sink of that one does, even if the source is rejected further on; if
all writes fit it fails with the error of the source, or else in a flush. It succeeds exactly
if the source is accepted, all fits and no flush fails, and then it counts all sets. -/
theorem generate_effect (source : String) (style : Emit.Style) (declarations definitions : Sink) :
    (∃ n ≤ (idealWrites style source).length,
      Performed (sinksOf declarations definitions) (idealWrites style source) n
        (generate source style declarations definitions).draft.sinks ∧
      (generate source style declarations definitions).outcome =
        match (idealWrites style source)[n]? with
        | some w => .error (.unwritten (sinksOf declarations definitions w.side).fullError)
        | none =>
          match parse source with
          | .error e => .error (.rejected e)
          | .ok sets =>
            if declarations.flushFails || definitions.flushFails then .error (.unwritten .flushFailed)
            else .ok ⟨sets.length, totalTags sets⟩) ∧
    ∀ tally, (generate source style declarations definitions).outcome = .ok tally ↔
      ∃ sets, parse source = .ok sets ∧ Fits (sinksOf declarations definitions) (idealWrites style source) ∧
        declarations.flushFails = false ∧ definitions.flushFails = false ∧
        tally = ⟨sets.length, totalTags sets⟩ := by
  have hrun := generate_follows source style declarations definitions
  refine ⟨?_, fun tally => ?_⟩
  · obtain ⟨n, hn, hperformed, hwritten⟩ :=
      exists_performed (sinksOf declarations definitions) (idealWrites style source)
    refine ⟨n, hn, hrun.effect ▸ hperformed, ?_⟩
    rw [hrun.outcome, hwritten]
    cases (idealWrites style source)[n]? with
    | some w => rfl
    | none =>
      cases parse source with
      | error e => rfl
      | ok sets => simp only [outcomeOf, Sinks.flushFails, sinksOf, Nat.zero_add]
  · rw [hrun.outcome, outcomeOf_eq_ok_iff, perform_eq_ok_iff, Sinks.flushFails, Bool.or_eq_false_iff]
    constructor
    · rintro ⟨hfits, ⟨hdecl, hdefs⟩, sets, hparse, rfl⟩
      refine ⟨sets, hparse, hfits, hdecl, hdefs, ?_⟩
      simp only [Nat.zero_add]
    · rintro ⟨sets, hparse, hfits, hdecl, hdefs, rfl⟩
      refine ⟨hfits, ⟨hdecl, hdefs⟩, sets, hparse, ?_⟩
      simp only [Nat.zero_add]

/-! ### Failed runs

The tail is the last write of a source that is accepted, and a source that is
rejected has none. So a run that fails in a write, or because of the source,
leaves the declarations without an end. The flushes come behind the tail: a
run that fails in one of them has closed the declarations before. -/

/-- The declarations with the sections of all sets that are read, closed. -/
def closedDeclarations (style : Emit.Style) (source : String) : ByteArray :=
  (Artifacts.ofSets style (readSets source)).declarations

theorem load_flatMap_writesOf (style : Emit.Style) (sets : List TagSet) :
    load .declarations (sets.flatMap style.writesOf) = String.join (sets.map style.declarationsOf) := by
  induction sets with
  | nil => rfl
  | cons set sets ih =>
    rw [List.flatMap_cons, load_append, ih, List.map_cons, String.join_cons]
    rfl

theorem load_closed (style : Emit.Style) (source : String) :
    (load .declarations (style.opening ++ (readSets source).flatMap style.writesOf ++ closing)).toUTF8 =
      closedDeclarations style source := by
  rw [load_append, load_append, load_flatMap_writesOf]
  rfl

/-- Writes that are left out at the end of writes that end in the tail have it. -/
theorem exists_closing_of_append {a done rest : List Write} (h : done ++ rest = a ++ closing)
    (hne : rest ≠ []) : ∃ r, rest = r ++ closing := by
  have hlast : rest.dropLast ++ [rest.getLast hne] = rest := List.dropLast_append_getLast hne
  rw [← hlast, ← List.append_assoc] at h
  have htail : [rest.getLast hne] = closing := List.append_inj_right' h rfl
  exact ⟨rest.dropLast, by rw [← htail, hlast]⟩

theorem size_load_closing_pos (r : List Write) : 0 < (load .declarations (r ++ closing)).toUTF8.size := by
  have htail : 0 < (load .declarations closing).toUTF8.size := by decide
  rw [load_append, String.toUTF8_eq_toByteArray, String.toByteArray_append, ByteArray.size_append]
  rw [String.toUTF8_eq_toByteArray] at htail
  omega

/-- A write that does not fit leaves bytes of the closed declarations unwritten: its own if it is
one of theirs, else at least those of the tail, which comes later. -/
theorem exists_missing_of_misfit {sinks : Sinks} {a done rest : List Write} {w : Write}
    (hclosed : done ++ w :: rest = a ++ closing) (hdone : Fits sinks done) (hw : ¬ Fits sinks (done ++ [w])) :
    ∃ missing : ByteArray, 0 < missing.size ∧
      ((sinks.extend done).cut w .declarations).held ++ missing =
        (sinks .declarations).held ++ (load .declarations (a ++ closing)).toUTF8 := by
  rw [← hclosed]
  by_cases hside : w.side = .declarations
  · obtain ⟨own, hown, happend⟩ := Sink.exists_rest_of_not_takes (not_takes_of_misfit hdone hw)
    refine ⟨own ++ (load .declarations rest).toUTF8, ?_, ?_⟩
    · rw [ByteArray.size_append]
      omega
    · have hload : load .declarations (done ++ w :: rest) =
          load .declarations done ++ (w.text ++ load .declarations rest) := by
        rw [load_append, ← List.singleton_append, load_append, ← hside, load_singleton_self]
      rw [hload, ← hside, Sinks.cut_self]
      simp only [Sink.extend, Sinks.extend, String.toUTF8_eq_toByteArray, String.toByteArray_append]
        at happend ⊢
      rw [ByteArray.append_assoc, ByteArray.append_assoc, ← ByteArray.append_assoc (b := own), happend]
  · obtain ⟨r, hr⟩ := exists_closing_of_append hclosed (List.cons_ne_nil w rest)
    refine ⟨(load .declarations (w :: rest)).toUTF8, ?_, ?_⟩
    · rw [hr]
      exact size_load_closing_pos r
    · rw [Sinks.cut_of_ne _ hside, load_append]
      simp only [Sink.extend, Sinks.extend, String.toUTF8_eq_toByteArray, String.toByteArray_append,
        ByteArray.append_assoc]

theorem Sink.fullError_ne_flushFailed (s : Sink) : s.fullError ≠ .flushFailed := by
  unfold fullError
  split <;> decide

theorem generate_flushFailed_iff (source : String) (style : Emit.Style) (declarations definitions : Sink) :
    (generate source style declarations definitions).outcome = .error (.unwritten .flushFailed) ↔
      (∃ sets, parse source = .ok sets) ∧ Fits (sinksOf declarations definitions) (idealWrites style source) ∧
        (declarations.flushFails || definitions.flushFails) = true := by
  by_cases hfits : Fits (sinksOf declarations definitions) (idealWrites style source)
  · rw [outcome_of_fits hfits]
    cases parse source with
    | error e => simp [outcomeOf]
    | ok sets =>
      rw [outcomeOf]
      cases declarations.flushFails || definitions.flushFails <;> simp [hfits]
  · obtain ⟨done, w, rest, hws, hdone, hw⟩ := exists_misfit hfits
    have hrun := (generate_follows source style declarations definitions).outcome
    rw [hws, perform_of_misfit rest hdone hw] at hrun
    simp [hrun, outcomeOf, hfits, Sink.fullError_ne_flushFailed]

theorem idealWrites_of_ok (style : Emit.Style) {source : String} {sets : List TagSet}
    (h : parse source = .ok sets) : idealWrites style source =
      style.opening ++ (readSets source).flatMap style.writesOf ++ closing := by
  rw [idealWrites, h, closingFor]

theorem idealWrites_of_error (style : Emit.Style) {source : String} {e : SyntaxError}
    (h : parse source = .error e) : idealWrites style source =
      style.opening ++ (readSets source).flatMap style.writesOf := by
  rw [idealWrites, h, closingFor, List.append_nil]

theorem held_of_fits {source : String} {style : Emit.Style} {declarations definitions : Sink}
    (h : Fits (sinksOf declarations definitions) (idealWrites style source)) :
    (generate source style declarations definitions).draft.declarations.held =
      declarations.held ++ (load .declarations (idealWrites style source)).toUTF8 := by
  have heffect := (generate_follows source style declarations definitions).effect
  rw [perform_of_fits h] at heffect
  exact congrArg Sink.held (congrFun heffect .declarations)

/-- A run that fails, but in no flush, leaves bytes of the closed declarations unwritten. -/
theorem exists_missing_of_failed {source : String} {style : Emit.Style} {declarations definitions : Sink}
    {e : RunError} (h : (generate source style declarations definitions).outcome = .error e)
    (he : e ≠ .unwritten .flushFailed) :
    ∃ missing : ByteArray, 0 < missing.size ∧
      (generate source style declarations definitions).draft.declarations.held ++ missing =
        declarations.held ++ closedDeclarations style source := by
  rw [← load_closed]
  by_cases hfits : Fits (sinksOf declarations definitions) (idealWrites style source)
  · -- all is written, so the source is rejected and only the tail is left out
    rw [outcome_of_fits hfits] at h
    cases hparse : parse source with
    | ok sets =>
      rw [hparse, outcomeOf] at h
      split at h
      · exact absurd (Except.error.inj h).symm he
      · cases h
    | error _ =>
      refine ⟨(load .declarations closing).toUTF8, size_load_closing_pos [], ?_⟩
      rw [held_of_fits hfits, ← idealWrites_of_error style hparse, load_append]
      simp only [String.toUTF8_eq_toByteArray, String.toByteArray_append, ByteArray.append_assoc]
  · obtain ⟨done, w, rest, hws, hdone, hw⟩ := exists_misfit hfits
    -- with the tail, whether or not it is among the writes of the source
    obtain ⟨left, hleft⟩ : ∃ left, idealWrites style source ++ left =
        style.opening ++ (readSets source).flatMap style.writesOf ++ closing := by
      cases hparse : parse source with
      | ok sets => exact ⟨[], by rw [idealWrites_of_ok style hparse, List.append_nil]⟩
      | error _ => exact ⟨closing, by rw [idealWrites_of_error style hparse]⟩
    have hclosed : done ++ w :: (rest ++ left) =
        style.opening ++ (readSets source).flatMap style.writesOf ++ closing := by
      rw [← hleft, hws, List.append_assoc, List.cons_append]
    have heffect := (generate_follows source style declarations definitions).effect
    rw [hws, perform_of_misfit rest hdone hw] at heffect
    have hdecl : (generate source style declarations definitions).draft.declarations =
        ((sinksOf declarations definitions).extend done).cut w .declarations := congrFun heffect .declarations
    rw [hdecl]
    exact exists_missing_of_misfit hclosed hdone hw

/-- **A failed run is closed exactly if it failed in a flush.** A run that fails leaves the
closed declarations behind what the sink held before if and only if it fails in a flush, which it
does if the source is accepted, all writes fit and one of the sinks cannot be flushed. Otherwise
bytes are missing at their end. -/
theorem failed_run_closed_iff_flush_failed (source : String) (style : Emit.Style)
    (declarations definitions : Sink) (e : RunError)
    (h : (generate source style declarations definitions).outcome = .error e) :
    ((generate source style declarations definitions).draft.declarations.held =
        declarations.held ++ closedDeclarations style source ↔ e = .unwritten .flushFailed) ∧
    (e = .unwritten .flushFailed ↔
      (∃ sets, parse source = .ok sets) ∧ Fits (sinksOf declarations definitions) (idealWrites style source) ∧
        (declarations.flushFails || definitions.flushFails) = true) ∧
    (e ≠ .unwritten .flushFailed →
      ∃ missing : ByteArray, 0 < missing.size ∧
        (generate source style declarations definitions).draft.declarations.held ++ missing =
          declarations.held ++ closedDeclarations style source) := by
  have hflush := generate_flushFailed_iff source style declarations definitions
  rw [h, Except.error.injEq] at hflush
  refine ⟨⟨fun hheld => ?_, fun he => ?_⟩, hflush, fun he => exists_missing_of_failed h he⟩
  · by_contra he
    obtain ⟨missing, hpos, hmissing⟩ := exists_missing_of_failed h he
    have hsize := congrArg ByteArray.size hmissing
    rw [← hheld, ByteArray.size_append] at hsize
    omega
  · obtain ⟨⟨sets, hparse⟩, hfits, -⟩ := hflush.mp he
    rw [held_of_fits hfits, idealWrites_of_ok style hparse, load_closed]

theorem fits_of_unbounded {declarations definitions : Sink} (hdecl : declarations.limit = none)
    (hdefs : definitions.limit = none) (ws : List Write) : Fits (sinksOf declarations definitions) ws := by
  intro side
  cases side with
  | declarations => simp [sinksOf, Sink.Takes, Sink.fits, hdecl]
  | definitions => simp [sinksOf, Sink.Takes, Sink.fits, hdefs]

/-- A run over a source whose second block is not closed leaves the declarations open. -/
theorem rejected_run_left_open :
    (generate "A \x7b x \x7d B \x7b" {} {} {}).outcome =
      .error (.rejected (.unexpectedEnd .tagOrBrace (.point 11))) ∧
    (generate "A \x7b x \x7d B \x7b" {} {} {}).draft.declarations.held ≠
      ByteArray.empty ++ closedDeclarations {} "A \x7b x \x7d B \x7b" := by
  have hparse : parse "A \x7b x \x7d B \x7b" = .error (.unexpectedEnd .tagOrBrace (.point 11)) := by cbv
  have hfits : Fits (sinksOf {} {}) (idealWrites {} "A \x7b x \x7d B \x7b") :=
    fits_of_unbounded rfl rfl _
  have hfails : (generate "A \x7b x \x7d B \x7b" {} {} {}).outcome =
      .error (.rejected (.unexpectedEnd .tagOrBrace (.point 11))) := by
    rw [outcome_of_fits hfits, hparse]
    rfl
  refine ⟨hfails, fun hclosed => ?_⟩
  have hflush := (failed_run_closed_iff_flush_failed _ _ _ _ _ hfails).1.mp hclosed
  cases hflush

/-- Not every failed run leaves the declarations open: one that cannot flush them has closed
them before. -/
theorem not_every_failed_run_left_open :
    ¬ ∀ (source : String) (style : Emit.Style) (declarations definitions : Sink) (e : RunError),
      (generate source style declarations definitions).outcome = .error e →
        (generate source style declarations definitions).draft.declarations.held ≠
          declarations.held ++ closedDeclarations style source := by
  intro hopen
  obtain ⟨sets, hparse⟩ : ∃ sets, parse "A \x7b x \x7d" = .ok sets := ⟨_, by cbv⟩
  have hfits : Fits (sinksOf { flushFails := true } {}) (idealWrites {} "A \x7b x \x7d") :=
    fits_of_unbounded rfl rfl _
  have hfails : (generate "A \x7b x \x7d" {} { flushFails := true } {}).outcome =
      .error (.unwritten .flushFailed) := by
    rw [outcome_of_fits hfits, hparse]
    rfl
  refine hopen _ _ _ _ _ hfails ?_
  rw [held_of_fits hfits, idealWrites_of_ok {} hparse, load_closed]

end TagTables
