/-
# Streaming and batch generation agree

A run writes each set as soon as it is read, and stops in the middle if a
later block is wrong. Into sinks without a bound it still comes to what one
would get by reading the whole source first and writing all sections then:
both go through the same answers of the stream, and the run carries in its
sinks the sections of the sets so far and in its tally their number
(`drain_inMemory`). So a run in memory fails only on a source that is
rejected, with the same error.

Key definitions: `Draft.inMemory`, `Artifacts.ofSets`.
Key theorems: `Draft.drain_inMemory`, `artifacts_refines_parse`.
-/
import TagTables.Artifacts
import TagTables.Proofs.Answers

namespace TagTables

theorem Sink.writeAll_of_unbounded (s : Sink) (h : s.limit = none) (bytes : ByteArray) :
    s.writeAll bytes = (.ok (), { s with held := s.held ++ bytes }) := by
  have hfits : s.fits bytes.size = bytes.size := by simp [fits, h]
  rw [writeAll_eq, if_pos hfits, hfits, ByteArray.extract_zero_size]

theorem totalTags_foldl : ∀ (sets : List TagSet) (n : Nat),
    sets.foldl (fun n s => n + s.size) n = n + totalTags sets
  | [], n => rfl
  | set :: sets, n => by
    rw [totalTags, List.foldl_cons, List.foldl_cons, totalTags_foldl sets, totalTags_foldl sets (0 + _)]
    omega

theorem totalTags_cons (set : TagSet) (sets : List TagSet) :
    totalTags (set :: sets) = set.size + totalTags sets := by
  rw [totalTags, List.foldl_cons, totalTags_foldl, Nat.zero_add]

theorem totalTags_append (sets sets' : List TagSet) :
    totalTags (sets ++ sets') = totalTags sets + totalTags sets' := by
  induction sets with
  | nil => rw [List.nil_append, show totalTags [] = 0 from rfl, Nat.zero_add]
  | cons set sets ih => rw [List.cons_append, totalTags_cons, totalTags_cons, ih, Nat.add_assoc]

namespace Draft

/-- A draft over two sinks without a bound, which hold these texts. -/
def inMemory (style : Emit.Style) (declarations definitions : String) (tally : Tally) : Draft :=
  ⟨style, { held := declarations.toUTF8 }, { held := definitions.toUTF8 }, tally⟩

section InMemory

variable (style : Emit.Style) (declarations definitions : String) (tally : Tally)

theorem writeBoth_inMemory (x y : String) :
    (inMemory style declarations definitions tally).writeBoth x y =
      (.ok (), inMemory style (declarations ++ x) (definitions ++ y) tally) := by
  simp [writeBoth, inMemory, Sink.writeAll_of_unbounded, String.toByteArray_append]

theorem add_inMemory (set : TagSet) :
    (inMemory style declarations definitions tally).add set =
      (.ok (), inMemory style (declarations ++ style.declarationsOf set)
        (definitions ++ style.definitionsOf set) ⟨tally.sets + 1, tally.tags + set.size⟩) := by
  have hstyle : (inMemory style declarations definitions tally).style = style := rfl
  rw [add, hstyle, writeBoth_inMemory]
  rfl

theorem finish_inMemory :
    (inMemory style declarations definitions tally).finish =
      (.ok tally, inMemory style (declarations ++ Emit.Style.declarationsTail) definitions tally) := by
  simp [finish, inMemory, Sink.writeAll_of_unbounded, String.toByteArray_append, Sink.flush, bind,
    Except.bind, Except.map]

theorem close_inMemory (log : Array Event) :
    (inMemory style declarations definitions tally).close log =
      ⟨.ok tally, inMemory style (declarations ++ Emit.Style.declarationsTail) definitions tally, log⟩ := by
  rw [close, finish_inMemory]
  rfl

end InMemory

/-- A run into memory follows the verdict on its answers. If they amount to sets, it
appends the section of each set in turn and then the tail, and counts them; if they run into
an error, it ends with that error. -/
theorem drain_inMemory (style : Emit.Style) : ∀ (answers : List Answer) (declarations definitions : String)
    (tally : Tally) (log : Array Event),
    match SetStream.verdict (answers.map (·.result)) with
    | .ok sets =>
      ∃ log', (inMemory style declarations definitions tally).drain log answers =
        ⟨.ok ⟨tally.sets + sets.length, tally.tags + totalTags sets⟩,
          inMemory style
            (declarations ++ String.join (sets.map style.declarationsOf) ++ Emit.Style.declarationsTail)
            (definitions ++ String.join (sets.map style.definitionsOf))
            ⟨tally.sets + sets.length, tally.tags + totalTags sets⟩, log'⟩
    | .error e =>
      ((inMemory style declarations definitions tally).drain log answers).outcome = .error (.rejected e)
  | [], declarations, definitions, tally, log => by
    refine ⟨log, ?_⟩
    rw [drain, close_inMemory]
    simp [totalTags]
  | a :: rest, declarations, definitions, tally, log => by
    rcases ha : a.result with _ | e | set
    · simp only [List.map_cons, ha, SetStream.verdict]
      refine ⟨log ++ a.events, ?_⟩
      simp only [drain, ha, close_inMemory]
      simp [totalTags]
    · simp [SetStream.verdict, ha, drain]
    · -- the set goes to both sinks, and the rest of the answers to the draft behind it
      have ih := drain_inMemory style rest (declarations ++ style.declarationsOf set)
        (definitions ++ style.definitionsOf set) ⟨tally.sets + 1, tally.tags + set.size⟩
        ((log ++ a.events).push (added set))
      simp only [List.map_cons, ha, SetStream.verdict, drain, add_inMemory]
      cases hv : SetStream.verdict (rest.map (·.result)) with
      | error e => simpa only [hv, Except.map] using ih
      | ok sets =>
        rw [hv] at ih
        obtain ⟨log', ih⟩ := ih
        refine ⟨log', ih.trans ?_⟩
        have hsets : tally.sets + 1 + sets.length = tally.sets + (set :: sets).length := by
          rw [List.length_cons]; omega
        have htags : tally.tags + set.size + totalTags sets = tally.tags + totalTags (set :: sets) := by
          rw [totalTags_cons]; omega
        simp only [hsets, htags, List.map_cons, String.join_cons, String.append_assoc]

end Draft

/-- Both artifacts of a list of sets: the sections of all sets between head and tail. -/
def Artifacts.ofSets (style : Emit.Style) (sets : List TagSet) : Artifacts where
  declarations := (style.declarationsHead ++ String.join (sets.map style.declarationsOf) ++
    Emit.Style.declarationsTail).toUTF8
  definitions := (style.definitionsHead ++ String.join (sets.map style.definitionsOf)).toUTF8
  tally := ⟨sets.length, totalTags sets⟩

theorem generate_inMemory (source : String) (style : Emit.Style) :
    generate source style {} {} =
      (Draft.inMemory style style.declarationsHead style.definitionsHead {}).drain
        #[.entered .generate source.utf8ByteSize] (SetStream.ofSource source).answers := by
  have hempty : (⟨style, {}, {}, {}⟩ : Draft) = Draft.inMemory style "" "" {} := rfl
  have hstyle : (Draft.inMemory style "" "" {}).style = style := rfl
  rw [generate, hempty, Draft.start, hstyle, Draft.writeBoth_inMemory, String.empty_append,
    String.empty_append]

theorem generate_inMemory_follows (source : String) (style : Emit.Style) :
    match parse source with
    | .ok sets =>
      ∃ log, generate source style {} {} =
        ⟨.ok ⟨sets.length, totalTags sets⟩,
          Draft.inMemory style
            (style.declarationsHead ++ String.join (sets.map style.declarationsOf) ++ Emit.Style.declarationsTail)
            (style.definitionsHead ++ String.join (sets.map style.definitionsOf)) ⟨sets.length, totalTags sets⟩,
          log⟩
    | .error e => (generate source style {} {}).outcome = .error (.rejected e) := by
  have hrun := Draft.drain_inMemory style (SetStream.ofSource source).answers style.declarationsHead
    style.definitionsHead {} #[.entered .generate source.utf8ByteSize]
  rw [← generate_inMemory] at hrun
  simpa only [parse_eq_verdict, SetStream.results, Nat.zero_add] using hrun

theorem artifacts_of_parse {source : String} {sets : List TagSet} (style : Emit.Style)
    (h : parse source = .ok sets) : artifacts source style = .ok (Artifacts.ofSets style sets) := by
  have hrun := generate_inMemory_follows source style
  rw [h] at hrun
  obtain ⟨log, hrun⟩ := hrun
  simp only [artifacts, artifactsLogged, hrun, Except.map, Draft.inMemory, Artifacts.ofSets]

theorem artifacts_of_parse_error {source : String} {e : SyntaxError} (style : Emit.Style)
    (h : parse source = .error e) : artifacts source style = .error (.rejected e) := by
  have hrun := generate_inMemory_follows source style
  rw [h] at hrun
  simp only [artifacts, artifactsLogged, hrun, Except.map]

/-- **Streaming generation refines batch parsing.** The artifacts of a source are those of
the sets that parsing it gives; a run in memory succeeds exactly if parsing does, fails with the
error of parsing, and never for want of room. -/
theorem artifacts_refines_parse (source : String) (style : Emit.Style) :
    (artifacts source style =
      match parse source with
      | .ok sets => .ok (Artifacts.ofSets style sets)
      | .error e => .error (.rejected e)) ∧
    ((∃ a, artifacts source style = .ok a) ↔ ∃ sets, parse source = .ok sets) ∧
    ∀ e, artifacts source style ≠ .error (.unwritten e) := by
  have heq : artifacts source style =
      match parse source with
      | .ok sets => .ok (Artifacts.ofSets style sets)
      | .error e => .error (.rejected e) := by
    rcases hparse : parse source with e | sets
    · exact artifacts_of_parse_error style hparse
    · exact artifacts_of_parse style hparse
  refine ⟨heq, ?_, fun e => ?_⟩
  · rw [heq]
    cases parse source <;> simp
  · rw [heq]
    cases parse source <;> simp

end TagTables
