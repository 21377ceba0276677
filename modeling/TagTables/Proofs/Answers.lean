/-
# What the answers of a set stream amount to

The answers of a stream are sets, then one answer that is no set: an error,
or nothing. So they amount to a list of sets or to an error, their
`verdict`, and `parse` is the verdict on the stream over the source. The
accumulators and reports that `gather` carries along do not matter for it.

Key definitions: `SetStream.results`, `SetStream.verdict`.
Key theorems: `SetStream.results_eq`, `SetStream.gather_eq_verdict`,
`parse_eq_verdict`.
-/
import TagTables.SetStream

namespace TagTables
namespace SetStream

/-- What a stream hands out up to the first answer that is no set, without the reports. -/
def results (s : SetStream) : List (Option (Except SyntaxError TagSet)) := s.answers.map (·.result)

/-- The results of a stream are its next result and, if that is a set, the results behind it. -/
theorem results_eq (s : SetStream) : s.results = s.next.1.result ::
    match s.next.1.result with
    | some (.ok _) => s.next.2.results
    | _ => [] := by
  rw [results, answers_eq, List.map_cons]
  rcases s.next.1.result with _ | _ | set <;> rfl

/-- The sets that a list of results holds, or the error they run into. -/
def verdict : List (Option (Except SyntaxError TagSet)) → Except SyntaxError (List TagSet)
  | some (.ok set) :: rest => (verdict rest).map (set :: ·)
  | some (.error e) :: _ => .error e
  | none :: _ => .ok []
  | [] => .ok []

theorem gather_eq_verdict : ∀ (answers : List Answer) (sets : Array TagSet) (log : Array Event),
    (gather sets log answers).1 = (verdict (answers.map (·.result))).map (sets.toList ++ ·)
  | [], sets, log => by simp [gather, verdict, Except.map]
  | a :: rest, sets, log => by
    have ih := gather_eq_verdict rest
    rcases ha : a.result with _ | e | set
    · simp [gather, verdict, ha, Except.map]
    · simp [gather, verdict, ha, Except.map]
    · simp only [gather, ha, ih, List.map_cons, verdict]
      cases verdict (rest.map (·.result)) <;> simp [Except.map]

end SetStream

theorem parse_eq_verdict (source : String) :
    parse source = SetStream.verdict (SetStream.ofSource source).results := by
  rw [parse, parseLogged, SetStream.gather_eq_verdict, SetStream.results]
  cases SetStream.verdict ((SetStream.ofSource source).answers.map (·.result)) <;> simp [Except.map]

end TagTables
