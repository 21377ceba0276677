/-
# Streams over token sources with pauses

A token source may answer with nothing and still have tokens behind that. Its
tokens then come in segments, with one answer without a token between two of
them. A stream ends a segment as it would end if the segment were all there
is: it hands out nothing if no block is open, and an error otherwise. In the
first case it goes on behind the pause as a fresh stream does. It keeps the
end of the last token before, but an error at the end of the tokens is raised
only behind a token of the same block, so that never shows
(`results_eq_of_gives`). In the second case it is over.

Key definitions: `Feed.Fused`, `SetStream.call`, `SetStream.alone`,
`upToError`.
Key theorems: `SetStream.next_cases`, `Grammar.results_eq_of_gives`,
`Grammar.after_segment`, `SetStream.call_of_segments`,
`stream_over_segments`.
-/
import Mathlib
import TagTables.Proofs.InStep
import TagTables.Proofs.Lookup
import TagTables.Proofs.Verdicts

namespace TagTables

namespace Feed

/-- The answer of a source with this number. Behind the last it has no more tokens. -/
def answer (feed : Feed) (i : Nat) : Option Token := feed[i]?.bind (·.token?)

/-- Once it has answered with nothing, the source always does. -/
def Fused (feed : Feed) : Prop := ∀ ⦃i j : Nat⦄, i ≤ j → feed.answer i = none → feed.answer j = none

/-- The source answers with nothing only. -/
def Silent (feed : Feed) : Prop := ∀ pull ∈ feed, pull.token? = none

theorem Fused.tail {pull : Pull} {rest : Feed} (h : Feed.Fused (pull :: rest)) : Feed.Fused rest :=
  fun _ _ hij hi => h (Nat.succ_le_succ hij) hi

theorem Gives.silent {feed : Feed} {ts : List Token} {behind : Feed} (h : feed.Gives ts behind)
    (hfused : feed.Fused) : behind.Silent := by
  induction h with
  | ended => exact fun _ hpull => by cases hpull
  | @pause pull rest ht =>
    intro p hp
    obtain ⟨i, hi⟩ := List.mem_iff_getElem?.mp hp
    have hnone := hfused (Nat.zero_le (i + 1)) ht
    unfold answer at hnone
    rwa [List.getElem?_cons_succ, hi] at hnone
  | token _ _ ih => exact ih hfused.tail

end Feed

namespace SetStream

/-- The stream over a token source. -/
def ofFeed (feed : Feed) : SetStream := ⟨feed, 0, false⟩

/-- The result of an answer of the stream; the next one has number zero. -/
def call (s : SetStream) (k : Nat) : Result := (s.after k).next.1.result

theorem after_add (s : SetStream) (m : Nat) : ∀ n, s.after (m + n) = (s.after m).after n
  | 0 => rfl
  | n + 1 => by
    show (s.after (m + n)).next.2 = ((s.after m).after n).next.2
    rw [after_add s m n]

theorem after_succ (s : SetStream) (n : Nat) : s.after (n + 1) = s.next.2.after n := by
  rw [Nat.add_comm, after_add]
  rfl

theorem call_add (s : SetStream) (m n : Nat) : s.call (m + n) = (s.after m).call n := by
  unfold call
  rw [after_add]

theorem call_succ (s : SetStream) (n : Nat) : s.call (n + 1) = s.next.2.call n := by
  unfold call
  rw [after_succ]

theorem call_of_results {s : SetStream} {k : Nat} {r : Result} (h : s.results[k]? = some r) : s.call k = r := by
  induction k generalizing s with
  | zero =>
    rw [results_eq] at h
    exact Option.some.inj h
  | succ k ih =>
    rw [results_eq, List.getElem?_cons_succ] at h
    rw [call_succ]
    rcases hr : s.next.1.result with _ | _ | set <;> simp only [hr] at h
    · cases h
    · cases h
    · exact ih h

theorem call_of_lt {s : SetStream} {k : Nat} (hk : k < s.results.length) : s.call k = s.results[k]?.join := by
  rw [List.getElem?_eq_getElem hk, call_of_results (List.getElem?_eq_getElem hk)]
  rfl

/-! ### Streams that are over -/

theorem after_of_failed {s : SetStream} (h : s.failed = true) : ∀ n, s.after n = s
  | 0 => rfl
  | n + 1 => by
    show (s.after n).next.2 = s
    rw [after_of_failed h n, next, if_pos h]

theorem call_of_failed {s : SetStream} (h : s.failed = true) (n : Nat) : s.call n = none := by
  rw [call, after_of_failed h, next, if_pos h]

theorem next_of_silent {s : SetStream} (h : s.feed.Silent) :
    s.next.1.result = none ∧ s.next.2.feed.Silent := by
  unfold next
  by_cases hf : s.failed
  · rw [if_pos hf]
    exact ⟨rfl, h⟩
  · rw [if_neg hf]
    rcases hfeed : s.feed with _ | ⟨pull, rest⟩
    · exact ⟨rfl, fun _ hpull => by cases hpull⟩
    · rw [hfeed] at h
      rw [readFrom, h pull List.mem_cons_self]
      exact ⟨rfl, fun p hp => h p (List.mem_cons_of_mem pull hp)⟩

theorem call_of_silent {s : SetStream} (h : s.feed.Silent) (n : Nat) : s.call n = none := by
  induction n generalizing s with
  | zero => exact (next_of_silent h).1
  | succ n ih =>
    rw [call_succ]
    exact ih (next_of_silent h).2

/-- What one answer can be. It is a set, and the stream goes on before the next pause; or an error, and
the stream has failed; or nothing, and the stream goes on behind the pause. -/
theorem next_cases {s : SetStream} {ts : List Token} {behind : Feed} (hf : s.failed = false)
    (h : s.feed.Gives ts behind) :
    (∃ set rest, s.next.1.result = some (.ok set) ∧ s.next.2.failed = false ∧ s.next.2.feed.Gives rest behind) ∨
    (∃ e, s.next.1.result = some (.error e) ∧ s.next.2.failed = true) ∨
    (s.next.1.result = none ∧ s.next.2.failed = false ∧ s.next.2.feed = behind) := by
  have hanswer := Grammar.next_answered hf h
  rcases hcut : Grammar.cut ts with r | ⟨b, rest⟩ | ⟨mark, rest⟩
  · rw [hcut, Grammar.Cut.Answered] at hanswer
    obtain ⟨hresult, hgoes⟩ := hanswer
    rw [hresult, hgoes]
    rcases (r.phase.finish (lastStop s.lastEnd ts)).1 with _ | e
    · exact .inr (.inr ⟨rfl, rfl, rfl⟩)
    · exact .inr (.inl ⟨e, rfl, rfl⟩)
  · rw [hcut, Grammar.Cut.Answered] at hanswer
    obtain ⟨hresult, hrest, -, hfailed⟩ := hanswer
    rw [hresult, hfailed]
    rcases b.close with e | set
    · exact .inr (.inl ⟨e, rfl, rfl⟩)
    · exact .inl ⟨set, rest, rfl, rfl, hrest⟩
  · rw [hcut] at hanswer
    exact .inr (.inl ⟨_, hanswer⟩)

theorem failed_of_error {s : SetStream} {e : SyntaxError} (h : s.next.1.result = some (.error e)) :
    s.next.2.failed = true := by
  by_cases hf : s.failed
  · rw [next, if_pos hf] at h
    cases h
  · obtain ⟨ts, behind, hgives⟩ := s.feed.exists_gives
    rcases next_cases (Bool.eq_false_of_not_eq_true hf) hgives with ⟨_, _, hset, -⟩ | ⟨_, -, hfailed⟩ | ⟨hnone, -⟩
    · cases h.symm.trans hset
    · exact hfailed
    · cases h.symm.trans hnone

/-- Behind an error a stream hands out nothing and stays as it is. -/
theorem call_behind_error {s : SetStream} {i j : Nat} {e : SyntaxError} (h : s.call i = some (.error e))
    (hij : i < j) : s.call j = none ∧ s.after j = s.after (i + 1) := by
  have hfailed : (s.after (i + 1)).failed = true := failed_of_error h
  obtain ⟨n, rfl⟩ : ∃ n, j = (i + 1) + n := ⟨j - (i + 1), by omega⟩
  rw [call_add, after_add s (i + 1) n]
  exact ⟨call_of_failed hfailed n, after_of_failed hfailed n⟩

/-- Where nothing comes behind the next pause, a stream at its end stays there. -/
theorem call_of_le {behind : Feed} (hsilent : behind.Silent) {i j : Nat} (hij : i ≤ j) {ts : List Token}
    {s : SetStream} (hf : s.failed = false) (h : s.feed.Gives ts behind) (hi : s.call i = none) :
    s.call j = none := by
  induction i generalizing j s ts with
  | zero =>
    rcases next_cases hf h with ⟨_, _, hset, -⟩ | ⟨_, herror, -⟩ | ⟨-, -, hfeed⟩
    · cases hset.symm.trans hi
    · cases herror.symm.trans hi
    · by_cases hj : j = 0
      · rwa [hj]
      · obtain ⟨n, rfl⟩ : ∃ n, j = n + 1 := ⟨j - 1, by omega⟩
        rw [call_succ]
        exact call_of_silent (hfeed ▸ hsilent) n
  | succ i ih =>
    obtain ⟨n, rfl⟩ : ∃ n, j = n + 1 := ⟨j - 1, by omega⟩
    rw [call_succ] at hi ⊢
    rcases next_cases hf h with ⟨_, _, -, hgoes, hrest⟩ | ⟨_, -, hfailed⟩ | ⟨-, -, hfeed⟩
    · exact ih (by omega) hgoes hrest hi
    · exact call_of_failed hfailed n
    · exact call_of_silent (hfeed ▸ hsilent) n

end SetStream

/-! ### One segment -/

namespace Grammar

/-- Where the tokens before ended does not matter for an ending that has tokens of its own. -/
theorem Ending.Yields.of_stop {e : Ending} {stop stop' : Nat} {r : Result} (h : e.Yields stop r)
    (hstop : ∀ b, e = .offence (.unclosed b) → stop = stop') : e.Yields stop' r := by
  rcases e with l | ⟨mark, rest⟩ | b | ⟨b, hb, rest⟩
  · exact h
  · exact h
  · rwa [← hstop b rfl]
  · exact h

theorem Ending.Yields.unique {e : Ending} {stop : Nat} {r r' : Result} (h : e.Yields stop r)
    (h' : e.Yields stop r') : r = r' := by
  cases e with
  | strays l => exact Eq.trans h (Eq.symm h')
  | offence o =>
    obtain ⟨err, hcauses, rfl⟩ := h
    obtain ⟨err', hcauses', rfl⟩ := h'
    rw [hcauses.unique hcauses']

theorem lastStop_of_ne_nil {ts : List Token} (h : ts ≠ []) (start start' : Nat) :
    lastStop start ts = lastStop start' ts := by
  unfold lastStop
  rw [List.getLast?_eq_some_getLast h]
  rfl

/-- The results depend on the tokens up to the next pause only. -/
theorem results_eq_of_gives {s s' : SetStream} {ts : List Token} {behind behind' : Feed} (hf : s.failed = false)
    (hf' : s'.failed = false) (h : s.feed.Gives ts behind) (h' : s'.feed.Gives ts behind') :
    s.results = s'.results := by
  obtain ⟨blocks, ending, hsplit⟩ := exists_split ts
  obtain ⟨sets, last, hsets, hyields, hresults⟩ := results_of_split hf h hsplit
  obtain ⟨sets', last', hsets', hyields', hresults'⟩ := results_of_split hf' h' hsplit
  have hstop : ∀ b, ending = .offence (.unclosed b) → lastStop s.lastEnd ts = lastStop s'.lastEnd ts := by
    rintro b rfl
    apply lastStop_of_ne_nil
    rw [hsplit.tokens]
    exact List.append_ne_nil_of_right_ne_nil _ b.tokens_ne_nil
  rw [hresults, hresults', denotes_unique hsets hsets', (hyields.of_stop hstop).unique hyields']

/-- Behind the blocks of a segment without an error a stream stands behind the pause. -/
theorem after_segment {l : List Plain} {behind : Feed} : ∀ {blocks : List Block} {ts : List Token}
    {s : SetStream}, s.failed = false → s.feed.Gives ts behind → Splits ts blocks (.strays l) →
      (s.after (blocks.length + 1)).feed = behind ∧ (s.after (blocks.length + 1)).failed = false
  | [], ts, s, hf, hgives, hsplit => by
    have hanswer := next_answered hf hgives
    have hfinish : ∀ stop, ((Reading.naming l).phase.finish stop).1 = none := by
      intro stop
      rw [Reading.phase]
      cases l.getLast? <;> rfl
    rw [hsplit.cut_nil, Ending.cut, Cut.Answered, hfinish] at hanswer
    show s.next.2.feed = behind ∧ s.next.2.failed = false
    rw [hanswer.2]
    exact ⟨rfl, rfl⟩
  | b :: blocks, ts, s, hf, hgives, hsplit => by
    have hanswer := next_answered hf hgives
    obtain ⟨set, hclose, -⟩ := Block.close_of_distinct (hsplit.distinct b List.mem_cons_self)
    rw [hsplit.cut_cons, Cut.Answered, hclose] at hanswer
    obtain ⟨-, hrest, -, hgoes⟩ := hanswer
    rw [List.length_cons, SetStream.after_succ]
    exact after_segment hgoes hrest hsplit.tail

end Grammar

/-! ### All segments -/

/-- Results up to the first error, that one included. -/
def upToError : List Result → List Result
  | [] => []
  | some (.error e) :: _ => [some (.error e)]
  | r :: rest => r :: upToError rest

theorem upToError_sets (rest : List Result) : ∀ sets : List TagSet,
    upToError (sets.map (fun set => some (.ok set)) ++ rest) =
      sets.map (fun set => some (.ok set)) ++ upToError rest
  | [] => rfl
  | set :: sets => by
    rw [List.map_cons, List.cons_append, upToError, upToError_sets rest sets]
    · rfl
    · simp

/-- What a fresh stream over these tokens alone hands out, and then once nothing. -/
def SetStream.alone (ts : List Token) : List Result :=
  ((SetStream.ofTokens ts).results.filterMap id).map some ++ [none]

theorem SetStream.alone_of_results {ts : List Token} {sets : List TagSet} {last : Result}
    (h : (SetStream.ofTokens ts).results = Grammar.handedOut sets last) :
    alone ts = sets.map (fun set => some (.ok set)) ++ (last.toList.map some ++ [none]) := by
  have hsets : (sets.map fun set => some (Except.ok (ε := SyntaxError) set)).filterMap id = sets.map .ok := by
    simp [List.filterMap_map]
  unfold alone
  rw [h, Grammar.handedOut, List.filterMap_append, hsets]
  cases last <;> simp

theorem SetStream.upToError_alone_of_sets {ts : List Token} {sets : List TagSet} (rest : List Result)
    (h : (SetStream.ofTokens ts).results = Grammar.handedOut sets none) :
    upToError (alone ts ++ rest) = Grammar.handedOut sets none ++ upToError rest := by
  have hpause : upToError ((none : Result).toList.map some ++ [none] ++ rest) = [none] ++ upToError rest := rfl
  rw [alone_of_results h, List.append_assoc, upToError_sets, hpause, Grammar.handedOut, List.append_assoc]

theorem SetStream.upToError_alone_of_error {ts : List Token} {sets : List TagSet} {e : SyntaxError}
    (rest : List Result) (h : (SetStream.ofTokens ts).results = Grammar.handedOut sets (some (.error e))) :
    upToError (alone ts ++ rest) = Grammar.handedOut sets (some (.error e)) := by
  rw [alone_of_results h, Grammar.handedOut, List.append_assoc, upToError_sets]
  rfl

namespace Feed

/-- A source that answers with these tokens, then with nothing, goes on with the rest. -/
theorem exists_gives_of_append : ∀ {ts : List Token} {feed : Feed} {answers : List (Option Token)},
    feed.map (·.token?) = ts.map some ++ none :: answers →
      ∃ behind, feed.Gives ts behind ∧ behind.map (·.token?) = answers
  | [], feed, answers, h => by
    obtain ⟨pull, behind, rfl, hpull, hbehind⟩ := List.map_eq_cons_iff.mp h
    exact ⟨behind, .pause hpull, hbehind⟩
  | t :: ts, feed, answers, h => by
    obtain ⟨pull, rest, rfl, hpull, hrest⟩ := List.map_eq_cons_iff.mp h
    obtain ⟨behind, hgives, hbehind⟩ := exists_gives_of_append hrest
    exact ⟨behind, .token hpull hgives, hbehind⟩

/-- A source gives its first segment and goes on with the others. -/
theorem exists_gives_of_segments {ts : List Token} {more : List (List Token)} {feed : Feed}
    (h : feed.map (·.token?) = [none].intercalate ((ts :: more).map (·.map some))) :
    ∃ behind, feed.Gives ts behind ∧
      behind.map (·.token?) = [none].intercalate (more.map (·.map some)) := by
  by_cases hmore : more = []
  · subst hmore
    rw [List.map_singleton, List.intercalate_singleton] at h
    exact ⟨[], gives_of_map h, rfl⟩
  · rw [List.map_cons, List.intercalate_cons_of_ne_nil (by simpa using hmore), List.append_assoc] at h
    exact exists_gives_of_append h

end Feed

/-- A stream hands out what fresh streams over the segments do, up to the first error. -/
theorem SetStream.call_of_segments : ∀ {segments : List (List Token)} {s : SetStream}, s.failed = false →
    s.feed.map (·.token?) = [none].intercalate (segments.map (·.map some)) →
      ∀ k, s.call k = (upToError (segments.flatMap alone))[k]?.join
  | [], s, _, h, k => call_of_silent (fun _ hpull => by rw [List.map_eq_nil_iff.mp h] at hpull; cases hpull) k
  | ts :: more, s, hf, h, k => by
    obtain ⟨behind, hgives, hbehind⟩ := Feed.exists_gives_of_segments h
    have hfresh : (SetStream.ofTokens ts).results = s.results :=
      Grammar.results_eq_of_gives rfl hf (Feed.gives_ofAnswers ts) hgives
    rw [List.flatMap_cons]
    rcases Grammar.exists_file_or_rejection ts with ⟨file, rfl⟩ | ⟨r, rfl⟩
    · -- the stream is at the end of the segment and goes on behind the pause
      obtain ⟨sets, hsets, hresults⟩ := Grammar.results_of_file file hf hgives
      obtain ⟨hfeed, hgoes⟩ := Grammar.after_segment hf hgives file.splits
      have ih := call_of_segments hgoes (hfeed ▸ hbehind)
      have hlength : (Grammar.handedOut sets none).length = file.blocks.length + 1 := by
        simp [Grammar.handedOut, hsets.length_eq]
      rw [upToError_alone_of_sets _ (hfresh.trans hresults)]
      by_cases hk : k < (Grammar.handedOut sets none).length
      · rw [List.getElem?_append_left hk, ← hresults]
        exact call_of_lt (hresults ▸ hk)
      · obtain ⟨n, rfl⟩ : ∃ n, k = (file.blocks.length + 1) + n := ⟨k - (file.blocks.length + 1), by omega⟩
        rw [List.getElem?_append_right (by omega), hlength, Nat.add_sub_cancel_left, call_add]
        exact ih n
    · -- the stream fails in this segment
      obtain ⟨sets, e, -, -, hresults⟩ := Grammar.results_of_rejection r hf hgives
      have hlength : s.results.length = sets.length + 1 := by simp [hresults, Grammar.handedOut]
      rw [upToError_alone_of_error _ (hfresh.trans hresults), ← hresults]
      by_cases hk : k < s.results.length
      · exact call_of_lt hk
      · have herror : s.call sets.length = some (.error e) := by
          apply call_of_results
          simp [hresults, Grammar.handedOut]
        rw [List.getElem?_eq_none (by omega), (call_behind_error herror (by omega)).1]
        rfl

/-- **A stream over any token source goes by its segments.** Let the tokens of a source come in segments,
with one answer without a token between two of them and none behind the last. What the stream hands out
is, one segment after the other, what a fresh stream over the segment alone hands out and then once
nothing, up to the first error; and nothing from there on. Behind an error it takes no more tokens, so
there is one error at most. If the source is fused then so is the stream. -/
theorem stream_over_segments {feed : Feed} {segments : List (List Token)}
    (h : feed.map (·.token?) = [none].intercalate (segments.map (·.map some))) :
    (∀ k, (SetStream.ofFeed feed).call k = (upToError (segments.flatMap SetStream.alone))[k]?.join) ∧
    (∀ i e, (SetStream.ofFeed feed).call i = some (.error e) → ∀ j, i < j →
      (SetStream.ofFeed feed).call j = none ∧
        (SetStream.ofFeed feed).after j = (SetStream.ofFeed feed).after (i + 1)) ∧
    (∀ i j e e', (SetStream.ofFeed feed).call i = some (.error e) →
      (SetStream.ofFeed feed).call j = some (.error e') → i = j) ∧
    (feed.Fused → ∀ i j, i ≤ j → (SetStream.ofFeed feed).call i = none → (SetStream.ofFeed feed).call j = none) := by
  refine ⟨SetStream.call_of_segments rfl h, ?_, ?_, ?_⟩
  · intro i e hi j hij
    exact SetStream.call_behind_error hi hij
  · intro i j e e' hi hj
    rcases Nat.lt_trichotomy i j with hij | hij | hij
    · rw [(SetStream.call_behind_error hi hij).1] at hj
      cases hj
    · exact hij
    · rw [(SetStream.call_behind_error hj hij).1] at hi
      cases hi
  · intro hfused i j hij hi
    obtain ⟨ts, behind, hgives⟩ := feed.exists_gives
    exact SetStream.call_of_le (hgives.silent hfused) hij rfl hgives hi

/-- A name that stands before a pause does not name the block behind it. -/
theorem name_forgotten_in_pause :
    (SetStream.ofFeed (Feed.ofSource "A \x7b x \x7d B" ++ ⟨none, []⟩ :: Feed.ofSource "\x7b y \x7d C \x7b")).call 1 =
        none ∧
      (SetStream.ofFeed (Feed.ofSource "A \x7b x \x7d B" ++ ⟨none, []⟩ :: Feed.ofSource "\x7b y \x7d C \x7b")).call 2 =
        some (.error (.missingName ⟨0, 1⟩)) ∧
      (SetStream.ofFeed (Feed.ofSource "A \x7b x \x7d B" ++ ⟨none, []⟩ :: Feed.ofSource "\x7b y \x7d C \x7b")).call 3 =
        none := by
  have hsegments : (Feed.ofSource "A \x7b x \x7d B" ++ ⟨none, []⟩ :: Feed.ofSource "\x7b y \x7d C \x7b").map (·.token?) =
      [none].intercalate ([lex "A \x7b x \x7d B", lex "\x7b y \x7d C \x7b"].map (·.map some)) := by
    cbv
  have hresults : upToError ([lex "A \x7b x \x7d B", lex "\x7b y \x7d C \x7b"].flatMap SetStream.alone) =
      [some (.ok ⟨"A", [], #[⟨"x", [], ⟨4, 5⟩⟩], ⟨0, 7⟩⟩), none, some (.error (.missingName ⟨0, 1⟩))] := by
    cbv
  obtain ⟨hcall, hbehind, -, -⟩ := stream_over_segments hsegments
  rw [hresults] at hcall
  exact ⟨hcall 1, hcall 2, (hbehind 2 _ (hcall 2) 3 (by decide)).1⟩

end TagTables
