/-
# Two streams in step

Of a token the stream looks only at the text and at the delimiter that it
stands for; its form and its span are never asked for, and spans are only
merged and handed on. So two streams whose tokens agree in text and
delimiter go through the same phases, up to spans, and hand out the same
results, up to spans.

How the spans of the two correspond is left open: any relation between spans
will do that is kept when both sides are merged (`Span.Merges`). Tokens that
are `Alike` agree and have corresponding spans; from there the relation goes
through a step (`Phase.step_alike`), a block (`SetStream.readFrom_alike`) and all
that a stream hands out (`SetStream.results_alike`).

Key definitions: `Token.Agrees`, `Span.Merges`, `Token.Alike`, `TagSet.Alike`,
`SyntaxError.Alike`, `Phase.Alike`, `Result.Alike`, `Verdict.Alike`.
Key theorems: `sortByName_alike`, `Phase.step_alike`,
`SetStream.readFrom_alike`, `SetStream.results_alike`, `parse_alike`.
-/
import Mathlib
import TagTables.Proofs.Reader

namespace TagTables

/-- The tokens have the same text and stand for the same delimiter, if for any. -/
structure Token.Agrees (t t' : Token) : Prop where
  text : t.text = t'.text
  delimiter : t.delimiter? = t'.delimiter?

/-- Spans that correspond still do when each side is merged. -/
def Span.Merges (S : Span → Span → Prop) : Prop :=
  ∀ ⦃a a' b b' : Span⦄, S a a' → S b b' → S (a.hull b) (a'.hull b')

/-- What a stream hands out. -/
abbrev Result := Option (Except SyntaxError TagSet)

/-- What the results of a stream amount to. -/
abbrev Verdict := Except SyntaxError (List TagSet)

section Relations

variable (S : Span → Span → Prop)

/-- The tokens agree and their spans correspond. -/
structure Token.Alike (t t' : Token) : Prop extends Token.Agrees t t' where
  span : S t.span t'.span

structure TagEntry.Alike (e e' : TagEntry) : Prop where
  name : e.name = e'.name
  values : e.values = e'.values
  span : S e.span e'.span

/-- The sets are the same, entry by entry, and their spans correspond. -/
structure TagSet.Alike (s s' : TagSet) : Prop where
  name : s.name = s'.name
  fields : s.fields = s'.fields
  entries : List.Forall₂ (TagEntry.Alike S) s.entries.toList s'.entries.toList
  span : S s.span s'.span

/-- The errors are of one kind, say the same, and their spans correspond. A source that ends too
early is blamed on the end of its last token. -/
inductive SyntaxError.Alike : SyntaxError → SyntaxError → Prop where
  | unexpectedEnd (awaited : Awaited) {s s' : Span} : S s s' →
    Alike (.unexpectedEnd awaited (.point s.stop)) (.unexpectedEnd awaited (.point s'.stop))
  | missingName {s s' : Span} : S s s' → Alike (.missingName s) (.missingName s')
  | duplicateTag (set tag : String) {s s' first first' : Span} : S s s' → S first first' →
    Alike (.duplicateTag set tag s first) (.duplicateTag set tag s' first')

inductive Result.Alike : Result → Result → Prop where
  | none : Alike none none
  | set {s s' : TagSet} : s.Alike S s' → Alike (some (.ok s)) (some (.ok s'))
  | error {e e' : SyntaxError} : e.Alike S e' → Alike (some (.error e)) (some (.error e'))

inductive Verdict.Alike : Verdict → Verdict → Prop where
  | accepted {sets sets' : List TagSet} : List.Forall₂ (TagSet.Alike S) sets sets' →
    Alike (.ok sets) (.ok sets')
  | rejected {e e' : SyntaxError} : e.Alike S e' → Alike (.error e) (.error e')

/-- The phases wait for the same and have kept the same, up to spans. -/
inductive Phase.Alike : Phase → Phase → Prop where
  | start : Alike (.naming none) (.naming none)
  | naming {t t' : Token} : t.Alike S t' → Alike (.naming (some t)) (.naming (some t'))
  | fields {n n' : Token} (fs : Array String) : n.Alike S n' → Alike (.fields n fs) (.fields n' fs)
  | tags {n n' : Token} (fs : List String) {es es' : Array TagEntry} : n.Alike S n' →
    List.Forall₂ (TagEntry.Alike S) es.toList es'.toList → Alike (.tags ⟨n, fs⟩ es) (.tags ⟨n', fs⟩ es')
  | values {n n' : Token} (fs : List String) {es es' : Array TagEntry} {tag tag' : Token}
    (got : Array String) {s s' : Span} (field : String) (later : List String) : n.Alike S n' →
    List.Forall₂ (TagEntry.Alike S) es.toList es'.toList → tag.Alike S tag' → S s s' →
    Alike (.values ⟨n, fs⟩ es tag got s field later) (.values ⟨n', fs⟩ es' tag' got s' field later)

inductive Progress.Alike : Progress → Progress → Prop where
  | more {p p' : Phase} : p.Alike S p' → Alike (.more p) (.more p')
  | set {s s' : TagSet} : s.Alike S s' → Alike (.set s) (.set s')
  | fail {e e' : SyntaxError} : e.Alike S e' → Alike (.fail e) (.fail e')

end Relations

variable {S : Span → Span → Prop}

/-! ### Closing a block -/

/-- Sorting goes by the names alone, so entries that are alike stay side by side. -/
theorem sortByName_alike {es es' : List TagEntry} (h : List.Forall₂ (TagEntry.Alike S) es es') :
    List.Forall₂ (TagEntry.Alike S) (sortByName es) (sortByName es') := by
  obtain ⟨hlength, hpairs⟩ := List.forall₂_iff_zip.mp h
  set pairs := es.zip es' with hzip
  have hfst : pairs.map Prod.fst = es := List.map_fst_zip (Nat.le_of_eq hlength)
  have hsnd : pairs.map Prod.snd = es' := List.map_snd_zip (Nat.le_of_eq hlength.symm)
  have halike : ∀ p ∈ pairs, p.1.Alike S p.2 := fun p hp => hpairs hp
  -- sort the pairs by the name of the first, which is that of the second
  let le : TagEntry → TagEntry → Bool := fun a b => decide (a.name ≤ b.name)
  set sorted := pairs.mergeSort fun p q => le p.1 q.1
  have hfirst : sorted.map Prod.fst = sortByName es := by
    have hmap : sorted.map Prod.fst = (pairs.map Prod.fst).mergeSort le :=
      List.map_mergeSort fun _ _ _ _ => rfl
    rw [hmap, hfst]
    rfl
  have hsecond : sorted.map Prod.snd = sortByName es' := by
    have hle : ∀ p ∈ pairs, ∀ q ∈ pairs, le p.1 q.1 = le p.2 q.2 := fun p hp q hq => by
      simp only [le, (halike p hp).name, (halike q hq).name]
    have hmap : sorted.map Prod.snd = (pairs.map Prod.snd).mergeSort le := List.map_mergeSort hle
    rw [hmap, hsnd]
    rfl
  rw [← hfirst, ← hsecond, List.forall₂_map_left_iff, List.forall₂_map_right_iff, List.forall₂_same]
  intro p hp
  exact halike p ((List.mergeSort_perm _ _).mem_iff.mp hp)

theorem adjacentRepeat?_alike {es es' : List TagEntry} (h : List.Forall₂ (TagEntry.Alike S) es es') :
    Option.Rel (fun p p' => p.1.Alike S p'.1 ∧ p.2.Alike S p'.2) (adjacentRepeat? es) (adjacentRepeat? es') := by
  induction h with
  | nil => exact .none
  | @cons first first' rest rest' hfirst hrest ih =>
    cases hrest with
    | nil => exact .none
    | @cons again again' rest rest' hagain hrest =>
      unfold adjacentRepeat?
      rw [← hfirst.name, ← hagain.name]
      by_cases heq : first.name = again.name
      · rw [if_pos heq, if_pos heq]
        exact .some ⟨hfirst, hagain⟩
      · rw [if_neg heq, if_neg heq]
        exact ih

theorem Phase.close_alike (hS : Span.Merges S) {n n' : Token} (fs : List String) {es es' : Array TagEntry}
    {c c' : Span} (hn : n.Alike S n') (hes : List.Forall₂ (TagEntry.Alike S) es.toList es'.toList) (hc : S c c') :
    Result.Alike S (some (Phase.close ⟨n, fs⟩ es c)) (some (Phase.close ⟨n', fs⟩ es' c')) := by
  have hsorted := sortByName_alike hes
  have hrepeat := adjacentRepeat?_alike hsorted
  unfold Phase.close
  dsimp only
  generalize adjacentRepeat? (sortByName es.toList) = found at hrepeat ⊢
  generalize adjacentRepeat? (sortByName es'.toList) = found' at hrepeat ⊢
  cases hrepeat with
  | none =>
    apply Result.Alike.set
    exact ⟨hn.text, rfl, hsorted, hS hn.span hc⟩
  | @some pair pair' hpair =>
    obtain ⟨first, again⟩ := pair
    obtain ⟨first', again'⟩ := pair'
    obtain ⟨hfirst, hagain⟩ : first.Alike S first' ∧ again.Alike S again' := hpair
    simp only [← hn.text, ← hagain.name]
    exact .error (.duplicateTag _ _ hagain.span hfirst.span)

/-! ### A step -/

theorem Token.Agrees.isDelimiter {t t' : Token} (h : t.Agrees t') (d : Delimiter) :
    t.isDelimiter d = t'.isDelimiter d := by
  unfold Token.isDelimiter
  rw [h.delimiter]

theorem forall₂_push {es es' : Array TagEntry} {e e' : TagEntry}
    (hes : List.Forall₂ (TagEntry.Alike S) es.toList es'.toList) (he : e.Alike S e') :
    List.Forall₂ (TagEntry.Alike S) (es.push e).toList (es'.push e').toList := by
  rw [Array.toList_push, Array.toList_push]
  exact List.rel_append hes (.cons he .nil)

namespace Phase

variable {t t' : Token}

theorem step_alike_start (ht : t.Alike S t') :
    Progress.Alike S ((naming none).step t).1 ((naming none).step t').1 := by
  have hd := ht.delimiter
  unfold step
  dsimp only
  generalize t.delimiter? = d at hd ⊢
  subst hd
  rcases t'.delimiter? with _ | _ | _ | _
  · exact .more (.naming ht)
  · exact .fail (.missingName ht.span)
  · exact .more (.naming ht)
  · exact .fail (.missingName ht.span)

theorem step_alike_naming {n n' : Token} (hn : n.Alike S n') (ht : t.Alike S t') :
    Progress.Alike S ((naming (some n)).step t).1 ((naming (some n')).step t').1 := by
  have hd := ht.delimiter
  unfold step
  dsimp only
  generalize t.delimiter? = d at hd ⊢
  subst hd
  rcases t'.delimiter? with _ | _ | _ | _
  · exact .more (.naming ht)
  · exact .more (.tags [] hn .nil)
  · exact .more (.naming ht)
  · exact .more (.fields #[] hn)

theorem step_alike_fields {n n' : Token} (fs : Array String) (hn : n.Alike S n') (ht : t.Alike S t') :
    Progress.Alike S ((fields n fs).step t).1 ((fields n' fs).step t').1 := by
  rw [step, step, ← ht.isDelimiter, ← ht.text]
  by_cases ho : t.isDelimiter .opening = true
  · rw [if_pos ho, if_pos ho]
    exact .more (.tags _ hn .nil)
  · rw [if_neg ho, if_neg ho]
    exact .more (.fields _ hn)

theorem step_alike_tags (hS : Span.Merges S) {n n' : Token} (fs : List String) {es es' : Array TagEntry}
    (hn : n.Alike S n') (hes : List.Forall₂ (TagEntry.Alike S) es.toList es'.toList) (ht : t.Alike S t') :
    Progress.Alike S ((tags ⟨n, fs⟩ es).step t).1 ((tags ⟨n', fs⟩ es').step t').1 := by
  rw [step, step, ← ht.isDelimiter, ← ht.text]
  by_cases hc : t.isDelimiter .closing = true
  · rw [if_pos hc, if_pos hc]
    have hclose := close_alike hS fs hn hes ht.span
    generalize close ⟨n, fs⟩ es t.span = closed at hclose ⊢
    generalize close ⟨n', fs⟩ es' t'.span = closed' at hclose ⊢
    cases hclose with
    | set hset => exact .set hset
    | error he => exact .fail he
  · rw [if_neg hc, if_neg hc]
    cases fs with
    | nil => exact .more (.tags [] hn (forall₂_push hes ⟨rfl, rfl, ht.span⟩))
    | cons field later => exact .more (.values _ #[] field later hn hes ht ht.span)

theorem step_alike_values (hS : Span.Merges S) {n n' : Token} (fs : List String) {es es' : Array TagEntry}
    {tag tag' : Token} (got : Array String) {s s' : Span} (field : String) (later : List String)
    (hn : n.Alike S n') (hes : List.Forall₂ (TagEntry.Alike S) es.toList es'.toList) (htag : tag.Alike S tag')
    (hs : S s s') (ht : t.Alike S t') :
    Progress.Alike S ((values ⟨n, fs⟩ es tag got s field later).step t).1
      ((values ⟨n', fs⟩ es' tag' got s' field later).step t').1 := by
  have hspan : S (s.hull t.span) (s'.hull t'.span) := hS hs ht.span
  cases later with
  | nil =>
    rw [step, step, ← ht.text, ← htag.text]
    exact .more (.tags fs hn (forall₂_push hes ⟨rfl, rfl, hspan⟩))
  | cons next later =>
    rw [step, step, ← ht.text]
    exact .more (.values fs _ next later hn hes htag hspan)

/-- Phases that are alike take tokens that are alike in step. -/
theorem step_alike (hS : Span.Merges S) {p p' : Phase} (hp : p.Alike S p') (ht : t.Alike S t') :
    Progress.Alike S (p.step t).1 (p'.step t').1 := by
  cases hp with
  | start => exact step_alike_start ht
  | naming hn => exact step_alike_naming hn ht
  | fields fs hn => exact step_alike_fields fs hn ht
  | tags fs hn hes => exact step_alike_tags hS fs hn hes ht
  | values fs got field later hn hes htag hs =>
    exact step_alike_values hS fs got field later hn hes htag hs ht

/-- Where no token comes, the end of the last token matters only inside a block. -/
theorem finish_alike {p p' : Phase} (hp : p.Alike S p') {stop stop' : Nat}
    (hstop : p = .naming none ∨ ∃ s s', S s s' ∧ stop = s.stop ∧ stop' = s'.stop) :
    Result.Alike S ((p.finish stop).1.map .error) ((p'.finish stop').1.map .error) := by
  cases hp with
  | start => exact .none
  | naming => exact .none
  | fields _ _ =>
    obtain ⟨s, s', hs, rfl, rfl⟩ := hstop.resolve_left (by simp)
    exact .error (.unexpectedEnd _ hs)
  | tags _ _ _ =>
    obtain ⟨s, s', hs, rfl, rfl⟩ := hstop.resolve_left (by simp)
    exact .error (.unexpectedEnd _ hs)
  | values _ _ _ _ _ _ htag _ =>
    obtain ⟨s, s', hs, rfl, rfl⟩ := hstop.resolve_left (by simp)
    simp only [finish, ← htag.text]
    exact .error (.unexpectedEnd _ hs)

end Phase

/-! ### A block -/

namespace SetStream

theorem readFrom_of_gives_nil {feed behind : Feed} (h : feed.Gives [] behind) (p : Phase) (lastEnd : Nat)
    (log : Array Event) : ∃ log', readFrom p lastEnd log feed = stop p lastEnd log' behind := by
  cases h with
  | ended => exact ⟨log, rfl⟩
  | @pause pull _ hpull =>
    unfold readFrom
    rw [hpull]
    exact ⟨log ++ pull.events, rfl⟩

theorem readFrom_of_gives_cons {feed behind : Feed} {t : Token} {ts : List Token}
    (h : feed.Gives (t :: ts) behind) (p : Phase) (lastEnd : Nat) (log : Array Event) :
    ∃ rest log', Feed.Gives rest ts behind ∧ readFrom p lastEnd log feed =
      match (p.step t).1 with
      | .more p => readFrom p t.span.stop log' rest
      | .set set => (⟨some (.ok set), log'⟩, ⟨rest, t.span.stop, false⟩)
      | .fail e => (⟨some (.error e), log'⟩, ⟨rest, t.span.stop, true⟩) := by
  cases h with
  | @token pull _ rest _ _ hpull hrest =>
    refine ⟨rest, log ++ pull.events ++ (p.step t).2, hrest, ?_⟩
    rw [readFrom]
    rcases hstep : (p.step t).1 with q | set | e <;> simp only [hpull, hstep]

/-- Two streams have handed out results that are alike, and behind two sets they are given the
rest of their tokens. -/
structure InStep (S : Span → Span → Prop) (out out' : Answer × SetStream) (behind behind' : Feed) (n : Nat) :
    Prop where
  result : Result.Alike S out.1.result out'.1.result
  goesOn : ∀ set, out.1.result = some (.ok set) → out.2.failed = false ∧ out'.2.failed = false ∧
    ∃ rest rest', out.2.feed.Gives rest behind ∧ out'.2.feed.Gives rest' behind' ∧
      List.Forall₂ (Token.Alike S) rest rest' ∧ rest.length < n

/-- Two streams that are given tokens that are alike read a block in step. -/
theorem readFrom_alike (hS : Span.Merges S) {behind behind' : Feed} {ts ts' : List Token}
    (hts : List.Forall₂ (Token.Alike S) ts ts') : ∀ {feed feed' : Feed} {p p' : Phase} (lastEnd lastEnd' : Nat)
      (log log' : Array Event), feed.Gives ts behind → feed'.Gives ts' behind' → p.Alike S p' →
      (p = .naming none ∨ ∃ s s', S s s' ∧ lastEnd = s.stop ∧ lastEnd' = s'.stop) →
      InStep S (readFrom p lastEnd log feed) (readFrom p' lastEnd' log' feed') behind behind' ts.length := by
  induction hts with
  | nil =>
    intro feed feed' p p' lastEnd lastEnd' log log' hfeed hfeed' hp hend
    obtain ⟨log₁, hread⟩ := readFrom_of_gives_nil hfeed p lastEnd log
    obtain ⟨log₂, hread'⟩ := readFrom_of_gives_nil hfeed' p' lastEnd' log'
    rw [hread, hread']
    refine ⟨Phase.finish_alike hp hend, fun set hset => ?_⟩
    exact absurd hset (stop_result_ne_ok p lastEnd log₁ behind set)
  | @cons t t' ts ts' ht hts ih =>
    intro feed feed' p p' lastEnd lastEnd' log log' hfeed hfeed' hp hend
    obtain ⟨rest, log₁, hrest, hread⟩ := readFrom_of_gives_cons hfeed p lastEnd log
    obtain ⟨rest', log₂, hrest', hread'⟩ := readFrom_of_gives_cons hfeed' p' lastEnd' log'
    have hstep := Phase.step_alike hS hp ht
    rw [hread, hread']
    generalize (p.step t).1 = progress at hstep ⊢
    generalize (p'.step t').1 = progress' at hstep ⊢
    cases hstep with
    | more hmore =>
      have hin := ih t.span.stop t'.span.stop log₁ log₂ hrest hrest' hmore (.inr ⟨_, _, ht.span, rfl, rfl⟩)
      refine ⟨hin.result, fun set hset => ?_⟩
      obtain ⟨hf, hf', us, us', hus, hus', halike, hlt⟩ := hin.goesOn set hset
      exact ⟨hf, hf', us, us', hus, hus', halike, Nat.lt_succ_of_lt hlt⟩
    | set hset => exact ⟨.set hset, fun _ _ => ⟨rfl, rfl, ts, ts', hrest, hrest', hts, Nat.lt_succ_self _⟩⟩
    | fail he => exact ⟨.error he, fun _ hset => by cases hset⟩

/-! ### All results -/

/-- Two streams that are given tokens that are alike hand out results that are alike. Where the
last token before ended does not matter. -/
theorem results_alike (hS : Span.Merges S) {s s' : SetStream} {ts ts' : List Token} {behind behind' : Feed}
    (hf : s.failed = false) (hf' : s'.failed = false) (hfeed : s.feed.Gives ts behind)
    (hfeed' : s'.feed.Gives ts' behind') (hts : List.Forall₂ (Token.Alike S) ts ts') :
    List.Forall₂ (Result.Alike S) s.results s'.results := by
  induction hn : ts.length using Nat.strongRecOn generalizing ts ts' s s' with
  | ind n ih =>
    have hnext : ∀ {s : SetStream}, s.failed = false →
        s.next = readFrom (.naming none) s.lastEnd #[] s.feed := fun hf => by simp [next, hf]
    have hin := readFrom_alike hS hts s.lastEnd s'.lastEnd #[] #[] hfeed hfeed' .start (.inl rfl)
    rw [← hnext hf, ← hnext hf'] at hin
    have hresult := hin.result
    have hgoes := hin.goesOn
    rw [s.results_eq, s'.results_eq]
    generalize s.next.1.result = r at hresult hgoes ⊢
    generalize s'.next.1.result = r' at hresult hgoes ⊢
    cases hresult with
    | none => exact .cons Result.Alike.none .nil
    | error he => exact .cons (Result.Alike.error he) .nil
    | set hset =>
      obtain ⟨hg, hg', us, us', hus, hus', halike, hlt⟩ := hgoes _ rfl
      exact .cons (Result.Alike.set hset) (ih us.length (hn ▸ hlt) hg hg' hus hus' halike rfl)

theorem verdict_alike {rs rs' : List Result} (h : List.Forall₂ (Result.Alike S) rs rs') :
    Verdict.Alike S (verdict rs) (verdict rs') := by
  induction h with
  | nil => exact .accepted .nil
  | cons hr hrs ih =>
    cases hr with
    | none => exact .accepted .nil
    | error he => exact .rejected he
    | set hset =>
      unfold verdict
      generalize verdict _ = v at ih ⊢
      generalize verdict _ = v' at ih ⊢
      cases ih with
      | accepted hsets => exact .accepted (.cons hset hsets)
      | rejected he => exact .rejected he

end SetStream

/-- Sources whose tokens are alike get verdicts that are alike. -/
theorem parse_alike (hS : Span.Merges S) {a b : String}
    (h : List.Forall₂ (Token.Alike S) (lex a) (lex b)) : Verdict.Alike S (parse a) (parse b) := by
  rw [parse_eq_verdict, parse_eq_verdict]
  apply SetStream.verdict_alike
  exact SetStream.results_alike hS rfl rfl (Feed.gives_ofSource a) (Feed.gives_ofSource b) h

end TagTables
