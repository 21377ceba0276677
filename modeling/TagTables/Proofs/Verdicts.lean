/-
# Which files are accepted, and why the others are not

A list of tokens is accepted exactly if it is spelled out by a file of the
grammar, and then its sets are those that the blocks of the file stand for
(`accepts_iff_grammar`). A source is rejected exactly if its tokens are
spelled out by good blocks and an offence, and then the offence determines
the error and the sets before it are those of the good blocks
(`rejects_iff_offence`). Both splits are unique, so a reader of the tokens
alone can tell the verdict.

Key definitions: `SetStream.ofTokens`.
Key theorems: `Grammar.accepts_iff_grammar`, `Grammar.rejects_iff_offence`.
-/
import Mathlib
import TagTables.Proofs.Reader

namespace TagTables

/-- The stream over a source that answers with these tokens and then with nothing for ever. -/
def SetStream.ofTokens (ts : List Token) : SetStream := ⟨Feed.ofAnswers (ts.map some), 0, false⟩

namespace Grammar

theorem verdict_append (rest : List (Option (Except SyntaxError TagSet))) : ∀ sets : List TagSet,
    SetStream.verdict (sets.map (fun set => some (.ok set)) ++ rest) = (SetStream.verdict rest).map (sets ++ ·)
  | [] => by
    rw [List.map_nil, List.nil_append]
    cases SetStream.verdict rest <;> rfl
  | set :: sets => by
    rw [List.map_cons, List.cons_append, SetStream.verdict, verdict_append rest sets]
    cases SetStream.verdict rest <;> rfl

theorem verdict_handedOut (last : Option (Except SyntaxError TagSet)) (sets : List TagSet) :
    SetStream.verdict (handedOut sets last) = (SetStream.verdict [last]).map (sets ++ ·) :=
  verdict_append [last] sets

theorem denotes_unique {blocks : List Block} {sets sets' : List TagSet}
    (h : List.Forall₂ Block.Denotes blocks sets) (h' : List.Forall₂ Block.Denotes blocks sets') : sets = sets' :=
  List.right_unique_forall₂' (fun _ _ _ hs hs' => hs.unique hs') h h'

theorem Offence.Causes.unique {stop : Nat} {o : Offence} {e e' : SyntaxError} (h : o.Causes stop e)
    (h' : o.Causes stop e') : e = e' := by
  rcases o with ⟨mark, rest⟩ | b | ⟨b, hb, rest⟩
  · exact Eq.trans h (Eq.symm h')
  · exact Eq.trans h (Eq.symm h')
  · obtain ⟨first, again, hrepeat, rfl⟩ := h
    obtain ⟨first', again', hrepeat', rfl⟩ := h'
    obtain ⟨rfl, rfl⟩ := hrepeat.unique hrepeat'
    rfl

/-- A stream over the tokens of a file hands out the sets of its blocks and then nothing. -/
theorem results_of_file (file : File) {s : SetStream} {behind : Feed} (hf : s.failed = false)
    (hgives : s.feed.Gives file.tokens behind) :
    ∃ sets, List.Forall₂ Block.Denotes file.blocks sets ∧ s.results = handedOut sets none := by
  obtain ⟨sets, last, hsets, hyields, hresults⟩ := results_of_split hf hgives file.splits
  exact ⟨sets, hsets, hresults.trans (by rw [show last = none from hyields])⟩

/-- A stream over the tokens of a rejection hands out the sets of its good blocks and then the
error that its offence causes. -/
theorem results_of_rejection (r : Rejection) {s : SetStream} {behind : Feed} (hf : s.failed = false)
    (hgives : s.feed.Gives r.tokens behind) :
    ∃ sets e, List.Forall₂ Block.Denotes r.blocks sets ∧ r.offence.Causes (lastStop s.lastEnd r.tokens) e ∧
      s.results = handedOut sets (some (.error e)) := by
  obtain ⟨sets, last, hsets, ⟨e, hcauses, rfl⟩, hresults⟩ := results_of_split hf hgives r.splits
  exact ⟨sets, e, hsets, hcauses, hresults⟩

theorem exists_file_or_rejection (ts : List Token) :
    (∃ file : File, file.tokens = ts) ∨ ∃ r : Rejection, r.tokens = ts := by
  obtain ⟨blocks, ending, hsplit⟩ := exists_split ts
  cases ending with
  | strays strays => exact .inl ⟨⟨blocks, hsplit.distinct, strays⟩, hsplit.tokens.symm⟩
  | offence o => exact .inr ⟨⟨blocks, hsplit.distinct, o⟩, hsplit.tokens.symm⟩

/-! ### Acceptance -/

/-- A stream hands out these sets and then nothing exactly if the tokens it is given are those of
a file whose blocks stand for the sets. -/
theorem results_eq_sets_iff {s : SetStream} {ts : List Token} {behind : Feed} (hf : s.failed = false)
    (hgives : s.feed.Gives ts behind) (sets : List TagSet) :
    s.results = handedOut sets none ↔
      ∃ file : File, file.tokens = ts ∧ List.Forall₂ Block.Denotes file.blocks sets := by
  constructor
  · intro h
    rcases exists_file_or_rejection ts with ⟨file, rfl⟩ | ⟨r, rfl⟩
    · obtain ⟨sets', hsets, hresults⟩ := results_of_file file hf hgives
      obtain ⟨rfl, -⟩ := handedOut_inj (h.symm.trans hresults)
      exact ⟨file, rfl, hsets⟩
    · obtain ⟨sets', e, -, -, hresults⟩ := results_of_rejection r hf hgives
      cases (handedOut_inj (h.symm.trans hresults)).2
  · rintro ⟨file, rfl, hdenotes⟩
    obtain ⟨sets', hsets, hresults⟩ := results_of_file file hf hgives
    rw [hresults, denotes_unique hdenotes hsets]

theorem verdict_ofTokens {file : File} {sets : List TagSet} (h : List.Forall₂ Block.Denotes file.blocks sets) :
    SetStream.verdict (SetStream.ofTokens file.tokens).results = .ok sets := by
  have hresults := (results_eq_sets_iff (s := SetStream.ofTokens file.tokens) rfl (Feed.gives_ofAnswers _) sets).mpr
    ⟨file, rfl, h⟩
  rw [hresults, verdict_handedOut]
  simp [SetStream.verdict, Except.map]

/-- **The stream accepts exactly its grammar.** It hands out `sets` and comes to its end without
an error exactly if the tokens are spelled out by a file whose blocks stand for these sets; and
no two files spell out the same tokens. -/
theorem accepts_iff_grammar (ts : List Token) (sets : List TagSet) :
    ((SetStream.ofTokens ts).results = sets.map (fun set => some (.ok set)) ++ [none] ↔
      ∃ file : File, file.tokens = ts ∧ List.Forall₂ Block.Denotes file.blocks sets) ∧
    Function.Injective File.tokens :=
  ⟨results_eq_sets_iff rfl (Feed.gives_ofAnswers ts) sets, File.tokens_injective⟩

/-! ### Rejection -/

/-- A source whose tokens are those of a rejection is rejected with the error that the offence
causes, and with no other. -/
theorem parse_of_rejection {source : String} {r : Rejection} (hr : r.tokens = lex source) :
    ∃ sets e, List.Forall₂ Block.Denotes r.blocks sets ∧
      (∀ e', r.offence.Causes (lastStop 0 (lex source)) e' ↔ e' = e) ∧
      (SetStream.ofSource source).results = handedOut sets (some (.error e)) ∧ parse source = .error e := by
  have hgives : (SetStream.ofSource source).feed.Gives r.tokens [] := hr ▸ Feed.gives_ofSource source
  obtain ⟨sets, e, hsets, hcauses, hresults⟩ := results_of_rejection r rfl hgives
  rw [hr] at hcauses
  refine ⟨sets, e, hsets, fun e' => ?_, hresults, ?_⟩
  · exact ⟨fun h => h.unique hcauses, fun h => h ▸ hcauses⟩
  · rw [parse_eq_verdict, hresults, verdict_handedOut]
    rfl

theorem parse_of_file {source : String} {file : File} (hfile : file.tokens = lex source) :
    ∃ sets, List.Forall₂ Block.Denotes file.blocks sets ∧ parse source = .ok sets := by
  have hgives : (SetStream.ofSource source).feed.Gives file.tokens [] := hfile ▸ Feed.gives_ofSource source
  obtain ⟨sets, hsets, hresults⟩ := results_of_file file rfl hgives
  refine ⟨sets, hsets, ?_⟩
  rw [parse_eq_verdict, hresults, verdict_handedOut]
  simp [SetStream.verdict, Except.map]

theorem exists_file_of_parse {source : String} {sets : List TagSet} (h : parse source = .ok sets) :
    ∃ file : File, file.tokens = lex source ∧ List.Forall₂ Block.Denotes file.blocks sets := by
  rcases exists_file_or_rejection (lex source) with ⟨file, hfile⟩ | ⟨r, hr⟩
  · obtain ⟨sets', hsets, hok⟩ := parse_of_file hfile
    obtain rfl := Except.ok.inj (h.symm.trans hok)
    exact ⟨file, hfile, hsets⟩
  · obtain ⟨-, e, -, -, -, herror⟩ := parse_of_rejection hr
    cases h.symm.trans herror

theorem exists_rejection_of_parse {source : String} {e : SyntaxError} (h : parse source = .error e) :
    ∃ r : Rejection, r.tokens = lex source ∧ r.offence.Causes (lastStop 0 (lex source)) e := by
  rcases exists_file_or_rejection (lex source) with ⟨file, hfile⟩ | ⟨r, hr⟩
  · obtain ⟨sets, -, hok⟩ := parse_of_file hfile
    cases h.symm.trans hok
  · obtain ⟨-, e', -, hcauses, -, herror⟩ := parse_of_rejection hr
    obtain rfl := Except.error.inj (h.symm.trans herror)
    exact ⟨r, hr, (hcauses e).mpr rfl⟩

/-- **Rejections are classified exactly.** A source is rejected with `e` exactly if its tokens
are, in one way only, good blocks and an offence, `e` is the one error that the offence causes
where the last token ends, and the sets of the good blocks are handed out before it. -/
theorem rejects_iff_offence (source : String) (e : SyntaxError) :
    parse source = .error e ↔
      ∃ r : Rejection, r.tokens = lex source ∧ (∀ r' : Rejection, r'.tokens = lex source → r' = r) ∧
        (∀ e', r.offence.Causes (lastStop 0 (lex source)) e' ↔ e' = e) ∧
        ∃ sets, List.Forall₂ Block.Denotes r.blocks sets ∧
          (SetStream.ofSource source).results =
            sets.map (fun set => some (.ok set)) ++ [some (.error e)] := by
  constructor
  · intro h
    rcases exists_file_or_rejection (lex source) with ⟨file, hfile⟩ | ⟨r, hr⟩
    · obtain ⟨sets, -, hok⟩ := parse_of_file hfile
      rw [h] at hok
      cases hok
    · obtain ⟨sets, e', hsets, hcauses, hresults, herror⟩ := parse_of_rejection hr
      obtain rfl := Except.error.inj (h.symm.trans herror)
      exact ⟨r, hr, fun r' hr' => Rejection.tokens_injective (hr'.trans hr.symm), hcauses, sets, hsets,
        hresults⟩
  · rintro ⟨r, hr, -, hcauses, -⟩
    obtain ⟨-, e', -, hcauses', -, herror⟩ := parse_of_rejection hr
    rw [herror, (hcauses e').mp ((hcauses' e').mpr rfl)]

-- The second block repeats a tag, but its tokens run out first.
example : parse "A \x7b x \x7d B | f \x7b y 1 y" = .error (.unexpectedEnd (.value "y" "f") (.point 21)) := by
  cbv

end Grammar
end TagTables
