/-
# Cutting an accepted list of tokens short

Of an accepted list of tokens take the first so many. The blocks that lie
wholly in them are read as before. The block in which the cut falls is a
beginning of a good block: before its delimiter it is a list of stray tokens,
and behind it an unclosed block, whatever place of the grammar the cut falls
in. To see this no place has to be looked at. Reading goes on over the rest of
the tokens where it stood at the cut (`Reading.run_append`), so it can not
have come to the end of a block there, or to a delimiter without a name, or
the whole would end there as well (`Block.exists_ended_of_lt`).

Key definitions: `Grammar.startOf`, `Grammar.wholeWithin`,
`Grammar.EndsInside`.
Key theorems: `Grammar.Reading.run_append`, `Grammar.Block.ending_of_lt`,
`Grammar.exists_splits_take`, `Grammar.truncation_noticed`.
-/
import Mathlib
import TagTables.Proofs.Verdicts

namespace TagTables
namespace Grammar

/-! ### A beginning of a block -/

/-- What becomes of more tokens behind those that are cut. -/
def Cut.goOn (more : List Token) : Cut → Cut
  | ended r => r.run more
  | block b rest => .block b (rest ++ more)
  | nameless mark rest => .nameless mark (rest ++ more)

/-- Reading goes on where it stood. -/
theorem Reading.run_append (more : List Token) : ∀ (ts : List Token) (r : Reading),
    r.run (ts ++ more) = (r.run ts).goOn more
  | [], r => rfl
  | t :: ts, r => by
    rw [List.cons_append, run, run]
    rcases r.step t with r' | b | mark
    · exact run_append more ts r'
    · rfl
    · rfl

namespace Block

variable (b : Block) {n : Nat}

theorem exists_ended_of_lt (h : n < b.tokens.length) : ∃ r, cut (b.tokens.take n) = .ended r := by
  have hwhole : (cut (b.tokens.take n)).goOn (b.tokens.drop n) = .block b [] := by
    have hblock := cut_block b []
    rw [List.append_nil, ← List.take_append_drop n b.tokens, cut, Reading.run_append] at hblock
    exact hblock
  rcases hcut : cut (b.tokens.take n) with r | ⟨b', rest⟩ | ⟨mark, rest⟩
  · exact ⟨r, rfl⟩
  · rw [hcut, Cut.goOn, Cut.block.injEq, List.append_eq_nil_iff, List.drop_eq_nil_iff] at hwhole
    omega
  · rw [hcut] at hwhole
    cases hwhole

theorem exists_headMark : ∃ mark : HeadMark, b.tokens[b.head.title.tokens.length]? = some mark.val := by
  obtain ⟨⟨title, _ | list, opening⟩, items, closing⟩ := b
  · exact ⟨⟨opening.val, .inl opening.property⟩, by simp [tokens, Head.tokens]⟩
  · exact ⟨⟨list.bar.val, .inr list.bar.property⟩, by simp [tokens, Head.tokens, FieldList.tokens]⟩

theorem take_of_le_title (h : n ≤ b.head.title.tokens.length) :
    b.tokens.take n = ((b.head.title.dropped ++ [b.head.title.name]).take n).map (·.val) := by
  have htitle : b.head.title.tokens = (b.head.title.dropped ++ [b.head.title.name]).map (·.val) := by
    simp [Title.tokens]
  rw [List.map_take, ← htitle, tokens, Head.tokens, List.append_assoc, List.take_append_of_le_length h]

/-- A beginning of a block is stray tokens up to the delimiter, and an unclosed block behind it. -/
theorem ending_of_lt (h : n < b.tokens.length) :
    (n ≤ b.head.title.tokens.length ∧ ∃ l, b.tokens.take n = (Ending.strays l).tokens) ∨
    (b.head.title.tokens.length < n ∧ ∃ u, b.tokens.take n = (Ending.offence (.unclosed u)).tokens) := by
  by_cases htitle : n ≤ b.head.title.tokens.length
  · exact .inl ⟨htitle, _, b.take_of_le_title htitle⟩
  · refine .inr ⟨Nat.lt_of_not_le htitle, ?_⟩
    obtain ⟨r, hr⟩ := b.exists_ended_of_lt h
    have htokens := tokens_cut (b.tokens.take n)
    rw [hr] at htokens
    cases r with
    | inside u => exact ⟨u, htokens.symm⟩
    | naming seen =>
      -- the delimiter would be one of the tokens seen before it
      exfalso
      obtain ⟨mark, hmark⟩ := b.exists_headMark
      have hmem : mark.val ∈ seen.map (·.val) := by
        have hat : (b.tokens.take n)[b.head.title.tokens.length]? = some mark.val := by
          rwa [List.getElem?_take_of_lt (by omega)]
        rw [← htokens] at hat
        exact List.mem_of_getElem? hat
      obtain ⟨t, -, ht⟩ := List.mem_map.mp hmem
      have hplain := t.property
      rw [ht] at hplain
      exact mark.property.elim hplain.1 hplain.2

end Block

/-! ### Where the cut falls -/

/-- The number of tokens in the blocks before this one, which is where it starts. -/
def startOf (blocks : List Block) (i : Nat) : Nat := ((blocks.take i).flatMap Block.tokens).length

/-- How many blocks lie wholly in the first `n` tokens. -/
def wholeWithin (blocks : List Block) (n : Nat) : Nat :=
  (List.range blocks.length).countP fun i => startOf blocks (i + 1) ≤ n

/-- The first `n` tokens end inside a block: they have the delimiter behind its name but not its
closing brace. -/
def EndsInside (blocks : List Block) (n : Nat) : Prop :=
  ∃ i b, blocks[i]? = some b ∧ startOf blocks i + b.head.title.tokens.length < n ∧ n < startOf blocks (i + 1)

section Positions

variable (b : Block) (blocks : List Block)

theorem startOf_zero : startOf blocks 0 = 0 := rfl

theorem startOf_cons (i : Nat) : startOf (b :: blocks) (i + 1) = b.tokens.length + startOf blocks i := by
  simp [startOf]

variable {n : Nat}

theorem wholeWithin_cons_of_le (h : b.tokens.length ≤ n) :
    wholeWithin (b :: blocks) n = wholeWithin blocks (n - b.tokens.length) + 1 := by
  have hfirst : startOf (b :: blocks) (0 + 1) ≤ n := by
    rw [startOf_cons, startOf_zero]
    omega
  unfold wholeWithin
  rw [List.length_cons, List.range_succ_eq_map, List.countP_cons_of_pos (by simpa using hfirst), List.countP_map]
  congr 1
  apply List.countP_congr
  intro i _
  simp only [Function.comp_apply, decide_eq_true_eq]
  rw [startOf_cons]
  omega

theorem wholeWithin_cons_of_lt (h : n < b.tokens.length) : wholeWithin (b :: blocks) n = 0 := by
  unfold wholeWithin
  rw [List.countP_eq_zero]
  intro i _
  simp only [decide_eq_true_eq]
  rw [startOf_cons]
  omega

theorem endsInside_nil : ¬ EndsInside [] n := by
  rintro ⟨i, b, hb, -⟩
  cases hb

theorem endsInside_cons_of_le (h : b.tokens.length ≤ n) :
    EndsInside (b :: blocks) n ↔ EndsInside blocks (n - b.tokens.length) := by
  constructor
  · rintro ⟨_ | i, b', hb', hstart, hstop⟩
    · rw [startOf_cons, startOf_zero] at hstop
      omega
    · rw [startOf_cons] at hstart hstop
      exact ⟨i, b', hb', by omega, by omega⟩
  · rintro ⟨i, b', hb', hstart, hstop⟩
    refine ⟨i + 1, b', hb', ?_, ?_⟩
    · rw [startOf_cons]
      omega
    · rw [startOf_cons]
      omega

theorem endsInside_cons_of_lt (h : n < b.tokens.length) :
    EndsInside (b :: blocks) n ↔ b.head.title.tokens.length < n := by
  constructor
  · rintro ⟨_ | i, b', hb', hstart, -⟩
    · obtain rfl := Option.some.inj hb'
      rwa [startOf_zero, Nat.zero_add] at hstart
    · rw [startOf_cons] at hstart
      omega
  · intro htitle
    refine ⟨0, b, rfl, ?_, ?_⟩
    · rwa [startOf_zero, Nat.zero_add]
    · rwa [startOf_cons, startOf_zero]

end Positions

/-- A beginning of an accepted list of tokens splits into the blocks that lie wholly in it, and an
unclosed block if it ends inside one, or else stray tokens. -/
theorem exists_splits_take (strays : List Plain) : ∀ {blocks : List Block}, (∀ b ∈ blocks, b.Distinct) → ∀ n,
    ∃ ending, Splits ((blocks.flatMap Block.tokens ++ strays.map (·.val)).take n)
        (blocks.take (wholeWithin blocks n)) ending ∧
      ((¬ EndsInside blocks n ∧ ∃ l, ending = .strays l) ∨
        (EndsInside blocks n ∧ ∃ u, ending = .offence (.unclosed u)))
  | [], _, n => by
    refine ⟨.strays (strays.take n), ⟨fun _ hb => by simp at hb, ?_⟩, .inl ⟨endsInside_nil, _, rfl⟩⟩
    simp [Ending.tokens, List.map_take]
  | b :: blocks, hdistinct, n => by
    obtain ⟨hb, hothers⟩ := List.forall_mem_cons.mp hdistinct
    by_cases hn : b.tokens.length ≤ n
    · -- the first block is whole, and the cut falls behind it
      obtain ⟨ending, hsplit, hending⟩ := exists_splits_take strays hothers (n - b.tokens.length)
      rw [wholeWithin_cons_of_le b blocks hn, endsInside_cons_of_le b blocks hn]
      refine ⟨ending, ⟨?_, ?_⟩, hending⟩
      · intro x hx
        exact hdistinct x (List.mem_of_mem_take hx)
      · rw [List.take_succ_cons, List.flatMap_cons, List.flatMap_cons, List.append_assoc, List.append_assoc,
          ← hsplit.tokens, List.take_append, List.take_of_length_le hn]
    · have hlt := Nat.lt_of_not_le hn
      have htake : ((b :: blocks).flatMap Block.tokens ++ strays.map (·.val)).take n = b.tokens.take n := by
        rw [List.flatMap_cons, List.append_assoc, List.take_append_of_le_length (by omega)]
      rw [wholeWithin_cons_of_lt b blocks hlt, endsInside_cons_of_lt b blocks hlt, htake]
      rcases b.ending_of_lt hlt with ⟨htitle, l, hl⟩ | ⟨htitle, u, hu⟩
      · exact ⟨.strays l, ⟨fun _ hb => by simp at hb, hl⟩, .inl ⟨by omega, l, rfl⟩⟩
      · exact ⟨.offence (.unclosed u), ⟨fun _ hb => by simp at hb, hu⟩, .inr ⟨htitle, u, rfl⟩⟩

/-- **Truncation is always noticed.** If a list of tokens is accepted, the stream over the first `n` of
them hands out the sets of the blocks that lie wholly in these, and no others. Then it comes to its end,
unless the cut falls inside a block behind its delimiter: then there is an error that the tokens run out
where the last one ends. No other error is ever handed out. -/
theorem truncation_noticed {ts : List Token} {sets : List TagSet}
    (h : (SetStream.ofTokens ts).results = sets.map (fun set => some (.ok set)) ++ [none]) (n : Nat) :
    (∃ file : File, file.tokens = ts ∧ List.Forall₂ Block.Denotes file.blocks sets ∧
      ∃ last, (SetStream.ofTokens (ts.take n)).results =
          (sets.take (wholeWithin file.blocks n)).map (fun set => some (.ok set)) ++ [last] ∧
        (¬ EndsInside file.blocks n → last = none) ∧
        (EndsInside file.blocks n → ∃ awaited,
          last = some (.error (.unexpectedEnd awaited (.point (lastStop 0 (ts.take n))))))) ∧
    (∀ set, some (.ok set) ∈ (SetStream.ofTokens (ts.take n)).results → set ∈ sets) ∧
    ∀ e, some (.error e) ∈ (SetStream.ofTokens (ts.take n)).results →
      ∃ awaited span, e = .unexpectedEnd awaited span := by
  obtain ⟨file, rfl, hsets⟩ := (results_eq_sets_iff rfl (Feed.gives_ofAnswers ts) sets).mp h
  obtain ⟨ending, hsplit, hending⟩ := exists_splits_take file.strays file.distinct n
  obtain ⟨sets', last, hsets', hyields, hresults⟩ :=
    results_of_split (s := SetStream.ofTokens (file.tokens.take n)) rfl (Feed.gives_ofAnswers _) hsplit
  obtain rfl : sets' = sets.take (wholeWithin file.blocks n) :=
    denotes_unique hsets' (List.forall₂_take _ hsets)
  have hlast : (¬ EndsInside file.blocks n ∧ last = none) ∨ (EndsInside file.blocks n ∧ ∃ awaited,
      last = some (.error (.unexpectedEnd awaited (.point (lastStop 0 (file.tokens.take n)))))) := by
    rcases hending with ⟨houtside, l, rfl⟩ | ⟨hinside, u, rfl⟩
    · exact .inl ⟨houtside, hyields⟩
    · obtain ⟨e, hcauses, rfl⟩ := hyields
      exact .inr ⟨hinside, u.awaited, by rw [show e = _ from hcauses]; rfl⟩
  refine ⟨⟨file, rfl, hsets, last, hresults, fun houtside => ?_, fun hinside => ?_⟩, fun set hset => ?_,
    fun e he => ?_⟩
  · exact (hlast.resolve_right fun hin => houtside hin.1).2
  · exact (hlast.resolve_left fun hout => hout.1 hinside).2
  · rcases mem_handedOut.mp (hresults ▸ hset) with ⟨set', hmem, heq⟩ | rfl
    · obtain rfl := Except.ok.inj (Option.some.inj heq)
      exact List.mem_of_mem_take hmem
    · rcases hlast with ⟨-, hnone⟩ | ⟨-, _, herror⟩
      · cases hnone
      · cases herror
  · rcases mem_handedOut.mp (hresults ▸ he) with ⟨_, -, heq⟩ | rfl
    · cases heq
    · rcases hlast with ⟨-, hnone⟩ | ⟨-, awaited, herror⟩
      · cases hnone
      · exact ⟨awaited, _, Except.error.inj (Option.some.inj herror)⟩

/-- A cut right behind a closing brace that was taken for a value falls inside the second block. -/
theorem cut_behind_brace_value_noticed :
    (SetStream.ofTokens (lex "B \x7b z \x7d A | f \x7b x \x7d y 1 \x7d")).results =
        [⟨"B", [], #[⟨"z", [], ⟨4, 5⟩⟩], ⟨0, 7⟩⟩,
          ⟨"A", ["f"], #[⟨"x", ["\x7d"], ⟨16, 19⟩⟩, ⟨"y", ["1"], ⟨20, 23⟩⟩], ⟨8, 25⟩⟩].map
          (fun set => some (.ok set)) ++ [none] ∧
      ∃ file : File, file.tokens = lex "B \x7b z \x7d A | f \x7b x \x7d y 1 \x7d" ∧
        wholeWithin file.blocks 10 = 1 ∧ EndsInside file.blocks 10 := by
  have hall : (SetStream.ofTokens (lex "B \x7b z \x7d A | f \x7b x \x7d y 1 \x7d")).results =
      [⟨"B", [], #[⟨"z", [], ⟨4, 5⟩⟩], ⟨0, 7⟩⟩,
        ⟨"A", ["f"], #[⟨"x", ["\x7d"], ⟨16, 19⟩⟩, ⟨"y", ["1"], ⟨20, 23⟩⟩], ⟨8, 25⟩⟩].map
        (fun set => some (.ok set)) ++ [none] := by
    cbv
  have hcut : (SetStream.ofTokens ((lex "B \x7b z \x7d A | f \x7b x \x7d y 1 \x7d").take 10)).results =
      handedOut [⟨"B", [], #[⟨"z", [], ⟨4, 5⟩⟩], ⟨0, 7⟩⟩]
        (some (.error (.unexpectedEnd .tagOrBrace (.point 19)))) := by
    cbv
  obtain ⟨⟨file, hfile, -, last, hresults, houtside, -⟩, -, -⟩ := truncation_noticed hall 10
  obtain ⟨hsets, hlast⟩ := handedOut_inj (hcut.symm.trans hresults)
  refine ⟨hall, file, hfile, ?_, ?_⟩
  · have hlength := congrArg List.length hsets
    rw [List.length_take, List.length_singleton, List.length_cons, List.length_singleton] at hlength
    omega
  · by_contra hnot
    cases hlast.trans (houtside hnot)

end Grammar
end TagTables
